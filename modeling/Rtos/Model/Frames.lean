import Rtos.Model.Step

/-! What the entries leave alone: the wait queues they do not name, and for the
entries that neither take, queue for nor release a mutex, all that concerns mutexes. -/

namespace Rtos

open Lib

namespace Model

variable {a b : Model} {t u cur o : TaskId} {q q' : QueueRef} {p : Priority} {m : MutexId}

theorem isWait_ne_ready (hq : q.isWait = true) : q ≠ .ready p := by
  rintro rfl
  cases hq

theorem setPriority_list_other (hw : WF a) (ht : t ∈ a.tasks) (hq : q.isWait = true)
    (hnot : t ∉ a.list q) : (a.setPriority t p).list q = a.list q := by
  by_cases hb : (a.tcb t).state = .blocked
  · obtain ⟨w, hwq, -⟩ := (hw.ok t ht (by simp)).waiting hb
    have hne : q ≠ w := by
      rintro rfl
      exact hnot (hw.home_mem ht (by simp [home, hb, hwq]))
    rw [setPriority_eq_blocked hb hwq, insertByPriority, setList_list_ne _ _ hne, remove,
      setList_list_ne _ _ hne, setTcb_list]
  · rw [setPriority_eq_ready hb, readyAdd, add, setList_list_ne _ _ (isWait_ne_ready hq), setTcb_list,
      readyRemove, remove, setList_list_ne _ _ (isWait_ne_ready hq)]

theorem boost_list_other (hw : WF a) (ho : o ∈ a.tasks) (hq : q.isWait = true)
    (hnot : o ∉ a.list q) : (a.boost cur o).list q = a.list q := by
  unfold boost
  split_ifs
  · exact setPriority_list_other hw ho hq hnot
  · rfl

theorem boost_list_perm (cur : TaskId) (hw : WF a) (ho : o ∈ a.tasks) (hq : q.isWait = true) :
    ((a.boost cur o).list q).Perm (a.list q) := by
  unfold boost
  split_ifs
  · exact setPriority_list_wait hw ho hq
  · exact List.Perm.refl _

/-- A boosted task that waits is put where its new priority belongs. -/
theorem boost_list (hw : WF a) (ho : o ∈ a.tasks) (hq : q.isWait = true) :
    (a.boost cur o).list q =
      if (a.tcb cur).priority < (a.tcb o).priority ∧ o ∈ a.list q then
        insertWhile (fun i => (a.tcb i).priority ≤ (a.tcb cur).priority) o ((a.list q).erase o)
      else a.list q := by
  split_ifs with h
  · obtain ⟨hlt, hmem⟩ := h
    obtain ⟨hb, hwq⟩ := hw.of_wait hq hmem
    have hnot : o ∉ (a.list q).erase o := (hw.nodup q).not_mem_erase
    rw [boost, if_pos hlt, setPriority_eq_blocked hb hwq, insertByPriority, setList_list_self]
    rw [remove, setList_list_self, setTcb_list]
    refine insertWhile_congr fun i hi => ?_
    have hio : i ≠ o := fun hc => hnot (hc ▸ hi)
    simp [setTcb_tcb, hio]
  · by_cases hmem : o ∈ a.list q
    · rw [boost, if_neg fun hlt => h ⟨hlt, hmem⟩]
    · exact boost_list_other hw ho hq hmem

theorem block_list_other (hc : a.gCurrent = some cur) (ticks : Word) (o : Bool) (hne : q' ≠ q)
    (hq' : q'.isWait = true) : (a.block q ticks o).list q' = a.list q' := by
  rw [block_list hc, enqueue_list_ne o hne (isWait_ne_ready hq')]

theorem block_keeps {β : Type} (hc : a.gCurrent = some cur) (ticks : Word) (o : Bool)
    (g : TcbData → β) (hg : ∀ c w, g (waiting c q w) = g c) (u : TaskId) :
    g ((a.block q ticks o).tcb u) = g (a.tcb u) := by
  rw [block_tcb hc]
  by_cases hu : u = cur
  · rw [if_pos hu, hg, hu]
  · rw [if_neg hu]

theorem block_gNext (hc : a.gCurrent = some cur) (ticks : Word) (o : Bool) :
    (a.block q ticks o).gNext = (a.block q ticks o).firstReady := by
  rw [block_eq hc, reschedule_gNext]
  exact (firstReady_congr (by simp)).symm

theorem expireAll_toGlobals (now : Word) (l : List TaskId) :
    (expireAll now l a).toGlobals = a.toGlobals := by
  induction l generalizing a with
  | nil => rfl
  | cons t l ih =>
    simp only [expireAll]
    split_ifs
    · rw [ih, expire_toGlobals]
    · rfl

/-- Expiry concerns the tasks of the list only. -/
theorem expireAll_tcb_other (now : Word) {l : List TaskId} (hu : u ∉ l) :
    (expireAll now l a).tcb u = a.tcb u := by
  induction l generalizing a with
  | nil => rfl
  | cons t l ih =>
    rw [List.mem_cons, not_or] at hu
    simp only [expireAll]
    split_ifs
    · rw [ih hu.2, expire_tcb, if_neg hu.1]
    · rfl

/-- Expiry makes sleeping tasks ready and touches no other wait queue. -/
theorem expireAll_frame (now : Word) (l : List TaskId) (hw : WF a) (hl : l.Nodup)
    (hsub : ∀ t ∈ l, t ∈ a.timeouts) :
    (expireAll now l a).toGlobals = a.toGlobals ∧
    (∀ u, (expireAll now l a).tcb u = a.tcb u ∨
      u ∈ l ∧ (expireAll now l a).tcb u = woken (a.tcb u) (-1)) ∧
    ∀ q, q.isWait = true → q ≠ .sleep → (expireAll now l a).list q = a.list q := by
  induction l generalizing a with
  | nil => exact ⟨rfl, fun _ => .inl rfl, fun _ _ _ => rfl⟩
  | cons t l ih =>
    rw [List.nodup_cons] at hl
    simp only [expireAll]
    split_ifs
    · have ht := hsub t (by simp)
      obtain ⟨-, hq⟩ := (hw.ok t (hw.timeouts_tasks t ht) (by simp)).sleeping ht
      have hsub' : ∀ u ∈ l, u ∈ (a.expire t).timeouts := by
        intro u hu
        have hne : u ≠ t := fun hc => hl.1 (hc ▸ hu)
        rw [expire_timeouts]
        exact (List.mem_erase_of_ne hne).2 (hsub u (by simp [hu]))
      obtain ⟨h1, h2, h3⟩ := ih (hw.expire ht) hl.2 hsub'
      refine ⟨h1.trans expire_toGlobals, fun u => ?_, fun q hq' hne => ?_⟩
      · by_cases hu : u = t
        · subst hu
          right
          rcases h2 u with h | ⟨h, -⟩
          · rw [h, expire_tcb, if_pos rfl]
            exact ⟨by simp, rfl⟩
          · exact absurd h hl.1
        · have he : (a.expire t).tcb u = a.tcb u := by rw [expire_tcb, if_neg hu]
          have h2 := h2 u
          rw [he] at h2
          rcases h2 with h | ⟨h, h'⟩
          · exact .inl h
          · exact .inr ⟨by simp [h], h'⟩
      · rw [h3 q hq' hne, expire_list hq rfl, if_neg hne, if_neg (isWait_ne_ready hq')]
    · exact ⟨rfl, fun _ => .inl rfl, fun _ _ _ => rfl⟩

theorem sysTick_eq : a.sysTick =
    let c := (expireAll (a.gTick + 1) a.timeouts { a with gTick := a.gTick + 1 }).reschedule
    (c.rotate c.gCurrent).reschedule := rfl

theorem sysTick_gTick : a.sysTick.gTick = a.gTick + 1 := by
  rw [sysTick_eq]
  simp only [reschedule_gTick, rotate_toGlobals, expireAll_toGlobals]

theorem sysTick_tcb_other (hu : u ∉ a.timeouts) : a.sysTick.tcb u = a.tcb u := by
  rw [sysTick_eq]
  simp only [reschedule_tcb, rotate_tcb]
  exact expireAll_tcb_other (a := { a with gTick := a.gTick + 1 }) _ hu

/-- What a tick leaves alone. -/
structure TickFrame (a b : Model) : Prop where
  tasks : b.tasks = a.tasks
  mutex : b.mutex = a.mutex
  semCount : b.semCount = a.semCount
  gCurrent : b.gCurrent = a.gCurrent
  gTick : b.gTick = a.gTick + 1
  tcb : ∀ u, b.tcb u = a.tcb u ∨ u ∈ a.timeouts ∧ b.tcb u = woken (a.tcb u) (-1)
  list : ∀ q, q.isWait = true → q ≠ .sleep → b.list q = a.list q

theorem Inv.tick_frame (h : Inv a) : TickFrame a a.sysTick := by
  have hw : WF ({ a with gTick := a.gTick + 1 } : Model) := h.wf.congr rfl (by simp) rfl rfl
  obtain ⟨h1, h2, h3⟩ := expireAll_frame (a.gTick + 1) a.timeouts hw hw.timeouts_nodup fun _ ht => ht
  rw [sysTick_eq]
  generalize Model.expireAll (a.gTick + 1) a.timeouts { a with gTick := a.gTick + 1 } = c at h1 h2 h3 ⊢
  refine ⟨?_, ?_, ?_, ?_, ?_, fun u => ?_, fun q hq hne => ?_⟩
  · rw [reschedule_tasks, rotate_toGlobals, reschedule_tasks, h1]
  · rw [reschedule_mutex, rotate_toGlobals, reschedule_mutex, h1]
  · rw [reschedule_semCount, rotate_toGlobals, reschedule_semCount, h1]
  · rw [reschedule_gCurrent, rotate_toGlobals, reschedule_gCurrent, h1]
  · rw [reschedule_gTick, rotate_toGlobals, reschedule_gTick, h1]
  · rw [reschedule_tcb, rotate_tcb, reschedule_tcb]
    exact h2 u
  · rw [reschedule_list, rotate_list_wait _ hq, reschedule_list]
    exact h3 q hq hne

/-- Nothing that concerns mutexes has changed, and new tasks have nothing to do with them. -/
structure MutexFrame (a b : Model) : Prop where
  mutex : b.mutex = a.mutex
  waiters : ∀ m, b.list (.mutex m) = a.list (.mutex m)
  tasks : ∀ t ∈ a.tasks, t ∈ b.tasks
  tcb : ∀ t ∈ a.tasks, (b.tcb t).priority = (a.tcb t).priority ∧
    (b.tcb t).basePriority = (a.tcb t).basePriority ∧
    (b.tcb t).ownedMutexes = (a.tcb t).ownedMutexes
  new : ∀ t ∈ b.tasks, t ∈ a.tasks ∨
    (b.tcb t).ownedMutexes = none ∧ (b.tcb t).priority = (b.tcb t).basePriority

theorem MutexFrame.refl (a : Model) : MutexFrame a a :=
  ⟨rfl, fun _ => rfl, fun _ h => h, fun _ _ => ⟨rfl, rfl, rfl⟩, fun _ h => .inl h⟩

theorem Inv.tick_mutexFrame (h : Inv a) : MutexFrame a a.sysTick := by
  have fr := h.tick_frame
  refine ⟨fr.mutex, fun m => fr.list _ rfl (by simp), fun t ht => by rwa [fr.tasks], fun t _ => ?_,
    fun t ht => .inl (by rwa [← fr.tasks])⟩
  rcases fr.tcb t with he | ⟨-, he⟩
  · rw [he]; exact ⟨rfl, rfl, rfl⟩
  · rw [he]; exact ⟨rfl, rfl, rfl⟩

theorem block_mutexFrame (hc : a.gCurrent = some cur) (ticks : Word) (o : Bool)
    (hq : ∀ m, q ≠ .mutex m) : MutexFrame a (a.block q ticks o) := by
  refine ⟨by simp, fun m => block_list_other hc ticks o (Ne.symm (hq m)) rfl, fun t ht => by simpa,
    fun t _ => ?_, fun t ht => .inl (by simpa using ht)⟩
  exact ⟨block_keeps hc _ _ TcbData.priority (fun _ _ => rfl) t,
    block_keeps hc _ _ TcbData.basePriority (fun _ _ => rfl) t,
    block_keeps hc _ _ TcbData.ownedMutexes (fun _ _ => rfl) t⟩

theorem wake_mutexFrame (hq : q.isWait = true) (hne : ∀ m, q ≠ .mutex m) :
    MutexFrame a (a.wake q t).reschedule := by
  refine ⟨by simp, fun m => ?_, fun t ht => by simpa, fun u _ => ?_, fun t ht => .inl (by simpa using ht)⟩
  · rw [reschedule_list, wake_list hq, if_neg (Ne.symm (hne m)), if_neg (isWait_ne_ready rfl)]
  · rw [reschedule_tcb, wake_tcb]
    split_ifs with hu
    · rw [hu]; exact ⟨rfl, rfl, rfl⟩
    · exact ⟨rfl, rfl, rfl⟩

theorem yieldCpu_mutexFrame : MutexFrame a a.yieldCpu := by
  have hg : a.yieldCpu.tasks = a.tasks := by
    change (a.rotate a.gCurrent).tasks = _
    simp
  refine ⟨?_, fun m => ?_, fun t ht => by rwa [hg], fun t _ => ?_, fun t ht => .inl (by rwa [← hg])⟩
  · change (a.rotate a.gCurrent).mutex = _
    simp
  · change (a.rotate a.gCurrent).list _ = _
    exact rotate_list_wait _ rfl
  · have : a.yieldCpu.tcb = a.tcb := by
      change (a.rotate a.gCurrent).tcb = _
      simp
    rw [this]
    exact ⟨rfl, rfl, rfl⟩

theorem CreateFailed.mutexFrame (hf : CreateFailed a b) : MutexFrame a b := by
  obtain ⟨⟨pool, mem, rfl⟩, -, -⟩ := hf
  exact ⟨rfl, fun _ => rfl, fun _ h => h, fun _ _ => ⟨rfl, rfl, rfl⟩, fun _ h => .inl h⟩

theorem Created.mutexFrame (hf : Created a b t) : MutexFrame a b := by
  have fr := hf.frame
  refine ⟨fr.mutex, fun m => by rw [fr.list, if_neg (isWait_ne_ready rfl)],
    fun u hu => by rw [fr.tasks]; simp [hu], fun u hu => ?_, fun u hu => ?_⟩
  · rw [fr.tcb u fun hc => hf.new (hc ▸ hu)]
    exact ⟨rfl, rfl, rfl⟩
  · rw [fr.tasks] at hu
    rcases List.mem_append.1 hu with hu | hu
    · exact .inl hu
    · obtain rfl := List.mem_singleton.1 hu
      obtain ⟨sp, p, hn⟩ := fr.new
      rw [hn]
      exact .inr ⟨rfl, rfl⟩

theorem commit_mutexFrame : MutexFrame a (commit { a with pendsv := false }) := by
  unfold commit
  split
  · exact ⟨rfl, fun _ => rfl, fun _ h => h, fun _ _ => ⟨rfl, rfl, rfl⟩, fun _ h => .inl h⟩
  · exact ⟨rfl, fun _ => rfl, fun _ h => h, fun _ _ => ⟨rfl, rfl, rfl⟩, fun _ h => .inl h⟩

/-- Either an entry leaves the mutexes alone, and then it is no lock or unlock that
returned 0, or it is one of the three that do not. -/
theorem Outcome.mutex_cases (h : Inv a) (hc : a.gCurrent = some cur) {e : Entry} {r : ℤ}
    (ho : Outcome a cur e r b) :
    (MutexFrame a b ∧ ∀ m,
      (e = .svc (.mutexLock (some m)) → (a.mutex m).owner = some cur ∧ r = -1) ∧
      (e = .svc (.mutexUnlock (some m)) → (a.mutex m).owner ≠ some cur ∧ r = -1)) ∨
    (∃ m, e = .svc (.mutexLock (some m)) ∧ r = 0 ∧ (a.mutex m).owner = none ∧
      b = (a.setMutex m fun x => { x with owner := some cur }).addToOwned cur m) ∨
    (∃ m o, e = .svc (.mutexLock (some m)) ∧ r = 0 ∧ (a.mutex m).owner = some o ∧ o ≠ cur ∧
      b = ((a.boost cur o).block (.mutex m) osWaitForever true).addToOwned cur m) ∨
    (∃ m found p, e = .svc (.mutexUnlock (some m)) ∧ r = 0 ∧ (a.mutex m).owner = some cur ∧
      (ownedFind (fun c => (a.mutex c).nextMutex) m (none, (a.tcb cur).ownedMutexes)).Returns found ∧
      ((a.dropOwned cur m found).recomputePriority cur).Returns p ∧
      b = ((a.dropOwned cur m found).setPriority cur p).handOff m) := by
  cases ho with
  | tick => exact .inl ⟨h.tick_mutexFrame, by simp⟩
  | pendSV => exact .inl ⟨commit_mutexFrame, by simp⟩
  | yield => exact .inl ⟨yieldCpu_mutexFrame, by simp⟩
  | delayZero => exact .inl ⟨yieldCpu_mutexFrame, by simp⟩
  | delay _ => exact .inl ⟨block_mutexFrame hc _ _ (by simp), by simp⟩
  | takeBlock _ => exact .inl ⟨block_mutexFrame hc _ _ (by simp), by simp⟩
  | giveWake _ => exact .inl ⟨wake_mutexFrame rfl (by simp), by simp⟩
  | createFailed hf => exact .inl ⟨hf.mutexFrame, by simp⟩
  | created hf => exact .inl ⟨hf.mutexFrame, by simp⟩
  | take _ => exact .inl ⟨⟨rfl, fun _ => rfl, fun _ h => h, fun _ _ => ⟨rfl, rfl, rfl⟩,
      fun _ h => .inl h⟩, by simp⟩
  | give _ => exact .inl ⟨⟨rfl, fun _ => rfl, fun _ h => h, fun _ _ => ⟨rfl, rfl, rfl⟩,
      fun _ h => .inl h⟩, by simp⟩
  | takeNull => exact .inl ⟨.refl a, by simp⟩
  | giveNull => exact .inl ⟨.refl a, by simp⟩
  | lockNull => exact .inl ⟨.refl a, by simp⟩
  | lockOwn hm => exact .inl ⟨.refl a, by simpa using hm⟩
  | unlockNull => exact .inl ⟨.refl a, by simp⟩
  | unlockOther hm => exact .inl ⟨.refl a, by simpa using hm⟩
  | unrecognized => exact .inl ⟨.refl a, by simp⟩
  | lockFree hm => exact .inr (.inl ⟨_, rfl, rfl, hm, rfl⟩)
  | lockBlock hm hoc => exact .inr (.inr (.inl ⟨_, _, rfl, rfl, hm, hoc, rfl⟩))
  | unlock hm hf hp => exact .inr (.inr (.inr ⟨_, _, _, rfl, rfl, hm, hf, hp, rfl⟩))

/-! The three entries that do change the mutexes. -/

section
variable (a : Model) (t u : TaskId) (m m' : MutexId) (v : Option TaskId)

@[simp] theorem addToOwned_list : (a.addToOwned t m).list = a.list := rfl
@[simp] theorem addToOwned_tasks : (a.addToOwned t m).tasks = a.tasks := rfl
@[simp] theorem addToOwned_gCurrent : (a.addToOwned t m).gCurrent = a.gCurrent := rfl

theorem setMutex_mutex (f : Mutex → Mutex) :
    (a.setMutex m f).mutex m' = if m' = m then f (a.mutex m) else a.mutex m' := by
  simp only [setMutex, Function.update_apply]

theorem addToOwned_owner : ((a.addToOwned t m).mutex m').owner = (a.mutex m').owner := by
  change ((a.setMutex m fun x => { x with nextMutex := (a.tcb t).ownedMutexes }).mutex m').owner = _
  rw [setMutex_mutex]
  split_ifs with h
  · rw [h]
  · rfl

theorem addToOwned_nextMutex : ((a.addToOwned t m).mutex m').nextMutex =
    if m' = m then (a.tcb t).ownedMutexes else (a.mutex m').nextMutex := by
  change ((a.setMutex m fun x => { x with nextMutex := (a.tcb t).ownedMutexes }).mutex m').nextMutex = _
  rw [setMutex_mutex]
  split_ifs <;> rfl

theorem addToOwned_tcb : (a.addToOwned t m).tcb u =
    if u = t then { a.tcb t with ownedMutexes := some m } else a.tcb u := setTcb_tcb _ _ _ _

end

theorem addToOwned_keeps {β : Type} (g : TcbData → β)
    (hg : ∀ c v, g { c with ownedMutexes := v } = g c) (u : TaskId) :
    g ((a.addToOwned t m).tcb u) = g (a.tcb u) := by
  rw [addToOwned_tcb]
  split_ifs with hu
  · rw [hg, hu]
  · rfl

/-- A free mutex goes to the caller, at the head of its list. -/
structure Acquired (a b : Model) (cur : TaskId) (m : MutexId) : Prop where
  owner : ∀ m', (b.mutex m').owner = if m' = m then some cur else (a.mutex m').owner
  nextMutex : ∀ m', (b.mutex m').nextMutex =
    if m' = m then (a.tcb cur).ownedMutexes else (a.mutex m').nextMutex
  list : b.list = a.list
  tasks : b.tasks = a.tasks
  ownedMutexes : ∀ u, (b.tcb u).ownedMutexes = if u = cur then some m else (a.tcb u).ownedMutexes
  basePriority : ∀ u, (b.tcb u).basePriority = (a.tcb u).basePriority
  priority : ∀ u, (b.tcb u).priority = (a.tcb u).priority

theorem lock_acquired :
    Acquired a ((a.setMutex m fun x => { x with owner := some cur }).addToOwned cur m) cur m := by
  refine ⟨fun m' => ?_, fun m' => ?_, rfl, rfl, fun u => ?_, fun u => ?_, fun u => ?_⟩
  · rw [addToOwned_owner, setMutex_mutex]
    split_ifs <;> rfl
  · rw [addToOwned_nextMutex, setMutex_mutex, setMutex_tcb]
    split_ifs <;> rfl
  · rw [addToOwned_tcb]
    split_ifs <;> rfl
  · exact addToOwned_keeps TcbData.basePriority (fun _ _ => rfl) u
  · exact addToOwned_keeps TcbData.priority (fun _ _ => rfl) u

theorem dropOwned_owner (found : Option (Option MutexId)) (m' : MutexId) :
    ((a.dropOwned t m found).mutex m').owner = (a.mutex m').owner := by
  have hk : ∀ (c : Model) (n : MutexId) (w : Option MutexId),
      ((c.setMutex n fun x => { x with nextMutex := w }).mutex m').owner = (c.mutex m').owner := by
    intro c n w
    rw [setMutex_mutex]
    split_ifs with h
    · rw [h]
    · rfl
  unfold dropOwned
  split
  · rfl
  · rw [hk]
    split
    · rfl
    · rw [hk]

@[simp] theorem dropOwned_list (found : Option (Option MutexId)) :
    (a.dropOwned t m found).list = a.list := by
  unfold dropOwned; split
  · rfl
  · split <;> rfl

@[simp] theorem dropOwned_gCurrent (found : Option (Option MutexId)) :
    (a.dropOwned t m found).gCurrent = a.gCurrent := by
  unfold dropOwned; split
  · rfl
  · split <;> rfl

@[simp] theorem dropOwned_gNext (found : Option (Option MutexId)) :
    (a.dropOwned t m found).gNext = a.gNext := by
  unfold dropOwned; split
  · rfl
  · split <;> rfl

@[simp] theorem dropOwned_pendsv (found : Option (Option MutexId)) :
    (a.dropOwned t m found).pendsv = a.pendsv := by
  unfold dropOwned; split
  · rfl
  · split <;> rfl

/-- Only the owner's list head changes in its task. -/
theorem dropOwned_tcb (found : Option (Option MutexId)) : ∃ w,
    (a.dropOwned t m found).tcb = Function.update a.tcb t { a.tcb t with ownedMutexes := w } := by
  unfold dropOwned
  split
  · exact ⟨(a.tcb t).ownedMutexes, (Function.update_eq_self t a.tcb).symm⟩
  · split
    · exact ⟨(a.mutex m).nextMutex, rfl⟩
    · exact ⟨(a.tcb t).ownedMutexes, (Function.update_eq_self t a.tcb).symm⟩

/-- A released mutex goes to the first waiter, who leaves the queue. -/
structure HandedOff (a b : Model) (m : MutexId) : Prop where
  owner : ∀ m', (b.mutex m').owner = if m' = m then (a.list (.mutex m)).head? else (a.mutex m').owner
  nextMutex : ∀ m', (b.mutex m').nextMutex = (a.mutex m').nextMutex
  waiters : ∀ m', b.list (.mutex m') =
    if m' = m then (a.list (.mutex m)).tail else a.list (.mutex m')
  tasks : b.tasks = a.tasks
  tcb : ∀ u, (b.tcb u).priority = (a.tcb u).priority ∧
    (b.tcb u).basePriority = (a.tcb u).basePriority ∧ (b.tcb u).ownedMutexes = (a.tcb u).ownedMutexes

theorem handOff_frame : HandedOff a (a.handOff m) m := by
  cases hl : a.list (.mutex m) with
  | nil =>
    have he : a.handOff m = a.setMutex m fun x => { x with owner := none } := by
      simp only [handOff, hl]
    rw [he]
    refine ⟨fun m' => ?_, fun m' => ?_, fun m' => ?_, rfl, fun _ => ⟨rfl, rfl, rfl⟩⟩
    · rw [setMutex_mutex, hl]
      split_ifs <;> rfl
    · rw [setMutex_mutex]
      split_ifs with h
      · rw [h]
      · rfl
    · rw [setMutex_list]
      split_ifs with h
      · rw [h, hl]; rfl
      · rfl
  | cons t l =>
    have he : a.handOff m =
        ((a.wake (.mutex m) t).setMutex m fun x => { x with owner := some t }).reschedule := by
      simp only [handOff, hl]
    rw [he]
    refine ⟨fun m' => ?_, fun m' => ?_, fun m' => ?_, by simp, fun u => ?_⟩
    · rw [reschedule_mutex, setMutex_mutex, hl]
      split_ifs
      · rfl
      · simp
    · rw [reschedule_mutex, setMutex_mutex]
      split_ifs with h
      · simp [h]
      · simp
    · rw [reschedule_list, setMutex_list, wake_list rfl]
      by_cases h : m' = m
      · rw [if_pos (by rw [h]), if_pos h, hl]
        simp
      · rw [if_neg (by simpa using h), if_neg h, if_neg (isWait_ne_ready rfl)]
    · rw [reschedule_tcb, setMutex_tcb, wake_tcb]
      split_ifs with h
      · rw [h]; exact ⟨rfl, rfl, rfl⟩
      · exact ⟨rfl, rfl, rfl⟩

theorem handOff_list_other (hq : q.isWait = true) (hne : q ≠ .mutex m) :
    (a.handOff m).list q = a.list q := by
  unfold handOff
  split
  · rw [reschedule_list, setMutex_list, wake_list rfl, if_neg hne, if_neg (isWait_ne_ready hq)]
  · rfl

/-- A running task is in no wait queue. -/
theorem Inv.running_not_waiting (h : Inv a) (hp : a.pendsv = false) (hc : a.gCurrent = some cur)
    (hq : q.isWait = true) : cur ∉ a.list q := by
  intro hm
  have := (h.wf.of_wait hq hm).1
  rw [h.running hp cur hc] at this
  cases this

/-- The owner's side of an unlock: its list and its priority change, no queue of a mutex does. -/
structure Settled (a c : Model) (cur : TaskId) (p : Priority) : Prop where
  owner : ∀ m, (c.mutex m).owner = (a.mutex m).owner
  waiters : ∀ m, c.list (.mutex m) = a.list (.mutex m)
  tasks : c.tasks = a.tasks
  priority : ∀ u, (c.tcb u).priority = if u = cur then p else (a.tcb u).priority
  basePriority : ∀ u, (c.tcb u).basePriority = (a.tcb u).basePriority
  ownedMutexes : ∀ u, u ≠ cur → (c.tcb u).ownedMutexes = (a.tcb u).ownedMutexes

theorem Inv.settled (h : Inv a) (hp : a.pendsv = false) (hc : a.gCurrent = some cur)
    (found : Option (Option MutexId)) :
    Settled a ((a.dropOwned cur m found).setPriority cur p) cur p := by
  have hd := h.dropOwned cur m found
  have hcur : cur ∈ (a.dropOwned cur m found).tasks := by simpa using h.cur_mem hc
  obtain ⟨w, htcb⟩ := dropOwned_tcb (a := a) (t := cur) (m := m) found
  refine ⟨fun m' => ?_, fun m' => ?_, by simp, fun u => ?_, fun u => ?_, fun u hu => ?_⟩
  · rw [setPriority_toGlobals, dropOwned_owner]
  · rw [setPriority_list_other hd.wf hcur rfl, dropOwned_list]
    rw [dropOwned_list]
    exact h.running_not_waiting hp hc rfl
  · rw [setPriority_tcb]
    split_ifs with hu
    · rfl
    · rw [htcb, Function.update_of_ne hu]
  · rw [setPriority_tcb]
    split_ifs with hu
    · rw [htcb, hu, Function.update_self]
    · rw [htcb, Function.update_of_ne hu]
  · rw [setPriority_tcb, if_neg hu, htcb, Function.update_of_ne hu]

theorem boost_keeps {β : Type} (g : TcbData → β) (hg : ∀ c p, g { c with priority := p } = g c)
    (u : TaskId) : g ((a.boost cur o).tcb u) = g (a.tcb u) := by
  rw [boost_tcb]
  split_ifs with hu
  · rw [hg, hu.1]
  · rfl

/-- The caller of a contended lock is queued, with the mutex on its list, and the owner
has its priority or a more urgent one. -/
structure Queued (a b : Model) (cur o : TaskId) (m : MutexId) : Prop where
  owner : ∀ m', (b.mutex m').owner = (a.mutex m').owner
  nextMutex : ∀ m', (b.mutex m').nextMutex =
    if m' = m then (a.tcb cur).ownedMutexes else (a.mutex m').nextMutex
  waiters : ∀ m' u, u ∈ b.list (.mutex m') ↔ u ∈ a.list (.mutex m') ∨ m' = m ∧ u = cur
  tasks : b.tasks = a.tasks
  ownedMutexes : ∀ u, (b.tcb u).ownedMutexes = if u = cur then some m else (a.tcb u).ownedMutexes
  basePriority : ∀ u, (b.tcb u).basePriority = (a.tcb u).basePriority
  priority : ∀ u, (b.tcb u).priority =
    if u = o then min (a.tcb cur).priority (a.tcb o).priority else (a.tcb u).priority

theorem Inv.queued (h : Inv a) (hc : a.gCurrent = some cur) (hm : (a.mutex m).owner = some o) :
    Queued a (((a.boost cur o).block (.mutex m) osWaitForever true).addToOwned cur m) cur o m := by
  have hbc : (a.boost cur o).gCurrent = some cur := by rw [boost_toGlobals, hc]
  have hperm := fun m' => boost_list_perm (q := .mutex m') cur h.wf (h.owner m o hm) rfl
  have howned : ∀ u, (((a.boost cur o).block (.mutex m) osWaitForever true).tcb u).ownedMutexes =
      (a.tcb u).ownedMutexes := fun u => by
    rw [block_keeps hbc _ _ TcbData.ownedMutexes (fun _ _ => rfl),
      boost_keeps TcbData.ownedMutexes fun _ _ => rfl]
  refine ⟨fun m' => ?_, fun m' => ?_, fun m' u => ?_, ?_, fun u => ?_, fun u => ?_, fun u => ?_⟩
  · rw [addToOwned_owner, block_mutex, boost_toGlobals]
  · rw [addToOwned_nextMutex, block_mutex, boost_toGlobals, howned]
  · rw [addToOwned_list]
    by_cases hmm : m' = m
    · subst hmm
      rw [block_list hbc, (enqueue_list_perm true rfl).mem_iff, List.mem_cons, (hperm m').mem_iff]
      tauto
    · rw [block_list_other hbc _ _ (by simpa using hmm) rfl, (hperm m').mem_iff]
      tauto
  · rw [addToOwned_tasks, block_tasks, boost_toGlobals]
  · rw [addToOwned_tcb]
    split_ifs
    · rfl
    · exact howned u
  · rw [addToOwned_keeps TcbData.basePriority (fun _ _ => rfl), block_keeps hbc _ _ TcbData.basePriority (fun _ _ => rfl),
      boost_keeps TcbData.basePriority fun _ _ => rfl]
  · rw [addToOwned_keeps TcbData.priority (fun _ _ => rfl),
      block_keeps hbc _ _ TcbData.priority (fun _ _ => rfl), boost_tcb]
    by_cases hu : u = o
    · subst hu
      by_cases hlt : (a.tcb cur).priority < (a.tcb u).priority
      · rw [if_pos ⟨rfl, hlt⟩, if_pos rfl, min_eq_left hlt.le]
      · rw [if_neg fun hx => hlt hx.2, if_pos rfl, min_eq_right (not_lt.1 hlt)]
    · rw [if_neg fun hx => hu hx.1, if_neg hu]

theorem mem_head_or_tail {l : List TaskId} (h : t ∈ l) : l.head? = some t ∨ t ∈ l.tail := by
  cases l with
  | nil => cases h
  | cons x l =>
    rcases List.mem_cons.1 h with rfl | h
    · exact .inl rfl
    · exact .inr h

/-- What an entry does to a mutex. -/
inductive MutexStep (a : Model) (cur : TaskId) (m : MutexId) : Entry → ℤ → Model → Prop
  | other {e : Entry} {r : ℤ} {b : Model} :
      (e = .svc (.mutexLock (some m)) → (a.mutex m).owner = some cur ∧ r = -1) →
      (e = .svc (.mutexUnlock (some m)) → (a.mutex m).owner ≠ some cur ∧ r = -1) →
      (b.mutex m).owner = (a.mutex m).owner →
      (∀ u, u ∈ b.list (.mutex m) ↔ u ∈ a.list (.mutex m)) → MutexStep a cur m e r b
  | free {b : Model} : (a.mutex m).owner = none → (b.mutex m).owner = some cur →
      b.list (.mutex m) = a.list (.mutex m) → MutexStep a cur m (.svc (.mutexLock (some m))) 0 b
  | queue {b : Model} {o : TaskId} : (a.mutex m).owner = some o → o ≠ cur →
      (b.mutex m).owner = some o → (∀ u, u ∈ b.list (.mutex m) ↔ u ∈ a.list (.mutex m) ∨ u = cur) →
      MutexStep a cur m (.svc (.mutexLock (some m))) 0 b
  | pass {b : Model} : (a.mutex m).owner = some cur →
      (b.mutex m).owner = (a.list (.mutex m)).head? →
      b.list (.mutex m) = (a.list (.mutex m)).tail →
      MutexStep a cur m (.svc (.mutexUnlock (some m))) 0 b

theorem Outcome.mutex_step {e : Entry} {r : ℤ} (ho : Outcome a cur e r b) (h : Inv a)
    (hc : a.gCurrent = some cur) (he : a.Enabled e) (m : MutexId) : MutexStep a cur m e r b := by
  rcases ho.mutex_cases h hc with ⟨fr, hf⟩ | ⟨m₁, rfl, rfl, hm, rfl⟩ |
      ⟨m₁, o, rfl, rfl, hm, hoc, rfl⟩ | ⟨m₁, found, p, rfl, rfl, hm, -, -, rfl⟩
  · exact .other (hf m).1 (hf m).2 (by rw [fr.mutex]) fun u => by rw [fr.waiters]
  · by_cases hmm : m₁ = m
    · subst hmm
      refine .free hm ?_ rfl
      rw [lock_acquired.owner, if_pos rfl]
    · refine .other (by simp [hmm]) (by simp) ?_ fun u => Iff.rfl
      rw [lock_acquired.owner, if_neg (Ne.symm hmm)]
  · have hq := h.queued hc hm
    by_cases hmm : m₁ = m
    · subst hmm
      refine .queue hm hoc (by rw [hq.owner, hm]) fun u => ?_
      rw [hq.waiters]
      simp
    · refine .other (by simp [hmm]) (by simp) (hq.owner m) fun u => ?_
      rw [hq.waiters]
      simp [Ne.symm hmm]
  · have st := h.settled (m := m₁) (p := p) he.1 hc found
    by_cases hmm : m₁ = m
    · subst hmm
      refine .pass hm ?_ ?_
      · rw [handOff_frame.owner, if_pos rfl, st.waiters]
      · rw [handOff_frame.waiters, if_pos rfl, st.waiters]
    · refine .other (by simp) (by simp [hmm]) ?_ fun u => ?_
      · rw [handOff_frame.owner, if_neg (Ne.symm hmm), st.owner]
      · rw [handOff_frame.waiters, if_neg (Ne.symm hmm), st.waiters]

theorem Outcome.tasks_eq {e : Entry} {r : ℤ} (ho : Outcome a cur e r b) (h : Inv a)
    (hc : a.gCurrent = some cur) (he : ∀ args, e ≠ .svc (.taskCreate args)) : b.tasks = a.tasks := by
  cases ho with
  | tick => exact h.tick_frame.tasks
  | pendSV =>
    unfold commit
    split <;> rfl
  | yield =>
    change (a.rotate a.gCurrent).tasks = _
    simp
  | delayZero =>
    change (a.rotate a.gCurrent).tasks = _
    simp
  | delay _ => simp
  | takeBlock _ => simp
  | giveWake _ => simp
  | lockBlock hm _ => exact (h.queued hc hm).tasks
  | unlock _ _ _ => rw [handOff_frame.tasks, setPriority_toGlobals, dropOwned_tasks]
  | createFailed _ => exact absurd rfl (he _)
  | created _ => exact absurd rfl (he _)
  | _ => rfl

theorem Outcome.queued {r : ℤ} (ho : Outcome a cur (.svc (.mutexLock (some m))) r b) (h : Inv a)
    (hc : a.gCurrent = some cur) (hm : (a.mutex m).owner = some o) (hoc : o ≠ cur) :
    Queued a b cur o m := by
  cases ho with
  | lockFree h0 => cases h0.symm.trans hm
  | lockOwn h0 => exact absurd (Option.some.inj (hm.symm.trans h0)) hoc
  | @lockBlock _ o' h0 _ =>
    obtain rfl : o' = o := Option.some.inj (h0.symm.trans hm)
    exact h.queued hc hm

/-- The wait queue that an entry is about. -/
def waitsIn : Entry → Option QueueRef
  | .sysTick => some .sleep
  | .svc (.delayTicks _) => some .sleep
  | .svc (.semTake s) => s.map .sem
  | .svc (.semGive s) => s.map .sem
  | .svc (.mutexLock m) => m.map .mutex
  | .svc (.mutexUnlock m) => m.map .mutex
  | _ => none

/-- Other wait queues stay as they are, unless a lock call boosts one of the waiters. -/
theorem Outcome.wait_list {e : Entry} {r : ℤ} (ho : Outcome a cur e r b) (h : Inv a)
    (hc : a.gCurrent = some cur) (he : a.Enabled e) (hq : q.isWait = true)
    (hne : waitsIn e ≠ some q) :
    b.list q = a.list q ∨
      ∃ m w, e = .svc (.mutexLock (some m)) ∧ (a.mutex m).owner = some w ∧
        (a.tcb cur).priority < (a.tcb w).priority ∧ w ∈ a.list q ∧
        b.list q = insertWhile (fun i => (a.tcb i).priority ≤ (a.tcb cur).priority) w
          ((a.list q).erase w) := by
  have hother : ∀ {q'}, waitsIn e = some q' → q ≠ q' := fun h' hx => hne (by rw [h', hx])
  cases ho with
  | tick => exact .inl (h.tick_frame.list _ hq (hother rfl))
  | pendSV =>
    obtain ⟨n, -, hn, -⟩ := h.next
    rw [commit_eq (a := { a with pendsv := false }) hn]
    exact .inl rfl
  | yield =>
    left
    change (a.rotate a.gCurrent).list _ = _
    exact rotate_list_wait _ hq
  | delayZero =>
    left
    change (a.rotate a.gCurrent).list _ = _
    exact rotate_list_wait _ hq
  | delay _ => exact .inl (block_list_other hc _ _ (hother rfl) hq)
  | takeBlock _ => exact .inl (block_list_other hc _ _ (hother rfl) hq)
  | giveWake _ =>
    left
    rw [reschedule_list, wake_list rfl, if_neg (hother rfl), if_neg (isWait_ne_ready hq)]
  | @lockBlock m w hm hwc =>
    have hbc : (a.boost cur w).gCurrent = some cur := by rw [boost_toGlobals, hc]
    rw [addToOwned_list, block_list_other hbc _ _ (hother rfl) hq, boost_list h.wf (h.owner m w hm) hq]
    split_ifs with hx
    · exact .inr ⟨m, w, rfl, hm, hx.1, hx.2, rfl⟩
    · exact .inl rfl
  | @unlock m found p hm _ _ =>
    left
    have hd := h.dropOwned cur m found
    have hcur : cur ∈ (a.dropOwned cur m found).tasks := by simpa using h.cur_mem hc
    rw [handOff_list_other hq (hother rfl), setPriority_list_other hd.wf hcur hq, dropOwned_list]
    rw [dropOwned_list]
    exact h.running_not_waiting he.1 hc hq
  | createFailed hf =>
    obtain ⟨⟨pool, mem, rfl⟩, -, -⟩ := hf
    exact .inl rfl
  | created hf => exact .inl (by rw [hf.frame.list, if_neg (isWait_ne_ready hq)])
  | _ => exact .inl rfl

theorem Outcome.wait_list_perm {e : Entry} {r : ℤ} (ho : Outcome a cur e r b) (h : Inv a)
    (hc : a.gCurrent = some cur) (he : a.Enabled e) (hq : q.isWait = true)
    (hne : waitsIn e ≠ some q) : (b.list q).Perm (a.list q) := by
  rcases ho.wait_list h hc he hq hne with hl | ⟨m, w, -, -, -, hw, hl⟩
  · rw [hl]
  · rw [hl]
    exact insertWhile_perm.trans (List.perm_cons_erase hw).symm

end Model
end Rtos

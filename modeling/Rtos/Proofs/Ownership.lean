import Rtos.Proofs.Structure
import Rtos.Model.Frames

/-! The lists of owned mutexes. A contended lock returns into the handler with the
caller only queued, and what follows puts the mutex on the caller's list while it is
still on the owner's. So the lists match the owners as long as no lock is contended,
and they still end as long as no mutex is put on a list that has it. -/

namespace Rtos

open Lib

open Model (WF Inv Outcome MutexFrame)

variable {b : Boot} {os : List Obs} {o : Obs} {k : Kernel} {a a' : Model} {t u cur : TaskId}
  {m : MutexId} {next : MutexId → Option MutexId} {p : Option MutexId} {l l₁ l₂ : List MutexId}

/-! The walks over a list that ends. -/

theorem ownedFind_found (prev : Option MutexId) (h : Chain next p (l₁ ++ m :: l₂)) :
    (ownedFind next m (prev, p)).Returns (some (l₁.getLast?.or prev)) := by
  induction l₁ generalizing p prev with
  | nil =>
    rw [ownedFind, Comp.returns_loop, h.1]
    simp
  | cons x l₁ ih =>
    have hne : x ≠ m := by
      rintro rfl
      have := h.nodup
      simp at this
    have hlast : ((x :: l₁).getLast?.or prev) = l₁.getLast?.or (some x) := by
      rw [List.getLast?_cons]
      cases l₁.getLast? <;> rfl
    rw [ownedFind, Comp.returns_loop, h.1, hlast]
    exact .inr ⟨(some x, next x), by simp [hne], ih (some x) h.2⟩

theorem ownedFind_absent (prev : Option MutexId) (h : Chain next p l) (hm : m ∉ l) :
    (ownedFind next m (prev, p)).Returns none := by
  induction l generalizing p prev with
  | nil =>
    rw [ownedFind, Comp.returns_loop, show p = none from h]
    simp
  | cons x l ih =>
    rw [List.mem_cons, not_or] at hm
    rw [ownedFind, Comp.returns_loop, h.1]
    exact .inr ⟨(some x, next x), by simp [Ne.symm hm.1], ih (some x) h.2 hm.2⟩

theorem recomputeWalk_returns {waiter : MutexId → Option Priority} (h : Chain next p l)
    (r : Priority) :
    (recomputeWalk next waiter (p, r)).Returns (l.foldl (fun r m => moreUrgent r (waiter m)) r) := by
  induction l generalizing p r with
  | nil =>
    rw [recomputeWalk, Comp.returns_loop, show p = none from h]
    simp
  | cons x l ih =>
    rw [recomputeWalk, Comp.returns_loop, h.1]
    exact .inr ⟨(next x, moreUrgent r (waiter x)), by simp, ih h.2 _⟩

/-- The links of the ownership lists. -/
def Globals.nextMutex (g : Globals) (m : MutexId) : Option MutexId := (g.mutex m).nextMutex

namespace Model

theorem dropOwned_head : (a.dropOwned t m (some none)).nextMutex =
      Function.update a.nextMutex m none ∧
    ((a.dropOwned t m (some none)).tcb t).ownedMutexes = a.nextMutex m := by
  refine ⟨funext fun m' => ?_, by simp [dropOwned, Globals.nextMutex]⟩
  simp only [Globals.nextMutex, dropOwned, setMutex_mutex, Function.update_apply]
  split_ifs <;> rfl

theorem dropOwned_behind {y : MutexId} : (a.dropOwned t m (some (some y))).nextMutex =
      Function.update (Function.update a.nextMutex y (a.nextMutex m)) m none ∧
    (a.dropOwned t m (some (some y))).tcb = a.tcb := by
  refine ⟨funext fun m' => ?_, rfl⟩
  simp only [Globals.nextMutex, dropOwned, setMutex_mutex, Function.update_apply]
  split_ifs <;> rfl

/-- What an unlock makes of the caller's list. -/
theorem dropOwned_chain (h : Chain a.nextMutex (a.tcb t).ownedMutexes (l₁ ++ m :: l₂)) :
    Chain (a.dropOwned t m (some l₁.getLast?)).nextMutex
      ((a.dropOwned t m (some l₁.getLast?)).tcb t).ownedMutexes (l₁ ++ l₂) := by
  cases hl : l₁.getLast? with
  | none =>
    obtain rfl : l₁ = [] := List.getLast?_eq_none_iff.1 hl
    rw [dropOwned_head.1, dropOwned_head.2]
    exact h.pop
  | some y =>
    rw [dropOwned_behind.1, dropOwned_behind.2]
    exact h.unlink hl

theorem dropOwned_next_ne {x : MutexId} (hm : x ≠ m) (hx : x ∉ l₁) :
    (a.dropOwned t m (some l₁.getLast?)).nextMutex x = a.nextMutex x := by
  cases hl : l₁.getLast? with
  | none => rw [dropOwned_head.1, Function.update_of_ne hm]
  | some y =>
    have hy : x ≠ y := fun hc => hx (hc ▸ List.mem_of_getLast? hl)
    rw [dropOwned_behind.1, Function.update_of_ne hm, Function.update_of_ne hy]

theorem addToOwned_next : (a.addToOwned t m).nextMutex =
    Function.update a.nextMutex m (a.tcb t).ownedMutexes :=
  funext fun m' => by
    rw [Function.update_apply]
    exact addToOwned_nextMutex a t m m'

theorem setOwner_next {v : Option TaskId} :
    (a.setMutex m fun x => { x with owner := v }).nextMutex = a.nextMutex := by
  funext m'
  rw [Globals.nextMutex, setMutex_mutex]
  split_ifs with he
  · rw [he]
    rfl
  · rfl

theorem MutexFrame.nextMutex (fr : MutexFrame a a') : a'.nextMutex = a.nextMutex := by
  funext m
  rw [Globals.nextMutex, fr.mutex]
  rfl

/-- An unlock after the caller's list is settled. -/
theorem released_lists (cur : TaskId) (found : Option (Option MutexId)) (p : Priority) :
    (((a.dropOwned cur m found).setPriority cur p).handOff m).tasks = a.tasks ∧
    (((a.dropOwned cur m found).setPriority cur p).handOff m).nextMutex =
      (a.dropOwned cur m found).nextMutex ∧
    ∀ u, ((((a.dropOwned cur m found).setPriority cur p).handOff m).tcb u).ownedMutexes =
      ((a.dropOwned cur m found).tcb u).ownedMutexes := by
  have fr := handOff_frame (a := (a.dropOwned cur m found).setPriority cur p) (m := m)
  refine ⟨by rw [fr.tasks]; simp, funext fun m' => ?_, fun u => ?_⟩
  · rw [Globals.nextMutex, fr.nextMutex, setPriority_toGlobals]
    rfl
  · rw [(fr.tcb u).2.2, setPriority_tcb]
    split_ifs with hu
    · rw [hu]
    · rfl

/-- Nobody waits for a mutex, and every list is that of the owner's mutexes. -/
structure Owned (a : Model) : Prop where
  waiters : ∀ m, a.list (.mutex m) = []
  lists : ∀ t ∈ a.tasks, ∃ l, Chain a.nextMutex (a.tcb t).ownedMutexes l ∧
    ∀ m, m ∈ l ↔ (a.mutex m).owner = some t

theorem Owned.frame (h : Owned a) (hi : Inv a) (fr : MutexFrame a a') : Owned a' := by
  refine ⟨fun m => by rw [fr.waiters, h.waiters], fun t ht => ?_⟩
  by_cases hta : t ∈ a.tasks
  · rw [fr.nextMutex, (fr.tcb t hta).2.2, fr.mutex]
    exact h.lists t hta
  · have hn := (fr.new t ht).resolve_left hta
    rw [hn.1, fr.mutex]
    refine ⟨[], rfl, fun m => ⟨nofun, fun ho => ?_⟩⟩
    exact absurd (hi.owner m t ho) hta

theorem Owned.lock (h : Owned a) (hcur : cur ∈ a.tasks) (hm : (a.mutex m).owner = none) :
    Owned ((a.setMutex m fun x => { x with owner := some cur }).addToOwned cur m) := by
  refine ⟨fun m' => h.waiters m', fun t ht => ?_⟩
  obtain ⟨l, hl, hiff⟩ := h.lists t ht
  have hml : m ∉ l := by
    rw [hiff, hm]
    nofun
  rw [addToOwned_next, setOwner_next, addToOwned_tcb]
  by_cases htc : t = cur
  · subst htc
    rw [if_pos rfl]
    refine ⟨m :: l, hl.push hml, fun m' => ?_⟩
    rw [lock_acquired.owner, List.mem_cons, hiff]
    split_ifs with he <;> simp [he]
  · rw [if_neg htc]
    refine ⟨l, hl.update hml _, fun m' => ?_⟩
    rw [lock_acquired.owner, hiff]
    split_ifs with he
    · simp [he, hm, Ne.symm htc]
    · rfl

theorem Owned.unlock (h : Owned a) (hcur : cur ∈ a.tasks) (hm : (a.mutex m).owner = some cur)
    {found : Option (Option MutexId)} {p : Priority}
    (hf : (ownedFind (fun c => (a.mutex c).nextMutex) m (none, (a.tcb cur).ownedMutexes)).Returns found)
    (st : Settled a ((a.dropOwned cur m found).setPriority cur p) cur p) :
    Owned (((a.dropOwned cur m found).setPriority cur p).handOff m) := by
  obtain ⟨htasks, hnext, howned⟩ := released_lists (a := a) (m := m) cur found p
  have fr := handOff_frame (a := (a.dropOwned cur m found).setPriority cur p) (m := m)
  obtain ⟨lc, hlc, hiffc⟩ := h.lists cur hcur
  obtain ⟨l₁, l₂, rfl⟩ := List.append_of_mem ((hiffc m).2 hm)
  have hnd := hlc.nodup
  obtain rfl : found = some l₁.getLast? := by
    rw [hf.unique (ownedFind_found none hlc), Option.or_none]
  have hown : ∀ m', ((((a.dropOwned cur m (some l₁.getLast?)).setPriority cur p).handOff m).mutex
      m').owner = if m' = m then none else (a.mutex m').owner := by
    intro m'
    rw [fr.owner, st.waiters, st.owner, h.waiters]
    rfl
  refine ⟨fun m' => ?_, fun t ht => ?_⟩
  · rw [fr.waiters, st.waiters, st.waiters, h.waiters, h.waiters]
    split_ifs <;> rfl
  · rw [htasks] at ht
    rw [hnext, howned]
    by_cases htc : t = cur
    · subst htc
      refine ⟨l₁ ++ l₂, dropOwned_chain hlc, fun m' => ?_⟩
      rw [hown]
      have hi := hiffc m'
      rw [List.nodup_middle, List.nodup_cons] at hnd
      split_ifs with he
      · subst he
        exact ⟨fun hx => absurd hx hnd.1, nofun⟩
      · rw [← hi]
        simp [he]
    · obtain ⟨l, hl, hiff⟩ := h.lists t ht
      have hout : ∀ x ∈ l, x ∉ l₁ ++ m :: l₂ := by
        intro x hx hx'
        have := ((hiff x).1 hx).symm.trans ((hiffc x).1 hx')
        exact htc (Option.some.inj this)
      obtain ⟨w, htcb⟩ := dropOwned_tcb (a := a) (t := cur) (m := m) (some l₁.getLast?)
      rw [htcb, Function.update_of_ne htc]
      refine ⟨l, hl.congr fun x hx => ?_, fun m' => ?_⟩
      · have := hout x hx
        simp only [List.mem_append, List.mem_cons, not_or] at this
        exact dropOwned_next_ne this.2.1 this.1
      · rw [hown, hiff]
        split_ifs with he
        · simp [he, hm, Ne.symm htc]
        · rfl

end Model

/-- The lists of owned mutexes end, repeat nothing and match the owners. -/
def Kernel.OwnLists (k : Kernel) : Prop :=
  ∀ t ∈ k.tasks, ∃ l, Chain k.nextMutex (k.tcb t).ownedMutexes l ∧ l.Nodup ∧
    ∀ m, m ∈ l ↔ (k.mutex m).owner = some t

/-- A lock of a mutex that another task owns. -/
def Obs.Contended (o : Obs) : Prop :=
  ∃ m t, o.entry = .svc (.mutexLock (some m)) ∧ (o.pre.mutex m).owner = some t ∧
    o.pre.gCurrent ≠ some t

theorem Sim.nextMutex (hs : Sim k a) : k.nextMutex = a.nextMutex :=
  congrArg Globals.nextMutex hs.globals

theorem Sim.ownLists (hs : Sim k a) (h : Model.Owned a) : k.OwnLists := by
  intro t ht
  rw [hs.tasks] at ht
  obtain ⟨l, hl, hiff⟩ := h.lists t ht
  rw [hs.nextMutex, hs.data, hs.mutex]
  exact ⟨l, hl, hl.nodup, hiff⟩

theorem Started.owned (h : Started b a) : Model.Owned a := by
  refine ⟨fun m => h.list_wait rfl, fun t ht => ?_⟩
  obtain ⟨sp, p, hn⟩ := h.fresh t ht
  rw [hn]
  refine ⟨[], rfl, fun m => ?_⟩
  rw [h.mutex]
  exact ⟨nofun, nofun⟩

theorem run_owned (h : Run b os k) :
    ∃ a, Sim k a ∧ Inv a ∧ ((∀ o ∈ os, ¬ o.Contended) → Model.Owned a) := by
  refine run_induct (P := fun os _ a => (∀ o ∈ os, ¬ o.Contended) → Model.Owned a)
    (fun _ hst _ => hst.owned) ?_ h
  intro os k a k' a' cur e r hs hi hc he ho hs' hi' hp hnc
  have hown := hp fun o ho' => hnc o (by simp [ho'])
  have hcur := hi.cur_mem hc
  rcases ho.mutex_cases hi hc with ⟨fr, -⟩ | ⟨m, -, -, hm, rfl⟩ | ⟨m, o, rfl, -, hm, hoc, rfl⟩ |
    ⟨m, found, p, rfl, -, hm, hf, -, rfl⟩
  · exact hown.frame hi fr
  · exact hown.lock hcur hm
  · refine absurd ⟨m, o, rfl, ?_, ?_⟩ (hnc ⟨k, _, r, k'⟩ (by simp))
    · change (k.mutex m).owner = some o
      rw [hs.mutex, hm]
    · change k.gCurrent ≠ some o
      rw [hs.gCurrent, hc]
      simpa using Ne.symm hoc
  · exact hown.unlock hcur hm hf (hi.settled he.1 hc found)

/-- A contended lock puts a mutex of another task on the caller's list. -/
theorem Obs.Contended.breaks {os₁ : List Obs} (hr : Run b os₁ o.pre) (he : o.pre.Enabled o.entry)
    (hret : (exec o.pre o.entry).Returns (o.ret, o.post)) (h : o.Contended) : ¬ o.post.OwnLists := by
  obtain ⟨m, t, hlock, hm, hne⟩ := h
  obtain ⟨a, hs, hi⟩ := run_sim hr
  obtain ⟨cur, hcur, hc⟩ := hi.cur
  obtain ⟨a', hs', -, ho⟩ := exec_sim hs hi hc he hret
  rw [hs.mutex] at hm
  rw [hs.gCurrent, hc] at hne
  have htc : t ≠ cur := fun he => hne (by rw [he])
  rw [hlock] at ho
  have hq := ho.queued hi hc hm htc
  intro hown
  obtain ⟨l, hl, -, hiff⟩ := hown cur (by rw [hs'.tasks, hq.tasks]; exact hcur)
  rw [hs'.data, hq.ownedMutexes, if_pos rfl] at hl
  have hml : m ∈ l := hl.visits_iff.1 .here
  have := (hiff m).1 hml
  rw [hs'.mutex, hq.owner, hm] at this
  exact htc (Option.some.inj this)

/-- The lists match the owners along a run exactly when no lock of the run is contended. -/
theorem ownership_lists (h : Run b os k) :
    (∀ os₁ k₁, os₁ <+: os → Run b os₁ k₁ → k₁.OwnLists) ↔ ∀ o ∈ os, ¬ o.Contended := by
  constructor
  · intro hall o ho hcon
    obtain ⟨os₁, os₂, rfl⟩ := List.append_of_mem ho
    obtain ⟨hr, he, hret⟩ := h.split rfl
    refine hcon.breaks hr he hret (hall (os₁ ++ [o]) o.post ?_ (hr.snoc he hret))
    exact ⟨os₂, by simp⟩
  · intro hnc os₁ k₁ hpre hr
    obtain ⟨a, hs, -, hown⟩ := run_owned hr
    exact hs.ownLists (hown fun o ho => hnc o (hpre.subset ho))

/-- Three mutexes, the second released first. -/
theorem ownership_lists_small : ∃ os k, Run (Boot.small [2] 0 0 (by decide)) os k ∧
    (k.mutex 0).owner = some 192 ∧ (k.mutex 1).owner = none ∧ (k.mutex 2).owner = some 192 ∧
    ∀ os₁ k₁, os₁ <+: os → Run (Boot.small [2] 0 0 (by decide)) os₁ k₁ → k₁.OwnLists := by
  obtain ⟨os, k, hr, h0, h1, h2, hno⟩ := Boot.play_exists (Boot.small [2] 0 0 (by decide)) 10
    [.pendSV, .svc (.mutexLock (some 0)), .svc (.mutexLock (some 1)), .svc (.mutexLock (some 2)),
      .svc (.mutexUnlock (some 1))]
    (fun os k => (k.mutex 0).owner = some 192 ∧ (k.mutex 1).owner = none ∧
      (k.mutex 2).owner = some 192 ∧ ∀ o ∈ os, ∀ m ∈ lockTarget o.entry, (o.pre.mutex m).owner = none)
    (by decide +kernel)
  refine ⟨os, k, hr, h0, h1, h2, (ownership_lists hr).2 ?_⟩
  rintro o ho ⟨m, t, he, hm, -⟩
  rw [hno o ho m (by rw [he]; rfl)] at hm
  cases hm

/-- A mutex is on the list of a task that waits for it. -/
theorem ownership_lists_fail : ∃ os k, Run (Boot.small [2, 2] 0 0 (by decide)) os k ∧
    ¬ k.OwnLists := by
  obtain ⟨os, k, hr, ht, hl, ho⟩ := Boot.play_exists (Boot.small [2, 2] 0 0 (by decide)) 10
    [.pendSV, .svc (.mutexLock (some 0)), .svc .yield, .pendSV, .svc (.mutexLock (some 0))]
    (fun _ k => 128 ∈ k.tasks ∧ (k.tcb 128).ownedMutexes = some 0 ∧
      (k.mutex 0).owner = some 192) (by decide +kernel)
  refine ⟨os, k, hr, fun hown => ?_⟩
  obtain ⟨l, hc, -, hiff⟩ := hown 128 ht
  rw [hl] at hc
  have := (hiff 0).1 (hc.visits_iff.1 .here)
  rw [ho] at this
  cases this

end Rtos

import Rtos.Proofs.MutualExclusion

/-! Fixed priorities and bounded inversion, for runs in which nobody locks while it
owns a mutex. A waiter then owns nothing, so nobody is boosted while it waits, every
owner has one mutex on its list, and its priority is its own or its first waiter's. -/

namespace Rtos

open Lib

open Model (WF Inv Outcome)

variable {b : Boot} {os : List Obs} {k : Kernel} {a a' c : Model} {t u cur o : TaskId} {m : MutexId}

/-- The lock calls of a run are made by tasks that own nothing. -/
def Obs.NoNesting (o : Obs) : Prop :=
  ∀ m, o.entry = .svc (.mutexLock (some m)) → ∀ m', (o.pre.mutex m').owner ≠ o.pre.gCurrent

structure Inherits (a : Model) : Prop where
  ok : MutexOk a
  single : ∀ m m' t, (a.mutex m).owner = some t → (a.mutex m').owner = some t → m = m'
  waiter : ∀ m t, t ∈ a.list (.mutex m) → ∀ m', (a.mutex m').owner ≠ some t
  owned : ∀ m t, (a.mutex m).owner = some t ∨ t ∈ a.list (.mutex m) →
    (a.tcb t).ownedMutexes = some m ∧ (a.mutex m).nextMutex = none
  unowned : ∀ t ∈ a.tasks, (∀ m, (a.mutex m).owner ≠ some t ∧ t ∉ a.list (.mutex m)) →
    (a.tcb t).ownedMutexes = none
  sorted : ∀ m, (a.list (.mutex m)).Pairwise fun t u => (a.tcb t).priority ≤ (a.tcb u).priority
  boosted : ∀ m o, (a.mutex m).owner = some o → ∀ w ∈ a.list (.mutex m),
    (a.tcb o).priority ≤ (a.tcb w).priority
  base : ∀ t ∈ a.tasks, (∀ m, (a.mutex m).owner = some t → a.list (.mutex m) = []) →
    (a.tcb t).priority = (a.tcb t).basePriority

theorem Inherits.frame (h : Inherits a) (hi : Inv a) (ok : MutexOk a') (fr : Model.MutexFrame a a') :
    Inherits a' := by
  have hmem : ∀ m t, t ∈ a.list (.mutex m) → t ∈ a.tasks := fun m t => hi.wf.mem_tasks
  have hpri : ∀ t ∈ a.tasks, (a'.tcb t).priority = (a.tcb t).priority := fun t ht => (fr.tcb t ht).1
  refine ⟨ok, by rw [fr.mutex]; exact h.single, ?_, ?_, ?_, ?_, ?_, ?_⟩
  · simp only [fr.mutex, fr.waiters]
    exact h.waiter
  · simp only [fr.mutex, fr.waiters]
    intro m t ht
    have htask : t ∈ a.tasks := ht.elim (hi.owner m t) (hmem m t)
    rw [(fr.tcb t htask).2.2]
    exact h.owned m t ht
  · simp only [fr.mutex, fr.waiters]
    intro t ht hno
    rcases fr.new t ht with hold | ⟨hnew, -⟩
    · rw [(fr.tcb t hold).2.2]
      exact h.unowned t hold hno
    · exact hnew
  · intro m
    rw [fr.waiters]
    refine (h.sorted m).imp_of_mem fun {t u} ht hu hle => ?_
    rwa [hpri t (hmem m t ht), hpri u (hmem m u hu)]
  · simp only [fr.mutex, fr.waiters]
    intro m o ho w hw
    rw [hpri o (hi.owner m o ho), hpri w (hmem m w hw)]
    exact h.boosted m o ho w hw
  · simp only [fr.mutex, fr.waiters]
    intro t ht hno
    rcases fr.new t ht with hold | ⟨-, hnew⟩
    · rw [hpri t hold, (fr.tcb t hold).2.1]
      exact h.base t hold hno
    · exact hnew

/-- The caller owns nothing and runs, so its list is empty. -/
theorem Inherits.caller (h : Inherits a) (hi : Inv a) (hp : a.pendsv = false)
    (hc : a.gCurrent = some cur) (hd : ∀ m, (a.mutex m).owner ≠ some cur) :
    (∀ m, cur ∉ a.list (.mutex m)) ∧ (a.tcb cur).ownedMutexes = none := by
  have hnot : ∀ m, cur ∉ a.list (.mutex m) := fun m => hi.running_not_waiting hp hc rfl
  exact ⟨hnot, h.unowned cur (hi.cur_mem hc) fun m => ⟨hd m, hnot m⟩⟩

theorem Inherits.lockFree (h : Inherits a) (hi : Inv a) (hp : a.pendsv = false)
    (hc : a.gCurrent = some cur) (hd : ∀ m, (a.mutex m).owner ≠ some cur)
    (hm : (a.mutex m).owner = none)
    (ok : MutexOk ((a.setMutex m fun x => { x with owner := some cur }).addToOwned cur m)) :
    Inherits ((a.setMutex m fun x => { x with owner := some cur }).addToOwned cur m) := by
  obtain ⟨hnot, hnone⟩ := h.caller hi hp hc hd
  have hfree := h.ok.free m hm
  have fr : Model.Acquired a
    ((a.setMutex m fun x => { x with owner := some cur }).addToOwned cur m) cur m :=
    Model.lock_acquired
  generalize (a.setMutex m fun x => { x with owner := some cur }).addToOwned cur m = b at *
  have hne : ∀ m' t, (a.mutex m').owner = some t ∨ t ∈ a.list (.mutex m') → t ≠ cur := by
    rintro m' t ht rfl
    exact ht.elim (hd m') (hnot m')
  refine ⟨ok, fun m₁ m₂ t h1 h2 => ?_, fun m₁ t ht m₂ h2 => ?_, fun m₁ t ht => ?_,
    fun t ht hno => ?_, fun m₁ => ?_, fun m₁ o ho w hw => ?_, fun t ht hno => ?_⟩
  · rw [fr.owner] at h1 h2
    split_ifs at h1 h2 with e1 e2 e2
    · rw [e1, e2]
    · exact absurd (Option.some.inj h1).symm (hne m₂ t (.inl h2))
    · exact absurd (Option.some.inj h2).symm (hne m₁ t (.inl h1))
    · exact h.single m₁ m₂ t h1 h2
  · rw [fr.list] at ht
    rw [fr.owner] at h2
    split_ifs at h2
    · exact absurd (Option.some.inj h2).symm (hne m₁ t (.inr ht))
    · exact h.waiter m₁ t ht m₂ h2
  · rw [fr.owner, fr.list] at ht
    rw [fr.nextMutex, fr.ownedMutexes]
    by_cases e : m₁ = m
    · subst e
      rw [if_pos rfl, hfree] at ht
      obtain rfl : cur = t := Option.some.inj (ht.resolve_right List.not_mem_nil)
      simp [hnone]
    · rw [if_neg e] at ht
      rw [if_neg e, if_neg (hne m₁ t ht)]
      exact h.owned m₁ t ht
  · have htc : t ≠ cur := by
      rintro rfl
      exact (hno m).1 (by rw [fr.owner, if_pos rfl])
    rw [fr.tasks] at ht
    rw [fr.ownedMutexes, if_neg htc]
    refine h.unowned t ht fun m' => ⟨fun ho => ?_, by rw [← fr.list]; exact (hno m').2⟩
    by_cases e : m' = m
    · rw [e, hm] at ho
      cases ho
    · exact (hno m').1 (by rw [fr.owner, if_neg e, ho])
  · rw [fr.list]
    simp only [fr.priority]
    exact h.sorted m₁
  · rw [fr.list] at hw
    rw [fr.owner] at ho
    split_ifs at ho with e
    · rw [e, hfree] at hw
      cases hw
    · rw [fr.priority, fr.priority]
      exact h.boosted m₁ o ho w hw
  · rw [fr.tasks] at ht
    rw [fr.priority, fr.basePriority]
    refine h.base t ht fun m' ho => ?_
    by_cases e : m' = m
    · rw [e]
      exact hfree
    · rw [← fr.list]
      exact hno m' (by rw [fr.owner, if_neg e, ho])

/-- The queue the caller joins stays sorted: nobody in it has been boosted. -/
theorem Inherits.lockBlock_sorted (h : Inherits a) (hi : Inv a) (hc : a.gCurrent = some cur)
    (hm : (a.mutex m).owner = some o) (hoc : o ≠ cur) (m' : MutexId) :
    ((((a.boost cur o).block (.mutex m) osWaitForever true).addToOwned cur m).list
      (.mutex m')).Pairwise fun t u => (a.tcb t).priority ≤ (a.tcb u).priority := by
  have hbc : (a.boost cur o).gCurrent = some cur := by rw [Model.boost_toGlobals, hc]
  have hnot : ∀ m', o ∉ a.list (.mutex m') := fun m' ho => h.waiter m' o ho m hm
  have hbl : ∀ m', (a.boost cur o).list (.mutex m') = a.list (.mutex m') := fun m' =>
    Model.boost_list_other hi.wf (hi.owner m o hm) rfl (hnot m')
  have hpri : ∀ u, u ≠ o → ((a.boost cur o).tcb u).priority = (a.tcb u).priority := fun u hu => by
    rw [Model.boost_tcb, if_neg fun hx => hu hx.1]
  rw [Model.addToOwned_list]
  by_cases hmm : m' = m
  · subst hmm
    rw [Model.block_list hbc, Model.enqueue_list_insert rfl, hbl]
    have hne : ∀ y ∈ a.list (.mutex m'), y ≠ o := fun y hy hc' => hnot m' (hc' ▸ hy)
    refine pairwise_insertWhile (fun y hy hp => ?_) (fun y hy hp => ?_) (h.sorted m')
    · have := of_decide_eq_true hp
      rwa [hpri y (hne y hy), hpri cur hoc.symm] at this
    · have := of_decide_eq_false hp
      rw [hpri y (hne y hy), hpri cur hoc.symm, not_le] at this
      exact this.le
  · rw [Model.block_list_other hbc _ _ (by simpa using hmm) rfl, hbl]
    exact h.sorted m'

theorem Inherits.lockBlock (h : Inherits a) (hi : Inv a) (hp : a.pendsv = false)
    (hc : a.gCurrent = some cur) (hd : ∀ m, (a.mutex m).owner ≠ some cur)
    (hm : (a.mutex m).owner = some o) (hoc : o ≠ cur)
    (ok : MutexOk (((a.boost cur o).block (.mutex m) osWaitForever true).addToOwned cur m)) :
    Inherits (((a.boost cur o).block (.mutex m) osWaitForever true).addToOwned cur m) := by
  obtain ⟨hnot, hnone⟩ := h.caller hi hp hc hd
  have hsort := h.lockBlock_sorted hi hc hm hoc
  have fr := hi.queued hc hm
  generalize ((a.boost cur o).block (.mutex m) osWaitForever true).addToOwned cur m = b at *
  have hwo : ∀ m', ∀ w ∈ b.list (.mutex m'), w ≠ o := by
    rintro m' w hw rfl
    rcases (fr.waiters m' w).1 hw with hw | ⟨-, rfl⟩
    · exact h.waiter m' w hw m hm
    · exact hoc rfl
  have hpri : ∀ u, u ≠ o → (b.tcb u).priority = (a.tcb u).priority := fun u hu => by
    rw [fr.priority, if_neg hu]
  have hne : ∀ m' t, (a.mutex m').owner = some t ∨ t ∈ a.list (.mutex m') → t ≠ cur := by
    rintro m' t ht rfl
    exact ht.elim (hd m') (hnot m')
  refine ⟨ok, fun m₁ m₂ t => ?_, fun m₁ t ht m₂ => ?_, fun m₁ t ht => ?_, fun t ht hno => ?_,
    fun m₁ => ?_, fun m₁ o₁ ho w hw => ?_, fun t ht hno => ?_⟩
  · rw [fr.owner, fr.owner]
    exact h.single m₁ m₂ t
  · rw [fr.owner]
    rcases (fr.waiters m₁ t).1 ht with ht | ⟨-, rfl⟩
    · exact h.waiter m₁ t ht m₂
    · exact hd m₂
  · have hcases : (a.mutex m₁).owner = some t ∨ t ∈ a.list (.mutex m₁) ∨ m₁ = m ∧ t = cur := by
      rwa [fr.owner, fr.waiters] at ht
    rw [fr.ownedMutexes, fr.nextMutex, hnone]
    rcases or_assoc.2 hcases with hold | ⟨rfl, rfl⟩
    · obtain ⟨h1, h2⟩ := h.owned m₁ t hold
      rw [if_neg (hne m₁ t hold), h2, ite_self]
      exact ⟨h1, rfl⟩
    · simp
  · have htc : t ≠ cur := by
      rintro rfl
      exact (hno m).2 ((fr.waiters m t).2 (.inr ⟨rfl, rfl⟩))
    rw [fr.ownedMutexes, if_neg htc]
    rw [fr.tasks] at ht
    refine h.unowned t ht fun m' => ⟨?_, fun hw => (hno m').2 ((fr.waiters m' t).2 (.inl hw))⟩
    rw [← fr.owner]
    exact (hno m').1
  · refine (hsort m₁).imp_of_mem fun {t u} ht hu hle => ?_
    rwa [hpri t (hwo m₁ t ht), hpri u (hwo m₁ u hu)]
  · rw [fr.owner] at ho
    rw [hpri w (hwo m₁ w hw)]
    rcases (fr.waiters m₁ w).1 hw with hw | ⟨rfl, rfl⟩
    · by_cases ho₁ : o₁ = o
      · subst ho₁
        rw [fr.priority, if_pos rfl]
        exact (min_le_right _ _).trans (h.boosted m₁ o₁ ho w hw)
      · rw [hpri o₁ ho₁]
        exact h.boosted m₁ o₁ ho w hw
    · obtain rfl : o = o₁ := Option.some.inj (hm.symm.trans ho)
      rw [fr.priority, if_pos rfl]
      exact min_le_left _ _
  · have hto : t ≠ o := by
      rintro rfl
      have := hno m (by rw [fr.owner, hm])
      have hin := (fr.waiters m cur).2 (.inr ⟨rfl, rfl⟩)
      rw [this] at hin
      cases hin
    rw [hpri t hto, fr.basePriority]
    rw [fr.tasks] at ht
    refine h.base t ht fun m' ho => List.eq_nil_iff_forall_not_mem.2 fun w hw => ?_
    have := hno m' (by rw [fr.owner, ho])
    have hin := (fr.waiters m' w).2 (.inl hw)
    rw [this] at hin
    cases hin

/-- The owner's list is the one mutex, so the walks find it at once and then nothing. -/
theorem Inherits.unlock_walks (h : Inherits a) (hm : (a.mutex m).owner = some cur)
    {found : Option (Option MutexId)} {p : Priority}
    (hf : (ownedFind (fun c => (a.mutex c).nextMutex) m
      (none, (a.tcb cur).ownedMutexes)).Returns found)
    (hp : ((a.dropOwned cur m found).recomputePriority cur).Returns p) :
    found = some none ∧ p = (a.tcb cur).basePriority := by
  obtain ⟨ho, hn⟩ := h.owned m cur (.inl hm)
  rw [ho, ownedFind, Comp.returns_loop] at hf
  obtain rfl : some none = found := by simpa using hf
  refine ⟨rfl, ?_⟩
  have htcb : ((a.dropOwned cur m (some none)).tcb cur) =
      { a.tcb cur with ownedMutexes := none } := by
    simp [Model.dropOwned, hn]
  rw [Model.recomputePriority, htcb, recomputeWalk, Comp.returns_loop] at hp
  simpa [eq_comm] using hp

/-- What an unlock of `m` does when its owner `cur` has no other mutex. -/
structure Released (a a' : Model) (cur : TaskId) (m : MutexId) : Prop where
  owner : ∀ m', (a'.mutex m').owner =
    if m' = m then (a.list (.mutex m)).head? else (a.mutex m').owner
  waiters : ∀ m', a'.list (.mutex m') =
    if m' = m then (a.list (.mutex m)).tail else a.list (.mutex m')
  nextMutex : ∀ m', (a'.mutex m').nextMutex = (a.mutex m').nextMutex
  tasks : a'.tasks = a.tasks
  priority : ∀ u, (a'.tcb u).priority =
    if u = cur then (a.tcb cur).basePriority else (a.tcb u).priority
  basePriority : ∀ u, (a'.tcb u).basePriority = (a.tcb u).basePriority
  ownedMutexes : ∀ u, (a'.tcb u).ownedMutexes = if u = cur then none else (a.tcb u).ownedMutexes

theorem Inherits.released (h : Inherits a) (hi : Inv a) (hp : a.pendsv = false)
    (hc : a.gCurrent = some cur) (hm : (a.mutex m).owner = some cur) :
    Released a (((a.dropOwned cur m (some none)).setPriority cur (a.tcb cur).basePriority).handOff m)
      cur m := by
  have hn := (h.owned m cur (.inl hm)).2
  have st := hi.settled (m := m) (p := (a.tcb cur).basePriority) hp hc (some none)
  have hnext : ∀ m', ((((a.dropOwned cur m (some none)).setPriority cur
      (a.tcb cur).basePriority).mutex m').nextMutex) = (a.mutex m').nextMutex := by
    intro m'
    rw [Model.setPriority_toGlobals]
    simp only [Model.dropOwned, Model.setMutex_mutex]
    split_ifs with e
    · rw [e, hn]
    · rfl
  have howned : (((a.dropOwned cur m (some none)).setPriority cur
      (a.tcb cur).basePriority).tcb cur).ownedMutexes = none := by
    rw [Model.setPriority_tcb, if_pos rfl]
    simp [Model.dropOwned, hn]
  generalize (a.dropOwned cur m (some none)).setPriority cur (a.tcb cur).basePriority = c at *
  have fr := Model.handOff_frame (a := c) (m := m)
  refine ⟨fun m' => ?_, fun m' => ?_, fun m' => ?_, ?_, fun u => ?_, fun u => ?_, fun u => ?_⟩
  · rw [fr.owner, st.waiters, st.owner]
  · rw [fr.waiters, st.waiters, st.waiters]
  · rw [fr.nextMutex, hnext]
  · rw [fr.tasks, st.tasks]
  · rw [(fr.tcb u).1, st.priority]
  · rw [(fr.tcb u).2.1, st.basePriority]
  · rw [(fr.tcb u).2.2]
    split_ifs with hu
    · rw [hu, howned]
    · exact st.ownedMutexes u hu

namespace Released

section

variable (hr : Released a a' cur m)
include hr

/-- The new owner has waited for this mutex; the other mutexes keep theirs. -/
theorem owner_cases {m' : MutexId} (ho : (a'.mutex m').owner = some t) :
    m' = m ∧ (a.list (.mutex m)).head? = some t ∨ m' ≠ m ∧ (a.mutex m').owner = some t := by
  rw [hr.owner] at ho
  split_ifs at ho with e
  · exact .inl ⟨e, ho⟩
  · exact .inr ⟨e, ho⟩

theorem mem_waiters {m' : MutexId} (ht : t ∈ a'.list (.mutex m')) : t ∈ a.list (.mutex m') := by
  rw [hr.waiters] at ht
  split_ifs at ht with e
  · rw [e]
    exact List.mem_of_mem_tail ht
  · exact ht

/-- A waiter of the mutex is its new owner or goes on waiting. -/
theorem waiter_cases (ht : t ∈ a.list (.mutex m)) :
    (a'.mutex m).owner = some t ∨ t ∈ a'.list (.mutex m) := by
  rw [hr.owner, if_pos rfl, hr.waiters, if_pos rfl]
  cases hl : a.list (.mutex m) with
  | nil => simp [hl] at ht
  | cons x l =>
    rw [hl] at ht
    rcases List.mem_cons.1 ht with rfl | ht
    · exact .inl rfl
    · exact .inr ht

end

variable (h : Inherits a) (hi : Inv a) (hp : a.pendsv = false) (hc : a.gCurrent = some cur)
  (hm : (a.mutex m).owner = some cur) (hr : Released a a' cur m)
include h hi hp hc hm hr

omit h hm in
theorem waiter_ne {m' : MutexId} (ht : t ∈ a'.list (.mutex m')) : t ≠ cur := fun hx =>
  hi.running_not_waiting hp hc (q := .mutex m') rfl (hx ▸ hr.mem_waiters ht)

/-- Who owns a mutex now owned it before and is not the caller, or has waited for it. -/
theorem owner_before {m' : MutexId} (ho : (a'.mutex m').owner = some t) :
    t ≠ cur ∧ ((a.mutex m').owner = some t ∨ t ∈ a.list (.mutex m')) := by
  rcases hr.owner_cases ho with ⟨rfl, hh⟩ | ⟨hne, ho⟩
  · have ht := List.mem_of_mem_head? hh
    exact ⟨fun hx => hi.running_not_waiting hp hc (q := .mutex m') rfl (hx ▸ ht), .inr ht⟩
  · refine ⟨?_, .inl ho⟩
    rintro rfl
    exact hne (h.single m' m t ho hm)

omit hi hp hc hm in
theorem single (m₁ m₂ : MutexId) (t : TaskId) (h1 : (a'.mutex m₁).owner = some t)
    (h2 : (a'.mutex m₂).owner = some t) : m₁ = m₂ := by
  rcases hr.owner_cases h1 with ⟨rfl, h1⟩ | ⟨-, h1⟩
  · rcases hr.owner_cases h2 with ⟨rfl, -⟩ | ⟨-, h2⟩
    · rfl
    · exact absurd h2 (h.waiter m₁ t (List.mem_of_mem_head? h1) m₂)
  · rcases hr.owner_cases h2 with ⟨rfl, h2⟩ | ⟨-, h2⟩
    · exact absurd h1 (h.waiter m₂ t (List.mem_of_mem_head? h2) m₁)
    · exact h.single m₁ m₂ t h1 h2

omit hp hc hm in
theorem waiter (m₁ : MutexId) (t : TaskId) (ht : t ∈ a'.list (.mutex m₁)) (m₂ : MutexId) :
    (a'.mutex m₂).owner ≠ some t := by
  intro h2
  have hta := hr.mem_waiters ht
  rcases hr.owner_cases h2 with ⟨rfl, hh⟩ | ⟨-, h2⟩
  · obtain rfl := QueueRef.mutex.inj (hi.wf.disjoint hta (List.mem_of_mem_head? hh))
    rw [hr.waiters, if_pos rfl] at ht
    obtain ⟨l, hl⟩ := List.head?_eq_some_iff.1 hh
    have hnd := hi.wf.nodup (.mutex m₁)
    rw [hl, List.nodup_cons] at hnd
    rw [hl] at ht
    exact hnd.1 ht
  · exact h.waiter m₁ t hta m₂ h2

theorem owned (m₁ : MutexId) (t : TaskId)
    (ht : (a'.mutex m₁).owner = some t ∨ t ∈ a'.list (.mutex m₁)) :
    (a'.tcb t).ownedMutexes = some m₁ ∧ (a'.mutex m₁).nextMutex = none := by
  have hold : t ≠ cur ∧ ((a.mutex m₁).owner = some t ∨ t ∈ a.list (.mutex m₁)) := by
    rcases ht with ht | ht
    · exact hr.owner_before h hi hp hc hm ht
    · exact ⟨hr.waiter_ne hi hp hc ht, .inr (hr.mem_waiters ht)⟩
  rw [hr.nextMutex, hr.ownedMutexes, if_neg hold.1]
  exact h.owned m₁ t hold.2

omit hi hp hc in
theorem unowned (t : TaskId) (ht : t ∈ a'.tasks)
    (hno : ∀ m, (a'.mutex m).owner ≠ some t ∧ t ∉ a'.list (.mutex m)) :
    (a'.tcb t).ownedMutexes = none := by
  rw [hr.ownedMutexes]
  split_ifs with htc
  · rfl
  · rw [hr.tasks] at ht
    refine h.unowned t ht fun m' => ⟨fun ho => ?_, fun hw => ?_⟩
    · by_cases e : m' = m
      · rw [e, hm] at ho
        exact htc (Option.some.inj ho).symm
      · exact (hno m').1 (by rw [hr.owner, if_neg e, ho])
    · by_cases e : m' = m
      · subst e
        exact (hr.waiter_cases hw).elim (hno m').1 (hno m').2
      · exact (hno m').2 (by rw [hr.waiters, if_neg e]; exact hw)

omit hm in
theorem sorted (m₁ : MutexId) :
    (a'.list (.mutex m₁)).Pairwise fun t u => (a'.tcb t).priority ≤ (a'.tcb u).priority := by
  have hs : (a'.list (.mutex m₁)).Pairwise fun t u => (a.tcb t).priority ≤ (a.tcb u).priority := by
    rw [hr.waiters]
    split_ifs
    · exact (h.sorted m).tail
    · exact h.sorted m₁
  refine hs.imp_of_mem fun {t u} ht hu hle => ?_
  rwa [hr.priority, hr.priority, if_neg (hr.waiter_ne hi hp hc ht), if_neg (hr.waiter_ne hi hp hc hu)]

theorem boosted (m₁ : MutexId) (o : TaskId) (ho : (a'.mutex m₁).owner = some o) (w : TaskId)
    (hw : w ∈ a'.list (.mutex m₁)) : (a'.tcb o).priority ≤ (a'.tcb w).priority := by
  rw [hr.priority, hr.priority, if_neg (hr.owner_before h hi hp hc hm ho).1,
    if_neg (hr.waiter_ne hi hp hc hw)]
  rcases hr.owner_cases ho with ⟨rfl, hh⟩ | ⟨-, ho⟩
  · obtain ⟨l, hl⟩ := List.head?_eq_some_iff.1 hh
    have hs := h.sorted m₁
    rw [hl, List.pairwise_cons] at hs
    rw [hr.waiters, if_pos rfl, hl] at hw
    exact hs.1 w hw
  · exact h.boosted m₁ o ho w (hr.mem_waiters hw)

omit hi hp hc in
theorem base (t : TaskId) (ht : t ∈ a'.tasks)
    (hno : ∀ m, (a'.mutex m).owner = some t → a'.list (.mutex m) = []) :
    (a'.tcb t).priority = (a'.tcb t).basePriority := by
  rw [hr.priority, hr.basePriority]
  split_ifs with htc
  · rw [htc]
  · rw [hr.tasks] at ht
    refine h.base t ht fun m' ho => ?_
    have e : m' ≠ m := by
      rintro rfl
      exact htc (Option.some.inj (ho.symm.trans hm))
    have := hno m' (by rw [hr.owner, if_neg e, ho])
    rwa [hr.waiters, if_neg e] at this

end Released

theorem Inherits.unlock (h : Inherits a) (hi : Inv a) (hp : a.pendsv = false)
    (hc : a.gCurrent = some cur) (hm : (a.mutex m).owner = some cur)
    (ok : MutexOk (((a.dropOwned cur m (some none)).setPriority cur
      (a.tcb cur).basePriority).handOff m)) :
    Inherits (((a.dropOwned cur m (some none)).setPriority cur (a.tcb cur).basePriority).handOff m) := by
  have hr := h.released hi hp hc hm
  exact ⟨ok, hr.single h, hr.waiter h hi, hr.owned h hi hp hc hm, hr.unowned h hm,
    hr.sorted h hi hp hc, hr.boosted h hi hp hc hm, hr.base h hm⟩

theorem Inherits.step (h : Inherits a) (hi : Inv a) (hc : a.gCurrent = some cur) {e : Entry} {r : ℤ}
    (he : a.Enabled e) (ho : Outcome a cur e r a')
    (hd : ∀ m, e = .svc (.mutexLock (some m)) → ∀ m', (a.mutex m').owner ≠ some cur) :
    Inherits a' := by
  have ok := h.ok.step hi hc he ho
  rcases ho.mutex_cases hi hc with ⟨fr, -⟩ | ⟨m, rfl, -, hm, rfl⟩ | ⟨m, o, rfl, -, hm, hoc, rfl⟩ |
      ⟨m, found, p, rfl, -, hm, hf, hp, rfl⟩
  · exact h.frame hi ok fr
  · exact h.lockFree hi he.1 hc (hd m rfl) hm ok
  · exact h.lockBlock hi he.1 hc (hd m rfl) hm hoc ok
  · obtain ⟨rfl, rfl⟩ := h.unlock_walks hm hf hp
    exact h.unlock hi he.1 hc hm ok

/-- Nobody who could run is more urgent than the next task. -/
def BestNext (a : Model) : Prop :=
  ∀ n, a.gNext = some n → ∀ u ∈ a.tasks, (a.tcb u).state ≠ .blocked →
    (a.tcb n).priority ≤ (a.tcb u).priority

theorem BestNext.congr (h : BestNext a) (hn : a'.gNext = a.gNext) (ht : a'.tasks = a.tasks)
    (hp : ∀ u, (a'.tcb u).priority = (a.tcb u).priority)
    (hs : ∀ u ∈ a.tasks, (a'.tcb u).state ≠ .blocked → (a.tcb u).state ≠ .blocked) :
    BestNext a' := by
  intro n hn' u hu hst
  rw [hp, hp]
  rw [hn] at hn'
  rw [ht] at hu
  exact h n hn' u hu (hs u hu hst)

theorem bestNext_of_firstReady (hw : WF a) (hn : a.gNext = a.firstReady) : BestNext a := by
  intro n hn' u hu hst
  rw [hn] at hn'
  exact (Model.firstReady_some hw hn').2.2.2 u hu hst

theorem bestNext_reschedule (hw : WF a.reschedule) : BestNext a.reschedule := by
  refine bestNext_of_firstReady hw ?_
  rw [Model.reschedule_gNext]
  exact (Model.firstReady_congr (by simp)).symm

/-- An unlock that wakes nobody does not reschedule, and need not: with no waiters the
owner's priority was its own already. -/
theorem BestNext.unlock (h : BestNext a) (hh : Inherits a) (hi : Inv a) (hp : a.pendsv = false)
    (hc : a.gCurrent = some cur) (hm : (a.mutex m).owner = some cur)
    (hw : WF (((a.dropOwned cur m (some none)).setPriority cur (a.tcb cur).basePriority).handOff m)) :
    BestNext (((a.dropOwned cur m (some none)).setPriority cur (a.tcb cur).basePriority).handOff m) := by
  have st := hi.settled (m := m) (p := (a.tcb cur).basePriority) hp hc (some none)
  have hst : ∀ u, (((a.dropOwned cur m (some none)).setPriority cur
      (a.tcb cur).basePriority).tcb u).state = (a.tcb u).state := by
    intro u
    rw [Model.setPriority_tcb]
    obtain ⟨w, htcb⟩ := Model.dropOwned_tcb (a := a) (t := cur) (m := m) (some none)
    split_ifs with hu
    · rw [htcb, hu, Function.update_self]
    · rw [htcb, Function.update_of_ne hu]
  have hn : ((a.dropOwned cur m (some none)).setPriority cur (a.tcb cur).basePriority).gNext =
      a.gNext := by
    rw [Model.setPriority_toGlobals]
    rfl
  generalize (a.dropOwned cur m (some none)).setPriority cur (a.tcb cur).basePriority = c at *
  cases hl : c.list (.mutex m) with
  | nil =>
    have hb : (a.tcb cur).priority = (a.tcb cur).basePriority := by
      refine hh.base cur (hi.cur_mem hc) fun m' ho => ?_
      rw [hh.single m' m cur ho hm, ← st.waiters, hl]
    have he : c.handOff m = c.setMutex m fun x => { x with owner := none } := by
      simp only [Model.handOff, hl]
    rw [he]
    refine h.congr hn st.tasks (fun u => ?_) fun u _ => ?_
    · rw [Model.setMutex_tcb, st.priority]
      split_ifs with hu
      · rw [hu, hb]
      · rfl
    · rw [Model.setMutex_tcb, hst]
      exact id
  | cons t l =>
    have he : c.handOff m =
        ((c.wake (.mutex m) t).setMutex m fun x => { x with owner := some t }).reschedule := by
      simp only [Model.handOff, hl]
    rw [he] at hw ⊢
    exact bestNext_reschedule hw

theorem BestNext.step (h : BestNext a) (hh : Inherits a) (hi : Inv a) (hi' : Inv a')
    (hc : a.gCurrent = some cur) {e : Entry} {r : ℤ} (he : a.Enabled e)
    (ho : Outcome a cur e r a') : BestNext a' := by
  have hw := hi'.wf
  cases ho with
  | tick => exact bestNext_reschedule hw
  | pendSV =>
    obtain ⟨n, -, hn, hns⟩ := hi.next
    rw [Model.commit_eq (a := { a with pendsv := false }) hn]
    refine h.congr rfl rfl (fun _ => rfl) fun u _ hb hb' => hb ?_
    exact (Model.commitState_blocked fun hx => hx ▸ hns).2 hb'
  | yield => exact bestNext_of_firstReady hw rfl
  | delayZero => exact bestNext_of_firstReady hw rfl
  | delay _ => exact bestNext_of_firstReady hw (Model.block_gNext hc _ _)
  | takeBlock _ => exact bestNext_of_firstReady hw (Model.block_gNext hc _ _)
  | giveWake _ => exact bestNext_reschedule hw
  | @lockBlock m o hm hoc =>
    have hbc : (a.boost cur o).gCurrent = some cur := by rw [Model.boost_toGlobals, hc]
    refine bestNext_of_firstReady hw ((Model.block_gNext hbc _ _).trans ?_)
    exact (Model.firstReady_congr rfl).symm
  | unlock hm hf hp =>
    obtain ⟨rfl, rfl⟩ := hh.unlock_walks hm hf hp
    exact h.unlock hh hi he.1 hc hm hw
  | lockFree _ =>
    refine h.congr rfl rfl (fun u => ?_) fun u _ => ?_
    · exact Model.addToOwned_keeps TcbData.priority (fun _ _ => rfl) u
    · rw [Model.addToOwned_keeps TcbData.state fun _ _ => rfl]
      exact id
  | take _ => exact h
  | give _ => exact h
  | createFailed hf =>
    obtain ⟨⟨pool, mem, rfl⟩, -, -⟩ := hf
    exact h
  | created hf => exact bestNext_of_firstReady hw hf.frame.gNext
  | takeNull => exact h
  | giveNull => exact h
  | lockNull => exact h
  | lockOwn _ => exact h
  | unlockNull => exact h
  | unlockOther _ => exact h
  | unrecognized => exact h

theorem Started.inherits (h : Started b a) : Inherits a := by
  have hl : ∀ m, a.list (.mutex m) = [] := fun m => h.list_wait rfl
  have hfresh : ∀ t ∈ a.tasks, (a.tcb t).ownedMutexes = none ∧
      (a.tcb t).priority = (a.tcb t).basePriority := fun t ht => by
    obtain ⟨sp, p, hp⟩ := h.fresh t ht
    rw [hp]
    exact ⟨rfl, rfl⟩
  refine ⟨h.mutexOk, fun m _ t ht => absurd ht (h.owner_ne m t), fun m t ht => ?_, fun m t ht => ?_,
    fun t ht _ => (hfresh t ht).1, fun m => ?_, fun m o ho => absurd ho (h.owner_ne m o),
    fun t ht _ => (hfresh t ht).2⟩
  · rw [hl] at ht
    cases ht
  · rw [hl] at ht
    exact ht.elim (fun h' => absurd h' (h.owner_ne m t)) nofun
  · rw [hl]
    exact List.Pairwise.nil

theorem run_inherits (h : Run b os k) :
    ∃ a, Sim k a ∧ Inv a ∧ ((∀ o ∈ os, o.NoNesting) → Inherits a ∧ BestNext a) := by
  refine run_induct (P := fun os _ a => (∀ o ∈ os, o.NoNesting) → Inherits a ∧ BestNext a)
    (fun _ hst _ => ⟨hst.inherits, bestNext_of_firstReady hst.inv.wf hst.gNext⟩) ?_ h
  intro os k a k' a' cur e r hs hi hc he ho hs' hi' hp hd
  obtain ⟨h1, h2⟩ := hp fun o ho => hd o (by simp [ho])
  refine ⟨h1.step hi hc he ho fun m hm m' => ?_, h2.step h1 hi hi' hc he ho⟩
  have := hd ⟨k, e, r, k'⟩ (by simp) m hm m'
  rwa [hs.mutex, hs.gCurrent, hc] at this

/-- With no switch pending, the task that was chosen runs. -/
theorem chosen_step (h : a.pendsv = false → a.gNext = a.gCurrent) (hi : Inv a)
    (hc : a.gCurrent = some cur) {e : Entry} {r : ℤ} (ho : Outcome a cur e r a')
    (hp : a'.pendsv = false) : a'.gNext = a'.gCurrent := by
  have hre : ∀ {x : Model}, x.reschedule.pendsv = false →
      x.reschedule.gNext = x.reschedule.gCurrent := by
    intro x hx
    rw [Model.reschedule_gNext, Model.reschedule_gCurrent]
    exact (Model.reschedule_pendsv.1 hx).2
  have hbl : ∀ {x : Model} {q ticks o}, x.gCurrent = some cur → (x.block q ticks o).pendsv = false →
      (x.block q ticks o).gNext = (x.block q ticks o).gCurrent := by
    intro x q ticks o hx hp
    rw [Model.block_eq hx] at hp ⊢
    exact hre hp
  cases ho with
  | tick => exact hre hp
  | pendSV =>
    obtain ⟨n, -, hn, -⟩ := hi.next
    rw [Model.commit_eq (a := { a with pendsv := false }) hn]
    exact hn
  | yield => cases hp
  | delayZero => cases hp
  | delay _ => exact hbl hc hp
  | takeBlock _ => exact hbl hc hp
  | giveWake _ => exact hre hp
  | @lockBlock m o _ _ =>
    have hbc : (a.boost cur o).gCurrent = some cur := by
      rw [Model.boost_toGlobals]
      exact hc
    exact hbl hbc hp
  | @unlock m found p _ _ _ =>
    have hg : ((a.dropOwned cur m found).setPriority cur p).toGlobals =
        (a.dropOwned cur m found).toGlobals := Model.setPriority_toGlobals
    unfold Model.handOff at hp ⊢
    split at hp
    · exact hre hp
    · rw [Model.setMutex_pendsv, hg, Model.dropOwned_pendsv] at hp
      rw [Model.setMutex_gNext, Model.setMutex_gCurrent, hg, Model.dropOwned_gNext,
        Model.dropOwned_gCurrent]
      exact h hp
  | createFailed hf =>
    obtain ⟨⟨pool, mem, rfl⟩, -, -⟩ := hf
    exact h hp
  | created hf =>
    have fr := hf.frame
    rw [fr.pendsv, Bool.or_eq_false_iff, decide_eq_false_iff_not] at hp
    rw [fr.gNext, fr.gCurrent]
    by_contra hne
    exact hp.2 ⟨by rw [hc]; simp, hne⟩
  | _ => exact h hp

theorem run_chosen (h : Run b os k) (hp : k.pendsv = false) : k.gNext = k.gCurrent := by
  obtain ⟨a, hs, -, ha⟩ := run_induct (P := fun _ _ a => a.pendsv = false → a.gNext = a.gCurrent)
    (fun _ hst hp => absurd hst.pendsv (by rw [hp]; simp))
    (fun _ hi hc _ ho _ _ hp => chosen_step hp hi hc ho) h
  rw [hs.globals] at hp ⊢
  exact ha hp

/-- While task code executes, the current task runs, no ready task is more urgent, and
no task that waits for a mutex is, unless the owner is itself blocked. -/
theorem bounded_inversion (h : Run b os k) (hd : ∀ o ∈ os, o.NoNesting) (hr : k.TaskRuns) :
    ∃ c, k.gCurrent = some c ∧ (k.tcb c).state = .running ∧
      (∀ t ∈ k.tasks, (k.tcb t).state = .ready → (k.tcb c).priority ≤ (k.tcb t).priority) ∧
      ∀ w ∈ k.tasks, (k.tcb w).state = .blocked → ∀ m, (k.tcb w).waitQueue = some (.mutex m) →
        ∀ o, (k.mutex m).owner = some o → (k.tcb o).state ≠ .blocked →
          (k.tcb c).priority ≤ (k.tcb w).priority := by
  obtain ⟨a, hs, hi, hp⟩ := run_inherits h
  obtain ⟨hh, hbest⟩ := hp hd
  obtain ⟨c, -, hc⟩ := hi.cur
  have hpend : a.pendsv = false := by rw [← hs.globals]; exact hr
  have hrun := hi.running hpend
  have hnext : a.gNext = a.gCurrent := by
    have := run_chosen h hr
    rwa [hs.globals] at this
  have hle : ∀ u ∈ a.tasks, (a.tcb u).state ≠ .blocked → (a.tcb c).priority ≤ (a.tcb u).priority :=
    hbest c (hnext.trans hc)
  refine ⟨c, hs.gCurrent.trans hc, ?_, fun t ht hst => ?_, fun w hw hb m hq o ho hob => ?_⟩
  · rw [hs.data]
    exact hrun c hc
  · rw [hs.tasks] at ht
    rw [hs.data] at hst ⊢
    rw [hs.data]
    exact hle t ht (by rw [hst]; simp)
  · rw [hs.tasks] at hw
    rw [hs.data] at hb hq hob ⊢
    rw [hs.data]
    rw [hs.mutex] at ho
    have hmem : w ∈ a.list (.mutex m) := hi.wf.home_mem hw (by simp [Model.home, hb, hq])
    calc (a.tcb c).priority ≤ (a.tcb o).priority := hle o (hi.owner m o ho) hob
      _ ≤ (a.tcb w).priority := hh.boosted m o ho w hmem

/-- Only mutexes that some earlier call has locked need to be looked at. -/
theorem noNesting_of_locked (h : Run b os k)
    (hno : ∀ o ∈ os, ∀ o' ∈ os, ∀ m ∈ lockTarget o'.entry,
      (lockTarget o.entry).isSome → (o.pre.mutex m).owner ≠ o.pre.gCurrent) :
    ∀ o ∈ os, o.NoNesting := by
  intro o ho m hm m' hown
  obtain ⟨os₁, os₂, hos⟩ := List.append_of_mem ho
  have hpre := (h.split hos).1
  obtain ⟨a, hs, hi⟩ := run_sim hpre
  obtain ⟨c, -, hc⟩ := hi.cur
  have hc' := hs.gCurrent.trans hc
  obtain ⟨os₃, o', os₄, hos₁, ⟨he, -, -⟩, -⟩ := claims_of_owner hpre (hown.trans hc')
  refine hno o ho o' ?_ m' ?_ ?_ hown
  · rw [hos, hos₁]
    simp
  · rw [he]
    rfl
  · rw [hm]
    rfl

/-- A priority inversion that inheritance cuts short: 192 (high) waits for 128 (low), which
runs boosted. -/
theorem bounded_inversion_small : ∃ os k, Run (Boot.small [0, 2] 0 0 (by decide)) os k ∧
    (∀ o ∈ os, o.NoNesting) ∧ k.TaskRuns ∧
    (k.tcb 192).waitQueue = some (.mutex 0) ∧ (k.mutex 0).owner = some 128 ∧
    ∃ c, k.gCurrent = some c ∧ (k.tcb c).state = .running := by
  obtain ⟨os, k, hr, hk, hw, ho, hno⟩ :=
    Boot.play_exists (Boot.small [0, 2] 0 0 (by decide)) 10
      [.pendSV, .svc (.delayTicks 1), .pendSV, .svc (.mutexLock (some 0)), .sysTick, .pendSV,
        .svc (.mutexLock (some 0)), .pendSV]
      (fun os k => k.pendsv = false ∧ (k.tcb 192).waitQueue = some (.mutex 0) ∧
        (k.mutex 0).owner = some 128 ∧ ∀ o ∈ os, ∀ o' ∈ os, ∀ m ∈ lockTarget o'.entry,
          (lockTarget o.entry).isSome → (o.pre.mutex m).owner ≠ o.pre.gCurrent)
      (by decide +kernel)
  have hd := noNesting_of_locked hr hno
  obtain ⟨c, h1, h2, -⟩ := bounded_inversion hr hd hk
  exact ⟨os, k, hr, hd, hk, hw, ho, c, h1, h2⟩

end Rtos

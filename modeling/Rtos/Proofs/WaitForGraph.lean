import Rtos.Kernel.Run
import Rtos.Refine.Queues

/-! The chain walk of `os_kernel_mutex_lock` on an arbitrary wait-for graph. Nothing is asked of
the owners and of `blocked_on` but that they point to objects, so the graph may have cycles. A
task that the walk has raised is as urgent as the caller, and the walk stops at such a task. -/

namespace Rtos

open Lib

variable {k k₁ k₂ : Kernel} {L L₁ L₂ : QueueRef → List TaskId} {t u cur o : TaskId} {q : QueueRef}
  {p : Priority} {raised : List TaskId}

/-- Queues in order, and every task where its state says. -/
structure Consistent (k : Kernel) (L : QueueRef → List TaskId) : Prop where
  queues : Queues Set.univ L k
  ready : ∀ t ∈ k.tasks, (k.tcb t).state ≠ .blocked → t ∈ L (.ready (k.tcb t).priority)
  waiting : ∀ t ∈ k.tasks, (k.tcb t).state = .blocked →
    ∀ q, (k.tcb t).waitQueue = some q → q.isWait = true ∧ t ∈ L q
  owner : ∀ m o, (k.mutex m).owner = some o → o ∈ k.tasks

/-- The body of the loop. -/
def inheritRound (cur : TaskId) : Option TaskId × Kernel → Comp ((Option TaskId × Kernel) ⊕ Kernel) :=
  fun (owner, k) =>
    match owner with
    | none => pure (.inr k)
    | some o =>
      if (k.tcb cur).priority < (k.tcb o).priority then do
        let k ← osTaskSetPriority o (k.tcb cur).priority k
        match (k.tcb o).state, (k.tcb o).blockedOn with
        | .blocked, some m => pure (.inl ((k.mutex m).owner, k))
        | _, _ => pure (.inr k)
      else pure (.inr k)

theorem inheritWalk_eq (cur : TaskId) : inheritWalk cur = Comp.loop (inheritRound cur) := rfl

/-- The task that a round raises. -/
def raisedBy (cur : TaskId) (s : Option TaskId × Kernel) : Option TaskId :=
  s.1.filter fun o => (s.2.tcb cur).priority < (s.2.tcb o).priority

/-- Task `t` has got a new priority, and is still where its state says. -/
structure Reprioritized (k k' : Kernel) (L L' : QueueRef → List TaskId) (t : TaskId) (p : Priority) :
    Prop where
  globals : k'.toGlobals = k.toGlobals
  data : ∀ u, (k'.tcb u).toTcbData =
    { (k.tcb u).toTcbData with priority := if u = t then p else (k.tcb u).priority }
  queues : Queues Set.univ L' k'
  mem : ∀ u q, u ≠ t → (u ∈ L' q ↔ u ∈ L q)
  ready : (k.tcb t).state ≠ .blocked → t ∈ L' (.ready p)
  waits : ∀ q, q.isWait = true → (L' q).Perm (L q)

theorem setTcb_priority_data (k : Kernel) (t u : TaskId) (p : Priority) :
    ((k.setTcb t fun c => { c with priority := p }).tcb u).toTcbData =
      { (k.tcb u).toTcbData with priority := if u = t then p else (k.tcb u).priority } := by
  rw [Kernel.setTcb_tcb]
  split_ifs with hu
  · rw [hu]
  · rfl

theorem Queues.setPriority (h : Queues Set.univ L k) (t : TaskId) (p : Priority) :
    Queues Set.univ L (k.setTcb t fun c => { c with priority := p }) := by
  refine h.congr rfl fun q _ u _ => ?_
  rw [Kernel.setTcb_tcb]
  split_ifs with hu
  · rw [hu]
    exact ⟨rfl, rfl⟩
  · exact ⟨rfl, rfl⟩

theorem Consistent.setPriority_ready (h : Consistent k L) (ht : t ∈ k.tasks)
    (hs : (k.tcb t).state ≠ .blocked) (p : Priority) :
    ∃ k' L', (osTaskSetPriority t p k).Returns k' ∧ Reprioritized k k' L L' t p := by
  have hm₁ := h.queues.remove trivial (h.ready t ht hs)
  set L₁ := Function.update L (.ready (k.tcb t).priority) ((L (.ready (k.tcb t).priority)).erase t)
    with hL₁
  have hq₂ := hm₁.queues.setPriority t p
  set k₂ := (osReadyQueueRemove t k).setTcb t fun c => { c with priority := p } with hk₂
  have hprio : (k₂.tcb t).priority = p := by
    rw [hk₂, Kernel.setTcb_tcb, if_pos rfl]
  have hm₃ : Moved Set.univ L₁ (.ready p) (L₁ (.ready p) ++ [t]) k₂ (osReadyQueueAdd t k₂) := by
    rw [osReadyQueueAdd, hprio]
    exact hq₂.add trivial (h.queues.not_mem_erase trivial (h.ready t ht hs))
  have hdata : ∀ u, ((osReadyQueueAdd t k₂).tcb u).toTcbData =
      { (k.tcb u).toTcbData with priority := if u = t then p else (k.tcb u).priority } := fun u => by
    have hd : ((osReadyQueueRemove t k).tcb u).toTcbData = (k.tcb u).toTcbData :=
      hm₁.relinked.data u
    rw [hm₃.relinked.data, hk₂, setTcb_priority_data, hd]
  have hstate : ((osReadyQueueAdd t k₂).tcb t).state ≠ .blocked := by
    rw [hdata]
    exact hs
  refine ⟨_, _, ?_, hm₃.relinked.globals.trans hm₁.relinked.globals, hdata, hm₃.queues,
    fun u q hu => ?_, fun _ => ?_, fun q hq => ?_⟩
  · have hor : (k.tcb t).state = .ready ∨ (k.tcb t).state = .running := by
      cases hst : (k.tcb t).state <;> simp_all
    simp only [osTaskSetPriority, if_pos hor]
    split
    · exact absurd ‹_› hstate
    · exact Comp.returns_pure.2 rfl
  · rw [hL₁]
    simp only [Function.update_apply]
    split_ifs with h1 h2 h2 <;> simp_all [List.mem_erase_of_ne]
  · simp
  · have hne : ∀ p', q ≠ .ready p' := fun p' hc => by simp [hc, QueueRef.isWait] at hq
    rw [Function.update_of_ne (hne _), hL₁, Function.update_of_ne (hne _)]

theorem Consistent.setPriority_blocked (h : Consistent k L) (ht : t ∈ k.tasks)
    (hs : (k.tcb t).state = .blocked) (p : Priority) :
    ∃ k' L', (osTaskSetPriority t p k).Returns k' ∧ Reprioritized k k' L L' t p := by
  have hnor : ¬ ((k.tcb t).state = .ready ∨ (k.tcb t).state = .running) := by simp [hs]
  have hq₁ := h.queues.setPriority t p
  set k₁ := k.setTcb t fun c => { c with priority := p } with hk₁
  have hd₁ : ∀ u, (k₁.tcb u).toTcbData =
      { (k.tcb u).toTcbData with priority := if u = t then p else (k.tcb u).priority } :=
    fun u => setTcb_priority_data k t u p
  have hs₁ : (k₁.tcb t).state = .blocked := by rw [hd₁]; exact hs
  have hw₁ : (k₁.tcb t).waitQueue = (k.tcb t).waitQueue := by rw [hd₁]
  cases hw : (k.tcb t).waitQueue with
  | none =>
    refine ⟨k₁, L, ?_, rfl, hd₁, hq₁, fun _ _ _ => Iff.rfl, fun hc => absurd hs hc, fun _ _ => .refl _⟩
    simp only [osTaskSetPriority, if_neg hnor, ← hk₁, hs₁, hw₁, hw]
    exact Comp.returns_pure.2 rfl
  | some q =>
    obtain ⟨hqw, hmem⟩ := h.waiting t ht hs q hw
    have hm₂ := hq₁.remove trivial hmem
    obtain ⟨k₃, hk₃, hm₃⟩ := hm₂.queues.insertByPriority (q := q) (t := t) trivial
      (hq₁.not_mem_erase trivial hmem)
    refine ⟨k₃, _, ?_, ?_, fun u => ?_, hm₃.queues, fun u q' hu => ?_, fun hc => absurd hs hc,
      fun q' hq' => ?_⟩
    · simp only [osTaskSetPriority, if_neg hnor, ← hk₁, hs₁, hw₁, hw]
      exact hk₃
    · exact hm₃.relinked.globals.trans hm₂.relinked.globals
    · rw [hm₃.relinked.data, hm₂.relinked.data, hd₁]
    · simp only [Function.update_apply]
      split_ifs with h1
      · rw [mem_insertWhile, List.mem_erase_of_ne hu, h1]
        exact ⟨fun hx => hx.resolve_left hu, .inr⟩
      · exact Iff.rfl
    · by_cases h1 : q' = q
      · rw [h1, Function.update_self, Function.update_self]
        exact insertWhile_perm.trans (List.perm_cons_erase hmem).symm
      · rw [Function.update_of_ne h1, Function.update_of_ne h1]

theorem Consistent.setPriority (h : Consistent k L) (ht : t ∈ k.tasks) (p : Priority) :
    ∃ k' L', (osTaskSetPriority t p k).Returns k' ∧ Reprioritized k k' L L' t p := by
  by_cases hs : (k.tcb t).state = .blocked
  · exact h.setPriority_blocked ht hs p
  · exact h.setPriority_ready ht hs p

theorem Reprioritized.consistent (hr : Reprioritized k k₁ L L₁ t p) (h : Consistent k L) :
    Consistent k₁ L₁ := by
  have htasks : k₁.tasks = k.tasks := congrArg Globals.tasks hr.globals
  refine ⟨hr.queues, fun u hu hs => ?_, fun u hu hs q hq => ?_, fun m o ho => ?_⟩
  · rw [htasks] at hu
    rw [hr.data] at hs ⊢
    by_cases hut : u = t
    · subst hut
      simpa using hr.ready hs
    · simp only [if_neg hut]
      exact (hr.mem u _ hut).2 (h.ready u hu hs)
  · rw [htasks] at hu
    rw [hr.data] at hs hq
    obtain ⟨hw, hmem⟩ := h.waiting u hu hs q hq
    exact ⟨hw, (hr.waits q hw).mem_iff.2 hmem⟩
  · rw [hr.globals] at ho
    rw [htasks]
    exact h.owner m o ho

/-- What a walk that has raised the tasks of `raised` has done. -/
structure Walked (cur : TaskId) (k k' : Kernel) (L L' : QueueRef → List TaskId)
    (raised : List TaskId) : Prop where
  globals : k'.toGlobals = k.toGlobals
  data : ∀ u, (k'.tcb u).toTcbData = { (k.tcb u).toTcbData with
    priority := if u ∈ raised then (k.tcb cur).priority else (k.tcb u).priority }
  lower : ∀ u ∈ raised, (k.tcb cur).priority < (k.tcb u).priority
  nodup : raised.Nodup
  consistent : Consistent k' L'
  waits : ∀ q, q.isWait = true → (L' q).Perm (L q)

theorem Walked.refl (h : Consistent k L) : Walked cur k k L L [] :=
  ⟨rfl, fun u => by simp, by simp, List.nodup_nil, h, fun _ _ => .refl _⟩

/-- A round in front of a walk. The task it raises is not raised again: it is as urgent as the
caller from then on. -/
theorem Walked.cons (hlt : (k.tcb cur).priority < (k.tcb o).priority)
    (hr : Reprioritized k k₁ L L₁ o (k.tcb cur).priority) (hw : Walked cur k₁ k₂ L₁ L₂ raised) :
    Walked cur k k₂ L L₂ (o :: raised) := by
  have hco : cur ≠ o := by
    rintro rfl
    exact lt_irrefl _ hlt
  have hcur : (k₁.tcb cur).priority = (k.tcb cur).priority := by
    rw [hr.data]
    simp [hco]
  have ho : o ∉ raised := fun hin => by
    have := hw.lower o hin
    rw [hcur, hr.data] at this
    simp at this
  refine ⟨hw.globals.trans hr.globals, fun u => ?_, fun u hu => ?_, List.nodup_cons.2 ⟨ho, hw.nodup⟩,
    hw.consistent, fun q hq => (hw.waits q hq).trans (hr.waits q hq)⟩
  · rw [hw.data, hcur, hr.data]
    by_cases huo : u = o
    · subst huo
      simp
    · simp [huo]
  · rcases List.mem_cons.1 hu with rfl | hu
    · exact hlt
    · have hlow := hw.lower u hu
      have huo : u ≠ o := fun hc => ho (hc ▸ hu)
      rw [hcur, hr.data] at hlow
      simpa [huo] using hlow

def lessUrgent (k : Kernel) (cur : TaskId) : Finset TaskId :=
  k.tasks.toFinset.filter fun u => (k.tcb cur).priority < (k.tcb u).priority

theorem Reprioritized.lessUrgent_lt (hr : Reprioritized k k₁ L L₁ o (k.tcb cur).priority)
    (ho : o ∈ k.tasks) (hlt : (k.tcb cur).priority < (k.tcb o).priority) :
    (lessUrgent k₁ cur).card < (lessUrgent k cur).card := by
  have hco : cur ≠ o := by
    rintro rfl
    exact lt_irrefl _ hlt
  have htasks : k₁.tasks = k.tasks := congrArg Globals.tasks hr.globals
  have hcur : (k₁.tcb cur).priority = (k.tcb cur).priority := by
    rw [hr.data]
    simp [hco]
  have hmem : ∀ u, u ∈ lessUrgent k₁ cur → u ∈ lessUrgent k cur ∧ u ≠ o := fun u hu => by
    simp only [lessUrgent, Finset.mem_filter, htasks, hcur] at hu ⊢
    rw [hr.data] at hu
    by_cases huo : u = o
    · simp [huo] at hu
    · simpa [huo] using hu
  refine Finset.card_lt_card ((Finset.ssubset_iff_of_subset fun u hu => (hmem u hu).1).2 ⟨o, ?_, ?_⟩)
  · simp only [lessUrgent, Finset.mem_filter, List.mem_toFinset]
    exact ⟨ho, hlt⟩
  · exact fun hc => (hmem o hc).2 rfl

theorem inheritRound_stop {owner : Option TaskId} (h : raisedBy cur (owner, k) = none) :
    (inheritRound cur (owner, k)).Returns (.inr k) := by
  cases owner with
  | none => exact Comp.returns_pure.2 rfl
  | some o =>
    have hno : ¬ (k.tcb cur).priority < (k.tcb o).priority := fun hlt => by
      simp [raisedBy, Option.filter, hlt] at h
    simp only [inheritRound, if_neg hno]
    exact Comp.returns_pure.2 rfl

/-- A round that raises `o` ends the walk or goes on with the owner `o` waits for. -/
theorem inheritRound_raise (hlt : (k.tcb cur).priority < (k.tcb o).priority)
    (hk : (osTaskSetPriority o (k.tcb cur).priority k).Returns k₁) :
    (inheritRound cur (some o, k)).Returns (.inr k₁) ∨
      ∃ m, (inheritRound cur (some o, k)).Returns (.inl ((k₁.mutex m).owner, k₁)) := by
  have hround : ∀ r, (inheritRound cur (some o, k)).Returns r ↔
      ((match (k₁.tcb o).state, (k₁.tcb o).blockedOn with
        | .blocked, some m => pure (.inl ((k₁.mutex m).owner, k₁))
        | _, _ => pure (.inr k₁)) : Comp ((Option TaskId × Kernel) ⊕ Kernel)).Returns r := by
    intro r
    simp only [inheritRound, if_pos hlt, Comp.returns_bind]
    constructor
    · rintro ⟨k', hk', hr⟩
      rwa [hk'.unique hk] at hr
    · exact fun hr => ⟨k₁, hk, hr⟩
  simp only [hround]
  split
  · exact .inr ⟨_, Comp.returns_pure.2 rfl⟩
  · exact .inl (Comp.returns_pure.2 rfl)

/-- The rounds of the walk, by the number of tasks that it can still raise. -/
theorem Consistent.walk (h : Consistent k L) (cur : TaskId) {owner : Option TaskId}
    (howner : ∀ o, owner = some o → o ∈ k.tasks) :
    ∃ k' L' rounds, Comp.Rounds (inheritRound cur) (owner, k) rounds k' ∧
      Walked cur k k' L L' (rounds.filterMap (raisedBy cur)) := by
  induction hn : (lessUrgent k cur).card using Nat.strong_induction_on generalizing k L owner with
  | _ n ih =>
    cases hraise : raisedBy cur (owner, k) with
    | none =>
      refine ⟨k, L, _, .done (inheritRound_stop hraise), ?_⟩
      simp only [List.filterMap_cons, hraise, List.filterMap_nil]
      exact .refl h
    | some o =>
      obtain ⟨rfl, hlt⟩ : owner = some o ∧ (k.tcb cur).priority < (k.tcb o).priority := by
        simpa [raisedBy, Option.filter_eq_some_iff] using hraise
      have ho := howner o rfl
      obtain ⟨k₁, L₁, hk₁, hr⟩ := h.setPriority ho (k.tcb cur).priority
      have h₁ := hr.consistent h
      rcases inheritRound_raise hlt hk₁ with hend | ⟨m, hgo⟩
      · refine ⟨k₁, L₁, _, .done hend, ?_⟩
        simp only [List.filterMap_cons, hraise, List.filterMap_nil]
        exact .cons hlt hr (.refl h₁)
      · obtain ⟨k', L', rounds, hrounds, hw⟩ := ih _ (hn ▸ hr.lessUrgent_lt ho hlt) h₁
          (fun o' ho' => h₁.owner m o' ho') rfl
        refine ⟨k', L', _, .next hgo hrounds, ?_⟩
        simp only [List.filterMap_cons, hraise]
        exact .cons hlt hr hw

/-- The walk ends. It raises no task twice, and only tasks less urgent than the caller, to the
caller's priority; the caller keeps its own; nothing else in the tasks changes, and every wait
queue has the tasks it had. -/
theorem inherit_walk_safe (h : Consistent k L) (cur : TaskId) {owner : Option TaskId}
    (howner : ∀ o, owner = some o → o ∈ k.tasks) :
    ∃ k' L' rounds, (inheritWalk cur (owner, k)).Returns k' ∧
      Comp.Rounds (inheritRound cur) (owner, k) rounds k' ∧
      (rounds.filterMap (raisedBy cur)).Nodup ∧
      (∀ u, (k'.tcb u).toTcbData = (k.tcb u).toTcbData ∨
        (k.tcb cur).priority < (k.tcb u).priority ∧
          (k'.tcb u).toTcbData = { (k.tcb u).toTcbData with priority := (k.tcb cur).priority }) ∧
      (∀ u, u ∉ rounds.filterMap (raisedBy cur) → (k'.tcb u).priority = (k.tcb u).priority) ∧
      (k'.tcb cur).priority = (k.tcb cur).priority ∧ Consistent k' L' ∧
      ∀ q, q.isWait = true → (L' q).Perm (L q) := by
  obtain ⟨k', L', rounds, hrounds, hw⟩ := h.walk cur howner
  refine ⟨k', L', rounds, ?_, hrounds, hw.nodup, fun u => ?_, fun u hu => ?_, ?_, hw.consistent, hw.waits⟩
  · rw [inheritWalk_eq]
    exact hrounds.returns
  · by_cases hu : u ∈ rounds.filterMap (raisedBy cur)
    · refine .inr ⟨hw.lower u hu, ?_⟩
      rw [hw.data, if_pos hu]
    · refine .inl ?_
      rw [hw.data, if_neg hu]
  · rw [hw.data, if_neg hu]
  · have hc : cur ∉ rounds.filterMap (raisedBy cur) := fun hin => lt_irrefl _ (hw.lower cur hin)
    rw [hw.data, if_neg hc]

/-- Two tasks that wait for each other's mutex, and a third that runs. -/
def deadlockList : QueueRef → List TaskId
  | .ready 0 => [192]
  | .mutex 0 => [128]
  | .mutex 1 => [64]
  | _ => []

def deadlock : Kernel :=
  { (Boot.wide []).memory with
    tasks := [64, 128, 192]
    gCurrent := some 192
    mutex := fun m => ⟨if m = 0 then some 64 else if m = 1 then some 128 else none, none⟩
    tcb := fun t => { newTcbData 0
        (if t = 192 then osTaskHigh else if t = 128 then osTaskMedium else osTaskLow) with
      state := if t = 192 then .running else .blocked
      waitQueue := if t = 64 then some (.mutex 1) else if t = 128 then some (.mutex 0) else none
      blockedOn := if t = 64 then some 1 else if t = 128 then some 0 else none
      next := none, prev := none, timeoutNext := none, timeoutPrev := none }
    queue := fun q => ⟨(deadlockList q).head?, (deadlockList q).getLast?⟩ }

theorem deadlock_consistent : Consistent deadlock deadlockList := by
  have hshort : ∀ q, deadlockList q = [] ∨ ∃ t, deadlockList q = [t] := fun q => by
    unfold deadlockList
    split <;> simp
  refine ⟨⟨fun q _ => ?_, fun q _ q' _ t h h' => ?_⟩, by decide, by decide, fun m o ho => ?_⟩
  · rcases hshort q with hq | ⟨t, hq⟩
    · rw [hq]
      exact ⟨List.nodup_nil, by simp [deadlock, hq], by simp [deadlock, hq], trivial⟩
    · rw [hq]
      exact ⟨by simp, by simp [deadlock, hq], by simp [deadlock, hq], rfl, rfl, trivial⟩
  · unfold deadlockList at h h'
    split at h <;> split at h' <;> simp_all
  · have hown : (if m = 0 then some 64 else if m = 1 then some 128 else none) = some o := ho
    split_ifs at hown <;> cases hown <;> decide

/-- The walk goes around the cycle once: the second task of it is as urgent as the caller when
the walk comes back to the first. -/
theorem inherit_walk_safe_deadlock :
    (deadlock.tcb 64).blockedOn = some 1 ∧ (deadlock.mutex 1).owner = some 128 ∧
    (deadlock.tcb 128).blockedOn = some 0 ∧ (deadlock.mutex 0).owner = some 64 ∧
    ∃ k', (inheritWalk 192 (some 64, deadlock)).Returns k' ∧
      (k'.tcb 192).priority = (deadlock.tcb 192).priority := by
  obtain ⟨k', L', rounds, hk', -, -, -, -, hcur, -⟩ := inherit_walk_safe deadlock_consistent
    192 (show ∀ o, some 64 = some o → o ∈ deadlock.tasks from fun o ho => by cases ho; decide)
  exact ⟨rfl, rfl, rfl, rfl, k', hk', hcur⟩

end Rtos

import Rtos.Refine.Moves

/-! The kernel refines the model: from related states an entry ends in the one
exactly when it ends in the other, and then in related states. -/

namespace Rtos

open Lib

open Model (WF WFOff Inv)

variable {k k' : Kernel} {a : Model} {t u cur o : TaskId} {q : QueueRef} {m : MutexId}

/-- Equal return values and related states. -/
def Matches (x : ℤ × Kernel) (y : ℤ × Model) : Prop := x.1 = y.1 ∧ Sim x.2 y.2

theorem Sim.setMutex (hs : Sim k a) (m : MutexId) (f : Mutex → Mutex) :
    Sim (k.setMutex m f) (a.setMutex m f) :=
  hs.mapGlobals fun g => { g with mutex := Function.update g.mutex m (f (g.mutex m)) }

theorem Sim.setBlockedOn (hs : Sim k a) (cur : TaskId) (v : Option MutexId) :
    Sim (k.setTcb cur fun c => { c with blockedOn := v }) (a.setBlockedOn cur v) :=
  hs.setTcb cur (fun _ => rfl) fun _ => ⟨rfl, rfl, rfl, rfl⟩

theorem Sim.addToOwned (hs : Sim k a) (t : TaskId) (m : MutexId) :
    Sim (osMutexAddToOwned t m k) (a.addToOwned t m) := by
  unfold osMutexAddToOwned Model.addToOwned
  rw [hs.data t]
  exact (hs.setMutex m _).setTcb t (fun _ => rfl) fun _ => ⟨rfl, rfl, rfl, rfl⟩

/-- With `blocked_on` clear in the owner, the kernel's walk also stops after one boost. -/
theorem Sim.inherit (cur : TaskId) (hs : Sim k a) (hw : WF a) (ho : o ∈ a.tasks)
    (hb : (a.tcb o).blockedOn = none) :
    ∃ k', (inheritWalk cur (some o, k)).Returns k' ∧ Sim k' (a.boost cur o) := by
  unfold inheritWalk Model.boost
  split_ifs with hlt
  · obtain ⟨k', hk', hs'⟩ := hs.setPriority hw ho (a.tcb cur).priority
    refine ⟨k', Comp.returns_loop.2 (.inl ?_), hs'⟩
    have hb' : (k'.tcb o).blockedOn = none := by
      rw [hs'.data, Model.setPriority_tcb, if_pos rfl]
      exact hb
    simp only [hs.priority, if_pos hlt]
    refine Comp.returns_bind.2 ⟨k', hk', ?_⟩
    rw [hb']
    split
    · cases ‹none = some _›
    · exact Comp.returns_pure.2 rfl
  · refine ⟨k, Comp.returns_loop.2 (.inl ?_), hs⟩
    simp only [hs.priority, if_neg hlt]
    exact Comp.returns_pure.2 rfl

/-- The contended branch of a lock. -/
theorem Sim.lockBlock (hs : Sim k a) (h : Inv a) (hc : a.gCurrent = some cur)
    (hp : a.pendsv = false) (ho : (a.mutex m).owner = some o) (hoc : o ≠ cur) :
    ∃ k', (osKernelMutexLock (some m) k).Returns (0, k') ∧
      Sim k' (((a.boost cur o).block (.mutex m) osWaitForever true).addToOwned cur m) := by
  have hcur := h.cur_mem hc
  have hmem := h.owner m o ho
  have hst : (a.tcb cur).state ≠ .blocked := by rw [h.running hp cur hc]; simp
  set a₁ := a.setBlockedOn cur (some m) with ha₁
  have hw₁ : WF a₁ := by
    refine h.wf.congr rfl (fun u => ?_) rfl rfl
    rw [ha₁, Model.setBlockedOn, Model.setTcb_tcb]
    split_ifs with hu
    · rw [hu]
      exact ⟨Iff.rfl, rfl, rfl, rfl⟩
    · exact ⟨Iff.rfl, rfl, rfl, rfl⟩
  have hb₁ : (a₁.tcb o).blockedOn = none := by
    rw [ha₁, Model.setBlockedOn, Model.setTcb_tcb_ne _ _ hoc]
    exact h.blockedOn o hmem
  have hw₂ : WF (a₁.boost cur o) := by
    unfold Model.boost
    split_ifs
    · exact hw₁.setPriority hmem _
    · exact hw₁
  have hst₂ : ((a₁.boost cur o).tcb cur).state ≠ .blocked := by
    rw [Model.boost_tcb, if_neg fun hx => hoc hx.1.symm, ha₁, Model.setBlockedOn,
      Model.setTcb_tcb_self]
    exact hst
  obtain ⟨k₂, hk₂, hs₂⟩ := (hs.setBlockedOn cur (some m)).inherit cur hw₁ hmem hb₁
  obtain ⟨k₃, hk₃, hs₃⟩ := hs₂.block hw₂ (by rw [Model.boost_toGlobals]; exact hc)
    (by rw [Model.boost_toGlobals]; exact hcur) hst₂ (.mutex m) osWaitForever true
  have hs₄ := hs₃.setBlockedOn cur none
  rw [Model.lock_blocks (m := m) h hc hoc] at hs₄
  refine ⟨_, ?_, hs₄.addToOwned cur m⟩
  simp only [osKernelMutexLock, Comp.returns_bind, Comp.returns_ofOption]
  refine ⟨cur, by rw [hs.gCurrent, hc], ?_⟩
  rw [hs.mutex, ho]
  simp only [if_neg hoc]
  exact Comp.returns_bind.2 ⟨k₂, hk₂, Comp.returns_bind.2 ⟨k₃, hk₃, Comp.returns_pure.2 rfl⟩⟩

theorem lock_refines (hs : Sim k a) (h : Inv a) (hp : a.pendsv = false) (mutex : Option MutexId) :
    Comp.Refines Matches (osKernelMutexLock mutex k) (a.mutexLock mutex) := by
  obtain ⟨cur, -, hc⟩ := h.cur
  cases mutex with
  | none => exact .pure ⟨rfl, hs⟩
  | some m =>
    have hkc := hs.gCurrent.trans hc
    have hm : (k.mutex m).owner = (a.mutex m).owner := by rw [hs.mutex]
    cases ho : (a.mutex m).owner with
    | none =>
      have hr := (Model.mutexLock_returns h hc).2 (.inl ⟨ho, rfl, rfl⟩)
      have hs' := (hs.setMutex m fun x => { x with owner := some cur }).addToOwned cur m
      have hk : (osKernelMutexLock (some m) k).Returns (0, osMutexAddToOwned cur m
          (k.setMutex m fun x => { x with owner := some cur })) := by
        simp [osKernelMutexLock, hkc, hm, ho]
      exact .of_returns hk hr ⟨rfl, hs'⟩
    | some o =>
      by_cases hoc : o = cur
      · subst hoc
        have hr := (Model.mutexLock_returns h hc).2 (.inr (.inl ⟨ho, rfl, rfl⟩))
        have hk : (osKernelMutexLock (some m) k).Returns (-1, k) := by
          simp [osKernelMutexLock, hkc, hm, ho]
        exact .of_returns hk hr ⟨rfl, hs⟩
      · have hr := (Model.mutexLock_returns h hc).2 (.inr (.inr ⟨o, ho, hoc, rfl, rfl⟩))
        obtain ⟨k', hk', hs'⟩ := hs.lockBlock h hc hp ho hoc
        exact .of_returns hk' hr ⟨rfl, hs'⟩

theorem Sim.removeFromOwned (hs : Sim k a) (t : TaskId) (m : MutexId) :
    Comp.Refines Sim (osMutexRemoveFromOwned t m k) (a.removeFromOwned t m) := by
  unfold osMutexRemoveFromOwned Model.removeFromOwned
  rw [hs.mutex, hs.data t]
  refine (Comp.Refines.refl _).bind fun found found' hf => ?_
  subst hf
  cases found with
  | none => exact .pure hs
  | some prev =>
    refine .pure (Sim.setMutex ?_ m _)
    cases prev with
    | none => exact hs.setTcb t (fun _ => rfl) fun _ => ⟨rfl, rfl, rfl, rfl⟩
    | some p => exact hs.setMutex p _

theorem Sim.recomputePriority (hs : Sim k a) (t : TaskId) :
    osMutexRecomputePriority t k = a.recomputePriority t := by
  have hw : (fun m => (k.queue (.mutex m)).head.map fun w => (k.tcb w).priority) =
      fun m => (a.list (.mutex m)).head?.map fun w => (a.tcb w).priority := by
    funext m
    simp only [(hs.repr (.mutex m)).head, hs.priority]
  unfold osMutexRecomputePriority Model.recomputePriority
  rw [hw, hs.mutex, hs.data t]

/-- The end of an unlock: the mutex goes to the first waiter, or to nobody. -/
def handOffLocked (m : MutexId) (k : Kernel) : Kernel :=
  match osTaskWakeOneLocked (.mutex m) k with
  | (some t, k) => scheduleAndTrigger (k.setMutex m fun x => { x with owner := some t })
  | (none, k) => k.setMutex m fun x => { x with owner := none }

theorem Sim.handOff (hs : Sim k a) (hw : WF a) (m : MutexId) :
    Sim (handOffLocked m k) (a.handOff m) := by
  cases hl : a.list (.mutex m) with
  | nil =>
    simp only [handOffLocked, Model.handOff, hl, hs.wakeNone hl]
    exact hs.setMutex m _
  | cons t l =>
    obtain ⟨k', hk', hs'⟩ := hs.wake hw rfl hl
    simp only [handOffLocked, Model.handOff, hl, hk']
    exact (hs'.setMutex m _).reschedule

theorem unlock_refines (hs : Sim k a) (h : Inv a) (mutex : Option MutexId) :
    Comp.Refines Matches (osKernelMutexUnlock mutex k) (a.mutexUnlock mutex) := by
  obtain ⟨cur, hcur, hc⟩ := h.cur
  cases mutex with
  | none => exact .pure ⟨rfl, hs⟩
  | some m =>
    simp only [osKernelMutexUnlock, Model.mutexUnlock, hs.gCurrent, hs.mutex, hc]
    split_ifs with ho
    · exact .pure ⟨rfl, hs⟩
    · have hinv : ∀ b, (a.removeFromOwned cur m).Returns b → Inv b ∧ cur ∈ b.tasks := by
        intro b hb
        obtain ⟨found, -, hb⟩ := Comp.returns_bind.1 hb
        obtain rfl := Comp.returns_pure.1 hb
        exact ⟨h.dropOwned cur m found, by simpa using hcur⟩
      refine (Comp.Refines.refl (Comp.ofOption (some cur))).and_right (P := fun c => c = cur)
        (by simp [eq_comm]) |>.bind ?_
      rintro c _ ⟨rfl, rfl⟩
      refine ((hs.removeFromOwned c m).and_right hinv).bind ?_
      rintro k₁ a₁ ⟨hs₁, h₁, hc₁⟩
      rw [hs₁.recomputePriority]
      refine (Comp.Refines.refl _).bind ?_
      rintro p _ rfl
      obtain ⟨k₂, hk₂, hs₂⟩ := hs₁.setPriority h₁.wf hc₁ p
      have hs₃ := hs₂.handOff (h₁.wf.setPriority hc₁ p) m
      refine .of_returns (x := (0, handOffLocked m k₂)) (Comp.returns_bind.2 ⟨k₂, hk₂, ?_⟩)
        (Comp.returns_pure.2 rfl) ⟨rfl, hs₃⟩
      simp only [handOffLocked]
      cases osTaskWakeOneLocked (.mutex m) k₂ with
      | mk w k₃ => cases w <;> exact Comp.returns_pure.2 rfl

theorem semTake_refines (hs : Sim k a) (h : Inv a) (hp : a.pendsv = false) (sem : Option SemId) :
    Comp.Refines Matches (osKernelSemTake sem k) (pure (a.semTake sem)) := by
  obtain ⟨cur, hcur, hc⟩ := h.cur
  have hst : (a.tcb cur).state ≠ .blocked := by rw [h.running hp cur hc]; simp
  cases sem with
  | none => exact .pure ⟨rfl, hs⟩
  | some s =>
    simp only [osKernelSemTake, Model.semTake, hs.semCount]
    split_ifs with hpos
    · exact .pure ⟨rfl, hs.mapGlobals fun g =>
        { g with semCount := Function.update a.semCount s (i32 (a.semCount s - 1)) }⟩
    · obtain ⟨k', hk', hs'⟩ := hs.block h.wf hc hcur hst (.sem s) osWaitForever false
      exact .of_returns (Comp.returns_bind.2 ⟨k', hk', Comp.returns_pure.2 rfl⟩)
        (Comp.returns_pure.2 rfl) ⟨rfl, hs'⟩

theorem semGive_refines (hs : Sim k a) (h : Inv a) (sem : Option SemId) :
    Comp.Refines Matches (osKernelSemGive sem k) (pure (a.semGive sem)) := by
  cases sem with
  | none => exact .pure ⟨rfl, hs⟩
  | some s =>
    cases hl : a.list (.sem s) with
    | nil =>
      simp only [osKernelSemGive, Model.semGive, hl, hs.wakeNone hl, hs.semCount]
      exact .pure ⟨rfl, hs.mapGlobals fun g =>
        { g with semCount := Function.update a.semCount s (i32 (a.semCount s + 1)) }⟩
    | cons t l =>
      obtain ⟨k', hk', hs'⟩ := hs.wake h.wf rfl hl
      simp only [osKernelSemGive, Model.semGive, hl, hk']
      exact .pure ⟨rfl, hs'.reschedule⟩

theorem Sim.yieldCpu (hs : Sim k a) :
    ∃ k', (osKernelYield k).Returns k' ∧ Sim k' a.yieldCpu := by
  obtain ⟨k', hk', hs'⟩ := hs.rotate k.gCurrent
  rw [hs.gCurrent] at hs'
  refine ⟨_, Comp.returns_bind.2 ⟨k', hk', Comp.returns_pure.2 rfl⟩, hs'.schedule.trigger⟩

theorem Sim.delayTicks (hs : Sim k a) (h : Inv a) (hp : a.pendsv = false) (ticks : Word) :
    ∃ k', (osKernelDelayTicks ticks k).Returns k' ∧ Sim k' (a.delayTicks ticks) := by
  obtain ⟨cur, hcur, hc⟩ := h.cur
  have hst : (a.tcb cur).state ≠ .blocked := by rw [h.running hp cur hc]; simp
  unfold osKernelDelayTicks Model.delayTicks
  split_ifs
  · exact hs.yieldCpu
  · exact hs.block h.wf hc hcur hst .sleep ticks false

/-- A commit as the kernel writes it: first the task that leaves, then the one that comes. -/
def Model.leaveCpu (n : TaskId) (a : Model) : Model :=
  match a.gCurrent with
  | some prev =>
    if prev ≠ n ∧ (a.tcb prev).state = .running then
      a.setTcb prev fun c => { c with state := .ready }
    else a
  | none => a

theorem commit_set {n : TaskId} (hn : a.gNext = some n) : a.commit =
    ({ a.leaveCpu n with gCurrent := some n } : Model).setTcb n fun c => { c with state := .running } := by
  rw [Model.commit_eq hn]
  unfold Model.leaveCpu
  cases hc : a.gCurrent with
  | none =>
    simp only [Model.setTcb]
    congr 1
    funext u
    by_cases hu : u = n
    · simp [Model.commitState, hu]
    · simp [Model.commitState, hu]
  | some prev =>
    simp only
    split_ifs with h
    · simp only [Model.setTcb]
      congr 1
      funext u
      by_cases hu : u = n
      · simp [Model.commitState, hu, Ne.symm h.1]
      · by_cases hp : u = prev
        · simp [Model.commitState, hp, h]
        · simp [Model.commitState, hu, hp, Ne.symm hp]
    · simp only [Model.setTcb]
      congr 1
      funext u
      by_cases hu : u = n
      · simp [Model.commitState, hu]
      · have hnot : ¬ (prev = u ∧ (a.tcb u).state = .running) := by
          rintro ⟨rfl, hr⟩
          exact h ⟨hu, hr⟩
        simp [Model.commitState, hu, hnot]

theorem Sim.commit (hs : Sim k a) : Sim (osCommitSwitch k) a.commit := by
  have hset : ∀ {k : Kernel} {a : Model} (t : TaskId) (s : TaskState), Sim k a →
      Sim (k.setTcb t fun c => { c with state := s }) (a.setTcb t fun c => { c with state := s }) :=
    fun t s h => h.setTcb t (fun _ => rfl) fun _ => ⟨rfl, rfl, rfl, rfl⟩
  cases hnext : a.gNext with
  | none =>
    simp only [osCommitSwitch, Model.commit, hs.gNext, hnext]
    exact hs
  | some n =>
    rw [commit_set hnext]
    simp only [osCommitSwitch, hs.gNext, hnext, hs.gCurrent, hs.state]
    refine hset n .running (Sim.mapGlobals (f := fun g => { g with gCurrent := some n }) ?_)
    unfold Model.leaveCpu
    cases a.gCurrent with
    | none => exact hs
    | some prev =>
      simp only
      split_ifs with h
      · exact hset prev .ready hs
      · exact hs

/-! Creation. The new task's block is in no queue, because it is no task yet. -/

theorem Sim.withSpMem (hs : Sim k a) (mem : ℕ → ℕ) : Sim (k.withSpMem mem) (a.withSpMem mem) := by
  refine ⟨hs.globals, fun t => ?_, hs.repr, hs.disjoint, hs.timeouts⟩
  simp only [Kernel.withSpMem, Model.withSpMem, hs.data]

theorem Sim.spMem (hs : Sim k a) : k.spMem = a.spMem := by
  funext t
  exact hs.sp t

theorem Sim.kobjAlloc (hs : Sim k a) (size : ℕ) :
    (osKobjAlloc size k).1 = (a.kobjAlloc size).1 ∧
      Sim (osKobjAlloc size k).2 (a.kobjAlloc size).2 := by
  have h := hs.mapGlobals fun g =>
    { g with gKernelObjectPool := (osMempoolAlloc a.spMem g.gKernelObjectPool).2 }
  unfold osKobjAlloc Model.kobjAlloc
  rw [hs.spMem]
  split_ifs
  · exact ⟨rfl, hs⟩
  · exact ⟨by rw [hs.globals], h⟩

theorem Sim.kstackAlloc (hs : Sim k a) (n : ℕ) :
    (osKstackAlloc n k).1 = (a.kstackAlloc n).1 ∧
      Sim (osKstackAlloc n k).2 (a.kstackAlloc n).2 := by
  have h := hs.mapGlobals fun g =>
    { g with gUserStackPool := (osMempoolAlloc g.stackMem g.gUserStackPool).2 }
  unfold osKstackAlloc Model.kstackAlloc
  split_ifs
  · exact ⟨rfl, hs⟩
  · exact ⟨by rw [hs.globals], h⟩

theorem Sim.kobjFree (hs : Sim k a) (p : ℕ) : Sim (osKobjFree p k).2 (a.kobjFree p).2 := by
  have hp : k.gKernelObjectPool = a.gKernelObjectPool :=
    congrArg Globals.gKernelObjectPool hs.globals
  unfold osKobjFree Model.kobjFree
  rw [hs.spMem, hp]
  exact (hs.withSpMem _).mapGlobals fun g =>
    { g with gKernelObjectPool := (osMempoolFree a.spMem a.gKernelObjectPool p).2.2 }

/-- A block that is in no queue may be given any contents. -/
theorem Sim.setFresh (hs : Sim k a) (h1 : ∀ q, t ∉ a.list q) (h2 : t ∉ a.timeouts) (c : Tcb) :
    Sim (k.setTcb t fun _ => c) (a.setTcb t fun _ => c.toTcbData) := by
  have hne : ∀ u, u ≠ t → (k.setTcb t fun _ => c).tcb u = k.tcb u := fun u hu => by
    rw [Kernel.setTcb_tcb, if_neg hu]
  refine ⟨hs.globals, fun u => ?_, fun q => (hs.repr q).congr ?_ ?_, hs.disjoint,
    hs.timeouts.congr ?_ ?_⟩
  · rw [Kernel.setTcb_tcb, Model.setTcb_tcb]
    split_ifs
    · rfl
    · exact hs.data u
  · exact fun u hu => congrArg Tcb.next (hne u fun hc => h1 q (hc ▸ hu))
  · exact fun u hu => congrArg Tcb.prev (hne u fun hc => h1 q (hc ▸ hu))
  · exact fun u hu => congrArg Tcb.timeoutNext (hne u fun hc => h2 (hc ▸ hu))
  · exact fun u hu => congrArg Tcb.timeoutPrev (hne u fun hc => h2 (hc ▸ hu))

theorem Sim.createInternal (hs : Sim k a) (h1 : ∀ q, t ∉ a.list q) (h2 : t ∉ a.timeouts)
    (p : Priority) (entry arg stackMem stackWords : ℕ) :
    Sim (osTaskCreateInternal t p entry arg stackMem stackWords k)
      (a.createInternal t p entry arg stackMem stackWords) := by
  have hf : buildFrame k.layout entry arg stackMem stackWords k.stackMem =
      buildFrame a.layout entry arg stackMem stackWords a.stackMem := by rw [hs.globals]
  simp only [osTaskCreateInternal, Model.createInternal, hf]
  generalize buildFrame a.layout entry arg stackMem stackWords a.stackMem = frame
  exact (hs.mapGlobals fun g => { g with stackMem := frame.2 }).setFresh h1 h2 _

/-- The last lines of a creation that succeeds. -/
def enrollTask (t : TaskId) (k : Kernel) : Kernel :=
  let k := osSchedule (osReadyQueueAdd t { k with tasks := k.tasks ++ [t] })
  if k.gCurrent ≠ none ∧ k.gNext ≠ k.gCurrent then osPortPendsvTrigger k else k

theorem Sim.enroll (hs : Sim k a) (ht : ∀ q, t ∉ a.list q) : Sim (enrollTask t k) (a.enroll t) := by
  have h1 := (hs.mapGlobals fun g => { g with tasks := g.tasks ++ [t] }).readyAdd (t := t) ht
  have h2 := h1.schedule
  have hc := h2.gCurrent
  have hn := h2.gNext
  simp only [enrollTask, Model.enroll]
  simp only at hc hn
  rw [hc, hn]
  change Sim _ (if _ ∧ _ then _ else _)
  split_ifs with h h' h'
  · exact h2.trigger
  · exact absurd h h'
  · exact absurd h' h
  · exact h2

theorem kobjAlloc_fresh (h : Model.PoolOk a) (hne : (a.kobjAlloc sizeofTcb).1 ≠ 0) :
    (a.kobjAlloc sizeofTcb).1 ∉ a.tasks := by
  by_cases hn : a.gKernelObjectPool.freeList = 0
  · exact absurd (by unfold Model.kobjAlloc osMempoolAlloc; split_ifs <;> simp_all) hne
  · obtain ⟨pool, -, ha⟩ := Model.kobjAlloc_some hn
    obtain ⟨-, -, -, hnew⟩ := h.head hn
    rw [ha]
    exact hnew

/-- Allocation touches the pools only. -/
theorem kobjAlloc_queues (n : ℕ) : (a.kobjAlloc n).2.list = a.list ∧
    (a.kobjAlloc n).2.timeouts = a.timeouts := by
  unfold Model.kobjAlloc
  split_ifs <;> exact ⟨rfl, rfl⟩

theorem kstackAlloc_queues (n : ℕ) : (a.kstackAlloc n).2.list = a.list ∧
    (a.kstackAlloc n).2.timeouts = a.timeouts := by
  unfold Model.kstackAlloc
  split_ifs <;> exact ⟨rfl, rfl⟩

theorem WF.fresh (hw : WF a) (ht : t ∉ a.tasks) : (∀ q, t ∉ a.list q) ∧ t ∉ a.timeouts :=
  ⟨fun _ hq => ht (hw.mem_tasks hq), fun hm => ht (hw.timeouts_tasks t hm)⟩

theorem Sim.taskCreate (hs : Sim k a) (hw : WF a) (hpool : Model.PoolOk a)
    (args : Option TaskCreateArgs) : Matches (osKernelTaskCreate args k) (a.taskCreate args) := by
  cases args with
  | none => exact ⟨rfl, hs⟩
  | some args =>
    obtain ⟨he₁, hs₁⟩ := hs.kobjAlloc sizeofTcb
    obtain ⟨he₂, hs₂⟩ := hs₁.kstackAlloc args.stackWords
    have hs₃ := hs₂.kobjFree (a.kobjAlloc sizeofTcb).1
    by_cases h1 : args.entry = 0
    · simp only [osKernelTaskCreate, Model.taskCreate, if_pos h1]
      exact ⟨rfl, hs⟩
    by_cases h2 : args.priority < numPriorities
    · by_cases h3 : (a.kobjAlloc sizeofTcb).1 = 0
      · simp only [osKernelTaskCreate, Model.taskCreate, if_neg h1, dif_pos h2, he₁, if_pos h3]
        exact ⟨rfl, hs₁⟩
      by_cases h4 : ((a.kobjAlloc sizeofTcb).2.kstackAlloc args.stackWords).1 = 0
      · simp only [osKernelTaskCreate, Model.taskCreate, if_neg h1, dif_pos h2, he₁, if_neg h3, he₂,
          if_pos h4]
        exact ⟨rfl, hs₃⟩
      have hk : osKernelTaskCreate (some args) k = (0, enrollTask (a.kobjAlloc sizeofTcb).1
          (osTaskCreateInternal (a.kobjAlloc sizeofTcb).1 ⟨args.priority, h2⟩ args.entry args.arg
            ((a.kobjAlloc sizeofTcb).2.kstackAlloc args.stackWords).1 args.stackWords
            (osKstackAlloc args.stackWords (osKobjAlloc sizeofTcb k).2).2)) := by
        simp only [osKernelTaskCreate, if_neg h1, dif_pos h2, he₁, if_neg h3, he₂, if_neg h4,
          enrollTask]
        split_ifs <;> rfl
      simp only [Model.taskCreate, if_neg h1, dif_pos h2, if_neg h3, if_neg h4]
      rw [hk]
      obtain ⟨hq, ht⟩ := WF.fresh hw (kobjAlloc_fresh hpool h3)
      rw [← (kobjAlloc_queues sizeofTcb).1, ← (kstackAlloc_queues args.stackWords).1] at hq
      rw [← (kobjAlloc_queues sizeofTcb).2, ← (kstackAlloc_queues args.stackWords).2] at ht
      exact ⟨rfl, (hs₂.createInternal hq ht ⟨args.priority, h2⟩ args.entry args.arg _ _).enroll hq⟩
    · simp only [osKernelTaskCreate, Model.taskCreate, if_neg h1, dif_neg h2]
      exact ⟨rfl, hs⟩

theorem exec_refines (hs : Sim k a) (h : Inv a) {e : Entry} (he : a.Enabled e) :
    Comp.Refines Matches (exec k e) (a.exec e) := by
  cases e with
  | sysTick =>
    obtain ⟨k', hk', hs'⟩ := hs.sysTick h.wf
    exact .of_returns (Comp.returns_bind.2 ⟨k', hk', Comp.returns_pure.2 rfl⟩)
      (Comp.returns_pure.2 rfl) ⟨rfl, hs'⟩
  | pendSV =>
    have hs' := hs.mapGlobals fun g => { g with pendsv := false }
    exact .pure ⟨rfl, hs'.commit⟩
  | svc c =>
    cases c with
    | yield =>
      obtain ⟨k', hk', hs'⟩ := hs.yieldCpu
      exact .of_returns (Comp.returns_bind.2 ⟨k', hk', Comp.returns_pure.2 rfl⟩)
        (Comp.returns_pure.2 rfl) ⟨rfl, hs'⟩
    | delayTicks ticks =>
      obtain ⟨k', hk', hs'⟩ := hs.delayTicks h he.1 ticks
      exact .of_returns (Comp.returns_bind.2 ⟨k', hk', Comp.returns_pure.2 rfl⟩)
        (Comp.returns_pure.2 rfl) ⟨rfl, hs'⟩
    | semTake sem => exact semTake_refines hs h he.1 sem
    | semGive sem => exact semGive_refines hs h sem
    | mutexLock mutex => exact lock_refines hs h he.1 mutex
    | mutexUnlock mutex => exact unlock_refines hs h mutex
    | taskCreate args => exact .pure (hs.taskCreate h.wf h.pool args)
    | unrecognized => exact .pure ⟨rfl, hs⟩

end Rtos

import Rtos.Refine.Timeouts

/-! Blocking, waking, expiry and priority changes keep the kernel and the model
related, and end. -/

namespace Rtos

open Lib

open Model (WF WFOff Inv)

variable {k k' : Kernel} {a : Model} {t u cur : TaskId} {q : QueueRef}

theorem Sim.mapGlobals (hs : Sim k a) (f : Globals → Globals) :
    Sim { k with toGlobals := f k.toGlobals } { a with toGlobals := f a.toGlobals } :=
  ⟨congrArg f hs.globals, hs.data, hs.repr, hs.disjoint, hs.timeouts⟩

/-- An update of a task's fields that leaves its links alone. -/
theorem Sim.setTcb (hs : Sim k a) (t : TaskId) {f : Tcb → Tcb} {g : TcbData → TcbData}
    (hd : ∀ c, (f c).toTcbData = g c.toTcbData)
    (hf : ∀ c, (f c).next = c.next ∧ (f c).prev = c.prev ∧ (f c).timeoutNext = c.timeoutNext ∧
      (f c).timeoutPrev = c.timeoutPrev) : Sim (k.setTcb t f) (a.setTcb t g) := by
  have hl : (k.setTcb t f).links = k.links := by
    ext y : 2 <;> simp only [Kernel.links, Kernel.setTcb_tcb] <;> split_ifs with h
    · rw [h, (hf _).1]
    · rfl
    · rw [h, (hf _).2.1]
    · rfl
  have ht : (k.setTcb t f).timeoutLinks = k.timeoutLinks := by
    ext y : 2 <;> simp only [Kernel.timeoutLinks, Kernel.setTcb_tcb] <;> split_ifs with h
    · rw [h, (hf _).2.2.1]
    · rfl
    · rw [h, (hf _).2.2.2]
    · rfl
  refine ⟨hs.globals, fun u => ?_, fun q => hl ▸ hs.repr q, hs.disjoint, ht ▸ hs.timeouts⟩
  rw [Kernel.setTcb_tcb, Model.setTcb_tcb]
  split_ifs
  · rw [hd, hs.data]
  · exact hs.data u

theorem Sim.peek (hs : Sim k a) (q : QueueRef) : osTaskQueuePeekHead q k = (a.list q).head? :=
  (hs.repr q).head

theorem Sim.schedule (hs : Sim k a) : Sim (osSchedule k) a.schedule := by
  have h : (List.finRange numPriorities).findSome? (fun p => osTaskQueuePeekHead (.ready p) k) =
      a.firstReady := by
    simp only [hs.peek]
    rfl
  unfold osSchedule
  rw [h]
  exact hs.mapGlobals fun g => { g with gNext := a.firstReady }

theorem Sim.trigger (hs : Sim k a) : Sim (osPortPendsvTrigger k) a.trigger :=
  hs.mapGlobals fun g => { g with pendsv := true }

theorem Sim.reschedule (hs : Sim k a) : Sim (scheduleAndTrigger k) a.reschedule := by
  have h1 : (osSchedule k).gNext = a.firstReady := hs.schedule.gNext
  have h2 : (osSchedule k).gCurrent = a.gCurrent := by
    change k.gCurrent = a.gCurrent
    rw [hs.globals]
  simp only [scheduleAndTrigger, Model.reschedule, h1, h2]
  split_ifs with h
  · exact hs.schedule.trigger
  · exact hs.schedule

theorem Sim.readyAdd (hs : Sim k a) (ht : ∀ q, t ∉ a.list q) :
    Sim (osReadyQueueAdd t k) (a.readyAdd t) := by
  unfold osReadyQueueAdd Model.readyAdd
  rw [hs.priority]
  exact hs.add ht

theorem Sim.readyRemove (hs : Sim k a) (ht : t ∈ a.list (.ready (a.tcb t).priority)) :
    Sim (osReadyQueueRemove t k) (a.readyRemove t) := by
  unfold osReadyQueueRemove Model.readyRemove
  rw [hs.priority]
  exact hs.remove ht

/-! Time. -/

theorem Sim.expireFrom (hs : Sim k a) (ht : t ∈ a.timeouts) (hq : (a.tcb t).waitQueue = some q)
    (hmem : t ∈ a.list q) (hoff : ∀ q', t ∉ (a.remove q t).list q') :
    Sim (timeoutExpire t k) (a.expire t) := by
  have h1 := hs.timeoutRemove ht
  have hkq : ((osTimeoutQueueRemove t k).tcb t).waitQueue = some q := by
    rw [h1.data]
    exact hq
  have h2 := h1.remove (t := t) (q := q) hmem
  have h3 := h2.setTcb t (f := fun c => { c with waitQueue := none })
    (g := fun c => { c with waitQueue := none }) (fun _ => rfl) fun _ => ⟨rfl, rfl, rfl, rfl⟩
  have h4 := h3.setTcb t
    (f := fun c => { c with wakeTick := osWaitForever, waitResult := -1, state := .ready })
    (g := fun c => { c with wakeTick := osWaitForever, waitResult := -1, state := .ready })
    (fun _ => rfl) fun _ => ⟨rfl, rfl, rfl, rfl⟩
  have h5 := h4.readyAdd (t := t) hoff
  have hk : timeoutExpire t k = osReadyQueueAdd t (((osTaskQueueRemove q t
      (osTimeoutQueueRemove t k)).setTcb t fun c => { c with waitQueue := none }).setTcb t fun c =>
        { c with wakeTick := osWaitForever, waitResult := -1, state := .ready }) := by
    simp only [timeoutExpire, hkq]
  rw [hk, Model.expire_eq hq]
  exact h5

theorem Sim.expire (hs : Sim k a) (hw : WF a) (ht : t ∈ a.timeouts) :
    Sim (timeoutExpire t k) (a.expire t) := by
  obtain ⟨hb, hq⟩ := (hw.ok t (hw.timeouts_tasks t ht) (by simp)).sleeping ht
  have hmem : t ∈ a.list .sleep := hw.home_mem (hw.timeouts_tasks t ht) (by simp [Model.home, hb, hq])
  exact hs.expireFrom ht hq hmem fun q' => (hw.remove hmem).not_mem q'

section keeping
variable {J : Model → Prop}
  (hJ : ∀ {k a t}, Sim k a → J a → t ∈ a.timeouts → Sim (timeoutExpire t k) (a.expire t) ∧ J (a.expire t))

include hJ in
/-- The loop visits the timeout list in order, and each expired task leaves it. -/
theorem Sim.expireLoop_keeping (now : Word) (hs : Sim k a) (ha : J a) :
    ∃ k', (expireLoop now (k.gTimeoutQueue.head, k)).Returns k' ∧
      Sim k' (Model.expireAll now a.timeouts a) := by
  induction hl : a.timeouts generalizing k a with
  | nil =>
    refine ⟨k, ?_, hs⟩
    rw [hs.timeouts.head, hl, Rtos.expireLoop, Comp.returns_loop]
    simp
  | cons t l ih =>
    have hhead : k.gTimeoutQueue.head = some t := by rw [hs.timeouts.head, hl]; rfl
    have htick : (k.tcb t).wakeTick = (a.tcb t).wakeTick := congrArg TcbData.wakeTick (hs.data t)
    rw [hhead, Model.expireAll]
    split_ifs with hnow
    · have hnext : (k.tcb t).timeoutNext = l.head? := by
        have hr := hs.timeouts
        rw [hl] at hr
        exact (Dll.Repr.member (a := []) hr).2
      obtain ⟨hs', ha'⟩ := hJ hs ha (t := t) (by simp [hl])
      have hl' : (a.expire t).timeouts = l := by
        rw [Model.expire_timeouts, hl, List.erase_cons_head]
      obtain ⟨k', hk', hsim⟩ := ih hs' ha' hl'
      refine ⟨k', ?_, hsim⟩
      rw [hs'.timeouts.head, hl'] at hk'
      rw [Rtos.expireLoop, Comp.returns_loop]
      refine .inr ⟨(l.head?, timeoutExpire t k), ?_, hk'⟩
      simp [htick, hnow, hnext]
    · refine ⟨k, ?_, hs⟩
      rw [Rtos.expireLoop, Comp.returns_loop]
      simp [htick, hnow]

include hJ in
theorem Sim.processTimeouts_keeping (hs : Sim k a) (ha : J a) :
    ∃ k', (osProcessTimeouts k).Returns k' ∧ Sim k' a.processTimeouts := by
  obtain ⟨k', hk', hsim⟩ := hs.expireLoop_keeping hJ a.gTick ha
  refine ⟨scheduleAndTrigger k', ?_, hsim.reschedule⟩
  unfold osProcessTimeouts
  rw [hs.gTick]
  exact Comp.returns_bind.2 ⟨k', hk', Comp.returns_pure.2 rfl⟩

include hJ in
theorem Sim.sysTick_keeping (hs : Sim k a) (ha : J { a with gTick := a.gTick + 1 }) :
    ∃ k', (sysTickHandler k).Returns k' ∧ Sim k' a.sysTick := by
  have h1 : Sim { k with gTick := k.gTick + 1 } { a with gTick := a.gTick + 1 } :=
    hs.mapGlobals fun g => { g with gTick := g.gTick + 1 }
  obtain ⟨k₁, hk₁, hs₁⟩ := h1.processTimeouts_keeping hJ ha
  obtain ⟨k₂, hk₂, hs₂⟩ := hs₁.rotate k₁.gCurrent
  refine ⟨scheduleAndTrigger k₂, ?_, ?_⟩
  · exact Comp.returns_bind.2 ⟨k₁, hk₁, Comp.returns_bind.2 ⟨k₂, hk₂, Comp.returns_pure.2 rfl⟩⟩
  · rw [hs₁.gCurrent] at hs₂
    exact hs₂.reschedule

end keeping

theorem Sim.processTimeouts (hs : Sim k a) (hw : WF a) :
    ∃ k', (osProcessTimeouts k).Returns k' ∧ Sim k' a.processTimeouts :=
  hs.processTimeouts_keeping (J := WF) (fun hs hw ht => ⟨hs.expire hw ht, hw.expire ht⟩) hw

theorem Sim.sysTick (hs : Sim k a) (hw : WF a) :
    ∃ k', (sysTickHandler k).Returns k' ∧ Sim k' a.sysTick :=
  hs.sysTick_keeping (J := WF) (fun hs hw ht => ⟨hs.expire hw ht, hw.expire ht⟩)
    (hw.congr rfl (by simp) rfl rfl)

/-! Blocking, waking, and changing a priority. -/

/-- The two halves of `os_task_block_locked`: into the wait queue, and into the timeout list. -/
def enqueueLocked (cur : TaskId) (q : QueueRef) (o : Bool) (k : Kernel) : Comp Kernel :=
  let k := (osReadyQueueRemove cur k).setTcb cur fun c =>
    { c with state := .blocked, waitQueue := some q, wakeTick := osWaitForever, waitResult := 0 }
  if o then osTaskQueueInsertByPriority q cur k else pure (osTaskQueueAdd q cur k)

def sleepLocked (cur : TaskId) (ticks : Word) (k : Kernel) : Comp Kernel :=
  if ticks ≠ osWaitForever then
    osTimeoutQueueInsertSorted cur (k.setTcb cur fun c => { c with wakeTick := k.gTick + ticks })
  else pure k

theorem blockLocked_eq (hc : k.gCurrent = some cur) (q : QueueRef) (ticks : Word) (o : Bool) :
    osTaskBlockLocked q ticks o k = (do
      let k ← enqueueLocked cur q o k
      let k ← sleepLocked cur ticks k
      pure (scheduleAndTrigger k)) := by
  simp only [osTaskBlockLocked, hc, enqueueLocked, sleepLocked]
  by_cases ht : ticks = osWaitForever
  · cases o <;> simp [ht]
  · cases o <;> simp [ht]

theorem Sim.enqueue (hs : Sim k a) (hmem : cur ∈ a.list (.ready (a.tcb cur).priority))
    (hoff : ∀ q', cur ∉ (a.readyRemove cur).list q') (q : QueueRef) (o : Bool) :
    ∃ k', (enqueueLocked cur q o k).Returns k' ∧ Sim k' (a.enqueue cur q o) := by
  have h1 := (hs.readyRemove hmem).setTcb cur
    (f := fun c => { c with state := .blocked, waitQueue := some q
                            wakeTick := osWaitForever, waitResult := 0 })
    (g := fun c => { c with state := .blocked, waitQueue := some q
                            wakeTick := osWaitForever, waitResult := 0 })
    (fun _ => rfl) fun _ => ⟨rfl, rfl, rfl, rfl⟩
  cases o with
  | false => exact ⟨_, Comp.returns_pure.2 rfl, h1.add hoff⟩
  | true => exact h1.insertByPriority hoff

theorem Sim.sleepUntil (hs : Sim k a) (ht : cur ∉ a.timeouts) (ticks : Word) :
    ∃ k', (sleepLocked cur ticks k).Returns k' ∧ Sim k' (a.sleepUntil cur ticks) := by
  unfold sleepLocked Model.sleepUntil
  split_ifs
  · refine Sim.timeoutInsert (hs.setTcb cur (fun c => ?_) fun _ => ⟨rfl, rfl, rfl, rfl⟩) ht
    rw [hs.globals]
  · exact ⟨k, Comp.returns_pure.2 rfl, hs⟩

theorem Sim.blockFrom (hs : Sim k a) (hc : a.gCurrent = some cur)
    (hmem : cur ∈ a.list (.ready (a.tcb cur).priority))
    (hoff : ∀ q', cur ∉ (a.readyRemove cur).list q') (hnot : cur ∉ a.timeouts) (q : QueueRef)
    (ticks : Word) (o : Bool) :
    ∃ k', (osTaskBlockLocked q ticks o k).Returns k' ∧ Sim k' (a.block q ticks o) := by
  have hkc : k.gCurrent = some cur := by rw [hs.globals]; exact hc
  obtain ⟨k₁, hk₁, hs₁⟩ := hs.enqueue hmem hoff q o
  obtain ⟨k₂, hk₂, hs₂⟩ := hs₁.sleepUntil (by simpa using hnot) ticks
  refine ⟨scheduleAndTrigger k₂, ?_, ?_⟩
  · rw [blockLocked_eq hkc]
    refine Comp.returns_bind.2 ⟨k₁, hk₁, ?_⟩
    exact Comp.returns_bind.2 ⟨k₂, hk₂, Comp.returns_pure.2 rfl⟩
  · simp only [Model.block, hc]
    exact hs₂.reschedule

theorem Sim.block (hs : Sim k a) (hw : WF a) (hc : a.gCurrent = some cur) (hcur : cur ∈ a.tasks)
    (hst : (a.tcb cur).state ≠ .blocked) (q : QueueRef) (ticks : Word) (o : Bool) :
    ∃ k', (osTaskBlockLocked q ticks o k).Returns k' ∧ Sim k' (a.block q ticks o) := by
  have hmem := hw.ready_mem hcur hst
  have hnot : cur ∉ a.timeouts := fun hm => hst ((hw.ok cur hcur (by simp)).sleeping hm).1
  exact hs.blockFrom hc hmem (hw.remove hmem).not_mem hnot q ticks o

/-- A wake-up takes the head of the queue, if there is one. -/
theorem Sim.wakeNone (hs : Sim k a) (hl : a.list q = []) : osTaskWakeOneLocked q k = (none, k) := by
  have hh : (k.queue q).head = none := by rw [(hs.repr q).head, hl]; rfl
  simp only [osTaskWakeOneLocked, osTaskQueuePopHead, hh]

theorem Sim.wakeFrom {l : List TaskId} (hs : Sim k a) (hl : a.list q = t :: l)
    (htimed : (a.tcb t).wakeTick ≠ osWaitForever → t ∈ a.timeouts)
    (hoff : ∀ q', t ∉ (a.remove q t).list q') :
    ∃ k', osTaskWakeOneLocked q k = (some t, k') ∧ Sim k' (a.wake q t) := by
  have hh : (k.queue q).head = some t := by rw [(hs.repr q).head, hl]; rfl
  have h1 := hs.remove (t := t) (q := q) (by simp [hl])
  have htick : ((osTaskQueueRemove q t k).tcb t).wakeTick = (a.tcb t).wakeTick :=
    congrArg TcbData.wakeTick (h1.data t)
  simp only [osTaskWakeOneLocked, osTaskQueuePopHead, hh, htick]
  refine ⟨_, rfl, ?_⟩
  unfold Model.wake
  refine Sim.readyAdd (Sim.setTcb ?_ t (fun _ => rfl) fun _ => ⟨rfl, rfl, rfl, rfl⟩) ?_
  · rw [Model.remove_tcb]
    split_ifs with hf
    · exact h1.timeoutRemove (htimed hf)
    · exact h1
  · intro q'
    rw [Model.setTcb_list]
    split_ifs <;> exact hoff q'

theorem Sim.wake {l : List TaskId} (hs : Sim k a) (hw : WF a) (hq : q.isWait = true)
    (hl : a.list q = t :: l) :
    ∃ k', osTaskWakeOneLocked q k = (some t, k') ∧ Sim k' (a.wake q t) := by
  have hmem : t ∈ a.list q := by simp [hl]
  have hst := (hw.of_wait hq hmem).1
  exact hs.wakeFrom hl ((hw.ok t (hw.mem_tasks hmem) (by simp)).timed hst) (hw.remove hmem).not_mem

theorem Sim.setPriority (hs : Sim k a) (hw : WF a) (ht : t ∈ a.tasks) (p : Priority) :
    ∃ k', (osTaskSetPriority t p k).Returns k' ∧ Sim k' (a.setPriority t p) := by
  have hst : (k.tcb t).state = (a.tcb t).state := hs.state t
  have hset : ∀ {k : Kernel} {a : Model}, Sim k a →
      Sim (k.setTcb t fun c => { c with priority := p }) (a.setTcb t fun c => { c with priority := p }) :=
    fun h => h.setTcb t (fun _ => rfl) fun _ => ⟨rfl, rfl, rfl, rfl⟩
  by_cases hb : (a.tcb t).state = .blocked
  · obtain ⟨q, hq, -⟩ := (hw.ok t ht (by simp)).waiting hb
    have hmem : t ∈ a.list q := hw.home_mem ht (by simp [Model.home, hb, hq])
    have h1 := hset hs
    obtain ⟨k', hk', hs'⟩ := (h1.remove (t := t) hmem).insertByPriority (q := q) (t := t)
      ((hw.remove hmem).setTcb fun c => { c with priority := p }).not_mem
    refine ⟨k', ?_, ?_⟩
    · have hne : ¬ ((k.tcb t).state = .ready ∨ (k.tcb t).state = .running) := by simp [hst, hb]
      have hstate : ((k.setTcb t fun c => { c with priority := p }).tcb t).state = .blocked := by
        rw [h1.data, Model.setTcb_tcb_self]
        exact hb
      have hwait : ((k.setTcb t fun c => { c with priority := p }).tcb t).waitQueue = some q := by
        rw [h1.data, Model.setTcb_tcb_self]
        exact hq
      simp only [osTaskSetPriority, if_neg hne, hstate, hwait]
      exact hk'
    · rw [Model.setPriority_eq_blocked hb hq]
      exact hs'
  · have hmem := hw.ready_mem ht hb
    have h1 := (hset (hs.readyRemove hmem)).readyAdd (t := t)
      ((hw.remove hmem).setTcb fun c => { c with priority := p }).not_mem
    refine ⟨_, ?_, by rw [Model.setPriority_eq_ready hb]; exact h1⟩
    have hor : (k.tcb t).state = .ready ∨ (k.tcb t).state = .running := by
      rw [hst]
      cases h : (a.tcb t).state <;> simp_all
    have hstate : ((osReadyQueueAdd t ((osReadyQueueRemove t k).setTcb t fun c =>
        { c with priority := p })).tcb t).state ≠ .blocked := by
      rw [h1.data]
      simpa [Model.readyAdd, Model.readyRemove] using hb
    simp only [osTaskSetPriority, if_pos hor]
    split
    · exact absurd ‹_› hstate
    · exact Comp.returns_pure.2 rfl

end Rtos

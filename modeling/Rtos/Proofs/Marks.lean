import Rtos.Lib.Hom
import Rtos.Refine.Boot

/-! The mark RUNNING is written by `os_commit_switch`, and nothing but `os_commit_switch` tells it
from READY. Function by function: to drop the marks before a call or after it is the same. -/

namespace Rtos

open Lib

/-- RUNNING counts as READY. -/
def Tcb.unmark (c : Tcb) : Tcb :=
  { c with state := if c.state = .running then .ready else c.state }

def Kernel.unmark (k : Kernel) : Kernel := { k with tcb := fun t => (k.tcb t).unmark }

namespace Tcb

variable (c : Tcb)

@[simp] theorem unmark_sp : c.unmark.sp = c.sp := rfl
@[simp] theorem unmark_basePriority : c.unmark.basePriority = c.basePriority := rfl
@[simp] theorem unmark_priority : c.unmark.priority = c.priority := rfl
@[simp] theorem unmark_waitQueue : c.unmark.waitQueue = c.waitQueue := rfl
@[simp] theorem unmark_ownedMutexes : c.unmark.ownedMutexes = c.ownedMutexes := rfl
@[simp] theorem unmark_blockedOn : c.unmark.blockedOn = c.blockedOn := rfl
@[simp] theorem unmark_wakeTick : c.unmark.wakeTick = c.wakeTick := rfl
@[simp] theorem unmark_next : c.unmark.next = c.next := rfl
@[simp] theorem unmark_prev : c.unmark.prev = c.prev := rfl
@[simp] theorem unmark_timeoutNext : c.unmark.timeoutNext = c.timeoutNext := rfl
@[simp] theorem unmark_timeoutPrev : c.unmark.timeoutPrev = c.timeoutPrev := rfl

theorem unmark_state_eq (h : c.state ≠ .blocked) : c.unmark.state = .ready := by
  unfold unmark
  cases hs : c.state with
  | ready => rfl
  | running => rfl
  | blocked => exact absurd hs h

@[simp] theorem unmark_blocked : c.unmark.state = .blocked ↔ c.state = .blocked := by
  unfold unmark
  cases hs : c.state <;> simp

end Tcb

namespace Kernel

variable (k : Kernel)

@[simp] theorem unmark_toGlobals : k.unmark.toGlobals = k.toGlobals := rfl
@[simp] theorem unmark_queue : k.unmark.queue = k.queue := rfl
@[simp] theorem unmark_gTimeoutQueue : k.unmark.gTimeoutQueue = k.gTimeoutQueue := rfl
@[simp] theorem unmark_tcb (t : TaskId) : k.unmark.tcb t = (k.tcb t).unmark := rfl

theorem unmark_setTcb (t : TaskId) {f : Tcb → Tcb} (hf : ∀ c, f c.unmark = (f c).unmark) :
    k.unmark.setTcb t f = (k.setTcb t f).unmark := by
  have h : (k.unmark.setTcb t f).tcb = (k.setTcb t f).unmark.tcb := by
    funext u
    by_cases hu : u = t
    · subst hu
      simp [setTcb, hf]
    · simp [setTcb, hu]
  exact congrArg (fun tcb => ({ k with tcb := tcb } : Kernel)) h

theorem unmark_atPtr (p : Option TaskId) {f : Tcb → Tcb} (hf : ∀ c, f c.unmark = (f c).unmark) :
    k.unmark.atPtr p f = (k.atPtr p f).unmark := by
  cases p with
  | none => rfl
  | some t => exact unmark_setTcb k t hf

theorem unmark_setQueue (q : QueueRef) (f : TaskQueue → TaskQueue) :
    k.unmark.setQueue q f = (k.setQueue q f).unmark := rfl

theorem unmark_setMutex (m : MutexId) (f : Mutex → Mutex) :
    k.unmark.setMutex m f = (k.setMutex m f).unmark := rfl

end Kernel

open Kernel

variable (k : Kernel) (q : QueueRef) (t : TaskId)

/-! `kernel/scheduler.c`. -/

theorem osTaskQueueAdd_unmark : osTaskQueueAdd q t k.unmark = (osTaskQueueAdd q t k).unmark := by
  unfold osTaskQueueAdd
  cases ht : (k.queue q).tail with
  | none =>
    simp only [unmark_queue, ht]
    rw [unmark_setTcb, unmark_setQueue, unmark_setQueue]
    exact fun _ => rfl
  | some l =>
    simp only [unmark_queue, ht]
    rw [unmark_setTcb, unmark_setTcb, unmark_setQueue] <;> exact fun _ => rfl

/-! The two halves of an unlinking: the neighbour before, then the neighbour behind. -/

def skipBefore (q : QueueRef) (t : TaskId) (k : Kernel) : Kernel :=
  match (k.tcb t).prev with
  | some p => k.setTcb p fun c => { c with next := (k.tcb t).next }
  | none => k.setQueue q fun e => { e with head := (k.tcb t).next }

def skipBehind (q : QueueRef) (t : TaskId) (k : Kernel) : Kernel :=
  match (k.tcb t).next with
  | some n => k.setTcb n fun c => { c with prev := (k.tcb t).prev }
  | none => k.setQueue q fun e => { e with tail := (k.tcb t).prev }

def skipTimeoutBefore (t : TaskId) (k : Kernel) : Kernel :=
  match (k.tcb t).timeoutPrev with
  | some p => k.setTcb p fun c => { c with timeoutNext := (k.tcb t).timeoutNext }
  | none =>
    if k.gTimeoutQueue.head = some t then
      { k with gTimeoutQueue := { k.gTimeoutQueue with head := (k.tcb t).timeoutNext } }
    else k

def skipTimeoutBehind (t : TaskId) (k : Kernel) : Kernel :=
  match (k.tcb t).timeoutNext with
  | some n => k.setTcb n fun c => { c with timeoutPrev := (k.tcb t).timeoutPrev }
  | none =>
    if k.gTimeoutQueue.tail = some t then
      { k with gTimeoutQueue := { k.gTimeoutQueue with tail := (k.tcb t).timeoutPrev } }
    else k

theorem osTaskQueueRemove_eq : osTaskQueueRemove q t k =
    (skipBehind q t (skipBefore q t k)).setTcb t fun c => { c with next := none, prev := none } := rfl

theorem osTimeoutQueueRemove_eq : osTimeoutQueueRemove t k =
    (skipTimeoutBehind t (skipTimeoutBefore t k)).setTcb t fun c =>
      { c with timeoutNext := none, timeoutPrev := none } := rfl

theorem skipBefore_unmark : skipBefore q t k.unmark = (skipBefore q t k).unmark := by
  unfold skipBefore
  simp only [unmark_tcb, Tcb.unmark_prev]
  cases (k.tcb t).prev with
  | none => rfl
  | some p => exact unmark_setTcb k p fun _ => rfl

theorem skipBehind_unmark : skipBehind q t k.unmark = (skipBehind q t k).unmark := by
  unfold skipBehind
  simp only [unmark_tcb, Tcb.unmark_next]
  cases (k.tcb t).next with
  | none => rfl
  | some n => exact unmark_setTcb k n fun _ => rfl

theorem skipTimeoutBefore_unmark :
    skipTimeoutBefore t k.unmark = (skipTimeoutBefore t k).unmark := by
  unfold skipTimeoutBefore
  simp only [unmark_tcb, Tcb.unmark_timeoutPrev, unmark_gTimeoutQueue]
  cases (k.tcb t).timeoutPrev with
  | none => exact ite_hom Iff.rfl rfl rfl
  | some p => exact unmark_setTcb k p fun _ => rfl

theorem skipTimeoutBehind_unmark :
    skipTimeoutBehind t k.unmark = (skipTimeoutBehind t k).unmark := by
  unfold skipTimeoutBehind
  simp only [unmark_tcb, Tcb.unmark_timeoutNext, unmark_gTimeoutQueue]
  cases (k.tcb t).timeoutNext with
  | none => exact ite_hom Iff.rfl rfl rfl
  | some n => exact unmark_setTcb k n fun _ => rfl

theorem osTaskQueueRemove_unmark :
    osTaskQueueRemove q t k.unmark = (osTaskQueueRemove q t k).unmark := by
  rw [osTaskQueueRemove_eq, skipBefore_unmark, skipBehind_unmark]
  exact unmark_setTcb _ t fun _ => rfl

theorem osTimeoutQueueRemove_unmark :
    osTimeoutQueueRemove t k.unmark = (osTimeoutQueueRemove t k).unmark := by
  rw [osTimeoutQueueRemove_eq, skipTimeoutBefore_unmark, skipTimeoutBehind_unmark]
  exact unmark_setTcb _ t fun _ => rfl

theorem osTaskQueuePopHead_unmark :
    osTaskQueuePopHead q k.unmark = Prod.map id unmark (osTaskQueuePopHead q k) := by
  unfold osTaskQueuePopHead
  simp only [unmark_queue]
  cases (k.queue q).head with
  | none => rfl
  | some t =>
    simp only [osTaskQueueRemove_unmark]
    rfl

theorem osTaskQueueInsertByPriority_unmark : osTaskQueueInsertByPriority q t k.unmark =
    (osTaskQueueInsertByPriority q t k).map unmark := by
  unfold osTaskQueueInsertByPriority
  rw [unmark_setTcb]
  · generalize k.setTcb t _ = k
    simp only [unmark_queue]
    cases hq : (k.queue q).head with
    | none => rfl
    | some h =>
      simp only [Comp.map_bind]
      refine congrArg₂ _ rfl ?_
      funext iter
      cases iter with
      | none =>
        simp only [Comp.map_bind, Comp.map_pure]
        refine congrArg₂ _ rfl ?_
        funext last
        rw [unmark_setTcb, unmark_setTcb, unmark_setQueue] <;> exact fun _ => rfl
      | some i =>
        simp only [unmark_tcb, Tcb.unmark_prev, Comp.map_pure]
        rw [unmark_setTcb]
        · cases (k.tcb i).prev with
          | none =>
            simp only [unmark_setQueue]
            rw [unmark_setTcb]
            exact fun _ => rfl
          | some p =>
            simp only
            rw [unmark_setTcb, unmark_setTcb] <;> exact fun _ => rfl
        · exact fun _ => rfl
  · exact fun _ => rfl

theorem osReadyQueueRotate_unmark (tcb : Option TaskId) :
    osReadyQueueRotate tcb k.unmark = (osReadyQueueRotate tcb k).map unmark := by
  cases tcb with
  | none => rfl
  | some t =>
    refine ite_hom Iff.rfl rfl ?_
    simp only [unmark_tcb, Tcb.unmark_priority, Tcb.unmark_next, Comp.map_bind, Comp.map_pure]
    refine congrArg₂ _ rfl ?_
    funext last
    rw [unmark_setQueue, unmark_atPtr, unmark_setTcb, unmark_setTcb, unmark_setQueue] <;>
      exact fun _ => rfl

theorem osReadyQueueAdd_unmark : osReadyQueueAdd t k.unmark = (osReadyQueueAdd t k).unmark :=
  osTaskQueueAdd_unmark k (.ready (k.tcb t).priority) t

theorem osReadyQueueRemove_unmark : osReadyQueueRemove t k.unmark = (osReadyQueueRemove t k).unmark :=
  osTaskQueueRemove_unmark k (.ready (k.tcb t).priority) t

theorem scheduleAndTrigger_unmark : scheduleAndTrigger k.unmark = (scheduleAndTrigger k).unmark :=
  ite_hom Iff.rfl rfl rfl

theorem osTimeoutQueueInsertSorted_unmark : osTimeoutQueueInsertSorted t k.unmark =
    (osTimeoutQueueInsertSorted t k).map unmark := by
  unfold osTimeoutQueueInsertSorted
  rw [unmark_setTcb]
  · generalize k.setTcb t _ = k
    simp only [unmark_gTimeoutQueue]
    cases hq : k.gTimeoutQueue.head with
    | none => rfl
    | some h =>
      simp only [Comp.map_bind]
      refine congrArg₂ _ rfl ?_
      funext iter
      cases iter with
      | none =>
        simp only [Comp.map_bind, Comp.map_pure]
        refine congrArg₂ _ rfl ?_
        funext last
        rw [unmark_setTcb, unmark_setTcb]
        · rfl
        · exact fun _ => rfl
        · exact fun _ => rfl
      | some i =>
        simp only [unmark_tcb, Tcb.unmark_timeoutPrev, Comp.map_pure]
        rw [unmark_setTcb]
        · generalize k.setTcb t _ = k₁
          cases (k.tcb i).timeoutPrev with
          | none =>
            refine congrArg pure ?_
            refine Eq.trans ?_ (unmark_setTcb { k₁ with
              gTimeoutQueue := { k₁.gTimeoutQueue with head := some t } } i ?_)
            · rfl
            · exact fun _ => rfl
          | some p =>
            simp only
            rw [unmark_setTcb, unmark_setTcb] <;> exact fun _ => rfl
        · exact fun _ => rfl
  · exact fun _ => rfl

theorem timeoutExpire_unmark : timeoutExpire t k.unmark = (timeoutExpire t k).unmark := by
  unfold timeoutExpire
  rw [osTimeoutQueueRemove_unmark]
  generalize osTimeoutQueueRemove t k = k
  simp only [unmark_tcb, Tcb.unmark_waitQueue]
  cases (k.tcb t).waitQueue with
  | none =>
    simp only
    rw [unmark_setTcb, osReadyQueueAdd_unmark]
    exact fun _ => rfl
  | some q =>
    simp only
    rw [osTaskQueueRemove_unmark, unmark_setTcb, unmark_setTcb, osReadyQueueAdd_unmark] <;>
      exact fun _ => rfl

theorem expireLoop_unmark (now : Word) (x : Option TaskId) :
    expireLoop now (x, k.unmark) = (expireLoop now (x, k)).map unmark := by
  refine Comp.loop_map (h := Prod.map id unmark) (fun s => ?_) (x, k)
  obtain ⟨x, k⟩ := s
  cases x with
  | none => rfl
  | some t =>
    simp only [Prod.map_apply, id_eq, unmark_tcb, Tcb.unmark_wakeTick, Tcb.unmark_timeoutNext,
      timeoutExpire_unmark]
    split_ifs <;> rfl

theorem osProcessTimeouts_unmark :
    osProcessTimeouts k.unmark = (osProcessTimeouts k).map unmark := by
  unfold osProcessTimeouts
  simp only [unmark_toGlobals, unmark_gTimeoutQueue, expireLoop_unmark, Comp.bind_map, Comp.map_bind,
    Comp.map_pure, scheduleAndTrigger_unmark]

theorem enqueueLocked_unmark (ordered : Bool) :
    enqueueLocked t q ordered k.unmark = (enqueueLocked t q ordered k).map unmark := by
  unfold enqueueLocked
  rw [osReadyQueueRemove_unmark, unmark_setTcb]
  · refine ite_hom Iff.rfl (osTaskQueueInsertByPriority_unmark _ q t) ?_
    rw [osTaskQueueAdd_unmark]
    rfl
  · exact fun _ => rfl

theorem sleepLocked_unmark (ticks : Word) :
    sleepLocked t ticks k.unmark = (sleepLocked t ticks k).map unmark := by
  refine ite_hom Iff.rfl ?_ rfl
  rw [unmark_setTcb, osTimeoutQueueInsertSorted_unmark]
  · rfl
  · exact fun _ => rfl

theorem osTaskBlockLocked_unmark (ticks : Word) (ordered : Bool) :
    osTaskBlockLocked q ticks ordered k.unmark =
      (osTaskBlockLocked q ticks ordered k).map unmark := by
  cases hc : k.gCurrent with
  | none => simp only [osTaskBlockLocked, unmark_toGlobals, hc, Comp.map_pure]
  | some cur =>
    have hc' : k.unmark.gCurrent = some cur := hc
    simp only [blockLocked_eq hc', blockLocked_eq hc, enqueueLocked_unmark, sleepLocked_unmark,
      scheduleAndTrigger_unmark, Comp.bind_map, Comp.map_bind, Comp.map_pure]

theorem osTaskWakeOneLocked_unmark :
    osTaskWakeOneLocked q k.unmark = Prod.map id unmark (osTaskWakeOneLocked q k) := by
  unfold osTaskWakeOneLocked
  rw [osTaskQueuePopHead_unmark]
  obtain ⟨x, k⟩ := osTaskQueuePopHead q k
  cases x with
  | none => rfl
  | some t =>
    simp only [Prod.map_apply, id_eq, Prod.mk.injEq, true_and]
    have h : (if (k.unmark.tcb t).wakeTick ≠ osWaitForever then osTimeoutQueueRemove t k.unmark
        else k.unmark) =
        (if (k.tcb t).wakeTick ≠ osWaitForever then osTimeoutQueueRemove t k else k).unmark :=
      ite_hom Iff.rfl (osTimeoutQueueRemove_unmark k t) rfl
    rw [h, unmark_setTcb, osReadyQueueAdd_unmark]
    exact fun _ => rfl

theorem osTaskSetPriority_unmark (p : Priority) :
    osTaskSetPriority t p k.unmark = (osTaskSetPriority t p k).map unmark := by
  have hset : (if (k.unmark.tcb t).state = .ready ∨ (k.unmark.tcb t).state = .running then
        osReadyQueueAdd t ((osReadyQueueRemove t k.unmark).setTcb t fun c => { c with priority := p })
      else k.unmark.setTcb t fun c => { c with priority := p }) =
      (if (k.tcb t).state = .ready ∨ (k.tcb t).state = .running then
        osReadyQueueAdd t ((osReadyQueueRemove t k).setTcb t fun c => { c with priority := p })
      else k.setTcb t fun c => { c with priority := p }).unmark := by
    refine ite_hom ?_ ?_ ?_
    · have := (k.tcb t).unmark_blocked
      rw [unmark_tcb]
      cases hu : (k.tcb t).unmark.state <;> cases hs : (k.tcb t).state <;> simp_all
    · rw [osReadyQueueRemove_unmark, unmark_setTcb, osReadyQueueAdd_unmark]
      exact fun _ => rfl
    · exact unmark_setTcb k t fun _ => rfl
  unfold osTaskSetPriority
  simp only
  rw [hset]
  generalize (if (k.tcb t).state = .ready ∨ (k.tcb t).state = .running then
    osReadyQueueAdd t ((osReadyQueueRemove t k).setTcb t fun c => { c with priority := p })
    else k.setTcb t fun c => { c with priority := p }) = k₁
  by_cases hb : (k₁.tcb t).state = .blocked
  · have hb' : (k₁.unmark.tcb t).state = .blocked := by rwa [unmark_tcb, Tcb.unmark_blocked]
    rw [hb, hb']
    simp only [unmark_tcb, Tcb.unmark_waitQueue]
    cases (k₁.tcb t).waitQueue with
    | none => rfl
    | some q =>
      simp only
      rw [osTaskQueueRemove_unmark, osTaskQueueInsertByPriority_unmark]
  · rw [unmark_tcb, Tcb.unmark_state_eq _ hb]
    cases hs : (k₁.tcb t).state with
    | ready => rfl
    | running => rfl
    | blocked => exact absurd hs hb

/-! `kernel/semaphore.c`, `kernel/mutex.c` and `kernel/tick.c`. -/

theorem osKernelSemTake_unmark (sem : Option SemId) :
    osKernelSemTake sem k.unmark = (osKernelSemTake sem k).map (Prod.map id unmark) := by
  cases sem with
  | none => rfl
  | some s =>
    refine ite_hom Iff.rfl rfl ?_
    simp only [osTaskBlockLocked_unmark, Comp.bind_map, Comp.map_bind]
    rfl

theorem osKernelSemGive_unmark (sem : Option SemId) :
    osKernelSemGive sem k.unmark = (osKernelSemGive sem k).map (Prod.map id unmark) := by
  cases sem with
  | none => rfl
  | some s =>
    unfold osKernelSemGive
    simp only [osTaskWakeOneLocked_unmark]
    obtain ⟨x, k⟩ := osTaskWakeOneLocked (.sem s) k
    cases x with
    | none => rfl
    | some t => exact congrArg (fun k => pure ((0 : ℤ), k)) (scheduleAndTrigger_unmark k)

theorem osMutexAddToOwned_unmark (m : MutexId) :
    osMutexAddToOwned t m k.unmark = (osMutexAddToOwned t m k).unmark := by
  unfold osMutexAddToOwned
  simp only [unmark_setMutex]
  rw [unmark_setTcb]
  · rfl
  · exact fun _ => rfl

theorem osMutexRemoveFromOwned_unmark (m : MutexId) :
    osMutexRemoveFromOwned t m k.unmark = (osMutexRemoveFromOwned t m k).map unmark := by
  unfold osMutexRemoveFromOwned
  rw [Comp.map_bind]
  refine congrArg₂ _ rfl ?_
  funext found
  cases found with
  | none => rfl
  | some prev =>
    cases prev with
    | none =>
      simp only [unmark_toGlobals]
      rw [unmark_setTcb]
      · rfl
      · exact fun _ => rfl
    | some p => rfl

theorem inheritWalk_unmark (cur : TaskId) (x : Option TaskId) :
    inheritWalk cur (x, k.unmark) = (inheritWalk cur (x, k)).map unmark := by
  refine Comp.loop_map (h := Prod.map id unmark) (fun s => ?_) (x, k)
  obtain ⟨x, k⟩ := s
  cases x with
  | none => rfl
  | some o =>
    refine ite_hom Iff.rfl ?_ rfl
    simp only [unmark_tcb, Tcb.unmark_priority, osTaskSetPriority_unmark, Comp.bind_map,
      Comp.map_bind]
    refine congrArg₂ _ rfl ?_
    funext k
    by_cases hb : (k.tcb o).state = .blocked
    · rw [hb, (Tcb.unmark_blocked _).2 hb, Tcb.unmark_blockedOn]
      cases (k.tcb o).blockedOn <;> rfl
    · rw [Tcb.unmark_state_eq _ hb]
      cases hs : (k.tcb o).state with
      | ready => rfl
      | running => rfl
      | blocked => exact absurd hs hb

theorem osKernelMutexLock_unmark (mutex : Option MutexId) :
    osKernelMutexLock mutex k.unmark = (osKernelMutexLock mutex k).map (Prod.map id unmark) := by
  cases mutex with
  | none => rfl
  | some m =>
    simp only [osKernelMutexLock, Comp.map_bind, unmark_toGlobals]
    refine congrArg₂ _ rfl ?_
    funext cur
    cases (k.mutex m).owner with
    | none =>
      simp only [unmark_setMutex, osMutexAddToOwned_unmark]
      rfl
    | some o =>
      refine ite_hom Iff.rfl rfl ?_
      rw [unmark_setTcb]
      · simp only [inheritWalk_unmark, osTaskBlockLocked_unmark, Comp.bind_map, Comp.map_bind,
          Comp.map_pure, Prod.map_apply, id_eq]
        refine congrArg₂ _ rfl ?_
        funext k₁
        refine congrArg₂ _ rfl ?_
        funext k₂
        rw [unmark_setTcb, osMutexAddToOwned_unmark]
        exact fun _ => rfl
      · exact fun _ => rfl

theorem osKernelMutexUnlock_unmark (mutex : Option MutexId) :
    osKernelMutexUnlock mutex k.unmark = (osKernelMutexUnlock mutex k).map (Prod.map id unmark) := by
  cases mutex with
  | none => rfl
  | some m =>
    refine ite_hom Iff.rfl rfl ?_
    simp only [Comp.map_bind]
    refine congrArg₂ _ rfl ?_
    funext cur
    simp only [osMutexRemoveFromOwned_unmark, Comp.bind_map]
    refine congrArg₂ _ rfl ?_
    funext k₁
    refine congrArg₂ _ rfl ?_
    funext p
    simp only [osTaskSetPriority_unmark, Comp.bind_map]
    refine congrArg₂ _ rfl ?_
    funext k₂
    simp only [osTaskWakeOneLocked_unmark]
    obtain ⟨x, k₃⟩ := osTaskWakeOneLocked (.mutex m) k₂
    cases x with
    | none => rfl
    | some t =>
      exact congrArg (fun k => pure ((0 : ℤ), k))
        (scheduleAndTrigger_unmark (k₃.setMutex m fun x => { x with owner := some t }))

theorem osKernelYield_unmark : osKernelYield k.unmark = (osKernelYield k).map unmark := by
  unfold osKernelYield
  simp only [unmark_toGlobals, osReadyQueueRotate_unmark, Comp.bind_map, Comp.map_bind]
  rfl

theorem osKernelDelayTicks_unmark (ticks : Word) :
    osKernelDelayTicks ticks k.unmark = (osKernelDelayTicks ticks k).map unmark :=
  ite_hom Iff.rfl (osKernelYield_unmark k) (osTaskBlockLocked_unmark k .sleep ticks false)

theorem sysTickHandler_unmark : sysTickHandler k.unmark = (sysTickHandler k).map unmark := by
  have h := osProcessTimeouts_unmark { k with gTick := k.gTick + 1 }
  unfold sysTickHandler
  rw [Comp.map_bind]
  refine Eq.trans (congrArg (· >>= _) h) ?_
  simp only [Comp.bind_map, Comp.map_bind, osReadyQueueRotate_unmark, unmark_toGlobals,
    scheduleAndTrigger_unmark, Comp.map_pure]

/-! `kernel/task.c`. -/

theorem osKobjAlloc_unmark (size : ℕ) :
    osKobjAlloc size k.unmark = Prod.map id unmark (osKobjAlloc size k) :=
  ite_hom Iff.rfl rfl rfl

theorem osKstackAlloc_unmark (words : ℕ) :
    osKstackAlloc words k.unmark = Prod.map id unmark (osKstackAlloc words k) :=
  ite_hom Iff.rfl rfl rfl

theorem osTaskCreateInternal_unmark (p : Priority) (entry arg stackMem stackWords : ℕ) :
    osTaskCreateInternal t p entry arg stackMem stackWords k.unmark =
      (osTaskCreateInternal t p entry arg stackMem stackWords k).unmark := by
  unfold osTaskCreateInternal
  refine Eq.trans ?_ (unmark_setTcb { k with stackMem :=
    (buildFrame k.layout entry arg stackMem stackWords k.stackMem).2 } t ?_)
  · rfl
  · exact fun _ => rfl

theorem osKernelTaskCreate_unmark (args : Option TaskCreateArgs) :
    osKernelTaskCreate args k.unmark = Prod.map id unmark (osKernelTaskCreate args k) := by
  cases args with
  | none => rfl
  | some args =>
    refine ite_hom Iff.rfl rfl ?_
    by_cases hp : args.priority < numPriorities
    · rw [dif_pos hp, dif_pos hp]
      simp only [osKobjAlloc_unmark, osKstackAlloc_unmark, Prod.map_snd, Prod.map_fst, id_eq]
      refine ite_hom Iff.rfl rfl (ite_hom Iff.rfl rfl ?_)
      rw [osTaskCreateInternal_unmark]
      generalize osTaskCreateInternal _ _ _ _ _ _ _ = k₁
      have h := osReadyQueueAdd_unmark
        { k₁ with tasks := k₁.tasks ++ [(osKobjAlloc sizeofTcb k).1] } (osKobjAlloc sizeofTcb k).1
      have hend : ∀ k : Kernel, (if (osSchedule k.unmark).gCurrent ≠ none ∧
          (osSchedule k.unmark).gNext ≠ (osSchedule k.unmark).gCurrent then
          ((0 : ℤ), osPortPendsvTrigger (osSchedule k.unmark)) else (0, osSchedule k.unmark)) =
          Prod.map id unmark (if (osSchedule k).gCurrent ≠ none ∧
            (osSchedule k).gNext ≠ (osSchedule k).gCurrent then
            (0, osPortPendsvTrigger (osSchedule k)) else (0, osSchedule k)) :=
        fun k => ite_hom Iff.rfl rfl rfl
      rw [← hend, ← h]
      rfl
    · rw [dif_neg hp, dif_neg hp]
      rfl

/-- No entry but the switch itself looks at the mark. -/
theorem exec_unmark {e : Entry} (he : e ≠ .pendSV) :
    exec k.unmark e = (exec k e).map (Prod.map id unmark) := by
  cases e with
  | pendSV => exact absurd rfl he
  | sysTick =>
    simp only [exec, sysTickHandler_unmark, Comp.bind_map, Comp.map_bind, Comp.map_pure,
      Prod.map_apply, id_eq]
  | svc c =>
    cases c with
    | yield =>
      simp only [exec, osPortSvcDispatch, osKernelYield_unmark, Comp.bind_map, Comp.map_bind,
        Comp.map_pure, Prod.map_apply, id_eq]
    | delayTicks ticks =>
      simp only [exec, osPortSvcDispatch, osKernelDelayTicks_unmark, Comp.bind_map, Comp.map_bind,
        Comp.map_pure, Prod.map_apply, id_eq]
    | semTake sem => exact osKernelSemTake_unmark k sem
    | semGive sem => exact osKernelSemGive_unmark k sem
    | mutexLock mutex => exact osKernelMutexLock_unmark k mutex
    | mutexUnlock mutex => exact osKernelMutexUnlock_unmark k mutex
    | taskCreate args => exact congrArg pure (osKernelTaskCreate_unmark k args)
    | unrecognized => rfl

variable {k} {k' k₁ : Kernel} {e : Entry} {r : ℤ}

theorem unmark_unmark (k : Kernel) : k.unmark.unmark = k.unmark := by
  have h : ∀ t, (k.tcb t).unmark.unmark = (k.tcb t).unmark := by
    intro t
    unfold Tcb.unmark
    cases (k.tcb t).state <;> rfl
  exact congrArg (fun tcb => ({ k with tcb := tcb } : Kernel)) (funext h)

/-- READY or RUNNING may be written to a task that is not blocked. -/
theorem unmark_setState {x : TaskId} {s : TaskState} (hb : (k.tcb x).state ≠ .blocked)
    (hs : s ≠ .blocked) : (k.setTcb x fun c => { c with state := s }).unmark = k.unmark := by
  have h : ∀ u, ((k.setTcb x fun c => { c with state := s }).tcb u).unmark = (k.tcb u).unmark := by
    intro u
    rw [Kernel.setTcb_tcb]
    split_ifs with hu
    · subst hu
      unfold Tcb.unmark
      cases hk : (k.tcb u).state <;> cases s <;> simp_all
    · rfl
  exact congrArg (fun tcb => ({ k with tcb := tcb } : Kernel)) (funext h)

/-- Two kernels that differ in the marks only answer every entry but the switch alike, and differ
in the marks only afterwards. -/
theorem marks_unread (hk : k.unmark = k'.unmark) (he : e ≠ .pendSV) (hr : (exec k e).Returns (r, k₁)) :
    ∃ k₁', (exec k' e).Returns (r, k₁') ∧ k₁.unmark = k₁'.unmark := by
  have h : (exec k'.unmark e).Returns (r, k₁.unmark) := by
    rw [← hk, exec_unmark k he]
    exact (Comp.returns_map _ _).2 ⟨(r, k₁), hr, rfl⟩
  rw [exec_unmark k' he] at h
  obtain ⟨⟨r', k₁'⟩, hr', hx⟩ := (Comp.returns_map _ _).1 h
  obtain rfl : r' = r := congrArg Prod.fst hx
  exact ⟨k₁', hr', (congrArg Prod.snd hx).symm⟩

/-- The marks of two tasks are exchanged, and the tick comes. -/
theorem marks_unread_exchanged : ∃ k k' : Kernel, ∃ k₁, (∃ os, Run (Boot.small [1, 2] 0 0 (by decide)) os k) ∧
    k.unmark = k'.unmark ∧ ((k.tcb 192).state = .running ∧ (k'.tcb 192).state = .ready) ∧
    (exec k .sysTick).Returns (0, k₁) ∧
    ∃ k₁', (exec k' .sysTick).Returns (0, k₁') ∧ k₁.unmark = k₁'.unmark := by
  obtain ⟨os, k, hr, h1, h2, hx⟩ := Boot.play_exists (Boot.small [1, 2] 0 0 (by decide)) 10 [.pendSV]
    (fun _ k => (k.tcb 192).state = .running ∧ (k.tcb 128).state = .ready ∧
      ((exec k .sysTick).run 10).any (fun x => x.1 = 0) = true) (by decide +kernel)
  obtain ⟨⟨r, k₁⟩, hrun, h0⟩ := (Option.any_eq_true _ _).1 hx
  obtain rfl : r = 0 := of_decide_eq_true h0
  have hk : k.unmark = ((k.setTcb 192 fun c => { c with state := .ready }).setTcb 128 fun c =>
      { c with state := .running }).unmark := by
    rw [unmark_setState (by rw [Kernel.setTcb_tcb, if_neg (by decide), h2]; decide) (by decide),
      unmark_setState (by rw [h1]; decide) (by decide)]
  refine ⟨k, _, k₁, ⟨os, hr⟩, hk, ⟨h1, ?_⟩, ⟨10, hrun⟩, marks_unread hk (by decide) ⟨10, hrun⟩⟩
  rw [Kernel.setTcb_tcb, if_neg (by decide), Kernel.setTcb_tcb, if_pos rfl]

end Rtos

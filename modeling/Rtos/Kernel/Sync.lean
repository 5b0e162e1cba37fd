import Rtos.Kernel.Scheduler

/-! `kernel/semaphore.c`, `kernel/mutex.c` and `kernel/tick.c`. Kernel entries
run with interrupts masked, so the `os_port_irq_save` brackets leave no trace. -/

namespace Rtos

open Lib

/-- `int32_t` arithmetic, as the two's complement machine does it. -/
def i32 (n : ℤ) : ℤ := Int.bmod n (2 ^ 32)

def osSemInit (s : SemId) (initialCount : ℤ) (k : Kernel) : ℤ × Kernel :=
  if initialCount < 0 then (-1, k)
  else
    (0, osTaskQueueInit (.sem s) { k with semCount := Function.update k.semCount s initialCount })

def osKernelSemTake (sem : Option SemId) (k : Kernel) : Comp (ℤ × Kernel) :=
  match sem with
  | none => pure (-1, k)
  | some s =>
    if 0 < k.semCount s then
      pure (0, { k with semCount := Function.update k.semCount s (i32 (k.semCount s - 1)) })
    else do
      let k ← osTaskBlockLocked (.sem s) osWaitForever false k
      pure (0, k)

def osKernelSemGive (sem : Option SemId) (k : Kernel) : Comp (ℤ × Kernel) :=
  match sem with
  | none => pure (-1, k)
  | some s =>
    match osTaskWakeOneLocked (.sem s) k with
    | (some _, k) => pure (0, scheduleAndTrigger k)
    | (none, k) =>
      pure (0, { k with semCount := Function.update k.semCount s (i32 (k.semCount s + 1)) })

def osMutexInit (m : MutexId) (k : Kernel) : ℤ × Kernel :=
  (0, osTaskQueueInit (.mutex m) (k.setMutex m fun x => { x with owner := none }))

def osMutexAddToOwned (t : TaskId) (m : MutexId) (k : Kernel) : Kernel :=
  let k := k.setMutex m fun x => { x with nextMutex := (k.tcb t).ownedMutexes }
  k.setTcb t fun c => { c with ownedMutexes := some m }

/-- The walk of `os_mutex_remove_from_owned`: the link that leads to `m`, which is
the list head (`some none`) or a mutex before it, or `none` if the list lacks `m`. -/
def ownedFind (next : MutexId → Option MutexId) (m : MutexId) :
    Option MutexId × Option MutexId → Comp (Option (Option MutexId)) :=
  Comp.loop fun (prev, curr) =>
    match curr with
    | none => pure (.inr none)
    | some c => if c = m then pure (.inr (some prev)) else pure (.inl (some c, next c))

def osMutexRemoveFromOwned (t : TaskId) (m : MutexId) (k : Kernel) : Comp Kernel := do
  let found ← ownedFind (fun c => (k.mutex c).nextMutex) m (none, (k.tcb t).ownedMutexes)
  match found with
  | none => pure k
  | some prev =>
    let after := (k.mutex m).nextMutex
    let k := match prev with
      | none => k.setTcb t fun c => { c with ownedMutexes := after }
      | some p => k.setMutex p fun x => { x with nextMutex := after }
    pure (k.setMutex m fun x => { x with nextMutex := none })

/-- One mutex of the list in `os_mutex_recompute_priority`, given its first waiter's priority. -/
def moreUrgent (result : Priority) (waiter : Option Priority) : Priority :=
  match waiter with
  | some p => if p < result then p else result
  | none => result

def recomputeWalk (next : MutexId → Option MutexId) (waiter : MutexId → Option Priority) :
    Option MutexId × Priority → Comp Priority :=
  Comp.loop fun (m, result) =>
    match m with
    | none => pure (.inr result)
    | some m => pure (.inl (next m, moreUrgent result (waiter m)))

def osMutexRecomputePriority (t : TaskId) (k : Kernel) : Comp Priority :=
  recomputeWalk (fun m => (k.mutex m).nextMutex)
    (fun m => (k.queue (.mutex m)).head.map fun w => (k.tcb w).priority)
    ((k.tcb t).ownedMutexes, (k.tcb t).basePriority)

/-- The chain walk of `os_kernel_mutex_lock`. -/
def inheritWalk (cur : TaskId) : Option TaskId × Kernel → Comp Kernel :=
  Comp.loop fun (owner, k) =>
    match owner with
    | none => pure (.inr k)
    | some o =>
      if (k.tcb cur).priority < (k.tcb o).priority then do
        let k ← osTaskSetPriority o (k.tcb cur).priority k
        match (k.tcb o).state, (k.tcb o).blockedOn with
        | .blocked, some m => pure (.inl ((k.mutex m).owner, k))
        | _, _ => pure (.inr k)
      else pure (.inr k)

def osKernelMutexLock (mutex : Option MutexId) (k : Kernel) : Comp (ℤ × Kernel) :=
  match mutex with
  | none => pure (-1, k)
  | some m => do
    let cur ← Comp.ofOption k.gCurrent
    match (k.mutex m).owner with
    | none =>
      pure (0, osMutexAddToOwned cur m (k.setMutex m fun x => { x with owner := some cur }))
    | some o =>
      if o = cur then pure (-1, k)
      else
        let k := k.setTcb cur fun c => { c with blockedOn := some m }
        let k ← inheritWalk cur (some o, k)
        -- the switch is left to PendSV: the call returns here with the caller still BLOCKED
        let k ← osTaskBlockLocked (.mutex m) osWaitForever true k
        let k := k.setTcb cur fun c => { c with blockedOn := none }
        pure (0, osMutexAddToOwned cur m k)

def osKernelMutexUnlock (mutex : Option MutexId) (k : Kernel) : Comp (ℤ × Kernel) :=
  match mutex with
  | none => pure (-1, k)
  | some m => do
    if (k.mutex m).owner ≠ k.gCurrent then pure (-1, k)
    else
      let cur ← Comp.ofOption k.gCurrent
      let k ← osMutexRemoveFromOwned cur m k
      let p ← osMutexRecomputePriority cur k
      let k ← osTaskSetPriority cur p k
      match osTaskWakeOneLocked (.mutex m) k with
      | (some t, k) => pure (0, scheduleAndTrigger (k.setMutex m fun x => { x with owner := some t }))
      | (none, k) => pure (0, k.setMutex m fun x => { x with owner := none })

def osKernelYield (k : Kernel) : Comp Kernel := do
  let k ← osReadyQueueRotate k.gCurrent k
  pure (osPortPendsvTrigger (osSchedule k))

def osKernelDelayTicks (ticks : Word) (k : Kernel) : Comp Kernel :=
  if ticks = 0 then osKernelYield k else osTaskBlockLocked .sleep ticks false k

def sysTickHandler (k : Kernel) : Comp Kernel := do
  let k ← osProcessTimeouts { k with gTick := k.gTick + 1 }
  let k ← osReadyQueueRotate k.gCurrent k
  pure (scheduleAndTrigger k)

end Rtos

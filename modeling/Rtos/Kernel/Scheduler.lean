import Rtos.Kernel.Types

/-! `kernel/scheduler.c`, function by function. Null checks on arguments that no
caller passes as null are carried by the argument types. -/

namespace Rtos

open Lib

def osTaskQueueInit (q : QueueRef) (k : Kernel) : Kernel :=
  k.setQueue q fun _ => ⟨none, none⟩

def osTaskQueuePeekHead (q : QueueRef) (k : Kernel) : Option TaskId := (k.queue q).head

def osTaskQueueAdd (q : QueueRef) (t : TaskId) (k : Kernel) : Kernel :=
  let tail := (k.queue q).tail
  let k := k.setTcb t fun c => { c with next := none, prev := tail }
  let k := match tail with
    | some l => k.setTcb l fun c => { c with next := some t }
    | none => k.setQueue q fun e => { e with head := some t }
  k.setQueue q fun e => { e with tail := some t }

def osTaskQueueRemove (q : QueueRef) (t : TaskId) (k : Kernel) : Kernel :=
  let k := match (k.tcb t).prev with
    | some p => k.setTcb p fun c => { c with next := (k.tcb t).next }
    | none => k.setQueue q fun e => { e with head := (k.tcb t).next }
  let k := match (k.tcb t).next with
    | some n => k.setTcb n fun c => { c with prev := (k.tcb t).prev }
    | none => k.setQueue q fun e => { e with tail := (k.tcb t).prev }
  k.setTcb t fun c => { c with next := none, prev := none }

def osTaskQueuePopHead (q : QueueRef) (k : Kernel) : Option TaskId × Kernel :=
  match (k.queue q).head with
  | some t => (some t, osTaskQueueRemove q t k)
  | none => (none, k)

/-- The walk of `os_task_queue_insert_by_priority` to the first less urgent task. -/
def insertWalk (k : Kernel) (p : Priority) : Option TaskId → Comp (Option TaskId) :=
  walkWhile (fun i => (k.tcb i).next) fun i => (k.tcb i).priority ≤ p

def osTaskQueueInsertByPriority (q : QueueRef) (t : TaskId) (k : Kernel) : Comp Kernel := do
  let k := k.setTcb t fun c => { c with next := none, prev := none }
  match (k.queue q).head with
  | none => pure (k.setQueue q fun _ => ⟨some t, some t⟩)
  | some h =>
    let iter ← insertWalk k (k.tcb t).priority (some h)
    match iter with
    | none =>
      let last ← Comp.ofOption (k.queue q).tail
      let k := k.setTcb t fun c => { c with prev := some last }
      let k := k.setTcb last fun c => { c with next := some t }
      pure (k.setQueue q fun e => { e with tail := some t })
    | some i =>
      let before := (k.tcb i).prev
      let k := k.setTcb t fun c => { c with next := some i, prev := before }
      let k := match before with
        | some p => k.setTcb p fun c => { c with next := some t }
        | none => k.setQueue q fun e => { e with head := some t }
      pure (k.setTcb i fun c => { c with prev := some t })

def osReadyQueueRotate (tcb : Option TaskId) (k : Kernel) : Comp Kernel :=
  match tcb with
  | none => pure k
  | some t =>
    let q := QueueRef.ready (k.tcb t).priority
    if (k.queue q).head ≠ some t ∨ (k.tcb t).next = none then pure k
    else do
      let second := (k.tcb t).next
      let last ← Comp.ofOption (k.queue q).tail
      let k := k.setQueue q fun e => { e with head := second }
      let k := k.atPtr second fun c => { c with prev := none }
      let k := k.setTcb t fun c => { c with next := none, prev := some last }
      let k := k.setTcb last fun c => { c with next := some t }
      pure (k.setQueue q fun e => { e with tail := some t })

def osReadyQueueAdd (t : TaskId) (k : Kernel) : Kernel :=
  osTaskQueueAdd (.ready (k.tcb t).priority) t k

def osReadyQueueRemove (t : TaskId) (k : Kernel) : Kernel :=
  osTaskQueueRemove (.ready (k.tcb t).priority) t k

/-- The scan of `os_schedule`: the head of the first non-empty ready queue. -/
def osSchedule (k : Kernel) : Kernel :=
  { k with gNext := (List.finRange numPriorities).findSome? fun p => osTaskQueuePeekHead (.ready p) k }

def osPortPendsvTrigger (k : Kernel) : Kernel := { k with pendsv := true }

/-- The tail shared by the calls that may wake or block a task. -/
def scheduleAndTrigger (k : Kernel) : Kernel :=
  let k := osSchedule k
  if k.gNext ≠ k.gCurrent then osPortPendsvTrigger k else k

def osTickReached (now wakeTick : Word) : Bool := 0 ≤ (now - wakeTick).toInt

/-- The walk of `os_timeout_queue_insert_sorted`. -/
def timeoutWalk (k : Kernel) (wakeTick : Word) : Option TaskId → Comp (Option TaskId) :=
  walkWhile (fun i => (k.tcb i).timeoutNext) fun i => !osTickReached (k.tcb i).wakeTick wakeTick

def osTimeoutQueueInsertSorted (t : TaskId) (k : Kernel) : Comp Kernel := do
  let k := k.setTcb t fun c => { c with timeoutNext := none, timeoutPrev := none }
  match k.gTimeoutQueue.head with
  | none => pure { k with gTimeoutQueue := ⟨some t, some t⟩ }
  | some h =>
    let iter ← timeoutWalk k (k.tcb t).wakeTick (some h)
    match iter with
    | none =>
      let last ← Comp.ofOption k.gTimeoutQueue.tail
      let k := k.setTcb t fun c => { c with timeoutPrev := some last }
      let k := k.setTcb last fun c => { c with timeoutNext := some t }
      pure { k with gTimeoutQueue := { k.gTimeoutQueue with tail := some t } }
    | some i =>
      let before := (k.tcb i).timeoutPrev
      let k := k.setTcb t fun c => { c with timeoutNext := some i, timeoutPrev := before }
      let k := match before with
        | some p => k.setTcb p fun c => { c with timeoutNext := some t }
        | none => { k with gTimeoutQueue := { k.gTimeoutQueue with head := some t } }
      pure (k.setTcb i fun c => { c with timeoutPrev := some t })

def osTimeoutQueueRemove (t : TaskId) (k : Kernel) : Kernel :=
  let k := match (k.tcb t).timeoutPrev with
    | some p => k.setTcb p fun c => { c with timeoutNext := (k.tcb t).timeoutNext }
    | none =>
      if k.gTimeoutQueue.head = some t then
        { k with gTimeoutQueue := { k.gTimeoutQueue with head := (k.tcb t).timeoutNext } }
      else k
  let k := match (k.tcb t).timeoutNext with
    | some n => k.setTcb n fun c => { c with timeoutPrev := (k.tcb t).timeoutPrev }
    | none =>
      if k.gTimeoutQueue.tail = some t then
        { k with gTimeoutQueue := { k.gTimeoutQueue with tail := (k.tcb t).timeoutPrev } }
      else k
  k.setTcb t fun c => { c with timeoutNext := none, timeoutPrev := none }

/-- The body of the loop in `os_process_timeouts`, for one task whose tick has come. -/
def timeoutExpire (t : TaskId) (k : Kernel) : Kernel :=
  let k := osTimeoutQueueRemove t k
  let k := match (k.tcb t).waitQueue with
    | some q => (osTaskQueueRemove q t k).setTcb t fun c => { c with waitQueue := none }
    | none => k
  let k := k.setTcb t fun c =>
    { c with wakeTick := osWaitForever, waitResult := -1, state := .ready }
  osReadyQueueAdd t k

def expireLoop (now : Word) : Option TaskId × Kernel → Comp Kernel :=
  Comp.loop fun (tcb, k) =>
    match tcb with
    | none => pure (.inr k)
    | some t =>
      if osTickReached now (k.tcb t).wakeTick then
        pure (.inl ((k.tcb t).timeoutNext, timeoutExpire t k))
      else pure (.inr k)

def osProcessTimeouts (k : Kernel) : Comp Kernel := do
  let k ← expireLoop k.gTick (k.gTimeoutQueue.head, k)
  pure (scheduleAndTrigger k)

def osTaskBlockLocked (waitQueue : QueueRef) (timeoutTicks : Word) (priorityOrdered : Bool)
    (k : Kernel) : Comp Kernel :=
  match k.gCurrent with
  | none => pure k
  | some cur => do
    let k := osReadyQueueRemove cur k
    let k := k.setTcb cur fun c =>
      { c with state := .blocked, waitQueue := some waitQueue
               wakeTick := osWaitForever, waitResult := 0 }
    let k ←
      if priorityOrdered then osTaskQueueInsertByPriority waitQueue cur k
      else pure (osTaskQueueAdd waitQueue cur k)
    let k ←
      if timeoutTicks ≠ osWaitForever then
        osTimeoutQueueInsertSorted cur
          (k.setTcb cur fun c => { c with wakeTick := k.gTick + timeoutTicks })
      else pure k
    pure (scheduleAndTrigger k)

def osTaskWakeOneLocked (waitQueue : QueueRef) (k : Kernel) : Option TaskId × Kernel :=
  match osTaskQueuePopHead waitQueue k with
  | (none, k) => (none, k)
  | (some t, k) =>
    let k := if (k.tcb t).wakeTick ≠ osWaitForever then osTimeoutQueueRemove t k else k
    let k := k.setTcb t fun c =>
      { c with waitQueue := none, wakeTick := osWaitForever, waitResult := 0, state := .ready }
    (some t, osReadyQueueAdd t k)

def osTaskSetPriority (t : TaskId) (newPriority : Priority) (k : Kernel) : Comp Kernel :=
  let k :=
    if (k.tcb t).state = .ready ∨ (k.tcb t).state = .running then
      osReadyQueueAdd t ((osReadyQueueRemove t k).setTcb t fun c => { c with priority := newPriority })
    else k.setTcb t fun c => { c with priority := newPriority }
  match (k.tcb t).state, (k.tcb t).waitQueue with
  | .blocked, some q => osTaskQueueInsertByPriority q t (osTaskQueueRemove q t k)
  | _, _ => pure k

def osCommitSwitch (k : Kernel) : Kernel :=
  match k.gNext with
  | none => k
  | some n =>
    let k : Kernel := match k.gCurrent with
      | some prev =>
        if prev ≠ n ∧ (k.tcb prev).state = .running then
          k.setTcb prev fun c => { c with state := .ready }
        else k
      | none => k
    { k with gCurrent := some n }.setTcb n fun c => { c with state := .running }

end Rtos

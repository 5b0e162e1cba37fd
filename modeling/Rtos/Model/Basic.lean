import Rtos.Kernel.Run
import Rtos.Lib.Insert

/-! The kernel with its queues as plain lists: what the scheduler is for, with no
links and no walks. The mutex lists stay chains of pointers, as the source keeps
them, because they need not be lists at all. -/

namespace Rtos

open Lib

structure Model extends Globals where
  tcb : TaskId → TcbData
  list : QueueRef → List TaskId
  timeouts : List TaskId

namespace Model

def setTcb (a : Model) (t : TaskId) (f : TcbData → TcbData) : Model :=
  { a with tcb := Function.update a.tcb t (f (a.tcb t)) }

def setList (a : Model) (q : QueueRef) (f : List TaskId → List TaskId) : Model :=
  { a with list := Function.update a.list q (f (a.list q)) }

def setMutex (a : Model) (m : MutexId) (f : Mutex → Mutex) : Model :=
  { a with mutex := Function.update a.mutex m (f (a.mutex m)) }

def add (q : QueueRef) (t : TaskId) (a : Model) : Model := a.setList q (· ++ [t])

def remove (q : QueueRef) (t : TaskId) (a : Model) : Model := a.setList q (·.erase t)

def insertByPriority (q : QueueRef) (t : TaskId) (a : Model) : Model :=
  a.setList q (insertWhile (fun i => (a.tcb i).priority ≤ (a.tcb t).priority) t)

def rotate (tcb : Option TaskId) (a : Model) : Model :=
  match tcb with
  | none => a
  | some t =>
    let q := QueueRef.ready (a.tcb t).priority
    if (a.list q).head? = some t then a.setList q (fun l => l.tail ++ [t]) else a

def firstReady (a : Model) : Option TaskId :=
  (List.finRange numPriorities).findSome? fun p => (a.list (.ready p)).head?

def schedule (a : Model) : Model := { a with gNext := a.firstReady }

def trigger (a : Model) : Model := { a with pendsv := true }

def reschedule (a : Model) : Model :=
  if a.firstReady ≠ a.gCurrent then a.schedule.trigger else a.schedule

def readyAdd (t : TaskId) (a : Model) : Model := a.add (.ready (a.tcb t).priority) t

def readyRemove (t : TaskId) (a : Model) : Model := a.remove (.ready (a.tcb t).priority) t

def timeoutInsert (t : TaskId) (a : Model) : Model :=
  { a with timeouts :=
      insertWhile (fun i => !osTickReached (a.tcb i).wakeTick (a.tcb t).wakeTick) t a.timeouts }

def timeoutRemove (t : TaskId) (a : Model) : Model := { a with timeouts := a.timeouts.erase t }

def expire (t : TaskId) (a : Model) : Model :=
  let a := a.timeoutRemove t
  let a := match (a.tcb t).waitQueue with
    | some q => (a.remove q t).setTcb t fun c => { c with waitQueue := none }
    | none => a
  let a := a.setTcb t fun c =>
    { c with wakeTick := osWaitForever, waitResult := -1, state := .ready }
  a.readyAdd t

def expireAll (now : Word) : List TaskId → Model → Model
  | [], a => a
  | t :: l, a =>
    if osTickReached now (a.tcb t).wakeTick then expireAll now l (a.expire t) else a

def processTimeouts (a : Model) : Model := (expireAll a.gTick a.timeouts a).reschedule

/-- The current task leaves the ready queues for `q`. -/
def enqueue (cur : TaskId) (q : QueueRef) (ordered : Bool) (a : Model) : Model :=
  let a := (a.readyRemove cur).setTcb cur fun c =>
    { c with state := .blocked, waitQueue := some q, wakeTick := osWaitForever, waitResult := 0 }
  if ordered then a.insertByPriority q cur else a.add q cur

def sleepUntil (cur : TaskId) (ticks : Word) (a : Model) : Model :=
  if ticks ≠ osWaitForever then
    (a.setTcb cur fun c => { c with wakeTick := a.gTick + ticks }).timeoutInsert cur
  else a

def block (q : QueueRef) (ticks : Word) (ordered : Bool) (a : Model) : Model :=
  match a.gCurrent with
  | none => a
  | some cur => ((a.enqueue cur q ordered).sleepUntil cur ticks).reschedule

/-- A task taken off a wait queue becomes ready. -/
def wake (q : QueueRef) (t : TaskId) (a : Model) : Model :=
  let a := a.remove q t
  let a := if (a.tcb t).wakeTick ≠ osWaitForever then a.timeoutRemove t else a
  let a := a.setTcb t fun c =>
    { c with waitQueue := none, wakeTick := osWaitForever, waitResult := 0, state := .ready }
  a.readyAdd t

def setPriority (t : TaskId) (p : Priority) (a : Model) : Model :=
  match (a.tcb t).state, (a.tcb t).waitQueue with
  | .blocked, some q =>
    ((a.setTcb t fun c => { c with priority := p }).remove q t).insertByPriority q t
  | .blocked, none => a.setTcb t fun c => { c with priority := p }
  | _, _ => ((a.readyRemove t).setTcb t fun c => { c with priority := p }).readyAdd t

/-- The state of a task once `n` is committed. -/
def commitState (cur : Option TaskId) (n u : TaskId) (s : TaskState) : TaskState :=
  if u = n then .running else if cur = some u ∧ s = .running then .ready else s

def commit (a : Model) : Model :=
  match a.gNext with
  | none => a
  | some n =>
    { a with gCurrent := some n, tcb := fun u =>
        { a.tcb u with state := commitState a.gCurrent n u (a.tcb u).state } }

def semTake (sem : Option SemId) (a : Model) : ℤ × Model :=
  match sem with
  | none => (-1, a)
  | some s =>
    if 0 < a.semCount s then
      (0, { a with semCount := Function.update a.semCount s (i32 (a.semCount s - 1)) })
    else (0, a.block (.sem s) osWaitForever false)

def semGive (sem : Option SemId) (a : Model) : ℤ × Model :=
  match sem with
  | none => (-1, a)
  | some s =>
    match a.list (.sem s) with
    | t :: _ => (0, (a.wake (.sem s) t).reschedule)
    | [] => (0, { a with semCount := Function.update a.semCount s (i32 (a.semCount s + 1)) })

def addToOwned (t : TaskId) (m : MutexId) (a : Model) : Model :=
  (a.setMutex m fun x => { x with nextMutex := (a.tcb t).ownedMutexes }).setTcb t fun c =>
    { c with ownedMutexes := some m }

/-- Drops `m` from behind the link `ownedFind` found. -/
def dropOwned (t : TaskId) (m : MutexId) (found : Option (Option MutexId)) (a : Model) : Model :=
  match found with
  | none => a
  | some prev =>
    let after := (a.mutex m).nextMutex
    let a := match prev with
      | none => a.setTcb t fun c => { c with ownedMutexes := after }
      | some p => a.setMutex p fun x => { x with nextMutex := after }
    a.setMutex m fun x => { x with nextMutex := none }

def removeFromOwned (t : TaskId) (m : MutexId) (a : Model) : Comp Model := do
  let found ← ownedFind (fun c => (a.mutex c).nextMutex) m (none, (a.tcb t).ownedMutexes)
  pure (a.dropOwned t m found)

def recomputePriority (t : TaskId) (a : Model) : Comp Priority :=
  recomputeWalk (fun m => (a.mutex m).nextMutex)
    (fun m => (a.list (.mutex m)).head?.map fun w => (a.tcb w).priority)
    ((a.tcb t).ownedMutexes, (a.tcb t).basePriority)

def inheritStep (cur : TaskId) : Option TaskId × Model → (Option TaskId × Model) ⊕ Model
  | (none, a) => .inr a
  | (some o, a) =>
    if (a.tcb cur).priority < (a.tcb o).priority then
      let a := a.setPriority o (a.tcb cur).priority
      match (a.tcb o).state, (a.tcb o).blockedOn with
      | .blocked, some m => .inl ((a.mutex m).owner, a)
      | _, _ => .inr a
    else .inr a

def inherit (cur : TaskId) : Option TaskId × Model → Comp Model :=
  Comp.loop fun s => pure (inheritStep cur s)

def mutexLock (mutex : Option MutexId) (a : Model) : Comp (ℤ × Model) :=
  match mutex with
  | none => pure (-1, a)
  | some m => do
    let cur ← Comp.ofOption a.gCurrent
    match (a.mutex m).owner with
    | none => pure (0, (a.setMutex m fun x => { x with owner := some cur }).addToOwned cur m)
    | some o =>
      if o = cur then pure (-1, a)
      else
        let a ← inherit cur (some o, a.setTcb cur fun c => { c with blockedOn := some m })
        let a := a.block (.mutex m) osWaitForever true
        pure (0, (a.setTcb cur fun c => { c with blockedOn := none }).addToOwned cur m)

/-- The rest of an unlock, once the owner's list and priority are settled. -/
def handOff (m : MutexId) (a : Model) : Model :=
  match a.list (.mutex m) with
  | t :: _ => ((a.wake (.mutex m) t).setMutex m fun x => { x with owner := some t }).reschedule
  | [] => a.setMutex m fun x => { x with owner := none }

def mutexUnlock (mutex : Option MutexId) (a : Model) : Comp (ℤ × Model) :=
  match mutex with
  | none => pure (-1, a)
  | some m => do
    if (a.mutex m).owner ≠ a.gCurrent then pure (-1, a)
    else
      let cur ← Comp.ofOption a.gCurrent
      let a ← a.removeFromOwned cur m
      let p ← a.recomputePriority cur
      pure (0, (a.setPriority cur p).handOff m)

def yieldCpu (a : Model) : Model := (a.rotate a.gCurrent).schedule.trigger

def delayTicks (ticks : Word) (a : Model) : Model :=
  if ticks = 0 then a.yieldCpu else a.block .sleep ticks false

def sysTick (a : Model) : Model :=
  let a := processTimeouts { a with gTick := a.gTick + 1 }
  (a.rotate a.gCurrent).reschedule

def spMem (a : Model) : ℕ → ℕ := fun t => (a.tcb t).sp

def withSpMem (a : Model) (mem : ℕ → ℕ) : Model :=
  { a with tcb := fun t => { a.tcb t with sp := mem t } }

def kobjAlloc (size : ℕ) (a : Model) : ℕ × Model :=
  if size = 0 ∨ osKernelObjectBlockSize < size then (0, a)
  else
    let r := osMempoolAlloc a.spMem a.gKernelObjectPool
    (r.1, { a with gKernelObjectPool := r.2 })

def kobjFree (ptr : ℕ) (a : Model) : ℤ × Model :=
  let r := osMempoolFree a.spMem a.gKernelObjectPool ptr
  (r.1, { a.withSpMem r.2.1 with gKernelObjectPool := r.2.2 })

def kstackAlloc (stackWords : ℕ) (a : Model) : ℕ × Model :=
  if stackWords = 0 ∨ osTaskStackWords < stackWords then (0, a)
  else
    let r := osMempoolAlloc a.stackMem a.gUserStackPool
    (r.1, { a with gUserStackPool := r.2 })

def createInternal (t : TaskId) (priority : Priority) (entry arg stackMem stackWords : ℕ)
    (a : Model) : Model :=
  let frame := buildFrame a.layout entry arg stackMem stackWords a.stackMem
  { a with stackMem := frame.2 }.setTcb t fun _ => newTcbData frame.1 priority

/-- The new task enters its ready queue; before `os_start` there is nothing to preempt. -/
def enroll (t : TaskId) (a : Model) : Model :=
  let a := { a with tasks := a.tasks ++ [t] }.readyAdd t
  if a.gCurrent ≠ none ∧ a.firstReady ≠ a.gCurrent then a.schedule.trigger else a.schedule

def taskCreate (args : Option TaskCreateArgs) (a : Model) : ℤ × Model :=
  match args with
  | none => (-1, a)
  | some args =>
    if args.entry = 0 then (-1, a)
    else if h : args.priority < numPriorities then
      let tcb := a.kobjAlloc sizeofTcb
      if tcb.1 = 0 then (-1, tcb.2)
      else
        let stackMem := tcb.2.kstackAlloc args.stackWords
        if stackMem.1 = 0 then (-1, (stackMem.2.kobjFree tcb.1).2)
        else
          (0, (stackMem.2.createInternal tcb.1 ⟨args.priority, h⟩ args.entry args.arg stackMem.1
            args.stackWords).enroll tcb.1)
    else (-1, a)

def dispatch (a : Model) : Syscall → Comp (ℤ × Model)
  | .yield => pure (0, a.yieldCpu)
  | .delayTicks ticks => pure (0, a.delayTicks ticks)
  | .semTake s => pure (a.semTake s)
  | .semGive s => pure (a.semGive s)
  | .mutexLock m => a.mutexLock m
  | .mutexUnlock m => a.mutexUnlock m
  | .taskCreate args => pure (a.taskCreate args)
  | .unrecognized => pure (-1, a)

def exec (a : Model) : Entry → Comp (ℤ × Model)
  | .svc c => a.dispatch c
  | .sysTick => pure (0, a.sysTick)
  | .pendSV => pure (0, commit { a with pendsv := false })

end Model
end Rtos

import Rtos.Kernel.Sync

/-! `kernel/kalloc.c`, `kernel/task.c` and the boot sequence of `kernel/main.c`.
A free block of the kernel object pool keeps its list link in its first word, and
that word is `sp` once the block holds a task. -/

namespace Rtos

open Lib

def osKernelObjectBlockSize : ℕ := 64
def osTaskStackWords : ℕ := 256
def sizeofTcb : ℕ := 52

structure TaskCreateArgs where
  priority : ℕ
  entry : ℕ
  arg : ℕ
  stackWords : ℕ
  deriving DecidableEq

/-- The first words of the kernel object blocks. -/
def Kernel.spMem (k : Kernel) : ℕ → ℕ := fun a => (k.tcb a).sp

def Kernel.withSpMem (k : Kernel) (mem : ℕ → ℕ) : Kernel :=
  { k with tcb := fun a => { k.tcb a with sp := mem a } }

def osKallocInit (k : Kernel) : Kernel :=
  let objects := osMempoolInit k.spMem k.gKernelObjectPool k.layout.kernelObjectBase
    (osMempoolAlignUp (BitVec.ofNat 32 osKernelObjectBlockSize) 4).toNat k.layout.kernelObjectCount
  let stackBlocks := osMempoolInit k.stackMem k.gUserStackPool k.layout.userStackBase
    (osMempoolAlignUp (BitVec.ofNat 32 (4 * osTaskStackWords)) 4).toNat k.layout.taskStackCount
  { k.withSpMem objects.1 with
    gKernelObjectPool := objects.2, stackMem := stackBlocks.1, gUserStackPool := stackBlocks.2 }

def osKobjAlloc (size : ℕ) (k : Kernel) : ℕ × Kernel :=
  if size = 0 ∨ osKernelObjectBlockSize < size then (0, k)
  else
    let r := osMempoolAlloc k.spMem k.gKernelObjectPool
    (r.1, { k with gKernelObjectPool := r.2 })

def osKobjFree (ptr : ℕ) (k : Kernel) : ℤ × Kernel :=
  let r := osMempoolFree k.spMem k.gKernelObjectPool ptr
  (r.1, { k.withSpMem r.2.1 with gKernelObjectPool := r.2.2 })

def osKstackAlloc (stackWords : ℕ) (k : Kernel) : ℕ × Kernel :=
  if stackWords = 0 ∨ osTaskStackWords < stackWords then (0, k)
  else
    let r := osMempoolAlloc k.stackMem k.gUserStackPool
    (r.1, { k with gUserStackPool := r.2 })

/-- `*(--sp) = w`. -/
def pushWord (s : ℕ × (ℕ → ℕ)) (w : ℕ) : ℕ × (ℕ → ℕ) :=
  let sp := u32 (s.1 + (2 ^ 32 - 4))
  (sp, Function.update s.2 sp w)

/-- The words of the initial frame in the order they are pushed: xPSR, PC, LR,
R12, R3, R2, R1, R0, then R11 down to R4. -/
def initialFrame (l : Layout) (entry arg : ℕ) : List ℕ :=
  [0x01000000, l.osTaskStartTrampoline, l.osTaskExitTrap, 0, 0, 0, entry, arg,
    0, 0, 0, 0, 0, 0, 0, 0]

/-- `sp` rounded down to eight bytes, then the frame pushed below it. -/
def buildFrame (l : Layout) (entry arg stackMem stackWords : ℕ) (mem : ℕ → ℕ) :
    ℕ × (ℕ → ℕ) :=
  let top := u32 (stackMem + 4 * stackWords)
  (initialFrame l entry arg).foldl pushWord (top - top % 8, mem)

/-- The data of a task `os_task_create_internal` has set up. -/
def newTcbData (sp : ℕ) (priority : Priority) : TcbData where
  sp := sp
  basePriority := priority
  priority := priority
  state := .ready
  waitQueue := none
  ownedMutexes := none
  blockedOn := none
  wakeTick := 0
  waitResult := 0

def osTaskCreateInternal (t : TaskId) (priority : Priority) (entry arg stackMem stackWords : ℕ)
    (k : Kernel) : Kernel :=
  let frame := buildFrame k.layout entry arg stackMem stackWords k.stackMem
  { k with stackMem := frame.2 }.setTcb t fun _ =>
    { newTcbData frame.1 priority with
      next := none, prev := none, timeoutNext := none, timeoutPrev := none }

def osKernelTaskCreate (args : Option TaskCreateArgs) (k : Kernel) : ℤ × Kernel :=
  match args with
  | none => (-1, k)
  | some args =>
    if args.entry = 0 then (-1, k)
    else if h : args.priority < numPriorities then
      let tcb := osKobjAlloc sizeofTcb k
      if tcb.1 = 0 then (-1, tcb.2)
      else
        let stackMem := osKstackAlloc args.stackWords tcb.2
        if stackMem.1 = 0 then (-1, (osKobjFree tcb.1 stackMem.2).2)
        else
          let k := osTaskCreateInternal tcb.1 ⟨args.priority, h⟩ args.entry args.arg stackMem.1
            args.stackWords stackMem.2
          let k := osSchedule (osReadyQueueAdd tcb.1 { k with tasks := k.tasks ++ [tcb.1] })
          if k.gCurrent ≠ none ∧ k.gNext ≠ k.gCurrent then (0, osPortPendsvTrigger k) else (0, k)
    else (-1, k)

/-- `os_start` up to the first PendSV. With no task to run it spins for ever. -/
def osStart (k : Kernel) : Option Kernel :=
  let k := osSchedule k
  let k := { k with gCurrent := k.gNext }
  if k.gCurrent = none then none else some (osPortPendsvTrigger k)

end Rtos

import Rtos.Lib.Comp
import Rtos.Lib.Dll
import Rtos.Kernel.Mempool

/-! The kernel's data. A pointer is an `Option` of the object's address, and each
kind of object has its own heap. A queue that is a field of a semaphore or a mutex
is reached, as in the source, through a pointer to that field: `QueueRef` lists
the places where an `os_task_queue_t` can live. -/

namespace Rtos

open Lib

abbrev Word := BitVec 32

abbrev Byte := BitVec 8

/-- What a queue carries: the bytes of one message. -/
abbrev Message := List Byte

abbrev TaskId := ℕ
abbrev SemId := ℕ
abbrev MutexId := ℕ

abbrev numPriorities : ℕ := 4

/-- `os_task_priority_t`: numerically smaller is more urgent. -/
abbrev Priority := Fin numPriorities

def osTaskHigh : Priority := 0
def osTaskMedium : Priority := 1
def osTaskLow : Priority := 2
def osTaskIdle : Priority := 3

def osWaitForever : Word := BitVec.allOnes 32

inductive TaskState
  | ready
  | running
  | blocked
  deriving DecidableEq, Repr

abbrev TaskQueue := Ends TaskId

inductive QueueRef
  | ready (p : Priority)
  | sleep
  | sem (s : SemId)
  | mutex (m : MutexId)
  deriving DecidableEq

def QueueRef.isWait : QueueRef → Bool
  | .ready _ => false
  | _ => true

/-- The fields of `os_tcb_t` other than its queue links. -/
structure TcbData where
  sp : ℕ
  basePriority : Priority
  priority : Priority
  state : TaskState
  waitQueue : Option QueueRef
  ownedMutexes : Option MutexId
  blockedOn : Option MutexId
  wakeTick : Word
  waitResult : ℤ

structure Tcb extends TcbData where
  next : Option TaskId
  prev : Option TaskId
  timeoutNext : Option TaskId
  timeoutPrev : Option TaskId

/-- `os_mutex_t` less its `waiters`, which are the queue `.mutex m`. -/
structure Mutex where
  owner : Option TaskId
  nextMutex : Option MutexId

/-- What the linker and `kalloc.h` fix: the two pools and the code addresses a
task's first frame holds. -/
structure Layout where
  kernelObjectBase : ℕ
  kernelObjectCount : ℕ := 32
  userStackBase : ℕ
  taskStackCount : ℕ := 8
  osIdleTask : ℕ
  osTaskStartTrampoline : ℕ
  osTaskExitTrap : ℕ

/-- Kernel globals and synchronisation objects, less the queues. `tasks` is not
in the source: it records the tasks whose creation succeeded, oldest first. -/
structure Globals where
  semCount : SemId → ℤ
  mutex : MutexId → Mutex
  gCurrent : Option TaskId
  gNext : Option TaskId
  gTick : Word
  pendsv : Bool
  gKernelObjectPool : Mempool
  gUserStackPool : Mempool
  stackMem : ℕ → ℕ
  layout : Layout
  tasks : List TaskId

structure Kernel extends Globals where
  tcb : TaskId → Tcb
  queue : QueueRef → TaskQueue
  gTimeoutQueue : TaskQueue

/-- The idle task is the one `os_boot_main` creates first. -/
def Globals.idle (g : Globals) : Option TaskId := g.tasks.head?

namespace Kernel

def setTcb (k : Kernel) (t : TaskId) (f : Tcb → Tcb) : Kernel :=
  { k with tcb := Function.update k.tcb t (f (k.tcb t)) }

/-- Writes through a pointer the source has tested, and leaves the heap alone if it is null. -/
def atPtr (k : Kernel) (p : Option TaskId) (f : Tcb → Tcb) : Kernel :=
  match p with
  | some t => k.setTcb t f
  | none => k

def setQueue (k : Kernel) (q : QueueRef) (f : TaskQueue → TaskQueue) : Kernel :=
  { k with queue := Function.update k.queue q (f (k.queue q)) }

def setMutex (k : Kernel) (m : MutexId) (f : Mutex → Mutex) : Kernel :=
  { k with mutex := Function.update k.mutex m (f (k.mutex m)) }

/-- The two pairs of intrusive links, as the heaps of nodes they are. -/
def links (k : Kernel) : Links TaskId := ⟨fun t => (k.tcb t).next, fun t => (k.tcb t).prev⟩

def timeoutLinks (k : Kernel) : Links TaskId :=
  ⟨fun t => (k.tcb t).timeoutNext, fun t => (k.tcb t).timeoutPrev⟩

end Kernel
end Rtos

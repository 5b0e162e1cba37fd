import Rtos.Kernel.Types
import Rtos.Lib.Ring

/-! `kernel/lfqueue.c` with one producer and one consumer, used as the tasks of
`app/app_main.c` use it. A step is one atomic load or store of an index, or one access
to a slot; what lies between two of them touches no shared memory. -/

namespace Rtos

open Lib

structure OsSpscQueue where
  storage : Word
  msgSize : Word
  capacity : Word
  readIndex : Word
  writeIndex : Word

def lfqueueNextIndex (queue : OsSpscQueue) (index : Word) : Word :=
  if index + 1 = queue.capacity then 0 else index + 1

/-- The address 0 is `NULL`. -/
def lfqueueInit (storage msgSize capacity : Word) (queue : OsSpscQueue) : ℤ × OsSpscQueue :=
  if storage = 0 ∨ msgSize = 0 ∨ capacity < 2 then (-1, queue)
  else (0, { storage, msgSize, capacity, readIndex := 0, writeIndex := 0 })

/-- `get_write_location`, given what its two loads return. -/
def getWriteLocation (queue : OsSpscQueue) (writeIndex readIndex : Word) : Word :=
  -- one slot stays free: with it taken, full would look like empty
  if lfqueueNextIndex queue writeIndex = readIndex then 0
  else slotAddr queue.storage queue.msgSize writeIndex

/-- `get_read_location`, given what its two loads return. -/
def getReadLocation (queue : OsSpscQueue) (readIndex writeIndex : Word) : Word :=
  if readIndex = writeIndex then 0 else slotAddr queue.storage queue.msgSize readIndex

/-- Where the producer stands: in `get_write_location` after its first load, with a slot
to write, before `update_write_index`, and in it after its load. -/
inductive Producer
  | start
  | loaded (writeIndex : Word)
  | writing (slot : Word)
  | update (msg : Message)
  | publish (writeIndex : Word) (msg : Message)

inductive Consumer
  | start
  | loaded (readIndex : Word)
  | reading (slot : Word)
  | update (msg : Message)
  | release (readIndex : Word) (msg : Message)

structure Spsc where
  queue : OsSpscQueue
  mem : Word → Byte
  producer : Producer
  consumer : Consumer

/-- What a step does. `full` and `empty` are the loads of the other side's index after
which `NULL` is returned. -/
inductive SpscEvent
  | load
  | full
  | wrote (slot : Word) (msg : Message)
  | published (msg : Message)
  | empty
  | read (slot : Word) (msg : Message)
  | released (msg : Message)

namespace Spsc

/-- The next step of the producer; `msg` is what it has to send. -/
def producerStep (msg : Message) (s : Spsc) : SpscEvent × Spsc :=
  match s.producer with
  | .start => (.load, { s with producer := .loaded s.queue.writeIndex })
  | .loaded w =>
    let slot := getWriteLocation s.queue w s.queue.readIndex
    if slot = 0 then (.full, { s with producer := .start })
    else (.load, { s with producer := .writing slot })
  | .writing slot =>
    (.wrote slot msg, { s with mem := storeBytes s.mem slot msg, producer := .update msg })
  | .update msg => (.load, { s with producer := .publish s.queue.writeIndex msg })
  | .publish w msg =>
    (.published msg, { s with
      queue := { s.queue with writeIndex := lfqueueNextIndex s.queue w }, producer := .start })

def consumerStep (s : Spsc) : SpscEvent × Spsc :=
  match s.consumer with
  | .start => (.load, { s with consumer := .loaded s.queue.readIndex })
  | .loaded r =>
    let slot := getReadLocation s.queue r s.queue.writeIndex
    if slot = 0 then (.empty, { s with consumer := .start })
    else (.load, { s with consumer := .reading slot })
  | .reading slot =>
    let msg := loadBytes s.mem slot s.queue.msgSize.toNat
    (.read slot msg, { s with consumer := .update msg })
  | .update msg => (.load, { s with consumer := .release s.queue.readIndex msg })
  | .release r msg =>
    (.released msg, { s with
      queue := { s.queue with readIndex := lfqueueNextIndex s.queue r }, consumer := .start })

end Spsc

/-- Any interleaving of the two, from a queue as `lfqueue_init` leaves it. -/
inductive SpscRun (queue : OsSpscQueue) (mem : Word → Byte) : List SpscEvent → Spsc → Prop
  | init : SpscRun queue mem [] ⟨queue, mem, .start, .start⟩
  | producer {es : List SpscEvent} {s : Spsc} {msg : Message} : SpscRun queue mem es s →
      msg.length = s.queue.msgSize.toNat →
      SpscRun queue mem (es ++ [(s.producerStep msg).1]) (s.producerStep msg).2
  | consumer {es : List SpscEvent} {s : Spsc} : SpscRun queue mem es s →
      SpscRun queue mem (es ++ [s.consumerStep.1]) s.consumerStep.2

/-! The history of a run. -/

/-- The messages written, with the slots they went to. -/
def writes (es : List SpscEvent) : List (Word × Message) :=
  es.filterMap fun
    | .wrote slot msg => some (slot, msg)
    | _ => none

def reads (es : List SpscEvent) : List (Word × Message) :=
  es.filterMap fun
    | .read slot msg => some (slot, msg)
    | _ => none

/-- What a FIFO would have seen: a message is in once the write index is stored, and
out once the read index is. -/
def fifoOps (es : List SpscEvent) : List (Fifo.Op Message) :=
  es.filterMap fun
    | .published msg => some (.enq msg)
    | .released msg => some (.deq msg)
    | .full => some .full
    | .empty => some .empty
    | _ => none

end Rtos

import Rtos.Kernel.Lfqueue
import Rtos.Kernel.Program

/-! `app/app_main.c`: one task sends 1, 2, 3 and so on through the lock-free queue, the other
checks that they come in this order, and both write the time of each message to RTT. -/

namespace Rtos

/-- A `uint32_t` in memory, the lowest byte first. -/
def wordBytes (v : Word) : Message :=
  [v.extractLsb' 0 8, v.extractLsb' 8 8, v.extractLsb' 16 8, v.extractLsb' 24 8]

def wordOfBytes : Message → Word
  | [b0, b1, b2, b3] => b3 ++ b2 ++ b1 ++ b0
  | _ => 0

def asciiBytes (text : String) : List Byte := text.toList.map fun c => BitVec.ofNat 8 c.toNat

/-- The first loop of `u32_to_str`; `tmp` are the entries written so far, and there is no eleventh. -/
def u32ToStrLoop (value : Word) (tmp : List Byte) : Option (List Byte) :=
  if 0 < value then
    if tmp.length < 10 then
      u32ToStrLoop (value / 10) (tmp ++ [0x30 + (value % 10).setWidth 8])
    else none
  else some tmp
termination_by value.toNat
decreasing_by
  have h : 0 < value.toNat := ‹0 < value›
  have hdiv : (value / 10).toNat = value.toNat / 10 := rfl
  omega

/-- `u32_to_str`: what it writes to `out`. -/
def u32ToStr (value : Word) : Option (List Byte) :=
  if value = 0 then some [0x30]
  else
    (u32ToStrLoop value []).map fun tmp =>
      (List.range tmp.length).map fun i => tmp.getD (tmp.length - 1 - i) 0

/-- The application's globals. `clock` is what the cycle counter will show each time it is read. Not
in the source are `rttCalls`, the texts given to `os_rtt_write` so far, and `events`, what the
accesses to the queue did so far. -/
structure MainState where
  gReachedMain : Word
  spsc : Spsc
  gTask1Sent : Word
  gTask2Recv : Word
  gLastSent : Word
  gLastRecv : Word
  gErrorCount : Word
  clock : ℕ → Word
  rttCalls : List (List Byte)
  events : List SpscEvent

namespace MainState

def access (r : SpscEvent × Spsc) (s : MainState) : MainState :=
  { s with spsc := r.2, events := s.events ++ [r.1] }

def write (text : List Byte) (s : MainState) : MainState :=
  { s with rttCalls := s.rttCalls ++ [text] }

end MainState

/-- The lines of `task0`; `send` stands for the accesses to the queue, one after the other. -/
inductive SendLine
  | firstDelay
  | lastSent
  | send
  | clock
  | puts (now : Word)
  | write (now : Word)
  | count
  | rest

/-- The lines of `task1`. -/
inductive RecvLine
  | recv
  | clock (value : Word)
  | puts (value now : Word)
  | write (value now : Word)
  | lastRecv (value : Word)
  | count (value : Word)
  | check (value : Word)
  | rest

/-- A place in the code, with the variable that each task keeps over its rounds. -/
inductive MainPc
  | idle
  | task0 (value : Word) (line : SendLine)
  | task1 (expected : Word) (line : RecvLine)

def afterProducer (value : Word) : SpscEvent → MainPc
  | .full => .task0 value .rest
  | .published _ => .task0 value .clock
  | _ => .task0 value .send

def afterConsumer (expected : Word) : SpscEvent → MainPc
  | .empty => .task1 expected .rest
  | .released msg => .task1 expected (.clock (wordOfBytes msg))
  | _ => .task1 expected .recv

def mainCode : MainPc → Instr MainState MainPc
  | .idle => .work fun s => (s, .idle)
  | .task0 value .firstDelay => .call (fun _ => .delayTicks 50) fun _ => .task0 value .lastSent
  | .task0 value .lastSent => .work fun s => ({ s with gLastSent := value }, .task0 value .send)
  | .task0 value .send => .work fun s =>
    let r := s.spsc.producerStep (wordBytes value)
    (s.access r, afterProducer value r.1)
  | .task0 value .clock => .work fun s =>
    ({ s with clock := fun i => s.clock (i + 1) }, .task0 value (.puts (s.clock 0)))
  | .task0 value (.puts now) => .work fun s =>
    (s.write (asciiBytes "Sent: "), .task0 value (.write now))
  | .task0 value (.write now) => .work fun s =>
    (s.write ((u32ToStr now).getD []), .task0 value .count)
  | .task0 value .count => .work fun s =>
    ({ s with gTask1Sent := s.gTask1Sent + 1 }, .task0 (value + 1) .rest)
  | .task0 value .rest => .call (fun _ => .delayTicks 10) fun _ => .task0 value .lastSent
  | .task1 expected .recv => .work fun s =>
    let r := s.spsc.consumerStep
    (s.access r, afterConsumer expected r.1)
  | .task1 expected (.clock value) => .work fun s =>
    ({ s with clock := fun i => s.clock (i + 1) }, .task1 expected (.puts value (s.clock 0)))
  | .task1 expected (.puts value now) => .work fun s =>
    (s.write (asciiBytes "Received: "), .task1 expected (.write value now))
  | .task1 expected (.write value now) => .work fun s =>
    (s.write ((u32ToStr now).getD []), .task1 expected (.lastRecv value))
  | .task1 expected (.lastRecv value) => .work fun s =>
    ({ s with gLastRecv := value }, .task1 expected (.count value))
  | .task1 expected (.count value) => .work fun s =>
    ({ s with gTask2Recv := s.gTask2Recv + 1 }, .task1 expected (.check value))
  | .task1 expected (.check value) => .work fun s =>
    if value ≠ expected then
      ({ s with gErrorCount := s.gErrorCount + 1 }, .task1 (value + 1) .rest)
    else (s, .task1 (expected + 1) .rest)
  | .task1 expected .rest => .call (fun _ => .delayTicks 15) fun _ => .task1 expected .recv

/-- Where the linker has put the storage of the queue and the two functions. -/
structure MainLinks where
  gQueueStorage : Word
  task0 : ℕ
  task1 : ℕ
  distinct : [0, task0, task1].Nodup
  storage : gQueueStorage ≠ 0
  fits : gQueueStorage.toNat + 32 ≤ 2 ^ 32

def mainProgram (x : MainLinks) : Program MainState MainPc where
  code := mainCode
  start e :=
    if e = x.task0 then .task0 1 .firstDelay
    else if e = x.task1 then .task1 1 .recv
    else .idle

def mainCreates (x : MainLinks) : List TaskCreateArgs :=
  [⟨osTaskMedium, x.task0, 0, 256⟩, ⟨osTaskMedium, x.task1, 1, 256⟩]

/-- `.bss` before `os_boot_main`; the queue is initialised by `os_app_main`. -/
def MainState.boot (x : MainLinks) (clock : ℕ → Word) (mem : Word → Byte) : MainState :=
  { gReachedMain := 0xA5A5A5A5
    spsc := ⟨(lfqueueInit x.gQueueStorage 4 8 ⟨0, 0, 0, 0, 0⟩).2, mem, .start, .start⟩
    gTask1Sent := 0
    gTask2Recv := 0
    gLastSent := 0
    gLastRecv := 0
    gErrorCount := 0
    clock := clock
    rttCalls := []
    events := [] }

/-- The system that `os_app_main` starts, on any layout with room for its tasks. -/
structure MainBoot (x : MainLinks) (b : Boot) : Prop where
  creates : b.creates = (mainCreates x).map some
  idle : b.layout.osIdleTask ∉ [x.task0, x.task1]
  objects : 3 ≤ b.layout.kernelObjectCount
  stackBlocks : 3 ≤ b.layout.taskStackCount

end Rtos

import Rtos.Kernel.Program

/-! `app/pi_test.c`: a low task locks a mutex and then creates a high task, which wants it, and a
medium one, which only burns time. -/

namespace Rtos

def piBusyIters : Word := 50000

/-- The application's globals and the counter of `pi_low_task`. -/
structure PiState where
  gPiLowLocked : Word
  gPiLowDone : Word
  gPiMediumSpins : Word
  gPiHighAcquired : Word
  i : Word
  deriving DecidableEq

/-- `.bss` is zeroed before `os_boot_main`. -/
def PiState.zero : PiState := ⟨0, 0, 0, 0, 0⟩

inductive PiLow
  | lock
  | locked
  | createHigh
  | createMedium
  | clear
  | test
  | count
  | done
  | unlock
  | spin
  deriving DecidableEq

inductive PiHigh
  | lock
  | acquired
  | unlock
  | spin
  deriving DecidableEq

inductive PiPc
  | idle
  | low (line : PiLow)
  | medium
  | high (line : PiHigh)
  deriving DecidableEq

/-- Where the linker has put the mutex and the functions: no two at one address, none at 0. -/
structure PiLinks where
  gPiMutex : MutexId
  piLowTask : ℕ
  piMediumTask : ℕ
  piHighTask : ℕ
  distinct : [0, piLowTask, piMediumTask, piHighTask].Nodup

def piCode (x : PiLinks) : PiPc → Instr PiState PiPc
  | .idle => .work fun s => (s, .idle)
  | .high .lock => .call (fun _ => .mutexLock (some x.gPiMutex)) fun _ => .high .acquired
  | .high .acquired => .work fun s => ({ s with gPiHighAcquired := 1 }, .high .unlock)
  | .high .unlock => .call (fun _ => .mutexUnlock (some x.gPiMutex)) fun _ => .high .spin
  | .high .spin => .work fun s => (s, .high .spin)
  | .medium => .work fun s => ({ s with gPiMediumSpins := s.gPiMediumSpins + 1 }, .medium)
  | .low .lock => .call (fun _ => .mutexLock (some x.gPiMutex)) fun _ => .low .locked
  | .low .locked => .work fun s => ({ s with gPiLowLocked := 1 }, .low .createHigh)
  | .low .createHigh =>
    .call (fun _ => .taskCreate (some ⟨osTaskHigh, x.piHighTask, 0, 256⟩)) fun _ => .low .createMedium
  | .low .createMedium =>
    .call (fun _ => .taskCreate (some ⟨osTaskMedium, x.piMediumTask, 0, 256⟩)) fun _ => .low .clear
  | .low .clear => .work fun s => ({ s with i := 0 }, .low .test)
  | .low .test => .work fun s => (s, if s.i < piBusyIters then .low .count else .low .done)
  | .low .count => .work fun s => ({ s with i := s.i + 1 }, .low .test)
  | .low .done => .work fun s => ({ s with gPiLowDone := 1 }, .low .unlock)
  | .low .unlock => .call (fun _ => .mutexUnlock (some x.gPiMutex)) fun _ => .low .spin
  | .low .spin => .work fun s => (s, .low .spin)

def piProgram (x : PiLinks) : Program PiState PiPc where
  code := piCode x
  start e :=
    if e = x.piLowTask then .low .lock
    else if e = x.piMediumTask then .medium
    else if e = x.piHighTask then .high .lock
    else .idle

/-- The call of `os_app_main`. -/
def piCreates (x : PiLinks) : List (Option TaskCreateArgs) :=
  [some ⟨osTaskLow, x.piLowTask, 0, 256⟩]

/-- The system that `os_app_main` starts, on any layout with room for its four tasks. -/
structure PiBoot (x : PiLinks) (b : Boot) : Prop where
  creates : b.creates = piCreates x
  idle : b.layout.osIdleTask ∉ [x.piLowTask, x.piMediumTask, x.piHighTask]
  objects : 4 ≤ b.layout.kernelObjectCount
  stackBlocks : 4 ≤ b.layout.taskStackCount

end Rtos

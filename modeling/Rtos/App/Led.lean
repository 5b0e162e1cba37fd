import Rtos.Kernel.Program

/-! `app/app_LED.c`: two tasks with an LED each, and a mutex that both take before they light it. -/

namespace Rtos

/-- The port's registers and the application's counters. -/
structure LedState where
  rccApb2enr : Word
  gpioaCrh : Word
  gpioaOdr : Word
  gTask0Blinks : Word
  gTask1Blinks : Word

/-- A store to `GPIOA_BSRR`: the lower half sets pins, the upper half resets them, and to set a pin
goes first. -/
def writeBsrr (v : Word) (s : LedState) : LedState :=
  { s with gpioaOdr := s.gpioaOdr &&& ~~~ (v >>> 16) ||| v &&& 0xFFFF }

def gpioaPin9 : Word := 1 <<< 9
def gpioaPin12 : Word := 1 <<< 12

def ledGpioInit (s : LedState) : LedState :=
  let s := { s with rccApb2enr := s.rccApb2enr ||| 1 <<< 2 }
  let s := { s with gpioaCrh := s.gpioaCrh &&& ~~~ ((0xF : Word) <<< 4) ||| 0x2 <<< 4 }
  { s with gpioaCrh := s.gpioaCrh &&& ~~~ ((0xF : Word) <<< 16) ||| 0x2 <<< 16 }

def ledOn (pin : Word) (s : LedState) : LedState := writeBsrr pin s

def ledOff (pin : Word) (s : LedState) : LedState := writeBsrr (pin <<< 16) s

/-- `task0` and `task1`. -/
inductive LedTask
  | task0
  | task1
  deriving DecidableEq

def LedTask.pin : LedTask → Word
  | .task0 => gpioaPin9
  | .task1 => gpioaPin12

/-- `g_task0_blinks++`, or `g_task1_blinks++`. Nobody else writes to the counter. -/
def LedTask.blinked (s : LedState) : LedTask → LedState
  | .task0 => { s with gTask0Blinks := s.gTask0Blinks + 1 }
  | .task1 => { s with gTask1Blinks := s.gTask1Blinks + 1 }

/-- The lines of their loop, which are the same in both. -/
inductive LedLine
  | lock
  | on
  | lit
  | off
  | unlock
  | count
  | rest
  deriving DecidableEq

inductive LedPc
  | idle
  | at (i : LedTask) (line : LedLine)
  deriving DecidableEq

/-- Where the linker has put the mutex and the two functions. -/
structure LedLinks where
  gLedMutex : MutexId
  entry : LedTask → ℕ

def ledCode (x : LedLinks) : LedPc → Instr LedState LedPc
  | .idle => .work fun s => (s, .idle)
  | .at i .lock => .call (fun _ => .mutexLock (some x.gLedMutex)) fun _ => .at i .on
  | .at i .on => .work fun s => (ledOn i.pin s, .at i .lit)
  | .at i .lit => .call (fun _ => .delayTicks 200) fun _ => .at i .off
  | .at i .off => .work fun s => (ledOff i.pin s, .at i .unlock)
  | .at i .unlock => .call (fun _ => .mutexUnlock (some x.gLedMutex)) fun _ => .at i .count
  | .at i .count => .work fun s => (i.blinked s, .at i .rest)
  | .at i .rest => .call (fun _ => .delayTicks 200) fun _ => .at i .lock

def ledProgram (x : LedLinks) : Program LedState LedPc where
  code := ledCode x
  start e :=
    if e = x.entry .task0 then .at .task0 .lock
    else if e = x.entry .task1 then .at .task1 .lock
    else .idle

/-- The calls of `os_app_main`. -/
def ledCreates (x : LedLinks) : List (Option TaskCreateArgs) :=
  [some ⟨osTaskMedium, x.entry .task0, 0, 256⟩, some ⟨osTaskMedium, x.entry .task1, 1, 256⟩]

end Rtos

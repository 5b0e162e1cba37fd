import Rtos.Kernel.Task

/-! Kernel entries and runs. A run is a sequence of completed entries: a syscall
of the running task, the tick, or the PendSV that commits a switch. Task code, and
with it a syscall, needs that no PendSV is pending; the tick may come at any time.
`os_idle_task` is an empty loop and makes no syscall. -/

namespace Rtos

open Lib

/-- The argument of `os_port_svc_dispatch`: the syscall number and its argument. -/
inductive Syscall
  | yield
  | delayTicks (ticks : Word)
  | semTake (sem : Option SemId)
  | semGive (sem : Option SemId)
  | mutexLock (mutex : Option MutexId)
  | mutexUnlock (mutex : Option MutexId)
  | taskCreate (args : Option TaskCreateArgs)
  | unrecognized
  deriving DecidableEq

inductive Entry
  | svc (c : Syscall)
  | sysTick
  | pendSV
  deriving DecidableEq

/-- The value the handler stores in the caller's `r0`, and the state it leaves. -/
def osPortSvcDispatch (k : Kernel) : Syscall → Comp (ℤ × Kernel)
  | .yield => do
    let k ← osKernelYield k
    pure (0, k)
  | .delayTicks ticks => do
    let k ← osKernelDelayTicks ticks k
    pure (0, k)
  | .semTake s => osKernelSemTake s k
  | .semGive s => osKernelSemGive s k
  | .mutexLock m => osKernelMutexLock m k
  | .mutexUnlock m => osKernelMutexUnlock m k
  | .taskCreate args => pure (osKernelTaskCreate args k)
  | .unrecognized => pure (-1, k)

/-- Taking PendSV clears its pending bit, then `os_commit_switch` runs. -/
def pendSVHandler (k : Kernel) : Kernel := osCommitSwitch { k with pendsv := false }

def exec (k : Kernel) : Entry → Comp (ℤ × Kernel)
  | .svc c => osPortSvcDispatch k c
  | .sysTick => do
    let k ← sysTickHandler k
    pure (0, k)
  | .pendSV => pure (0, pendSVHandler k)

/-- Task code runs: no switch is pending. -/
def Globals.TaskRuns (g : Globals) : Prop := g.pendsv = false

def Globals.Enabled (g : Globals) : Entry → Prop
  | .svc _ => g.TaskRuns ∧ g.gCurrent ≠ g.idle
  | .sysTick => True
  | .pendSV => g.pendsv = true

/-- What a system is started with: the memory layout, the value of `g_tick`, the
synchronisation objects as their `init` functions leave them (`os_mutex_init` does
not write `next_mutex`), and the tasks `os_app_main` asks for. -/
structure Boot where
  layout : Layout
  tick : Word
  semCount : SemId → ℤ
  nextMutex : MutexId → Option MutexId
  creates : List (Option TaskCreateArgs)
  semCount_nonneg : ∀ s, 0 ≤ semCount s
  semCount_le : ∀ s, semCount s < 2 ^ 31
  object_pool : 0 < layout.kernelObjectBase ∧ 0 < layout.kernelObjectCount ∧
    layout.kernelObjectBase + 64 * layout.kernelObjectCount ≤ 2 ^ 32
  stack_pool : 0 < layout.userStackBase ∧ 0 < layout.taskStackCount ∧
    layout.userStackBase + 1024 * layout.taskStackCount ≤ 2 ^ 32
  idle_entry : layout.osIdleTask ≠ 0

namespace Boot

/-- Memory before `os_boot_main`: zeroed, with the application's objects initialised. -/
def memory (b : Boot) : Kernel where
  semCount := b.semCount
  mutex m := ⟨none, b.nextMutex m⟩
  gCurrent := none
  gNext := none
  gTick := b.tick
  pendsv := false
  gKernelObjectPool := .zero
  gUserStackPool := .zero
  stackMem _ := 0
  layout := b.layout
  tasks := []
  tcb _ := { newTcbData 0 ⟨0, by decide⟩ with
    next := none, prev := none, timeoutNext := none, timeoutPrev := none }
  queue _ := ⟨none, none⟩
  gTimeoutQueue := ⟨none, none⟩

def idleArgs (b : Boot) : TaskCreateArgs where
  priority := osTaskIdle
  entry := b.layout.osIdleTask
  arg := 0
  stackWords := 128

/-- `os_boot_main` up to `os_start`. -/
def created (b : Boot) : Kernel :=
  (some b.idleArgs :: b.creates).foldl (fun k args => (osKernelTaskCreate args k).2)
    (osKallocInit b.memory)

def start (b : Boot) : Option Kernel := osStart b.created

end Boot

/-- One completed entry of a run. -/
structure Obs where
  pre : Kernel
  entry : Entry
  ret : ℤ
  post : Kernel

inductive Run (b : Boot) : List Obs → Kernel → Prop
  | boot {k : Kernel} : b.start = some k → Run b [] k
  | snoc {os : List Obs} {k k' : Kernel} {e : Entry} {r : ℤ} : Run b os k → k.Enabled e →
      (exec k e).Returns (r, k') → Run b (os ++ [⟨k, e, r, k'⟩]) k'

def Reachable (b : Boot) (k : Kernel) : Prop := ∃ os, Run b os k

/-- The last entry of a history is its only one or comes after the entry in question. -/
theorem snoc_split {α : Type} {os os₁ os₂ : List α} {o o' : α} (h : os ++ [o'] = os₁ ++ o :: os₂) :
    (os = os₁ ∧ o' = o ∧ os₂ = []) ∨ ∃ os₃, os₂ = os₃ ++ [o'] ∧ os = os₁ ++ o :: os₃ := by
  rcases List.eq_nil_or_concat' os₂ with rfl | ⟨os₃, x, rfl⟩
  · obtain ⟨h1, h2⟩ := List.append_inj' h rfl
    exact .inl ⟨h1, by simpa using h2, rfl⟩
  · rw [← List.cons_append, ← List.append_assoc] at h
    obtain ⟨h1, h2⟩ := List.append_inj' h rfl
    obtain rfl : o' = x := by simpa using h2
    exact .inr ⟨os₃, rfl, h1⟩

/-- The state before an entry of a run ends a run of its own, and so does the one after it. -/
theorem Run.split {b : Boot} {os os₁ os₂ : List Obs} {o : Obs} {k : Kernel} (h : Run b os k)
    (hos : os = os₁ ++ o :: os₂) : Run b os₁ o.pre ∧ o.pre.Enabled o.entry ∧
      (exec o.pre o.entry).Returns (o.ret, o.post) := by
  induction h generalizing os₂ with
  | boot => simp at hos
  | snoc h he hr ih =>
    rcases snoc_split hos with ⟨rfl, rfl, -⟩ | ⟨os₃, -, hos⟩
    · exact ⟨h, he, hr⟩
    · exact ih hos

/-! Runs can be played. -/

instance (g : Globals) (e : Entry) : Decidable (g.Enabled e) :=
  match e with
  | .svc _ => inferInstanceAs (Decidable (g.pendsv = false ∧ g.gCurrent ≠ g.idle))
  | .sysTick => inferInstanceAs (Decidable True)
  | .pendSV => inferInstanceAs (Decidable (g.pendsv = true))

/-- The entries of `es` in turn, each with a budget of `n` loop rounds. -/
def play (n : ℕ) (k : Kernel) : List Entry → Option (List Obs × Kernel)
  | [] => some ([], k)
  | e :: es =>
    if k.Enabled e then
      match (exec k e).run n with
      | some (r, k') => (play n k' es).map fun x => (⟨k, e, r, k'⟩ :: x.1, x.2)
      | none => none
    else none

theorem Run.play {b : Boot} {n : ℕ} {os os' : List Obs} {k k' : Kernel} {es : List Entry}
    (h : Run b os k) (hp : play n k es = some (os', k')) : Run b (os ++ os') k' := by
  induction es generalizing os os' k with
  | nil =>
    obtain ⟨rfl, rfl⟩ := Prod.mk.inj (Option.some.inj hp)
    rwa [List.append_nil]
  | cons e es ih =>
    simp only [Rtos.play] at hp
    split_ifs at hp with he
    split at hp
    · rename_i r k₁ hr
      obtain ⟨⟨os₁, k₂⟩, hx, heq⟩ := Option.map_eq_some_iff.1 hp
      obtain ⟨rfl, rfl⟩ := Prod.mk.inj heq
      have := ih (h.snoc he ⟨n, hr⟩) hx
      rwa [List.append_assoc] at this
    · cases hp

/-- A boot followed by `es`. -/
def Boot.play (b : Boot) (n : ℕ) (es : List Entry) : Option (List Obs × Kernel) :=
  b.start.bind fun k => Rtos.play n k es

theorem Boot.play_run {b : Boot} {n : ℕ} {es : List Entry} {os : List Obs} {k : Kernel}
    (h : b.play n es = some (os, k)) : Run b os k := by
  obtain ⟨k₀, h0, hp⟩ := Option.bind_eq_some_iff.1 h
  exact (Run.boot h0).play hp

/-- A small system: the idle task and one task for each priority of `ps`. -/
def Boot.small (ps : List ℕ) (tick : Word) (count : ℕ) (hc : count < 2 ^ 31) : Boot where
  layout := { kernelObjectBase := 64, kernelObjectCount := 4, userStackBase := 1024
              taskStackCount := 4, osIdleTask := 0x100, osTaskStartTrampoline := 0x200
              osTaskExitTrap := 0x300 }
  tick := tick
  semCount _ := count
  nextMutex _ := none
  creates := ps.map fun p => some ⟨p, 0x400, 0, 128⟩
  semCount_nonneg _ := Int.natCast_nonneg _
  semCount_le _ := by exact_mod_cast hc
  object_pool := by decide
  stack_pool := by decide
  idle_entry := by decide

/-- The same with room for more tasks. -/
def Boot.wide (ps : List ℕ) : Boot :=
  { Boot.small ps 0 0 (by decide) with
    layout := { kernelObjectBase := 64, kernelObjectCount := 8, userStackBase := 1024
                taskStackCount := 8, osIdleTask := 0x100, osTaskStartTrampoline := 0x200
                osTaskExitTrap := 0x300 }
    object_pool := by decide
    stack_pool := by decide
    idle_entry := by decide }

/-- The mutex an entry asks for. -/
def lockTarget : Entry → Option MutexId
  | .svc (.mutexLock m) => m
  | _ => none

/-- A check on the end of a played run is a fact about some run. -/
theorem Boot.play_exists (b : Boot) (n : ℕ) (es : List Entry) (P : List Obs → Kernel → Prop)
    [∀ os k, Decidable (P os k)]
    (h : ((b.play n es).any fun x => decide (P x.1 x.2)) = true) : ∃ os k, Run b os k ∧ P os k := by
  obtain ⟨⟨os, k⟩, hx, hP⟩ := (Option.any_eq_true _ _).1 h
  exact ⟨os, k, Boot.play_run hx, of_decide_eq_true hP⟩

end Rtos

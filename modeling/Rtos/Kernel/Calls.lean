import Rtos.Kernel.Run

/-! The interface of `kernel/scheduler.c` as its callers use it: a running task blocks in any wait
queue with or without a timeout, anyone wakes the head of a wait queue and calls the scheduler, and
ticks and context switches come in between. -/

namespace Rtos

open Lib

inductive Call
  | block (waitQueue : QueueRef) (timeoutTicks : Word) (priorityOrdered : Bool)
  | wakeOne (waitQueue : QueueRef)
  | schedule
  | sysTick
  | pendSV
  deriving DecidableEq

/-- The timeouts that the comparisons of the source are meant for. -/
def Timeout (ticks : Word) : Prop :=
  1 ≤ ticks.toNat ∧ ticks.toNat ≤ 2 ^ 31 ∨ ticks = osWaitForever

instance (ticks : Word) : Decidable (Timeout ticks) :=
  inferInstanceAs (Decidable (_ ∧ _ ∨ _))

/-- Only task code blocks, and the idle task does not. -/
def Globals.Allows (g : Globals) : Call → Prop
  | .block q ticks _ => (g.TaskRuns ∧ g.gCurrent ≠ g.idle) ∧ q.isWait = true ∧ Timeout ticks
  | .wakeOne q => q.isWait = true
  | .schedule => True
  | .sysTick => True
  | .pendSV => g.pendsv = true

instance (g : Globals) (c : Call) : Decidable (g.Allows c) :=
  match c with
  | .block q ticks _ => inferInstanceAs (Decidable ((g.pendsv = false ∧ g.gCurrent ≠ g.idle) ∧
      q.isWait = true ∧ Timeout ticks))
  | .wakeOne q => inferInstanceAs (Decidable (q.isWait = true))
  | .schedule => inferInstanceAs (Decidable True)
  | .sysTick => inferInstanceAs (Decidable True)
  | .pendSV => inferInstanceAs (Decidable (g.pendsv = true))

def call (k : Kernel) : Call → Comp Kernel
  | .block q ticks ordered => osTaskBlockLocked q ticks ordered k
  | .wakeOne q => pure (osTaskWakeOneLocked q k).2
  | .schedule => pure (scheduleAndTrigger k)
  | .sysTick => sysTickHandler k
  | .pendSV => pure (pendSVHandler k)

/-- One completed call. -/
structure Step where
  pre : Kernel
  call : Call
  post : Kernel

/-- Sequences of calls, from the state `os_start` leaves and any value of `g_tick`. -/
inductive Calls (b : Boot) : List Step → Kernel → Prop
  | boot {k : Kernel} : b.start = some k → Calls b [] k
  | snoc {os : List Step} {k k' : Kernel} {c : Call} : Calls b os k → k.Allows c →
      (call k c).Returns k' → Calls b (os ++ [⟨k, c, k'⟩]) k'

/-- The calls of `cs` in turn, each with a budget of `n` loop rounds. -/
def playCalls (n : ℕ) (k : Kernel) : List Call → Option (List Step × Kernel)
  | [] => some ([], k)
  | c :: cs =>
    if k.Allows c then
      match (call k c).run n with
      | some k' => (playCalls n k' cs).map fun x => (⟨k, c, k'⟩ :: x.1, x.2)
      | none => none
    else none

theorem Calls.play {b : Boot} {n : ℕ} {os os' : List Step} {k k' : Kernel} {cs : List Call}
    (h : Calls b os k) (hp : playCalls n k cs = some (os', k')) : Calls b (os ++ os') k' := by
  induction cs generalizing os os' k with
  | nil =>
    obtain ⟨rfl, rfl⟩ := Prod.mk.inj (Option.some.inj hp)
    rwa [List.append_nil]
  | cons c cs ih =>
    simp only [playCalls] at hp
    split_ifs at hp with hc
    split at hp
    · rename_i k₁ hr
      obtain ⟨⟨os₁, k₂⟩, hx, heq⟩ := Option.map_eq_some_iff.1 hp
      obtain ⟨rfl, rfl⟩ := Prod.mk.inj heq
      have := ih (h.snoc hc ⟨n, hr⟩) hx
      rwa [List.append_assoc] at this
    · cases hp

theorem Boot.playCalls_exists (b : Boot) (n : ℕ) (cs : List Call) (P : List Step → Kernel → Prop)
    [∀ os k, Decidable (P os k)]
    (h : ((b.start.bind fun k => playCalls n k cs).any fun x => decide (P x.1 x.2)) = true) :
    ∃ os k, Calls b os k ∧ P os k := by
  obtain ⟨⟨os, k⟩, hx, hP⟩ := (Option.any_eq_true _ _).1 h
  obtain ⟨k₀, h0, hp⟩ := Option.bind_eq_some_iff.1 hx
  exact ⟨os, k, (Calls.boot h0).play hp, of_decide_eq_true hP⟩

end Rtos

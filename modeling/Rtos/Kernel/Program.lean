import Rtos.Kernel.Run

/-! Applications: what the tasks of a system execute. A task is at a place in its code, and it goes
on whenever it has the core: it works on the application's data, or it makes a system call. The
kernel may be entered between any two of its steps. -/

namespace Rtos

open Lib

/-- A step of task code: a piece of work, which ends at the next place, or a system call, after
which the code goes on with the result. -/
inductive Instr (S ℓ : Type)
  | work (f : S → S × ℓ)
  | call (c : S → Syscall) (next : ℤ → ℓ)

/-- The code of an application, and where the function at an address begins. -/
structure Program (S ℓ : Type) where
  code : ℓ → Instr S ℓ
  start : ℕ → ℓ

variable {S ℓ : Type}

structure ProgSys (S ℓ : Type) where
  kernel : Kernel
  user : S
  pc : TaskId → ℓ

namespace Program

/-- A task that has been created starts with the function it was given. -/
def noteStart (P : Program S ℓ) (k : Kernel) (c : Syscall) (r : ℤ) (pc : TaskId → ℓ) : TaskId → ℓ :=
  match c with
  | .taskCreate (some args) =>
    if r = 0 then Function.update pc k.gKernelObjectPool.freeList (P.start args.entry) else pc
  | _ => pc

def create (P : Program S ℓ) (x : Kernel × (TaskId → ℓ)) (args : Option TaskCreateArgs) :
    Kernel × (TaskId → ℓ) :=
  let r := osKernelTaskCreate args x.1
  (r.2, P.noteStart x.1 (.taskCreate args) r.1 x.2)

/-- Where the tasks of `os_boot_main` are when `os_start` is called. -/
def boot (P : Program S ℓ) (b : Boot) : TaskId → ℓ :=
  ((some b.idleArgs :: b.creates).foldl P.create
    (osKallocInit b.memory, fun _ => P.start b.layout.osIdleTask)).2

end Program

/-- One step of the system: the kernel is interrupted, or the current task goes on. -/
inductive ProgAct
  | interrupt (e : Entry)
  | task
  deriving DecidableEq

inductive ProgStep (P : Program S ℓ) (s : ProgSys S ℓ) : ProgAct → ProgSys S ℓ → Prop
  | interrupt {e : Entry} {r : ℤ} {k : Kernel} : (∀ c, e ≠ .svc c) → s.kernel.Enabled e →
      (exec s.kernel e).Returns (r, k) → ProgStep P s (.interrupt e) { s with kernel := k }
  | work {t : TaskId} {f : S → S × ℓ} : s.kernel.TaskRuns → s.kernel.gCurrent = some t →
      P.code (s.pc t) = .work f →
      ProgStep P s .task
        { s with user := (f s.user).1, pc := Function.update s.pc t (f s.user).2 }
  | call {t : TaskId} {c : S → Syscall} {next : ℤ → ℓ} {r : ℤ} {k : Kernel} :
      s.kernel.gCurrent = some t → P.code (s.pc t) = .call c next →
      s.kernel.Enabled (.svc (c s.user)) → (exec s.kernel (.svc (c s.user))).Returns (r, k) →
      ProgStep P s .task
        { s with kernel := k
                 pc := P.noteStart s.kernel (c s.user) r (Function.update s.pc t (next r)) }

/-- A run with `user` in the application's data at its start; it counts the steps of tasks. -/
inductive ProgRun (P : Program S ℓ) (b : Boot) (user : S) : ℕ → ProgSys S ℓ → Prop
  | boot {k : Kernel} : b.start = some k → ProgRun P b user 0 ⟨k, user, P.boot b⟩
  | interrupt {n : ℕ} {s s' : ProgSys S ℓ} {e : Entry} : ProgRun P b user n s →
      ProgStep P s (.interrupt e) s' → ProgRun P b user n s'
  | task {n : ℕ} {s s' : ProgSys S ℓ} : ProgRun P b user n s → ProgStep P s .task s' →
      ProgRun P b user (n + 1) s'

/-- What the kernel sees of it. -/
theorem ProgRun.run {P : Program S ℓ} {b : Boot} {user : S} {n : ℕ} {s : ProgSys S ℓ}
    (h : ProgRun P b user n s) : ∃ os, Run b os s.kernel := by
  induction h with
  | boot h => exact ⟨[], .boot h⟩
  | interrupt _ hst ih =>
    obtain ⟨os, h⟩ := ih
    cases hst with
    | interrupt _ he hr => exact ⟨_, h.snoc he hr⟩
  | task _ hst ih =>
    obtain ⟨os, h⟩ := ih
    cases hst with
    | work _ _ _ => exact ⟨os, h⟩
    | call _ _ he hr => exact ⟨_, h.snoc he hr⟩

/-! Runs can be played. -/

namespace ProgSys

def next (P : Program S ℓ) (n : ℕ) (s : ProgSys S ℓ) : ProgAct → Option (ProgSys S ℓ)
  | .interrupt (.svc _) => none
  | .interrupt .sysTick =>
    ((exec s.kernel .sysTick).run n).map fun x => { s with kernel := x.2 }
  | .interrupt .pendSV =>
    if s.kernel.Enabled .pendSV then
      ((exec s.kernel .pendSV).run n).map fun x => { s with kernel := x.2 }
    else none
  | .task =>
    match s.kernel.gCurrent with
    | none => none
    | some t =>
      match P.code (s.pc t) with
      | .work f =>
        if s.kernel.pendsv = false then
          some { s with user := (f s.user).1, pc := Function.update s.pc t (f s.user).2 }
        else none
      | .call c next =>
        if s.kernel.Enabled (.svc (c s.user)) then
          ((exec s.kernel (.svc (c s.user))).run n).map fun x =>
            { s with kernel := x.2
                     pc := P.noteStart s.kernel (c s.user) x.1 (Function.update s.pc t (next x.1)) }
        else none

variable {P : Program S ℓ} {n : ℕ} {s s' : ProgSys S ℓ} {x : ProgAct}

theorem next_step (h : s.next P n x = some s') : ProgStep P s x s' := by
  cases x with
  | interrupt e =>
    cases e with
    | svc c => cases h
    | sysTick =>
      obtain ⟨⟨r, k'⟩, hr, rfl⟩ := Option.map_eq_some_iff.1 h
      exact .interrupt nofun trivial ⟨n, hr⟩
    | pendSV =>
      simp only [next] at h
      split_ifs at h with he
      obtain ⟨⟨r, k'⟩, hr, rfl⟩ := Option.map_eq_some_iff.1 h
      exact .interrupt nofun he ⟨n, hr⟩
  | task =>
    simp only [next] at h
    split at h
    · cases h
    rename_i t ht
    split at h
    · rename_i f hf
      split_ifs at h with hp
      obtain rfl := Option.some.inj h
      exact .work hp ht hf
    · rename_i c next hc
      split_ifs at h with he
      obtain ⟨⟨r, k'⟩, hr, rfl⟩ := Option.map_eq_some_iff.1 h
      exact .call ht hc he ⟨n, hr⟩

/-- The steps of `xs` in turn, each with a budget of `n` loop rounds. -/
def play (P : Program S ℓ) (n : ℕ) (s : ProgSys S ℓ) : List ProgAct → Option (ProgSys S ℓ)
  | [] => some s
  | x :: xs => (s.next P n x).bind fun s' => play P n s' xs

end ProgSys

theorem ProgRun.play {P : Program S ℓ} {b : Boot} {user : S} {i n : ℕ} {s s' : ProgSys S ℓ}
    {xs : List ProgAct} (h : ProgRun P b user i s) (hp : s.play P n xs = some s') :
    ProgRun P b user (i + xs.count .task) s' := by
  induction xs generalizing i s with
  | nil =>
    obtain rfl := Option.some.inj hp
    exact h
  | cons x xs ih =>
    obtain ⟨s₁, hx, hp'⟩ := Option.bind_eq_some_iff.1 hp
    have hst := ProgSys.next_step hx
    cases x with
    | interrupt e =>
      have := ih (h.interrupt hst) hp'
      simpa using this
    | task =>
      have := ih (h.task hst) hp'
      rw [List.count_cons_self]
      rwa [Nat.add_assoc, Nat.add_comm 1] at this

theorem no_tokens_lt : 0 < 2 ^ 31 := by
  decide

/-- The small system with the tasks of an application. -/
def Boot.app (creates : List (Option TaskCreateArgs)) : Boot :=
  { Boot.small [] 0 0 no_tokens_lt with creates := creates }

/-- A check on the end of a played run is a fact about some run. -/
theorem Program.play_exists (P : Program S ℓ) (b : Boot) (user : S) (n : ℕ) (xs : List ProgAct)
    (Q : ProgSys S ℓ → Prop) [∀ s, Decidable (Q s)]
    (h : ((b.start.bind fun k => (⟨k, user, P.boot b⟩ : ProgSys S ℓ).play P n xs).any
      fun s => decide (Q s)) = true) :
    ∃ s, ProgRun P b user (xs.count .task) s ∧ Q s := by
  obtain ⟨s, hx, hQ⟩ := (Option.any_eq_true _ _).1 h
  obtain ⟨k, hk, hp⟩ := Option.bind_eq_some_iff.1 hx
  have h0 : ProgRun P b user 0 ⟨k, user, P.boot b⟩ := .boot hk
  have hr := h0.play hp
  rw [Nat.zero_add] at hr
  exact ⟨s, hr, of_decide_eq_true hQ⟩

end Rtos

import Rtos.Kernel.Run

/-! `os_commit_switch` access by access. PendSV has the lowest priority and masks nothing,
so the tick may come between any two of its memory accesses; a tick runs to its end. -/

namespace Rtos

open Lib

/-- Where `os_commit_switch` stands: the access it is about to make, with its local `prev`
and the value of `g_next` or `g_current` it has read but not yet used. -/
inductive Switch
  | off
  | readCurrent
  | testNull (prev : Option TaskId)
  | testSame (prev : Option TaskId)
  | testState (prev : TaskId)
  | demote (prev : TaskId)
  | readNext (prev : Option TaskId)
  | writeCurrent (prev next : Option TaskId)
  | readBack
  | writeState (cur : Option TaskId)
  deriving DecidableEq

/-- One access. -/
def switchStep (k : Kernel) : Switch → Kernel × Switch
  | .off => (k, .off)
  | .readCurrent => (k, .testNull k.gCurrent)
  | .testNull prev => if k.gNext = none then (k, .off) else (k, .testSame prev)
  | .testSame prev =>
    match prev with
    | some t => if some t ≠ k.gNext then (k, .testState t) else (k, .readNext prev)
    | none => (k, .readNext none)
  | .testState t =>
    if (k.tcb t).state = .running then (k, .demote t) else (k, .readNext (some t))
  | .demote t => (k.setTcb t fun c => { c with state := .ready }, .readNext (some t))
  | .readNext prev => (k, .writeCurrent prev k.gNext)
  | .writeCurrent _ n => ({ k with gCurrent := n }, .readBack)
  | .readBack => (k, .writeState k.gCurrent)
  | .writeState c => (k.atPtr c fun c => { c with state := .running }, .off)

structure System where
  k : Kernel
  sw : Switch

/-- Task code executes: PendSV is neither active nor pending. -/
def System.TaskRuns (s : System) : Prop := s.sw = .off ∧ s.k.TaskRuns

inductive Act
  | svc (c : Syscall)
  | sysTick
  | enter
  | access
  deriving DecidableEq

inductive System.Step (s : System) : Act → System → Prop
  | svc {c : Syscall} {r : ℤ} {k' : Kernel} : s.sw = .off → s.k.Enabled (.svc c) →
      (exec s.k (.svc c)).Returns (r, k') → s.Step (.svc c) ⟨k', .off⟩
  | sysTick {r : ℤ} {k' : Kernel} : (exec s.k .sysTick).Returns (r, k') → s.Step .sysTick ⟨k', s.sw⟩
  | enter : s.sw = .off → s.k.pendsv = true →
      s.Step .enter ⟨{ s.k with pendsv := false }, .readCurrent⟩
  | access : s.sw ≠ .off → s.Step .access ⟨(switchStep s.k s.sw).1, (switchStep s.k s.sw).2⟩

/-- A run, with the states its steps were made in. -/
inductive System.Run (b : Boot) : List (System × Act) → System → Prop
  | boot {k : Kernel} : b.start = some k → System.Run b [] ⟨k, .off⟩
  | snoc {tr : List (System × Act)} {s s' : System} {x : Act} : System.Run b tr s → s.Step x s' →
      System.Run b (tr ++ [(s, x)]) s'

/-- `n` accesses in a row. -/
def switchRun : ℕ → Kernel × Switch → Kernel × Switch
  | 0, s => s
  | n + 1, s => switchRun n (switchStep s.1 s.2)

/-- With no tick in between, the accesses do what the handler does in one step. -/
theorem switchRun_atomic (k : Kernel) :
    switchRun 9 ({ k with pendsv := false }, .readCurrent) = (pendSVHandler k, .off) := by
  unfold pendSVHandler osCommitSwitch
  cases hn : k.gNext with
  | none => simp [switchRun, switchStep]
  | some n =>
    cases hc : k.gCurrent with
    | none => simp [switchRun, switchStep, Kernel.atPtr]
    | some prev =>
      by_cases hp : prev = n
      · simp [switchRun, switchStep, hp, Kernel.atPtr]
      · by_cases hr : (k.tcb prev).state = .running
        · simp [switchRun, switchStep, hp, hr, Kernel.atPtr, Kernel.setTcb]
        · simp [switchRun, switchStep, hp, hr, Kernel.atPtr]

/-! Runs can be played. -/

def System.next (n : ℕ) (s : System) : Act → Option System
  | .svc c =>
    if s.sw = .off ∧ s.k.Enabled (.svc c) then
      ((exec s.k (.svc c)).run n).map fun x => ⟨x.2, .off⟩
    else none
  | .sysTick => ((exec s.k .sysTick).run n).map fun x => ⟨x.2, s.sw⟩
  | .enter =>
    if s.sw = .off ∧ s.k.pendsv = true then some ⟨{ s.k with pendsv := false }, .readCurrent⟩
    else none
  | .access =>
    if s.sw = .off then none
    else some ⟨(switchStep s.k s.sw).1, (switchStep s.k s.sw).2⟩

theorem System.next_step {n : ℕ} {s s' : System} {x : Act} (h : s.next n x = some s') :
    s.Step x s' := by
  cases x with
  | svc c =>
    simp only [System.next] at h
    split_ifs at h with he
    obtain ⟨⟨r, k'⟩, hr, rfl⟩ := Option.map_eq_some_iff.1 h
    exact .svc he.1 he.2 ⟨n, hr⟩
  | sysTick =>
    obtain ⟨⟨r, k'⟩, hr, rfl⟩ := Option.map_eq_some_iff.1 h
    exact .sysTick ⟨n, hr⟩
  | enter =>
    simp only [System.next] at h
    split_ifs at h with he
    obtain rfl := Option.some.inj h
    exact .enter he.1 he.2
  | access =>
    simp only [System.next] at h
    split_ifs at h with he
    obtain rfl := Option.some.inj h
    exact .access he

def System.play (n : ℕ) (s : System) : List Act → Option (List (System × Act) × System)
  | [] => some ([], s)
  | x :: xs =>
    match s.next n x with
    | some s' => (System.play n s' xs).map fun y => ((s, x) :: y.1, y.2)
    | none => none

theorem System.Run.play {b : Boot} {n : ℕ} {tr tr' : List (System × Act)} {s s' : System}
    {xs : List Act} (h : System.Run b tr s) (hp : System.play n s xs = some (tr', s')) :
    System.Run b (tr ++ tr') s' := by
  induction xs generalizing tr tr' s with
  | nil =>
    obtain ⟨rfl, rfl⟩ := Prod.mk.inj (Option.some.inj hp)
    rwa [List.append_nil]
  | cons x xs ih =>
    simp only [System.play] at hp
    split at hp
    · rename_i s₁ hs₁
      obtain ⟨⟨tr₁, s₂⟩, hx, heq⟩ := Option.map_eq_some_iff.1 hp
      obtain ⟨rfl, rfl⟩ := Prod.mk.inj heq
      have := ih (h.snoc (System.next_step hs₁)) hx
      rwa [List.append_assoc] at this
    · cases hp

theorem Boot.playSystem_exists (b : Boot) (n : ℕ) (xs : List Act)
    (P : List (System × Act) → System → Prop) [∀ tr s, Decidable (P tr s)]
    (h : ((b.start.bind fun k => System.play n ⟨k, .off⟩ xs).any fun x => decide (P x.1 x.2)) = true) :
    ∃ tr s, System.Run b tr s ∧ P tr s := by
  obtain ⟨⟨tr, s⟩, hx, hP⟩ := (Option.any_eq_true _ _).1 h
  obtain ⟨k, hk, hp⟩ := Option.bind_eq_some_iff.1 hx
  exact ⟨tr, s, (System.Run.boot hk).play hp, of_decide_eq_true hP⟩

end Rtos

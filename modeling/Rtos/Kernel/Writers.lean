import Rtos.Kernel.Rtt

/-! Tasks that write to the up channel. `os_rtt_write` brackets its loop with
`os_port_irq_save` and `os_port_irq_restore`, but `PendSV_Handler` starts every task with
`CONTROL = 3`, and there the core ignores both. The part has no MPU, so the calls of kernel
text do not fault. -/

namespace Rtos

open Lib

/-- The state of the core that decides whether interrupts are taken in thread mode. -/
structure Core where
  primask : Bool
  unprivileged : Bool
  deriving DecidableEq

/-- `mrs PRIMASK` reads 0 and `cpsid i` does nothing in unprivileged mode. -/
def osPortIrqSave (c : Core) : Bool × Core :=
  if c.unprivileged then (false, c) else (c.primask, { c with primask := true })

def osPortIrqRestore (primask : Bool) (c : Core) : Core :=
  if c.unprivileged then c else { c with primask := primask }

/-- Where a task stands with its call of `os_rtt_write`. -/
inductive Caller
  | idle
  | save (data : List Byte)
  | loop (data : List Byte) (primask : Bool) (pc : Writer)
  | restore (primask : Bool)
  deriving DecidableEq

structure Writers where
  ch : OsRttChannel
  core : Core
  running : TaskId
  caller : TaskId → Caller

namespace Writers

def setCaller (s : Writers) (c : Caller) : Writers :=
  { s with caller := Function.update s.caller s.running c }

/-- The next step of the running task, when it is in a call. -/
def access (s : Writers) : Writers :=
  match s.caller s.running with
  | .idle => s
  | .save data =>
    let r := osPortIrqSave s.core
    { s with core := r.2 }.setCaller (.loop data r.1 (.test 0))
  | .loop data primask pc =>
    match writerStep data s.ch pc with
    | (ch, .done _) => { s with ch := ch }.setCaller (.restore primask)
    | (ch, pc') => { s with ch := ch }.setCaller (.loop data primask pc')
  | .restore primask => { s with core := osPortIrqRestore primask s.core }.setCaller .idle

end Writers

inductive WritersAct
  | call (data : List Byte)
  | access
  | switch (t : TaskId)
  deriving DecidableEq

inductive Writers.Step (s : Writers) : WritersAct → Writers → Prop
  | call (data : List Byte) : s.caller s.running = .idle →
      s.Step (.call data) (s.setCaller (.save data))
  | access : s.caller s.running ≠ .idle → s.Step .access s.access
  -- the tick that ends in a switch needs that interrupts are enabled
  | switch (t : TaskId) : s.core.primask = false →
      s.Step (.switch t) { s with running := t, core := { s.core with unprivileged := true } }

/-- A run from `ch`, with the states its steps were made in. No host is active. -/
inductive Writers.Run (ch : OsRttChannel) : List (Writers × WritersAct) → Writers → Prop
  | start (t : TaskId) : Writers.Run ch [] ⟨ch, ⟨false, true⟩, t, fun _ => .idle⟩
  | snoc {tr : List (Writers × WritersAct)} {s s' : Writers} {x : WritersAct} : Writers.Run ch tr s →
      s.Step x s' → Writers.Run ch (tr ++ [(s, x)]) s'

/-- The data of the calls made, in the order they were made. -/
def writeCalls (tr : List (Writers × WritersAct)) : List (List Byte) :=
  tr.filterMap fun x => match x.2 with
    | .call data => some data
    | _ => none

/-- The calls of `order`, one after another. -/
def serialWrites (ch : OsRttChannel) (order : List (List Byte)) : OsRttChannel :=
  order.foldl (fun ch data => osRttWrite data ch) ch

/-- The unread bytes, oldest first. -/
def OsRttChannel.contents (ch : OsRttChannel) : List Byte :=
  (List.range ch.unread).map fun j => ch.buffer (ch.unreadCell j)

/-! Runs can be played. -/

def Writers.next (s : Writers) : WritersAct → Option Writers
  | .call data => if s.caller s.running = .idle then some (s.setCaller (.save data)) else none
  | .access => if s.caller s.running = .idle then none else some s.access
  | .switch t =>
    if s.core.primask = false then
      some { s with running := t, core := { s.core with unprivileged := true } }
    else none

theorem Writers.next_step {s s' : Writers} {x : WritersAct} (h : s.next x = some s') :
    s.Step x s' := by
  cases x with
  | call data =>
    simp only [Writers.next] at h
    split_ifs at h with hi
    obtain rfl := Option.some.inj h
    exact .call data hi
  | access =>
    simp only [Writers.next] at h
    split_ifs at h with hi
    obtain rfl := Option.some.inj h
    exact .access hi
  | switch t =>
    simp only [Writers.next] at h
    split_ifs at h with hp
    obtain rfl := Option.some.inj h
    exact .switch t hp

def Writers.play (s : Writers) : List WritersAct → Option (List (Writers × WritersAct) × Writers)
  | [] => some ([], s)
  | x :: xs =>
    match s.next x with
    | some s' => (Writers.play s' xs).map fun y => ((s, x) :: y.1, y.2)
    | none => none

theorem Writers.Run.play {ch : OsRttChannel} {tr tr' : List (Writers × WritersAct)} {s s' : Writers}
    {xs : List WritersAct} (h : Writers.Run ch tr s) (hp : s.play xs = some (tr', s')) :
    Writers.Run ch (tr ++ tr') s' := by
  induction xs generalizing tr tr' s with
  | nil =>
    obtain ⟨rfl, rfl⟩ := Prod.mk.inj (Option.some.inj hp)
    rwa [List.append_nil]
  | cons x xs ih =>
    simp only [Writers.play] at hp
    split at hp
    · rename_i s₁ hs₁
      obtain ⟨⟨tr₁, s₂⟩, hx, heq⟩ := Option.map_eq_some_iff.1 hp
      obtain ⟨rfl, rfl⟩ := Prod.mk.inj heq
      have := ih (h.snoc (Writers.next_step hs₁)) hx
      rwa [List.append_assoc] at this
    · cases hp

theorem Writers.play_exists (ch : OsRttChannel) (t : TaskId) (xs : List WritersAct)
    (P : List (Writers × WritersAct) → Writers → Prop) [∀ tr s, Decidable (P tr s)]
    (h : ((Writers.play ⟨ch, ⟨false, true⟩, t, fun _ => .idle⟩ xs).any fun x =>
      decide (P x.1 x.2)) = true) : ∃ tr s, Writers.Run ch tr s ∧ P tr s := by
  obtain ⟨⟨tr, s⟩, hx, hP⟩ := (Option.any_eq_true _ _).1 h
  exact ⟨tr, s, (Writers.Run.start t).play hx, of_decide_eq_true hP⟩

end Rtos

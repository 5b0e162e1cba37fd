import Rtos.Kernel.Run
import Rtos.Lib.Words

/-! The core around the kernel: the registers of the task that has it, the frame that an
exception pushes and its return pops, and `PendSV_Handler` instruction by instruction. Handlers
run on the main stack, so a task's stack holds only what the core and PendSV put there and what
the task itself writes. The C functions they call keep `r4` to `r11`. -/

namespace Rtos

open Lib

/-- The registers of a task: `r4` to `r11`; `r0` to `r3`, `r12`, `lr`, `pc` and `xpsr`, which
the core pushes in this order; and the stack pointer. -/
structure Context where
  low : Fin 8 → ℕ
  hw : Fin 8 → ℕ
  psp : ℕ

abbrev r0Slot : Fin 8 := ⟨0, by decide⟩
abbrev xpsrSlot : Fin 8 := ⟨7, by decide⟩

namespace Context

/-- Where an exception puts its frame: the stack pointer is first aligned to eight bytes. -/
def frameAddr (c : Context) : ℕ := c.psp - c.psp % 8 - 32

/-- The frame; bit 9 of `xpsr` tells whether a word was skipped. -/
def stacked (c : Context) : Fin 8 → ℕ :=
  Function.update c.hw xpsrSlot (c.hw xpsrSlot + if c.psp % 8 = 0 then 0 else 2 ^ 9)

/-- The registers after a return from an exception with the frame at `f`. -/
def unstack (low : Fin 8 → ℕ) (mem : ℕ → ℕ) (f : ℕ) : Context :=
  let frame := loadWords 8 mem f
  let skipped := frame xpsrSlot / 2 ^ 9 % 2
  { low := low
    hw := Function.update frame xpsrSlot (frame xpsrSlot - 2 ^ 9 * skipped)
    psp := f + 32 + 4 * skipped }

/-- A task with the block at `s` for its stack: sixteen words are free below its stack pointer. -/
structure Fits (s : ℕ) (c : Context) : Prop where
  room : s + 4 * 16 ≤ c.psp
  top : c.psp ≤ s + 4 * osTaskStackWords
  aligned : c.psp % 4 = 0
  xpsr : c.hw xpsrSlot / 2 ^ 9 % 2 = 0

instance (s : ℕ) (c : Context) : Decidable (c.Fits s) :=
  decidable_of_iff (s + 4 * 16 ≤ c.psp ∧ c.psp ≤ s + 4 * osTaskStackWords ∧ c.psp % 4 = 0 ∧
    c.hw xpsrSlot / 2 ^ 9 % 2 = 0)
    ⟨fun h => ⟨h.1, h.2.1, h.2.2.1, h.2.2.2⟩, fun h => ⟨h.room, h.top, h.aligned, h.xpsr⟩⟩

end Context

/-- In an exception handler `cpu.psp` is the address of the frame that its entry has pushed.
`stack` is not in the source: it is the block that `os_kstack_alloc` returned for each task. -/
structure Machine where
  k : Kernel
  cpu : Context
  gFirstSwitch : Bool
  handler : Bool
  stack : TaskId → ℕ

inductive MAct
  | task
  | svc (c : Syscall) (r : ℤ)
  | sysTick
  | pendSV
  | ret
  deriving DecidableEq

/-- The stack of a task that a system call has created. -/
def noteStack (k : Kernel) (c : Syscall) (r : ℤ) (stack : TaskId → ℕ) : TaskId → ℕ :=
  match c with
  | .taskCreate (some _) =>
    if r = 0 then Function.update stack k.gKernelObjectPool.freeList k.gUserStackPool.freeList
    else stack
  | _ => stack

namespace Machine

/-- The entry of an exception. One that follows another, before its return, pushes nothing. -/
def enter (m : Machine) : Machine :=
  if m.handler then m
  else
    { m with
      k := { m.k with stackMem := storeWords m.k.stackMem m.cpu.frameAddr m.cpu.stacked }
      cpu := { m.cpu with psp := m.cpu.frameAddr }
      handler := true }

/-- `PendSV_Handler` up to `bl os_commit_switch`. -/
def saveContext (m : Machine) : Machine :=
  if m.gFirstSwitch then { m with gFirstSwitch := false }
  else
    let sp := m.cpu.psp - 32
    let k := { m.k with stackMem := storeWords m.k.stackMem sp m.cpu.low }
    { m with k := k.atPtr k.gCurrent fun c => { c with sp := sp } }

/-- The rest of it, up to `bx lr`. -/
def loadContext (m : Machine) : Machine :=
  match m.k.gCurrent with
  | some t =>
    let sp := (m.k.tcb t).sp
    { m with cpu := { m.cpu with low := loadWords 8 m.k.stackMem sp, psp := sp + 32 } }
  | none => m

def pendSV (m : Machine) : Machine :=
  let m := m.saveContext
  { m with k := pendSVHandler m.k }.loadContext

/-- The return from an exception. -/
def leave (m : Machine) : Machine :=
  { m with cpu := Context.unstack m.cpu.low m.k.stackMem m.cpu.psp, handler := false }

end Machine

inductive Machine.Step (m : Machine) : MAct → Machine → Prop
  /- task code does what it likes with its registers and its own stack -/
  | task {t : TaskId} {c : Context} {mem : ℕ → ℕ} : m.handler = false → m.k.TaskRuns →
      m.k.gCurrent = some t → c.Fits (m.stack t) →
      (∀ a, a < m.stack t ∨ m.stack t + 4 * osTaskStackWords ≤ a → mem a = m.k.stackMem a) →
      m.Step .task { m with k := { m.k with stackMem := mem }, cpu := c }
  /- `os_port_svc_dispatch` ends with `frame->r0 = ret` -/
  | svc {c : Syscall} {r : ℤ} {k' : Kernel} : m.handler = false → m.k.Enabled (.svc c) →
      (exec m.enter.k (.svc c)).Returns (r, k') →
      m.Step (.svc c r) { m.enter with
        k := { k' with stackMem := Function.update k'.stackMem m.enter.cpu.psp (r % 2 ^ 32).toNat }
        stack := noteStack m.enter.k c r m.stack }
  | sysTick {r : ℤ} {k' : Kernel} : (exec m.enter.k .sysTick).Returns (r, k') →
      m.Step .sysTick { m.enter with k := k' }
  | pendSV : m.k.pendsv = true → m.Step .pendSV m.enter.pendSV
  | ret : m.handler = true → m.k.pendsv = false → m.Step .ret m.leave

/-! What a task should find when it gets the core back. -/

/-- The registers that `os_task_create_internal` sets up. -/
def initialContext (l : Layout) (args : TaskCreateArgs) (stackMem : ℕ) : Context where
  low _ := 0
  hw := ![args.arg, args.entry, 0, 0, 0, l.osTaskExitTrap, l.osTaskStartTrampoline, 0x01000000]
  psp := stackMem + 4 * args.stackWords - (stackMem + 4 * args.stackWords) % 8

def noteCreated (k : Kernel) (c : Syscall) (r : ℤ) (ctx : TaskId → Context) : TaskId → Context :=
  match c with
  | .taskCreate (some args) =>
    if r = 0 then
      Function.update ctx k.gKernelObjectPool.freeList
        (initialContext k.layout args k.gUserStackPool.freeList)
    else ctx
  | _ => ctx

/-- An exception that interrupts a task notes its registers, and a system call its result. What
`os_start` leaves behind on the first task's stack belongs to no task. -/
def noteContext (m : Machine) (x : MAct) (ctx : TaskId → Context) : TaskId → Context :=
  match m.k.gCurrent with
  | none => ctx
  | some t =>
    if m.handler ∨ m.gFirstSwitch then ctx
    else
      match x with
      | .svc c r =>
        noteCreated m.k c r (Function.update ctx t
          { m.cpu with hw := Function.update m.cpu.hw r0Slot (r % 2 ^ 32).toNat })
      | .sysTick => Function.update ctx t m.cpu
      | .pendSV => Function.update ctx t m.cpu
      | _ => ctx

/-- The tasks created before `os_start`. -/
structure Setup where
  k : Kernel
  stack : TaskId → ℕ
  context : TaskId → Context

def Setup.create (x : Setup) (args : Option TaskCreateArgs) : Setup :=
  let r := osKernelTaskCreate args x.k
  ⟨r.2, noteStack x.k (.taskCreate args) r.1 x.stack, noteCreated x.k (.taskCreate args) r.1 x.context⟩

def Boot.setup (b : Boot) : Setup :=
  (some b.idleArgs :: b.creates).foldl Setup.create
    ⟨osKallocInit b.memory, fun _ => 0, fun _ => ⟨fun _ => 0, fun _ => 0, 0⟩⟩

/-- A run, with the states its steps were made in. At its start `os_start` runs on the first
task's stack, below the frame there, with room for the frame of an exception. -/
inductive Machine.Run (b : Boot) : List (Machine × MAct) → Machine → Prop
  | boot {k : Kernel} {mem : ℕ → ℕ} {c : Context} {t : TaskId} : b.start = some k →
      k.gCurrent = some t → b.setup.stack t + 4 * 9 ≤ c.psp → c.psp ≤ (k.tcb t).sp →
      (∀ a, a < b.setup.stack t ∨ (k.tcb t).sp ≤ a → mem a = k.stackMem a) →
      Machine.Run b [] ⟨{ k with stackMem := mem }, c, true, false, b.setup.stack⟩
  | snoc {tr : List (Machine × MAct)} {m m' : Machine} {x : MAct} : Machine.Run b tr m →
      m.Step x m' → Machine.Run b (tr ++ [(m, x)]) m'

/-- For each task, the registers it had when it was last switched out, or those it was created
with. -/
def lastContext (b : Boot) (tr : List (Machine × MAct)) : TaskId → Context :=
  tr.foldl (fun ctx x => noteContext x.1 x.2 ctx) b.setup.context

/-! Runs can be played. -/

/-- A step with what it leaves open: the registers that a task ends up with and a word it stores. -/
inductive Move
  | task (c : Context) (addr v : ℕ)
  | svc (c : Syscall)
  | sysTick
  | pendSV
  | ret

instance (g : Globals) : Decidable g.TaskRuns := inferInstanceAs (Decidable (g.pendsv = false))

def Machine.next (n : ℕ) (m : Machine) : Move → Option (MAct × Machine)
  | .task c addr v =>
    match m.k.gCurrent with
    | some t =>
      if (m.handler = false ∧ m.k.TaskRuns) ∧ c.Fits (m.stack t) ∧
          m.stack t ≤ addr ∧ addr < m.stack t + 4 * osTaskStackWords then
        some (.task, { m with k := { m.k with stackMem := Function.update m.k.stackMem addr v }, cpu := c })
      else none
    | none => none
  | .svc c =>
    if m.handler = false ∧ m.k.Enabled (.svc c) then
      ((exec m.enter.k (.svc c)).run n).map fun x => (.svc c x.1, { m.enter with
        k := { x.2 with
          stackMem := Function.update x.2.stackMem m.enter.cpu.psp (x.1 % 2 ^ 32).toNat }
        stack := noteStack m.enter.k c x.1 m.stack })
    else none
  | .sysTick => ((exec m.enter.k .sysTick).run n).map fun x => (.sysTick, { m.enter with k := x.2 })
  | .pendSV => if m.k.pendsv = true then some (.pendSV, m.enter.pendSV) else none
  | .ret => if m.handler = true ∧ m.k.pendsv = false then some (.ret, m.leave) else none

theorem Machine.next_step {n : ℕ} {m m' : Machine} {v : Move} {x : MAct}
    (h : m.next n v = some (x, m')) : m.Step x m' := by
  cases v with
  | task c addr v =>
    simp only [Machine.next] at h
    split at h
    · rename_i t hc
      split_ifs at h with he
      obtain ⟨rfl, rfl⟩ := Prod.mk.inj (Option.some.inj h)
      refine .task he.1.1 he.1.2 hc he.2.1 fun a ha => Function.update_of_ne ?_ _ _
      omega
    · cases h
  | svc c =>
    simp only [Machine.next] at h
    split_ifs at h with he
    obtain ⟨⟨r, k'⟩, hr, heq⟩ := Option.map_eq_some_iff.1 h
    obtain ⟨rfl, rfl⟩ := Prod.mk.inj heq
    exact .svc he.1 he.2 ⟨n, hr⟩
  | sysTick =>
    obtain ⟨⟨r, k'⟩, hr, heq⟩ := Option.map_eq_some_iff.1 h
    obtain ⟨rfl, rfl⟩ := Prod.mk.inj heq
    exact .sysTick ⟨n, hr⟩
  | pendSV =>
    simp only [Machine.next] at h
    split_ifs at h with he
    obtain ⟨rfl, rfl⟩ := Prod.mk.inj (Option.some.inj h)
    exact .pendSV he
  | ret =>
    simp only [Machine.next] at h
    split_ifs at h with he
    obtain ⟨rfl, rfl⟩ := Prod.mk.inj (Option.some.inj h)
    exact .ret he.1 he.2

def Machine.play (n : ℕ) (m : Machine) : List Move → Option (List (Machine × MAct) × Machine)
  | [] => some ([], m)
  | v :: vs =>
    match m.next n v with
    | some (x, m') => (Machine.play n m' vs).map fun y => ((m, x) :: y.1, y.2)
    | none => none

theorem Machine.Run.play {b : Boot} {n : ℕ} {tr tr' : List (Machine × MAct)} {m m' : Machine}
    {vs : List Move} (h : Machine.Run b tr m) (hp : m.play n vs = some (tr', m')) :
    Machine.Run b (tr ++ tr') m' := by
  induction vs generalizing tr tr' m with
  | nil =>
    obtain ⟨rfl, rfl⟩ := Prod.mk.inj (Option.some.inj hp)
    rwa [List.append_nil]
  | cons v vs ih =>
    simp only [Machine.play] at hp
    split at hp
    · rename_i x m₁ hx
      obtain ⟨⟨tr₁, m₂⟩, hx', heq⟩ := Option.map_eq_some_iff.1 hp
      obtain ⟨rfl, rfl⟩ := Prod.mk.inj heq
      have := ih (h.snoc (Machine.next_step hx)) hx'
      rwa [List.append_assoc] at this
    · cases hp

/-- The machine when `os_start` has `c` in its registers. -/
def Boot.machine (b : Boot) (c : Context) : Option Machine :=
  b.start.bind fun k => k.gCurrent.bind fun t =>
    if b.setup.stack t + 4 * 9 ≤ c.psp ∧ c.psp ≤ (k.tcb t).sp then
      some ⟨k, c, true, false, b.setup.stack⟩
    else none

theorem Boot.machine_run {b : Boot} {c : Context} {m : Machine} (h : b.machine c = some m) :
    Machine.Run b [] m := by
  obtain ⟨k, hk, h⟩ := Option.bind_eq_some_iff.1 h
  obtain ⟨t, hc, h⟩ := Option.bind_eq_some_iff.1 h
  split_ifs at h with he
  obtain rfl := Option.some.inj h
  exact .boot hk hc he.1 he.2 fun _ _ => rfl

theorem Boot.playMachine_exists (b : Boot) (c : Context) (n : ℕ) (vs : List Move)
    (P : List (Machine × MAct) → Machine → Prop) [∀ tr m, Decidable (P tr m)]
    (h : (((b.machine c).bind fun m => m.play n vs).any fun x => decide (P x.1 x.2)) = true) :
    ∃ tr m, Machine.Run b tr m ∧ P tr m := by
  obtain ⟨⟨tr, m⟩, hx, hP⟩ := (Option.any_eq_true _ _).1 h
  obtain ⟨m₀, hm, hp⟩ := Option.bind_eq_some_iff.1 hx
  exact ⟨tr, m, (Boot.machine_run hm).play hp, of_decide_eq_true hP⟩

end Rtos

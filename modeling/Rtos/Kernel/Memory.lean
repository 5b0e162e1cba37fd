import Rtos.Kernel.Queue

/-! `kernel/memory.c`, and the blocking queue with the copy of a message as what it is: a loop in
task code, which can be preempted after every byte, between a slot and a buffer of the caller. -/

namespace Rtos

open Lib

/-- The variables of `os_memcpy`. -/
structure Memcpy where
  d : Word
  s : Word
  len : Word

/-- `*d++ = *s++; len--;` -/
def Memcpy.round (c : Memcpy) (mem : Word → Byte) : (Word → Byte) × Memcpy :=
  (Function.update mem c.d (mem c.s), ⟨c.d + 1, c.s + 1, c.len - 1⟩)

def Memcpy.loop (c : Memcpy) (mem : Word → Byte) : Word → Byte :=
  if 0 < c.len then (c.round mem).2.loop (c.round mem).1 else mem
termination_by c.len.toNat
decreasing_by
  have h : 0 < c.len.toNat := ‹0 < c.len›
  simp only [Memcpy.round]
  bv_omega

def osMemcpy (dst src len : Word) (mem : Word → Byte) : Word → Byte :=
  Memcpy.loop ⟨dst, src, len⟩ mem

/-- The system of `QueueSys`; `buf` is the argument `msg` of the call a task is in, and `loop` are
the variables of `os_memcpy` while it runs. -/
structure ByteSys where
  sys : QueueSys
  buf : TaskId → Word
  loop : TaskId → Option Memcpy

/-- The `n` bytes from `p` on. -/
def InBlock (p : Word) (n : ℕ) (a : Word) : Prop := (a - p).toNat < n

namespace ByteSys

def slot (f : ByteSys) : QueueCall → Word
  | .send _ => slotAddr f.sys.queue.storage f.sys.queue.msgSize f.sys.queue.tail
  | .recv => slotAddr f.sys.queue.storage f.sys.queue.msgSize f.sys.queue.head

/-- The call `os_memcpy(slot, msg, queue->msg_size)`, or the one with the first two exchanged. -/
def memcpyArgs (f : ByteSys) (t : TaskId) : QueueCall → Memcpy
  | .send msg => ⟨f.slot (.send msg), f.buf t, f.sys.queue.msgSize⟩
  | .recv => ⟨f.buf t, f.slot .recv, f.sys.queue.msgSize⟩

/-- What a copy has moved, once it is done. -/
def copied (f : ByteSys) (t : TaskId) : QueueCall → QueueEvent
  | .send msg => .copiedIn (loadBytes f.sys.mem (f.slot (.send msg)) f.sys.queue.msgSize.toNat)
  | .recv => .copiedOut (loadBytes f.sys.mem (f.buf t) f.sys.queue.msgSize.toNat)

/-- A buffer for a new call of `t`: it is no part of the storage or of another call's buffer. -/
def Own (f : ByteSys) (t : TaskId) (p : Word) : Prop :=
  (∀ a, InBlock p f.sys.queue.msgSize.toNat a →
    ¬ InBlock f.sys.queue.storage (f.sys.queue.capacity.toNat * f.sys.queue.msgSize.toNat) a) ∧
  ∀ u, u ≠ t → f.sys.pc u ≠ .outside → ∀ a, InBlock p f.sys.queue.msgSize.toNat a →
    ¬ InBlock (f.buf u) f.sys.queue.msgSize.toNat a

end ByteSys

/-- One step. Nothing but the rounds of `os_memcpy` takes a call through its copy. -/
inductive ByteStep (f : ByteSys) : Option QueueEvent → ByteSys → Prop
  | coarse {e : QueueEvent} {s : QueueSys} : QueueStep f.sys e s → e ≠ .called →
      (∀ t call, f.sys.pc t = .inside call .copy → s.pc t = f.sys.pc t) →
      ByteStep f (some e) { f with sys := s }
  /- between its calls a task writes where it likes, except to the storage and to the buffers of
  calls of other tasks -/
  | work {t : TaskId} {mem : Word → Byte} : f.sys.kernel.Runs t → f.sys.pc t = .outside →
      (∀ a, InBlock f.sys.queue.storage
        (f.sys.queue.capacity.toNat * f.sys.queue.msgSize.toNat) a → mem a = f.sys.mem a) →
      (∀ u, f.sys.pc u ≠ .outside → ∀ a, InBlock (f.buf u) f.sys.queue.msgSize.toNat a →
        mem a = f.sys.mem a) →
      ByteStep f none { f with sys := { f.sys with mem := mem } }
  | call {t : TaskId} {call : QueueCall} {p : Word} : f.sys.kernel.Runs t → f.sys.pc t = .outside →
      f.Own t p →
      (∀ msg, call = .send msg → msg = loadBytes f.sys.mem p f.sys.queue.msgSize.toNat) →
      ByteStep f (some .called)
        { f with sys := f.sys.goto t (.inside call .take), buf := Function.update f.buf t p }
  | enter {t : TaskId} {call : QueueCall} : f.sys.kernel.Runs t → f.sys.pc t = .inside call .copy →
      f.loop t = none →
      ByteStep f none { f with loop := Function.update f.loop t (some (f.memcpyArgs t call)) }
  | round {t : TaskId} {c : Memcpy} : f.sys.kernel.Runs t → f.loop t = some c → 0 < c.len →
      ByteStep f none
        { f with sys := { f.sys with mem := (c.round f.sys.mem).1 }
                 loop := Function.update f.loop t (some (c.round f.sys.mem).2) }
  | leave {t : TaskId} {call : QueueCall} {c : Memcpy} : f.sys.kernel.Runs t →
      f.sys.pc t = .inside call .copy → f.loop t = some c → ¬ 0 < c.len →
      ByteStep f (some (f.copied t call))
        { f with sys := f.sys.goto t (.inside call .index), loop := Function.update f.loop t none }

/-- A run, with the events of the steps that have one. -/
inductive ByteRun (f₀ : ByteSys) : List QueueEvent → ByteSys → Prop
  | init : ByteRun f₀ [] f₀
  | snoc {es : List QueueEvent} {f f' : ByteSys} {e : Option QueueEvent} : ByteRun f₀ es f →
      ByteStep f e f' → ByteRun f₀ (es ++ e.toList) f'

/-! Runs can be played. -/

namespace ByteSys

/-- The next step of the call of `t`, with a budget of `n` loop rounds in the kernel. -/
def go (n : ℕ) (f : ByteSys) (t : TaskId) : Option (Option QueueEvent × ByteSys) :=
  match f.sys.pc t with
  | .inside call .copy =>
    match f.loop t with
    | none =>
      some (none, { f with loop := Function.update f.loop t (some (f.memcpyArgs t call)) })
    | some c =>
      if 0 < c.len then
        some (none, { f with sys := { f.sys with mem := (c.round f.sys.mem).1 }
                             loop := Function.update f.loop t (some (c.round f.sys.mem).2) })
      else
        some (some (f.copied t call),
          { f with sys := f.sys.goto t (.inside call .index), loop := Function.update f.loop t none })
  | pc => (f.sys.go n t pc).map fun x => (some x.1, { f with sys := x.2 })

variable {f f' : ByteSys} {n : ℕ} {t : TaskId} {e : Option QueueEvent}

/-- A step of a call at another stage moves only its own task, and is no new call. -/
theorem go_coarse {pc : QueuePc} {e : QueueEvent} {s : QueueSys} (hrun : f.sys.kernel.Runs t)
    (hpc : f.sys.pc t = pc) (hne : ∀ call, pc ≠ .inside call .copy) (h : f.sys.go n t pc = some (e, s)) :
    ByteStep f (some e) { f with sys := s } := by
  have hst := QueueSys.go_step hrun hpc h
  have hother : ∀ u, u ≠ t → s.pc u = f.sys.pc u := by
    intro u hu
    unfold QueueSys.go at h
    split at h
    · cases h
    · cases h
      exact absurd rfl (hne _)
    · rename_i call
      cases h
      refine (Function.update_of_ne hu _ _).trans ?_
      cases call <;> rfl
    · split at h
      · obtain ⟨x, -, hx⟩ := Option.map_eq_some_iff.1 h
        cases hx
        exact Function.update_of_ne hu _ _
      · cases h
  refine .coarse hst ?_ fun u call hu => hother u ?_
  · rintro rfl
    unfold QueueSys.go at h
    split at h
    · cases h
    · rename_i call
      cases call <;> cases h
    · cases h
    · split at h
      · rename_i call stage _ _ _ c _
        obtain ⟨x, -, hx⟩ := Option.map_eq_some_iff.1 h
        have he : (QueueSys.resume call x.1 stage).1 = .called := (Prod.mk.inj hx).1
        cases stage <;> simp only [QueueSys.resume] at he <;> (try split_ifs at he) <;> cases he
      · cases h
  · rintro rfl
    exact hne call (hpc.symm.trans hu)

theorem go_step (hrun : f.sys.kernel.Runs t) (h : f.go n t = some (e, f')) : ByteStep f e f' := by
  unfold go at h
  split at h
  · rename_i call hpc
    split at h
    · rename_i hnone
      cases h
      exact .enter hrun hpc hnone
    · rename_i c hsome
      split_ifs at h with hlen
      · cases h
        exact .round hrun hsome hlen
      · cases h
        exact .leave hrun hpc hsome hlen
  · rename_i hne
    obtain ⟨⟨e', s⟩, hx, heq⟩ := Option.map_eq_some_iff.1 h
    cases heq
    exact go_coarse hrun rfl hne hx

/-- An interrupt, or the next step of the call of a task. -/
inductive Move
  | interrupt (e : Entry)
  | go (t : TaskId)

def move (n : ℕ) (f : ByteSys) : Move → Option (Option QueueEvent × ByteSys)
  | .interrupt e =>
    if (e = .sysTick ∨ e = .pendSV) ∧ f.sys.kernel.Enabled e then
      ((exec f.sys.kernel e).run n).map fun x =>
        (some .other, { f with sys := { f.sys with kernel := x.2 } })
    else none
  | .go t => if f.sys.kernel.Runs t then f.go n t else none

theorem interrupt_step {x : Entry} {r : ℤ} {k : Kernel} (hx : x = .sysTick ∨ x = .pendSV)
    (hen : f.sys.kernel.Enabled x) (hr : (exec f.sys.kernel x).Returns (r, k)) :
    ByteStep f (some .other) { f with sys := { f.sys with kernel := k } } := by
  refine .coarse (.interrupt hx hen hr) ?_ fun _ _ _ => rfl
  intro h
  cases h

theorem move_step {m : Move} (h : f.move n m = some (e, f')) : ByteStep f e f' := by
  cases m with
  | interrupt x =>
    simp only [move] at h
    split_ifs at h with hx
    obtain ⟨⟨r, k⟩, hr, heq⟩ := Option.map_eq_some_iff.1 h
    cases heq
    exact interrupt_step hx.1 hx.2 ⟨n, hr⟩
  | go t =>
    simp only [move] at h
    split_ifs at h with hrun
    exact go_step hrun h

def play (n : ℕ) (f : ByteSys) : List Move → Option (List QueueEvent × ByteSys)
  | [] => some ([], f)
  | m :: ms => (f.move n m).bind fun x => (x.2.play n ms).map fun y => (x.1.toList ++ y.1, y.2)

end ByteSys

theorem ByteRun.play {f₀ f f' : ByteSys} {es es' : List QueueEvent} {n : ℕ} {ms : List ByteSys.Move}
    (h : ByteRun f₀ es f) (hp : f.play n ms = some (es', f')) : ByteRun f₀ (es ++ es') f' := by
  induction ms generalizing f es es' with
  | nil =>
    cases hp
    rwa [List.append_nil]
  | cons m ms ih =>
    simp only [ByteSys.play] at hp
    obtain ⟨x, hx, hp⟩ := Option.bind_eq_some_iff.1 hp
    obtain ⟨y, hy, heq⟩ := Option.map_eq_some_iff.1 hp
    cases heq
    have := ih (h.snoc (ByteSys.move_step hx)) hy
    rwa [List.append_assoc] at this

end Rtos

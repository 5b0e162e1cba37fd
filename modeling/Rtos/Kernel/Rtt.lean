import Rtos.Kernel.Types
import Rtos.Lib.Stream

/-! `kernel/rtt.c`. The fields of a channel are volatile, so each mention of one is an access
of its own; a step of the target is one access to `wr_off`, `rd_off` or the buffer. The host
moves the other offset of each channel and may do so between any two of them. -/

namespace Rtos

open Lib

structure OsRttChannel where
  buffer : Word → Byte
  size : Word
  wrOff : Word
  rdOff : Word

structure OsRttCb where
  up : OsRttChannel
  down : OsRttChannel

namespace OsRttChannel

/-- `off + 1`, back to 0 at the end of the buffer. -/
def next (ch : OsRttChannel) (off : Word) : Word := if off + 1 = ch.size then 0 else off + 1

/-- Published bytes that are not released. -/
def unread (ch : OsRttChannel) : ℕ := Lib.unread ch.size ch.wrOff ch.rdOff

/-- The cells they are in, oldest first. -/
def unreadCell (ch : OsRttChannel) (j : ℕ) : Word := Lib.unreadCell ch.size ch.rdOff j

end OsRttChannel

/-- Where the loop of `os_rtt_write` stands, at `data[i]`. -/
inductive Writer
  | test (i : ℕ)
  | full (i : ℕ) (next : Word)
  | index (i : ℕ) (next : Word)
  | store (i : ℕ) (next idx : Word)
  | publish (i : ℕ) (next : Word)
  | done (i : ℕ)
  deriving DecidableEq

/-- One access of `os_rtt_write(data, len)`. -/
def writerStep (data : List Byte) (ch : OsRttChannel) : Writer → OsRttChannel × Writer
  | .test i => if i < data.length then (ch, .full i (ch.next ch.wrOff)) else (ch, .done i)
  | .full i next => if next = ch.rdOff then (ch, .done i) else (ch, .index i next)
  | .index i next => (ch, .store i next ch.wrOff)
  | .store i next idx =>
    ({ ch with buffer := Function.update ch.buffer idx (data.getD i 0) }, .publish i next)
  | .publish i next => ({ ch with wrOff := next }, .test (i + 1))
  | .done i => (ch, .done i)

/-- The loop of `os_rtt_write` with nothing in between. -/
def osRttWrite : List Byte → OsRttChannel → OsRttChannel
  | [], ch => ch
  | b :: data, ch =>
    if ch.next ch.wrOff = ch.rdOff then ch
    else osRttWrite data { ch with
      buffer := Function.update ch.buffer ch.wrOff b, wrOff := ch.next ch.wrOff }

/-- What `os_rtt_puts(str)` hands to `os_rtt_write`: the bytes before the first `'\0'`. -/
def putsData (str : List Byte) : List Byte := str.takeWhile (· ≠ 0)

/-- Where the loop of `os_rtt_read` stands, with `got` in `data[0..count]`. -/
inductive Reader
  | test (got : List Byte)
  | compare (got : List Byte) (rd : Word)
  | index (got : List Byte)
  | fetch (got : List Byte) (idx : Word)
  | bump (got : List Byte)
  | again (got : List Byte)
  | release (got : List Byte) (next : Word)
  | done (got : List Byte)
  deriving DecidableEq

/-- One access of `os_rtt_read(data, len)`. -/
def readerStep (len : ℕ) (ch : OsRttChannel) : Reader → OsRttChannel × Reader
  | .test got => if got.length < len then (ch, .compare got ch.rdOff) else (ch, .done got)
  | .compare got rd => if rd ≠ ch.wrOff then (ch, .index got) else (ch, .done got)
  | .index got => (ch, .fetch got ch.rdOff)
  | .fetch got idx => (ch, .bump (got ++ [ch.buffer idx]))
  | .bump got => if ch.rdOff + 1 = ch.size then (ch, .release got 0) else (ch, .again got)
  | .again got => (ch, .release got (ch.rdOff + 1))
  | .release got next => ({ ch with rdOff := next }, .test got)
  | .done got => (ch, .done got)

inductive Target
  | idle
  | writing (data : List Byte) (pc : Writer)
  | reading (len : ℕ) (pc : Reader)

inductive RttCall
  | write (data : List Byte)
  | puts (str : List Byte)
  | read (len : ℕ)

def RttCall.start : RttCall → Target
  | .write data => .writing data (.test 0)
  | .puts str => .writing (putsData str) (.test 0)
  | .read len => .reading len (.test [])

/-- The target and the host. `hostRd` is the cell of the up channel the host reads next, and
`hostWr` the cell of the down channel it fills next. -/
structure Rtt where
  cb : OsRttCb
  target : Target
  hostRd : Word
  hostWr : Word

inductive RttEvent
  | call (c : RttCall)
  | access
  | stored (idx : Word) (b : Byte)
  | wrote (data : List Byte) (n : ℕ)
  | read (bytes : List Byte)
  | took (b : Byte)
  | released
  | sent (idx : Word) (b : Byte)
  | published

/-- The event of a writer's step, and where it leaves the target: a call returns as soon as
its loop ends. -/
def writerEvent (data : List Byte) (pc : Writer) : Writer → RttEvent × Target
  | .done n => (.wrote data n, .idle)
  | pc' =>
    match pc with
    | .store i _ idx => (.stored idx (data.getD i 0), .writing data pc')
    | _ => (.access, .writing data pc')

def readerEvent (len : ℕ) : Reader → RttEvent × Target
  | .done got => (.read got, .idle)
  | pc' => (.access, .reading len pc')

inductive Rtt.Step (s : Rtt) : RttEvent → Rtt → Prop
  | call (c : RttCall) : s.target = .idle → s.Step (.call c) { s with target := c.start }
  | write {data : List Byte} {pc : Writer} : s.target = .writing data pc →
      s.Step (writerEvent data pc (writerStep data s.cb.up pc).2).1
        { s with
          cb := { s.cb with up := (writerStep data s.cb.up pc).1 }
          target := (writerEvent data pc (writerStep data s.cb.up pc).2).2 }
  | read {len : ℕ} {pc : Reader} : s.target = .reading len pc →
      s.Step (readerEvent len (readerStep len s.cb.down pc).2).1
        { s with
          cb := { s.cb with down := (readerStep len s.cb.down pc).1 }
          target := (readerEvent len (readerStep len s.cb.down pc).2).2 }
  -- the host reads no further than `wr_off`, and releases what it has read
  | took : s.hostRd ≠ s.cb.up.wrOff →
      s.Step (.took (s.cb.up.buffer s.hostRd)) { s with hostRd := s.cb.up.next s.hostRd }
  | released : s.Step .released
      { s with cb := { s.cb with up := { s.cb.up with rdOff := s.hostRd } } }
  -- it never fills the last free cell, and publishes what it has written
  | sent (b : Byte) : s.cb.down.next s.hostWr ≠ s.cb.down.rdOff →
      s.Step (.sent s.hostWr b) { s with
        cb := { s.cb with down := { s.cb.down with
          buffer := Function.update s.cb.down.buffer s.hostWr b } }
        hostWr := s.cb.down.next s.hostWr }
  | published : s.Step .published
      { s with cb := { s.cb with down := { s.cb.down with wrOff := s.hostWr } } }

/-- The sizes `OS_RTT_UP_BUF_SIZE` and `OS_RTT_DOWN_BUF_SIZE`, 256 and 16 unless a build sets them;
a C array has an element. -/
structure RttSizes where
  up : Word
  down : Word
  up_pos : 0 < up.toNat
  down_pos : 0 < down.toNat

def emptyChannel (size : Word) : OsRttChannel := ⟨fun _ => 0, size, 0, 0⟩

/-- `g_rtt_cb` as it is linked. -/
def RttSizes.init (z : RttSizes) : Rtt := ⟨⟨emptyChannel z.up, emptyChannel z.down⟩, .idle, 0, 0⟩

/-- Any interleaving, with the states its steps were made in. -/
inductive RttRun (z : RttSizes) : List (Rtt × RttEvent) → Rtt → Prop
  | init : RttRun z [] z.init
  | snoc {tr : List (Rtt × RttEvent)} {s s' : Rtt} {e : RttEvent} : RttRun z tr s → s.Step e s' →
      RttRun z (tr ++ [(s, e)]) s'

/-! What a run has carried. -/

namespace RttEvent

/-- Of a call of `os_rtt_write` that returns, the prefix it accepted. -/
def wroteBytes : RttEvent → List Byte
  | .wrote data n => data.take n
  | _ => []

def storedBytes : RttEvent → List Byte
  | .stored _ b => [b]
  | _ => []

def tookBytes : RttEvent → List Byte
  | .took b => [b]
  | _ => []

def sentBytes : RttEvent → List Byte
  | .sent _ b => [b]
  | _ => []

/-- Of a call of `os_rtt_read` that returns, `data[0..count]`. -/
def readBytes : RttEvent → List Byte
  | .read bytes => bytes
  | _ => []

end RttEvent

/-- The bytes of a kind that a run has carried, in order. -/
def carried (f : RttEvent → List Byte) (tr : List (Rtt × RttEvent)) : List Byte :=
  tr.flatMap fun x => f x.2

def Writer.count : Writer → ℕ
  | .test i => i
  | .full i _ => i
  | .index i _ => i
  | .store i _ _ => i
  | .publish i _ => i
  | .done i => i

/-- The bytes that the call under way has accepted so far. -/
def Target.accepted : Target → List Byte
  | .writing data pc => data.take pc.count
  | _ => []

/-- The accepted prefixes of all calls of `os_rtt_write`, in call order. -/
def acceptedBytes (tr : List (Rtt × RttEvent)) (s : Rtt) : List Byte :=
  carried RttEvent.wroteBytes tr ++ s.target.accepted

/-! Runs can be played. -/

inductive RttMove
  | call (c : RttCall)
  | target
  | take
  | release
  | send (b : Byte)
  | publish

def Rtt.next (s : Rtt) : RttMove → Option (RttEvent × Rtt)
  | .call c =>
    match s.target with
    | .idle => some (.call c, { s with target := c.start })
    | _ => none
  | .target =>
    match s.target with
    | .idle => none
    | .writing data pc =>
      let r := writerStep data s.cb.up pc
      let e := writerEvent data pc r.2
      some (e.1, { s with cb := { s.cb with up := r.1 }, target := e.2 })
    | .reading len pc =>
      let r := readerStep len s.cb.down pc
      let e := readerEvent len r.2
      some (e.1, { s with cb := { s.cb with down := r.1 }, target := e.2 })
  | .take =>
    if s.hostRd ≠ s.cb.up.wrOff then
      some (.took (s.cb.up.buffer s.hostRd), { s with hostRd := s.cb.up.next s.hostRd })
    else none
  | .release =>
    some (.released, { s with cb := { s.cb with up := { s.cb.up with rdOff := s.hostRd } } })
  | .send b =>
    if s.cb.down.next s.hostWr ≠ s.cb.down.rdOff then
      some (.sent s.hostWr b, { s with
        cb := { s.cb with down := { s.cb.down with
          buffer := Function.update s.cb.down.buffer s.hostWr b } }
        hostWr := s.cb.down.next s.hostWr })
    else none
  | .publish =>
    some (.published, { s with cb := { s.cb with down := { s.cb.down with wrOff := s.hostWr } } })

theorem Rtt.next_step {s s' : Rtt} {m : RttMove} {e : RttEvent} (h : s.next m = some (e, s')) :
    s.Step e s' := by
  cases m with
  | call c =>
    simp only [Rtt.next] at h
    split at h
    · obtain ⟨rfl, rfl⟩ := Prod.mk.inj (Option.some.inj h)
      exact .call c ‹_›
    · cases h
  | target =>
    simp only [Rtt.next] at h
    split at h
    · cases h
    · obtain ⟨rfl, rfl⟩ := Prod.mk.inj (Option.some.inj h)
      exact .write ‹_›
    · obtain ⟨rfl, rfl⟩ := Prod.mk.inj (Option.some.inj h)
      exact .read ‹_›
  | take =>
    simp only [Rtt.next] at h
    split_ifs at h with hp
    obtain ⟨rfl, rfl⟩ := Prod.mk.inj (Option.some.inj h)
    exact .took hp
  | release =>
    obtain ⟨rfl, rfl⟩ := Prod.mk.inj (Option.some.inj h)
    exact .released
  | send b =>
    simp only [Rtt.next] at h
    split_ifs at h with hp
    obtain ⟨rfl, rfl⟩ := Prod.mk.inj (Option.some.inj h)
    exact .sent b hp
  | publish =>
    obtain ⟨rfl, rfl⟩ := Prod.mk.inj (Option.some.inj h)
    exact .published

def Rtt.play (s : Rtt) : List RttMove → Option (List (Rtt × RttEvent) × Rtt)
  | [] => some ([], s)
  | m :: ms =>
    match s.next m with
    | some (e, s') => (Rtt.play s' ms).map fun x => ((s, e) :: x.1, x.2)
    | none => none

theorem RttRun.play {z : RttSizes} {tr tr' : List (Rtt × RttEvent)} {s s' : Rtt} {ms : List RttMove}
    (h : RttRun z tr s) (hp : s.play ms = some (tr', s')) : RttRun z (tr ++ tr') s' := by
  induction ms generalizing tr tr' s with
  | nil =>
    obtain ⟨rfl, rfl⟩ := Prod.mk.inj (Option.some.inj hp)
    rwa [List.append_nil]
  | cons m ms ih =>
    simp only [Rtt.play] at hp
    split at hp
    · rename_i e s₁ hs₁
      obtain ⟨⟨tr₁, s₂⟩, hx, heq⟩ := Option.map_eq_some_iff.1 hp
      obtain ⟨rfl, rfl⟩ := Prod.mk.inj heq
      have := ih (h.snoc (Rtt.next_step hs₁)) hx
      rwa [List.append_assoc] at this
    · cases hp

theorem RttSizes.play_exists (z : RttSizes) (ms : List RttMove)
    (P : List (Rtt × RttEvent) → Rtt → Prop) [∀ tr s, Decidable (P tr s)]
    (h : ((z.init.play ms).any fun x => decide (P x.1 x.2)) = true) :
    ∃ tr s, RttRun z tr s ∧ P tr s := by
  obtain ⟨⟨tr, s⟩, hx, hP⟩ := (Option.any_eq_true _ _).1 h
  exact ⟨tr, s, RttRun.init.play hx, of_decide_eq_true hP⟩

end Rtos

import Rtos.Kernel.Run
import Rtos.Lib.Ring

/-! `kernel/queue.c`: a blocking queue for any number of senders and receivers, over the
kernel's semaphores and mutexes. `os_queue_send` and `os_queue_recv` are user code, so a
task may be preempted between any two of their steps: a syscall, the copy, and the update
of an index. -/

namespace Rtos

open Lib

/-- The mutex and the semaphores are fields of the source's `os_queue_t`, so they are
three different objects. -/
structure OsQueue where
  storage : Word
  msgSize : Word
  capacity : Word
  head : Word
  tail : Word
  lock : MutexId
  spaces : SemId
  items : SemId
  spaces_ne_items : spaces ≠ items

def osQueueInit (storage msgSize capacity : Word) (queue : OsQueue) (k : Kernel) :
    ℤ × OsQueue × Kernel :=
  if storage = 0 ∨ msgSize = 0 ∨ capacity = 0 then (-1, queue, k)
  else
    let queue := { queue with storage, msgSize, capacity, head := 0, tail := 0 }
    match osMutexInit queue.lock k with
    | (0, k) =>
      match osSemInit queue.spaces capacity.toInt k with
      | (0, k) =>
        match osSemInit queue.items 0 k with
        | (0, k) => (0, queue, k)
        | (_, k) => (-1, queue, k)
      | (_, k) => (-1, queue, k)
    | (_, k) => (-1, queue, k)

/-- Nobody has the queue's lock, and nobody waits for its semaphores. -/
def OsQueue.Unused (queue : OsQueue) (k : Kernel) : Prop :=
  (k.mutex queue.lock).owner = none ∧ (k.queue (.sem queue.spaces)).head = none ∧
    (k.queue (.sem queue.items)).head = none

instance (queue : OsQueue) (k : Kernel) : Decidable (queue.Unused k) :=
  inferInstanceAs (Decidable (_ ∧ _))

/-- A call with a non-null `msg`. -/
inductive QueueCall
  | send (msg : Message)
  | recv
  deriving DecidableEq

/-- The step a call is about to make. `undo` gives the token back after a failed lock. -/
inductive QueueStage
  | take
  | lock
  | undo (ret : ℤ)
  | copy
  | index
  | unlock
  | give
  deriving DecidableEq

inductive QueuePc
  | outside
  | inside (call : QueueCall) (stage : QueueStage)
  deriving DecidableEq

/-- The semaphore a call takes from. -/
def OsQueue.source (queue : OsQueue) : QueueCall → SemId
  | .send _ => queue.spaces
  | .recv => queue.items

/-- The semaphore a call gives to. -/
def OsQueue.target (queue : OsQueue) : QueueCall → SemId
  | .send _ => queue.items
  | .recv => queue.spaces

/-- `index++`, and back to 0 at the end of the storage. -/
def OsQueue.nextIndex (queue : OsQueue) (index : Word) : Word :=
  if index + 1 = queue.capacity then 0 else index + 1

structure QueueSys where
  kernel : Kernel
  queue : OsQueue
  mem : Word → Byte
  pc : TaskId → QueuePc

inductive QueueEvent
  | other
  | called
  | refused
  | progress
  | copiedIn (msg : Message)
  | copiedOut (msg : Message)
  | returned (ret : ℤ)

namespace QueueSys

def goto (s : QueueSys) (t : TaskId) (pc : QueuePc) : QueueSys :=
  { s with pc := Function.update s.pc t pc }

/-- The syscall a call is about to make, if that is its next step. -/
def syscall (queue : OsQueue) (call : QueueCall) : QueueStage → Option Syscall
  | .take => some (.semTake (some (queue.source call)))
  | .lock => some (.mutexLock (some queue.lock))
  | .undo _ => some (.semGive (some (queue.source call)))
  | .unlock => some (.mutexUnlock (some queue.lock))
  | .give => some (.semGive (some (queue.target call)))
  | .copy => none
  | .index => none

/-- What a call does once the syscall of its stage has returned `ret`. -/
def resume (call : QueueCall) (ret : ℤ) : QueueStage → QueueEvent × QueuePc
  | .take => if ret ≠ 0 then (.returned ret, .outside) else (.progress, .inside call .lock)
  | .lock =>
    if ret ≠ 0 then (.progress, .inside call (.undo ret)) else (.progress, .inside call .copy)
  | .undo r => (.returned r, .outside)
  | .unlock => if ret ≠ 0 then (.returned ret, .outside) else (.progress, .inside call .give)
  | .give => (.returned ret, .outside)
  | stage => (.progress, .inside call stage)

/-- The copy between the message and its slot. -/
def copy (s : QueueSys) : QueueCall → QueueEvent × QueueSys
  | .send msg =>
    (.copiedIn msg, { s with
      mem := storeBytes s.mem (slotAddr s.queue.storage s.queue.msgSize s.queue.tail) msg })
  | .recv =>
    (.copiedOut (loadBytes s.mem (slotAddr s.queue.storage s.queue.msgSize s.queue.head)
      s.queue.msgSize.toNat), s)

def updateIndex (s : QueueSys) : QueueCall → QueueSys
  | .send _ => { s with queue := { s.queue with tail := s.queue.nextIndex s.queue.tail } }
  | .recv => { s with queue := { s.queue with head := s.queue.nextIndex s.queue.head } }

end QueueSys

/-- `t` executes: it is the current task, no switch is pending, and it is not the idle task. -/
def Globals.Runs (g : Globals) (t : TaskId) : Prop :=
  g.TaskRuns ∧ g.gCurrent = some t ∧ g.gCurrent ≠ g.idle

/-- A syscall that names none of the queue's objects. -/
def OsQueue.Foreign (queue : OsQueue) : Syscall → Prop
  | .semTake s => s ≠ some queue.spaces ∧ s ≠ some queue.items
  | .semGive s => s ≠ some queue.spaces ∧ s ≠ some queue.items
  | .mutexLock m => m ≠ some queue.lock
  | .mutexUnlock m => m ≠ some queue.lock
  | _ => True

/-- One step of the system: a tick, a switch, a task that is in no call of the queue and
does something else, or a step of a call. -/
inductive QueueStep (s : QueueSys) : QueueEvent → QueueSys → Prop
  | interrupt {e : Entry} {r : ℤ} {k : Kernel} : e = .sysTick ∨ e = .pendSV → s.kernel.Enabled e →
      (exec s.kernel e).Returns (r, k) → QueueStep s .other { s with kernel := k }
  | other {t : TaskId} {c : Syscall} {r : ℤ} {k : Kernel} : s.kernel.Runs t → s.pc t = .outside →
      s.queue.Foreign c → (exec s.kernel (.svc c)).Returns (r, k) →
      QueueStep s .other { s with kernel := k }
  | refuse {t : TaskId} : s.kernel.Runs t → s.pc t = .outside → QueueStep s .refused s
  | call {t : TaskId} {call : QueueCall} : s.kernel.Runs t → s.pc t = .outside →
      (∀ msg, call = .send msg → msg.length = s.queue.msgSize.toNat) →
      QueueStep s .called (s.goto t (.inside call .take))
  | syscall {t : TaskId} {call : QueueCall} {stage : QueueStage} {c : Syscall} {r : ℤ} {k : Kernel} :
      s.kernel.Runs t → s.pc t = .inside call stage →
      QueueSys.syscall s.queue call stage = some c → (exec s.kernel (.svc c)).Returns (r, k) →
      QueueStep s (QueueSys.resume call r stage).1
        (({ s with kernel := k } : QueueSys).goto t (QueueSys.resume call r stage).2)
  | copy {t : TaskId} {call : QueueCall} : s.kernel.Runs t → s.pc t = .inside call .copy →
      QueueStep s (s.copy call).1 ((s.copy call).2.goto t (.inside call .index))
  | index {t : TaskId} {call : QueueCall} : s.kernel.Runs t → s.pc t = .inside call .index →
      QueueStep s .progress ((s.updateIndex call).goto t (.inside call .unlock))

/-- A run from a state in which no task is in a call. -/
inductive QueueRun (s₀ : QueueSys) : List QueueEvent → QueueSys → Prop
  | init : QueueRun s₀ [] s₀
  | snoc {es : List QueueEvent} {s s' : QueueSys} {e : QueueEvent} : QueueRun s₀ es s →
      QueueStep s e s' → QueueRun s₀ (es ++ [e]) s'

/-- The messages copied in, in the order of the critical sections. -/
def copiesIn (es : List QueueEvent) : List Message :=
  es.filterMap fun
    | .copiedIn msg => some msg
    | _ => none

def copiesOut (es : List QueueEvent) : List Message :=
  es.filterMap fun
    | .copiedOut msg => some msg
    | _ => none

/-- What a FIFO would have seen. -/
def queueOps (es : List QueueEvent) : List (Fifo.Op Message) :=
  es.filterMap fun
    | .copiedIn msg => some (.enq msg)
    | .copiedOut msg => some (.deq msg)
    | _ => none

/-! Runs can be played. -/

instance (g : Globals) (t : TaskId) : Decidable (g.Runs t) :=
  inferInstanceAs (Decidable (g.pendsv = false ∧ g.gCurrent = some t ∧ g.gCurrent ≠ g.idle))

/-- A queue before its initialisation. -/
def OsQueue.small : OsQueue where
  storage := 0
  msgSize := 0
  capacity := 0
  head := 0
  tail := 0
  lock := 0
  spaces := 0
  items := 1
  spaces_ne_items := by decide

/-- An interrupt, a call by `t`, or the next step of the call `t` is in. -/
inductive QueueMove
  | interrupt (e : Entry)
  | call (t : TaskId) (call : QueueCall)
  | go (t : TaskId)

/-- The next step of the call of `t`, with a budget of `n` loop rounds. -/
def QueueSys.go (n : ℕ) (s : QueueSys) (t : TaskId) : QueuePc → Option (QueueEvent × QueueSys)
  | .outside => none
  | .inside call .copy => some ((s.copy call).1, (s.copy call).2.goto t (.inside call .index))
  | .inside call .index => some (.progress, (s.updateIndex call).goto t (.inside call .unlock))
  | .inside call stage =>
    match QueueSys.syscall s.queue call stage with
    | some c => ((exec s.kernel (.svc c)).run n).map fun x => ((QueueSys.resume call x.1 stage).1,
        ({ s with kernel := x.2 } : QueueSys).goto t (QueueSys.resume call x.1 stage).2)
    | none => none

def QueueSys.move (n : ℕ) (s : QueueSys) : QueueMove → Option (QueueEvent × QueueSys)
  | .interrupt e =>
    if (e = .sysTick ∨ e = .pendSV) ∧ s.kernel.Enabled e then
      ((exec s.kernel e).run n).map fun x => (.other, { s with kernel := x.2 })
    else none
  | .call t .recv =>
    if s.kernel.Runs t ∧ s.pc t = .outside then some (.called, s.goto t (.inside .recv .take))
    else none
  | .call t (.send msg) =>
    if s.kernel.Runs t ∧ s.pc t = .outside ∧ msg.length = s.queue.msgSize.toNat then
      some (.called, s.goto t (.inside (.send msg) .take))
    else none
  | .go t => if s.kernel.Runs t then s.go n t (s.pc t) else none

theorem QueueSys.go_step {n : ℕ} {s s' : QueueSys} {t : TaskId} {pc : QueuePc} {e : QueueEvent}
    (ht : s.kernel.Runs t) (hpc : s.pc t = pc) (h : s.go n t pc = some (e, s')) :
    QueueStep s e s' := by
  unfold QueueSys.go at h
  split at h
  · cases h
  · cases h
    exact .copy ht hpc
  · cases h
    exact .index ht hpc
  · split at h
    · rename_i c hc
      obtain ⟨⟨r, k⟩, hr, hx⟩ := Option.map_eq_some_iff.1 h
      cases hx
      exact .syscall ht hpc hc ⟨n, hr⟩
    · cases h

theorem QueueSys.move_step {n : ℕ} {s s' : QueueSys} {m : QueueMove} {e : QueueEvent}
    (h : s.move n m = some (e, s')) : QueueStep s e s' := by
  unfold QueueSys.move at h
  split at h
  · split_ifs at h with he
    obtain ⟨⟨r, k⟩, hr, hx⟩ := Option.map_eq_some_iff.1 h
    cases hx
    exact .interrupt he.1 he.2 ⟨n, hr⟩
  · split_ifs at h with ht
    cases h
    exact .call ht.1 ht.2 nofun
  · split_ifs at h with ht
    cases h
    refine .call ht.1 ht.2.1 fun msg hm => ?_
    cases hm
    exact ht.2.2
  · split_ifs at h with ht
    exact QueueSys.go_step ht rfl h

def QueueSys.play (n : ℕ) (s : QueueSys) : List QueueMove → Option (List QueueEvent × QueueSys)
  | [] => some ([], s)
  | m :: ms =>
    match s.move n m with
    | some (e, s') => (s'.play n ms).map fun x => (e :: x.1, x.2)
    | none => none

theorem QueueRun.play {n : ℕ} {s₀ s s' : QueueSys} {es es' : List QueueEvent} {ms : List QueueMove}
    (h : QueueRun s₀ es s) (hp : s.play n ms = some (es', s')) : QueueRun s₀ (es ++ es') s' := by
  induction ms generalizing es es' s with
  | nil =>
    obtain ⟨rfl, rfl⟩ := Prod.mk.inj (Option.some.inj hp)
    rwa [List.append_nil]
  | cons m ms ih =>
    simp only [QueueSys.play] at hp
    split at hp
    · rename_i e s₁ hm
      obtain ⟨⟨es₁, s₂⟩, hx, heq⟩ := Option.map_eq_some_iff.1 hp
      obtain ⟨rfl, rfl⟩ := Prod.mk.inj heq
      have := ih (h.snoc (QueueSys.move_step hm)) hx
      rwa [List.append_assoc] at this
    · cases hp

/-- A check on the end of a played run is a fact about some run. -/
theorem QueueSys.play_exists {n : ℕ} {s₀ : QueueSys} {ms : List QueueMove}
    {P : List QueueEvent → QueueSys → Prop} [∀ es s, Decidable (P es s)]
    (h : ((s₀.play n ms).any fun x => decide (P x.1 x.2)) = true) :
    ∃ es s, QueueRun s₀ es s ∧ P es s := by
  obtain ⟨⟨es, s⟩, hx, hP⟩ := (Option.any_eq_true _ _).1 h
  exact ⟨es, s, QueueRun.play .init hx, of_decide_eq_true hP⟩

end Rtos

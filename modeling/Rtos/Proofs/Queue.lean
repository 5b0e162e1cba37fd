import Rtos.Proofs.QueueControl

/-! What the queue stores. When `i` messages have been copied in and `o` out, the messages
`o` to `i` are in their slots, `tail` is `i` and `head` is `o` around the ring; only the
call that has copied and not yet moved its index is one ahead of it, and it has the lock. -/

namespace Rtos

open Lib

open Model (Inv Outcome)

variable {b : Boot} {os : List Obs} {k k₀ : Kernel} {a : Model} {t u : TaskId} {x : SemId}
  {q q₀ : OsQueue} {call call' : QueueCall} {es : List QueueEvent} {e : QueueEvent}
  {s s₀ s' : QueueSys} {storage msgSize capacity : Word}

def OsQueue.index (q : OsQueue) : QueueCall → Word
  | .send _ => q.tail
  | .recv => q.head

/-- The copies that were made in the direction of a call. -/
def QueueCall.done (call : QueueCall) (i o : ℕ) : ℕ :=
  match call with
  | .send _ => i
  | .recv => o

theorem done_counts (i o : ℕ) :
    call.done (call.counts i o).1 (call.counts i o).2 = call.done i o + 1 := by
  cases call <;> rfl

theorem done_other (h : q.source call' ≠ q.source call) (i o : ℕ) :
    call'.done (call.counts i o).1 (call.counts i o).2 = call'.done i o := by
  cases call <;> cases call' <;> first | rfl | exact absurd rfl h

/-- An event that copies nothing, and no error. -/
def QueueEvent.Quiet (e : QueueEvent) : Prop :=
  copiesIn [e] = [] ∧ copiesOut [e] = [] ∧ queueOps [e] = [] ∧ ∀ r, e = .returned r → r = 0

theorem copiesIn_append (es es' : List QueueEvent) : copiesIn (es ++ es') = copiesIn es ++ copiesIn es' :=
  List.filterMap_append

theorem copiesOut_append (es es' : List QueueEvent) :
    copiesOut (es ++ es') = copiesOut es ++ copiesOut es' :=
  List.filterMap_append

theorem queueOps_append (es es' : List QueueEvent) : queueOps (es ++ es') = queueOps es ++ queueOps es' :=
  List.filterMap_append

namespace QueueSys

variable (s : QueueSys) (t : TaskId) (c : QueuePc)

@[simp] theorem goto_kernel : (s.goto t c).kernel = s.kernel := rfl
@[simp] theorem goto_queue : (s.goto t c).queue = s.queue := rfl
@[simp] theorem goto_mem : (s.goto t c).mem = s.mem := rfl
@[simp] theorem goto_pc : (s.goto t c).pc = Function.update s.pc t c := rfl

end QueueSys

theorem copy_counts (s : QueueSys) : ((copiesIn (es ++ [(s.copy call).1])).length,
    (copiesOut (es ++ [(s.copy call).1])).length) =
      call.counts (copiesIn es).length (copiesOut es).length := by
  rw [copiesIn_append, copiesOut_append, List.length_append, List.length_append]
  cases call <;> rfl

theorem Globals.Runs.enabled {g : Globals} (h : g.Runs t) (c : Syscall) : g.Enabled (.svc c) :=
  ⟨h.1, h.2.2⟩

structure Stored (q : OsQueue) (es : List QueueEvent) (s : QueueSys) : Prop where
  same : s.queue = { q with head := s.queue.head, tail := s.queue.tail }
  sized : ∀ t msg stage, s.pc t = .inside (.send msg) stage → msg.length = q.msgSize.toNat
  index : ∀ call, (∀ t call', s.pc t = .inside call' .index → q.source call' ≠ q.source call) →
    s.queue.index call = ringIndex q.capacity (call.done (copiesIn es).length (copiesOut es).length)
  lags : ∀ t call, s.pc t = .inside call .index →
    ∃ n, call.done (copiesIn es).length (copiesOut es).length = n + 1 ∧
      s.queue.index call = ringIndex q.capacity n
  ring : Ring q.capacity.toNat (ringBytes q.storage q.msgSize s.mem) (copiesIn es) (copiesOut es).length
  taken : copiesOut es = (copiesIn es).take (copiesOut es).length
  fifo : Fifo.run q.capacity.toNat (queueOps es) = some ((copiesIn es).drop (copiesOut es).length)
  returns : ∀ r, .returned r ∈ es → r = 0

namespace Stored

variable (h : Stored q es s)
include h

theorem consts : s.queue.storage = q.storage ∧ s.queue.msgSize = q.msgSize ∧
    s.queue.capacity = q.capacity ∧ s.queue.lock = q.lock := by
  rw [h.same]
  exact ⟨rfl, rfl, rfl, rfl⟩

theorem source (call : QueueCall) : s.queue.source call = q.source call := by
  rw [h.same]
  cases call <;> rfl

theorem target (call : QueueCall) : s.queue.target call = q.target call := by
  rw [h.same]
  cases call <;> rfl

theorem syscall (call : QueueCall) (stage : QueueStage) :
    QueueSys.syscall s.queue call stage = QueueSys.syscall q call stage := by
  rw [h.same]
  cases call <;> cases stage <;> rfl

theorem sized_update {c : QueuePc}
    (hc : ∀ msg stage, c = .inside (.send msg) stage → msg.length = q.msgSize.toNat) :
    ∀ u msg stage, Function.update s.pc t c u = .inside (.send msg) stage →
      msg.length = q.msgSize.toNat := by
  intro u msg stage hu
  by_cases hut : u = t
  · rw [hut, Function.update_self] at hu
    exact hc msg stage hu
  · rw [Function.update_of_ne hut] at hu
    exact h.sized u msg stage hu

theorem index_lt (hpl : Placed q.storage q.msgSize q.capacity) (call : QueueCall) :
    s.queue.index call < q.capacity := by
  by_cases hlag : ∃ t call', s.pc t = .inside call' .index ∧ q.source call' = q.source call
  · obtain ⟨t, call', ht, hsrc⟩ := hlag
    obtain ⟨n, -, hn⟩ := h.lags t call' ht
    have hidx : s.queue.index call = s.queue.index call' := by
      cases call <;> cases call' <;>
        first
        | rfl
        | exact absurd hsrc q.spaces_ne_items
        | exact absurd hsrc q.spaces_ne_items.symm
    rw [hidx, hn]
    exact ringIndex_lt hpl.count_pos n
  · rw [h.index call fun t call' ht hsrc => hlag ⟨t, call', ht, hsrc⟩]
    exact ringIndex_lt hpl.count_pos _

/-- Nothing is copied, and no call comes to its index update or leaves it. -/
theorem quiet (he : e.Quiet) (hq : s'.queue = s.queue) (hm : s'.mem = s.mem)
    (hpc : ∀ t call, s'.pc t = .inside call .index ↔ s.pc t = .inside call .index)
    (hsized : ∀ t msg stage, s'.pc t = .inside (.send msg) stage → msg.length = q.msgSize.toNat) :
    Stored q (es ++ [e]) s' := by
  obtain ⟨h1, h2, h3, h4⟩ := he
  have hin : copiesIn (es ++ [e]) = copiesIn es := by rw [copiesIn_append, h1, List.append_nil]
  have hout : copiesOut (es ++ [e]) = copiesOut es := by rw [copiesOut_append, h2, List.append_nil]
  have hops : queueOps (es ++ [e]) = queueOps es := by rw [queueOps_append, h3, List.append_nil]
  refine ⟨by rw [hq]; exact h.same, hsized, ?_, ?_, ?_, ?_, ?_, fun r hr => ?_⟩
  · intro call hno
    rw [hin, hout, hq]
    exact h.index call fun t call' ht => hno t call' ((hpc t call').2 ht)
  · intro t call ht
    rw [hin, hout, hq]
    exact h.lags t call ((hpc t call).1 ht)
  · rw [hin, hout, hm]
    exact h.ring
  · rw [hin, hout]
    exact h.taken
  · rw [hin, hout, hops]
    exact h.fifo
  · rcases List.mem_append.1 hr with hr | hr
    · exact h.returns r hr
    · exact h4 r (List.mem_singleton.1 hr).symm

/-- A step of one call, other than its copy and its index update. -/
theorem goto {c : QueuePc} (k : Kernel) (he : e.Quiet) (ht : ∀ call, s.pc t ≠ .inside call .index)
    (hc : ∀ call, c ≠ .inside call .index)
    (hsized : ∀ msg stage, c = .inside (.send msg) stage → msg.length = q.msgSize.toNat) :
    Stored q (es ++ [e]) (({ s with kernel := k } : QueueSys).goto t c) := by
  refine h.quiet he rfl rfl (fun u call => ?_) (h.sized_update hsized)
  by_cases hut : u = t
  · simp [hut, hc, ht]
  · simp [hut]

/-- A copy by the call of `t`, which is then one ahead of its index. -/
theorem copied {mem : Word → Byte} (hno : ∀ u call', s.pc u ≠ .inside call' .index)
    (hpc : s.pc t = .inside call .copy)
    (hlen : ((copiesIn (es ++ [e])).length, (copiesOut (es ++ [e])).length) =
      call.counts (copiesIn es).length (copiesOut es).length)
    (hret : ∀ r, e ≠ .returned r)
    (hring : Ring q.capacity.toNat (ringBytes q.storage q.msgSize mem) (copiesIn (es ++ [e]))
      (copiesOut (es ++ [e])).length)
    (htaken : copiesOut (es ++ [e]) = (copiesIn (es ++ [e])).take (copiesOut (es ++ [e])).length)
    (hfifo : Fifo.run q.capacity.toNat (queueOps (es ++ [e])) =
      some ((copiesIn (es ++ [e])).drop (copiesOut (es ++ [e])).length)) :
    Stored q (es ++ [e]) (({ s with mem := mem } : QueueSys).goto t (.inside call .index)) := by
  have hin : (copiesIn (es ++ [e])).length =
      (call.counts (copiesIn es).length (copiesOut es).length).1 := congrArg Prod.fst hlen
  have hout : (copiesOut (es ++ [e])).length =
      (call.counts (copiesIn es).length (copiesOut es).length).2 := congrArg Prod.snd hlen
  have hat : ∀ u c, Function.update s.pc t (.inside call .index) u = .inside c .index →
      u = t ∧ c = call := by
    intro u c hu
    by_cases hut : u = t
    · rw [hut, Function.update_self] at hu
      cases hu
      exact ⟨hut, rfl⟩
    · rw [Function.update_of_ne hut] at hu
      exact absurd hu (hno u c)
  have hidx : ∀ c, s.queue.index c =
      ringIndex q.capacity (c.done (copiesIn es).length (copiesOut es).length) :=
    fun c => h.index c fun u c' hu => absurd hu (hno u c')
  refine ⟨h.same, h.sized_update fun msg stage hc => ?_, fun c hc => ?_, fun u c hu => ?_, hring,
    htaken, hfifo, fun r hr => ?_⟩
  · cases hc
    exact h.sized t msg .copy hpc
  · have hne := hc t call (Function.update_self ..)
    rw [hin, hout, done_other (q := q) (Ne.symm hne)]
    exact hidx c
  · obtain ⟨-, rfl⟩ := hat u c hu
    rw [hin, hout, done_counts]
    exact ⟨_, rfl, hidx c⟩
  · rcases List.mem_append.1 hr with hr | hr
    · exact h.returns r hr
    · exact absurd (List.mem_singleton.1 hr).symm (hret r)

theorem copy (hpl : Placed q.storage q.msgSize q.capacity)
    (hle : (copiesOut es).length ≤ (copiesIn es).length)
    (hr : call.Ready q (copiesIn es).length (copiesOut es).length)
    (hno : ∀ u call', s.pc u ≠ .inside call' .index) (hpc : s.pc t = .inside call .copy) :
    Stored q (es ++ [(s.copy call).1]) ((s.copy call).2.goto t (.inside call .index)) := by
  have hidx := h.index call fun u c' hu => absurd hu (hno u c')
  obtain ⟨hst, hsz, -, -⟩ := h.consts
  cases call with
  | send msg =>
    have hin : copiesIn (es ++ [.copiedIn msg]) = copiesIn es ++ [msg] := copiesIn_append ..
    have hout : copiesOut (es ++ [.copiedIn msg]) = copiesOut es := by
      rw [copiesOut_append]
      exact List.append_nil _
    have hops : queueOps (es ++ [.copiedIn msg]) = queueOps es ++ [.enq msg] := queueOps_append ..
    have hslot : slotAddr s.queue.storage s.queue.msgSize s.queue.tail =
        ringSlot q.storage q.msgSize q.capacity (copiesIn es).length := by
      rw [hst, hsz, show s.queue.tail = _ from hidx]
      rfl
    refine h.copied hno hpc (copy_counts s) (fun r hr => by cases hr) ?_ ?_ ?_ <;>
      rw [show (s.copy (.send msg)).1 = .copiedIn msg from rfl]
    · rw [hin, hout, hslot]
      exact hpl.push h.ring (h.sized t msg .copy hpc) hr
    · rw [hin, hout, List.take_append_of_le_length hle]
      exact h.taken
    · rw [hops, Fifo.run_snoc h.fifo, hin, hout, List.drop_append_of_le_length hle, Fifo.step,
        if_pos]
      rw [List.length_drop]
      rw [QueueCall.Ready] at hr
      omega
  | recv =>
    obtain ⟨msg, hmsg⟩ : ∃ msg, (copiesIn es)[(copiesOut es).length]? = some msg :=
      ⟨_, List.getElem?_eq_getElem hr⟩
    have hload : loadBytes s.mem (slotAddr s.queue.storage s.queue.msgSize s.queue.head)
        s.queue.msgSize.toNat = msg := by
      rw [hst, hsz, show s.queue.head = _ from hidx]
      exact h.ring _ _ le_rfl hmsg
    have he : (s.copy .recv).1 = .copiedOut msg := by rw [QueueSys.copy, hload]
    rw [he]
    have hin : copiesIn (es ++ [.copiedOut msg]) = copiesIn es := by
      rw [copiesIn_append]
      exact List.append_nil _
    have hout : copiesOut (es ++ [.copiedOut msg]) = copiesOut es ++ [msg] := copiesOut_append ..
    have hops : queueOps (es ++ [.copiedOut msg]) = queueOps es ++ [.deq msg] := queueOps_append ..
    have hlen : (copiesOut es ++ [msg]).length = (copiesOut es).length + 1 := by simp
    refine h.copied hno hpc (by rw [hin, hout, hlen]; rfl) (fun r hr => by cases hr) ?_ ?_ ?_
    · rw [hin, hout, hlen]
      exact h.ring.advance (Nat.le_succ _)
    · rw [hin, hout, hlen, List.take_add_one, ← h.taken, hmsg]
      rfl
    · rw [hops, Fifo.run_snoc h.fifo, hin, hout, hlen, Fifo.step, if_pos, List.tail_drop]
      rw [List.head?_drop, hmsg]

/-- The index update: `t` is the only call that has copied and not updated. -/
theorem updateIndex (hpl : Placed q.storage q.msgSize q.capacity)
    (honly : ∀ u call', s.pc u = .inside call' .index → u = t)
    (hpc : s.pc t = .inside call .index) :
    Stored q (es ++ [.progress]) ((s.updateIndex call).goto t (.inside call .unlock)) := by
  have hin : copiesIn (es ++ [.progress]) = copiesIn es := by
    rw [copiesIn_append]
    exact List.append_nil _
  have hout : copiesOut (es ++ [.progress]) = copiesOut es := by
    rw [copiesOut_append]
    exact List.append_nil _
  have hops : queueOps (es ++ [.progress]) = queueOps es := by
    rw [queueOps_append]
    exact List.append_nil _
  have hno : ∀ u call', Function.update s.pc t (.inside call .unlock) u ≠ .inside call' .index := by
    intro u call' hu
    by_cases hut : u = t
    · rw [hut, Function.update_self] at hu
      cases hu
    · rw [Function.update_of_ne hut] at hu
      exact hut (honly u call' hu)
  obtain ⟨n, hn, hidx⟩ := h.lags t call hpc
  have hnext : s.queue.nextIndex (s.queue.index call) = ringIndex q.capacity (n + 1) := by
    rw [OsQueue.nextIndex, hidx, h.consts.2.2.1]
    exact ringIndex_succ hpl.count_pos n
  have hsame : (s.updateIndex call).queue = { q with
      head := (s.updateIndex call).queue.head, tail := (s.updateIndex call).queue.tail } := by
    cases call with
    | send msg => exact congrArg (fun x => { x with tail := s.queue.nextIndex s.queue.tail }) h.same
    | recv => exact congrArg (fun x => { x with head := s.queue.nextIndex s.queue.head }) h.same
  have hindex : ∀ c, (s.updateIndex call).queue.index c =
      ringIndex q.capacity (c.done (copiesIn es).length (copiesOut es).length) := by
    intro c
    by_cases hc : q.source call = q.source c
    · have hcall : (s.updateIndex call).queue.index c = s.queue.nextIndex (s.queue.index call) ∧
          c.done (copiesIn es).length (copiesOut es).length =
            call.done (copiesIn es).length (copiesOut es).length := by
        cases call <;> cases c <;>
          first
          | exact ⟨rfl, rfl⟩
          | exact absurd hc q.spaces_ne_items
          | exact absurd hc q.spaces_ne_items.symm
      rw [hcall.1, hcall.2, hnext, hn]
    · have hcall : (s.updateIndex call).queue.index c = s.queue.index c := by
        cases call <;> cases c <;> first | rfl | exact absurd rfl hc
      rw [hcall]
      refine h.index c fun u c' hu => ?_
      obtain rfl := honly u c' hu
      rw [hpc] at hu
      cases hu
      exact hc
  have hmem : (s.updateIndex call).mem = s.mem := by cases call <;> rfl
  have hpcs : (s.updateIndex call).pc = s.pc := by cases call <;> rfl
  refine ⟨hsame, ?_, fun c _ => by rw [hin, hout]; exact hindex c, fun u c hu => ?_, ?_, ?_, ?_,
    fun r hr => ?_⟩
  · rw [QueueSys.goto_pc, hpcs]
    refine h.sized_update fun msg stage hc => ?_
    cases hc
    exact h.sized t msg .index hpc
  · rw [QueueSys.goto_pc, hpcs] at hu
    exact absurd hu (hno u c)
  · rw [hin, hout, QueueSys.goto_mem, hmem]
    exact h.ring
  · rw [hin, hout]
    exact h.taken
  · rw [hin, hout, hops]
    exact h.fifo
  · rcases List.mem_append.1 hr with hr | hr
    · exact h.returns r hr
    · cases List.mem_singleton.1 hr

end Stored

/-- The invariant of the system: the kernel's, and the queue's. -/
def QueueInv (q : OsQueue) (es : List QueueEvent) (s : QueueSys) : Prop :=
  ∃ a, Sim s.kernel a ∧ Inv a ∧ Control q (copiesIn es).length (copiesOut es).length a s.pc ∧
    Stored q es s

theorem Foreign.untouched {c : Syscall} (h : q.Foreign c) : Untouched q (.svc c) := by
  constructor
  · rintro x hx he
    cases he
    rcases hx with rfl | rfl
    · exact h.1 rfl
    · exact h.2 rfl
  · rintro x hx he
    cases he
    rcases hx with rfl | rfl
    · exact h.1 rfl
    · exact h.2 rfl
  · intro he
    cases he
    exact h rfl
  · intro he
    cases he
    exact h rfl

theorem interrupt_untouched {e : Entry} (h : e = .sysTick ∨ e = .pendSV) : Untouched q e := by
  rcases h with rfl | rfl <;> exact ⟨nofun, nofun, nofun, nofun⟩

theorem resume_quiet (call : QueueCall) {stage : QueueStage} (hst : ∀ r, stage ≠ .undo r) :
    (QueueSys.resume call 0 stage).1.Quiet := by
  cases stage with
  | undo r => exact absurd rfl (hst r)
  | give => exact ⟨rfl, rfl, rfl, fun r hr => by cases hr; rfl⟩
  | take => exact ⟨rfl, rfl, rfl, nofun⟩
  | lock => exact ⟨rfl, rfl, rfl, nofun⟩
  | copy => exact ⟨rfl, rfl, rfl, nofun⟩
  | index => exact ⟨rfl, rfl, rfl, nofun⟩
  | unlock => exact ⟨rfl, rfl, rfl, nofun⟩

/-- After a syscall that succeeds a call is done, or before a step other than its index update. -/
theorem resume_zero {stage : QueueStage} {c : Syscall} (h : QueueSys.syscall q call stage = some c) :
    (QueueSys.resume call 0 stage).2 = .outside ∨
      ∃ stage', (QueueSys.resume call 0 stage).2 = .inside call stage' ∧ stage' ≠ .index := by
  cases stage with
  | take => exact .inr ⟨.lock, rfl, nofun⟩
  | lock => exact .inr ⟨.copy, rfl, nofun⟩
  | undo r => exact .inl rfl
  | unlock => exact .inr ⟨.give, rfl, nofun⟩
  | give => exact .inl rfl
  | copy => cases h
  | index => cases h

/-- What is stored does not change when a syscall of a call returns 0. -/
theorem Stored.resume {stage : QueueStage} {c : Syscall} (h : Stored q es s) (k : Kernel)
    (hpc : s.pc t = .inside call stage) (hsys : QueueSys.syscall q call stage = some c)
    (he : (QueueSys.resume call 0 stage).1.Quiet) :
    Stored q (es ++ [(QueueSys.resume call 0 stage).1])
      (({ s with kernel := k } : QueueSys).goto t (QueueSys.resume call 0 stage).2) := by
  have hbefore : ∀ c', s.pc t ≠ .inside c' .index := by
    intro c' hx
    rw [hpc] at hx
    cases hx
    cases hsys
  rcases resume_zero hsys with h0 | ⟨stage', h0, hne⟩
  · rw [h0]
    exact h.goto k he hbefore nofun nofun
  · rw [h0]
    refine h.goto k he hbefore (fun c' hx => ?_) fun msg stage'' hm => ?_
    · cases hx
      exact hne rfl
    · cases hm
      exact h.sized t msg stage hpc

namespace Control

variable {i o : ℕ} {pc : TaskId → QueuePc} {stage : QueueStage}

/-- A quiet event counts no copy. -/
theorem quiet (h : Control q (copiesIn es).length (copiesOut es).length a pc) (he : e.Quiet) :
    Control q (copiesIn (es ++ [e])).length (copiesOut (es ++ [e])).length a pc := by
  obtain ⟨h1, h2, -, -⟩ := he
  rw [copiesIn_append, copiesOut_append, h1, h2, List.append_nil, List.append_nil]
  exact h

/-- A syscall of a call: it returns 0, and the call goes on. -/
theorem syscall {c : Syscall} {r : ℤ} {a' : Model} (h : Control q i o a pc) (hi : Inv a)
    (he : a.Enabled (.svc c)) (hc : a.gCurrent = some t) (ho : Outcome a t (.svc c) r a')
    (hcap : q.capacity.toNat < 2 ^ 31) (hpc : pc t = .inside call stage)
    (hs : QueueSys.syscall q call stage = some c) :
    r = 0 ∧ Control q i o a' (Function.update pc t (QueueSys.resume call 0 stage).2) := by
  cases stage with
  | take => exact h.take hi he hc ho hpc hcap (Option.some.inj hs).symm
  | lock => exact h.lockCall hi he hc ho hpc (Option.some.inj hs).symm
  | undo r => exact absurd hpc (h.noUndo t call r)
  | unlock => exact h.unlockCall hi he hc ho hpc (Option.some.inj hs).symm
  | give => exact h.give hi he hc ho hpc hcap (Option.some.inj hs).symm
  | copy => cases hs
  | index => cases hs

/-- Only the owner of the lock can have copied and not updated its index. -/
theorem index_owner (h : Control q i o a pc) (hown : (a.mutex q.lock).owner = some t)
    (hu : pc u = .inside call .index) : u = t :=
  Option.some.inj ((h.lock.owner_of_copied hu (.inl rfl)).symm.trans hown)

end Control

theorem QueueInv.step (h : QueueInv q es s) (hpl : Placed q.storage q.msgSize q.capacity)
    (hcap : q.capacity.toNat < 2 ^ 31) (hst : QueueStep s e s') : QueueInv q (es ++ [e]) s' := by
  obtain ⟨a, hs, hi, hctl, hsto⟩ := h
  have hruns : ∀ {t}, s.kernel.Runs t → a.pendsv = false ∧ a.gCurrent = some t ∧ a.gCurrent ≠ a.idle := by
    intro t ht
    rw [hs.globals] at ht
    exact ht
  have hquiet : QueueEvent.Quiet .other := ⟨rfl, rfl, rfl, nofun⟩
  cases hst with
  | interrupt he hen hr =>
    obtain ⟨cur, -, hc⟩ := hi.cur
    obtain ⟨a', hs', hi', ho⟩ := exec_sim hs hi hc hen hr
    have hctl' := hctl.other hi hc (hs.globals ▸ hen) ho (interrupt_untouched he) fun x hx => by
      rcases he with rfl | rfl <;> cases hx
    exact ⟨a', hs', hi', hctl'.quiet hquiet,
      hsto.quiet hquiet rfl rfl (fun _ _ => Iff.rfl) hsto.sized⟩
  | other ht hpc hf hr =>
    obtain ⟨-, hc, -⟩ := hruns ht
    obtain ⟨a', hs', hi', ho⟩ := exec_sim hs hi hc (ht.enabled _) hr
    rw [hsto.same] at hf
    have hctl' := hctl.other hi hc (hs.globals ▸ ht.enabled _) ho (Foreign.untouched hf)
      fun _ _ => hpc
    exact ⟨a', hs', hi', hctl'.quiet hquiet,
      hsto.quiet hquiet rfl rfl (fun _ _ => Iff.rfl) hsto.sized⟩
  | refuse ht hpc =>
    have hquiet : QueueEvent.Quiet .refused := ⟨rfl, rfl, rfl, nofun⟩
    exact ⟨a, hs, hi, hctl.quiet hquiet,
      hsto.quiet hquiet rfl rfl (fun _ _ => Iff.rfl) hsto.sized⟩
  | @call t call ht hpc hlen =>
    have hquiet : QueueEvent.Quiet .called := ⟨rfl, rfl, rfl, nofun⟩
    obtain ⟨hp, hc, -⟩ := hruns ht
    refine ⟨a, hs, hi, (hctl.enter hi hp hc call hpc).quiet hquiet,
      hsto.goto s.kernel hquiet (by simp [hpc]) (by simp) fun msg stage hm => ?_⟩
    cases hm
    rw [← hsto.consts.2.1]
    exact hlen msg rfl
  | @syscall t call stage c r k ht hpc hsys hr =>
    obtain ⟨-, hc, -⟩ := hruns ht
    obtain ⟨a', hs', hi', ho⟩ := exec_sim hs hi hc (ht.enabled _) hr
    rw [hsto.syscall] at hsys
    obtain ⟨rfl, hctl'⟩ := hctl.syscall hi (hs.globals ▸ ht.enabled _) hc ho hcap hpc hsys
    have hquiet := resume_quiet call fun r hr => hctl.noUndo t call r (hr ▸ hpc)
    exact ⟨a', hs', hi', hctl'.quiet hquiet, hsto.resume k hpc hsys hquiet⟩
  | @copy t call ht hpc =>
    obtain ⟨hp, hc, -⟩ := hruns ht
    have hown := hctl.lock.owner_of_runs hi hp hc (by rw [hpc]; rfl)
    obtain ⟨hready, hctl'⟩ := hctl.copy hi hp hc hpc
    have hno : ∀ u call', s.pc u ≠ .inside call' .index := by
      intro u call' hu
      obtain rfl := hctl.index_owner hown hu
      rw [hpc] at hu
      cases hu
    have hsim : Sim (s.copy call).2.kernel a := by cases call <;> exact hs
    refine ⟨a, hsim, hi, ?_, hsto.copy hpl hctl.le hready hno hpc⟩
    rw [← copy_counts s] at hctl'
    cases call <;> exact hctl'
  | @index t call ht hpc =>
    have hquiet : QueueEvent.Quiet .progress := ⟨rfl, rfl, rfl, nofun⟩
    obtain ⟨hp, hc, -⟩ := hruns ht
    have hown := hctl.lock.owner_of_copied hpc (.inl rfl)
    have hctl' := (hctl.index hi hp hc hpc).quiet hquiet
    refine ⟨a, ?_, hi, ?_, hsto.updateIndex hpl (fun u c' hu => hctl.index_owner hown hu) hpc⟩
    · cases call <;> exact hs
    · cases call <;> exact hctl'

/-- What `os_queue_init` has checked and set, when it returns 0. -/
theorem osQueueInit_ok (h : osQueueInit storage msgSize capacity q₀ k = (0, q, k₀)) :
    storage ≠ 0 ∧ msgSize ≠ 0 ∧ capacity ≠ 0 ∧ 0 ≤ capacity.toInt ∧
    q = { q₀ with storage, msgSize, capacity, head := 0, tail := 0 } ∧
    k₀ = (osSemInit q₀.items 0 (osSemInit q₀.spaces capacity.toInt (osMutexInit q₀.lock k).2).2).2 := by
  unfold osQueueInit at h
  split_ifs at h with hbad
  · cases h
  · push Not at hbad
    obtain ⟨h1, h2, h3⟩ := hbad
    by_cases hneg : capacity.toInt < 0
    · simp [osMutexInit, osSemInit, hneg] at h
    · simp only [osMutexInit, osSemInit, hneg, if_false, lt_irrefl, Prod.mk.injEq, true_and] at h ⊢
      exact ⟨h1, h2, h3, not_lt.1 hneg, h.1.symm, h.2.symm⟩

theorem Sim.taskQueueInit (hs : Sim k a) {r : QueueRef} (hl : a.list r = []) :
    Sim (osTaskQueueInit r k) a := by
  refine ⟨hs.globals, hs.data, fun r' => ?_, hs.disjoint, hs.timeouts⟩
  by_cases hr : r' = r
  · subst hr
    have := hs.repr r'
    rw [hl] at this ⊢
    refine ⟨List.nodup_nil, ?_, ?_, this.seg⟩ <;> simp [osTaskQueueInit, Kernel.setQueue]
  · have hq : (osTaskQueueInit r k).queue r' = k.queue r' := by
      simp [osTaskQueueInit, Kernel.setQueue, hr]
    rw [hq]
    exact hs.repr r'

theorem Sim.semInit (hs : Sim k a) {n : ℤ} (hn : 0 ≤ n) (hl : a.list (.sem x) = []) :
    Sim (osSemInit x n k).2 { a with semCount := Function.update a.semCount x n } := by
  rw [osSemInit, if_neg (not_lt.2 hn)]
  exact (hs.mapGlobals fun g => { g with semCount := Function.update g.semCount x n }).taskQueueInit hl

theorem Sim.mutexInit (hs : Sim k a) {m : MutexId} (ho : (a.mutex m).owner = none)
    (hl : a.list (.mutex m) = []) : Sim (osMutexInit m k).2 a := by
  have hset : a.setMutex m (fun x => { x with owner := none }) = a := by
    rw [Model.setMutex, ← ho]
    simp
  have := (hs.setMutex m fun x => { x with owner := none }).taskQueueInit (r := .mutex m) hl
  rwa [hset] at this

theorem outside_semOk {n : ℕ} (hs : a.semCount x = n) (hl : a.list (.sem x) = []) :
    SemOk q x n a fun _ => .outside := by
  refine ⟨by omega, fun _ => hl, by rw [hl]; nofun, ?_⟩
  simp [hs, held]

theorem queueInv_init {mem : Word → Byte} (h0 : Run b os k) (hun : q₀.Unused k)
    (hinit : osQueueInit storage msgSize capacity q₀ k = (0, q, k₀)) :
    QueueInv q [] ⟨k₀, q, mem, fun _ => .outside⟩ := by
  obtain ⟨a, hs, hi, hex⟩ := run_exclusive h0
  obtain ⟨-, -, -, hcap, hq, rfl⟩ := osQueueInit_ok hinit
  obtain ⟨hown, hsp, hit⟩ := hun
  have hnil : ∀ r, (k.queue r).head = none → a.list r = [] := by
    intro r hr
    rw [(hs.repr r).head] at hr
    exact List.head?_eq_none_iff.1 hr
  rw [hs.mutex] at hown
  have hlock := hex.ok.free _ hown
  have hs' := ((hs.mutexInit hown hlock).semInit hcap (hnil _ hsp)).semInit le_rfl (hnil _ hit)
  have h0 : ringIndex capacity 0 = 0 := by simp [ringIndex]
  refine ⟨_, hs', ?_, ?_, ?_⟩
  · exact hi.quiet (hi.wf.congr rfl (fun _ => ⟨Iff.rfl, rfl, rfl, rfl⟩) rfl rfl) rfl rfl
      (fun _ => ⟨rfl, rfl, rfl⟩) rfl rfl rfl hi.owner
  · subst hq
    refine ⟨le_rfl, Nat.zero_le _, by simp, by simp, ⟨hex.ok.free, hex.ok.apart⟩,
      ⟨?_, ?_, by simp [QueuePc.critical]⟩, fun _ _ _ _ => rfl, ?_⟩
    · intro t ht
      cases hown.symm.trans ht
    · intro t ht
      change t ∈ a.list (.mutex q₀.lock) at ht
      rw [hlock] at ht
      cases ht
    · rintro x (rfl | rfl)
      · refine outside_semOk ?_ (hnil _ hsp)
        have hne := q₀.spaces_ne_items
        rw [stock_spaces]
        simp only [Function.update_of_ne hne, Function.update_self]
        rw [BitVec.toInt_eq_toNat_cond] at hcap ⊢
        split_ifs at hcap ⊢ with hlt
        · simp [copiesIn, copiesOut]
        · have := capacity.isLt
          omega
      · refine outside_semOk ?_ (hnil _ hit)
        rw [stock_items]
        simp [copiesIn, copiesOut]
  · subst hq
    refine ⟨rfl, by simp, fun call _ => ?_, by simp, ?_, rfl, rfl, by simp⟩
    · cases call <;> exact h0.symm
    · intro j y _ hy
      cases hy

theorem osQueueInit_placed (hinit : osQueueInit storage msgSize capacity q₀ k = (0, q, k₀))
    (hfit : Fits storage msgSize capacity.toNat) :
    Placed storage msgSize capacity ∧ capacity.toNat < 2 ^ 31 ∧ q.storage = storage ∧
      q.msgSize = msgSize ∧ q.capacity = capacity := by
  obtain ⟨h1, h2, h3, hcap, rfl, -⟩ := osQueueInit_ok hinit
  refine ⟨⟨hfit, h1, by bv_omega, by bv_omega⟩, ?_, rfl, rfl, rfl⟩
  rw [BitVec.toInt_eq_toNat_cond] at hcap
  split_ifs at hcap <;> omega

theorem queueRun_inv {mem : Word → Byte} (h0 : Run b os k) (hun : q₀.Unused k)
    (hinit : osQueueInit storage msgSize capacity q₀ k = (0, q, k₀))
    (hfit : Fits storage msgSize capacity.toNat)
    (h : QueueRun ⟨k₀, q, mem, fun _ => .outside⟩ es s) : QueueInv q es s := by
  obtain ⟨hpl, hcap, rfl, rfl, rfl⟩ := osQueueInit_placed hinit hfit
  induction h with
  | init => exact queueInv_init h0 hun hinit
  | snoc _ hst ih => exact ih.step hpl hcap hst

/-! Quiet states: every call waits for a semaphore. -/

section Quiet

variable {i o : ℕ} {pc : TaskId → QueuePc} {stage : QueueStage} (h : Control q i o a pc)
  (hq : ∀ t, pc t ≠ .outside → ∃ x, t ∈ a.list (.sem x))
include h hq

theorem Control.waits_source (hpc : pc t = .inside call stage) :
    stage = .lock ∧ t ∈ a.list (.sem (q.source call)) := by
  obtain ⟨x, hx⟩ := hq t (by simp [hpc])
  by_cases hu : q.Uses x
  · obtain ⟨call', hc, rfl⟩ := (h.sems x hu).waits t hx
    rw [hpc] at hc
    cases hc
    exact ⟨rfl, hx⟩
  · rw [h.foreign x hu t hx] at hpc
    cases hpc

/-- Then nobody has a token of it, and there is none. -/
theorem Control.stock_zero (hpc : pc t = .inside call stage) : q.stock i o (q.source call) = 0 := by
  have hok := h.sems _ ((OsQueue.uses_iff call).2 (.inl rfl))
  have hw := (h.waits_source hq hpc).2
  have hheld : ∀ u ∈ a.tasks.toFinset,
      held q (q.source call) (a.list (.sem (q.source call))) u (pc u) = 0 := by
    intro u _
    cases hu : pc u with
    | outside => rfl
    | inside call' stage' =>
      obtain ⟨rfl, hmem⟩ := h.waits_source hq hu
      rw [held, if_neg, if_neg]
      · simp [QueueStage.after]
      · rintro ⟨hsrc, -, hnot⟩
        exact hnot (hsrc ▸ hmem)
  have hbal := hok.balance
  rw [Finset.sum_eq_zero hheld] at hbal
  have hcount : ¬ 0 < a.semCount (q.source call) := by
    intro hpos
    rw [hok.idle hpos] at hw
    cases hw
  have hnn := hok.nonneg
  omega

end Quiet

/-- The queue is a bounded FIFO, for any number of senders and receivers and however their
steps interleave. In a quiet state receivers wait only for an empty queue, and senders only
for a full one. -/
theorem queue_fifo {mem : Word → Byte} (h0 : Run b os k) (hun : q₀.Unused k)
    (hinit : osQueueInit storage msgSize capacity q₀ k = (0, q, k₀))
    (hfit : Fits storage msgSize capacity.toNat)
    (h : QueueRun ⟨k₀, q, mem, fun _ => .outside⟩ es s) :
    (∀ r, .returned r ∈ es → r = 0) ∧
    copiesOut es <+: copiesIn es ∧
    (∀ j msg, (copiesOut es).length ≤ j → (copiesIn es)[j]? = some msg →
      loadBytes s.mem (ringSlot storage msgSize capacity j) msgSize.toNat = msg) ∧
    s.queue.head < capacity ∧ s.queue.tail < capacity ∧
    (copiesIn es).length ≤ (copiesOut es).length + capacity.toNat ∧
    Fifo.run capacity.toNat (queueOps es) = some ((copiesIn es).drop (copiesOut es).length) ∧
    ((∀ t, s.pc t ≠ .outside → ∃ x, InTake s.kernel x t) →
      (∀ t stage, s.pc t = .inside .recv stage → copiesIn es = copiesOut es) ∧
      ∀ t msg stage, s.pc t = .inside (.send msg) stage →
        (copiesIn es).length = (copiesOut es).length + capacity.toNat) := by
  obtain ⟨a, hs, hi, hctl, hsto⟩ := queueRun_inv h0 hun hinit hfit h
  obtain ⟨hpl, -, rfl, rfl, rfl⟩ := osQueueInit_placed hinit hfit
  have hle := hctl.le
  have hroom := hctl.room
  refine ⟨hsto.returns, ?_, fun j msg hj hm => hsto.ring j msg hj hm, hsto.index_lt hpl .recv,
    hsto.index_lt hpl (.send []), hroom, hsto.fifo, fun hquiet => ?_⟩
  · rw [hsto.taken]
    exact List.take_prefix _ _
  · have hwait : ∀ t, s.pc t ≠ .outside → ∃ x, t ∈ a.list (.sem x) := by
      intro t ht
      obtain ⟨x, hx⟩ := hquiet t ht
      exact ⟨x, (hs.inTake_iff hi.wf (hctl.members t ht)).1 hx⟩
    refine ⟨fun t stage ht => ?_, fun t msg stage ht => ?_⟩
    · have hz := hctl.stock_zero hwait ht
      rw [OsQueue.source, stock_items] at hz
      rw [hsto.taken, List.take_of_length_le (by omega)]
    · have hz := hctl.stock_zero hwait ht
      rw [OsQueue.source, stock_spaces] at hz
      omega

theorem queueRun_members {mem : Word → Byte} (h0 : Run b os k) (hun : q₀.Unused k)
    (hinit : osQueueInit storage msgSize capacity q₀ k = (0, q, k₀))
    (hfit : Fits storage msgSize capacity.toNat)
    (h : QueueRun ⟨k₀, q, mem, fun _ => .outside⟩ es s) (ht : s.pc t ≠ .outside) :
    t ∈ s.kernel.tasks := by
  obtain ⟨a, hs, -, hctl, -⟩ := queueRun_inv h0 hun hinit hfit h
  rw [hs.tasks]
  exact hctl.members t ht

/-- A receiver waits, gets the message and its token from the sender, and waits again. -/
theorem queue_fifo_small : ∃ k q k₀ es s, osQueueInit 16 1 2 .small k = (0, q, k₀) ∧
    QueueRun ⟨k₀, q, fun _ => 0, fun _ => .outside⟩ es s ∧
    (copiesIn es = [[7]] ∧ s.pc 192 = .inside .recv .lock) ∧
    Fifo.run 2 (queueOps es) = some ((copiesIn es).drop (copiesOut es).length) ∧
    copiesIn es = copiesOut es := by
  have hfit : Fits (16 : Word) 1 (2 : Word).toNat := by
    unfold Fits
    decide
  obtain ⟨os, k, h0, hun, hret, hplay⟩ := Boot.play_exists (Boot.small [1, 2] 0 0 (by decide)) 10
    [.pendSV]
    (fun _ k => OsQueue.small.Unused k ∧ (osQueueInit 16 1 2 .small k).1 = 0 ∧
      ((QueueSys.play 10
        ⟨(osQueueInit 16 1 2 .small k).2.2, (osQueueInit 16 1 2 .small k).2.1, fun _ => 0,
          fun _ => .outside⟩
        [.call 192 .recv, .go 192, .interrupt .pendSV, .call 128 (.send [7]), .go 128, .go 128,
          .go 128, .go 128, .go 128, .go 128, .interrupt .pendSV, .go 192, .go 192, .go 192, .go 192,
          .go 192, .call 192 .recv, .go 192]).any fun x : List QueueEvent × QueueSys =>
        decide ((copiesIn x.1 = [[7]] ∧ x.2.pc 192 = .inside .recv .lock) ∧
          ∀ t ∈ x.2.kernel.tasks, x.2.pc t ≠ .outside → InTake x.2.kernel 1 t)) = true)
    (by decide +kernel)
  obtain ⟨es, s, hrun, hend, hwait⟩ := QueueSys.play_exists
    (P := fun es s => (copiesIn es = [[7]] ∧ s.pc 192 = .inside .recv .lock) ∧
      ∀ t ∈ s.kernel.tasks, s.pc t ≠ .outside → InTake s.kernel 1 t) hplay
  have hinit : osQueueInit 16 1 2 .small k = (0, _, _) := Prod.ext hret (Prod.ext rfl rfl)
  obtain ⟨-, -, -, -, -, -, hfifo, hquiet⟩ := queue_fifo h0 hun hinit hfit hrun
  have hq := hquiet fun t ht => ⟨1, hwait t (queueRun_members h0 hun hinit hfit hrun ht) ht⟩
  exact ⟨k, _, _, es, s, hinit, hrun, hend, hfifo, hq.1 192 .lock hend.2⟩

end Rtos

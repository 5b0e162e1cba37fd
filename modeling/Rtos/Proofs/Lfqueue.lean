import Rtos.Kernel.Lfqueue

/-! The lock-free queue is a FIFO. Let `w` messages have been published and `r` released.
The indices are `w` and `r` modulo the capacity, and `w` is always less than the capacity
ahead of `r`. Each side works with an old copy of the other's index, but the other side only
moves in its favour: what was free to write stays free, and what was there to read stays. -/

namespace Rtos

open Lib

variable {queue : OsSpscQueue} {mem : Word → Byte} {es : List SpscEvent} {s s' : Spsc}
  {storage msgSize capacity i : Word} {w r : ℕ} {hist : List Message}

def published (es : List SpscEvent) : ℕ :=
  es.countP fun
    | .published _ => true
    | _ => false

def released (es : List SpscEvent) : ℕ :=
  es.countP fun
    | .released _ => true
    | _ => false

/-- The producer stands where `w` messages are published, `r` are released and `hist` have
been written. -/
def ProducerOk (storage msgSize capacity : Word) (w r : ℕ) (hist : List Message) : Producer → Prop
  | .start => hist.length = w
  | .loaded i => hist.length = w ∧ i = ringIndex capacity w
  | .writing slot => hist.length = w ∧ slot = ringSlot storage msgSize capacity w ∧
      w + 1 < r + capacity.toNat
  | .update msg => hist.length = w + 1 ∧ hist[w]? = some msg ∧ w + 1 < r + capacity.toNat
  | .publish i msg => hist.length = w + 1 ∧ hist[w]? = some msg ∧ w + 1 < r + capacity.toNat ∧
      i = ringIndex capacity w

/-- The consumer, when it has read `n` messages. -/
def ConsumerOk (storage msgSize capacity : Word) (w r n : ℕ) (hist : List Message) :
    Consumer → Prop
  | .start => n = r
  | .loaded i => n = r ∧ i = ringIndex capacity r
  | .reading slot => n = r ∧ slot = ringSlot storage msgSize capacity r ∧ r < w
  | .update msg => n = r + 1 ∧ r < w ∧ hist[r]? = some msg
  | .release i msg => n = r + 1 ∧ r < w ∧ hist[r]? = some msg ∧ i = ringIndex capacity r

/-- The messages that are published and not released. -/
def unreleased (es : List SpscEvent) : List Message :=
  (((writes es).map Prod.snd).take (published es)).drop (released es)

structure SpscInv (storage msgSize capacity : Word) (es : List SpscEvent) (s : Spsc) : Prop where
  consts : s.queue.storage = storage ∧ s.queue.msgSize = msgSize ∧ s.queue.capacity = capacity
  writeIndex : s.queue.writeIndex = ringIndex capacity (published es)
  readIndex : s.queue.readIndex = ringIndex capacity (released es)
  behind : released es ≤ published es
  ahead : published es + 1 ≤ released es + capacity.toNat
  producer : ProducerOk storage msgSize capacity (published es) (released es)
    ((writes es).map Prod.snd) s.producer
  consumer : ConsumerOk storage msgSize capacity (published es) (released es) (reads es).length
    ((writes es).map Prod.snd) s.consumer
  slots : ∀ j p, (writes es)[j]? = some p → p.1 = ringSlot storage msgSize capacity j
  sound : Ring capacity.toNat (ringBytes storage msgSize s.mem) ((writes es).map Prod.snd)
    (released es)
  taken : reads es = (writes es).take (reads es).length
  fifo : Fifo.run (capacity.toNat - 1) (fifoOps es) = some (unreleased es)

theorem ProducerOk.mono {pc : Producer} {r' : ℕ} (hr : r ≤ r')
    (h : ProducerOk storage msgSize capacity w r hist pc) :
    ProducerOk storage msgSize capacity w r' hist pc := by
  cases pc with
  | start => exact h
  | loaded i => exact h
  | writing slot => exact ⟨h.1, h.2.1, by have := h.2.2; omega⟩
  | update msg => exact ⟨h.1, h.2.1, by have := h.2.2; omega⟩
  | publish i msg => exact ⟨h.1, h.2.1, by have := h.2.2.1; omega, h.2.2.2⟩

theorem ConsumerOk.mono {pc : Consumer} {w' n : ℕ} {hist' : List Message} (hw : w ≤ w')
    (hh : hist <+: hist') (h : ConsumerOk storage msgSize capacity w r n hist pc) :
    ConsumerOk storage msgSize capacity w' r n hist' pc := by
  have hget : ∀ msg, hist[r]? = some msg → hist'[r]? = some msg := by
    intro msg hm
    obtain ⟨t, rfl⟩ := hh
    rwa [List.getElem?_append_left (List.getElem?_eq_some_iff.1 hm).1]
  cases pc with
  | start => exact h
  | loaded i => exact h
  | reading slot => exact ⟨h.1, h.2.1, h.2.2.trans_le hw⟩
  | update msg => exact ⟨h.1, h.2.1.trans_le hw, hget msg h.2.2⟩
  | release i msg => exact ⟨h.1, h.2.1.trans_le hw, hget msg h.2.2.1, h.2.2.2⟩

theorem ProducerOk.length_le {pc : Producer} (h : ProducerOk storage msgSize capacity w r hist pc)
    (hw : w + 1 ≤ r + capacity.toNat) : w ≤ hist.length ∧ hist.length + 1 ≤ r + capacity.toNat := by
  cases pc with
  | start => have : hist.length = w := h; omega
  | loaded i => have := h.1; omega
  | writing slot => have := h.1; omega
  | update msg => have := h.1; have := h.2.2; omega
  | publish i msg => have := h.1; have := h.2.2.1; omega

theorem ConsumerOk.le {pc : Consumer} {n : ℕ} (h : ConsumerOk storage msgSize capacity w r n hist pc) :
    r ≤ n := by
  cases pc with
  | start => have : n = r := h; omega
  | loaded i => have := h.1; omega
  | reading slot => have := h.1; omega
  | update msg => have := h.1; omega
  | release i msg => have := h.1; omega

namespace SpscInv

variable (hpl : Placed storage msgSize capacity) (h : SpscInv storage msgSize capacity es s)
include h

/-- A load changes nothing but what its side knows. -/
theorem load {e : SpscEvent} (he : e = .load ∨ e = .full ∨ e = .empty)
    (hf : Fifo.run (capacity.toNat - 1) (fifoOps (es ++ [e])) = some (unreleased es))
    (hq : s'.queue = s.queue) (hm : s'.mem = s.mem)
    (hp : ProducerOk storage msgSize capacity (published es) (released es)
      ((writes es).map Prod.snd) s'.producer)
    (hcn : ConsumerOk storage msgSize capacity (published es) (released es) (reads es).length
      ((writes es).map Prod.snd) s'.consumer) :
    SpscInv storage msgSize capacity (es ++ [e]) s' := by
  have h1 : writes (es ++ [e]) = writes es := by rcases he with rfl | rfl | rfl <;> simp [writes]
  have h2 : reads (es ++ [e]) = reads es := by rcases he with rfl | rfl | rfl <;> simp [reads]
  have h3 : published (es ++ [e]) = published es := by
    rcases he with rfl | rfl | rfl <;> simp [published]
  have h4 : released (es ++ [e]) = released es := by
    rcases he with rfl | rfl | rfl <;> simp [released]
  have h5 : unreleased (es ++ [e]) = unreleased es := by
    rw [unreleased, h1, h3, h4]
    rfl
  constructor <;> simp only [h1, h2, h3, h4, h5, hq, hm]
  exacts [h.consts, h.writeIndex, h.readIndex, h.behind, h.ahead, hp, hcn, h.slots, h.sound, h.taken,
    hf]

theorem published_le : published es ≤ ((writes es).map Prod.snd).length :=
  (h.producer.length_le h.ahead).1

theorem unreleased_length : (unreleased es).length = published es - released es := by
  have := h.published_le
  rw [unreleased, List.length_drop, List.length_take]
  omega

theorem fifo_load : Fifo.run (capacity.toNat - 1) (fifoOps (es ++ [.load])) = some (unreleased es) := by
  have : fifoOps (es ++ [.load]) = fifoOps es := by simp [fifoOps]
  rw [this]
  exact h.fifo

theorem read {slot : Word} (hcn : s.consumer = .reading slot) :
    SpscInv storage msgSize capacity
      (es ++ [.read slot (loadBytes s.mem slot s.queue.msgSize.toNat)])
      { s with consumer := .update (loadBytes s.mem slot s.queue.msgSize.toNat) } := by
  have hco := h.consumer
  rw [hcn] at hco
  obtain ⟨hn, hslot, hlt⟩ := hco
  have hle := h.published_le
  -- the slot still holds what was put there for the reader
  obtain ⟨p, hp⟩ : ∃ p, (writes es)[released es]? = some p :=
    ⟨_, List.getElem?_eq_getElem (by simpa using hlt.trans_le hle)⟩
  have hmsg : loadBytes s.mem slot s.queue.msgSize.toNat = p.2 := by
    rw [h.consts.2.1, hslot]
    refine h.sound (released es) p.2 le_rfl ?_
    rw [List.getElem?_map, hp]
    rfl
  have hpe : (slot, p.2) = p := by rw [hslot, ← h.slots _ _ hp]
  rw [hmsg]
  have h1 : writes (es ++ [.read slot p.2]) = writes es := by simp [writes]
  have h2 : reads (es ++ [.read slot p.2]) = reads es ++ [(slot, p.2)] := by simp [reads]
  have h3 : published (es ++ [.read slot p.2]) = published es := by simp [published]
  have h4 : released (es ++ [.read slot p.2]) = released es := by simp [released]
  have h5 : fifoOps (es ++ [.read slot p.2]) = fifoOps es := by simp [fifoOps]
  have h6 : unreleased (es ++ [.read slot p.2]) = unreleased es := by
    rw [unreleased, h1, h3, h4]
    rfl
  constructor <;> simp only [h1, h2, h3, h4, h5, h6]
  · exact h.consts
  · exact h.writeIndex
  · exact h.readIndex
  · exact h.behind
  · exact h.ahead
  · exact h.producer
  · refine ⟨by simp [hn], hlt, ?_⟩
    rw [List.getElem?_map, hp]
    rfl
  · exact h.slots
  · exact h.sound
  · rw [List.length_append, List.length_singleton, List.take_add_one, ← h.taken, hn, hp, hpe]
    rfl
  · exact h.fifo

include hpl

/-- `NULL` for the producer: the next write index has caught the reader. -/
theorem writeLocation_null :
    getWriteLocation s.queue (ringIndex capacity (published es)) s.queue.readIndex = 0 ↔
      published es + 1 = released es + capacity.toNat := by
  have hb := h.behind
  have ha := h.ahead
  obtain ⟨hc1, hc2, hc3⟩ := h.consts
  rw [getWriteLocation, lfqueueNextIndex, hc3, ringIndex_succ hpl.count_pos, h.readIndex, hc1, hc2]
  have hpos := hpl.slot_ne_zero (published es)
  by_cases he : published es + 1 = released es + capacity.toNat
  · rw [he, ringIndex_add hpl.count_pos, if_pos rfl]
    simp
  · have hne := ringIndex_ne hpl.count_pos (show released es < published es + 1 by omega) (by omega)
    rw [if_neg hne]
    exact ⟨fun h0 => absurd h0 hpos, fun h0 => absurd h0 he⟩

theorem readLocation_null :
    getReadLocation s.queue (ringIndex capacity (released es)) s.queue.writeIndex = 0 ↔
      released es = published es := by
  have hb := h.behind
  have ha := h.ahead
  obtain ⟨hc1, hc2, hc3⟩ := h.consts
  rw [getReadLocation, h.writeIndex, hc1, hc2]
  have hpos := hpl.slot_ne_zero (released es)
  by_cases he : released es = published es
  · rw [he, if_pos rfl]
    simp
  · have hne := ringIndex_ne hpl.count_pos (show released es < published es by omega) (by omega)
    rw [if_neg (Ne.symm hne)]
    exact ⟨fun h0 => absurd h0 hpos, fun h0 => absurd h0 he⟩

theorem wrote {msg : Message} (hlen : msg.length = msgSize.toNat) {slot : Word}
    (hp : s.producer = .writing slot) :
    SpscInv storage msgSize capacity (es ++ [.wrote slot msg])
      { s with mem := storeBytes s.mem slot msg, producer := .update msg } := by
  have hpr := h.producer
  rw [hp] at hpr
  obtain ⟨hl, hslot, hroom⟩ := hpr
  have hwl : (writes es).length = published es := by simpa using hl
  have hrd : (reads es).length ≤ (writes es).length := by
    rw [h.taken, List.length_take]
    omega
  have h1 : writes (es ++ [.wrote slot msg]) = writes es ++ [(slot, msg)] := by simp [writes]
  have h2 : reads (es ++ [.wrote slot msg]) = reads es := by simp [reads]
  have h3 : published (es ++ [.wrote slot msg]) = published es := by simp [published]
  have h4 : released (es ++ [.wrote slot msg]) = released es := by simp [released]
  have h5 : fifoOps (es ++ [.wrote slot msg]) = fifoOps es := by simp [fifoOps]
  have h6 : unreleased (es ++ [.wrote slot msg]) = unreleased es := by
    rw [unreleased, h1, h3, h4, List.map_append, List.take_append_of_le_length hl.ge]
    rfl
  constructor <;> simp only [h1, h2, h3, h4, h5, h6, List.map_append, List.map_cons, List.map_nil]
  · exact h.consts
  · exact h.writeIndex
  · exact h.readIndex
  · exact h.behind
  · exact h.ahead
  · refine ⟨by simp [hwl], ?_, hroom⟩
    rw [← hl]
    simp
  · exact h.consumer.mono le_rfl (List.prefix_append _ _)
  · intro j p hj
    rcases Nat.lt_or_ge j (writes es).length with hlt | hge
    · rw [List.getElem?_append_left hlt] at hj
      exact h.slots j p hj
    · obtain ⟨hjl, hj'⟩ := List.getElem?_eq_some_iff.1 hj
      obtain rfl : j = (writes es).length := by simp at hjl; omega
      have : p = (slot, msg) := by simpa using hj'.symm
      rw [this, hwl, hslot]
  · rw [hslot, ← hl]
    exact hpl.push h.sound hlen (by omega)
  · rw [List.take_append_of_le_length hrd]
    exact h.taken
  · exact h.fifo

theorem published {i : Word} {msg : Message} (hp : s.producer = .publish i msg) :
    SpscInv storage msgSize capacity (es ++ [.published msg])
      { s with queue := { s.queue with writeIndex := lfqueueNextIndex s.queue i }, producer := .start } := by
  have hpr := h.producer
  rw [hp] at hpr
  obtain ⟨hl, hmsg, hroom, rfl⟩ := hpr
  have hb := h.behind
  have h1 : writes (es ++ [.published msg]) = writes es := by simp [writes]
  have h2 : reads (es ++ [.published msg]) = reads es := by simp [reads]
  have h3 : Rtos.published (es ++ [.published msg]) = Rtos.published es + 1 := by simp [Rtos.published]
  have h4 : released (es ++ [.published msg]) = released es := by simp [released]
  have h5 : fifoOps (es ++ [.published msg]) = fifoOps es ++ [.enq msg] := by simp [fifoOps]
  have h6 : unreleased (es ++ [.published msg]) = unreleased es ++ [msg] := by
    rw [unreleased, h1, h3, h4, unreleased, List.take_add_one, hmsg, List.drop_append_of_le_length]
    · rfl
    · rw [List.length_take]
      omega
  constructor <;> simp only [h1, h2, h3, h4, h5, h6]
  · exact h.consts
  · rw [lfqueueNextIndex, h.consts.2.2, ringIndex_succ hpl.count_pos]
  · exact h.readIndex
  · omega
  · omega
  · exact hl
  · exact h.consumer.mono (Nat.le_succ _) (List.prefix_refl _)
  · exact h.slots
  · exact h.sound
  · exact h.taken
  · have hlen := h.unreleased_length
    rw [Fifo.run_snoc h.fifo, Fifo.step, if_pos (by omega)]

theorem released {i : Word} {msg : Message} (hcn : s.consumer = .release i msg) :
    SpscInv storage msgSize capacity (es ++ [.released msg])
      { s with queue := { s.queue with readIndex := lfqueueNextIndex s.queue i }, consumer := .start } := by
  have hco := h.consumer
  rw [hcn] at hco
  obtain ⟨hn, hlt, hmsg, rfl⟩ := hco
  have ha := h.ahead
  have h1 : writes (es ++ [.released msg]) = writes es := by simp [writes]
  have h2 : reads (es ++ [.released msg]) = reads es := by simp [reads]
  have h3 : Rtos.published (es ++ [.released msg]) = Rtos.published es := by simp [Rtos.published]
  have h4 : Rtos.released (es ++ [.released msg]) = Rtos.released es + 1 := by simp [Rtos.released]
  have h5 : fifoOps (es ++ [.released msg]) = fifoOps es ++ [.deq msg] := by simp [fifoOps]
  have h6 : unreleased (es ++ [.released msg]) = (unreleased es).tail := by
    rw [unreleased, h1, h3, h4, unreleased, List.tail_drop]
  have hhead : (unreleased es).head? = some msg := by
    rw [unreleased, List.head?_drop, List.getElem?_take_of_lt hlt, hmsg]
  constructor <;> simp only [h1, h2, h3, h4, h5, h6]
  · exact h.consts
  · exact h.writeIndex
  · rw [lfqueueNextIndex, h.consts.2.2, ringIndex_succ hpl.count_pos]
  · omega
  · omega
  · exact h.producer.mono (Nat.le_succ _)
  · exact hn
  · exact h.slots
  · exact h.sound.advance (Nat.le_succ _)
  · exact h.taken
  · rw [Fifo.run_snoc h.fifo, Fifo.step, if_pos hhead]

theorem producerStep {msg : Message} (hlen : msg.length = s.queue.msgSize.toNat) :
    SpscInv storage msgSize capacity (es ++ [(s.producerStep msg).1]) (s.producerStep msg).2 := by
  have hpr := h.producer
  have hco := h.consumer
  unfold Spsc.producerStep
  cases hp : s.producer with
  | start =>
    rw [hp] at hpr
    exact h.load (.inl rfl) h.fifo_load rfl rfl ⟨hpr, h.writeIndex⟩ hco
  | loaded i =>
    rw [hp] at hpr
    obtain ⟨hl, rfl⟩ := hpr
    have hnull := h.writeLocation_null hpl
    have hlen := h.unreleased_length
    have ha := h.ahead
    simp only
    split_ifs with h0
    · have hfull := hnull.1 h0
      refine h.load (.inr (.inl rfl)) ?_ rfl rfl hl hco
      rw [show fifoOps (es ++ [.full]) = fifoOps es ++ [.full] by simp [fifoOps],
        Fifo.run_snoc h.fifo, Fifo.step, if_pos (by omega)]
    · refine h.load (.inl rfl) h.fifo_load rfl rfl ⟨hl, ?_, ?_⟩ hco
      · rw [getWriteLocation] at h0 ⊢
        split_ifs at h0 ⊢
        · exact absurd rfl h0
        · rw [h.consts.1, h.consts.2.1]
          rfl
      · have hne : Rtos.published es + 1 ≠ Rtos.released es + capacity.toNat :=
          fun hx => h0 (hnull.2 hx)
        omega
  | writing slot => exact h.wrote hpl (by rw [hlen, h.consts.2.1]) hp
  | update msg =>
    rw [hp] at hpr
    exact h.load (.inl rfl) h.fifo_load rfl rfl ⟨hpr.1, hpr.2.1, hpr.2.2, h.writeIndex⟩ hco
  | publish i msg => exact h.published hpl hp

theorem consumerStep :
    SpscInv storage msgSize capacity (es ++ [s.consumerStep.1]) s.consumerStep.2 := by
  have hpr := h.producer
  have hco := h.consumer
  unfold Spsc.consumerStep
  cases hcn : s.consumer with
  | start =>
    rw [hcn] at hco
    exact h.load (.inl rfl) h.fifo_load rfl rfl hpr ⟨hco, h.readIndex⟩
  | loaded i =>
    rw [hcn] at hco
    obtain ⟨hn, rfl⟩ := hco
    have hnull := h.readLocation_null hpl
    have hlen := h.unreleased_length
    have hb := h.behind
    simp only
    split_ifs with h0
    · have hempty := hnull.1 h0
      refine h.load (.inr (.inr rfl)) ?_ rfl rfl hpr hn
      have hnil : unreleased es = [] := List.length_eq_zero_iff.1 (by omega)
      rw [show fifoOps (es ++ [.empty]) = fifoOps es ++ [.empty] by simp [fifoOps],
        Fifo.run_snoc h.fifo, Fifo.step, if_pos hnil]
    · refine h.load (.inl rfl) h.fifo_load rfl rfl hpr ⟨hn, ?_, ?_⟩
      · rw [getReadLocation] at h0 ⊢
        split_ifs at h0 ⊢
        · exact absurd rfl h0
        · rw [h.consts.1, h.consts.2.1]
          rfl
      · have hne : Rtos.released es ≠ Rtos.published es := fun hx => h0 (hnull.2 hx)
        omega
  | reading slot => exact h.read hcn
  | update msg =>
    rw [hcn] at hco
    exact h.load (.inl rfl) h.fifo_load rfl rfl hpr ⟨hco.1, hco.2.1, hco.2.2, h.readIndex⟩
  | release i msg => exact h.released hpl hcn

end SpscInv

/-- What `lfqueue_init` has checked, and that the storage is there. -/
theorem lfqueueInit_placed {q : OsSpscQueue} (hinit : lfqueueInit storage msgSize capacity q = (0, queue))
    (hfit : Fits storage msgSize capacity.toNat) :
    Placed storage msgSize capacity ∧ 2 ≤ capacity.toNat ∧
      queue = ⟨storage, msgSize, capacity, 0, 0⟩ := by
  unfold lfqueueInit at hinit
  split_ifs at hinit with hbad
  · cases hinit
  · push Not at hbad
    obtain ⟨h1, h2, h3⟩ := hbad
    have hcap : 2 ≤ capacity.toNat := by bv_omega
    exact ⟨⟨hfit, h1, by bv_omega, by omega⟩, hcap, (Prod.mk.inj hinit).2.symm⟩

theorem spscRun_inv {q : OsSpscQueue} (hinit : lfqueueInit storage msgSize capacity q = (0, queue))
    (hfit : Fits storage msgSize capacity.toNat) (h : SpscRun queue mem es s) :
    SpscInv storage msgSize capacity es s := by
  obtain ⟨hpl, hcap, hq⟩ := lfqueueInit_placed hinit hfit
  induction h with
  | init =>
    have h0 : ringIndex capacity 0 = 0 := by simp [ringIndex]
    subst hq
    refine ⟨⟨rfl, rfl, rfl⟩, h0.symm, h0.symm, le_rfl, ?_, rfl, rfl, by simp [writes], ?_, rfl, rfl⟩
    · change 0 + 1 ≤ 0 + capacity.toNat
      omega
    · intro j x _ hx
      simp [writes] at hx
  | producer _ hlen ih => exact ih.producerStep hpl hlen
  | consumer _ ih => exact ih.consumerStep hpl

/-- The queue is a FIFO of `capacity - 1` messages, and each side has its slot to itself. -/
theorem spsc_fifo {q : OsSpscQueue} (hinit : lfqueueInit storage msgSize capacity q = (0, queue))
    (hfit : Fits storage msgSize capacity.toNat) (h : SpscRun queue mem es s) :
    (reads es).map Prod.snd <+: (writes es).map Prod.snd ∧
    (∀ slot, s.producer = .writing slot →
      (∀ p ∈ (writes es).drop (reads es).length, Apart msgSize.toNat slot p.1) ∧
      ∀ slot', s.consumer = .reading slot' → Apart msgSize.toNat slot slot') ∧
    s.queue.readIndex < capacity ∧ s.queue.writeIndex < capacity ∧
    (writes es).length ≤ (reads es).length + (capacity.toNat - 1) ∧
    (∃ l, Fifo.run (capacity.toNat - 1) (fifoOps es) = some l) ∧
    (∀ es₁ es₂, es = es₁ ++ .full :: es₂ →
      ∃ l, Fifo.run (capacity.toNat - 1) (fifoOps es₁) = some l ∧ l.length = capacity.toNat - 1) ∧
    (∀ es₁ es₂, es = es₁ ++ .empty :: es₂ →
      Fifo.run (capacity.toNat - 1) (fifoOps es₁) = some []) := by
  obtain ⟨hpl, hcap, -⟩ := lfqueueInit_placed hinit hfit
  have hi := spscRun_inv hinit hfit h
  obtain ⟨hwl, hroom⟩ := hi.producer.length_le hi.ahead
  have hrd := hi.consumer.le
  have hb := hi.behind
  have ha := hi.ahead
  rw [List.length_map] at hwl hroom
  refine ⟨?_, fun slot hp => ⟨fun p hp' => ?_, fun slot' hcn => ?_⟩, ?_, ?_, by omega, ⟨_, hi.fifo⟩,
    fun es₁ es₂ he => ?_, fun es₁ es₂ he => ?_⟩
  · rw [hi.taken]
    exact (List.take_prefix _ _).map Prod.snd
  · obtain ⟨hl, rfl, hlt⟩ : ProducerOk storage msgSize capacity _ _ _ (.writing slot) := hp ▸ hi.producer
    rw [List.length_map] at hl
    obtain ⟨j, hj⟩ := List.mem_iff_getElem?.1 hp'
    rw [List.getElem?_drop] at hj
    have hjl := (List.getElem?_eq_some_iff.1 hj).1
    rw [hi.slots _ _ hj]
    exact hpl.slot_apart (by omega) (by omega)
  · obtain ⟨-, rfl, hlt⟩ : ProducerOk storage msgSize capacity _ _ _ (.writing slot) := hp ▸ hi.producer
    obtain ⟨-, rfl, hlt'⟩ : ConsumerOk storage msgSize capacity _ _ _ _ (.reading slot') :=
      hcn ▸ hi.consumer
    exact hpl.slot_apart hlt' (by omega)
  · rw [hi.readIndex]
    exact ringIndex_lt hpl.count_pos _
  · rw [hi.writeIndex]
    exact ringIndex_lt hpl.count_pos _
  · have hf := hi.fifo
    rw [he, show fifoOps (es₁ ++ .full :: es₂) = fifoOps es₁ ++ .full :: fifoOps es₂ by
      simp [fifoOps]] at hf
    obtain ⟨l, hl, l', hs⟩ := Fifo.run_split hf
    refine ⟨l, hl, ?_⟩
    simp only [Fifo.step] at hs
    split_ifs at hs with hfull
    exact hfull
  · have hf := hi.fifo
    rw [he, show fifoOps (es₁ ++ .empty :: es₂) = fifoOps es₁ ++ .empty :: fifoOps es₂ by
      simp [fifoOps]] at hf
    obtain ⟨l, hl, l', hs⟩ := Fifo.run_split hf
    simp only [Fifo.step] at hs
    split_ifs at hs with hnil
    rw [hl, hnil]

/-- One message in a queue of two slots: the producer finds it full, the consumer reads. -/
theorem spsc_fifo_small : ∃ es s, SpscRun ⟨16, 1, 2, 0, 0⟩ (fun _ => 0) es s ∧
    fifoOps es = [.enq [7], .full] ∧ reads es = [(16, [7])] ∧
    (reads es).map Prod.snd <+: (writes es).map Prod.snd ∧ s.queue.writeIndex < 2 := by
  have hmsg : ([7] : Message).length = (1 : Word).toNat := rfl
  have h0 : SpscRun ⟨16, 1, 2, 0, 0⟩ (fun _ => 0) [] _ := .init
  have h := (((((((((h0.producer hmsg).producer hmsg).producer hmsg).producer hmsg).producer
    hmsg).producer hmsg).producer hmsg).consumer).consumer).consumer
  have hinit : lfqueueInit 16 1 2 ⟨0, 0, 0, 0, 0⟩ = (0, ⟨16, 1, 2, 0, 0⟩) := rfl
  have hfit : Fits (16 : Word) 1 (2 : Word).toNat := by
    unfold Fits
    decide
  obtain ⟨h1, -, -, h2, -⟩ := spsc_fifo hinit hfit h
  exact ⟨_, _, h, rfl, rfl, h1, h2⟩

end Rtos

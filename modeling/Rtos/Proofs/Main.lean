import Rtos.App.Main
import Rtos.Proofs.Cast
import Rtos.Proofs.Lfqueue

/-! The demo application never counts an error: through every interleaving of its two tasks and
every interrupt, what `task1` takes from the queue is what it expects. -/

namespace Rtos

open Lib

variable {x : MainLinks} {mem : Word → Byte} {es : List SpscEvent} {e : SpscEvent} {s : MainState}
  {v w : Word}

/-! Decimal numbers. -/

/-- The number that digits stand for, the first one the highest. -/
def decimalValue (text : List Byte) : ℕ := text.foldl (fun n c => 10 * n + (c.toNat - 0x30)) 0

def IsDigit (c : Byte) : Prop := 0x30 ≤ c.toNat ∧ c.toNat ≤ 0x39

theorem digit_toNat (v : Word) : (0x30 + (v % 10).setWidth 8 : Byte).toNat = 0x30 + v.toNat % 10 := by
  have hmod : (v % 10).toNat = v.toNat % 10 := rfl
  have hlt : v.toNat % 10 < 10 := Nat.mod_lt _ (by decide)
  rw [BitVec.toNat_add, BitVec.toNat_setWidth, hmod]
  change (48 + v.toNat % 10 % 2 ^ 8) % 2 ^ 8 = 48 + v.toNat % 10
  omega

/-- With `n` digits written and less than `10 ^ (10 - n)` left, the array is long enough. -/
theorem u32ToStrLoop_spec (v : Word) (tmp : List Byte) (hlen : tmp.length ≤ 10)
    (hv : v.toNat < 10 ^ (10 - tmp.length)) :
    ∃ ds, u32ToStrLoop v tmp = some (tmp ++ ds) ∧ (tmp ++ ds).length ≤ 10 ∧
      (∀ c ∈ ds, IsDigit c) ∧ ds.foldr (fun c n => 10 * n + (c.toNat - 0x30)) 0 = v.toNat ∧
      (0 < v.toNat → ds ≠ []) ∧ ∀ c, ds.getLast? = some c → c ≠ 0x30 := by
  fun_induction u32ToStrLoop v tmp with
  | case1 v tmp hpos hlt ih =>
    have hpos : 0 < v.toNat := hpos
    have hdiv : (v / 10).toNat = v.toNat / 10 := rfl
    have hc := digit_toNat v
    set c : Byte := 0x30 + (v % 10).setWidth 8
    have hpow : 10 ^ (10 - tmp.length) = 10 * 10 ^ (10 - (tmp.length + 1)) := by
      rw [← Nat.pow_succ']
      congr 1
      omega
    obtain ⟨ds, h1, h2, h3, h4, h5, h6⟩ := ih (by simp; omega) (by
      rw [List.length_append, List.length_singleton, hdiv]
      exact Nat.div_lt_of_lt_mul (hpow ▸ hv))
    rw [List.append_assoc, List.singleton_append] at h1 h2
    refine ⟨c :: ds, h1, h2, ?_, ?_, fun _ => List.cons_ne_nil _ _, ?_⟩
    · intro d hd
      rcases List.mem_cons.1 hd with rfl | hd
      · exact ⟨by omega, by omega⟩
      · exact h3 d hd
    · rw [List.foldr_cons, h4, hc, hdiv]
      omega
    · intro d hd
      cases hds : ds with
      | nil =>
        -- the last digit written is the first of the number
        have hzero : ¬ 0 < (v / 10).toNat := fun h => h5 h hds
        rw [hds, List.getLast?_singleton] at hd
        obtain rfl := Option.some.inj hd
        intro h30
        rw [h30] at hc
        have : v.toNat % 10 = 0 := by
          change 48 = 48 + v.toNat % 10 at hc
          omega
        omega
      | cons d' ds' =>
        rw [hds, List.getLast?_cons_cons] at hd
        exact h6 d (hds ▸ hd)
  | case2 v tmp hpos hlt =>
    have hpos : 0 < v.toNat := hpos
    rw [show 10 - tmp.length = 0 by omega, Nat.pow_zero] at hv
    omega
  | case3 v tmp hpos =>
    have hzero : ¬ 0 < v.toNat := hpos
    refine ⟨[], by rw [List.append_nil], by rwa [List.append_nil], nofun, ?_, fun h => absurd h hzero,
      nofun⟩
    rw [List.foldr_nil]
    omega

theorem range_map_getD (tmp : List Byte) :
    ((List.range tmp.length).map fun i => tmp.getD (tmp.length - 1 - i) 0) = tmp.reverse := by
  refine List.ext_getElem (by simp) fun i h1 h2 => ?_
  rw [List.length_map, List.length_range] at h1
  rw [List.getElem_map, List.getElem_range, List.getElem_reverse, List.getD,
    List.getElem?_eq_getElem (by omega), Option.getD_some]

/-- `u32_to_str` stays inside its array of ten and writes the number in decimal, without leading
zeros. -/
theorem u32_to_str_decimal (v : Word) : ∃ text, u32ToStr v = some text ∧ text ≠ [] ∧
    text.length ≤ 10 ∧ (∀ c ∈ text, IsDigit c) ∧ decimalValue text = v.toNat ∧
    (text.head? = some 0x30 → text = [0x30]) := by
  unfold u32ToStr
  split_ifs with h0
  · refine ⟨_, rfl, List.cons_ne_nil _ _, by simp, ?_, ?_, fun _ => rfl⟩
    · intro c hc
      obtain rfl := List.mem_singleton.1 hc
      exact ⟨le_refl _, by decide⟩
    · rw [h0]
      rfl
  · have hlt : v.toNat < 2 ^ 32 := v.isLt
    have hpos : 0 < v.toNat := Nat.pos_of_ne_zero fun h => h0 (BitVec.eq_of_toNat_eq h)
    obtain ⟨ds, h1, h2, h3, h4, h5, h6⟩ := u32ToStrLoop_spec v [] (Nat.zero_le _) (by
      rw [List.length_nil]
      omega)
    rw [List.nil_append] at h1 h2
    rw [h1, Option.map_some, range_map_getD]
    refine ⟨_, rfl, by simpa using h5 hpos, by simpa using h2, ?_, ?_, ?_⟩
    · intro c hc
      exact h3 c (List.mem_reverse.1 hc)
    · rw [decimalValue, List.foldl_reverse]
      exact h4
    · intro hhead
      rw [List.head?_reverse] at hhead
      exact absurd rfl (h6 _ hhead)

/-! The queue between the tasks. -/

theorem wordOfBytes_wordBytes (v : Word) : wordOfBytes (wordBytes v) = v := by
  have h1 : v.extractLsb' 24 8 ++ v.extractLsb' 16 8 = v.extractLsb' 16 16 :=
    BitVec.extractLsb'_append_extractLsb'_eq_extractLsb' rfl
  have h2 : v.extractLsb' 16 16 ++ v.extractLsb' 8 8 = v.extractLsb' 8 24 :=
    BitVec.extractLsb'_append_extractLsb'_eq_extractLsb' rfl
  have h3 : v.extractLsb' 8 24 ++ v.extractLsb' 0 8 = v.extractLsb' 0 32 :=
    BitVec.extractLsb'_append_extractLsb'_eq_extractLsb' rfl
  simp only [wordOfBytes, wordBytes]
  rw [h1, h2, h3, BitVec.extractLsb'_eq_self]

def sentNumbers (es : List SpscEvent) : List Word :=
  es.filterMap fun
    | .published msg => some (wordOfBytes msg)
    | _ => none

def receivedNumbers (es : List SpscEvent) : List Word :=
  es.filterMap fun
    | .released msg => some (wordOfBytes msg)
    | _ => none

/-- 1, 2, 3 and so on, `n` of them. -/
def numbersTo (n : ℕ) : List Word := (List.range n).map fun j => BitVec.ofNat 32 (j + 1)

theorem numbersTo_succ (n : ℕ) : numbersTo (n + 1) = numbersTo n ++ [BitVec.ofNat 32 (n + 1)] := by
  rw [numbersTo, List.range_succ, List.map_append]
  rfl

/-- Message `j` is the number `j + 1`. -/
def Numbered (es : List SpscEvent) : Prop :=
  ∀ j msg, ((writes es).map Prod.snd)[j]? = some msg → msg = wordBytes (BitVec.ofNat 32 (j + 1))

structure EventsOk (es : List SpscEvent) : Prop where
  numbered : Numbered es
  sent : sentNumbers es = numbersTo (published es)
  received : receivedNumbers es = numbersTo (released es)

/-- Most accesses neither write a message nor publish or release one. -/
def SpscEvent.Quiet : SpscEvent → Prop
  | .wrote _ _ => False
  | .published _ => False
  | .released _ => False
  | _ => True

theorem quiet_same (h : e.Quiet) (es : List SpscEvent) : published (es ++ [e]) = published es ∧
    released (es ++ [e]) = released es ∧ writes (es ++ [e]) = writes es ∧
    sentNumbers (es ++ [e]) = sentNumbers es ∧ receivedNumbers (es ++ [e]) = receivedNumbers es := by
  cases e with
  | wrote => exact absurd h id
  | published => exact absurd h id
  | released => exact absurd h id
  | _ => simp [published, released, writes, sentNumbers, receivedNumbers]

namespace EventsOk

variable {msg : Message}

theorem quiet (h : EventsOk es) (he : e.Quiet) : EventsOk (es ++ [e]) := by
  obtain ⟨hpub, hrel, hwr, hsent, hrecv⟩ := quiet_same he es
  refine ⟨?_, ?_, ?_⟩
  · unfold Numbered
    rw [hwr]
    exact h.numbered
  · rw [hsent, hpub]
    exact h.sent
  · rw [hrecv, hrel]
    exact h.received

theorem wrote (h : EventsOk es) (hlen : ((writes es).map Prod.snd).length = published es)
    (slot : Word) (hmsg : msg = wordBytes (BitVec.ofNat 32 (published es + 1))) :
    EventsOk (es ++ [.wrote slot msg]) := by
  have hwr : (writes (es ++ [.wrote slot msg])).map Prod.snd = (writes es).map Prod.snd ++ [msg] := by
    simp [writes]
  refine ⟨?_, ?_, ?_⟩
  · intro j msg' hj
    rw [hwr] at hj
    rcases Nat.lt_or_ge j ((writes es).map Prod.snd).length with hlt | hge
    · rw [List.getElem?_append_left hlt] at hj
      exact h.numbered j msg' hj
    · rw [List.getElem?_append_right hge, List.getElem?_singleton] at hj
      split_ifs at hj with h0
      obtain rfl := Option.some.inj hj
      obtain rfl : j = published es := by omega
      exact hmsg
  · simpa [sentNumbers, published] using h.sent
  · simpa [receivedNumbers, released] using h.received

theorem publish (h : EventsOk es) (hmsg : ((writes es).map Prod.snd)[published es]? = some msg) :
    EventsOk (es ++ [.published msg]) := by
  refine ⟨?_, ?_, ?_⟩
  · unfold Numbered
    rw [show writes (es ++ [.published msg]) = writes es by simp [writes]]
    exact h.numbered
  · have hpub : published (es ++ [.published msg]) = published es + 1 := by simp [published]
    have hsent : sentNumbers (es ++ [.published msg]) = sentNumbers es ++ [wordOfBytes msg] := by
      simp [sentNumbers]
    rw [hsent, hpub, numbersTo_succ, h.sent, h.numbered _ _ hmsg, wordOfBytes_wordBytes]
  · simpa [receivedNumbers, released] using h.received

theorem release (h : EventsOk es) (hmsg : ((writes es).map Prod.snd)[released es]? = some msg) :
    EventsOk (es ++ [.released msg]) := by
  refine ⟨?_, ?_, ?_⟩
  · unfold Numbered
    rw [show writes (es ++ [.released msg]) = writes es by simp [writes]]
    exact h.numbered
  · simpa [sentNumbers, published] using h.sent
  · have hrel : released (es ++ [.released msg]) = released es + 1 := by simp [released]
    have hrecv : receivedNumbers (es ++ [.released msg]) =
        receivedNumbers es ++ [wordOfBytes msg] := by
      simp [receivedNumbers]
    rw [hrecv, hrel, numbersTo_succ, h.received, h.numbered _ _ hmsg, wordOfBytes_wordBytes]

end EventsOk

/-- Between `update_write_index` and `g_task1_sent++`. -/
def SendLine.uncounted : SendLine → Word
  | .clock => 1
  | .puts _ => 1
  | .write _ => 1
  | .count => 1
  | _ => 0

structure SendOk (s : MainState) (value : Word) (line : SendLine) : Prop where
  outside : line ≠ .send → s.spsc.producer = .start
  value : value = s.gTask1Sent + 1
  sent : s.gTask1Sent + line.uncounted = BitVec.ofNat 32 (published s.events)

/-- The number that `task1` has taken and not checked yet. -/
def RecvLine.taken : RecvLine → Option Word
  | .clock value => some value
  | .puts value _ => some value
  | .write value _ => some value
  | .lastRecv value => some value
  | .count value => some value
  | .check value => some value
  | _ => none

/-- Between `update_read_index` and `g_last_recv = value`. -/
def RecvLine.unnoted : RecvLine → Word
  | .clock _ => 1
  | .puts _ _ => 1
  | .write _ _ => 1
  | .lastRecv _ => 1
  | _ => 0

/-- Between `update_read_index` and `g_task2_recv++`. -/
def RecvLine.uncounted : RecvLine → Word
  | .count _ => 1
  | line => line.unnoted

structure RecvOk (s : MainState) (expected : Word) (line : RecvLine) : Prop where
  outside : line ≠ .recv → s.spsc.consumer = .start
  value : ∀ v, line.taken = some v → v = BitVec.ofNat 32 (released s.events) ∧ expected = v
  expected : line.taken = none → expected = BitVec.ofNat 32 (released s.events) + 1
  recv : s.gTask2Recv + line.uncounted = BitVec.ofNat 32 (released s.events)
  last : s.gLastRecv + line.unnoted = BitVec.ofNat 32 (released s.events)
  errors : s.gErrorCount = 0

/-- The queue as `os_app_main` sets it up. -/
def mainQueue (x : MainLinks) : OsSpscQueue := ⟨x.gQueueStorage, 4, 8, 0, 0⟩

structure MainOk (x : MainLinks) (mem : Word → Byte) (s : MainState) (v : Word) (l₀ : SendLine)
    (w : Word) (l₁ : RecvLine) : Prop where
  run : SpscRun (mainQueue x) mem s.events s.spsc
  events : EventsOk s.events
  sender : SendOk s v l₀
  receiver : RecvOk s w l₁

theorem mainQueue_init (x : MainLinks) :
    lfqueueInit x.gQueueStorage 4 8 ⟨0, 0, 0, 0, 0⟩ = (0, mainQueue x) := by
  have h : ¬ (x.gQueueStorage = 0 ∨ (4 : Word) = 0 ∨ (8 : Word) < 2) := by
    rintro (h | h | h)
    · exact x.storage h
    · revert h
      decide
    · revert h
      decide
  rw [lfqueueInit, if_neg h]
  rfl

theorem main_spscInv (h : SpscRun (mainQueue x) mem es s.spsc) :
    SpscInv x.gQueueStorage 4 8 es s.spsc := by
  refine spscRun_inv (mainQueue_init x) ?_ h
  have := x.fits
  unfold Fits
  change x.gQueueStorage.toNat + 8 * 4 ≤ 2 ^ 32
  omega

/-! What a step of one task means for the other. -/

/-- A consumer's step is nothing to the producer. -/
theorem consumerStep_frame (es : List SpscEvent) (q : Spsc) :
    q.consumerStep.2.producer = q.producer ∧
    published (es ++ [q.consumerStep.1]) = published es := by
  unfold Spsc.consumerStep
  cases q.consumer with
  | loaded r =>
    simp only
    split_ifs <;> simp [published]
  | _ => simp [published]

theorem producerStep_frame (es : List SpscEvent) (q : Spsc) (msg : Message) :
    (q.producerStep msg).2.consumer = q.consumer ∧
    released (es ++ [(q.producerStep msg).1]) = released es := by
  unfold Spsc.producerStep
  cases q.producer with
  | loaded w =>
    simp only
    split_ifs <;> simp [released]
  | _ => simp [released]

variable {s' : MainState} {l₀ : SendLine} {l₁ : RecvLine} {q : Spsc} {slot i : Word} {msg : Message}

theorem SendOk.congr (h : SendOk s v l₀) (hpub : published s'.events = published s.events)
    (hq : s'.spsc.producer = s.spsc.producer) (hsent : s'.gTask1Sent = s.gTask1Sent) :
    SendOk s' v l₀ :=
  ⟨fun hl => hq.trans (h.outside hl), hsent ▸ h.value, by rw [hsent, hpub]; exact h.sent⟩

theorem RecvOk.congr (h : RecvOk s w l₁) (hrel : released s'.events = released s.events)
    (hq : s'.spsc.consumer = s.spsc.consumer) (hrecv : s'.gTask2Recv = s.gTask2Recv)
    (hlast : s'.gLastRecv = s.gLastRecv) (herr : s'.gErrorCount = s.gErrorCount) :
    RecvOk s' w l₁ := by
  refine ⟨fun hl => hq.trans (h.outside hl), ?_, ?_, ?_, ?_, herr.trans h.errors⟩
  · rw [hrel]
    exact h.value
  · rw [hrel]
    exact h.expected
  · rw [hrel, hrecv]
    exact h.recv
  · rw [hrel, hlast]
    exact h.last

/-! One access of `task0` to the queue. -/

theorem MainOk.sent_events (h : MainOk x mem s v .send w l₁) :
    s.gTask1Sent = BitVec.ofNat 32 (published s.events) :=
  (BitVec.add_zero _).symm.trans h.sender.sent

theorem MainOk.send_run (h : MainOk x mem s v l₀ w l₁)
    (he : s.spsc.producerStep (wordBytes v) = (e, q)) :
    SpscRun (mainQueue x) mem (s.access (e, q)).events q ∧ RecvOk (s.access (e, q)) w l₁ := by
  have hsz : s.spsc.queue.msgSize = 4 := (main_spscInv h.run).consts.2.1
  have hlen : (wordBytes v).length = s.spsc.queue.msgSize.toNat := by
    rw [hsz]
    rfl
  have hrun := h.run.producer hlen
  obtain ⟨hcons, hrel⟩ := producerStep_frame s.events s.spsc (wordBytes v)
  rw [he] at hrun hcons hrel
  exact ⟨hrun, h.receiver.congr hrel hcons rfl rfl rfl⟩

theorem MainOk.send_quiet (h : MainOk x mem s v .send w l₁)
    (he : s.spsc.producerStep (wordBytes v) = (e, q)) (hquiet : e.Quiet) (hl : l₀.uncounted = 0)
    (hq : l₀ ≠ .send → q.producer = .start) : MainOk x mem (s.access (e, q)) v l₀ w l₁ := by
  obtain ⟨hrun, hrecv⟩ := h.send_run he
  refine ⟨hrun, h.events.quiet hquiet, ⟨hq, h.sender.value, ?_⟩, hrecv⟩
  change s.gTask1Sent + l₀.uncounted = BitVec.ofNat 32 (published (s.events ++ [e]))
  rw [hl, (quiet_same hquiet s.events).1, h.sent_events]
  exact BitVec.add_zero _

/-- The number goes into the slot that no message has been written for yet. -/
theorem MainOk.send_wrote (h : MainOk x mem s v .send w l₁) (hpc : s.spsc.producer = .writing slot)
    (he : s.spsc.producerStep (wordBytes v) = (.wrote slot (wordBytes v), q)) :
    MainOk x mem (s.access (.wrote slot (wordBytes v), q)) v .send w l₁ := by
  obtain ⟨hrun, hrecv⟩ := h.send_run he
  have hp := (main_spscInv h.run).producer
  rw [hpc] at hp
  have hmsg : wordBytes v = wordBytes (BitVec.ofNat 32 (published s.events + 1)) := by
    rw [h.sender.value, h.sent_events, BitVec.ofNat_add]
    rfl
  refine ⟨hrun, h.events.wrote hp.1 slot hmsg,
    ⟨fun hl => absurd rfl hl, h.sender.value, ?_⟩, hrecv⟩
  have hpub : published (s.access (.wrote slot (wordBytes v), q)).events = published s.events := by
    simp [MainState.access, published]
  rw [hpub]
  exact h.sender.sent

theorem MainOk.send_published (h : MainOk x mem s v .send w l₁)
    (hpc : s.spsc.producer = .publish i msg)
    (he : s.spsc.producerStep (wordBytes v) = (.published msg, q)) (hq : q.producer = .start) :
    MainOk x mem (s.access (.published msg, q)) v .clock w l₁ := by
  obtain ⟨hrun, hrecv⟩ := h.send_run he
  have hp := (main_spscInv h.run).producer
  rw [hpc] at hp
  refine ⟨hrun, h.events.publish hp.2.1, ⟨fun _ => hq, h.sender.value, ?_⟩, hrecv⟩
  have hpub : published (s.access (.published msg, q)).events = published s.events + 1 := by
    simp [MainState.access, published]
  rw [hpub, BitVec.ofNat_add, ← h.sent_events]
  rfl

theorem MainOk.send (h : MainOk x mem s v .send w l₁) :
    ∃ l₀, afterProducer v (s.spsc.producerStep (wordBytes v)).1 = .task0 v l₀ ∧
      MainOk x mem (s.access (s.spsc.producerStep (wordBytes v))) v l₀ w l₁ := by
  cases hpc : s.spsc.producer with
  | start =>
    have he : s.spsc.producerStep (wordBytes v) =
        (.load, { s.spsc with producer := .loaded s.spsc.queue.writeIndex }) := by
      rw [Spsc.producerStep, hpc]
    rw [he]
    exact ⟨.send, rfl, h.send_quiet he trivial rfl fun hl => absurd rfl hl⟩
  | loaded i =>
    by_cases hfull : getWriteLocation s.spsc.queue i s.spsc.queue.readIndex = 0
    · have he : s.spsc.producerStep (wordBytes v) = (.full, { s.spsc with producer := .start }) := by
        simp only [Spsc.producerStep, hpc]
        rw [if_pos hfull]
      rw [he]
      exact ⟨.rest, rfl, h.send_quiet he trivial rfl fun _ => rfl⟩
    · have he : s.spsc.producerStep (wordBytes v) = (.load, { s.spsc with
          producer := .writing (getWriteLocation s.spsc.queue i s.spsc.queue.readIndex) }) := by
        simp only [Spsc.producerStep, hpc]
        rw [if_neg hfull]
      rw [he]
      exact ⟨.send, rfl, h.send_quiet he trivial rfl fun hl => absurd rfl hl⟩
  | writing slot =>
    have he : s.spsc.producerStep (wordBytes v) = (.wrote slot (wordBytes v), { s.spsc with
        mem := storeBytes s.spsc.mem slot (wordBytes v), producer := .update (wordBytes v) }) := by
      rw [Spsc.producerStep, hpc]
    rw [he]
    exact ⟨.send, rfl, h.send_wrote hpc he⟩
  | update msg =>
    have he : s.spsc.producerStep (wordBytes v) =
        (.load, { s.spsc with producer := .publish s.spsc.queue.writeIndex msg }) := by
      rw [Spsc.producerStep, hpc]
    rw [he]
    exact ⟨.send, rfl, h.send_quiet he trivial rfl fun hl => absurd rfl hl⟩
  | publish i msg =>
    have he : s.spsc.producerStep (wordBytes v) = (.published msg, { s.spsc with
        queue := { s.spsc.queue with writeIndex := lfqueueNextIndex s.spsc.queue i }
        producer := .start }) := by
      rw [Spsc.producerStep, hpc]
    rw [he]
    exact ⟨.clock, rfl, h.send_published hpc he rfl⟩

/-! One access of `task1` to the queue. -/

theorem MainOk.recv_run (h : MainOk x mem s v l₀ w l₁) (he : s.spsc.consumerStep = (e, q)) :
    SpscRun (mainQueue x) mem (s.access (e, q)).events q ∧ SendOk (s.access (e, q)) v l₀ := by
  have hrun := h.run.consumer
  obtain ⟨hprod, hpub⟩ := consumerStep_frame s.events s.spsc
  rw [he] at hrun hprod hpub
  exact ⟨hrun, h.sender.congr hpub hprod rfl⟩

theorem MainOk.recv_quiet (h : MainOk x mem s v l₀ w .recv) (he : s.spsc.consumerStep = (e, q))
    (hquiet : e.Quiet) (ht : l₁.taken = none) (hu : l₁.uncounted = 0) (hn : l₁.unnoted = 0)
    (hq : l₁ ≠ .recv → q.consumer = .start) : MainOk x mem (s.access (e, q)) v l₀ w l₁ := by
  obtain ⟨hrun, hsend⟩ := h.recv_run he
  have hrel : released (s.access (e, q)).events = released s.events := (quiet_same hquiet s.events).2.1
  refine ⟨hrun, h.events.quiet hquiet, hsend, hq, ?_, ?_, ?_, ?_, h.receiver.errors⟩
  · intro u hsome
    rw [ht] at hsome
    cases hsome
  · intro _
    rw [hrel]
    exact h.receiver.expected rfl
  · rw [hu, hrel]
    exact h.receiver.recv
  · rw [hn, hrel]
    exact h.receiver.last

/-- The number that is taken is the next one. -/
theorem MainOk.recv_released (h : MainOk x mem s v l₀ w .recv)
    (hpc : s.spsc.consumer = .release i msg) (he : s.spsc.consumerStep = (.released msg, q))
    (hq : q.consumer = .start) :
    MainOk x mem (s.access (.released msg, q)) v l₀ w (.clock (wordOfBytes msg)) := by
  obtain ⟨hrun, hsend⟩ := h.recv_run he
  have hcn := (main_spscInv h.run).consumer
  rw [hpc] at hcn
  have hmsg : wordOfBytes msg = BitVec.ofNat 32 (released s.events + 1) := by
    rw [h.events.numbered _ _ hcn.2.2.1, wordOfBytes_wordBytes]
  have hrel : BitVec.ofNat 32 (released (s.access (.released msg, q)).events) =
      BitVec.ofNat 32 (released s.events) + 1 := by
    rw [show released (s.access (.released msg, q)).events = released s.events + 1 by
      simp [MainState.access, released], BitVec.ofNat_add]
    rfl
  have hrecv : s.gTask2Recv = BitVec.ofNat 32 (released s.events) :=
    (BitVec.add_zero _).symm.trans h.receiver.recv
  have hlast : s.gLastRecv = BitVec.ofNat 32 (released s.events) :=
    (BitVec.add_zero _).symm.trans h.receiver.last
  refine ⟨hrun, h.events.release hcn.2.2.1, hsend, fun _ => hq, ?_, ?_, ?_, ?_, h.receiver.errors⟩
  · intro u hu
    obtain rfl := Option.some.inj hu
    rw [hmsg, hrel, h.receiver.expected rfl, BitVec.ofNat_add]
    exact ⟨rfl, rfl⟩
  · intro hnone
    cases hnone
  · rw [hrel, ← hrecv]
    rfl
  · rw [hrel, ← hlast]
    rfl

theorem MainOk.recv (h : MainOk x mem s v l₀ w .recv) :
    ∃ l₁, afterConsumer w s.spsc.consumerStep.1 = .task1 w l₁ ∧
      MainOk x mem (s.access s.spsc.consumerStep) v l₀ w l₁ := by
  cases hpc : s.spsc.consumer with
  | start =>
    have he : s.spsc.consumerStep =
        (.load, { s.spsc with consumer := .loaded s.spsc.queue.readIndex }) := by
      rw [Spsc.consumerStep, hpc]
    rw [he]
    exact ⟨.recv, rfl, h.recv_quiet he trivial rfl rfl rfl fun hl => absurd rfl hl⟩
  | loaded i =>
    by_cases hempty : getReadLocation s.spsc.queue i s.spsc.queue.writeIndex = 0
    · have he : s.spsc.consumerStep = (.empty, { s.spsc with consumer := .start }) := by
        simp only [Spsc.consumerStep, hpc]
        rw [if_pos hempty]
      rw [he]
      exact ⟨.rest, rfl, h.recv_quiet he trivial rfl rfl rfl fun _ => rfl⟩
    · have he : s.spsc.consumerStep = (.load, { s.spsc with
          consumer := .reading (getReadLocation s.spsc.queue i s.spsc.queue.writeIndex) }) := by
        simp only [Spsc.consumerStep, hpc]
        rw [if_neg hempty]
      rw [he]
      exact ⟨.recv, rfl, h.recv_quiet he trivial rfl rfl rfl fun hl => absurd rfl hl⟩
  | reading slot =>
    have he : s.spsc.consumerStep =
        (.read slot (loadBytes s.spsc.mem slot s.spsc.queue.msgSize.toNat), { s.spsc with
          consumer := .update (loadBytes s.spsc.mem slot s.spsc.queue.msgSize.toNat) }) := by
      rw [Spsc.consumerStep, hpc]
    rw [he]
    exact ⟨.recv, rfl, h.recv_quiet he trivial rfl rfl rfl fun hl => absurd rfl hl⟩
  | update msg =>
    have he : s.spsc.consumerStep =
        (.load, { s.spsc with consumer := .release s.spsc.queue.readIndex msg }) := by
      rw [Spsc.consumerStep, hpc]
    rw [he]
    exact ⟨.recv, rfl, h.recv_quiet he trivial rfl rfl rfl fun hl => absurd rfl hl⟩
  | release i msg =>
    have he : s.spsc.consumerStep = (.released msg, { s.spsc with
        queue := { s.spsc.queue with readIndex := lfqueueNextIndex s.spsc.queue i }
        consumer := .start }) := by
      rw [Spsc.consumerStep, hpc]
    rw [he]
    exact ⟨.clock (wordOfBytes msg), rfl, h.recv_released hpc he rfl⟩

/-- A step of `task0`. -/
theorem MainOk.work0 (h : MainOk x mem s v l₀ w l₁) {f : MainState → MainState × MainPc}
    (hf : mainCode (.task0 v l₀) = .work f) :
    ∃ v' l₀', (f s).2 = .task0 v' l₀' ∧ MainOk x mem (f s).1 v' l₀' w l₁ := by
  have hsend := h.sender
  have hrecv : ∀ s' : MainState, s'.events = s.events → s'.spsc = s.spsc →
      s'.gTask2Recv = s.gTask2Recv → s'.gLastRecv = s.gLastRecv → s'.gErrorCount = s.gErrorCount →
      RecvOk s' w l₁ :=
    fun s' he hq h1 h2 h3 => h.receiver.congr (by rw [he]) (by rw [hq]) h1 h2 h3
  cases l₀ with
  | firstDelay => cases hf
  | lastSent =>
    cases hf
    exact ⟨v, .send, rfl, h.run, h.events, ⟨fun hl => absurd rfl hl, hsend.value, hsend.sent⟩,
      hrecv _ rfl rfl rfl rfl rfl⟩
  | send =>
    cases hf
    obtain ⟨l₀', h1, h2⟩ := h.send
    exact ⟨v, l₀', h1, h2⟩
  | clock =>
    cases hf
    exact ⟨v, .puts _, rfl, h.run, h.events,
      ⟨fun _ => hsend.outside nofun, hsend.value, hsend.sent⟩, hrecv _ rfl rfl rfl rfl rfl⟩
  | puts now =>
    cases hf
    exact ⟨v, .write now, rfl, h.run, h.events,
      ⟨fun _ => hsend.outside nofun, hsend.value, hsend.sent⟩, hrecv _ rfl rfl rfl rfl rfl⟩
  | write now =>
    cases hf
    exact ⟨v, .count, rfl, h.run, h.events,
      ⟨fun _ => hsend.outside nofun, hsend.value, hsend.sent⟩, hrecv _ rfl rfl rfl rfl rfl⟩
  | count =>
    cases hf
    refine ⟨v + 1, .rest, rfl, h.run, h.events, ⟨fun _ => hsend.outside nofun, ?_, ?_⟩,
      hrecv _ rfl rfl rfl rfl rfl⟩
    · rw [hsend.value]
    · exact (BitVec.add_zero _).trans hsend.sent
  | rest => cases hf

/-- A step of `task1`. -/
theorem MainOk.work1 (h : MainOk x mem s v l₀ w l₁) {f : MainState → MainState × MainPc}
    (hf : mainCode (.task1 w l₁) = .work f) :
    ∃ w' l₁', (f s).2 = .task1 w' l₁' ∧ MainOk x mem (f s).1 v l₀ w' l₁' := by
  obtain ⟨hout, hval, hexp, hrecv, hlast, herr⟩ := h.receiver
  have hsend : ∀ s' : MainState, s'.events = s.events → s'.spsc = s.spsc →
      s'.gTask1Sent = s.gTask1Sent → SendOk s' v l₀ :=
    fun s' he hq h1 => h.sender.congr (by rw [he]) (by rw [hq]) h1
  cases l₁ with
  | recv =>
    cases hf
    obtain ⟨l₁', h1, h2⟩ := h.recv
    exact ⟨w, l₁', h1, h2⟩
  | clock u =>
    cases hf
    exact ⟨w, .puts u _, rfl, h.run, h.events, hsend _ rfl rfl rfl,
      fun _ => hout nofun, hval, nofun, hrecv, hlast, herr⟩
  | puts u now =>
    cases hf
    exact ⟨w, .write u now, rfl, h.run, h.events, hsend _ rfl rfl rfl,
      fun _ => hout nofun, hval, nofun, hrecv, hlast, herr⟩
  | write u now =>
    cases hf
    exact ⟨w, .lastRecv u, rfl, h.run, h.events, hsend _ rfl rfl rfl,
      fun _ => hout nofun, hval, nofun, hrecv, hlast, herr⟩
  | lastRecv u =>
    cases hf
    refine ⟨w, .count u, rfl, h.run, h.events, hsend _ rfl rfl rfl,
      fun _ => hout nofun, hval, nofun, hrecv, ?_, herr⟩
    exact (BitVec.add_zero _).trans (hval u rfl).1
  | count u =>
    cases hf
    refine ⟨w, .check u, rfl, h.run, h.events, hsend _ rfl rfl rfl,
      fun _ => hout nofun, hval, nofun, ?_, hlast, herr⟩
    exact (BitVec.add_zero _).trans hrecv
  | check u =>
    cases hf
    -- the number is the expected one, so the branch that counts an error is never taken
    obtain ⟨hu, hwu⟩ := hval u rfl
    simp only [if_neg (not_not.2 hwu.symm)]
    refine ⟨w + 1, .rest, rfl, h.run, h.events, hsend _ rfl rfl rfl,
      fun _ => hout nofun, nofun, ?_, hrecv, hlast, herr⟩
    intro _
    rw [hwu, hu]
  | rest => cases hf

theorem split_three {α : Type} {l₁ l₂ : List α} {p a b c : α} (h : l₁ ++ p :: l₂ = [a, b, c]) :
    (l₁ = [] ∧ p = a ∧ l₂ = [b, c]) ∨ (l₁ = [a] ∧ p = b ∧ l₂ = [c]) ∨
      (l₁ = [a, b] ∧ p = c ∧ l₂ = []) := by
  rcases l₁ with _ | ⟨a', _ | ⟨b', _ | ⟨c', l⟩⟩⟩ <;> simp_all

/-- What is known of the application: where its tasks are, and that its data fit. -/
def MainInv (x : MainLinks) (mem : Word → Byte) (s : MainState) (places : List MainPc) : Prop :=
  ∃ v l₀ w l₁, places = [.idle, .task0 v l₀, .task1 w l₁] ∧ MainOk x mem s v l₀ w l₁

theorem mainInv_work {places₁ places₂ : List MainPc} {p : MainPc}
    {f : MainState → MainState × MainPc} (h : MainInv x mem s (places₁ ++ p :: places₂))
    (hf : mainCode p = .work f) : MainInv x mem (f s).1 (places₁ ++ (f s).2 :: places₂) := by
  obtain ⟨v, l₀, w, l₁, hpl, hok⟩ := h
  rcases split_three hpl with ⟨rfl, rfl, rfl⟩ | ⟨rfl, rfl, rfl⟩ | ⟨rfl, rfl, rfl⟩
  · cases hf
    exact ⟨v, l₀, w, l₁, rfl, hok⟩
  · obtain ⟨v', l₀', hpc, hok'⟩ := hok.work0 hf
    exact ⟨v', l₀', w, l₁, by rw [hpc]; rfl, hok'⟩
  · obtain ⟨w', l₁', hpc, hok'⟩ := hok.work1 hf
    exact ⟨v, l₀, w', l₁', by rw [hpc]; rfl, hok'⟩

/-- The only system calls are the delays. -/
theorem mainInv_call {places₁ places₂ : List MainPc} {p : MainPc} {c : MainState → Syscall}
    {next : ℤ → MainPc} (r : ℤ) (h : MainInv x mem s (places₁ ++ p :: places₂))
    (hc : mainCode p = .call c next) : MainInv x mem s (places₁ ++ next r :: places₂) := by
  obtain ⟨v, l₀, w, l₁, hpl, hok⟩ := h
  obtain ⟨hrun, hnum, ⟨hout, hval, hsent⟩, hout', htaken, hexp, hrecv, hlast, herr⟩ := hok
  rcases split_three hpl with ⟨rfl, rfl, rfl⟩ | ⟨rfl, rfl, rfl⟩ | ⟨rfl, rfl, rfl⟩
  · cases hc
  · cases l₀ <;> cases hc <;>
      exact ⟨v, .lastSent, w, l₁, rfl, hrun, hnum, ⟨fun _ => hout nofun, hval, hsent⟩,
        hout', htaken, hexp, hrecv, hlast, herr⟩
  · cases l₁ <;> cases hc
    exact ⟨v, l₀, w, .recv, rfl, hrun, hnum, ⟨hout, hval, hsent⟩,
      fun _ => hout' nofun, nofun, fun _ => hexp rfl, hrecv, hlast, herr⟩

theorem mainCode_no_create {p : MainPc} {c : MainState → Syscall} {next : ℤ → MainPc}
    {y : MainState} {args : Option TaskCreateArgs} (h : mainCode p = .call c next) :
    c y ≠ .taskCreate args := by
  rcases p with _ | ⟨_, l⟩ | ⟨_, l⟩
  · cases h
  · cases l <;> cases h <;> nofun
  · cases l <;> cases h
    nofun

theorem mainInv_boot {b : Boot} (hb : MainBoot x b) (clock : ℕ → Word) :
    MainInv x mem (.boot x clock mem) ((mainProgram x).start b.layout.osIdleTask ::
      (mainCreates x).map fun r => (mainProgram x).start r.entry) := by
  have hne : x.task1 ≠ x.task0 := by
    have := x.distinct
    simp only [List.nodup_cons, List.mem_cons, List.not_mem_nil, or_false, not_or] at this
    exact Ne.symm this.2.1
  have hidle := hb.idle
  simp only [List.mem_cons, List.not_mem_nil, or_false, not_or] at hidle
  refine ⟨1, .firstDelay, 1, .recv, ?_, ?_, ⟨nofun, rfl, rfl⟩, ⟨fun _ => rfl, rfl, rfl⟩,
    ⟨fun hl => absurd rfl hl, nofun, fun _ => rfl, rfl, rfl, rfl⟩⟩
  · simp only [mainProgram, mainCreates, List.map_cons, List.map_nil, if_neg hidle.1,
      if_neg hidle.2, if_neg hne, if_pos]
  · simp only [MainState.boot, mainQueue_init]
    exact .init

/-- Whatever the interrupts do and however the two tasks interleave: no error is ever counted. The
numbers published are 1, 2, 3 and so on, and so are those taken, of which there are never more and
at most seven fewer; the indices of the queue stand at them, and the counters are at most one step
behind. -/
theorem demo_in_order {b : Boot} {n : ℕ} {clock : ℕ → Word} {s : ProgSys MainState MainPc}
    (hb : MainBoot x b) (hf : PoolsFit b.layout)
    (h : ProgRun (mainProgram x) b (.boot x clock mem) n s) :
    s.user.gErrorCount = 0 ∧ ∃ sent recv : ℕ, sentNumbers s.user.events = numbersTo sent ∧
      receivedNumbers s.user.events = numbersTo recv ∧ recv ≤ sent ∧ sent ≤ recv + 7 ∧
      s.user.spsc.queue.writeIndex.toNat = sent % 8 ∧
      s.user.spsc.queue.readIndex.toNat = recv % 8 ∧
      (s.user.gTask1Sent = BitVec.ofNat 32 sent ∨ s.user.gTask1Sent + 1 = BitVec.ofNat 32 sent) ∧
      (s.user.gTask2Recv = BitVec.ofNat 32 recv ∨ s.user.gTask2Recv + 1 = BitVec.ofNat 32 recv) ∧
      (s.user.gLastRecv = BitVec.ofNat 32 recv ∨ s.user.gLastRecv + 1 = BitVec.ofNat 32 recv) := by
  have hok : ∀ r ∈ mainCreates x, r.InOrder := by
    have hd := x.distinct
    simp only [List.nodup_cons, List.mem_cons, List.not_mem_nil, or_false, not_or] at hd
    intro r hr
    simp only [mainCreates, List.mem_cons, List.not_mem_nil, or_false] at hr
    rcases hr with rfl | rfl
    · exact ⟨Ne.symm hd.1.1, osTaskMedium.isLt, Nat.succ_pos _, le_refl 256⟩
    · exact ⟨Ne.symm hd.1.2, osTaskMedium.isLt, Nat.succ_pos _, le_refl 256⟩
  have hroom : (mainCreates x).length + 1 ≤
      min b.layout.kernelObjectCount b.layout.taskStackCount := le_min hb.objects hb.stackBlocks
  obtain ⟨v, l₀, w, l₁, -, hmain⟩ := prog_interleaved (J := MainInv x mem) hb.creates hok hf hroom
    mainCode_no_create (mainInv_boot hb clock) mainInv_work (fun r => mainInv_call r) h
  have hi := main_spscInv hmain.run
  have hahead : published s.user.events + 1 ≤ released s.user.events + 8 := hi.ahead
  have hlag : ∀ {c d k : Word}, c + d = k → d = 0 ∨ d = 1 → c = k ∨ c + 1 = k := by
    rintro c d k hk (rfl | rfl)
    · exact .inl ((BitVec.add_zero c).symm.trans hk)
    · exact .inr hk
  refine ⟨hmain.receiver.errors, published s.user.events, released s.user.events,
    hmain.events.sent, hmain.events.received, hi.behind, by omega, ?_, ?_,
    hlag hmain.sender.sent ?_, hlag hmain.receiver.recv ?_, hlag hmain.receiver.last ?_⟩
  · rw [hi.writeIndex, ringIndex_toNat (by decide)]
    rfl
  · rw [hi.readIndex, ringIndex_toNat (by decide)]
    rfl
  · cases l₀ <;> first | exact .inl rfl | exact .inr rfl
  · cases l₁ <;> first | exact .inl rfl | exact .inr rfl
  · cases l₁ <;> first | exact .inl rfl | exact .inr rfl

def MainLinks.small : MainLinks := ⟨0x20000100, 0x400, 0x500, by decide, by decide, by decide⟩

/-- Both tasks go to sleep, `task0` is woken after its first delay and sends, and `task1` receives. -/
def demoActs : List ProgAct :=
  let steps (n : ℕ) : List ProgAct := List.replicate n .task
  let ticks (n : ℕ) : List ProgAct := List.replicate n (.interrupt .sysTick)
  let switch : List ProgAct := [.interrupt .pendSV]
  List.flatten [switch, steps 1, switch, steps 3, switch, ticks 50, switch, steps 3, switch, steps 11,
    switch, ticks 15, switch, ticks 1, switch, steps 11]

theorem demo_received : ∃ s : ProgSys MainState MainPc,
    ProgRun (mainProgram .small) (.app ((mainCreates .small).map some))
      (.boot .small (fun _ => 0) fun _ => 0) (demoActs.count .task) s ∧
    s.user.gTask1Sent = 1 ∧ s.user.gTask2Recv = 1 ∧ s.user.gLastRecv = 1 :=
  Program.play_exists (mainProgram .small) (.app ((mainCreates .small).map some))
    (.boot .small (fun _ => 0) fun _ => 0) 20 demoActs
    (fun s => s.user.gTask1Sent = 1 ∧ s.user.gTask2Recv = 1 ∧ s.user.gLastRecv = 1)
    (by decide +kernel)

theorem demo_in_order_small : ∃ (n : ℕ) (s : ProgSys MainState MainPc),
    ProgRun (mainProgram .small) (.app ((mainCreates .small).map some))
      (.boot .small (fun _ => 0) fun _ => 0) n s ∧
    s.user.gTask2Recv = 1 ∧ s.user.gErrorCount = 0 := by
  obtain ⟨s, hs, -, hrecv, -⟩ := demo_received
  have hb : MainBoot .small (.app ((mainCreates .small).map some)) :=
    ⟨rfl, by decide, by decide, by decide⟩
  have hf : PoolsFit (Boot.app ((mainCreates .small).map some)).layout :=
    ⟨⟨by decide, by decide, by decide, by decide⟩, ⟨by decide, by decide, by decide, by decide⟩⟩
  exact ⟨_, s, hs, hrecv, (demo_in_order hb hf hs).1⟩

end Rtos

import Rtos.Kernel.Rtt

/-! The byte streams of `rtt.c`. Up, the target is the writer of the ring and the host its
reader; down, they change places. Each of the two invariants says what one channel holds and
what its two sides know of it. -/

namespace Rtos

open Lib

variable {ch : OsRttChannel} {pos : Word} {stored took sent base : List Byte} {target target' : Target}
  {data : List Byte} {w r : ℕ}

theorem next_index (hs : 0 < ch.size.toNat) (i : ℕ) :
    ch.next (ringIndex ch.size i) = ringIndex ch.size (i + 1) :=
  ringIndex_succ hs i

/-- What the writer knows when `stored` are in the buffer, `w` are published and `r` released. -/
def WriterOk (size : Word) (stored data : List Byte) (w r : ℕ) : Writer → Prop
  | .test i => i ≤ data.length ∧ stored.length = w
  | .full i next => i < data.length ∧ stored.length = w ∧ next = ringIndex size (w + 1)
  | .index i next => i < data.length ∧ stored.length = w ∧ next = ringIndex size (w + 1) ∧
      w + 1 < r + size.toNat
  | .store i next idx => i < data.length ∧ stored.length = w ∧ next = ringIndex size (w + 1) ∧
      w + 1 < r + size.toNat ∧ idx = ringIndex size w
  | .publish i next => i < data.length ∧ stored.length = w + 1 ∧ next = ringIndex size (w + 1) ∧
      stored[w]? = data[i]?
  | .done _ => False

def Target.WriterOk (size : Word) (stored : List Byte) (w r : ℕ) : Target → Prop
  | .writing data pc => Rtos.WriterOk size stored data w r pc
  | _ => stored.length = w

/-- The up channel: `base` are the accepted bytes of the calls that have returned. -/
structure UpInv (ch : OsRttChannel) (pos : Word) (stored took base : List Byte) (target : Target)
    (r : ℕ) : Prop where
  stream : Stream ch.size ch.buffer ch.wrOff ch.rdOff stored (base ++ target.accepted).length r
  pos_eq : pos = ringIndex ch.size took.length
  released : r ≤ took.length
  took_le : took.length ≤ (base ++ target.accepted).length
  took_eq : took <+: stored
  accepted : base ++ target.accepted <+: stored
  writer : target.WriterOk ch.size stored (base ++ target.accepted).length r

theorem WriterOk.mono {size : Word} {pc : Writer} {r' : ℕ} (h : WriterOk size stored data w r pc)
    (hr : r ≤ r') : WriterOk size stored data w r' pc := by
  cases pc with
  | test i => exact h
  | full i next => exact h
  | index i next => exact ⟨h.1, h.2.1, h.2.2.1, by have := h.2.2.2; omega⟩
  | store i next idx => exact ⟨h.1, h.2.1, h.2.2.1, by have := h.2.2.2.1; omega, h.2.2.2.2⟩
  | publish i next => exact h
  | done i => exact h

/-- One more byte of a prefix. -/
theorem prefix_snoc {α : Type} {l l' : List α} {b : α} (h : l <+: l') (hb : l'[l.length]? = some b) :
    l ++ [b] <+: l' := by
  obtain ⟨t, rfl⟩ := h
  rw [List.getElem?_append_right le_rfl, Nat.sub_self] at hb
  obtain ⟨t', rfl⟩ : ∃ t', t = b :: t' := by
    cases t with
    | nil => cases hb
    | cons x t' =>
      obtain rfl : x = b := by simpa using hb
      exact ⟨t', rfl⟩
  exact ⟨t', by simp⟩

namespace UpInv

theorem quiet (h : UpInv ch pos stored took base target r)
    (h1 : ∀ data pc, target ≠ .writing data pc) (h2 : ∀ data pc, target' ≠ .writing data pc) :
    UpInv ch pos stored took base target' r := by
  have ha : ∀ {t : Target}, (∀ data pc, t ≠ .writing data pc) → t.accepted = [] ∧
      ∀ w, t.WriterOk ch.size stored w r ↔ stored.length = w := by
    intro t ht
    cases t with
    | writing data pc => exact absurd rfl (ht data pc)
    | idle => exact ⟨rfl, fun _ => Iff.rfl⟩
    | reading len pc => exact ⟨rfl, fun _ => Iff.rfl⟩
  obtain ⟨e1, o1⟩ := ha h1
  obtain ⟨e2, o2⟩ := ha h2
  have hw := (o1 _).1 h.writer
  rw [e1] at hw
  refine ⟨?_, h.pos_eq, h.released, ?_, h.took_eq, ?_, ?_⟩
  · rw [e2, ← e1]
    exact h.stream
  · rw [e2, ← e1]
    exact h.took_le
  · rw [e2, ← e1]
    exact h.accepted
  · rw [o2, e2]
    exact hw

theorem call (h : UpInv ch pos stored took base .idle r) (data : List Byte) :
    UpInv ch pos stored took base (.writing data (.test 0)) r :=
  ⟨h.stream, h.pos_eq, h.released, h.took_le, h.took_eq, h.accepted, Nat.zero_le _, h.writer⟩

/-- The call returns: its bytes join those of the calls before it. -/
theorem returned {pc : Writer} (h : UpInv ch pos stored took base (.writing data pc) r)
    (hlen : stored.length = (base ++ data.take pc.count).length) :
    UpInv ch pos stored took (base ++ data.take pc.count) .idle r := by
  have he : base ++ data.take pc.count ++ Target.idle.accepted = base ++ data.take pc.count :=
    List.append_nil _
  refine ⟨?_, h.pos_eq, h.released, ?_, h.took_eq, ?_, ?_⟩
  · rw [he]
    exact h.stream
  · rw [he]
    exact h.took_le
  · rw [he]
    exact h.accepted
  · rw [he]
    exact hlen

/-- The writer has learnt something and the channel is as before. -/
theorem learn {pc pc' : Writer} (h : UpInv ch pos stored took base (.writing data pc) r)
    (hc : pc'.count = pc.count)
    (hw : WriterOk ch.size stored data (base ++ data.take pc.count).length r pc') :
    UpInv ch pos stored took base (.writing data pc') r := by
  have he : (Target.writing data pc').accepted = (Target.writing data pc).accepted :=
    congrArg data.take hc
  refine ⟨?_, h.pos_eq, h.released, ?_, h.took_eq, ?_, ?_⟩
  · rw [he]
    exact h.stream
  · rw [he]
    exact h.took_le
  · rw [he]
    exact h.accepted
  · rw [he]
    exact hw

theorem write {pc : Writer} (h : UpInv ch pos stored took base (.writing data pc) r) :
    UpInv (writerStep data ch pc).1 pos
      (stored ++ (writerEvent data pc (writerStep data ch pc).2).1.storedBytes) took
      (base ++ (writerEvent data pc (writerStep data ch pc).2).1.wroteBytes)
      (writerEvent data pc (writerStep data ch pc).2).2 r := by
  have hs := h.stream.pos
  have hok := h.writer
  have hnil : stored ++ [] = stored := List.append_nil _
  have hnil' : base ++ [] = base := List.append_nil _
  cases pc with
  | test i =>
    simp only [writerStep]
    split_ifs with hi
    · simp only [writerEvent, RttEvent.storedBytes, RttEvent.wroteBytes, hnil, hnil']
      refine h.learn rfl ⟨hi, hok.2, ?_⟩
      rw [h.stream.wr_eq]
      exact next_index hs _
    · simp only [writerEvent, RttEvent.storedBytes, RttEvent.wroteBytes, hnil]
      exact h.returned hok.2
  | full i next =>
    simp only [writerStep]
    split_ifs with hf
    · simp only [writerEvent, RttEvent.storedBytes, RttEvent.wroteBytes, hnil]
      exact h.returned hok.2.1
    · simp only [writerEvent, RttEvent.storedBytes, RttEvent.wroteBytes, hnil, hnil']
      refine h.learn rfl ⟨hok.1, hok.2.1, hok.2.2, ?_⟩
      rw [hok.2.2, h.stream.full_iff h.stream.released h.stream.behind] at hf
      have := h.stream.behind
      simp only [Target.accepted, Writer.count] at this hf ⊢
      omega
  | index i next =>
    simp only [writerStep, writerEvent, RttEvent.storedBytes, RttEvent.wroteBytes, hnil, hnil']
    exact h.learn rfl ⟨hok.1, hok.2.1, hok.2.2.1, hok.2.2.2, h.stream.wr_eq⟩
  | store i next idx =>
    simp only [writerStep, writerEvent, RttEvent.storedBytes, RttEvent.wroteBytes, hnil']
    obtain ⟨hi, hlen, hn, hroom, hidx⟩ := hok
    have hbyte : (stored ++ [data.getD i 0])[stored.length]? = data[i]? := by
      rw [List.getElem?_append_right le_rfl, Nat.sub_self, List.getD_eq_getElem?_getD,
        List.getElem?_eq_getElem hi]
      rfl
    have hstream := h.stream.store (by rw [hlen]; exact hroom) (data.getD i 0)
    rw [hlen, ← hidx] at hstream
    rw [hlen] at hbyte
    refine ⟨hstream, h.pos_eq, h.released, h.took_le, h.took_eq.trans (List.prefix_append _ _),
      h.accepted.trans (List.prefix_append _ _), hi, ?_, hn, hbyte⟩
    rw [List.length_append, hlen]
    rfl
  | publish i next =>
    simp only [writerStep, writerEvent, RttEvent.storedBytes, RttEvent.wroteBytes, hnil, hnil']
    obtain ⟨hi, hlen, hn, hb⟩ := hok
    have hacc : base ++ data.take (i + 1) = (base ++ data.take i) ++ [data[i]] := by
      rw [List.append_assoc, List.take_succ_eq_append_getElem hi]
    have hlen' : (base ++ data.take (i + 1)).length = (base ++ data.take i).length + 1 := by
      rw [hacc, List.length_append]
      rfl
    have hstream := h.stream.publish (p := (base ++ data.take i).length + 1) (Nat.le_succ _) hlen.ge
    have hpre := prefix_snoc h.accepted (hb.trans (List.getElem?_eq_getElem hi))
    refine ⟨?_, h.pos_eq, h.released, ?_, h.took_eq, ?_, hi, ?_⟩
    · change Stream ch.size ch.buffer next ch.rdOff stored (base ++ data.take (i + 1)).length r
      rw [hlen', hn]
      exact hstream
    · change took.length ≤ (base ++ data.take (i + 1)).length
      rw [hlen']
      exact h.took_le.trans (Nat.le_succ _)
    · change base ++ data.take (i + 1) <+: stored
      rw [hacc]
      exact hpre
    · exact hlen.trans hlen'.symm
  | done i => exact hok.elim

/-- The host reads one byte more. -/
theorem take (h : UpInv ch pos stored took base target r) (hp : pos ≠ ch.wrOff) :
    UpInv ch (ch.next pos) stored (took ++ [ch.buffer pos]) base target r := by
  have hlt : took.length < (base ++ target.accepted).length := by
    refine lt_of_le_of_ne h.took_le fun he => hp ?_
    rw [h.pos_eq]
    exact (h.stream.end_iff h.released h.took_le).2 he
  have hb := h.stream.fetch h.released (hlt.trans_le h.stream.published)
  rw [← h.pos_eq] at hb
  have hlen : (took ++ [ch.buffer pos]).length = took.length + 1 := by simp
  refine ⟨h.stream, ?_, ?_, ?_, prefix_snoc h.took_eq hb, h.accepted, h.writer⟩
  · rw [hlen, h.pos_eq]
    exact next_index h.stream.pos _
  · rw [hlen]
    exact h.released.trans (Nat.le_succ _)
  · rw [hlen]
    exact hlt

/-- The host releases what it has read, which gives the writer room. -/
theorem release (h : UpInv ch pos stored took base target r) :
    UpInv { ch with rdOff := pos } pos stored took base target took.length := by
  have hs := h.stream.release h.released h.took_le
  rw [← h.pos_eq] at hs
  refine ⟨hs, h.pos_eq, le_rfl, h.took_le, h.took_eq, h.accepted, ?_⟩
  have hw := h.writer
  cases target with
  | writing data pc => exact WriterOk.mono hw h.released
  | idle => exact hw
  | reading len pc => exact hw

/-- A call that ends early has found the ring full. -/
theorem stops {pc : Writer} {n : ℕ} (h : UpInv ch pos stored took base (.writing data pc) r)
    (hd : (writerStep data ch pc).2 = .done n) :
    n ≤ data.length ∧ (n < data.length → ch.unread + 1 = ch.size.toNat) := by
  have hok := h.writer
  cases pc with
  | test i =>
    simp only [writerStep] at hd
    split_ifs at hd with hi
    obtain rfl := Writer.done.inj hd
    exact ⟨hok.1, fun hlt => absurd hlt hi⟩
  | full i next =>
    simp only [writerStep] at hd
    split_ifs at hd with hf
    obtain rfl := Writer.done.inj hd
    refine ⟨hok.1.le, fun _ => ?_⟩
    rw [hok.2.2, h.stream.full_iff h.stream.released h.stream.behind] at hf
    have := h.stream.released
    rw [OsRttChannel.unread, h.stream.unread_eq]
    omega
  | index i next => cases hd
  | store i next idx => cases hd
  | publish i next => cases hd
  | done i => exact hok.elim

/-- The cell a byte is stored in holds none that is unread. -/
theorem store_free {i : ℕ} {next idx : Word} {j : ℕ}
    (h : UpInv ch pos stored took base (.writing data (.store i next idx)) r) (hj : j < ch.unread) :
    idx ≠ ch.unreadCell j := by
  obtain ⟨-, hlen, -, -, hidx⟩ := h.writer
  rw [hidx, ← hlen]
  exact h.stream.free_cell hj

end UpInv

/-! The down channel. -/

def Reader.got : Reader → List Byte
  | .test got => got
  | .compare got _ => got
  | .index got => got
  | .fetch got _ => got
  | .bump got => got
  | .again got => got
  | .release got _ => got
  | .done got => got

def Target.got : Target → List Byte
  | .reading _ pc => pc.got
  | _ => []

/-- What the reader knows when it has fetched `n` bytes, `w` are published and `r` released. -/
def ReaderOk (size : Word) (n w r : ℕ) : Reader → Prop
  | .test _ => n = r
  | .compare _ rd => n = r ∧ rd = ringIndex size r
  | .index _ => n = r ∧ r < w
  | .fetch _ idx => n = r ∧ r < w ∧ idx = ringIndex size r
  | .bump _ => n = r + 1 ∧ r < w
  | .again _ => n = r + 1 ∧ r < w ∧ ringIndex size r + 1 ≠ size
  | .release _ next => n = r + 1 ∧ r < w ∧ next = ringIndex size (r + 1)
  | .done _ => False

def Target.ReaderOk (size : Word) (n w r : ℕ) : Target → Prop
  | .reading _ pc => Rtos.ReaderOk size n w r pc
  | _ => n = r

/-- The down channel: `base` are the bytes returned by the calls before. -/
structure DownInv (ch : OsRttChannel) (pos : Word) (sent base : List Byte) (target : Target)
    (w r : ℕ) : Prop where
  stream : Stream ch.size ch.buffer ch.wrOff ch.rdOff sent w r
  pos_eq : pos = ringIndex ch.size sent.length
  got : base ++ target.got <+: sent
  reader : target.ReaderOk ch.size (base ++ target.got).length w r

theorem ReaderOk.mono {size : Word} {n w' : ℕ} {pc : Reader} (h : ReaderOk size n w r pc)
    (hw : w ≤ w') : ReaderOk size n w' r pc := by
  cases pc with
  | test got => exact h
  | compare got rd => exact h
  | index got => exact ⟨h.1, h.2.trans_le hw⟩
  | fetch got idx => exact ⟨h.1, h.2.1.trans_le hw, h.2.2⟩
  | bump got => exact ⟨h.1, h.2.trans_le hw⟩
  | again got => exact ⟨h.1, h.2.1.trans_le hw, h.2.2⟩
  | release got next => exact ⟨h.1, h.2.1.trans_le hw, h.2.2⟩
  | done got => exact h

namespace DownInv

theorem quiet (h : DownInv ch pos sent base target w r)
    (h1 : ∀ len pc, target ≠ .reading len pc) (h2 : ∀ len pc, target' ≠ .reading len pc) :
    DownInv ch pos sent base target' w r := by
  have ha : ∀ {t : Target}, (∀ len pc, t ≠ .reading len pc) → t.got = [] ∧
      ∀ n, t.ReaderOk ch.size n w r ↔ n = r := by
    intro t ht
    cases t with
    | reading len pc => exact absurd rfl (ht len pc)
    | idle => exact ⟨rfl, fun _ => Iff.rfl⟩
    | writing data pc => exact ⟨rfl, fun _ => Iff.rfl⟩
  obtain ⟨e1, o1⟩ := ha h1
  obtain ⟨e2, o2⟩ := ha h2
  have hw := (o1 _).1 h.reader
  rw [e1] at hw
  refine ⟨h.stream, h.pos_eq, ?_, ?_⟩
  · rw [e2, ← e1]
    exact h.got
  · rw [o2, e2]
    exact hw

theorem call (h : DownInv ch pos sent base .idle w r) (len : ℕ) :
    DownInv ch pos sent base (.reading len (.test [])) w r :=
  ⟨h.stream, h.pos_eq, h.got, h.reader⟩

theorem returned {len : ℕ} {pc : Reader} (h : DownInv ch pos sent base (.reading len pc) w r)
    (hn : (base ++ pc.got).length = r) : DownInv ch pos sent (base ++ pc.got) .idle w r := by
  have he : base ++ pc.got ++ Target.idle.got = base ++ pc.got := List.append_nil _
  refine ⟨h.stream, h.pos_eq, ?_, ?_⟩
  · rw [he]
    exact h.got
  · rw [he]
    exact hn

theorem read {len : ℕ} {pc : Reader} (h : DownInv ch pos sent base (.reading len pc) w r) :
    ∃ r', DownInv (readerStep len ch pc).1 pos sent
      (base ++ (readerEvent len (readerStep len ch pc).2).1.readBytes)
      (readerEvent len (readerStep len ch pc).2).2 w r' := by
  have hs := h.stream.pos
  have hok := h.reader
  have hnil : base ++ [] = base := List.append_nil _
  cases pc with
  | test got =>
    refine ⟨r, ?_⟩
    simp only [readerStep]
    split_ifs with hl
    · simp only [readerEvent, RttEvent.readBytes, hnil]
      exact ⟨h.stream, h.pos_eq, h.got, hok, h.stream.rd_eq⟩
    · exact h.returned hok
  | compare got rd =>
    refine ⟨r, ?_⟩
    simp only [readerStep]
    split_ifs with hne
    · simp only [readerEvent, RttEvent.readBytes, hnil]
      rw [hok.2, ne_eq, h.stream.end_iff le_rfl h.stream.released] at hne
      exact ⟨h.stream, h.pos_eq, h.got, hok.1, lt_of_le_of_ne h.stream.released hne⟩
    · exact h.returned hok.1
  | index got =>
    refine ⟨r, ?_⟩
    simp only [readerStep, readerEvent, RttEvent.readBytes, hnil]
    exact ⟨h.stream, h.pos_eq, h.got, hok.1, hok.2, h.stream.rd_eq⟩
  | fetch got idx =>
    refine ⟨r, ?_⟩
    simp only [readerStep, readerEvent, RttEvent.readBytes, hnil]
    obtain ⟨hn, hlt, hidx⟩ := hok
    have hb := h.stream.fetch le_rfl (hlt.trans_le h.stream.published)
    rw [← hidx, ← hn] at hb
    have hpre := prefix_snoc h.got hb
    rw [List.append_assoc] at hpre
    refine ⟨h.stream, h.pos_eq, hpre, ?_, hlt⟩
    rw [← hn]
    change (base ++ (got ++ [ch.buffer idx])).length = (base ++ got).length + 1
    rw [← List.append_assoc, List.length_append]
    rfl
  | bump got =>
    refine ⟨r, ?_⟩
    have hrd := h.stream.rd_eq
    simp only [readerStep]
    split_ifs with he
    · simp only [readerEvent, RttEvent.readBytes, hnil]
      refine ⟨h.stream, h.pos_eq, h.got, hok.1, hok.2, ?_⟩
      rw [← ringIndex_succ hs, ← hrd, if_pos he]
    · simp only [readerEvent, RttEvent.readBytes, hnil]
      rw [hrd] at he
      exact ⟨h.stream, h.pos_eq, h.got, hok.1, hok.2, he⟩
  | again got =>
    refine ⟨r, ?_⟩
    simp only [readerStep, readerEvent, RttEvent.readBytes, hnil]
    refine ⟨h.stream, h.pos_eq, h.got, hok.1, hok.2.1, ?_⟩
    rw [← ringIndex_succ hs, h.stream.rd_eq, if_neg hok.2.2]
  | release got next =>
    simp only [readerStep, readerEvent, RttEvent.readBytes, hnil]
    obtain ⟨hn, hlt, hnext⟩ := hok
    have hstream := h.stream.release (Nat.le_succ r) hlt
    rw [← hnext] at hstream
    exact ⟨r + 1, hstream, h.pos_eq, h.got, hn⟩
  | done got => exact hok.elim

/-- The host fills one cell more, and none that is unread. -/
theorem send (h : DownInv ch pos sent base target w r) (hp : ch.next pos ≠ ch.rdOff) (b : Byte) :
    DownInv { ch with buffer := Function.update ch.buffer pos b } (ch.next pos) (sent ++ [b]) base
      target w r := by
  have hle : r ≤ sent.length := h.stream.released.trans h.stream.published
  rw [h.pos_eq, next_index h.stream.pos, ne_eq, h.stream.full_iff hle h.stream.room] at hp
  have hstream := h.stream.store (by have := h.stream.room; omega) b
  rw [← h.pos_eq] at hstream
  refine ⟨hstream, ?_, h.got.trans (List.prefix_append _ _), h.reader⟩
  rw [h.pos_eq, next_index h.stream.pos, List.length_append]
  rfl

theorem send_free {j : ℕ} (h : DownInv ch pos sent base target w r) (hj : j < ch.unread) :
    pos ≠ ch.unreadCell j := by
  rw [h.pos_eq]
  exact h.stream.free_cell hj

theorem publish (h : DownInv ch pos sent base target w r) :
    DownInv { ch with wrOff := pos } pos sent base target sent.length r := by
  have hs := h.stream.publish h.stream.published le_rfl
  rw [← h.pos_eq] at hs
  refine ⟨hs, h.pos_eq, h.got, ?_⟩
  have hr := h.reader
  cases target with
  | reading len pc => exact ReaderOk.mono hr h.stream.published
  | idle => exact hr
  | writing data pc => exact hr

end DownInv

/-! Runs. -/

/-- What must hold of a step, in the state it is made in: a call of `os_rtt_write` that accepts
less than it was given has found all cells but one unread, and no store hits an unread byte. -/
def Rtt.Sound (s : Rtt) : RttEvent → Prop
  | .wrote data n => n ≤ data.length ∧ (n < data.length → s.cb.up.unread + 1 = s.cb.up.size.toNat)
  | .stored idx _ => ∀ j < s.cb.up.unread, idx ≠ s.cb.up.unreadCell j
  | .sent idx _ => ∀ j < s.cb.down.unread, idx ≠ s.cb.down.unreadCell j
  | _ => True

structure RttInv (tr : List (Rtt × RttEvent)) (s : Rtt) : Prop where
  up : ∃ r, UpInv s.cb.up s.hostRd (carried RttEvent.storedBytes tr) (carried RttEvent.tookBytes tr)
    (carried RttEvent.wroteBytes tr) s.target r
  down : ∃ w r, DownInv s.cb.down s.hostWr (carried RttEvent.sentBytes tr)
    (carried RttEvent.readBytes tr) s.target w r
  sound : ∀ x ∈ tr, x.1.Sound x.2

theorem carried_snoc (f : RttEvent → List Byte) (tr : List (Rtt × RttEvent)) (x : Rtt × RttEvent) :
    carried f (tr ++ [x]) = carried f tr ++ f x.2 := by
  simp [carried]

/-- A writer's step is no event of the host or of the reader, and ends no reader. -/
theorem writerEvent_other (data : List Byte) (pc pc' : Writer) :
    (writerEvent data pc pc').1.tookBytes = [] ∧ (writerEvent data pc pc').1.sentBytes = [] ∧
      (writerEvent data pc pc').1.readBytes = [] ∧
      ∀ len p, (writerEvent data pc pc').2 ≠ .reading len p := by
  cases pc' <;> cases pc <;> exact ⟨rfl, rfl, rfl, nofun⟩

theorem readerEvent_other (len : ℕ) (pc' : Reader) :
    (readerEvent len pc').1.storedBytes = [] ∧ (readerEvent len pc').1.tookBytes = [] ∧
      (readerEvent len pc').1.wroteBytes = [] ∧ (readerEvent len pc').1.sentBytes = [] ∧
      ∀ data p, (readerEvent len pc').2 ≠ .writing data p := by
  cases pc' <;> exact ⟨rfl, rfl, rfl, rfl, nofun⟩

theorem UpInv.sound {s : Rtt} {pc : Writer}
    (h : UpInv s.cb.up pos stored took base (.writing data pc) r) :
    s.Sound (writerEvent data pc (writerStep data s.cb.up pc).2).1 := by
  cases pc with
  | store i next idx => exact fun j hj => h.store_free hj
  | _ =>
    cases hd : (writerStep data s.cb.up _).2 with
    | done n => exact h.stops hd
    | _ => trivial

theorem readerEvent_sound (s : Rtt) (len : ℕ) (pc' : Reader) : s.Sound (readerEvent len pc').1 := by
  cases pc' <;> trivial

variable {z : RttSizes} {tr : List (Rtt × RttEvent)} {s s' : Rtt} {e : RttEvent}

theorem RttInv.init (z : RttSizes) : RttInv [] z.init := by
  have hz : ∀ size : Word, (0 : Word) = ringIndex size 0 := fun size => by simp [ringIndex]
  have hs : ∀ size : Word, 0 < size.toNat →
      Stream size (fun _ => (0 : Byte)) (0 : Word) (0 : Word) [] 0 0 := fun size hpos =>
    ⟨hpos, hz size, hz size, le_rfl, le_rfl, by simpa using hpos, .nil⟩
  exact ⟨⟨0, hs z.up z.up_pos, hz z.up, le_rfl, le_rfl, List.prefix_rfl, List.prefix_rfl, rfl⟩,
    ⟨0, 0, hs z.down z.down_pos, hz z.down, List.prefix_rfl, rfl⟩, fun x hx => absurd hx List.not_mem_nil⟩

theorem RttInv.step (h : RttInv tr s) (hs : s.Step e s') : RttInv (tr ++ [(s, e)]) s' := by
  obtain ⟨⟨r, hu⟩, ⟨w, r', hd⟩, hso⟩ := h
  have hsnoc : s.Sound e → ∀ x ∈ tr ++ [(s, e)], x.1.Sound x.2 := by
    intro he x hx
    rcases List.mem_append.1 hx with hx | hx
    · exact hso x hx
    · obtain rfl := List.mem_singleton.1 hx
      exact he
  cases hs with
  | call c hidle =>
    rw [hidle] at hu hd
    refine ⟨⟨r, ?_⟩, ⟨w, r', ?_⟩, hsnoc trivial⟩
    · simp only [carried_snoc, RttEvent.storedBytes, RttEvent.tookBytes, RttEvent.wroteBytes,
        List.append_nil]
      cases c with
      | write data => exact hu.call data
      | puts str => exact hu.call _
      | read len => exact hu.quiet nofun nofun
    · simp only [carried_snoc, RttEvent.sentBytes, RttEvent.readBytes, List.append_nil]
      cases c with
      | write data => exact hd.quiet nofun nofun
      | puts str => exact hd.quiet nofun nofun
      | read len => exact hd.call len
  | @write data pc ht =>
    rw [ht] at hu hd
    obtain ⟨h1, h2, h3, h4⟩ := writerEvent_other data pc (writerStep data s.cb.up pc).2
    refine ⟨⟨r, ?_⟩, ⟨w, r', ?_⟩, hsnoc hu.sound⟩
    · simp only [carried_snoc, h1, List.append_nil]
      exact hu.write
    · simp only [carried_snoc, h2, h3, List.append_nil]
      exact hd.quiet nofun h4
  | @read len pc ht =>
    rw [ht] at hu hd
    obtain ⟨h1, h2, h3, h4, h5⟩ := readerEvent_other len (readerStep len s.cb.down pc).2
    obtain ⟨r₁, hd₁⟩ := hd.read
    refine ⟨⟨r, ?_⟩, ⟨w, r₁, ?_⟩, hsnoc (readerEvent_sound s _ _)⟩
    · simp only [carried_snoc, h1, h2, h3, List.append_nil]
      exact hu.quiet nofun h5
    · simp only [carried_snoc, h4, List.append_nil]
      exact hd₁
  | took hp =>
    refine ⟨⟨r, ?_⟩, ⟨w, r', ?_⟩, hsnoc trivial⟩
    · simp only [carried_snoc, RttEvent.storedBytes, RttEvent.tookBytes, RttEvent.wroteBytes,
        List.append_nil]
      exact hu.take hp
    · simp only [carried_snoc, RttEvent.sentBytes, RttEvent.readBytes, List.append_nil]
      exact hd
  | released =>
    refine ⟨⟨(carried RttEvent.tookBytes tr).length, ?_⟩, ⟨w, r', ?_⟩, hsnoc trivial⟩
    · simp only [carried_snoc, RttEvent.storedBytes, RttEvent.tookBytes, RttEvent.wroteBytes,
        List.append_nil]
      exact hu.release
    · simp only [carried_snoc, RttEvent.sentBytes, RttEvent.readBytes, List.append_nil]
      exact hd
  | sent b hp =>
    refine ⟨⟨r, ?_⟩, ⟨w, r', ?_⟩, hsnoc fun j hj => hd.send_free hj⟩
    · simp only [carried_snoc, RttEvent.storedBytes, RttEvent.tookBytes, RttEvent.wroteBytes,
        List.append_nil]
      exact hu
    · simp only [carried_snoc, RttEvent.sentBytes, RttEvent.readBytes, List.append_nil]
      exact hd.send hp b
  | published =>
    refine ⟨⟨r, ?_⟩, ⟨(carried RttEvent.sentBytes tr).length, r', ?_⟩, hsnoc trivial⟩
    · simp only [carried_snoc, RttEvent.storedBytes, RttEvent.tookBytes, RttEvent.wroteBytes,
        List.append_nil]
      exact hu
    · simp only [carried_snoc, RttEvent.sentBytes, RttEvent.readBytes, List.append_nil]
      exact hd.publish

theorem rttRun_inv (h : RttRun z tr s) : RttInv tr s := by
  induction h with
  | init => exact RttInv.init z
  | snoc _ hs ih => exact ih.step hs

structure Faithful (tr : List (Rtt × RttEvent)) (s : Rtt) : Prop where
  up : carried RttEvent.tookBytes tr <+: acceptedBytes tr s
  down : carried RttEvent.readBytes tr <+: carried RttEvent.sentBytes tr
  sound : ∀ x ∈ tr, x.1.Sound x.2
  upOffsets : s.cb.up.wrOff < s.cb.up.size ∧ s.cb.up.rdOff < s.cb.up.size
  downOffsets : s.cb.down.wrOff < s.cb.down.size ∧ s.cb.down.rdOff < s.cb.down.size

theorem rtt_faithful (h : RttRun z tr s) : Faithful tr s := by
  obtain ⟨⟨r, hu⟩, ⟨w, r', hd⟩, hso⟩ := rttRun_inv h
  refine ⟨?_, ?_, hso, ⟨hu.stream.wr_lt, hu.stream.rd_lt⟩, hd.stream.wr_lt, hd.stream.rd_lt⟩
  · exact List.prefix_of_prefix_length_le hu.took_eq hu.accepted hu.took_le
  · exact (List.prefix_append _ _).trans hd.got

/-- A write longer than its ring, of which the host reads a byte under way, and a read across
the end of the other ring. -/
theorem rtt_faithful_small : ∃ tr s, RttRun ⟨3, 2, by decide, by decide⟩ tr s ∧
    (carried RttEvent.tookBytes tr = [1, 2] ∧ acceptedBytes tr s = [1, 2, 3] ∧
      carried RttEvent.readBytes tr = [7, 8]) ∧ Faithful tr s := by
  obtain ⟨tr, s, h, hx⟩ := RttSizes.play_exists ⟨3, 2, by decide, by decide⟩
    ([.call (.write [1, 2, 3, 4])] ++ List.replicate 11 .target ++ [.take, .release, .take] ++
      List.replicate 6 .target ++ [.send 7, .publish, .call (.read 2)] ++
      List.replicate 7 .target ++ [.send 8, .publish] ++ List.replicate 7 .target)
    (fun tr s => carried RttEvent.tookBytes tr = [1, 2] ∧ acceptedBytes tr s = [1, 2, 3] ∧
      carried RttEvent.readBytes tr = [7, 8]) (by decide +kernel)
  exact ⟨tr, s, h, hx, rtt_faithful h⟩

end Rtos

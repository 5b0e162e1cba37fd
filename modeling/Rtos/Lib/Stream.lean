import Rtos.Lib.Ring

/-! A ring of cells between one writer and one reader. Each of the two owns an offset and
moves it while the other is under way; one cell stays free, so that a full ring does not look
like an empty one. -/

namespace Lib

universe u

variable {n : ℕ} {β : Type u} {size wr rd : BitVec n} {cell : BitVec n → β} {hist : List β} {w r p : ℕ}

/-- All of `hist` has been stored, the first `w` entries of it are published by `wr`, and the
first `r` are released by `rd`. -/
structure Stream (size : BitVec n) (cell : BitVec n → β) (wr rd : BitVec n) (hist : List β)
    (w r : ℕ) : Prop where
  pos : 0 < size.toNat
  wr_eq : wr = ringIndex size w
  rd_eq : rd = ringIndex size r
  released : r ≤ w
  published : w ≤ hist.length
  room : hist.length < r + size.toNat
  ring : Ring size.toNat (fun i => cell (BitVec.ofNat n i)) hist r

/-- How many cells hold bytes that are published and not released. -/
def unread (size wr rd : BitVec n) : ℕ := (wr.toNat + size.toNat - rd.toNat) % size.toNat

/-- The `j`-th of these cells. -/
def unreadCell (size rd : BitVec n) (j : ℕ) : BitVec n := ringIndex size (rd.toNat + j)

theorem ringIndex_inj (hs : 0 < size.toNat) {i j : ℕ} (h1 : i ≤ j) (h2 : j < i + size.toNat) :
    ringIndex size j = ringIndex size i ↔ j = i := by
  constructor
  · intro h
    by_contra hne
    exact ringIndex_ne hs (by omega) h2 h
  · rintro rfl
    rfl

theorem unreadCell_index (hs : 0 < size.toNat) (i j : ℕ) :
    unreadCell size (ringIndex size i) j = ringIndex size (i + j) := by
  apply BitVec.eq_of_toNat_eq
  rw [unreadCell, ringIndex_toNat hs, ringIndex_toNat hs, ringIndex_toNat hs, Nat.mod_add_mod]

theorem unread_index (hs : 0 < size.toNat) (h1 : r ≤ w) (h2 : w < r + size.toNat) :
    unread size (ringIndex size w) (ringIndex size r) = w - r := by
  have hr := Nat.mod_lt r hs
  have hw : w = r / size.toNat * size.toNat + (r % size.toNat + (w - r)) := by
    have := Nat.div_add_mod r size.toNat
    rw [Nat.mul_comm] at this
    omega
  have hmod : w % size.toNat = (r % size.toNat + (w - r)) % size.toNat := by
    conv_lhs => rw [hw]
    rw [Nat.mul_add_mod_self_right]
  rw [unread, ringIndex_toNat hs, ringIndex_toNat hs, hmod]
  rcases Nat.lt_or_ge (r % size.toNat + (w - r)) size.toNat with hlt | hge
  · rw [Nat.mod_eq_of_lt hlt, show r % size.toNat + (w - r) + size.toNat - r % size.toNat =
      w - r + size.toNat by omega, Nat.add_mod_right, Nat.mod_eq_of_lt (by omega)]
  · rw [Nat.mod_eq_sub_mod hge, Nat.mod_eq_of_lt (a := r % size.toNat + (w - r) - size.toNat) (by omega),
      show r % size.toNat + (w - r) - size.toNat + size.toNat - r % size.toNat = w - r by omega,
      Nat.mod_eq_of_lt (by omega)]

namespace Stream

variable (h : Stream size cell wr rd hist w r)
include h

theorem behind : w < r + size.toNat := h.published.trans_lt h.room

theorem wr_lt : wr.toNat < size.toNat := by
  rw [h.wr_eq]
  exact ringIndex_lt h.pos w

theorem rd_lt : rd.toNat < size.toNat := by
  rw [h.rd_eq]
  exact ringIndex_lt h.pos r

theorem unread_eq : unread size wr rd = w - r := by
  rw [h.wr_eq, h.rd_eq]
  exact unread_index h.pos h.released h.behind

/-- The writer finds the reader's offset in front of it exactly when the ring is full. -/
theorem full_iff (hr : r ≤ p) (hp : p < r + size.toNat) :
    ringIndex size (p + 1) = rd ↔ p + 1 = r + size.toNat := by
  rw [h.rd_eq]
  constructor
  · intro he
    by_contra hne
    exact ringIndex_ne h.pos (by omega) (by omega) he
  · intro he
    rw [he, ringIndex_add h.pos]

/-- The reader finds the writer's offset at its own position exactly when it has read all. -/
theorem end_iff (hr : r ≤ p) (hp : p ≤ w) : ringIndex size p = wr ↔ p = w := by
  rw [h.wr_eq, eq_comm, ringIndex_inj h.pos hp (by have := h.behind; omega), eq_comm]

/-- A cell past the stored bytes, one before the reader's: none that is unread. -/
theorem free_cell {j : ℕ} (hj : j < unread size wr rd) :
    ringIndex size hist.length ≠ unreadCell size rd j := by
  rw [h.unread_eq] at hj
  have h1 := h.published
  have h2 := h.room
  rw [h.rd_eq, unreadCell_index h.pos]
  exact ringIndex_ne h.pos (by omega) (by omega)

theorem store (hroom : hist.length + 1 < r + size.toNat) (b : β) :
    Stream size (Function.update cell (ringIndex size hist.length) b) wr rd (hist ++ [b]) w r := by
  have hlen : (hist ++ [b]).length = hist.length + 1 := by simp
  refine ⟨h.pos, h.wr_eq, h.rd_eq, h.released, by have := h.published; omega, by omega, ?_⟩
  refine h.ring.push (by omega) ?_ fun i hi hne => ?_
  · exact Function.update_self _ _ _
  · refine Function.update_of_ne (fun he => hne ?_) _ _
    have := congrArg BitVec.toNat he
    rw [BitVec.toNat_ofNat, Nat.mod_eq_of_lt (hi.trans size.isLt), ringIndex_toNat h.pos] at this
    exact this

theorem publish (hp : w ≤ p) (hl : p ≤ hist.length) :
    Stream size cell (ringIndex size p) rd hist p r :=
  ⟨h.pos, rfl, h.rd_eq, h.released.trans hp, hl, h.room, h.ring⟩

theorem release (hr : r ≤ p) (hp : p ≤ w) : Stream size cell wr (ringIndex size p) hist w p :=
  ⟨h.pos, h.wr_eq, rfl, hp, h.published, by have := h.room; omega, h.ring.advance hr⟩

theorem fetch (hr : r ≤ p) (hp : p < hist.length) : hist[p]? = some (cell (ringIndex size p)) := by
  have hx := List.getElem?_eq_getElem hp
  rw [hx, ← h.ring p _ hr hx]
  rfl

end Stream

end Lib

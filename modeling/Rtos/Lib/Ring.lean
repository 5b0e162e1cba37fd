import Mathlib.Tactic

/-! Rings of equal slots in byte memory, and the bounded FIFO they are for. The
history of a ring is the list of all that was ever put in; the entry `j` of it is in the
slot `j % n` until it is taken out. -/

namespace Lib

universe u

/-! Bytes. Addresses wrap, as the machine's do. -/

section Bytes

variable {w : ℕ} {β : Type u} {mem : BitVec w → β} {loc loc' : BitVec w} {bs : List β}

def storeBytes (mem : BitVec w → β) (loc : BitVec w) (bs : List β) : BitVec w → β :=
  fun a => bs[(a - loc).toNat]?.getD (mem a)

def loadBytes (mem : BitVec w → β) (loc : BitVec w) (n : ℕ) : List β :=
  (List.range n).map fun i => mem (loc + BitVec.ofNat w i)

/-- The `n` bytes at `loc` and the `n` bytes at `loc'` have none in common. -/
def Apart (n : ℕ) (loc loc' : BitVec w) : Prop :=
  ∀ i < n, n ≤ (loc' + BitVec.ofNat w i - loc).toNat

theorem loadBytes_length (n : ℕ) : (loadBytes mem loc n).length = n := by
  simp [loadBytes]

theorem load_store_self (h : bs.length ≤ 2 ^ w) :
    loadBytes (storeBytes mem loc bs) loc bs.length = bs := by
  refine List.ext_getElem (loadBytes_length _) fun i h1 h2 => ?_
  have hi : (loc + BitVec.ofNat w i - loc).toNat = i := by
    have : loc + BitVec.ofNat w i - loc = BitVec.ofNat w i := by
      rw [BitVec.add_comm, BitVec.add_sub_cancel]
    rw [this, BitVec.toNat_ofNat, Nat.mod_eq_of_lt (by omega)]
  simp only [loadBytes, storeBytes, List.getElem_map, List.getElem_range, hi]
  rw [List.getElem?_eq_getElem h2, Option.getD_some]

theorem load_store_apart (h : Apart bs.length loc loc') :
    loadBytes (storeBytes mem loc bs) loc' bs.length = loadBytes mem loc' bs.length := by
  refine List.map_congr_left fun i hi => ?_
  rw [storeBytes, List.getElem?_eq_none (h i (List.mem_range.1 hi)), Option.getD_none]

end Bytes

section Slots

variable {w n : ℕ} {base size i j : BitVec w}

/-- `base + i * size`. -/
def slotAddr (base size i : BitVec w) : BitVec w := base + i * size

/-- The memory from `base` on has room for `n` slots. -/
def Fits (base size : BitVec w) (n : ℕ) : Prop := base.toNat + n * size.toNat ≤ 2 ^ w

theorem slotAddr_toNat (h : Fits base size n) (hs : 0 < size.toNat) (hi : i.toNat < n) :
    (slotAddr base size i).toNat = base.toNat + i.toNat * size.toNat := by
  have hle : (i.toNat + 1) * size.toNat ≤ n * size.toNat := Nat.mul_le_mul_right _ hi
  rw [Nat.succ_mul] at hle
  have hfit : base.toNat + n * size.toNat ≤ 2 ^ w := h
  rw [slotAddr, BitVec.toNat_add, BitVec.toNat_mul, Nat.mod_eq_of_lt (a := i.toNat * _) (by omega)]
  exact Nat.mod_eq_of_lt (by omega)

theorem slots_apart (h : Fits base size n) (hs : 0 < size.toNat) (hi : i.toNat < n)
    (hj : j.toNat < n) (hne : i ≠ j) :
    Apart size.toNat (slotAddr base size i) (slotAddr base size j) := by
  intro x hx
  have hai := slotAddr_toNat h hs hi
  have haj := slotAddr_toNat h hs hj
  have hfit : base.toNat + n * size.toNat ≤ 2 ^ w := h
  have hli : (i.toNat + 1) * size.toNat ≤ n * size.toNat := Nat.mul_le_mul_right _ hi
  have hlj : (j.toNat + 1) * size.toNat ≤ n * size.toNat := Nat.mul_le_mul_right _ hj
  rw [Nat.succ_mul] at hli hlj
  have hx' : x % 2 ^ w = x := Nat.mod_eq_of_lt (by omega)
  rw [BitVec.toNat_sub, BitVec.toNat_add, BitVec.toNat_ofNat, hx', hai, haj,
    Nat.mod_eq_of_lt (a := base.toNat + j.toNat * size.toNat + x) (by omega)]
  rcases Nat.lt_or_gt_of_ne (fun hc => hne (BitVec.eq_of_toNat_eq hc)) with hlt | hgt
  · have hm : (i.toNat + 1) * size.toNat ≤ j.toNat * size.toNat := Nat.mul_le_mul_right _ hlt
    rw [Nat.succ_mul] at hm
    rw [show 2 ^ w - (base.toNat + i.toNat * size.toNat) + (base.toNat + j.toNat * size.toNat + x) =
      2 ^ w + (j.toNat * size.toNat - i.toNat * size.toNat + x) by omega, Nat.add_mod_left,
      Nat.mod_eq_of_lt (by omega)]
    omega
  · have hm : (j.toNat + 1) * size.toNat ≤ i.toNat * size.toNat := Nat.mul_le_mul_right _ hgt
    rw [Nat.succ_mul] at hm
    rw [Nat.mod_eq_of_lt (by omega)]
    omega

end Slots

/-! Indices that wrap. -/

theorem succ_mod {n i : ℕ} (hn : 0 < n) : (i + 1) % n = if i % n + 1 = n then 0 else i % n + 1 := by
  have hlt := Nat.mod_lt i hn
  rw [← Nat.mod_add_mod]
  split_ifs with h
  · rw [h, Nat.mod_self]
  · exact Nat.mod_eq_of_lt (by omega)

theorem mod_ne {n i j : ℕ} (h1 : i < j) (h2 : j < i + n) : j % n ≠ i % n := by
  intro h
  have hd : n ∣ j - i := (Nat.modEq_iff_dvd' h1.le).1 h.symm
  have := Nat.le_of_dvd (by omega) hd
  omega

/-- A ring of slots: where it is, how large its slots are, and how many there are. -/
structure Placed {w : ℕ} (base size count : BitVec w) : Prop where
  fits : Fits base size count.toNat
  base_ne : base ≠ 0
  size_pos : 0 < size.toNat
  count_pos : 0 < count.toNat

/-- The index after `i` steps around the ring. -/
def ringIndex {w : ℕ} (count : BitVec w) (i : ℕ) : BitVec w := BitVec.ofNat w (i % count.toNat)

/-- The slot of the entry `i`. -/
def ringSlot {w : ℕ} (base size count : BitVec w) (i : ℕ) : BitVec w :=
  slotAddr base size (ringIndex count i)

/-- What the memory holds, slot by slot. -/
def ringBytes {w : ℕ} {β : Type u} (base size : BitVec w) (mem : BitVec w → β) (i : ℕ) : List β :=
  loadBytes mem (slotAddr base size (BitVec.ofNat w i)) size.toNat

section Index

variable {w : ℕ} {count : BitVec w} (h : 0 < count.toNat)
include h

theorem ringIndex_toNat (i : ℕ) : (ringIndex count i).toNat = i % count.toNat := by
  have hlt : i % count.toNat < count.toNat := Nat.mod_lt _ h
  rw [ringIndex, BitVec.toNat_ofNat]
  exact Nat.mod_eq_of_lt (hlt.trans count.isLt)

theorem ringIndex_lt (i : ℕ) : (ringIndex count i).toNat < count.toNat := by
  rw [ringIndex_toNat h]
  exact Nat.mod_lt _ h

theorem ringIndex_succ (i : ℕ) :
    (if ringIndex count i + 1 = count then 0 else ringIndex count i + 1) = ringIndex count (i + 1) := by
  have h1 := ringIndex_toNat h i
  have h2 := ringIndex_lt h i
  have hlt := count.isLt
  have hw : 0 < w := by
    rcases Nat.eq_zero_or_pos w with rfl | hw
    · simp at hlt
      omega
    · exact hw
  have hadd : (ringIndex count i + 1).toNat = i % count.toNat + 1 := by
    rw [BitVec.toNat_add, h1, show (1 : BitVec w).toNat = 1 from BitVec.toNat_one hw]
    exact Nat.mod_eq_of_lt (by omega)
  have hiff : ringIndex count i + 1 = count ↔ i % count.toNat + 1 = count.toNat := by
    rw [← BitVec.toNat_inj, hadd]
  apply BitVec.eq_of_toNat_eq
  rw [ringIndex_toNat h, succ_mod h]
  by_cases he : i % count.toNat + 1 = count.toNat
  · rw [if_pos (hiff.2 he), if_pos he]
    rfl
  · rw [if_neg fun hx => he (hiff.1 hx), if_neg he, hadd]

theorem ringIndex_ne {i j : ℕ} (h1 : i < j) (h2 : j < i + count.toNat) :
    ringIndex count j ≠ ringIndex count i := by
  intro he
  have := congrArg BitVec.toNat he
  rw [ringIndex_toNat h, ringIndex_toNat h] at this
  exact mod_ne h1 h2 this

theorem ringIndex_add (i : ℕ) : ringIndex count (i + count.toNat) = ringIndex count i := by
  apply BitVec.eq_of_toNat_eq
  rw [ringIndex_toNat h, ringIndex_toNat h, Nat.add_mod_right]

end Index

section Placed

variable {w : ℕ} {β : Type u} {base size count : BitVec w} (h : Placed base size count)
include h

theorem Placed.slot_ne_zero (i : ℕ) : ringSlot base size count i ≠ 0 := by
  intro h0
  have hs := slotAddr_toNat h.fits h.size_pos (ringIndex_lt h.count_pos i)
  rw [show slotAddr base size (ringIndex count i) = 0 from h0] at hs
  have hz : base.toNat ≠ 0 := fun hz => h.base_ne (BitVec.eq_of_toNat_eq (by simpa using hz))
  simp at hs
  omega

/-- Less than a round apart in the history is apart in memory. -/
theorem Placed.slot_apart {i j : ℕ} (h1 : i < j) (h2 : j < i + count.toNat) :
    Apart size.toNat (ringSlot base size count j) (ringSlot base size count i) :=
  slots_apart h.fits h.size_pos (ringIndex_lt h.count_pos j) (ringIndex_lt h.count_pos i)
    (ringIndex_ne h.count_pos h1 h2)

end Placed

/-- The entries of the history from `lo` on are where they belong. -/
def Ring {α : Type u} (n : ℕ) (slot : ℕ → α) (hist : List α) (lo : ℕ) : Prop :=
  ∀ j x, lo ≤ j → hist[j]? = some x → slot (j % n) = x

namespace Ring

variable {α : Type u} {n lo lo' : ℕ} {slot slot' : ℕ → α} {hist : List α} {x : α}

theorem nil : Ring n slot [] lo := by
  intro j x _ hx
  simp at hx

theorem push (h : Ring n slot hist lo) (hn : hist.length < lo + n)
    (hx : slot' (hist.length % n) = x)
    (hother : ∀ i < n, i ≠ hist.length % n → slot' i = slot i) : Ring n slot' (hist ++ [x]) lo := by
  intro j y hj hy
  rcases Nat.lt_trichotomy j hist.length with hlt | rfl | hgt
  · rw [List.getElem?_append_left hlt] at hy
    have hne : hist.length % n ≠ j % n := mod_ne hlt (by omega)
    rw [hother _ (Nat.mod_lt _ (by omega)) (Ne.symm hne)]
    exact h j y hj hy
  · simpa [hx] using hy
  · rw [List.getElem?_eq_none (by simp; omega)] at hy
    cases hy

theorem advance (h : Ring n slot hist lo) (hlo : lo ≤ lo') : Ring n slot hist lo' :=
  fun j x hj hx => h j x (hlo.trans hj) hx

end Ring

/-- A message stored in the next slot, while there is one. -/
theorem Placed.push {w : ℕ} {β : Type u} {base size count : BitVec w} (h : Placed base size count)
    {mem : BitVec w → β} {hist : List (List β)} {lo : ℕ} {msg : List β}
    (hr : Ring count.toNat (ringBytes base size mem) hist lo) (hlen : msg.length = size.toNat)
    (hn : hist.length < lo + count.toNat) :
    Ring count.toNat
      (ringBytes base size (storeBytes mem (ringSlot base size count hist.length) msg))
      (hist ++ [msg]) lo := by
  have hle : msg.length ≤ 2 ^ w := by
    rw [hlen]
    exact size.isLt.le
  refine hr.push hn ?_ fun i hi hne => ?_
  · rw [ringBytes, ← hlen]
    exact load_store_self hle
  · have hi' : (BitVec.ofNat w i).toNat = i := by
      rw [BitVec.toNat_ofNat]
      exact Nat.mod_eq_of_lt (hi.trans count.isLt)
    have hidx : ringIndex count hist.length ≠ BitVec.ofNat w i := by
      intro he
      have := congrArg BitVec.toNat he
      rw [ringIndex_toNat h.count_pos, hi'] at this
      exact hne this.symm
    have hap := slots_apart h.fits h.size_pos (ringIndex_lt h.count_pos hist.length) (by rwa [hi'])
      hidx
    rw [← hlen] at hap
    rw [ringBytes, ringBytes, ← hlen]
    exact load_store_apart hap

/-! The bounded FIFO. -/

namespace Fifo

variable {α : Type u} [DecidableEq α]

/-- What a user of a FIFO sees: an element goes in or out, or the FIFO is found full or empty. -/
inductive Op (α : Type u)
  | enq (x : α)
  | deq (x : α)
  | full
  | empty

def step (n : ℕ) (l : List α) : Op α → Option (List α)
  | .enq x => if l.length < n then some (l ++ [x]) else none
  | .deq x => if l.head? = some x then some l.tail else none
  | .full => if l.length = n then some l else none
  | .empty => if l = [] then some l else none

def run (n : ℕ) (ops : List (Op α)) : Option (List α) := ops.foldlM (step n) []

theorem run_snoc {n : ℕ} {ops : List (Op α)} {op : Op α} {l : List α} (h : run n ops = some l) :
    run n (ops ++ [op]) = step n l op := by
  rw [run, List.foldlM_append, show List.foldlM (step n) [] ops = some l from h]
  simp

theorem run_split {n : ℕ} {ops₁ ops₂ : List (Op α)} {op : Op α} {l : List α}
    (h : run n (ops₁ ++ op :: ops₂) = some l) :
    ∃ l₁, run n ops₁ = some l₁ ∧ ∃ l₂, step n l₁ op = some l₂ := by
  rw [run, List.foldlM_append] at h
  obtain ⟨l₁, h1, h2⟩ := Option.bind_eq_some_iff.1 h
  rw [List.foldlM_cons] at h2
  obtain ⟨l₂, h3, -⟩ := Option.bind_eq_some_iff.1 h2
  exact ⟨l₁, h1, l₂, h3⟩

end Fifo

end Lib

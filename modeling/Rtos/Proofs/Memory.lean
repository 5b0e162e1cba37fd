import Rtos.Kernel.Memory

/-! What `os_memcpy` does, also where source and destination overlap. -/

namespace Rtos

open Lib

variable {dst src len : Word} {mem mem₀ : Word → Byte} {n : ℕ}

/-! The loop. -/

/-- After `n` rounds. Where the destination starts inside the source, what has been copied is
read again. -/
structure Copied (dst src : Word) (mem₀ : Word → Byte) (n : ℕ) (mem : Word → Byte) : Prop where
  inside : ∀ i < n, mem (dst + BitVec.ofNat 32 i) =
    mem₀ (src + BitVec.ofNat 32 (i % (dst - src).toNat))
  outside : ∀ a, ¬ InBlock dst n a → mem a = mem₀ a

theorem Copied.round (h : Copied dst src mem₀ n mem) (hn : n < 2 ^ 32) :
    Copied dst src mem₀ (n + 1) (Function.update mem (dst + BitVec.ofNat 32 n)
      (mem (src + BitVec.ofNat 32 n))) := by
  have hread : mem (src + BitVec.ofNat 32 n) =
      mem₀ (src + BitVec.ofNat 32 (n % (dst - src).toNat)) := by
    by_cases hd : 0 < (dst - src).toNat ∧ (dst - src).toNat ≤ n
    · -- the byte was written `dst - src` rounds ago
      have haddr : src + BitVec.ofNat 32 n = dst + BitVec.ofNat 32 (n - (dst - src).toNat) := by
        bv_omega
      rw [haddr, h.inside _ (by omega), Nat.mod_eq_sub_mod hd.2]
    · have hmod : n % (dst - src).toNat = n := by
        rcases Nat.eq_zero_or_pos (dst - src).toNat with h0 | hpos
        · rw [h0, Nat.mod_zero]
        · exact Nat.mod_eq_of_lt (by omega)
      rw [hmod]
      refine h.outside _ ?_
      unfold InBlock
      bv_omega
  constructor
  · intro i hi
    by_cases hin : i = n
    · rw [hin, Function.update_self, hread]
    · have hne : dst + BitVec.ofNat 32 i ≠ dst + BitVec.ofNat 32 n := by
        bv_omega
      rw [Function.update_of_ne hne]
      exact h.inside i (by omega)
  · intro a ha
    have hne : a ≠ dst + BitVec.ofNat 32 n := by
      rintro rfl
      apply ha
      unfold InBlock
      bv_omega
    rw [Function.update_of_ne hne]
    refine h.outside a fun hb => ha ?_
    unfold InBlock at hb ⊢
    omega

theorem Copied.loop (h : Copied dst src mem₀ n mem) (len : Word) (hn : n + len.toNat < 2 ^ 32) :
    Copied dst src mem₀ (n + len.toNat)
      (Memcpy.loop ⟨dst + BitVec.ofNat 32 n, src + BitVec.ofNat 32 n, len⟩ mem) := by
  induction hlen : len.toNat generalizing n len mem with
  | zero =>
    rw [Memcpy.loop, if_neg (by bv_omega)]
    exact h
  | succ l ih =>
    have hpos : 0 < len := by bv_omega
    have hsub : (len - 1).toNat = l := by bv_omega
    have hnext : ∀ p : Word, p + BitVec.ofNat 32 n + 1 = p + BitVec.ofNat 32 (n + 1) := by
      intro p
      bv_omega
    have := ih (h.round (by omega)) (len - 1) (by omega) hsub
    rw [Memcpy.loop, if_pos hpos]
    simp only [Memcpy.round, hnext]
    rw [show n + (l + 1) = n + 1 + l by omega]
    exact this

theorem osMemcpy_copied (dst src len : Word) (mem : Word → Byte) :
    Copied dst src mem len.toNat (osMemcpy dst src len mem) := by
  have h0 : Copied dst src mem 0 mem :=
    ⟨fun i hi => absurd hi i.not_lt_zero, fun _ _ => rfl⟩
  have h := h0.loop len (by have := len.isLt; omega)
  simpa [osMemcpy] using h

/-- What `os_memcpy` does for all arguments: byte `i` of the destination is byte `i` of the source
modulo their distance, and nothing else changes. So it copies exactly if the destination does not
start inside the source. -/
theorem memcpy_exact (dst src len : Word) :
    (∀ mem, (∀ i < len.toNat, osMemcpy dst src len mem (dst + BitVec.ofNat 32 i) =
        mem (src + BitVec.ofNat 32 (i % (dst - src).toNat))) ∧
      ∀ a, len.toNat ≤ (a - dst).toNat → osMemcpy dst src len mem a = mem a) ∧
    ((∀ mem, loadBytes (osMemcpy dst src len mem) dst len.toNat = loadBytes mem src len.toNat) ↔
      dst = src ∨ len.toNat ≤ (dst - src).toNat) := by
  refine ⟨fun mem => ⟨(osMemcpy_copied dst src len mem).inside, fun a ha =>
    (osMemcpy_copied dst src len mem).outside a (Nat.not_lt.2 ha)⟩, fun hall => ?_, fun hd mem => ?_⟩
  · by_contra hno
    rw [not_or, Nat.not_le] at hno
    obtain ⟨hne, hlt⟩ := hno
    -- one byte of the source is 1, and it comes back at the distance
    have hpos : 0 < (dst - src).toNat := by bv_omega
    have hc := (osMemcpy_copied dst src len fun a => if a = src then 1 else 0).inside _ hlt
    have hl := congrArg (fun l => l[(dst - src).toNat]?) (hall fun a => if a = src then 1 else 0)
    simp only [loadBytes, List.getElem?_map, List.getElem?_range hlt, Option.map_some] at hl
    rw [hc, Nat.mod_self] at hl
    have hself : src + BitVec.ofNat 32 0 = src := BitVec.add_zero src
    have hne' : src + BitVec.ofNat 32 (dst - src).toNat ≠ src := by bv_omega
    rw [hself, if_pos rfl, if_neg hne'] at hl
    cases hl
  · refine List.map_congr_left fun i hi => ?_
    rw [(osMemcpy_copied dst src len mem).inside i (List.mem_range.1 hi)]
    have hi := List.mem_range.1 hi
    rcases hd with rfl | hd
    · rw [BitVec.sub_self, BitVec.toNat_zero, Nat.mod_zero]
    · rw [Nat.mod_eq_of_lt (by omega)]

end Rtos

import Rtos.Model.Mempool

/-! A pool never hands out a block twice, whatever the holders do with their blocks. -/

namespace Rtos

open Lib

variable {base size count : ℕ} {s s' : PoolSys} {free : List ℕ}

theorem PoolSound.step (hf : PoolFits base size count)
    (h : PoolSound base size count s.mem s.pool s.held free) (hst : PoolStep s s') :
    ∃ free', PoolSound base size count s'.mem s'.pool s'.held free' := by
  cases hst with
  | alloc =>
    cases hfree : free with
    | nil =>
      simp only [PoolSys.alloc, h.alloc_none hfree, if_pos]
      exact ⟨free, h⟩
    | cons p l =>
      obtain ⟨pool', he, hp, h'⟩ := h.alloc_some hf hfree
      simp only [PoolSys.alloc, he, if_neg hp]
      exact ⟨l, h'⟩
  | free hp =>
    obtain ⟨pool', he, h'⟩ := h.give hf hp
    simp only [PoolSys.free, he]
    exact ⟨_, h'⟩
  | @write p mem hp hm =>
    refine ⟨free, h.congr fun a ha => hm a ?_⟩
    -- the link of a free block is four bytes in that block, not in the holder's
    have hnd := h.held_nodup (Nat.lt_of_lt_of_le (by omega) hf.size_word)
    have hne : p ≠ a := fun hc => (List.nodup_append.1 hnd).2.2 p hp a ha hc
    have hsz := hf.size_word
    rw [h.blockSize]
    rcases poolBlocks_apart (h.held_block hp) (h.free_block ha) hne with hap | hap
    · exact .inr hap
    · exact .inl (by omega)

theorem poolRun_sound (hf : PoolFits base size count) (h : PoolRun base size count s) :
    ∃ free, PoolSound base size count s.mem s.pool s.held free := by
  induction h with
  | init => exact ⟨_, .init hf _ _⟩
  | step _ hst ih =>
    obtain ⟨free, hs⟩ := ih
    exact hs.step hf hst

/-- In every state of a run: a block that an allocation returns is one of the pool's and is
not held, there is none exactly when all are held, a free of a held block succeeds, and the
free list is a list of `free_count` blocks that are the ones not held. -/
theorem mempool_partition (hf : PoolFits base size count) (h : PoolRun base size count s) :
    (s.alloc.1 ≠ 0 → (∃ i < count, s.alloc.1 = base + i * size) ∧ s.alloc.1 ∉ s.held) ∧
    (s.alloc.1 = 0 ↔ s.held.length = count) ∧
    (∀ p ∈ s.held, (s.free p).1 = 0) ∧
    ∃ free, Chain (fun a => ptr (s.mem a)) (ptr s.pool.freeList) free ∧
      free.length = s.pool.freeCount ∧ (s.held ++ free).Nodup ∧
      ∀ p, p ∈ s.held ++ free ↔ ∃ i < count, p = base + i * size := by
  obtain ⟨free, hs⟩ := poolRun_sound hf h
  have hnd := hs.held_nodup (Nat.lt_of_lt_of_le (by omega) hf.size_word)
  have hlen := hs.length
  have hall : (s.alloc.1 ≠ 0 → (∃ i < count, s.alloc.1 = base + i * size) ∧ s.alloc.1 ∉ s.held) ∧
      (s.alloc.1 = 0 ↔ s.held.length = count) := by
    cases hfree : free with
    | nil =>
      have h0 : s.alloc.1 = 0 := congrArg Prod.fst (hs.alloc_none hfree)
      rw [hfree, List.length_nil] at hlen
      exact ⟨fun hne => absurd h0 hne, fun _ => by omega, fun _ => h0⟩
    | cons p l =>
      obtain ⟨pool', he, hp, -⟩ := hs.alloc_some hf hfree
      have h1 : s.alloc.1 = p := congrArg Prod.fst he
      rw [hfree, List.length_cons] at hlen
      rw [h1]
      refine ⟨fun _ => ⟨mem_poolBlocks.1 (hs.free_block (by simp [hfree])), fun hin => ?_⟩,
        fun h0 => absurd h0 hp, fun _ => by omega⟩
      exact (List.nodup_append.1 hnd).2.2 p hin p (by simp [hfree]) rfl
  refine ⟨hall.1, hall.2, fun p hp => ?_, free, hs.chain, hs.freeCount.symm, hnd, fun p => ?_⟩
  · obtain ⟨pool', he, -⟩ := hs.give hf hp
    exact congrArg Prod.fst he
  · rw [hs.split.mem_iff]
    exact mem_poolBlocks

/-- Both blocks of a pool are taken, one holder overwrites its block, and the other is given back. -/
theorem mempool_partition_small : ∃ s, PoolRun 16 6 2 s ∧ s.held = [16] ∧ s.alloc.1 = 22 ∧
    22 ∉ s.held ∧ s.alloc.1 ≠ 0 := by
  have hf : PoolFits 16 6 2 := ⟨by omega, by omega, by omega, by omega⟩
  have h0 := @PoolRun.init 16 6 2 (fun _ => 0) .zero
  have h1 := (h0.step .alloc).step .alloc
  have h2 := h1.step (@PoolStep.write _ 16 (Function.update _ 16 99) (by decide) fun a ha =>
    Function.update_of_ne (by
      rintro rfl
      exact absurd ha (by decide)) _ _)
  have h3 := h2.step (.free (p := 22) (by decide))
  refine ⟨_, h3, by decide, by decide, ?_, by decide⟩
  exact ((mempool_partition hf h3).1 (by decide)).2

/-! What `os_mempool_free` checks is where the pointer points to, and no more: it keeps no
record of which blocks are with a caller. -/

theorem PoolStep.blockCount (hst : PoolStep s s') : s'.pool.blockCount = s.pool.blockCount := by
  cases hst with
  | alloc =>
    simp only [PoolSys.alloc, osMempoolAlloc]
    split_ifs <;> rfl
  | free =>
    simp only [PoolSys.free, osMempoolFree]
    split_ifs <;> rfl
  | write => rfl

theorem PoolShape.step (hf : PoolFits base size count) (h : PoolShape base size count s.pool)
    (hst : PoolStep s s') : PoolShape base size count s'.pool := by
  cases hst with
  | alloc => exact h.alloc s.mem
  | free => exact h.release hf s.mem _
  | write => exact h

end Rtos

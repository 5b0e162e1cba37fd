import Rtos.Kernel.Mempool
import Rtos.Lib.Chain

/-! A memory pool as what it is for: its blocks, of which some are held and the rest are on
the free list. The links of the list are in the free blocks, so what the holders write does
not touch them. -/

namespace Rtos

open Lib

variable {base size count p : ℕ} {mem mem' : ℕ → ℕ} {pool : Mempool} {held free : List ℕ}

/-- The addresses of the blocks. -/
def poolBlocks (base size count : ℕ) : List ℕ := (List.range count).map fun i => base + i * size

/-- A buffer that a pool can be made of. The byte behind its last one has an address, as for
every object in C. -/
structure PoolFits (base size count : ℕ) : Prop where
  base_pos : 0 < base
  size_word : 4 ≤ size
  count_pos : 0 < count
  in_memory : base + size * count < 2 ^ 32

theorem mem_poolBlocks : p ∈ poolBlocks base size count ↔ ∃ i < count, p = base + i * size := by
  simp only [poolBlocks, List.mem_map, List.mem_range]
  constructor
  · rintro ⟨i, hi, rfl⟩
    exact ⟨i, hi, rfl⟩
  · rintro ⟨i, hi, rfl⟩
    exact ⟨i, hi, rfl⟩

theorem poolBlocks_nodup (hs : 0 < size) : (poolBlocks base size count).Nodup := by
  refine List.nodup_range.map fun i j hij => ?_
  have : i * size = j * size := Nat.add_left_cancel hij
  exact Nat.eq_of_mul_eq_mul_right hs this

/-- Two blocks are the same or a block apart. -/
theorem poolBlocks_apart {p' : ℕ} (h : p ∈ poolBlocks base size count)
    (h' : p' ∈ poolBlocks base size count) (hne : p ≠ p') : p + size ≤ p' ∨ p' + size ≤ p := by
  obtain ⟨i, -, rfl⟩ := mem_poolBlocks.1 h
  obtain ⟨j, -, rfl⟩ := mem_poolBlocks.1 h'
  rcases Nat.lt_trichotomy i j with hij | rfl | hij
  · have := Nat.mul_le_mul_right size hij
    rw [Nat.succ_mul] at this
    omega
  · exact absurd rfl hne
  · have := Nat.mul_le_mul_right size hij
    rw [Nat.succ_mul] at this
    omega

theorem poolBlocks_bounds (h : p ∈ poolBlocks base size count) :
    base ≤ p ∧ p + size ≤ base + size * count ∧ (p - base) % size = 0 := by
  obtain ⟨i, hi, rfl⟩ := mem_poolBlocks.1 h
  have := Nat.mul_le_mul_right size (Nat.succ_le_of_lt hi)
  rw [Nat.succ_mul, Nat.mul_comm count] at this
  refine ⟨by omega, by omega, ?_⟩
  rw [Nat.add_sub_cancel_left, Nat.mul_mod_left]

/-- The two checks of `os_mempool_free` find exactly the blocks. -/
theorem mem_poolBlocks_iff (hs : 0 < size) : p ∈ poolBlocks base size count ↔
    base ≤ p ∧ p < base + size * count ∧ (p - base) % size = 0 := by
  constructor
  · intro h
    obtain ⟨h1, h2, h3⟩ := poolBlocks_bounds h
    exact ⟨h1, by omega, h3⟩
  · rintro ⟨h1, h2, h3⟩
    have hdiv := Nat.div_add_mod (p - base) size
    rw [h3, Nat.add_zero] at hdiv
    refine mem_poolBlocks.2 ⟨(p - base) / size, Nat.div_lt_of_lt_mul (by omega), ?_⟩
    rw [Nat.mul_comm, hdiv]
    omega

theorem PoolFits.count_lt (hf : PoolFits base size count) : count < 2 ^ 32 := by
  have := Nat.mul_le_mul_right count hf.size_word
  have := hf.in_memory
  omega

/-- The free list that `os_mempool_init` builds runs through the blocks from the last to the
first. -/
theorem initBlock_chain (hb : 0 < base) (hs : 0 < size) (mem : ℕ → ℕ) (n : ℕ)
    (hn : size * n < 2 ^ 32) :
    Chain (fun a => ptr (((List.range n).foldl (initBlock base size) (mem, 0)).1 a))
      (ptr ((List.range n).foldl (initBlock base size) (mem, 0)).2) (poolBlocks base size n).reverse := by
  induction n with
  | zero => simp [Chain, ptr, poolBlocks]
  | succ n ih =>
    have hstep : size * (n + 1) = size * n + size := by ring
    have hl := ih (by omega)
    set s := (List.range n).foldl (initBlock base size) (mem, 0) with hsdef
    have hnode : base + u32 (n * size) = base + n * size := by
      rw [u32, Nat.mod_eq_of_lt]
      rw [Nat.mul_comm]
      omega
    have hfold : (List.range (n + 1)).foldl (initBlock base size) (mem, 0) =
        (Function.update s.1 (base + n * size) s.2, base + n * size) := by
      rw [List.range_succ, List.foldl_append, List.foldl_cons, List.foldl_nil, ← hsdef, initBlock,
        hnode]
    have hblocks : (poolBlocks base size (n + 1)).reverse =
        (base + n * size) :: (poolBlocks base size n).reverse := by
      simp [poolBlocks, List.range_succ]
    rw [hfold, hblocks]
    refine ⟨by simp [ptr]; omega, ?_⟩
    simp only [Function.update_self]
    refine hl.congr fun x hx => ?_
    obtain ⟨i, hi, rfl⟩ := mem_poolBlocks.1 (List.mem_reverse.1 hx)
    have hne : base + i * size ≠ base + n * size := by
      have := Nat.mul_lt_mul_of_pos_right hi hs
      omega
    simp only [Function.update_of_ne hne]

/-- What no call changes: the place and the shape of the pool. -/
structure PoolShape (base size count : ℕ) (pool : Mempool) : Prop where
  start : pool.poolStart = base
  stop : pool.poolEnd = base + size * count
  blockSize : pool.blockSize = size

namespace PoolShape

theorem init (hf : PoolFits base size count) (mem : ℕ → ℕ) (pool : Mempool) :
    PoolShape base size count (osMempoolInit mem pool base size count).2 := by
  have h1 := hf.base_pos
  have h2 := hf.size_word
  have h3 := hf.count_pos
  have h4 := hf.in_memory
  have hne : ¬ (base = 0 ∨ size = 0 ∨ count = 0) := by omega
  rw [osMempoolInit, if_neg hne]
  refine ⟨rfl, ?_, rfl⟩
  simp only [u32]
  rw [Nat.mod_eq_of_lt (by omega)]

variable (h : PoolShape base size count pool)
include h

theorem alloc (mem : ℕ → ℕ) : PoolShape base size count (osMempoolAlloc mem pool).2 := by
  simp only [osMempoolAlloc]
  split_ifs
  · exact ⟨h.start, h.stop, h.blockSize⟩
  · exact h

/-- A pointer that is not the start of a block is turned down, and nothing is written. -/
theorem reject (hs : 0 < size) (mem : ℕ → ℕ) (hp : p ∉ poolBlocks base size count) :
    osMempoolFree mem pool p = (-1, mem, pool) := by
  rw [mem_poolBlocks_iff hs] at hp
  unfold osMempoolFree
  rw [h.start, h.stop, h.blockSize]
  split_ifs with h0 h1 h2
  · rfl
  · rfl
  · rfl
  · exact absurd ⟨by omega, by omega, not_not.1 h2⟩ hp

/-- Every block is taken, held or not. -/
theorem accept (hf : PoolFits base size count) (mem : ℕ → ℕ) (hp : p ∈ poolBlocks base size count) :
    osMempoolFree mem pool p = (0, Function.update mem p pool.freeList,
      { pool with freeList := p, freeCount := u32 (pool.freeCount + 1) }) := by
  obtain ⟨h1, h2, h3⟩ := poolBlocks_bounds hp
  have hpos := hf.base_pos
  have hsz := hf.size_word
  have hin : ¬ (p < pool.poolStart ∨ pool.poolEnd ≤ p) := by
    rw [h.start, h.stop]
    omega
  have hmod : ¬ (p - pool.poolStart) % pool.blockSize ≠ 0 := by
    rw [h.start, h.blockSize, not_not]
    exact h3
  rw [osMempoolFree, if_neg (by omega), if_neg hin, if_neg hmod]

theorem release (hf : PoolFits base size count) (mem : ℕ → ℕ) (p : ℕ) :
    PoolShape base size count (osMempoolFree mem pool p).2.2 := by
  by_cases hp : p ∈ poolBlocks base size count
  · rw [h.accept hf mem hp]
    exact ⟨h.start, h.stop, h.blockSize⟩
  · rw [h.reject (Nat.lt_of_lt_of_le (by omega) hf.size_word) mem hp]
    exact h

end PoolShape

/-- The blocks are split into `held` and `free`, and `free` is the free list. -/
structure PoolSound (base size count : ℕ) (mem : ℕ → ℕ) (pool : Mempool) (held free : List ℕ) :
    Prop where
  start : pool.poolStart = base
  stop : pool.poolEnd = base + size * count
  blockSize : pool.blockSize = size
  chain : Chain (fun a => ptr (mem a)) (ptr pool.freeList) free
  freeCount : pool.freeCount = free.length
  split : (held ++ free).Perm (poolBlocks base size count)

namespace PoolSound

theorem init (hf : PoolFits base size count) (mem : ℕ → ℕ) (pool : Mempool) :
    PoolSound base size count (osMempoolInit mem pool base size count).1
      (osMempoolInit mem pool base size count).2 [] (poolBlocks base size count).reverse := by
  have h1 := hf.base_pos
  have h2 := hf.size_word
  have h3 := hf.count_pos
  have h4 := hf.in_memory
  have hne : ¬ (base = 0 ∨ size = 0 ∨ count = 0) := by omega
  have hsh := PoolShape.init hf mem pool
  rw [osMempoolInit, if_neg hne] at hsh ⊢
  refine ⟨hsh.start, hsh.stop, hsh.blockSize, initBlock_chain h1 (by omega) mem count (by omega),
    ?_, ?_⟩
  · simp [poolBlocks]
  · exact List.reverse_perm (poolBlocks base size count)

variable (h : PoolSound base size count mem pool held free)
include h

theorem shape : PoolShape base size count pool := ⟨h.start, h.stop, h.blockSize⟩

theorem held_nodup (hs : 0 < size) : (held ++ free).Nodup :=
  h.split.nodup_iff.2 (poolBlocks_nodup hs)

theorem held_block (hp : p ∈ held) : p ∈ poolBlocks base size count :=
  h.split.subset (List.mem_append_left _ hp)

theorem free_block (hp : p ∈ free) : p ∈ poolBlocks base size count :=
  h.split.subset (List.mem_append_right _ hp)

theorem length : held.length + free.length = count := by
  have := h.split.length_eq
  simpa [poolBlocks] using this

/-- The link of a free block is all that matters of the memory. -/
theorem congr (hm : ∀ a ∈ free, mem' a = mem a) : PoolSound base size count mem' pool held free :=
  ⟨h.start, h.stop, h.blockSize, h.chain.congr fun a ha => by rw [hm a ha], h.freeCount, h.split⟩

theorem perm {held' : List ℕ} (hh : held.Perm held') : PoolSound base size count mem pool held' free :=
  ⟨h.start, h.stop, h.blockSize, h.chain, h.freeCount, (hh.symm.append_right _).trans h.split⟩

/-- A pool that can give a block gives the first one of the list. -/
theorem free_cons (hne : pool.freeList ≠ 0) : ∃ l, free = pool.freeList :: l := by
  have hc := h.chain
  cases free with
  | nil => simp [Chain, ptr, hne] at hc
  | cons p l =>
    obtain rfl : pool.freeList = p := by simpa [ptr, hne] using hc.1
    exact ⟨l, rfl⟩

theorem freeList_ne (hne : free ≠ []) : pool.freeList ≠ 0 := by
  obtain ⟨p, l, rfl⟩ := List.exists_cons_of_ne_nil hne
  obtain ⟨hp, -⟩ := h.chain
  intro h0
  simp [ptr, h0] at hp

theorem alloc_none (hfree : free = []) : osMempoolAlloc mem pool = (0, pool) := by
  subst hfree
  have h0 : pool.freeList = 0 := by
    have : ptr pool.freeList = none := h.chain
    unfold ptr at this
    split_ifs at this with h0
    exact h0
  simp [osMempoolAlloc, h0]

theorem alloc_some {l : List ℕ} (hf : PoolFits base size count) (hfree : free = p :: l) :
    ∃ pool', osMempoolAlloc mem pool = (p, pool') ∧ p ≠ 0 ∧
      PoolSound base size count mem pool' (p :: held) l := by
  subst hfree
  obtain ⟨hp, hl⟩ := h.chain
  have hb := poolBlocks_bounds (h.free_block List.mem_cons_self)
  have hpos := hf.base_pos
  have hfl : pool.freeList = p := by
    unfold ptr at hp
    split_ifs at hp
    exact Option.some.inj hp
  have hne : pool.freeList ≠ 0 := by omega
  have hlen := h.length
  have hcount := hf.count_lt
  refine ⟨{ pool with freeList := mem p, freeCount := u32 (pool.freeCount + (2 ^ 32 - 1)) },
    by rw [osMempoolAlloc, if_pos hne, hfl], by omega, h.start, h.stop, h.blockSize, hl, ?_, ?_⟩
  · simp only [u32, h.freeCount, List.length_cons] at hlen ⊢
    omega
  · exact (List.perm_middle.symm).trans h.split

/-- A block that is put back at once leaves no trace. -/
theorem undo (hf : PoolFits base size count) (hne : pool.freeList ≠ 0) :
    osMempoolFree mem (osMempoolAlloc mem pool).2 pool.freeList = (0, mem, pool) := by
  obtain ⟨l, hl⟩ := h.free_cons hne
  have hb : pool.freeList ∈ poolBlocks base size count := h.free_block (by simp [hl])
  have hlen := h.length
  have hcount := hf.count_lt
  have hfc := h.freeCount
  rw [hl, List.length_cons] at hlen hfc
  have hback : u32 (u32 (pool.freeCount + (2 ^ 32 - 1)) + 1) = pool.freeCount := by
    simp only [u32]
    omega
  rw [(h.shape.alloc mem).accept hf mem hb]
  simp only [osMempoolAlloc, if_pos hne, Function.update_eq_self, hback]

theorem give (hf : PoolFits base size count) (hp : p ∈ held) :
    ∃ pool', osMempoolFree mem pool p = (0, Function.update mem p pool.freeList, pool') ∧
      PoolSound base size count (Function.update mem p pool.freeList) pool' (held.erase p)
        (p :: free) := by
  obtain ⟨h1, -, -⟩ := poolBlocks_bounds (h.held_block hp)
  have hpos := hf.base_pos
  have hsz := hf.size_word
  have hnd := h.held_nodup (by omega)
  have hnot : p ∉ free := fun hin => (List.nodup_append.1 hnd).2.2 p hp p hin rfl
  have hlen := h.length
  have hcount := hf.count_lt
  have hheld : 0 < held.length := List.length_pos_of_mem hp
  refine ⟨{ pool with freeList := p, freeCount := u32 (pool.freeCount + 1) },
    h.shape.accept hf mem (h.held_block hp), h.start, h.stop, h.blockSize, ?_, ?_, ?_⟩
  · refine ⟨by simp [ptr]; omega, ?_⟩
    simp only [Function.update_self]
    refine h.chain.congr fun a ha => ?_
    have hap : a ≠ p := fun hc => hnot (hc ▸ ha)
    simp only [Function.update_of_ne hap]
  · simp only [u32, h.freeCount, List.length_cons]
    omega
  · refine (List.perm_middle.trans ?_).trans h.split
    rw [← List.cons_append]
    exact (List.perm_cons_erase hp).symm.append_right _

end PoolSound

end Rtos

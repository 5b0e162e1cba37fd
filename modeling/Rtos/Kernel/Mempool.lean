import Mathlib.Tactic

/-! `kernel/mempool.c`. A pool threads its free blocks through their own first
words, so every operation takes the words of the pool's memory as an argument.
Addresses and `uint32_t` values are naturals, reduced where the C arithmetic is. -/

namespace Rtos

/-- `uint32_t` arithmetic wraps. -/
def u32 (n : ℕ) : ℕ := n % 2 ^ 32

/-- A pool link, with address `0` as the null pointer. -/
def ptr (n : ℕ) : Option ℕ := if n = 0 then none else some n

structure Mempool where
  freeList : ℕ
  poolStart : ℕ
  poolEnd : ℕ
  blockSize : ℕ
  blockCount : ℕ
  freeCount : ℕ
  deriving DecidableEq

def Mempool.zero : Mempool := ⟨0, 0, 0, 0, 0, 0⟩

def osMempoolAlignUp (value align : BitVec 32) : BitVec 32 :=
  (value + (align - 1)) &&& ~~~(align - 1)

/-- One turn of the loop in `os_mempool_init`: block `i` goes in front of the free list. -/
def initBlock (base blockSize : ℕ) (s : (ℕ → ℕ) × ℕ) (i : ℕ) : (ℕ → ℕ) × ℕ :=
  let node := base + u32 (i * blockSize)
  (Function.update s.1 node s.2, node)

def osMempoolInit (mem : ℕ → ℕ) (pool : Mempool) (buffer blockSize blockCount : ℕ) :
    (ℕ → ℕ) × Mempool :=
  if buffer = 0 ∨ blockSize = 0 ∨ blockCount = 0 then (mem, pool)
  else
    let s := (List.range blockCount).foldl (initBlock buffer blockSize) (mem, 0)
    (s.1, { freeList := s.2, poolStart := buffer, poolEnd := buffer + u32 (blockSize * blockCount)
            blockSize := blockSize, blockCount := blockCount, freeCount := blockCount })

/-- Address `0` is the null pointer. -/
def osMempoolAlloc (mem : ℕ → ℕ) (pool : Mempool) : ℕ × Mempool :=
  let node := pool.freeList
  if node ≠ 0 then
    (node, { pool with freeList := mem node, freeCount := u32 (pool.freeCount + (2 ^ 32 - 1)) })
  else (0, pool)

def osMempoolFree (mem : ℕ → ℕ) (pool : Mempool) (ptr : ℕ) : ℤ × (ℕ → ℕ) × Mempool :=
  if ptr = 0 then (-1, mem, pool)
  else if ptr < pool.poolStart ∨ pool.poolEnd ≤ ptr then (-1, mem, pool)
  else if (ptr - pool.poolStart) % pool.blockSize ≠ 0 then (-1, mem, pool)
  else
    (0, Function.update mem ptr pool.freeList,
      { pool with freeList := ptr, freeCount := u32 (pool.freeCount + 1) })

/-! A pool and those that use it. `mem a` is the word that starts at the byte `a`. -/

/-- `held` is not in the source: it lists the blocks that are with a caller. -/
structure PoolSys where
  mem : ℕ → ℕ
  pool : Mempool
  held : List ℕ

namespace PoolSys

def alloc (s : PoolSys) : ℕ × PoolSys :=
  let r := osMempoolAlloc s.mem s.pool
  (r.1, { s with pool := r.2, held := if r.1 = 0 then s.held else r.1 :: s.held })

def free (s : PoolSys) (p : ℕ) : ℤ × PoolSys :=
  let r := osMempoolFree s.mem s.pool p
  (r.1, ⟨r.2.1, r.2.2, s.held.erase p⟩)

end PoolSys

/-- Callers take blocks, give back blocks they hold, and write into blocks they hold: every
word that has no byte in the block stays. -/
inductive PoolStep (s : PoolSys) : PoolSys → Prop
  | alloc : PoolStep s s.alloc.2
  | free {p : ℕ} : p ∈ s.held → PoolStep s (s.free p).2
  | write {p : ℕ} {mem : ℕ → ℕ} : p ∈ s.held →
      (∀ a, a + 4 ≤ p ∨ p + s.pool.blockSize ≤ a → mem a = s.mem a) →
      PoolStep s { s with mem := mem }

/-- A run that starts with `os_mempool_init`. -/
inductive PoolRun (buffer blockSize blockCount : ℕ) : PoolSys → Prop
  | init {mem : ℕ → ℕ} {pool : Mempool} : PoolRun buffer blockSize blockCount
      ⟨(osMempoolInit mem pool buffer blockSize blockCount).1,
        (osMempoolInit mem pool buffer blockSize blockCount).2, []⟩
  | step {s s' : PoolSys} : PoolRun buffer blockSize blockCount s → PoolStep s s' →
      PoolRun buffer blockSize blockCount s'

end Rtos

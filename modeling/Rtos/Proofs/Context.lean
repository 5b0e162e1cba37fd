import Rtos.Kernel.Machine
import Rtos.Proofs.Creation

/-! Context switches are transparent. A task that does not have the core has its registers on
its stack, `r4` to `r11` below the frame of the exception; nobody else writes to its block, so
they are there when it is chosen again. -/

namespace Rtos

open Lib

open Model (WF Inv)

variable {mem mem' : ℕ → ℕ} {s sp f : ℕ} {c : Context}

/-- The frame at `f` holds the registers `c`, with room for `r4` to `r11` below it. -/
structure Framed (mem : ℕ → ℕ) (s f : ℕ) (c : Context) : Prop where
  unstack : Context.unstack c.low mem f = c
  room : s + 4 * 8 ≤ f
  fits : c.Fits s

/-- All of the registers `c` are on the stack, from `sp` on. -/
structure Saved (mem : ℕ → ℕ) (s sp : ℕ) (c : Context) : Prop where
  low : loadWords 8 mem sp = c.low
  frame : Framed mem s (sp + 32) c
  inside : s ≤ sp

theorem Framed.psp (h : Framed mem s f c) : f + 32 ≤ c.psp := by
  rw [← congrArg Context.psp h.unstack]
  simp only [Context.unstack]
  omega

theorem Framed.below (h : Framed mem s f c) : f + 32 ≤ s + 4 * osTaskStackWords :=
  h.psp.trans h.fits.top

theorem Saved.below (h : Saved mem s sp c) : sp + 64 ≤ s + 4 * osTaskStackWords := h.frame.below

theorem unstack_congr {low : Fin 8 → ℕ} (h : ∀ x, f ≤ x → x < f + 32 → mem' x = mem x) :
    Context.unstack low mem' f = Context.unstack low mem f := by
  have hl : loadWords 8 mem' f = loadWords 8 mem f := loadWords_congr h
  simp only [Context.unstack, hl]

/-- A frame with no word skipped. -/
theorem unstack_load (hl : loadWords 8 mem f = c.hw) (hx : c.hw xpsrSlot / 2 ^ 9 % 2 = 0)
    (hp : f + 32 = c.psp) : Context.unstack c.low mem f = c := by
  simp only [Context.unstack, hl, hx, Nat.mul_zero, Nat.sub_zero, Function.update_eq_self,
    Nat.add_zero, hp]

theorem Framed.congr (h : Framed mem s f c) (hm : ∀ x, f ≤ x → x < f + 32 → mem' x = mem x) :
    Framed mem' s f c :=
  ⟨(unstack_congr hm).trans h.unstack, h.room, h.fits⟩

theorem Saved.congr (h : Saved mem s sp c) (hm : ∀ x, sp ≤ x → x < sp + 64 → mem' x = mem x) :
    Saved mem' s sp c := by
  refine ⟨?_, h.frame.congr fun x h1 h2 => hm x (by omega) (by omega), h.inside⟩
  rw [loadWords_congr fun x h1 h2 => hm x h1 (by omega)]
  exact h.low

/-- An exception pushes a frame that its return would pop. -/
theorem Context.Fits.framed (h : c.Fits s) (h8 : s % 8 = 0) (mem : ℕ → ℕ) :
    Framed (storeWords mem c.frameAddr c.stacked) s c.frameAddr c := by
  have hroom := h.room
  have hal := h.aligned
  have hx := h.xpsr
  refine ⟨?_, ?_, h⟩
  · by_cases hp : c.psp % 8 = 0
    · have hs : c.stacked = c.hw := by
        rw [Context.stacked, if_pos hp, Nat.add_zero, Function.update_eq_self]
      rw [hs]
      refine unstack_load loadWords_store hx ?_
      rw [Context.frameAddr]
      omega
    · have hs : c.stacked xpsrSlot = c.hw xpsrSlot + 2 ^ 9 := by
        rw [Context.stacked, Function.update_self, if_neg hp]
      have hskip : (c.hw xpsrSlot + 2 ^ 9) / 2 ^ 9 % 2 = 1 := by omega
      have hpsp : c.frameAddr + 32 + 4 = c.psp := by
        rw [Context.frameAddr]
        omega
      have hhw : Function.update c.stacked xpsrSlot (c.hw xpsrSlot) = c.hw := by
        rw [Context.stacked, Function.update_idem, Function.update_eq_self]
      simp only [Context.unstack, loadWords_store, hs, hskip, Nat.mul_one, Nat.add_sub_cancel, hhw,
        hpsp]
  · rw [Context.frameAddr]
    omega

/-- A system call stores its result where the return finds `r0`. -/
theorem Framed.result (h : Framed mem s f c) (v : ℕ) :
    Framed (Function.update mem f v) s f { c with hw := Function.update c.hw r0Slot v } := by
  have hload : loadWords 8 (Function.update mem f v) f =
      Function.update (loadWords 8 mem f) r0Slot v := by
    funext i
    by_cases hi : i = r0Slot
    · rw [hi, Function.update_self]
      exact Function.update_self _ _ _
    · rw [Function.update_of_ne hi]
      have hne : f + 4 * (i : ℕ) ≠ f := fun he => hi (Fin.ext (by change (i : ℕ) = 0; omega))
      exact Function.update_of_ne hne _ _
  have hx : xpsrSlot ≠ r0Slot := by decide
  have hu := h.unstack
  have hhw := congrArg Context.hw hu
  have hpsp := congrArg Context.psp hu
  simp only [Context.unstack] at hhw hpsp
  refine ⟨?_, h.room, h.fits.room, h.fits.top, h.fits.aligned, ?_⟩
  · simp only [Context.unstack, hload, Function.update_of_ne hx, hpsp]
    rw [Function.update_comm hx.symm, hhw]
  · change Function.update c.hw r0Slot v xpsrSlot / 2 ^ 9 % 2 = 0
    rw [Function.update_of_ne hx]
    exact h.fits.xpsr

/-- `stmdb` below the frame. -/
theorem Framed.save (h : Framed mem s f c) :
    Saved (storeWords mem (f - 32) c.low) s (f - 32) c := by
  have hroom := h.room
  refine ⟨loadWords_store, ?_, by omega⟩
  have hf : f - 32 + 32 = f := by omega
  rw [hf]
  exact h.congr fun x h1 _ => storeWords_outside (by omega)

theorem buildFrame_saved {l : Layout} {args : TaskCreateArgs} (h8 : s % 8 = 0)
    (hlt : s + 1024 < 2 ^ 32) (hn : 33 ≤ args.stackWords) (hn' : args.stackWords ≤ 256)
    (mem : ℕ → ℕ) :
    Saved (buildFrame l args.entry args.arg s args.stackWords mem).2 s
      (buildFrame l args.entry args.arg s args.stackWords mem).1 (initialContext l args s) := by
  obtain ⟨h1, h2, -⟩ := buildFrame_inside l args.entry args.arg h8 hlt (by omega) hn' mem
  have htop := frameTop_eq h8 hlt hn'
  generalize (buildFrame l args.entry args.arg s args.stackWords mem).2 = mem' at h2
  have hpsp : (initialContext l args s).psp = frameTop s args.stackWords := by
    simp only [initialContext]
    omega
  have hframe : loadWords 8 mem' (frameTop s args.stackWords - 64 + 32) = (initialContext l args s).hw := by
    funext i
    have hi := i.isLt
    have haddr : frameTop s args.stackWords - 64 + 32 + 4 * (i : ℕ) =
        frameTop s args.stackWords - 4 * (7 - i + 1) := by omega
    rw [loadWords, haddr]
    refine h2 (7 - i) _ ?_
    fin_cases i <;> rfl
  have hlow : loadWords 8 mem' (frameTop s args.stackWords - 64) = (initialContext l args s).low := by
    funext i
    have hi := i.isLt
    have haddr : frameTop s args.stackWords - 64 + 4 * (i : ℕ) =
        frameTop s args.stackWords - 4 * (15 - i + 1) := by omega
    rw [loadWords, haddr]
    refine h2 (15 - i) _ ?_
    fin_cases i <;> rfl
  have hx : (initialContext l args s).hw xpsrSlot / 2 ^ 9 % 2 = 0 := by
    change 0x01000000 / 2 ^ 9 % 2 = 0
    norm_num
  have hle : (initialContext l args s).psp ≤ s + 4 * osTaskStackWords := by
    simp only [osTaskStackWords]
    omega
  rw [h1]
  exact ⟨hlow, ⟨unstack_load hframe hx (by omega), by omega, by omega, hle, by omega, hx⟩, by omega⟩

/-! The blocks. -/

variable {b : Boot} {k k' : Kernel} {stack : TaskId → ℕ} {ctx : TaskId → Context} {t u : TaskId}
  {args : TaskCreateArgs}

/-- The pool is where the linker script puts it: aligned to eight bytes and with an address
behind it. -/
structure StackPoolOk (l : Layout) : Prop where
  fits : PoolFits l.userStackBase (4 * osTaskStackWords) l.taskStackCount
  aligned : l.userStackBase % 8 = 0

/-- Each task has a block of the pool. -/
structure Stacks (b : Boot) (k : Kernel) (stack : TaskId → ℕ) : Prop where
  layout : k.layout = b.layout
  pool : ∃ free, PoolSound b.layout.userStackBase (4 * osTaskStackWords) b.layout.taskStackCount
    k.stackMem k.gUserStackPool (k.tasks.map stack) free

/-- The registers of task `t` are on its stack. -/
def SavedAt (k : Kernel) (stack : TaskId → ℕ) (ctx : TaskId → Context) (t : TaskId) : Prop :=
  Saved k.stackMem (stack t) (k.tcb t).sp (ctx t)

namespace Stacks

theorem block (h : Stacks b k stack) (hl : StackPoolOk b.layout) (ht : t ∈ k.tasks) :
    stack t % 8 = 0 ∧ stack t + 1024 < 2 ^ 32 := by
  obtain ⟨free, hp⟩ := h.pool
  exact stackBlock_bounds hl.fits hl.aligned (hp.held_block (List.mem_map_of_mem ht))

theorem apart (h : Stacks b k stack) (ht : t ∈ k.tasks) (hu : u ∈ k.tasks) (hne : t ≠ u) :
    stack t + 4 * osTaskStackWords ≤ stack u ∨ stack u + 4 * osTaskStackWords ≤ stack t := by
  obtain ⟨free, hp⟩ := h.pool
  have hnd := (List.nodup_append.1 (hp.held_nodup (by decide))).1
  refine poolBlocks_apart (hp.held_block (List.mem_map_of_mem ht))
    (hp.held_block (List.mem_map_of_mem hu)) fun he => hne ?_
  exact List.inj_on_of_nodup_map hnd ht hu he

/-- A task writes in its own block. -/
theorem write (h : Stacks b k stack) (ht : t ∈ k.tasks)
    (hm : ∀ a, a < stack t ∨ stack t + 4 * osTaskStackWords ≤ a → mem a = k.stackMem a) :
    Stacks b { k with stackMem := mem } stack := by
  obtain ⟨free, hp⟩ := h.pool
  refine ⟨h.layout, free, hp.congr fun a ha => hm a ?_⟩
  have hnd := hp.held_nodup (by decide)
  have hin : stack t ∈ k.tasks.map stack := List.mem_map_of_mem ht
  have hne : stack t ≠ a := fun hc => (List.nodup_append.1 hnd).2.2 _ hin a ha hc
  rcases poolBlocks_apart (hp.held_block hin) (hp.free_block ha) hne with hap | hap
  · exact .inr hap
  · simp only [osTaskStackWords] at hap ⊢
    omega

/-- What is saved on another task's stack stays there. -/
theorem write_other (h : Stacks b k stack) (ht : t ∈ k.tasks)
    (hm : ∀ a, a < stack t ∨ stack t + 4 * osTaskStackWords ≤ a → mem a = k.stackMem a)
    (hu : u ∈ k.tasks) (hne : u ≠ t) (hs : Saved k.stackMem (stack u) sp c) :
    Saved mem (stack u) sp c := by
  have hap := h.apart ht hu hne.symm
  have hin := hs.inside
  have hbelow := hs.below
  refine hs.congr fun x h1 h2 => hm x ?_
  omega

theorem congr (h : Stacks b k stack) (h1 : k'.tasks = k.tasks) (h2 : k'.layout = k.layout)
    (h3 : k'.stackMem = k.stackMem) (h4 : k'.gUserStackPool = k.gUserStackPool) :
    Stacks b k' stack := by
  obtain ⟨free, hp⟩ := h.pool
  refine ⟨h2.trans h.layout, free, ?_⟩
  rw [h1, h3, h4]
  exact hp

end Stacks

/-! Creation. -/

theorem enrollTask_sp (t : TaskId) (k : Kernel) (u : TaskId) :
    ((enrollTask t k).tcb u).sp = (k.tcb u).sp := by
  rw [enrollTask_add, osReadyQueueAdd, osTaskQueueAdd]
  cases (k.queue (.ready (k.tcb t).priority)).tail with
  | none =>
    simp only [Kernel.setQueue_tcb, Kernel.setTcb_tcb]
    split_ifs with hu
    · rw [hu]
    · rfl
  | some l =>
    simp only [Kernel.setQueue_tcb, Kernel.setTcb_tcb]
    by_cases hul : u = l
    · by_cases hlt : l = t
      · simp [hul, hlt]
      · simp [hul, hlt]
    · by_cases hut : u = t
      · subst hut
        simp [hul]
      · simp [hul, hut]

/-- A creation that succeeds, on the stacks: a free block becomes the new task's, with the
first frame in it, and nothing else changes. -/
structure NewStack (b : Boot) (k k' : Kernel) (stack : TaskId → ℕ) (args : TaskCreateArgs) : Prop where
  tasks : k'.tasks = k.tasks ++ [k.gKernelObjectPool.freeList]
  gCurrent : k'.gCurrent = k.gCurrent
  blocks : Stacks b k'
    (Function.update stack k.gKernelObjectPool.freeList k.gUserStackPool.freeList)
  saved : Saved k'.stackMem k.gUserStackPool.freeList (k'.tcb k.gKernelObjectPool.freeList).sp
    (initialContext k.layout args k.gUserStackPool.freeList)
  sp : ∀ u, u ≠ k.gKernelObjectPool.freeList → (k'.tcb u).sp = (k.tcb u).sp
  mem : ∀ u ∈ k.tasks, ∀ a, stack u ≤ a → a < stack u + 4 * osTaskStackWords →
    k'.stackMem a = k.stackMem a

theorem map_update_snoc {l : List TaskId} (hnew : t ∉ l) (s : ℕ) :
    (l ++ [t]).map (Function.update stack t s) = l.map stack ++ [s] := by
  rw [List.map_append, List.map_singleton, Function.update_self]
  congr 1
  refine List.map_congr_left fun u hu => Function.update_of_ne ?_ _ _
  exact fun hc => hnew (hc ▸ hu)

theorem Stacks.create (h : Stacks b k stack) (hl : StackPoolOk b.layout)
    (hnew : k.gKernelObjectPool.freeList ∉ k.tasks) (hn : 33 ≤ args.stackWords)
    (hr : osKernelTaskCreate (some args) k = (0, k')) : NewStack b k k' stack args := by
  have ha : Accepts k args := create_accepts (by rw [hr])
  rw [create_accepted ha] at hr
  obtain ⟨-, rfl⟩ := Prod.mk.inj hr
  set new := k.gKernelObjectPool.freeList with hnewdef
  set p : Priority := ⟨args.priority, ha.priority⟩
  have hd := enrollTask_stackData new (k.setUp args p)
  obtain ⟨free, hp⟩ := h.pool
  obtain ⟨l, hfree⟩ := hp.free_cons ha.stack
  obtain ⟨pool', he, -, hp'⟩ := hp.alloc_some hl.fits hfree
  set s := k.gUserStackPool.freeList
  have hblock := hp.free_block (p := s) (by simp [hfree])
  obtain ⟨hs8, hslt⟩ := stackBlock_bounds hl.fits hl.aligned hblock
  have hw := ha.words
  simp only [osTaskStackWords] at hw
  obtain ⟨-, -, hout⟩ := buildFrame_inside k.layout args.entry args.arg hs8 hslt (by omega) hw.2
    k.stackMem
  have hmem : (enrollTask new (k.setUp args p)).stackMem =
      (buildFrame k.layout args.entry args.arg s args.stackWords k.stackMem).2 :=
    (enrollTask_stackMem new _).trans (setUp_stackMem k args p)
  have hpool : (enrollTask new (k.setUp args p)).gUserStackPool = pool' := by
    refine (congrArg (fun x => x.2.2.2.2) hd).trans ?_
    change (osMempoolAlloc k.stackMem k.gUserStackPool).2 = pool'
    rw [he]
  have htasks : (enrollTask new (k.setUp args p)).tasks = k.tasks ++ [new] := enrollTask_tasks new _
  have hnd := hp.held_nodup (by decide)
  refine ⟨htasks, congrArg (fun x => x.2.1) hd, ⟨?_, l, ?_⟩, ?_, fun u hu => ?_, fun u hu a h1 h2 => ?_⟩
  · exact (congrArg (fun x => x.2.2.1) hd).trans h.layout
  · rw [htasks, hmem, hpool, map_update_snoc hnew]
    refine (hp'.congr fun a hal => hout a ?_).perm (List.perm_append_singleton _ _).symm
    have hne : s ≠ a := fun hc => by
      rw [hfree] at hnd
      exact (List.nodup_cons.1 (List.nodup_append.1 hnd).2.1).1 (hc ▸ hal)
    rcases poolBlocks_apart hblock (hp'.free_block hal) hne with hap | hap
    · simp only [osTaskStackWords] at hap
      omega
    · simp only [osTaskStackWords] at hap
      omega
  · rw [hmem, enrollTask_sp, setUp_self]
    exact buildFrame_saved hs8 hslt hn hw.2 k.stackMem
  · rw [enrollTask_sp, setUp_other k args p hu]
  · rw [hmem]
    refine hout a ?_
    have hin : stack u ∈ k.tasks.map stack := List.mem_map_of_mem hu
    have hne : stack u ≠ s := fun hc =>
      (List.nodup_append.1 hnd).2.2 _ hin s (by simp [hfree]) hc
    have hap := poolBlocks_apart (hp.held_block hin) hblock hne
    simp only [osTaskStackWords] at hap h2
    omega

end Rtos

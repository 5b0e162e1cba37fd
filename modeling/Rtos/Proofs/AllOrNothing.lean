import Rtos.Proofs.Creation

/-! A creation takes both blocks and enrols the task, or it leaves the kernel as it was. -/

namespace Rtos

open Lib

variable {k k' : Kernel} {L : QueueRef → List TaskId} {T : List TaskId}
  {held free sheld sfree : List ℕ} {t u : TaskId} {args : TaskCreateArgs}

/-- Pools and queues in order: the blocks of each pool are in use or on its free list, and
the queues link tasks that are in use. -/
structure Stock (k : Kernel) (L : QueueRef → List TaskId) (T : List TaskId)
    (held free sheld sfree : List ℕ) : Prop where
  objectFits : PoolFits k.layout.kernelObjectBase osKernelObjectBlockSize k.layout.kernelObjectCount
  stackFits : PoolFits k.layout.userStackBase (4 * osTaskStackWords) k.layout.taskStackCount
  objects : PoolSound k.layout.kernelObjectBase osKernelObjectBlockSize k.layout.kernelObjectCount
    k.spMem k.gKernelObjectPool held free
  stackBlocks : PoolSound k.layout.userStackBase (4 * osTaskStackWords) k.layout.taskStackCount
    k.stackMem k.gUserStackPool sheld sfree
  queues : Queues Set.univ L k
  timeouts : Dll.Repr k.timeoutLinks k.gTimeoutQueue T
  queued : ∀ q, ∀ t ∈ L q, t ∈ held
  timed : ∀ t ∈ T, t ∈ held

/-! A creation that fails. -/

theorem osKobjAlloc_empty (h : k.gKernelObjectPool.freeList = 0) :
    osKobjAlloc sizeofTcb k = (0, k) := by
  have hsz : ¬ (sizeofTcb = 0 ∨ osKernelObjectBlockSize < sizeofTcb) := by decide
  rw [osKobjAlloc, if_neg hsz]
  simp [osMempoolAlloc, h]

theorem osKobjAlloc_snd (k : Kernel) : (osKobjAlloc sizeofTcb k).2 =
    { k with gKernelObjectPool := (osMempoolAlloc k.spMem k.gKernelObjectPool).2 } := by
  have hsz : ¬ (sizeofTcb = 0 ∨ osKernelObjectBlockSize < sizeofTcb) := by decide
  rw [osKobjAlloc, if_neg hsz]

theorem osKstackAlloc_zero {n : ℕ} (h : (osKstackAlloc n k).1 = 0) : (osKstackAlloc n k).2 = k := by
  rw [osKstackAlloc] at h ⊢
  split_ifs at h ⊢ with hn
  · rfl
  · have hz : k.gUserStackPool.freeList = 0 := by
      rw [← osMempoolAlloc_fst k.stackMem]
      exact h
    simp [osMempoolAlloc, hz]

/-- The object that was taken for the task goes back to where it was. -/
theorem Stock.rollback (h : Stock k L T held free sheld sfree)
    (hne : k.gKernelObjectPool.freeList ≠ 0) :
    (osKobjFree k.gKernelObjectPool.freeList (osKobjAlloc sizeofTcb k).2).2 = k := by
  have hundo := h.objects.undo h.objectFits hne
  rw [osKobjAlloc_snd]
  have hfree : osMempoolFree
      ({ k with gKernelObjectPool := (osMempoolAlloc k.spMem k.gKernelObjectPool).2 } : Kernel).spMem
      (osMempoolAlloc k.spMem k.gKernelObjectPool).2 k.gKernelObjectPool.freeList =
        (0, k.spMem, k.gKernelObjectPool) := hundo
  simp only [osKobjFree, hfree]
  rfl

theorem Stock.create_fails (h : Stock k L T held free sheld sfree) (args : Option TaskCreateArgs)
    (hr : (osKernelTaskCreate args k).1 ≠ 0) : osKernelTaskCreate args k = (-1, k) := by
  cases args with
  | none => rfl
  | some args =>
    by_cases h1 : args.entry = 0
    · simp only [osKernelTaskCreate, if_pos h1]
    by_cases h2 : args.priority < numPriorities
    · by_cases h3 : k.gKernelObjectPool.freeList = 0
      · simp only [osKernelTaskCreate, if_neg h1, dif_pos h2, osKobjAlloc_empty h3, if_true]
      by_cases h4 : (osKstackAlloc args.stackWords (osKobjAlloc sizeofTcb k).2).1 = 0
      · simp only [osKernelTaskCreate, if_neg h1, dif_pos h2, osKobjAlloc_fst, if_neg h3, if_pos h4,
          osKstackAlloc_zero h4, h.rollback h3]
      · refine absurd ?_ hr
        simp only [osKernelTaskCreate, if_neg h1, dif_pos h2, osKobjAlloc_fst, if_neg h3, if_neg h4]
        split_ifs <;> rfl
    · simp only [osKernelTaskCreate, if_neg h1, dif_neg h2]

theorem Stock.create_ok_iff (h : Stock k L T held free sheld sfree) :
    (osKernelTaskCreate (some args) k).1 = 0 ↔ args.entry ≠ 0 ∧ args.priority < numPriorities ∧
      (0 < args.stackWords ∧ args.stackWords ≤ osTaskStackWords) ∧ free ≠ [] ∧ sfree ≠ [] := by
  constructor
  · intro hr
    have ha := create_accepts hr
    obtain ⟨l, hl⟩ := h.objects.free_cons ha.object
    obtain ⟨l', hl'⟩ := h.stackBlocks.free_cons ha.stack
    exact ⟨ha.entry, ha.priority, ha.words, by simp [hl], by simp [hl']⟩
  · rintro ⟨h1, h2, h3, h4, h5⟩
    have ha : Accepts k args :=
      ⟨h1, h2, h3, h.objects.freeList_ne h4, h.stackBlocks.freeList_ne h5⟩
    rw [create_accepted ha]

/-! A creation that succeeds. -/

theorem foldl_pushWord_other {ws : List ℕ} {sp a : ℕ} (mem : ℕ → ℕ) (ha : a ∉ pushedAt sp ws) :
    (ws.foldl pushWord (sp, mem)).2 a = mem a := by
  induction ws generalizing sp mem with
  | nil => rfl
  | cons w ws ih =>
    rw [pushedAt, List.mem_cons, not_or] at ha
    rw [List.foldl_cons]
    refine (ih _ ha.2).trans ?_
    exact Function.update_of_ne ha.1 _ _

theorem pushedAt_wrap {ws : List ℕ} {sp a : ℕ} (h : sp < 2 ^ 32) (hw : 4 * ws.length ≤ 2 ^ 32)
    (ha : a ∈ pushedAt sp ws) : a < 2 ^ 32 ∧
      ∃ i < ws.length, a + 4 * (i + 1) = sp ∨ a + 4 * (i + 1) = sp + 2 ^ 32 := by
  induction ws generalizing sp with
  | nil => cases ha
  | cons w ws ih =>
    rw [List.length_cons] at hw ⊢
    have hlt : u32 (sp + (2 ^ 32 - 4)) < 2 ^ 32 := Nat.mod_lt _ (by norm_num)
    have hsp : u32 (sp + (2 ^ 32 - 4)) + 4 = sp ∨ u32 (sp + (2 ^ 32 - 4)) + 4 = sp + 2 ^ 32 := by
      rw [u32]
      omega
    rw [pushedAt, List.mem_cons] at ha
    generalize u32 (sp + (2 ^ 32 - 4)) = sp' at hlt hsp ha
    rcases ha with rfl | ha
    · exact ⟨hlt, 0, Nat.succ_pos _, by simpa using hsp⟩
    · obtain ⟨ha', i, hi, hai⟩ := ih hlt (by omega) ha
      exact ⟨ha', i + 1, by omega, by omega⟩

/-- However small the stack, the frame misses the first words of all other blocks. -/
theorem buildFrame_blocks {base count s p n : ℕ} (l : Layout) (entry arg : ℕ) (mem : ℕ → ℕ)
    (hf : PoolFits base (4 * osTaskStackWords) count)
    (hs : s ∈ poolBlocks base (4 * osTaskStackWords) count)
    (hp : p ∈ poolBlocks base (4 * osTaskStackWords) count) (hne : p ≠ s)
    (hn : n ≤ osTaskStackWords) : (buildFrame l entry arg s n mem).2 p = mem p := by
  have hap := poolBlocks_apart hp hs hne
  obtain ⟨-, hs2, -⟩ := poolBlocks_bounds hs
  obtain ⟨-, hp2, -⟩ := poolBlocks_bounds hp
  have hin := hf.in_memory
  simp only [osTaskStackWords] at hap hs2 hp2 hin hn
  refine foldl_pushWord_other mem fun hc => ?_
  have hlen : (initialFrame l entry arg).length = 16 := rfl
  have htop : u32 (s + 4 * n) = s + 4 * n := Nat.mod_eq_of_lt (by omega)
  rw [htop] at hc
  obtain ⟨-, i, hi, hpi⟩ := pushedAt_wrap (by omega) (by rw [hlen]; norm_num) hc
  rw [hlen] at hi
  omega

theorem enrollTask_cases (t : TaskId) (k : Kernel) : ∃ ts gn pv, enrollTask t k =
    { osReadyQueueAdd t k with tasks := ts, gNext := gn, pendsv := pv } ∧
      gn = (List.finRange numPriorities).findSome? fun p =>
        osTaskQueuePeekHead (.ready p) (osReadyQueueAdd t k) := by
  have h : osReadyQueueAdd t { k with tasks := k.tasks ++ [t] } =
      { osReadyQueueAdd t k with tasks := k.tasks ++ [t] } := by
    simp only [osReadyQueueAdd, osTaskQueueAdd]
    cases (k.queue (.ready (k.tcb t).priority)).tail <;> rfl
  rw [enrollTask, h]
  dsimp only
  split_ifs
  · exact ⟨_, _, _, rfl, rfl⟩
  · exact ⟨_, _, _, rfl, rfl⟩

/-- Both blocks are taken and written; the new task is in no queue yet. -/
theorem Stock.setUp (h : Stock k L T held free sheld sfree) (ha : Accepts k args) (p : Priority)
    {f sf : List ℕ} (hfree : free = k.gKernelObjectPool.freeList :: f)
    (hsfree : sfree = k.gUserStackPool.freeList :: sf) :
    Stock (k.setUp args p) L T (k.gKernelObjectPool.freeList :: held) f
      (k.gUserStackPool.freeList :: sheld) sf := by
  obtain ⟨pool, hpool, -, hobj⟩ := h.objects.alloc_some h.objectFits hfree
  obtain ⟨spool, hspool, -, hstk⟩ := h.stackBlocks.alloc_some h.stackFits hsfree
  have hnd := hobj.held_nodup (by decide)
  have hsnd := hstk.held_nodup (by decide)
  rw [List.cons_append, List.nodup_cons, List.mem_append, not_or] at hnd hsnd
  have hother : ∀ u, u ≠ k.gKernelObjectPool.freeList → (k.setUp args p).tcb u = k.tcb u :=
    fun u hu => setUp_other k args p hu
  have hused : ∀ u ∈ held, (k.setUp args p).tcb u = k.tcb u := fun u hu =>
    hother u fun hc => hnd.1.1 (hc ▸ hu)
  have hpool' : (k.setUp args p).gKernelObjectPool = pool := congrArg Prod.snd hpool
  have hspool' : (k.setUp args p).gUserStackPool = spool := congrArg Prod.snd hspool
  refine ⟨h.objectFits, h.stackFits, ?_, ?_, ?_, ?_, fun q u hu => ?_, fun u hu => ?_⟩
  · rw [hpool']
    refine hobj.congr fun u hu => congrArg Tcb.toTcbData (hother u ?_) |> congrArg TcbData.sp
    exact fun hc => hnd.1.2 (hc ▸ hu)
  · rw [hspool', setUp_stackMem]
    refine hstk.congr fun x hx => buildFrame_blocks _ _ _ _ h.stackFits ?_ (hstk.free_block hx)
      (fun hc => hsnd.1.2 (hc ▸ hx)) ha.words.2
    exact hstk.held_block List.mem_cons_self
  · refine h.queues.congr rfl fun q _ u hu => ?_
    have he := hused u (h.queued q u hu)
    exact ⟨congrArg Tcb.next he, congrArg Tcb.prev he⟩
  · refine h.timeouts.congr (fun u hu => ?_) fun u hu => ?_
    · exact congrArg Tcb.timeoutNext (hused u (h.timed u hu))
    · exact congrArg Tcb.timeoutPrev (hused u (h.timed u hu))
  · exact List.mem_cons_of_mem _ (h.queued q u hu)
  · exact List.mem_cons_of_mem _ (h.timed u hu)

theorem Stock.readyAdd (h : Stock k L T held free sheld sfree) (ht : t ∈ held) {p : Priority}
    (hm : Moved Set.univ L (.ready p) (L (.ready p) ++ [t]) k k') :
    Stock k' (Function.update L (.ready p) (L (.ready p) ++ [t])) T held free sheld sfree := by
  have hg : k'.toGlobals = k.toGlobals := hm.relinked.globals
  have hsp : k'.spMem = k.spMem := funext fun u => congrArg TcbData.sp (hm.relinked.data u)
  refine ⟨?_, ?_, ?_, ?_, hm.queues, ?_, fun q u hu => ?_, h.timed⟩
  · rw [hg]
    exact h.objectFits
  · rw [hg]
    exact h.stackFits
  · rw [hsp, hg]
    exact h.objects
  · rw [hg]
    exact h.stackBlocks
  · rw [hm.relinked.timeoutLinks, hm.relinked.gTimeoutQueue]
    exact h.timeouts
  · rw [Function.update_apply] at hu
    split_ifs at hu with hqr
    · rcases List.mem_append.1 hu with hu | hu
      · exact h.queued _ u hu
      · exact List.mem_singleton.1 hu ▸ ht
    · exact h.queued q u hu

theorem Queues.scan {p : Priority} (h : Queues Set.univ L k) (hne : L (.ready p) ≠ []) :
    ∃ n p', (List.finRange numPriorities).findSome? (fun p => osTaskQueuePeekHead (.ready p) k) =
      some n ∧ (L (.ready p')).head? = some n ∧ ∀ p'' < p', L (.ready p'') = [] := by
  have hpeek : ∀ p', osTaskQueuePeekHead (.ready p') k = (L (.ready p')).head? := fun p' =>
    (h.repr (.ready p') trivial).head
  simp only [hpeek]
  have hsome : (List.finRange numPriorities).findSome? (fun p' => (L (.ready p')).head?) ≠ none :=
    fun hc => hne (List.head?_eq_none_iff.1 (List.findSome?_eq_none_iff.1 hc p (List.mem_finRange _)))
  obtain ⟨n, hn⟩ := Option.ne_none_iff_exists'.1 hsome
  obtain ⟨p', hp', hmin⟩ := (Model.scan_some (L := fun p' => L (.ready p'))).1 hn
  exact ⟨n, p', hn, hp', hmin⟩

/-- The state after a creation: one block has left each pool, and the new task is the last of
its ready queue. -/
structure Enrolled (k k' : Kernel) (L : QueueRef → List TaskId) (T : List TaskId)
    (held free sheld sfree : List ℕ) (p : Priority) : Prop where
  blocks : ∃ t f s sf, free = t :: f ∧ sfree = s :: sf ∧ t ∉ held ∧ s ∉ sheld ∧
    Stock k' (Function.update L (.ready p) (L (.ready p) ++ [t])) T (t :: held) f (s :: sheld) sf ∧
    (k'.tcb t).state = .ready ∧ (k'.tcb t).priority = p ∧
    (∀ u, u ≠ t → (k'.tcb u).toTcbData = (k.tcb u).toTcbData) ∧
    ∃ n p', k'.gNext = some n ∧
      (Function.update L (.ready p) (L (.ready p) ++ [t]) (.ready p')).head? = some n ∧
      ∀ p'' < p', Function.update L (.ready p) (L (.ready p) ++ [t]) (.ready p'') = []
  gCurrent : k'.gCurrent = k.gCurrent

theorem Stock.create_succeeds (h : Stock k L T held free sheld sfree)
    (hr : osKernelTaskCreate (some args) k = (0, k')) :
    ∃ p : Priority, args.priority = p ∧ Enrolled k k' L T held free sheld sfree p := by
  have ha : Accepts k args := create_accepts (by rw [hr])
  rw [create_accepted ha] at hr
  obtain ⟨-, rfl⟩ := Prod.mk.inj hr
  set p : Priority := ⟨args.priority, ha.priority⟩
  obtain ⟨f, hfree⟩ := h.objects.free_cons ha.object
  obtain ⟨sf, hsfree⟩ := h.stackBlocks.free_cons ha.stack
  have h1 := h.setUp ha p hfree hsfree
  have hself := setUp_self k args p
  set t := k.gKernelObjectPool.freeList
  have hnew : t ∉ held := fun hc =>
    (List.nodup_cons.1 (h1.objects.held_nodup (by decide))).1 (List.mem_append_left _ hc)
  have hsnew : k.gUserStackPool.freeList ∉ sheld := fun hc =>
    (List.nodup_cons.1 (h1.stackBlocks.held_nodup (by decide))).1 (List.mem_append_left _ hc)
  have hprio : ((k.setUp args p).tcb t).priority = p := by rw [hself]; rfl
  have hm : Moved Set.univ L (.ready p) (L (.ready p) ++ [t]) (k.setUp args p)
      (osReadyQueueAdd t (k.setUp args p)) := by
    rw [osReadyQueueAdd, hprio]
    exact h1.queues.add trivial fun q _ hc => hnew (h.queued q t hc)
  have h2 := h1.readyAdd List.mem_cons_self hm
  obtain ⟨n, p', hscan, hhead, hmin⟩ := h2.queues.scan (p := p) (by simp)
  obtain ⟨ts, gn, pv, henr, hgn⟩ := enrollTask_cases t (k.setUp args p)
  rw [henr]
  -- what is written after the queue is no part of the stock
  refine ⟨p, rfl, ⟨⟨t, f, _, sf, hfree, hsfree, hnew, hsnew, ⟨h2.1, h2.2, h2.3, h2.4,
    h2.queues.congr rfl fun _ _ _ _ => ⟨rfl, rfl⟩, h2.6, h2.7, h2.8⟩, ?_, ?_, fun u hu => ?_, n, p',
    hgn.trans hscan, hhead, hmin⟩, ?_⟩⟩
  · exact (congrArg TcbData.state (hm.relinked.data t)).trans (by rw [hself]; rfl)
  · exact (congrArg TcbData.priority (hm.relinked.data t)).trans (by rw [hself]; rfl)
  · rw [hm.relinked.data, setUp_other k args p hu]
  · have hcur : (osReadyQueueAdd t (k.setUp args p)).gCurrent = (k.setUp args p).gCurrent :=
      congrArg Globals.gCurrent hm.relinked.globals
    exact hcur

theorem Sim.stock {a : Model} (hs : Sim k a) (hw : Model.WF a)
    (ho : PoolFits k.layout.kernelObjectBase osKernelObjectBlockSize k.layout.kernelObjectCount)
    (hf : PoolFits k.layout.userStackBase (4 * osTaskStackWords) k.layout.taskStackCount)
    (hobj : PoolSound k.layout.kernelObjectBase osKernelObjectBlockSize k.layout.kernelObjectCount
      k.spMem k.gKernelObjectPool k.tasks free)
    (hstk : PoolSound k.layout.userStackBase (4 * osTaskStackWords) k.layout.taskStackCount
      k.stackMem k.gUserStackPool sheld sfree) :
    Stock k a.list a.timeouts k.tasks free sheld sfree := by
  refine ⟨ho, hf, hobj, hstk, hs.queues, hs.timeouts, ?_, ?_⟩
  · intro q t ht
    rw [hs.tasks]
    exact hw.mem_tasks ht
  · intro t ht
    rw [hs.tasks]
    exact hw.timeouts_tasks t ht

/-- A creation takes one block of each pool and appends the new task to its ready queue, or it
changes nothing at all. -/
theorem create_all_or_nothing (h : Stock k L T held free sheld sfree)
    (args : Option TaskCreateArgs) :
    ((osKernelTaskCreate args k).1 ≠ 0 → osKernelTaskCreate args k = (-1, k)) ∧
    ((osKernelTaskCreate args k).1 = 0 → ∃ p : Priority, (args.map TaskCreateArgs.priority) = some p.val ∧
      Enrolled k (osKernelTaskCreate args k).2 L T held free sheld sfree p) ∧
    ((osKernelTaskCreate args k).1 = 0 ↔ ∃ r, args = some r ∧ r.entry ≠ 0 ∧
      r.priority < numPriorities ∧ (0 < r.stackWords ∧ r.stackWords ≤ osTaskStackWords) ∧
      free ≠ [] ∧ sfree ≠ []) := by
  refine ⟨h.create_fails args, fun hr => ?_, ?_⟩
  · cases args with
    | none => cases hr
    | some r =>
      obtain ⟨p, hp, he⟩ := h.create_succeeds (Prod.ext hr rfl)
      exact ⟨p, by rw [Option.map_some, hp], he⟩
  · cases args with
    | none =>
      constructor
      · intro hr
        cases hr
      · rintro ⟨r, hr, -⟩
        cases hr
    | some r =>
      rw [h.create_ok_iff]
      constructor
      · intro hr
        exact ⟨r, rfl, hr⟩
      · rintro ⟨r', hr', hr⟩
        rw [Option.some.inj hr']
        exact hr

/-- With one task ready and one waiting for a semaphore: the creation is granted; one that asks for
too large a stack is not, after the object was taken for it. -/
theorem create_all_or_nothing_small : ∃ os k L T held free sheld sfree,
    Run (Boot.small [1, 1] 0 0 (by decide)) os k ∧ Stock k L T held free sheld sfree ∧
    (L (.ready 1) = [128] ∧ L (.sem 0) = [192]) ∧
    (∃ p, Enrolled k (osKernelTaskCreate (some ⟨1, 0x400, 7, 17⟩) k).2 L T held free sheld sfree p) ∧
    osKernelTaskCreate (some ⟨1, 0x400, 7, 257⟩) k = (-1, k) := by
  obtain ⟨os, k, hr, hlist, ⟨ho1, ho2, hs1, hs2⟩, htasks, hobj, hstk⟩ :=
    Boot.play_exists (Boot.small [1, 1] 0 0 (by decide)) 10
      [.pendSV, .svc (.semTake (some 0)), .pendSV]
      (fun _ k => (Dll.Repr k.links (k.queue (.ready 1)) [128] ∧
          Dll.Repr k.links (k.queue (.sem 0)) [192]) ∧
        (k.layout.kernelObjectBase = 64 ∧ k.layout.kernelObjectCount = 4 ∧
          k.layout.userStackBase = 1024 ∧ k.layout.taskStackCount = 4) ∧
        k.tasks = [256, 192, 128] ∧
        (k.gKernelObjectPool = ⟨64, 64, 320, 64, 4, 1⟩ ∧ ptr (k.spMem 64) = none) ∧
        (k.gUserStackPool = ⟨1024, 1024, 5120, 1024, 4, 1⟩ ∧ ptr (k.stackMem 1024) = none))
      (by decide +kernel)
  obtain ⟨a, hsim, hi⟩ := run_sim hr
  have hst : Stock k a.list a.timeouts k.tasks [64] [4096, 3072, 2048] [1024] := by
    refine hsim.stock hi.wf ?_ ?_ ?_ ?_ <;> simp only [ho1, ho2, hs1, hs2]
    · exact ⟨by decide, by decide, by decide, by decide⟩
    · exact ⟨by decide, by decide, by decide, by decide⟩
    · rw [hobj.1, htasks]
      exact ⟨rfl, rfl, rfl, ⟨rfl, hobj.2⟩, rfl, by decide⟩
    · rw [hstk.1]
      exact ⟨rfl, rfl, rfl, ⟨rfl, hstk.2⟩, rfl, by decide⟩
  have h1 := create_all_or_nothing hst (some ⟨1, 0x400, 7, 17⟩)
  have h2 := create_all_or_nothing hst (some ⟨1, 0x400, 7, 257⟩)
  refine ⟨os, k, _, _, _, _, _, _, hr, hst, ⟨(hsim.repr _).unique hlist.1, (hsim.repr _).unique hlist.2⟩,
    ?_, h2.1 fun hc => ?_⟩
  · obtain ⟨p, -, he⟩ := h1.2.1 (h1.2.2.2 ⟨_, rfl, by decide, by decide, by decide, by decide, by decide⟩)
    exact ⟨p, he⟩
  · obtain ⟨r, hr, -, -, hw, -⟩ := h2.2.2.1 hc
    rw [← Option.some.inj hr] at hw
    exact absurd hw (by decide)

theorem Boot.stock (b : Boot)
    (ho : PoolFits b.layout.kernelObjectBase osKernelObjectBlockSize b.layout.kernelObjectCount)
    (hs : PoolFits b.layout.userStackBase (4 * osTaskStackWords) b.layout.taskStackCount) :
    Stock (osKallocInit b.memory) (fun _ => []) [] []
      (poolBlocks b.layout.kernelObjectBase osKernelObjectBlockSize b.layout.kernelObjectCount).reverse
      [] (poolBlocks b.layout.userStackBase (4 * osTaskStackWords) b.layout.taskStackCount).reverse := by
  have hsize : (osMempoolAlignUp (BitVec.ofNat 32 osKernelObjectBlockSize) 4).toNat =
      osKernelObjectBlockSize := by decide
  have h := PoolSound.init ho b.memory.spMem b.memory.gKernelObjectPool
  rw [← hsize] at h
  refine ⟨ho, hs, ?_, b.stackPool hs, ⟨fun _ _ => ⟨List.nodup_nil, rfl, rfl, trivial⟩, ?_⟩,
    ⟨List.nodup_nil, rfl, rfl, trivial⟩, ?_, ?_⟩
  · rw [← hsize]
    exact h
  · intro _ _ _ _ _ hc
    cases hc
  · intro _ _ hc
    cases hc
  · intro _ hc
    cases hc

end Rtos

import Rtos.Model.Mempool
import Rtos.Model.Stacks
import Rtos.Refine.Boot

/-! What a creation writes. `os_task_create_internal` pushes sixteen words whatever
`stack_words` says, so they stay in the new stack exactly if there are that many. -/

namespace Rtos

open Lib

variable {k k' : Kernel} {args : TaskCreateArgs} {t u : TaskId} {base count s : ℕ}
  {held free : List ℕ}

/-- A request that is granted. -/
structure Accepts (k : Kernel) (args : TaskCreateArgs) : Prop where
  entry : args.entry ≠ 0
  priority : args.priority < numPriorities
  words : 0 < args.stackWords ∧ args.stackWords ≤ osTaskStackWords
  object : k.gKernelObjectPool.freeList ≠ 0
  stack : k.gUserStackPool.freeList ≠ 0

/-- The state in which `os_task_create_internal` is called: both blocks are taken. -/
def Kernel.granted (k : Kernel) : Kernel :=
  { k with gKernelObjectPool := (osMempoolAlloc k.spMem k.gKernelObjectPool).2
           gUserStackPool := (osMempoolAlloc k.stackMem k.gUserStackPool).2 }

/-- The state `os_task_create_internal` leaves. -/
def Kernel.setUp (k : Kernel) (args : TaskCreateArgs) (p : Priority) : Kernel :=
  osTaskCreateInternal k.gKernelObjectPool.freeList p args.entry args.arg
    k.gUserStackPool.freeList args.stackWords k.granted

theorem osMempoolAlloc_fst (mem : ℕ → ℕ) (pool : Mempool) :
    (osMempoolAlloc mem pool).1 = pool.freeList := by
  simp only [osMempoolAlloc]
  split_ifs with h
  · rfl
  · exact (not_not.1 h).symm

theorem osKobjAlloc_fst (k : Kernel) :
    (osKobjAlloc sizeofTcb k).1 = k.gKernelObjectPool.freeList := by
  have hsz : ¬ (sizeofTcb = 0 ∨ osKernelObjectBlockSize < sizeofTcb) := by decide
  rw [osKobjAlloc, if_neg hsz]
  exact osMempoolAlloc_fst _ _

theorem osKstackAlloc_eq {n : ℕ} (hn : 0 < n ∧ n ≤ osTaskStackWords) :
    osKstackAlloc n (osKobjAlloc sizeofTcb k).2 = (k.gUserStackPool.freeList, k.granted) := by
  have hsz : ¬ (sizeofTcb = 0 ∨ osKernelObjectBlockSize < sizeofTcb) := by decide
  rw [osKobjAlloc, if_neg hsz, osKstackAlloc, if_neg (by omega)]
  exact congrArg (·, k.granted) (osMempoolAlloc_fst _ _)

theorem create_accepted (h : Accepts k args) : osKernelTaskCreate (some args) k =
    (0, enrollTask k.gKernelObjectPool.freeList (k.setUp args ⟨args.priority, h.priority⟩)) := by
  simp only [osKernelTaskCreate, if_neg h.entry, dif_pos h.priority, osKobjAlloc_fst,
    if_neg h.object, osKstackAlloc_eq h.words, if_neg h.stack]
  exact (apply_ite (Prod.mk (0 : ℤ)) _ _ _).symm

theorem create_accepts (h : (osKernelTaskCreate (some args) k).1 = 0) : Accepts k args := by
  by_cases h1 : args.entry = 0
  · simp [osKernelTaskCreate, h1] at h
  by_cases h2 : args.priority < numPriorities
  · by_cases h3 : k.gKernelObjectPool.freeList = 0
    · simp only [osKernelTaskCreate, if_neg h1, dif_pos h2, osKobjAlloc_fst, if_pos h3] at h
      cases h
    by_cases h4 : 0 < args.stackWords ∧ args.stackWords ≤ osTaskStackWords
    · by_cases h5 : k.gUserStackPool.freeList = 0
      · simp only [osKernelTaskCreate, if_neg h1, dif_pos h2, osKobjAlloc_fst, if_neg h3,
          osKstackAlloc_eq h4, if_pos h5] at h
        cases h
      · exact ⟨h1, h2, h4, h3, h5⟩
    · have hno : args.stackWords = 0 ∨ osTaskStackWords < args.stackWords := by omega
      have hz : (osKstackAlloc args.stackWords (osKobjAlloc sizeofTcb k).2).1 = 0 := by
        rw [osKstackAlloc, if_pos hno]
      simp only [osKernelTaskCreate, if_neg h1, dif_pos h2, osKobjAlloc_fst, if_neg h3, if_pos hz] at h
      cases h
  · simp [osKernelTaskCreate, h1, h2] at h

/-! The frame. -/

theorem foldl_pushWord_sp (ws : List ℕ) (sp : ℕ) (mem : ℕ → ℕ) (h : sp < 2 ^ 32) :
    (ws.foldl pushWord (sp, mem)).1 = u32 (sp + (2 ^ 32 - 4) * ws.length) := by
  induction ws generalizing sp mem with
  | nil =>
    change sp = u32 (sp + 0)
    rw [u32, Nat.add_zero, Nat.mod_eq_of_lt h]
  | cons w ws ih =>
    have hlt : u32 (sp + (2 ^ 32 - 4)) < 2 ^ 32 := Nat.mod_lt _ (by norm_num)
    rw [List.foldl_cons, List.length_cons]
    refine (ih _ _ hlt).trans ?_
    simp only [u32]
    omega

/-- Words pushed below `sp` where there is room for them. -/
theorem foldl_pushWord (ws : List ℕ) (sp : ℕ) (mem : ℕ → ℕ) (h : sp < 2 ^ 32)
    (hroom : 4 * ws.length ≤ sp) :
    (ws.foldl pushWord (sp, mem)).1 = sp - 4 * ws.length ∧
    (∀ i w, ws[i]? = some w → (ws.foldl pushWord (sp, mem)).2 (sp - 4 * (i + 1)) = w) ∧
    ∀ a, (∀ i < ws.length, a ≠ sp - 4 * (i + 1)) → (ws.foldl pushWord (sp, mem)).2 a = mem a := by
  induction ws generalizing sp mem with
  | nil => simp
  | cons w ws ih =>
    rw [List.length_cons] at hroom
    have hsp : u32 (sp + (2 ^ 32 - 4)) = sp - 4 := by
      rw [u32]
      omega
    obtain ⟨h1, h2, h3⟩ := ih (sp - 4) (Function.update mem (sp - 4) w) (by omega) (by omega)
    rw [List.foldl_cons, show pushWord (sp, mem) w = (sp - 4, Function.update mem (sp - 4) w) by
      simp only [pushWord, hsp]]
    have hshift : ∀ i, sp - 4 - 4 * (i + 1) = sp - 4 * (i + 1 + 1) := fun i => by omega
    refine ⟨by rw [h1, List.length_cons]; omega, fun i v hi => ?_, fun a ha => ?_⟩
    · cases i with
      | zero =>
        obtain rfl : w = v := by simpa using hi
        rw [h3, Function.update_self]
        intro i hi
        omega
      | succ i => rw [← hshift, h2 i v (by simpa using hi)]
    · rw [h3 a fun i hi => ?_, Function.update_of_ne]
      · exact ha 0 (by simp)
      · rw [hshift]
        exact ha (i + 1) (by simpa using hi)

/-- The addresses at which `pushWord` stores the words of a list. -/
def pushedAt : ℕ → List ℕ → List ℕ
  | _, [] => []
  | sp, _ :: ws => u32 (sp + (2 ^ 32 - 4)) :: pushedAt (u32 (sp + (2 ^ 32 - 4))) ws

theorem mem_pushedAt {ws : List ℕ} {sp a : ℕ} (h : sp < 2 ^ 32) (hroom : 4 * ws.length ≤ sp)
    (ha : a ∈ pushedAt sp ws) : ∃ i < ws.length, a = sp - 4 * (i + 1) := by
  induction ws generalizing sp with
  | nil => cases ha
  | cons w ws ih =>
    rw [List.length_cons] at hroom
    have hsp : u32 (sp + (2 ^ 32 - 4)) = sp - 4 := by
      rw [u32]
      omega
    rw [pushedAt, hsp, List.mem_cons] at ha
    rw [List.length_cons]
    rcases ha with rfl | ha
    · exact ⟨0, by omega, rfl⟩
    · obtain ⟨i, hi, rfl⟩ := ih (by omega) (by omega) ha
      exact ⟨i + 1, by omega, by omega⟩

/-- The stack pointer a creation starts from. -/
def frameTop (stackMem stackWords : ℕ) : ℕ :=
  u32 (stackMem + 4 * stackWords) - u32 (stackMem + 4 * stackWords) % 8

theorem frameTop_eq {n : ℕ} (h8 : s % 8 = 0) (hlt : s + 1024 < 2 ^ 32) (hn : n ≤ 256) :
    frameTop s n = s + (4 * n - 4 * n % 8) := by
  rw [frameTop, u32, Nat.mod_eq_of_lt (by omega)]
  omega

/-- The frame leaves memory outside of the new stack alone, if the stack has room for it. -/
theorem buildFrame_inside (l : Layout) (entry arg : ℕ) {n : ℕ} (h8 : s % 8 = 0) (hlt : s + 1024 < 2 ^ 32)
    (hn : 16 ≤ n) (hn' : n ≤ 256) (mem : ℕ → ℕ) :
    (buildFrame l entry arg s n mem).1 = frameTop s n - 64 ∧
    (∀ i w, (initialFrame l entry arg)[i]? = some w →
      (buildFrame l entry arg s n mem).2 (frameTop s n - 4 * (i + 1)) = w) ∧
    ∀ a, a < s ∨ s + 4 * n ≤ a → (buildFrame l entry arg s n mem).2 a = mem a := by
  have htop := frameTop_eq h8 hlt hn'
  have hlen : (initialFrame l entry arg).length = 16 := rfl
  obtain ⟨h1, h2, h3⟩ := foldl_pushWord (initialFrame l entry arg) (frameTop s n) mem (by omega)
    (by omega)
  refine ⟨h1, h2, fun a ha => h3 a fun i hi => ?_⟩
  omega

/-- A frame that does not fit ends below the stack. -/
theorem buildFrame_below (l : Layout) (entry arg : ℕ) {n : ℕ} (h8 : s % 8 = 0) (hlt : s + 1024 < 2 ^ 32)
    (hn : n < 16) (mem : ℕ → ℕ) :
    (buildFrame l entry arg s n mem).1 < s ∨ s + 1024 ≤ (buildFrame l entry arg s n mem).1 := by
  have htop := frameTop_eq h8 hlt (show n ≤ 256 by omega)
  have h := foldl_pushWord_sp (initialFrame l entry arg) (frameTop s n) mem (by omega)
  have hlen : (initialFrame l entry arg).length = 16 := rfl
  change (buildFrame l entry arg s n mem).1 = _ at h
  rw [h, u32, hlen]
  omega

/-! The rest of the call. -/

theorem enrollTask_stackData (t : TaskId) (k : Kernel) : (enrollTask t k).stackData =
    (k.tasks ++ [t], k.gCurrent, k.layout, k.stackMem, k.gUserStackPool) := by
  have h : (osReadyQueueAdd t { k with tasks := k.tasks ++ [t] }).stackData =
      (k.tasks ++ [t], k.gCurrent, k.layout, k.stackMem, k.gUserStackPool) := by
    simp only [osReadyQueueAdd, osTaskQueueAdd]
    cases (k.queue (.ready (k.tcb t).priority)).tail <;> rfl
  rw [enrollTask]
  generalize osReadyQueueAdd t { k with tasks := k.tasks ++ [t] } = k₁ at h
  rw [← h]
  split_ifs <;> rfl

theorem enrollTask_tasks (t : TaskId) (k : Kernel) : (enrollTask t k).tasks = k.tasks ++ [t] :=
  congrArg Prod.fst (enrollTask_stackData t k)

theorem enrollTask_stackMem (t : TaskId) (k : Kernel) : (enrollTask t k).stackMem = k.stackMem :=
  congrArg (fun x => x.2.2.2.1) (enrollTask_stackData t k)

/-- The choice of the next task does not matter to the tasks. -/
theorem enrollTask_add (t : TaskId) (k : Kernel) :
    (enrollTask t k).tcb = (osReadyQueueAdd t k).tcb := by
  have h : (osReadyQueueAdd t { k with tasks := k.tasks ++ [t] }).tcb = (osReadyQueueAdd t k).tcb := by
    simp only [osReadyQueueAdd, osTaskQueueAdd]
    cases (k.queue (.ready (k.tcb t).priority)).tail <;> rfl
  rw [enrollTask]
  generalize osReadyQueueAdd t { k with tasks := k.tasks ++ [t] } = k₁ at h
  rw [← h]
  split_ifs <;> rfl

theorem enrollTask_tcb (hne : (k.queue (.ready (k.tcb t).priority)).tail ≠ some t) :
    (enrollTask t k).tcb u =
      if u = t then { k.tcb t with
        next := none, prev := (k.queue (.ready (k.tcb t).priority)).tail }
      else if (k.queue (.ready (k.tcb t).priority)).tail = some u then
        { k.tcb u with next := some t }
      else k.tcb u := by
  rw [enrollTask_add, osReadyQueueAdd, osTaskQueueAdd]
  cases htail : (k.queue (.ready (k.tcb t).priority)).tail with
  | none =>
    simp only [Kernel.setQueue_tcb, Kernel.setTcb_tcb]
    split_ifs <;> simp_all
  | some l =>
    have hlt : l ≠ t := fun hx => hne (by rw [htail, hx])
    simp only [Kernel.setQueue_tcb, Kernel.setTcb_tcb]
    by_cases hu : u = t
    · subst hu
      rw [if_neg (Ne.symm hlt), if_pos rfl, if_pos rfl]
    · by_cases hul : u = l
      · subst hul
        simp [hu]
      · have hlu : some l ≠ some u := fun hx => hul (Option.some.inj hx).symm
        rw [if_neg hul, if_neg hu, if_neg hu, if_neg hlu]

section
variable (k args) (p : Priority)

theorem setUp_self : (k.setUp args p).tcb k.gKernelObjectPool.freeList =
    { newTcbData (buildFrame k.layout args.entry args.arg k.gUserStackPool.freeList
        args.stackWords k.stackMem).1 p with
      next := none, prev := none, timeoutNext := none, timeoutPrev := none } := by
  simp only [Kernel.setUp, osTaskCreateInternal, Kernel.setTcb, Function.update_self]
  rfl

theorem setUp_other (hu : u ≠ k.gKernelObjectPool.freeList) : (k.setUp args p).tcb u = k.tcb u :=
  Function.update_of_ne hu _ _

theorem setUp_stackMem : (k.setUp args p).stackMem = (buildFrame k.layout args.entry args.arg
    k.gUserStackPool.freeList args.stackWords k.stackMem).2 := by
  simp only [Kernel.setUp, osTaskCreateInternal, Kernel.setTcb]
  rfl

end

theorem next_of_tail {l : List TaskId} {e : Ends TaskId} (h : Dll.Repr k.links e l)
    (hu : e.tail = some u) : (k.tcb u).next = none := by
  rw [h.tail] at hu
  obtain ⟨l', rfl⟩ := List.getLast?_eq_some_iff.1 hu
  have hs := (Dll.seg_append.1 h.seg).2
  exact hs.2.1

/-- The new task's frame and stack pointer are in its own stack block, and the other blocks
of the pool are as before. -/
structure StaysInside (base count : ℕ) (args : TaskCreateArgs) (k k' : Kernel) : Prop where
  frame : ∀ a ∈ pushedAt (frameTop k.gUserStackPool.freeList args.stackWords)
      (initialFrame k.layout args.entry args.arg),
    k.gUserStackPool.freeList ≤ a ∧ a + 4 ≤ k.gUserStackPool.freeList + 4 * args.stackWords
  aligned : (k'.tcb k.gKernelObjectPool.freeList).sp % 8 = 0
  inside : k.gUserStackPool.freeList ≤ (k'.tcb k.gKernelObjectPool.freeList).sp ∧
    (k'.tcb k.gKernelObjectPool.freeList).sp < k.gUserStackPool.freeList + 4 * osTaskStackWords
  others : ∀ p ∈ poolBlocks base (4 * osTaskStackWords) count, p ≠ k.gUserStackPool.freeList →
    ∀ a, p ≤ a → a < p + 4 * osTaskStackWords → k'.stackMem a = k.stackMem a

theorem stackBlock_bounds (hf : PoolFits base (4 * osTaskStackWords) count) (h8 : base % 8 = 0)
    (hs : s ∈ poolBlocks base (4 * osTaskStackWords) count) : s % 8 = 0 ∧ s + 1024 < 2 ^ 32 := by
  have hin := hf.in_memory
  obtain ⟨-, hb, -⟩ := poolBlocks_bounds hs
  obtain ⟨i, -, hi⟩ := mem_poolBlocks.1 hs
  simp only [osTaskStackWords] at hb hi hin
  omega

theorem staysInside_iff (k' : Kernel) (hf : PoolFits base (4 * osTaskStackWords) count) (h8 : base % 8 = 0)
    (hp : PoolSound base (4 * osTaskStackWords) count k.stackMem k.gUserStackPool held free)
    (ha : Accepts k args)
    (hsp : (k'.tcb k.gKernelObjectPool.freeList).sp = (buildFrame k.layout args.entry args.arg
      k.gUserStackPool.freeList args.stackWords k.stackMem).1)
    (hmem : k'.stackMem = (buildFrame k.layout args.entry args.arg
      k.gUserStackPool.freeList args.stackWords k.stackMem).2) :
    StaysInside base count args k k' ↔ 16 ≤ args.stackWords := by
  obtain ⟨l, hfree⟩ := hp.free_cons ha.stack
  have hs : k.gUserStackPool.freeList ∈ poolBlocks base (4 * osTaskStackWords) count :=
    hp.free_block (by simp [hfree])
  obtain ⟨hs8, hlt⟩ := stackBlock_bounds hf h8 hs
  have hw := ha.words
  simp only [osTaskStackWords] at hw
  constructor
  · intro h
    by_contra hn
    have hin' := h.inside
    rw [hsp] at hin'
    simp only [osTaskStackWords] at hin'
    rcases buildFrame_below k.layout args.entry args.arg hs8 hlt
      (not_le.1 hn) k.stackMem with hb | hb <;> omega
  · intro hn
    have htop := frameTop_eq hs8 hlt hw.2
    obtain ⟨h1, -, h3⟩ := buildFrame_inside k.layout args.entry args.arg hs8 hlt hn hw.2
      k.stackMem
    refine ⟨fun a ha' => ?_, ?_, ?_, fun p hpb hne a h1' h2' => ?_⟩
    · obtain ⟨i, hi', rfl⟩ := mem_pushedAt (by omega) (by
        change 4 * 16 ≤ _
        omega) ha'
      change i < 16 at hi'
      omega
    · rw [hsp, h1]
      omega
    · rw [hsp, h1]
      simp only [osTaskStackWords]
      omega
    · rw [hmem]
      have hap := poolBlocks_apart hpb hs hne
      simp only [osTaskStackWords] at hap h2'
      exact h3 a (by omega)

/-- A creation that succeeds stays inside the new task's memory exactly if it asks for the
sixteen words of the frame or more; no other task control block changes at all exactly if,
besides, the new task is alone in its ready queue. Where it is not, only the link of the
task in front of it does. -/
theorem create_inside (hf : PoolFits base (4 * osTaskStackWords) count) (h8 : base % 8 = 0)
    (hp : PoolSound base (4 * osTaskStackWords) count k.stackMem k.gUserStackPool held free)
    (hq : ∀ p, ∃ l, Dll.Repr k.links (k.queue (.ready p)) l ∧ k.gKernelObjectPool.freeList ∉ l)
    (hr : osKernelTaskCreate (some args) k = (0, k')) :
    (StaysInside base count args k k' ∧ (∀ u, u ≠ k.gKernelObjectPool.freeList →
      k'.tcb u = k.tcb u) ↔
        16 ≤ args.stackWords ∧ ∀ p : Priority, p = args.priority → (k.queue (.ready p)).head = none) ∧
    (StaysInside base count args k k' ∧ (∀ u, u ≠ k.gKernelObjectPool.freeList →
      k'.tcb u = { k.tcb u with next := (k'.tcb u).next }) ↔ 16 ≤ args.stackWords) := by
  have ha : Accepts k args := create_accepts (by rw [hr])
  rw [create_accepted ha] at hr
  obtain ⟨-, rfl⟩ := Prod.mk.inj hr
  set t := k.gKernelObjectPool.freeList with ht
  set p : Priority := ⟨args.priority, ha.priority⟩ with hpdef
  have hself := setUp_self k args p
  have hqueue : (k.setUp args p).queue = k.queue := rfl
  have hprio : ((k.setUp args p).tcb t).priority = p := by rw [hself]; rfl
  obtain ⟨l, hl, hnot⟩ := hq p
  have htail : (k.queue (.ready p)).tail ≠ some t := by
    rw [hl.tail]
    exact fun hx => hnot (List.mem_of_getLast? hx)
  have hne : ((k.setUp args p).queue (.ready ((k.setUp args p).tcb t).priority)).tail ≠ some t := by
    rw [hprio, hqueue]
    exact htail
  have hin := staysInside_iff (enrollTask t (k.setUp args p)) hf h8 hp ha
    (by rw [enrollTask_tcb hne, if_pos rfl, hself]; rfl) (by rw [enrollTask_stackMem, setUp_stackMem])
  have htcb : ∀ u, u ≠ t → (enrollTask t (k.setUp args p)).tcb u =
      if (k.queue (.ready p)).tail = some u then { k.tcb u with next := some t } else k.tcb u := by
    intro u hu
    rw [enrollTask_tcb hne, if_neg hu, hprio, hqueue, setUp_other k args p hu]
  rw [hin]
  refine ⟨and_congr_right fun _ => ⟨fun hall q hqp => ?_, fun hall u hu => ?_⟩, ?_⟩
  · obtain rfl : p = q := (Fin.ext hqp).symm
    rw [hl.head, List.head?_eq_none_iff]
    by_contra hcons
    obtain ⟨u, hu⟩ := List.getLast?_isSome.2 hcons |> Option.isSome_iff_exists.1
    have hut : u ≠ t := fun hx => hnot (hx ▸ List.mem_of_getLast? hu)
    have htu : (k.queue (.ready p)).tail = some u := hl.tail.trans hu
    have := congrArg Tcb.next (hall u hut)
    rw [htcb u hut, if_pos htu, next_of_tail hl htu] at this
    cases this
  · have hnil := hall p rfl
    rw [hl.head, List.head?_eq_none_iff] at hnil
    rw [htcb u hu, hl.tail, hnil]
    rfl
  · refine ⟨fun h => h.1, fun h => ⟨h, fun u hu => ?_⟩⟩
    rw [htcb u hu]
    split_ifs <;> rfl

theorem Boot.stackPool (b : Boot)
    (hf : PoolFits b.layout.userStackBase (4 * osTaskStackWords) b.layout.taskStackCount) :
    PoolSound b.layout.userStackBase (4 * osTaskStackWords) b.layout.taskStackCount
      (osKallocInit b.memory).stackMem (osKallocInit b.memory).gUserStackPool []
      (poolBlocks b.layout.userStackBase (4 * osTaskStackWords) b.layout.taskStackCount).reverse := by
  have hsize : (osMempoolAlignUp (BitVec.ofNat 32 (4 * osTaskStackWords)) 4).toNat =
      4 * osTaskStackWords := by decide
  have h := PoolSound.init hf b.memory.stackMem b.memory.gUserStackPool
  rw [← hsize] at h ⊢
  exact h

/-- With one task ready and one waiting for a semaphore: an odd number of words, and room to
spare. -/
theorem create_inside_small : ∃ os k k', Run (Boot.small [1, 1] 0 0 (by decide)) os k ∧
    (k.queue (.ready 1)).head = some 128 ∧ (k.queue (.sem 0)).head = some 192 ∧
    osKernelTaskCreate (some ⟨1, 0x400, 7, 17⟩) k = (0, k') ∧
    StaysInside 1024 4 ⟨1, 0x400, 7, 17⟩ k k' := by
  have hf : PoolFits 1024 (4 * osTaskStackWords) 4 := ⟨by decide, by decide, by decide, by decide⟩
  obtain ⟨os, k, hr, hready, hsem, ⟨hstart, hstop, hsize, hcount⟩, hchain, hq, hret⟩ :=
    Boot.play_exists (Boot.small [1, 1] 0 0 (by decide)) 10
      [.pendSV, .svc (.semTake (some 0)), .pendSV]
      (fun _ k => (k.queue (.ready 1)).head = some 128 ∧ (k.queue (.sem 0)).head = some 192 ∧
        (k.gUserStackPool.poolStart = 1024 ∧ k.gUserStackPool.poolEnd = 1024 + 4 * osTaskStackWords * 4 ∧
          k.gUserStackPool.blockSize = 4 * osTaskStackWords ∧ k.gUserStackPool.freeCount = 1) ∧
        (ptr k.gUserStackPool.freeList = some 1024 ∧ ptr (k.stackMem 1024) = none) ∧
        (∀ p : Priority, Dll.Repr k.links (k.queue (.ready p))
            (if p = 1 then [128] else if p = 3 then [256] else []) ∧
          k.gKernelObjectPool.freeList ∉ if p = 1 then [128] else if p = 3 then [256] else []) ∧
        (osKernelTaskCreate (some ⟨1, 0x400, 7, 17⟩) k).1 = 0) (by decide +kernel)
  have hp : PoolSound 1024 (4 * osTaskStackWords) 4 k.stackMem k.gUserStackPool [4096, 3072, 2048]
      [1024] := ⟨hstart, hstop, hsize, hchain, hcount, by decide⟩
  refine ⟨os, k, _, hr, hready, hsem, Prod.ext hret rfl, ?_⟩
  exact ((create_inside hf (by decide) hp (fun p => ⟨_, hq p⟩) (Prod.ext hret rfl)).2.2
    (by decide)).1

/-- A stack of four words is granted, and the frame is written into the block below it. -/
theorem create_inside_fails : ∃ os k k', Run (Boot.small [2] 0 0 (by decide)) os k ∧
    k.Enabled (.svc (.taskCreate (some ⟨2, 0x400, 7, 4⟩))) ∧
    (exec k (.svc (.taskCreate (some ⟨2, 0x400, 7, 4⟩)))).Returns (0, k') ∧
    k.gUserStackPool.freeList = 2048 ∧ k'.stackMem 2036 ≠ k.stackMem 2036 ∧
    ¬ StaysInside 1024 4 ⟨2, 0x400, 7, 4⟩ k k' := by
  obtain ⟨os, k, hr, o, ho, he, h0, hs, hmem⟩ := Boot.play_exists (Boot.small [2] 0 0 (by decide)) 10
    [.pendSV, .svc (.taskCreate (some ⟨2, 0x400, 7, 4⟩))]
    (fun os _ => ∃ o ∈ os, o.entry = .svc (.taskCreate (some ⟨2, 0x400, 7, 4⟩)) ∧ o.ret = 0 ∧
      o.pre.gUserStackPool.freeList = 2048 ∧ o.post.stackMem 2036 ≠ o.pre.stackMem 2036)
    (by decide +kernel)
  obtain ⟨os₁, os₂, rfl⟩ := List.append_of_mem ho
  obtain ⟨hpre, hen, hret⟩ := hr.split rfl
  rw [he] at hen hret
  rw [h0] at hret
  refine ⟨os₁, o.pre, o.post, hpre, hen, hret, hs, hmem, fun h => hmem ?_⟩
  refine h.others 1024 (mem_poolBlocks.2 ⟨0, by decide, rfl⟩) (by rw [hs]; decide) 2036 (by decide) ?_
  decide

end Rtos

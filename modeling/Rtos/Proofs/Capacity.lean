import Rtos.Proofs.AllOrNothing
import Rtos.Proofs.Traces

/-! How many tasks a system can have. Only creations take blocks from the two pools and nothing
gives one back, so in every state the tasks are the objects that are in use, and whether one more
can be created is a matter of counting them. -/

namespace Rtos

open Lib

open Model (WF Inv Outcome)

variable {b : Boot} {os : List Obs} {k k' : Kernel} {a a' c : Model} {t u cur : TaskId}
  {free sheld sfree : List ℕ} {args : TaskCreateArgs}

/-! Between creations the pools and their links, which are the first words of the free blocks,
stay as they are. -/

def Globals.poolData (g : Globals) : List TaskId × Layout × Mempool × (ℕ → ℕ) × Mempool :=
  (g.tasks, g.layout, g.gUserStackPool, g.stackMem, g.gKernelObjectPool)

theorem Model.Outcome.poolKept {e : Entry} {r : ℤ} (ho : Outcome a cur e r a') (h : Inv a)
    (hc : a.gCurrent = some cur) (he : ∀ args, e ≠ .svc (.taskCreate args)) :
    a'.poolData = a.poolData ∧ ∀ t, (a'.tcb t).sp = (a.tcb t).sp := by
  by_cases hp : e = .pendSV
  · subst hp
    cases ho with
    | pendSV =>
      obtain ⟨n, -, hn, -⟩ := h.next
      rw [commit_eq (a := { a with pendsv := false }) hn]
      exact ⟨rfl, fun _ => rfl⟩
  · have hk := ho.memoryKept h hc hp he
    have hd : a'.poolData = a.poolData :=
      congrArg (fun d => (d.1, d.2.2.1, d.2.2.2.2.1, d.2.2.2.1, d.2.2.2.2.2)) hk.data
    exact ⟨hd, hk.sp⟩

/-! The tasks are the objects in use, and each has a stack. -/

structure Stocked (k : Kernel) (free sheld sfree : List ℕ) : Prop where
  objects : PoolSound k.layout.kernelObjectBase osKernelObjectBlockSize k.layout.kernelObjectCount
    k.spMem k.gKernelObjectPool k.tasks free
  stackBlocks : PoolSound k.layout.userStackBase (4 * osTaskStackWords) k.layout.taskStackCount
    k.stackMem k.gUserStackPool sheld sfree
  count : sheld.length = k.tasks.length

/-- Two pools in memory that an address can reach the end of. -/
structure PoolsFit (l : Layout) : Prop where
  objects : PoolFits l.kernelObjectBase osKernelObjectBlockSize l.kernelObjectCount
  stackBlocks : PoolFits l.userStackBase (4 * osTaskStackWords) l.taskStackCount

theorem Stocked.congr (h : Stocked k free sheld sfree) (hd : k'.poolData = k.poolData)
    (hsp : k'.spMem = k.spMem) : Stocked k' free sheld sfree := by
  obtain ⟨ht, h2⟩ := Prod.mk.inj hd
  obtain ⟨hl, h3⟩ := Prod.mk.inj h2
  obtain ⟨hu, h4⟩ := Prod.mk.inj h3
  obtain ⟨hm, ho⟩ := Prod.mk.inj h4
  obtain ⟨objects, stackBlocks, count⟩ := h
  refine ⟨?_, ?_, ?_⟩
  · rwa [hsp, ht, hl, ho]
  · rwa [hl, hm, hu]
  · rwa [ht]

theorem Stocked.stock (h : Stocked k free sheld sfree) (hf : PoolsFit k.layout) (hs : Sim k a)
    (hw : WF a) : Stock k a.list a.timeouts k.tasks free sheld sfree :=
  hs.stock hw hf.objects hf.stackBlocks h.objects h.stackBlocks

/-- A creation takes a block of each pool for the new task, or none. -/
theorem Stocked.create (h : Stocked k free sheld sfree) (hf : PoolsFit k.layout) (hs : Sim k a)
    (hw : WF a) (args : Option TaskCreateArgs) :
    (osKernelTaskCreate args k).2.layout = k.layout ∧
      ∃ free sheld sfree, Stocked (osKernelTaskCreate args k).2 free sheld sfree := by
  have hst := h.stock hf hs hw
  by_cases hr : (osKernelTaskCreate args k).1 = 0
  · cases args with
    | none => cases hr
    | some args =>
      have hacc := create_accepts hr
      obtain ⟨p, -, ⟨t, f, s, sf, hfree, hsfree, -, -, hst', -⟩, -⟩ := hst.create_succeeds (Prod.ext hr rfl)
      obtain ⟨l, hl⟩ := h.objects.free_cons hacc.object
      obtain rfl : t = k.gKernelObjectPool.freeList := (List.cons.inj (hfree.symm.trans hl)).1
      have hdata := enrollTask_stackData k.gKernelObjectPool.freeList
        (k.setUp args ⟨args.priority, hacc.priority⟩)
      rw [create_accepted hacc] at hst' ⊢
      have htasks : (enrollTask k.gKernelObjectPool.freeList
          (k.setUp args ⟨args.priority, hacc.priority⟩)).tasks =
            k.tasks ++ [k.gKernelObjectPool.freeList] := congrArg Prod.fst hdata
      refine ⟨congrArg (fun x => x.2.2.1) hdata, f, s :: sheld, sf, ?_, hst'.stackBlocks, ?_⟩
      · rw [htasks]
        exact hst'.objects.perm (List.perm_append_singleton _ _).symm
      · rw [htasks, List.length_cons, h.count, List.length_append, List.length_singleton]
  · rw [hst.create_fails args hr]
    exact ⟨rfl, free, sheld, sfree, h⟩

theorem Boot.stocked (b : Boot) (hf : PoolsFit b.layout) :
    ∃ free sheld sfree, Stocked (osKallocInit b.memory) free sheld sfree := by
  have h := b.stock hf.objects hf.stackBlocks
  exact ⟨_, _, _, h.objects, h.stackBlocks, rfl⟩

theorem creates_stocked (l : List (Option TaskCreateArgs)) (hs : Sim k a) (hb : Booting b a)
    (hf : PoolsFit k.layout) (h : Stocked k free sheld sfree) :
    (l.foldl (fun k args => (osKernelTaskCreate args k).2) k).layout = k.layout ∧
      ∃ free sheld sfree,
        Stocked (l.foldl (fun k args => (osKernelTaskCreate args k).2) k) free sheld sfree := by
  induction l generalizing k a free sheld sfree with
  | nil => exact ⟨rfl, free, sheld, sfree, h⟩
  | cons args l ih =>
    obtain ⟨hl, free', sheld', sfree', h'⟩ := h.create hf hs hb.wf args
    have hs' := (hs.taskCreate hb.wf hb.pool args).2
    have hb' : Booting b (a.taskCreate args).2 := by
      rcases Model.taskCreate_cases hb.pool args with ⟨-, hc⟩ | ⟨-, t, hc⟩
      · exact hb.createFailed hc
      · exact hb.created hc
    obtain ⟨hl', hst⟩ := ih hs' hb' (hl ▸ hf) h'
    exact ⟨hl'.trans hl, hst⟩

theorem start_stocked (h : b.start = some k) (hf : PoolsFit b.layout) :
    k.layout = b.layout ∧ ∃ free sheld sfree, Stocked k free sheld sfree := by
  obtain ⟨free, sheld, sfree, h0⟩ := b.stocked hf
  obtain ⟨hl, free', sheld', sfree', h1⟩ :=
    creates_stocked (some b.idleArgs :: b.creates) b.model_sim b.model_booting hf h0
  unfold Boot.start osStart at h
  simp only at h
  split_ifs at h with hn
  obtain rfl := Option.some.inj h
  exact ⟨hl, free', sheld', sfree', h1.congr rfl rfl⟩

theorem run_stocked (h : Run b os k) (hf : PoolsFit b.layout) :
    k.layout = b.layout ∧ ∃ free sheld sfree, Stocked k free sheld sfree := by
  induction h with
  | boot h => exact start_stocked h hf
  | @snoc os k k' e r h he hr ih =>
    obtain ⟨hl, free, sheld, sfree, hst⟩ := ih
    obtain ⟨a, hs, hi⟩ := run_sim h
    obtain ⟨cur, -, hc⟩ := hi.cur
    obtain ⟨a', hs', -, ho⟩ := exec_sim hs hi hc he hr
    by_cases hcreate : ∃ args, e = .svc (.taskCreate args)
    · obtain ⟨args, rfl⟩ := hcreate
      have heq : osKernelTaskCreate args k = (r, k') := Comp.returns_pure.1 hr
      obtain ⟨hl', hst'⟩ := hst.create (hl ▸ hf) hs hi.wf args
      rw [heq] at hl' hst'
      exact ⟨hl'.trans hl, hst'⟩
    · have hkept := ho.poolKept hi hc fun args hx => hcreate ⟨args, hx⟩
      have hd : k'.poolData = k.poolData := by
        rw [hs'.globals, hs.globals]
        exact hkept.1
      have hsp : k'.spMem = k.spMem := funext fun t => by
        change (k'.tcb t).sp = (k.tcb t).sp
        rw [hs'.sp, hs.sp, hkept.2]
      exact ⟨(congrArg (fun x => x.2.1) hd).trans hl, free, sheld, sfree, hst.congr hd hsp⟩

/-- What a creation asks for is in order. -/
def TaskCreateArgs.InOrder (r : TaskCreateArgs) : Prop :=
  r.entry ≠ 0 ∧ r.priority < numPriorities ∧ 0 < r.stackWords ∧ r.stackWords ≤ osTaskStackWords

theorem Stocked.create_ok_iff (h : Stocked k free sheld sfree) (hf : PoolsFit k.layout) (hs : Sim k a)
    (hw : WF a) : (osKernelTaskCreate (some args) k).1 = 0 ↔
      args.InOrder ∧ k.tasks.length < min k.layout.kernelObjectCount k.layout.taskStackCount := by
  have h1 := h.objects.length
  have h2 := h.stackBlocks.length
  have hcount := h.count
  rw [(h.stock hf hs hw).create_ok_iff, TaskCreateArgs.InOrder, ← List.length_pos_iff,
    ← List.length_pos_iff, lt_min_iff]
  constructor
  · rintro ⟨he, hp, hn, ho, hsf⟩
    exact ⟨⟨he, hp, hn⟩, by omega, by omega⟩
  · rintro ⟨⟨he, hp, hn⟩, ho, hsf⟩
    exact ⟨he, hp, hn, by omega, by omega⟩

/-- In every run the blocks of the object pool are the tasks and its free list, and as many stacks
are in use as there are tasks. So a creation is granted exactly if what it asks for is in order and
there are fewer tasks than blocks in either pool, and one that is not granted changes nothing. -/
theorem task_capacity (h : Run b os k) (hf : PoolsFit b.layout) :
    (∃ free sheld sfree, Stocked k free sheld sfree) ∧
    k.tasks.length ≤ min b.layout.kernelObjectCount b.layout.taskStackCount ∧
    ∀ args, ((osKernelTaskCreate args k).1 = 0 ↔ ∃ r, args = some r ∧ r.InOrder ∧
        k.tasks.length < min b.layout.kernelObjectCount b.layout.taskStackCount) ∧
      ((osKernelTaskCreate args k).1 ≠ 0 → osKernelTaskCreate args k = (-1, k)) := by
  obtain ⟨hl, free, sheld, sfree, hst⟩ := run_stocked h hf
  obtain ⟨a, hs, hi⟩ := run_sim h
  rw [← hl] at hf ⊢
  refine ⟨⟨free, sheld, sfree, hst⟩, ?_, fun args => ⟨?_, (hst.stock hf hs hi.wf).create_fails args⟩⟩
  · have h1 := hst.objects.length
    have h2 := hst.stackBlocks.length
    have hcount := hst.count
    rw [le_min_iff]
    exact ⟨by omega, by omega⟩
  · cases args with
    | none =>
      constructor
      · intro hr
        cases hr
      · rintro ⟨r, hr, -⟩
        cases hr
    | some r =>
      rw [hst.create_ok_iff hf hs hi.wf]
      constructor
      · intro hr
        exact ⟨r, rfl, hr⟩
      · rintro ⟨r', hr', hr⟩
        rwa [Option.some.inj hr']

/-- With three tasks beside the idle task the small system is full: a running task that asks for
one more is turned down. -/
theorem task_capacity_small : ∃ os k, Run (Boot.small [0, 1, 2] 0 0 (by decide)) os k ∧
    k.TaskRuns ∧ k.tasks.length = 4 ∧
    ∀ args, osKernelTaskCreate args k = (-1, k) := by
  obtain ⟨os, k, hr, hruns, hlen⟩ := (Boot.small [0, 1, 2] 0 0 (by decide)).play_exists 10 [.pendSV]
    (fun _ k => k.pendsv = false ∧ k.tasks.length = 4) (by decide +kernel)
  have hcap := task_capacity hr
    ⟨⟨by decide, by decide, by decide, by decide⟩, ⟨by decide, by decide, by decide, by decide⟩⟩
  refine ⟨os, k, hr, hruns, hlen, fun args => (hcap.2.2 args).2 fun h0 => ?_⟩
  obtain ⟨r, -, -, hlt⟩ := (hcap.2.2 args).1.1 h0
  rw [hlen] at hlt
  exact absurd hlt (by decide)

end Rtos

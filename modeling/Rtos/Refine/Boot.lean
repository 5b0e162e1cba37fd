import Rtos.Refine.Exec
import Rtos.Model.Mempool

/-! From memory to the first PendSV, and from there over whole runs: every state
of a run stands for a model state that satisfies the invariant. -/

namespace Rtos

open Lib

open Model (WF WFOff Inv PoolOk)

variable {b : Boot} {k k' : Kernel} {a : Model}

/-- Before `os_start`: tasks have been created and nothing has run. -/
structure Booting (b : Boot) (a : Model) : Prop where
  wf : WF a
  pool : PoolOk a
  gCurrent : a.gCurrent = none
  pendsv : a.pendsv = false
  tick : a.gTick = b.tick
  semCount : a.semCount = b.semCount
  mutex : ∀ m, a.mutex m = ⟨none, b.nextMutex m⟩
  timeouts : a.timeouts = []
  fresh : ∀ t ∈ a.tasks, ∃ sp p, a.tcb t = newTcbData sp p

theorem Booting.createFailed {a' : Model} (h : Booting b a) (hf : Model.CreateFailed a a') :
    Booting b a' := by
  obtain ⟨⟨pool, mem, rfl⟩, hsp, hpool⟩ := hf
  refine ⟨h.wf.congr rfl (fun _ => ⟨Iff.rfl, rfl, rfl, rfl⟩) rfl rfl, hpool, h.gCurrent, h.pendsv,
    h.tick, h.semCount, h.mutex, h.timeouts, fun t ht => ?_⟩
  obtain ⟨sp, p, hp⟩ := h.fresh t ht
  refine ⟨mem t, p, ?_⟩
  simp only [Model.withSpMem, hp]
  rfl

theorem Booting.created {a' : Model} {t : TaskId} (h : Booting b a) (hf : Model.Created a a' t) :
    Booting b a' := by
  have fr := hf.frame
  refine ⟨hf.wf h.wf, hf.pool, by rw [fr.gCurrent, h.gCurrent], ?_, by rw [fr.gTick, h.tick],
    by rw [fr.semCount, h.semCount], by rw [fr.mutex]; exact h.mutex, by rw [fr.timeouts, h.timeouts],
    fun u hu => ?_⟩
  · rw [fr.pendsv, h.pendsv, h.gCurrent]
    simp
  · by_cases hut : u = t
    · subst hut
      exact fr.new
    · rw [fr.tcb u hut]
      rw [fr.tasks] at hu
      exact h.fresh u (by simpa [hut] using hu)

theorem Booting.creates (l : List (Option TaskCreateArgs)) (hs : Sim k a) (h : Booting b a) :
    ∃ a', Sim (l.foldl (fun k args => (osKernelTaskCreate args k).2) k) a' ∧ Booting b a' := by
  induction l generalizing k a with
  | nil => exact ⟨a, hs, h⟩
  | cons args l ih =>
    have hs' := (hs.taskCreate h.wf h.pool args).2
    rcases Model.taskCreate_cases h.pool args with ⟨-, hf⟩ | ⟨-, t, hf⟩
    · exact ih hs' (h.createFailed hf)
    · exact ih hs' (h.created hf)

/-- The model of memory once the pools are set up. -/
def Boot.model (b : Boot) : Model where
  toGlobals := (osKallocInit b.memory).toGlobals
  tcb t := ((osKallocInit b.memory).tcb t).toTcbData
  list _ := []
  timeouts := []

theorem Boot.model_sim (b : Boot) : Sim (osKallocInit b.memory) b.model :=
  ⟨rfl, fun _ => rfl, fun _ => ⟨List.nodup_nil, rfl, rfl, trivial⟩, nofun,
    ⟨List.nodup_nil, rfl, rfl, trivial⟩⟩

theorem Boot.model_pool (b : Boot) : PoolOk b.model := by
  obtain ⟨h1, h2, h3⟩ := b.object_pool
  have hsize : (osMempoolAlignUp (BitVec.ofNat 32 osKernelObjectBlockSize) 4).toNat = 64 := by decide
  have hl := initBlock_chain h1 (by norm_num : 0 < 64) b.memory.spMem b.layout.kernelObjectCount
    (by omega)
  refine ⟨(poolBlocks b.layout.kernelObjectBase 64 b.layout.kernelObjectCount).reverse, ?_,
    fun t _ => List.not_mem_nil⟩
  have hmem : b.model.spMem = (osMempoolInit b.memory.spMem b.memory.gKernelObjectPool
      b.layout.kernelObjectBase 64 b.layout.kernelObjectCount).1 := by rw [← hsize]; rfl
  have hpool : b.model.gKernelObjectPool = (osMempoolInit b.memory.spMem b.memory.gKernelObjectPool
      b.layout.kernelObjectBase 64 b.layout.kernelObjectCount).2 := by rw [← hsize]; rfl
  have hne : ¬ (b.layout.kernelObjectBase = 0 ∨ 64 = 0 ∨ b.layout.kernelObjectCount = 0) := by omega
  rw [hmem, hpool, osMempoolInit, if_neg hne]
  exact hl

theorem Boot.model_booting (b : Boot) : Booting b b.model := by
  refine ⟨⟨fun _ => List.nodup_nil, fun q u => ?_, nofun, List.nodup_nil, nofun⟩, b.model_pool,
    rfl, rfl, rfl, rfl, fun _ => rfl, rfl, nofun⟩
  have hl : b.model.list q = [] := rfl
  have ht : b.model.tasks = [] := rfl
  simp [hl, ht]

/-- What holds in the state `os_start` leaves. -/
structure Started (b : Boot) (a : Model) : Prop where
  inv : Inv a
  pendsv : a.pendsv = true
  gNext : a.gNext = a.firstReady
  tick : a.gTick = b.tick
  semCount : a.semCount = b.semCount
  mutex : ∀ m, a.mutex m = ⟨none, b.nextMutex m⟩
  timeouts : a.timeouts = []
  fresh : ∀ t ∈ a.tasks, ∃ sp p, a.tcb t = newTcbData sp p

theorem Started.list_wait (h : Started b a) {q : QueueRef} (hq : q.isWait = true) : a.list q = [] := by
  refine List.eq_nil_iff_forall_not_mem.2 fun t ht => ?_
  have hb := (h.inv.wf.of_wait hq ht).1
  obtain ⟨sp, p, hp⟩ := h.fresh t (h.inv.wf.mem_tasks ht)
  rw [hp] at hb
  cases hb

theorem start_sim (h : b.start = some k) : ∃ a, Sim k a ∧ Started b a := by
  obtain ⟨a, hs, hb⟩ := Booting.creates (some b.idleArgs :: b.creates) b.model_sim b.model_booting
  have hs₁ := hs.schedule
  unfold Boot.start osStart at h
  simp only at h
  split_ifs at h with hn
  obtain rfl := Option.some.inj h
  have hgn : (osSchedule b.created).gNext = a.firstReady := hs₁.gNext
  have hs₂ := (hs₁.mapGlobals fun g => { g with gCurrent := g.gNext }).trigger
  refine ⟨_, hs₂, ?_⟩
  obtain ⟨c, hc⟩ : ∃ c, a.firstReady = some c := by
    rw [← Option.isSome_iff_exists, ← Option.ne_none_iff_isSome]
    exact fun he => hn (hgn.trans he)
  obtain ⟨hct, hcs, -, -⟩ := Model.firstReady_some hb.wf hc
  have hst : ∀ t ∈ a.tasks, (a.tcb t).state = .ready := fun t ht => by
    obtain ⟨sp, p, hp⟩ := hb.fresh t ht
    rw [hp]
    rfl
  refine ⟨⟨hb.wf.congr rfl (fun _ => ⟨Iff.rfl, rfl, rfl, rfl⟩) rfl rfl,
    hb.pool.congr rfl rfl fun _ => rfl, ⟨c, hct, hc⟩, ⟨c, hct, hc, hcs⟩, nofun, fun t ht hr => ?_, ?_,
    fun m o ho => ?_, fun t ht => ?_⟩, rfl, rfl, hb.tick, hb.semCount, hb.mutex, hb.timeouts, hb.fresh⟩
  · cases (hst t ht).symm.trans hr
  · obtain ⟨i, hi⟩ : ∃ i, a.tasks.head? = some i := by
      cases htl : a.tasks with
      | nil => rw [htl] at hct; cases hct
      | cons i l => exact ⟨i, rfl⟩
    refine ⟨i, hi, fun hbl => ?_⟩
    cases (hst i (List.mem_of_mem_head? hi)).symm.trans hbl
  · have := hb.mutex m
    change (a.mutex m).owner = some o at ho
    rw [this] at ho
    cases ho
  · obtain ⟨sp, p, hp⟩ := hb.fresh t ht
    change (a.tcb t).blockedOn = none
    rw [hp]
    rfl

/-- An entry of the kernel, seen from the model. -/
theorem exec_sim {cur : TaskId} {e : Entry} {r : ℤ} (hs : Sim k a) (h : Inv a)
    (hc : a.gCurrent = some cur) (he : k.Enabled e) (hr : (exec k e).Returns (r, k')) :
    ∃ a', Sim k' a' ∧ Inv a' ∧ Model.Outcome a cur e r a' := by
  have he' : a.Enabled e := hs.globals ▸ he
  obtain ⟨⟨r', a'⟩, ha', hr', hs'⟩ := (exec_refines hs h he').returns hr
  obtain rfl : r = r' := hr'
  have ho := Model.exec_outcome h hc ha'
  exact ⟨a', hs', h.outcome hc he' ho, ho⟩

/-- Induction over runs, at the level of the model. -/
theorem run_induct {P : List Obs → Kernel → Model → Prop}
    (boot : ∀ {k a}, Sim k a → Started b a → P [] k a)
    (step : ∀ {os k a k' a' cur e r}, Sim k a → Inv a → a.gCurrent = some cur → a.Enabled e →
      Model.Outcome a cur e r a' → Sim k' a' → Inv a' → P os k a → P (os ++ [⟨k, e, r, k'⟩]) k' a')
    {os : List Obs} (h : Run b os k) : ∃ a, Sim k a ∧ Inv a ∧ P os k a := by
  induction h with
  | boot h =>
    obtain ⟨a, hs, hst⟩ := start_sim h
    exact ⟨a, hs, hst.inv, boot hs hst⟩
  | snoc _ he hr ih =>
    obtain ⟨a, hs, hi, hp⟩ := ih
    obtain ⟨cur, -, hc⟩ := hi.cur
    obtain ⟨a', hs', hi', ho⟩ := exec_sim hs hi hc he hr
    exact ⟨a', hs', hi', step hs hi hc (hs.globals ▸ he) ho hs' hi' hp⟩

theorem run_sim {os : List Obs} (h : Run b os k) : ∃ a, Sim k a ∧ Inv a := by
  obtain ⟨a, hs, hi, -⟩ := run_induct (P := fun _ _ _ => True) (fun _ _ => trivial)
    (fun _ _ _ _ _ _ _ _ => trivial) h
  exact ⟨a, hs, hi⟩

end Rtos

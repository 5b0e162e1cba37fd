import Rtos.Proofs.Programs
import Rtos.Proofs.Urgency

/-! The tasks of a program by name: in the order of their creation, where each is in its code and
what its base priority is. -/

namespace Rtos

open Lib

open Model (WF Inv Outcome)

variable {S ℓ : Type} {P : Program S ℓ} {b : Boot} {user : S} {k k' : Kernel} {a a' : Model}
  {t cur : TaskId} {pc : TaskId → ℓ} {args : TaskCreateArgs}

structure Cast (pc : TaskId → ℓ) (a : Model) (cast : List (TaskId × ℓ × Priority)) : Prop where
  tasks : a.tasks = cast.map Prod.fst
  nodup : (cast.map Prod.fst).Nodup
  role : ∀ r ∈ cast, pc r.1 = r.2.1 ∧ (a.tcb r.1).basePriority = r.2.2

theorem Cast.places {cast : List (TaskId × ℓ × Priority)} (h : Cast pc a cast) :
    a.tasks.map pc = cast.map fun r => r.2.1 := by
  rw [h.tasks, List.map_map]
  exact List.map_congr_left fun r hr => (h.role r hr).1

theorem Cast.move (c₁ : List (TaskId × ℓ × Priority)) {c₂ : List (TaskId × ℓ × Priority)} {p p' : ℓ}
    {q : Priority} {pc' : TaskId → ℓ} (h : Cast pc a (c₁ ++ (t, p, q) :: c₂)) (htasks : a'.tasks = a.tasks)
    (hbase : ∀ u ∈ a.tasks, (a'.tcb u).basePriority = (a.tcb u).basePriority)
    (hpc : ∀ u ∈ a.tasks, pc' u = if u = t then p' else pc u) :
    Cast pc' a' (c₁ ++ (t, p', q) :: c₂) := by
  have hmap : (c₁ ++ (t, p', q) :: c₂).map Prod.fst = (c₁ ++ (t, p, q) :: c₂).map Prod.fst := by simp
  have hnd := h.nodup
  rw [List.map_append, List.map_cons] at hnd
  obtain ⟨-, h2, h3⟩ := List.nodup_append.1 hnd
  have hmem : ∀ r ∈ c₁ ++ (t, p, q) :: c₂, r.1 ∈ a.tasks := fun r hr => by
    rw [h.tasks]
    exact List.mem_map_of_mem hr
  refine ⟨by rw [hmap, htasks, h.tasks], by rw [hmap]; exact h.nodup, fun r hr => ?_⟩
  rw [List.mem_append, List.mem_cons] at hr
  rcases hr with hr | rfl | hr
  · have hin : r ∈ c₁ ++ (t, p, q) :: c₂ := List.mem_append_left _ hr
    have hne : r.1 ≠ t := h3 _ (List.mem_map_of_mem hr) _ List.mem_cons_self
    rw [hpc _ (hmem r hin), if_neg hne, hbase _ (hmem r hin)]
    exact h.role r hin
  · have hin : (t, p, q) ∈ c₁ ++ (t, p, q) :: c₂ := by simp
    refine ⟨?_, ?_⟩
    · exact (hpc _ (hmem _ hin)).trans (if_pos rfl)
    · exact (hbase _ (hmem _ hin)).trans (h.role _ hin).2
  · have hin : r ∈ c₁ ++ (t, p, q) :: c₂ := by simp [hr]
    have hne : r.1 ≠ t := by
      rintro rfl
      have hin' := List.mem_map_of_mem (f := Prod.fst) hr
      exact (List.nodup_cons.1 h2).1 hin'
    rw [hpc _ (hmem r hin), if_neg hne, hbase _ (hmem r hin)]
    exact h.role r hin

theorem Cast.join {cast : List (TaskId × ℓ × Priority)} {p : ℓ} {q : Priority} (h : Cast pc a cast)
    (hf : Model.Created a a' t) (hpc : pc t = p) (hq : (a'.tcb t).basePriority = q) :
    Cast pc a' (cast ++ [(t, p, q)]) := by
  have fr := hf.frame
  have hnew : t ∉ cast.map Prod.fst := h.tasks ▸ hf.new
  refine ⟨by simp [fr.tasks, h.tasks], ?_, fun r hr => ?_⟩
  · rw [List.map_append, List.nodup_append]
    refine ⟨h.nodup, List.nodup_singleton _, fun x hx y hy => ?_⟩
    rw [List.map_singleton, List.mem_singleton] at hy
    rw [hy]
    rintro rfl
    exact hnew hx
  · rcases List.mem_append.1 hr with hr | hr
    · have hne : r.1 ≠ t := fun hx => hnew (hx ▸ List.mem_map_of_mem hr)
      rw [fr.tcb _ hne]
      exact h.role r hr
    · obtain rfl := List.mem_singleton.1 hr
      exact ⟨hpc, hq⟩

/-- The new task is the block that was first on the free list, and its priority is the one that
was asked for. -/
theorem created_base {L : QueueRef → List TaskId} {T : List TaskId} {held free sheld sfree : List ℕ}
    (h : Stock k L T held free sheld sfree) (hs : Sim k a) (hs' : Sim k' a')
    (hr : osKernelTaskCreate (some args) k = (0, k')) (hf : Model.Created a a' t) :
    t = k.gKernelObjectPool.freeList ∧ ((a'.tcb t).basePriority : ℕ) = args.priority := by
  have htasks := (create_tasks args k (by rw [hr])).1
  rw [hr, hs'.tasks, hs.tasks, hf.frame.tasks] at htasks
  obtain rfl : t = k.gKernelObjectPool.freeList := by simpa using htasks
  refine ⟨rfl, ?_⟩
  obtain ⟨p, hp, ⟨u, f, s, sf, hfree, -, -, -, -, -, hprio, -⟩, -⟩ := h.create_succeeds hr
  obtain ⟨l, hl⟩ := h.objects.free_cons (create_accepts (by rw [hr])).object
  obtain rfl : u = k.gKernelObjectPool.freeList := (List.cons.inj (hfree.symm.trans hl)).1
  obtain ⟨sp, p', hnew⟩ := hf.frame.new
  rw [hs'.priority, hnew] at hprio
  rw [hnew, hp]
  exact congrArg Fin.val hprio

theorem base_kept {e : Entry} {r : ℤ} (hs : Sim k a) (hs' : Sim k' a') (hi : Inv a)
    (hc : a.gCurrent = some cur) (he : a.Enabled e) (ho : Outcome a cur e r a') (ht : t ∈ a.tasks) :
    (a'.tcb t).basePriority = (a.tcb t).basePriority :=
  (priority_move hs hs' hi hc he ho ht).1

theorem Cast.interrupt {cast : List (TaskId × ℓ × Priority)} {e : Entry} {r : ℤ} (h : Cast pc a cast)
    (hs : Sim k a) (hs' : Sim k' a') (hi : Inv a) (hc : a.gCurrent = some cur) (he : a.Enabled e)
    (hne : ∀ c, e ≠ .svc c) (ho : Outcome a cur e r a') : Cast pc a' cast := by
  refine ⟨(ho.tasks_eq hi hc fun _ => hne _).trans h.tasks, h.nodup, fun r hr => ?_⟩
  obtain ⟨h1, h2⟩ := h.role r hr
  refine ⟨h1, (base_kept hs hs' hi hc he ho ?_).trans h2⟩
  rw [h.tasks]
  exact List.mem_map_of_mem hr

section

variable (c₁ : List (TaskId × ℓ × Priority)) {c₂ : List (TaskId × ℓ × Priority)} {p p' : ℓ}
  {q : Priority} {c : Syscall} {r : ℤ} (h : Cast pc a (c₁ ++ (cur, p, q) :: c₂)) (hs : Sim k a)
  (hs' : Sim k' a') (hi : Inv a) (hc : a.gCurrent = some cur) (he : a.Enabled (.svc c))
  (hr : (osPortSvcDispatch k c).Returns (r, k')) (ho : Outcome a cur (.svc c) r a')
include h hs hs' hi hc he hr ho

theorem Cast.call (hne : ∀ args, c ≠ .taskCreate args) :
    Cast (P.noteStart k c r (Function.update pc cur p')) a' (c₁ ++ (cur, p', q) :: c₂) := by
  refine Cast.move c₁ h (ho.tasks_eq hi hc fun args hx => hne args (by injection hx))
    (fun u hu => base_kept hs hs' hi hc he ho hu) fun u hu => ?_
  rw [noteStart_old hr hs hi hu, Function.update_apply]

omit hc in
/-- A creation for which there is room also adds the new task, at the start of its function. -/
theorem Cast.create {n : ℕ} {s : ProgSys S ℓ} (hrun : ProgRun P b user n s) (hk : s.kernel = k)
    (hf : PoolsFit b.layout) (hcr : c = .taskCreate (some args)) (hok : args.InOrder)
    (hroom : a.tasks.length < min b.layout.kernelObjectCount b.layout.taskStackCount) :
    ∃ t, Cast (P.noteStart k c r (Function.update pc cur p')) a'
      ((c₁ ++ (cur, p', q) :: c₂) ++ [(t, P.start args.entry, ⟨args.priority, hok.2.1⟩)]) := by
  subst hcr hk
  obtain ⟨os, hrun⟩ := hrun.run
  obtain ⟨hl, free, sheld, sfree, hst⟩ := run_stocked hrun hf
  rw [← hl] at hf hroom
  rw [← hs.tasks] at hroom
  have h0 := (hst.create_ok_iff hf hs hi.wf).2 ⟨hok, hroom⟩
  have heq : osKernelTaskCreate (some args) s.kernel = (r, k') := Comp.returns_pure.1 hr
  obtain rfl : r = 0 := by rw [← h0, heq]
  cases ho with
  | @created _ _ t hcreated =>
    obtain ⟨ht, hbase⟩ := created_base (hst.stock hf hs hi.wf) hs hs' heq hcreated
    have hmove : Cast (P.noteStart s.kernel (.taskCreate (some args)) 0 (Function.update pc cur p')) a
        (c₁ ++ (cur, p', q) :: c₂) := by
      refine Cast.move c₁ h rfl (fun _ _ => rfl) fun u hu => ?_
      rw [noteStart_old hr hs hi hu, Function.update_apply]
    refine ⟨t, hmove.join hcreated ?_ (Fin.ext hbase)⟩
    rw [ht]
    simp only [Program.noteStart, if_true, Function.update_self]

end

/-! The tasks of `os_boot_main`. -/

theorem creates_cast (l : List TaskCreateArgs) (hok : ∀ r ∈ l, r.InOrder)
    {x : Kernel × (TaskId → ℓ)} {free sheld sfree : List ℕ} {cast : List (TaskId × ℓ × Priority)}
    (hs : Sim x.1 a) (hb : Booting b a) (hf : PoolsFit x.1.layout)
    (hst : Stocked x.1 free sheld sfree) (h : Cast x.2 a cast)
    (hroom : cast.length + l.length ≤ min x.1.layout.kernelObjectCount x.1.layout.taskStackCount) :
    ∃ a' new, Sim ((l.map some).foldl P.create x).1 a' ∧ Booting b a' ∧
      Cast ((l.map some).foldl P.create x).2 a' (cast ++ new) ∧
      List.Forall₂ (fun r n => n.2.1 = P.start r.entry ∧ (n.2.2 : ℕ) = r.priority) l new := by
  induction l generalizing x a free sheld sfree cast with
  | nil => exact ⟨a, [], hs, hb, by rwa [List.append_nil], .nil⟩
  | cons args l ih =>
    have hlen : x.1.tasks.length = cast.length := by rw [hs.tasks, h.tasks, List.length_map]
    rw [List.length_cons] at hroom
    have h0 : (osKernelTaskCreate (some args) x.1).1 = 0 := by
      refine (hst.create_ok_iff hf hs hb.wf).2 ⟨hok args List.mem_cons_self, ?_⟩
      omega
    obtain ⟨hr, hs'⟩ := hs.taskCreate hb.wf hb.pool (some args)
    rcases Model.taskCreate_cases hb.pool (some args) with ⟨hne, -⟩ | ⟨-, t, hcreated⟩
    · rw [← hr, h0] at hne
      cases hne
    · obtain ⟨ht, hbase⟩ := created_base (hst.stock hf hs hb.wf) hs hs' (Prod.ext h0 rfl) hcreated
      obtain ⟨hl, free', sheld', sfree', hst'⟩ := hst.create hf hs hb.wf (some args)
      have hpc : P.noteStart x.1 (.taskCreate (some args)) (osKernelTaskCreate (some args) x.1).1 x.2 =
          Function.update x.2 t (P.start args.entry) := by
        simp only [Program.noteStart, h0, if_true, ht]
      have hold : Cast (Function.update x.2 t (P.start args.entry)) a cast := by
        refine ⟨h.tasks, h.nodup, fun r hr => ?_⟩
        have hne : r.1 ≠ t := by
          rintro rfl
          exact hcreated.new (h.tasks ▸ List.mem_map_of_mem hr)
        rw [Function.update_of_ne hne]
        exact h.role r hr
      have hjoin := hold.join hcreated (Function.update_self _ _ _) rfl
      have hx : P.create x (some args) = ((osKernelTaskCreate (some args) x.1).2,
          Function.update x.2 t (P.start args.entry)) := by
        rw [← hpc]
        rfl
      obtain ⟨a', new, h1, h2, h3, h4⟩ := ih (fun r hr => hok r (List.mem_cons_of_mem _ hr))
        (x := P.create x (some args)) (by rw [hx]; exact hs') (hb.created hcreated)
        (by rw [hx]; exact hl ▸ hf) (by rw [hx]; exact hst') (by rw [hx]; exact hjoin) (by
          rw [hx, List.length_append, List.length_singleton]
          dsimp only
          rw [hl]
          omega)
      refine ⟨a', (t, P.start args.entry, ((a.taskCreate (some args)).2.tcb t).basePriority) :: new, h1, h2,
        ?_, .cons ⟨rfl, hbase⟩ h4⟩
      rw [List.append_assoc] at h3
      exact h3

theorem create_fst (l : List (Option TaskCreateArgs)) (x : Kernel × (TaskId → ℓ)) :
    (l.foldl P.create x).1 = l.foldl (fun k args => (osKernelTaskCreate args k).2) x.1 := by
  induction l generalizing x with
  | nil => rfl
  | cons args l ih => exact ih _

/-- If `os_app_main` asks for tasks that are in order and for which there is room, they are all
there when the first of them starts, after the idle task. -/
theorem boot_cast {l : List TaskCreateArgs} (hcr : b.creates = l.map some) (hok : ∀ r ∈ l, r.InOrder)
    (hf : PoolsFit b.layout)
    (hroom : l.length + 1 ≤ min b.layout.kernelObjectCount b.layout.taskStackCount)
    (h : b.start = some k) (hs : Sim k a) :
    ∃ d new, Cast (P.boot b) a ((d, P.start b.layout.osIdleTask, osTaskIdle) :: new) ∧
      List.Forall₂ (fun r n => n.2.1 = P.start r.entry ∧ (n.2.2 : ℕ) = r.priority) l new := by
  have hidle : b.idleArgs.InOrder := by
    refine ⟨b.idle_entry, ?_, ?_, ?_⟩
    · exact osTaskIdle.isLt
    · exact Nat.succ_pos 127
    · exact Nat.le_of_ble_eq_true rfl
  have hall : ∀ r ∈ b.idleArgs :: l, r.InOrder := by
    intro r hr
    rcases List.mem_cons.1 hr with rfl | hr
    · exact hidle
    · exact hok r hr
  obtain ⟨free, sheld, sfree, hst⟩ := b.stocked hf
  have hnone : Cast (fun _ => P.start b.layout.osIdleTask) b.model [] := ⟨rfl, List.nodup_nil, nofun⟩
  obtain ⟨a₁, new, hs₁, -, hcast, hnew⟩ := creates_cast (P := P) (b.idleArgs :: l) hall
    (x := (osKallocInit b.memory, fun _ => P.start b.layout.osIdleTask)) b.model_sim
    b.model_booting hf hst hnone (by
      rw [List.length_nil, List.length_cons, Nat.zero_add]
      exact hroom)
  have hboot : ((b.idleArgs :: l).map some).foldl P.create
      (osKallocInit b.memory, fun _ => P.start b.layout.osIdleTask) = (b.created, P.boot b) := by
    refine Prod.ext ?_ ?_
    · rw [create_fst, List.map_cons, ← hcr]
      rfl
    · rw [List.map_cons, ← hcr]
      rfl
  rw [hboot] at hs₁ hcast
  -- `os_start` changes neither the tasks nor their data
  have hk : k.tasks = b.created.tasks ∧ k.tcb = b.created.tcb := by
    unfold Boot.start osStart at h
    simp only at h
    split_ifs at h
    obtain rfl := Option.some.inj h
    exact ⟨rfl, rfl⟩
  have hdata : ∀ t, a.tcb t = a₁.tcb t := fun t => by rw [← hs.data, ← hs₁.data, hk.2]
  have hcast' : Cast (P.boot b) a new := by
    refine ⟨?_, hcast.nodup, fun r hr => ?_⟩
    · rw [← hs.tasks, hk.1, hs₁.tasks]
      exact hcast.tasks
    · rw [hdata]
      exact hcast.role r hr
  cases hnew with
  | @cons _ r _ new hr hrest =>
    obtain ⟨d, pc, q⟩ := r
    obtain ⟨rfl, hq⟩ := hr
    obtain rfl : q = osTaskIdle := Fin.ext hq
    exact ⟨d, new, hcast', hrest⟩

/-- The places of all tasks before and after one of them goes on. -/
theorem places_split {ts : List TaskId} (pc pc' : TaskId → ℓ) (hnd : ts.Nodup)
    (hmem : cur ∈ ts) (hpc : ∀ t ∈ ts, t ≠ cur → pc' t = pc t) :
    ∃ l₁ l₂, ts.map pc = l₁ ++ pc cur :: l₂ ∧ ts.map pc' = l₁ ++ pc' cur :: l₂ := by
  obtain ⟨t₁, t₂, rfl⟩ := List.append_of_mem hmem
  obtain ⟨-, h2, h3⟩ := List.nodup_append.1 hnd
  refine ⟨t₁.map pc, t₂.map pc, by simp, ?_⟩
  have hfst : t₁.map pc' = t₁.map pc :=
    List.map_congr_left fun t ht => hpc t (List.mem_append_left _ ht) (h3 t ht _ List.mem_cons_self)
  have hsnd : t₂.map pc' = t₂.map pc := by
    refine List.map_congr_left fun t ht => hpc t (by simp [ht]) ?_
    rintro rfl
    exact (List.nodup_cons.1 h2).1 ht
  rw [List.map_append, List.map_cons, hfst, hsnd]

/-- An application that creates all its tasks in `os_app_main`: what holds of its data and the
places of its tasks at the start, and is kept by each step of code, holds in every run. -/
theorem prog_interleaved {J : S → List ℓ → Prop} {n : ℕ} {s : ProgSys S ℓ} {l : List TaskCreateArgs}
    (hcr : b.creates = l.map some) (hok : ∀ r ∈ l, r.InOrder) (hf : PoolsFit b.layout)
    (hroom : l.length + 1 ≤ min b.layout.kernelObjectCount b.layout.taskStackCount)
    (hno : ∀ {p c next y args}, P.code p = .call c next → c y ≠ .taskCreate args)
    (boot : J user (P.start b.layout.osIdleTask :: l.map fun r => P.start r.entry))
    (work : ∀ {y l₁ p l₂ f}, J y (l₁ ++ p :: l₂) → P.code p = .work f →
      J (f y).1 (l₁ ++ (f y).2 :: l₂))
    (call : ∀ {y l₁ p l₂ c next} (r : ℤ), J y (l₁ ++ p :: l₂) → P.code p = .call c next →
      J y (l₁ ++ next r :: l₂))
    (h : ProgRun P b user n s) : J s.user (s.kernel.tasks.map s.pc) := by
  have hrun : ∃ a, Sim s.kernel a ∧ Inv a ∧ a.tasks.Nodup ∧ J s.user (a.tasks.map s.pc) := by
    refine prog_induct (I := fun _ s a => a.tasks.Nodup ∧ J s.user (a.tasks.map s.pc))
      ?_ ?_ ?_ ?_ h
    · intro k a hk hs hst
      obtain ⟨d, new, hcast, hnew⟩ := boot_cast (P := P) hcr hok hf hroom hk hs
      refine ⟨hcast.tasks ▸ hcast.nodup, ?_⟩
      have hplaces : a.tasks.map (P.boot b) =
          P.start b.layout.osIdleTask :: l.map fun r => P.start r.entry := by
        rw [hcast.places, List.map_cons]
        congr 1
        clear hcast hcr hok hroom boot
        induction hnew with
        | nil => rfl
        | cons hr _ ih => rw [List.map_cons, List.map_cons, ih, hr.1]
      rw [hplaces]
      exact boot
    · rintro n s a k a' cur e r hrun hs hi hc hne he ho hs' hi' ⟨hnd, hJ⟩
      rw [ho.tasks_eq hi hc fun _ => hne _]
      exact ⟨hnd, hJ⟩
    · rintro n s a cur f hrun hs hi hc hp hf ⟨hnd, hJ⟩
      obtain ⟨c, hmem, hc'⟩ := hi.cur
      obtain rfl : c = cur := Option.some.inj (hc'.symm.trans hc)
      obtain ⟨l₁, l₂, h1, h2⟩ := places_split s.pc (Function.update s.pc c (f s.user).2) hnd hmem
        fun t _ ht => Function.update_of_ne ht _ _
      rw [h1] at hJ
      rw [h2, Function.update_self]
      exact ⟨hnd, work hJ hf⟩
    · rintro n s a k a' cur c next r hrun hs hi hc hcode he hr ho hs' hi' ⟨hnd, hJ⟩
      obtain ⟨c', hmem, hc'⟩ := hi.cur
      obtain rfl : c' = cur := Option.some.inj (hc'.symm.trans hc)
      rw [ho.tasks_eq hi hc fun args hx => hno hcode (by injection hx)]
      have hold : ∀ t ∈ a.tasks, P.noteStart s.kernel (c s.user) r (Function.update s.pc c' (next r)) t =
          Function.update s.pc c' (next r) t := fun t ht => noteStart_old hr hs hi ht
      obtain ⟨l₁, l₂, h1, h2⟩ := places_split s.pc _ hnd hmem
        fun t ht hne => (hold t ht).trans (Function.update_of_ne hne _ _)
      rw [h1] at hJ
      rw [h2, hold _ hmem, Function.update_self]
      exact ⟨hnd, call r hJ hcode⟩
  obtain ⟨a, hs, -, -, hJ⟩ := hrun
  rwa [hs.tasks]

end Rtos

import Rtos.Proofs.Priority
import Rtos.Proofs.Slicing

/-! Priorities and preemption in every run, with mutexes nested in any way. Inheritance can then
go wrong, but not without bounds: no priority is made up, and what an unlock leaves undone the
next tick makes good. -/

namespace Rtos

open Lib

open Model (WF Inv Outcome)

variable {b : Boot} {os os₁ os₂ : List Obs} {o : Obs} {k k' : Kernel} {a a' : Model}
  {t cur : TaskId}

/-- A task is never less urgent than its base priority, and as urgent as somebody's. -/
def Justified (a : Model) : Prop :=
  ∀ t ∈ a.tasks, (a.tcb t).priority ≤ (a.tcb t).basePriority ∧
    ∃ u ∈ a.tasks, (a.tcb u).basePriority = (a.tcb t).priority

theorem recomputeWalk_le {next : MutexId → Option MutexId} {waiter : MutexId → Option Priority}
    {s : Option MutexId × Priority} {p : Priority} (h : (recomputeWalk next waiter s).Returns p) :
    p ≤ s.2 ∧ (p = s.2 ∨ ∃ m, waiter m = some p) := by
  refine Comp.loop_induction (P := fun (s : Option MutexId × Priority) p =>
    p ≤ s.2 ∧ (p = s.2 ∨ ∃ m, waiter m = some p)) ?_ ?_ h
  · rintro ⟨_ | m, r⟩ p hr
    · obtain rfl : r = p := by simpa using hr
      exact ⟨le_rfl, .inl rfl⟩
    · simp at hr
  · rintro ⟨_ | m, r⟩ s' p hs hp
    · simp at hs
    · obtain rfl : (next m, moreUrgent r (waiter m)) = s' := by simpa using hs
      change p ≤ moreUrgent r (waiter m) ∧ _ at hp
      unfold moreUrgent at hp
      split at hp
      · rename_i q hq
        split_ifs at hp with hlt
        · refine ⟨hp.1.trans hlt.le, .inr ?_⟩
          rcases hp.2 with rfl | hm
          · exact ⟨m, hq⟩
          · exact hm
        · exact hp
      · exact hp

/-- What an entry may do to the priority of `t`: nothing, a raise of the owner by a more urgent
caller, or the caller's own unlock. -/
inductive PriorityMove (o : Obs) (t : TaskId) : Prop
  | keep : (o.post.tcb t).priority = (o.pre.tcb t).priority → PriorityMove o t
  | raise {m : MutexId} {c : TaskId} : o.entry = .svc (.mutexLock (some m)) →
      o.pre.gCurrent = some c → (o.pre.mutex m).owner = some t → c ≠ t →
      (o.pre.tcb c).priority < (o.pre.tcb t).priority →
      (o.post.tcb t).priority = (o.pre.tcb c).priority → PriorityMove o t
  | recompute {m : MutexId} : o.entry = .svc (.mutexUnlock (some m)) → o.ret = 0 →
      o.pre.gCurrent = some t → PriorityMove o t

theorem priority_move {e : Entry} {r : ℤ} (hs : Sim k a) (hs' : Sim k' a') (hi : Inv a)
    (hc : a.gCurrent = some cur) (he : a.Enabled e) (ho : Outcome a cur e r a') (ht : t ∈ a.tasks) :
    (a'.tcb t).basePriority = (a.tcb t).basePriority ∧ PriorityMove ⟨k, e, r, k'⟩ t := by
  have keep : (a'.tcb t).priority = (a.tcb t).priority → PriorityMove ⟨k, e, r, k'⟩ t := by
    intro hp
    refine .keep ?_
    change (k'.tcb t).priority = (k.tcb t).priority
    rw [hs.priority, hs'.priority, hp]
  rcases ho.mutex_cases hi hc with ⟨fr, -⟩ | ⟨m, rfl, rfl, hm, rfl⟩ | ⟨m, u, rfl, rfl, hm, hne, rfl⟩ |
      ⟨m, found, p, rfl, rfl, hm, -, -, rfl⟩
  · exact ⟨(fr.tcb t ht).2.1, keep (fr.tcb t ht).1⟩
  · exact ⟨Model.lock_acquired.basePriority t, keep (Model.lock_acquired.priority t)⟩
  · have hq := hi.queued hc hm
    refine ⟨hq.basePriority t, ?_⟩
    have hpri := hq.priority t
    by_cases htu : t = u
    · subst htu
      rw [if_pos rfl] at hpri
      rcases lt_or_ge (a.tcb cur).priority (a.tcb t).priority with hlt | hge
      · rw [min_eq_left hlt.le] at hpri
        refine .raise rfl (hs.gCurrent.trans hc) ?_ hne.symm ?_ ?_
        · change (k.mutex m).owner = some t
          rw [hs.mutex, hm]
        · change (k.tcb cur).priority < (k.tcb t).priority
          rwa [hs.priority, hs.priority]
        · change (k'.tcb t).priority = (k.tcb cur).priority
          rw [hs.priority, hs'.priority, hpri]
      · rw [min_eq_right hge] at hpri
        exact keep hpri
    · rw [if_neg htu] at hpri
      exact keep hpri
  · have hst := hi.settled (m := m) (p := p) he.1 hc found
    obtain ⟨h1, h2, -⟩ := Model.handOff_frame.tcb (a := (a.dropOwned cur m found).setPriority cur p)
      (m := m) t
    refine ⟨h2.trans (hst.basePriority t), ?_⟩
    by_cases htc : t = cur
    · exact .recompute rfl rfl (htc ▸ hs.gCurrent.trans hc)
    · refine keep (h1.trans ?_)
      rw [hst.priority, if_neg htc]

theorem Justified.step {e : Entry} {r : ℤ} (h : Justified a) (hi : Inv a)
    (hc : a.gCurrent = some cur) (he : a.Enabled e) (ho : Outcome a cur e r a') : Justified a' := by
  rcases ho.mutex_cases hi hc with ⟨fr, -⟩ | ⟨m, rfl, rfl, hm, rfl⟩ | ⟨m, u, rfl, rfl, hm, hne, rfl⟩ |
      ⟨m, found, p, rfl, rfl, hm, -, hp, rfl⟩
  · intro t ht
    rcases fr.new t ht with hold | ⟨-, hnew⟩
    · obtain ⟨hle, u, hu, hbase⟩ := h t hold
      rw [(fr.tcb t hold).1, (fr.tcb t hold).2.1]
      exact ⟨hle, u, fr.tasks u hu, by rw [(fr.tcb u hu).2.1, hbase]⟩
    · exact ⟨hnew.le, t, ht, hnew.symm⟩
  · intro t ht
    have hac : Model.Acquired a
        ((a.setMutex m fun x => { x with owner := some cur }).addToOwned cur m) cur m :=
      Model.lock_acquired
    obtain ⟨hle, u, hu, hbase⟩ := h t (hac.tasks ▸ ht)
    rw [hac.priority, hac.basePriority]
    exact ⟨hle, u, hac.tasks ▸ hu, by rw [hac.basePriority, hbase]⟩
  · intro t ht
    have hq := hi.queued hc hm
    rw [hq.tasks] at ht ⊢
    simp only [hq.priority, hq.basePriority]
    obtain ⟨hle, hex⟩ := h t ht
    split_ifs with htu
    · subst htu
      refine ⟨(min_le_right _ _).trans hle, ?_⟩
      rcases min_choice (a.tcb cur).priority (a.tcb t).priority with hmin | hmin
      · rw [hmin]
        exact (h cur (hi.cur_mem hc)).2
      · rw [hmin]
        exact hex
    · exact ⟨hle, hex⟩
  · have hst := hi.settled (m := m) (p := p) he.1 hc found
    have hh := Model.handOff_frame (a := (a.dropOwned cur m found).setPriority cur p) (m := m)
    obtain ⟨w, htcb⟩ := Model.dropOwned_tcb (a := a) (t := cur) (m := m) found
    have hkeep : ∀ u, ((a.dropOwned cur m found).tcb u).priority = (a.tcb u).priority ∧
        ((a.dropOwned cur m found).tcb u).basePriority = (a.tcb u).basePriority := by
      intro u
      rw [htcb]
      by_cases hu : u = cur
      · subst hu
        rw [Function.update_self]
        exact ⟨rfl, rfl⟩
      · rw [Function.update_of_ne hu]
        exact ⟨rfl, rfl⟩
    obtain ⟨hple, hpex⟩ := recomputeWalk_le hp
    change p ≤ ((a.dropOwned cur m found).tcb cur).basePriority at hple
    rw [(hkeep cur).2] at hple
    intro t ht
    rw [hh.tasks, hst.tasks] at ht ⊢
    simp only [(hh.tcb _).1, (hh.tcb _).2.1, hst.priority, hst.basePriority]
    obtain ⟨hle, hex⟩ := h t ht
    split_ifs with htc
    · subst htc
      refine ⟨hple, ?_⟩
      rcases hpex with hpb | ⟨m', hw⟩
      · exact ⟨t, ht, hpb.symm ▸ (hkeep t).2.symm⟩
      · obtain ⟨x, hx, hxp⟩ := Option.map_eq_some_iff.1 hw
        rw [Model.dropOwned_list] at hx
        rw [(hkeep x).1] at hxp
        rw [← hxp]
        exact (h x (hi.wf.mem_tasks (List.mem_of_mem_head? hx))).2
    · exact ⟨hle, hex⟩

theorem run_justified (h : Run b os k) : ∃ a, Sim k a ∧ Inv a ∧ Justified a := by
  refine run_induct (P := fun _ _ a => Justified a) (fun _ hst t ht => ?_)
    (fun _ hi hc he ho _ _ hp => hp.step hi hc he ho) h
  obtain ⟨sp, p, hp⟩ := hst.fresh t ht
  exact ⟨by rw [hp]; exact le_rfl, t, ht, by rw [hp]; rfl⟩

/-- No priority comes from nowhere: in every run a task is as urgent as its base priority or
more, and as urgent as the base priority of some task; base priorities never change; and a
priority changes only when a more urgent task asks for a mutex of its task, which then gets the
caller's, or in an unlock by the task itself. -/
theorem priority_justified (h : Run b os k) :
    (∀ t ∈ k.tasks, (k.tcb t).priority ≤ (k.tcb t).basePriority ∧
      ∃ u ∈ k.tasks, (k.tcb u).basePriority = (k.tcb t).priority) ∧
    ∀ o ∈ os, ∀ t ∈ o.pre.tasks, (o.post.tcb t).basePriority = (o.pre.tcb t).basePriority ∧
      PriorityMove o t := by
  constructor
  · obtain ⟨a, hs, -, hj⟩ := run_justified h
    intro t ht
    rw [hs.tasks] at ht ⊢
    simp only [hs.data]
    exact hj t ht
  · intro o ho t ht
    obtain ⟨os₁, os₂, rfl⟩ := List.append_of_mem ho
    obtain ⟨hpre, hen, hret⟩ := h.split rfl
    obtain ⟨a, hs, hi⟩ := run_sim hpre
    obtain ⟨cur, -, hc⟩ := hi.cur
    obtain ⟨a', hs', -, hout⟩ := exec_sim hs hi hc hen hret
    rw [hs.data, hs'.data]
    exact priority_move hs hs' hi hc (hs.globals ▸ hen) hout (hs.tasks ▸ ht)

theorem priority_justified_small : ∃ os k, Run (Boot.small [0, 2] 0 0 (by decide)) os k ∧
    (k.tcb 128).priority = 0 ∧ ∃ u ∈ k.tasks, (k.tcb u).basePriority = (k.tcb 128).priority := by
  obtain ⟨os, k, hr, hmem, hp⟩ := Boot.play_exists (Boot.small [0, 2] 0 0 (by decide)) 10
    [.pendSV, .svc (.delayTicks 1), .pendSV, .svc (.mutexLock (some 0)), .sysTick, .pendSV,
      .svc (.mutexLock (some 0)), .pendSV]
    (fun _ k => 128 ∈ k.tasks ∧ (k.tcb 128).priority = 0) (by decide +kernel)
  exact ⟨os, k, hr, hp, ((priority_justified hr).1 128 hmem).2⟩

/-! Preemption. -/

def Obs.UnlocksUnasked (o : Obs) : Prop :=
  ∃ m, o.entry = .svc (.mutexUnlock (some m)) ∧ o.ret = 0 ∧ (o.pre.queue (.mutex m)).head = none

/-- After an entry the choice of the next task is up to date, or nothing it depends on has
changed, or nobody has been asked. -/
theorem Outcome.choice {e : Entry} {r : ℤ} (hi : Inv a) (hc : a.gCurrent = some cur)
    (he : a.Enabled e) (ho : Outcome a cur e r a') :
    a'.gNext = a'.firstReady ∨
    (a'.gNext = a.gNext ∧ a'.tasks = a.tasks ∧ ∀ u, (a'.tcb u).priority = (a.tcb u).priority ∧
      ((a'.tcb u).state ≠ .blocked → (a.tcb u).state ≠ .blocked)) ∨
    ∃ m, e = .svc (.mutexUnlock (some m)) ∧ r = 0 ∧ a.list (.mutex m) = [] := by
  have hre : ∀ x : Model, x.reschedule.gNext = x.reschedule.firstReady := by
    intro x
    rw [Model.reschedule_gNext]
    exact (Model.firstReady_congr (by simp)).symm
  cases ho with
  | tick => exact .inl (hre _)
  | pendSV =>
    obtain ⟨n, -, hn, hns⟩ := hi.next
    rw [Model.commit_eq (a := { a with pendsv := false }) hn]
    refine .inr (.inl ⟨rfl, rfl, fun u => ⟨rfl, fun hb hb' => hb ?_⟩⟩)
    exact (Model.commitState_blocked fun hx => hx ▸ hns).2 hb'
  | yield => exact .inl rfl
  | delayZero => exact .inl rfl
  | delay _ => exact .inl (Model.block_gNext hc _ _)
  | takeBlock _ => exact .inl (Model.block_gNext hc _ _)
  | giveWake _ => exact .inl (hre _)
  | @lockBlock m u _ _ =>
    have hbc : (a.boost cur u).gCurrent = some cur := by rw [Model.boost_toGlobals, hc]
    exact .inl ((Model.block_gNext hbc _ _).trans (Model.firstReady_congr rfl).symm)
  | @unlock m found p _ _ _ =>
    have hl := (hi.settled (m := m) (p := p) he.1 hc found).waiters m
    unfold Model.handOff
    split
    · exact .inl (hre _)
    · rename_i hnil
      exact .inr (.inr ⟨m, rfl, rfl, hl ▸ hnil⟩)
  | lockFree _ =>
    refine .inr (.inl ⟨rfl, rfl, fun u => ⟨Model.lock_acquired.priority u, ?_⟩⟩)
    rw [Model.addToOwned_keeps TcbData.state fun _ _ => rfl]
    exact id
  | created hf => exact .inl hf.frame.gNext
  | createFailed hf =>
    obtain ⟨⟨pool, mem, rfl⟩, -, -⟩ := hf
    exact .inr (.inl ⟨rfl, rfl, fun _ => ⟨rfl, id⟩⟩)
  | take _ => exact .inr (.inl ⟨rfl, rfl, fun _ => ⟨rfl, id⟩⟩)
  | give _ => exact .inr (.inl ⟨rfl, rfl, fun _ => ⟨rfl, id⟩⟩)
  | takeNull => exact .inr (.inl ⟨rfl, rfl, fun _ => ⟨rfl, id⟩⟩)
  | giveNull => exact .inr (.inl ⟨rfl, rfl, fun _ => ⟨rfl, id⟩⟩)
  | lockNull => exact .inr (.inl ⟨rfl, rfl, fun _ => ⟨rfl, id⟩⟩)
  | lockOwn _ => exact .inr (.inl ⟨rfl, rfl, fun _ => ⟨rfl, id⟩⟩)
  | unlockNull => exact .inr (.inl ⟨rfl, rfl, fun _ => ⟨rfl, id⟩⟩)
  | unlockOther _ => exact .inr (.inl ⟨rfl, rfl, fun _ => ⟨rfl, id⟩⟩)
  | unrecognized => exact .inr (.inl ⟨rfl, rfl, fun _ => ⟨rfl, id⟩⟩)

def FreshlyTicked (os : List Obs) : Prop :=
  ∃ os₁ o os₂, os = os₁ ++ o :: os₂ ∧ o.entry = .sysTick ∧ ∀ o' ∈ os₂, ¬ o'.UnlocksUnasked

theorem FreshlyTicked.snoc (h : FreshlyTicked (os ++ [o])) :
    o.entry = .sysTick ∨ FreshlyTicked os ∧ ¬ o.UnlocksUnasked := by
  obtain ⟨os₁, o₁, os₂, he, ht, hno⟩ := h
  rcases snoc_split he with ⟨-, rfl, -⟩ | ⟨os₃, rfl, rfl⟩
  · exact .inl ht
  · exact .inr ⟨⟨os₁, o₁, os₃, rfl, ht, fun o' ho' => hno o' (by simp [ho'])⟩, hno o (by simp)⟩

theorem run_bestNext (h : Run b os k) :
    ∃ a, Sim k a ∧ Inv a ∧ (FreshlyTicked os → BestNext a) := by
  refine run_induct (P := fun os _ a => FreshlyTicked os → BestNext a) (fun _ _ hf => ?_) ?_ h
  · obtain ⟨os₁, o, os₂, he, -⟩ := hf
    simp at he
  · intro os k a k' a' cur e r hs hi hc he ho hs' hi' hp hf
    rcases hf.snoc with htick | ⟨hf, hno⟩
    · obtain rfl : e = .sysTick := htick
      cases ho
      exact bestNext_reschedule hi'.wf
    · rcases Outcome.choice hi hc he ho with hn | ⟨hn, ht, hu⟩ | ⟨m, rfl, rfl, hl⟩
      · exact bestNext_of_firstReady hi'.wf hn
      · exact (hp hf).congr hn ht (fun u => (hu u).1) fun u _ => (hu u).2
      · refine absurd ⟨m, rfl, rfl, ?_⟩ hno
        rw [(hs.repr (.mutex m)).head, hl]
        rfl

/-- Since the last tick only an unlock that nobody waited for can have left a more urgent task
READY: without one, the task that runs is the most urgent, however the mutexes are nested. -/
theorem preemption_since_tick (h : Run b os k) (hf : FreshlyTicked os) (hr : k.TaskRuns) :
    ∃ c, k.gCurrent = some c ∧ (k.tcb c).state = .running ∧
      ∀ t ∈ k.tasks, (k.tcb t).state = .ready → (k.tcb c).priority ≤ (k.tcb t).priority := by
  obtain ⟨a, hs, hi, hbest⟩ := run_bestNext h
  have hnext := run_chosen h hr
  obtain ⟨c, -, hc⟩ := hi.cur
  have hp : a.pendsv = false := hs.pendsv ▸ hr
  rw [hs.gNext, hs.gCurrent, hc] at hnext
  refine ⟨c, hs.gCurrent.trans hc, by rw [hs.state, hi.running hp c hc], fun t ht hready => ?_⟩
  rw [hs.tasks] at ht
  rw [hs.state] at hready
  rw [hs.priority, hs.priority]
  exact hbest hf c hnext t ht (by rw [hready]; simp)

/-- The exception is real. Task 448 has lost a mutex from its list and, with it, the priority of
384; when it unlocks another one it goes on with 256, more urgent, READY. The tick ends that. -/
theorem preemption_since_tick_nested : ∃ os k, Run (Boot.wide [2, 0, 1, 0]) os k ∧
    (∃ o ∈ os, o.UnlocksUnasked ∧ o.post.TaskRuns ∧ o.post.gCurrent = some 448 ∧
      (o.post.tcb 256).state = .ready ∧ (o.post.tcb 256).priority < (o.post.tcb 448).priority) ∧
    FreshlyTicked os ∧ k.TaskRuns ∧
    ∃ c, k.gCurrent = some c ∧ ∀ t ∈ k.tasks, (k.tcb t).state = .ready →
      (k.tcb c).priority ≤ (k.tcb t).priority := by
  obtain ⟨os, k, hr, hk, he, o, ho, ⟨h1, h2, h3⟩, hrest⟩ := Boot.play_exists (Boot.wide [2, 0, 1, 0]) 20
    [.pendSV, .svc (.delayTicks 1), .pendSV, .svc (.delayTicks 3), .pendSV, .svc (.delayTicks 2),
      .pendSV, .svc (.mutexLock (some 2)), .svc (.mutexLock (some 1)), .svc (.mutexLock (some 3)),
      .sysTick, .pendSV, .svc (.mutexLock (some 2)), .pendSV, .sysTick, .svc (.delayTicks 1), .pendSV,
      .svc (.mutexLock (some 1)), .pendSV, .sysTick, .pendSV, .svc (.mutexUnlock (some 3)), .sysTick,
      .pendSV]
    (fun os k => k.pendsv = false ∧
      (os.reverse.take 2).map Obs.entry = [.pendSV, .sysTick] ∧
      ∃ o ∈ os, (o.entry = .svc (.mutexUnlock (some 3)) ∧ o.ret = 0 ∧
        (o.pre.queue (.mutex 3)).head = none) ∧ o.post.pendsv = false ∧ o.post.gCurrent = some 448 ∧
        (o.post.tcb 256).state = .ready ∧ (o.post.tcb 256).priority < (o.post.tcb 448).priority)
    (by decide +kernel)
  have hf : FreshlyTicked os := by
    obtain ⟨x, l, hx, hxe, hl⟩ := List.map_eq_cons_iff.1 he
    obtain ⟨y, l', rfl, hye, hl'⟩ := List.map_eq_cons_iff.1 hl
    obtain rfl := List.map_eq_nil_iff.1 hl'
    have hos : os = (os.reverse.drop 2).reverse ++ [y, x] := by
      have := congrArg List.reverse (List.take_append_drop 2 os.reverse)
      rw [hx] at this
      simpa using this.symm
    refine ⟨_, y, [x], hos, hye, fun o' ho' => ?_⟩
    obtain rfl := List.mem_singleton.1 ho'
    rintro ⟨m, hm, -⟩
    cases hxe.symm.trans hm
  obtain ⟨c, hc, -, hbest⟩ := preemption_since_tick hr hf hk
  exact ⟨os, k, hr, ⟨o, ho, ⟨3, h1, h2, h3⟩, hrest⟩, hf, hk, c, hc, hbest⟩

end Rtos

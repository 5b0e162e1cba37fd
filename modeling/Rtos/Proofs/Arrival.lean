import Rtos.Proofs.Semaphore

/-! In which order a semaphore serves its takers. A take queues at the end and a give
serves the first, so the order is that of arrival, as long as no lock call boosts a task
inside the queue: `os_task_set_priority` puts it back by priority. -/

namespace Rtos

open Lib

open Model (WF Inv Outcome SemStep)

variable {b : Boot} {os : List Obs} {o : Obs} {k k' : Kernel} {a a' : Model} {t u cur : TaskId}
  {s : SemId} {e : Entry} {r : ℤ}

/-- The task that blocks in a take of `s`. -/
def Obs.arrives (o : Obs) (s : SemId) : Option TaskId :=
  o.pre.gCurrent.filter fun t => o.Takes s ∧ InTake o.post s t

/-- The tasks that a give of `s` makes ready. -/
def Obs.serves (o : Obs) (s : SemId) : List TaskId :=
  o.pre.tasks.dedup.filter fun t => o.Gives s ∧ InTake o.pre s t ∧ (o.post.tcb t).state = .ready

def arrivals (os : List Obs) (s : SemId) : List TaskId := os.filterMap fun o => o.arrives s

def served (os : List Obs) (s : SemId) : List TaskId := os.flatMap fun o => o.serves s

/-- A lock call raises a task that waits for `s` over an earlier waiter that is less urgent
than the caller, or puts it behind the next one, which is at least as urgent. -/
def Obs.Displaces (o : Obs) (s : SemId) : Prop :=
  ∃ m cur w l₁ l₂, o.entry = .svc (.mutexLock (some m)) ∧ o.pre.gCurrent = some cur ∧
    (o.pre.mutex m).owner = some w ∧ (o.pre.tcb cur).priority < (o.pre.tcb w).priority ∧
    Dll.Repr o.pre.links (o.pre.queue (.sem s)) (l₁ ++ w :: l₂) ∧
    ((∃ v ∈ l₁, (o.pre.tcb cur).priority < (o.pre.tcb v).priority) ∨
      ∃ v, l₂.head? = some v ∧ (o.pre.tcb v).priority ≤ (o.pre.tcb cur).priority)

theorem insertWhile_erase {l : List TaskId} {f : TaskId → Bool} (hnd : l.Nodup) (ht : t ∈ l)
    (hk : ∀ l₁ l₂, l = l₁ ++ t :: l₂ → (∀ v ∈ l₁, f v = true) ∧ ∀ v, l₂.head? = some v → f v = false) :
    insertWhile f t (l.erase t) = l := by
  obtain ⟨l₁, l₂, rfl⟩ := List.append_of_mem ht
  obtain ⟨h1, h2⟩ := hk l₁ l₂ rfl
  have hnot : t ∉ l₁ := fun hin => (List.nodup_append.1 hnd).2.2 t hin t (by simp) rfl
  rw [List.erase_append_right _ hnot, List.erase_cons_head, insertWhile_append h1 h2]

theorem serves_of_not_gives (h : ¬ o.Gives s) : o.serves s = [] := by
  simp [Obs.serves, h]

theorem arrives_of_not_takes (h : ¬ o.Takes s) : o.arrives s = none := by
  rw [Obs.arrives, Option.filter_eq_none_iff]
  simp [h]

theorem arrives_eq (hs : Sim k a) (hi : Inv a) (hc : a.gCurrent = some cur)
    (ho : Outcome a cur e r a') (hs' : Sim k' a') (hi' : Inv a') :
    (⟨k, e, r, k'⟩ : Obs).arrives s =
      if e = .svc (.semTake (some s)) ∧ cur ∈ a'.list (.sem s) then some cur else none := by
  have hmem := hs'.inTake_iff (s := s) hi'.wf (Outcome.tasks_mono hi hc ho (hi.cur_mem hc))
  rw [Obs.arrives, hs.gCurrent, hc]
  simp only [Option.filter, Obs.Takes, hmem, decide_eq_true_eq]

theorem serves_nil (hs : Sim k a) (hi : Inv a) (hl : a.list (.sem s) = []) :
    (⟨k, e, r, k'⟩ : Obs).serves s = [] := by
  refine List.filter_eq_nil_iff.2 fun u hu => ?_
  have hua : u ∈ a.tasks := hs.tasks ▸ List.mem_dedup.1 hu
  simp [hs.inTake_iff hi.wf hua, hl]

theorem serves_head {l : List TaskId} (hs : Sim k a) (hi : Inv a) (hc : a.gCurrent = some cur)
    (he : a.Enabled (.svc (.semGive (some s)))) (ho : Outcome a cur (.svc (.semGive (some s))) r a')
    (hs' : Sim k' a') (hi' : Inv a') (hl : a.list (.sem s) = t :: l)
    (hr : (a'.tcb t).state = .ready) :
    (⟨k, .svc (.semGive (some s)), r, k'⟩ : Obs).serves s = [t] := by
  have hmem : ∀ {u}, u ∈ a.tasks → (InTake k' s u ↔ u ∈ a'.list (.sem s)) := fun hu =>
    hs'.inTake_iff hi'.wf (Outcome.tasks_mono hi hc ho hu)
  refine List.perm_singleton.1 ((List.perm_ext_iff_of_nodup
    ((List.nodup_dedup _).filter _) (List.nodup_singleton t)).2 fun u => ?_)
  simp only [List.mem_filter, List.mem_dedup, List.mem_singleton, decide_eq_true_eq, hs.tasks]
  constructor
  · rintro ⟨hu, -, hin, hrd⟩
    have hnot : u ∉ a'.list (.sem s) := by
      rw [← hmem hu, InTake, hrd]
      simp
    have := ((ho.sem_step hi hc he s).leaves ((hs.inTake_iff hi.wf hu).1 hin) hnot).2.1
    rw [hl] at this
    exact (Option.some.inj this).symm
  · rintro rfl
    have hut : u ∈ a.list (.sem s) := by simp [hl]
    refine ⟨hi.wf.mem_tasks hut, rfl, (hs.inTake_iff hi.wf (hi.wf.mem_tasks hut)).2 hut, ?_⟩
    rw [hs'.data]
    exact hr

/-- An entry that neither takes nor gives leaves the order alone, unless it displaces a waiter. -/
theorem undisplaced_list (hs : Sim k a) (hi : Inv a) (hc : a.gCurrent = some cur)
    (he : a.Enabled e) (ho : Outcome a cur e r a') (h1 : e ≠ .svc (.semTake (some s)))
    (h2 : e ≠ .svc (.semGive (some s))) (hd : ¬ (⟨k, e, r, k'⟩ : Obs).Displaces s) :
    a'.list (.sem s) = a.list (.sem s) := by
  rcases ho.wait_list hi hc he rfl (Model.waitsIn_sem h1 h2) with hl | ⟨m, w, rfl, hm, hlt, hw, hl⟩
  · exact hl
  · rw [hl, insertWhile_erase (hi.wf.nodup _) hw]
    intro l₁ l₂ hl'
    have hrep := hs.repr (.sem s)
    rw [hl'] at hrep
    have hx : ∀ P : Prop, ((∃ v ∈ l₁, (k.tcb cur).priority < (k.tcb v).priority) ∨
        ∃ v, l₂.head? = some v ∧ (k.tcb v).priority ≤ (k.tcb cur).priority) → P := by
      intro P hbad
      refine absurd ⟨m, cur, w, l₁, l₂, rfl, hs.gCurrent.trans hc, ?_, ?_, hrep, hbad⟩ hd
      · rw [hs.mutex]
        exact hm
      · simpa only [hs.data] using hlt
    simp only [hs.data] at hx
    refine ⟨fun v hv => ?_, fun v hv => ?_⟩
    · by_contra hnot
      exact hx _ (.inl ⟨v, hv, by simpa using hnot⟩)
    · by_contra hnot
      exact hx _ (.inr ⟨v, hv, by simpa using hnot⟩)

/-- One entry adds to the arrivals what it adds to the queue, and to those served what it
takes away. -/
theorem arrival_step (hs : Sim k a) (hi : Inv a) (hc : a.gCurrent = some cur) (he : a.Enabled e)
    (ho : Outcome a cur e r a') (hs' : Sim k' a') (hi' : Inv a')
    (hd : ¬ (⟨k, e, r, k'⟩ : Obs).Displaces s) :
    a.list (.sem s) ++ ((⟨k, e, r, k'⟩ : Obs).arrives s).toList =
      (⟨k, e, r, k'⟩ : Obs).serves s ++ a'.list (.sem s) := by
  have harr := arrives_eq (s := s) hs hi hc ho hs' hi'
  cases ho.sem_step hi hc he s with
  | other h1 h2 _ _ =>
    rw [arrives_of_not_takes (by simpa [Obs.Takes] using h1),
      serves_of_not_gives (by simpa [Obs.Gives] using h2), undisplaced_list hs hi hc he ho h1 h2 hd]
    simp
  | take hpos _ hl =>
    have hnot : cur ∉ a.list (.sem s) := hi.running_not_waiting he.1 hc rfl
    rw [harr, hl, if_neg fun hx => hnot hx.2, serves_of_not_gives (by simp [Obs.Gives])]
    simp
  | queue hpos _ hl =>
    rw [harr, hl, if_pos ⟨rfl, by simp⟩, serves_of_not_gives (by simp [Obs.Gives])]
    simp
  | give hl _ hl' =>
    rw [arrives_of_not_takes (by simp [Obs.Takes]), serves_nil hs hi hl, hl, hl']
    rfl
  | @hand _ t l hl _ hl' hr =>
    rw [arrives_of_not_takes (by simp [Obs.Takes]), serves_head hs hi hc he ho hs' hi' hl hr, hl, hl']
    simp

theorem arrivals_snoc : arrivals (os ++ [o]) s = arrivals os s ++ (o.arrives s).toList := by
  rw [arrivals, List.filterMap_append]
  cases ho : o.arrives s <;> simp [ho, arrivals]

theorem served_snoc : served (os ++ [o]) s = served os s ++ o.serves s := by
  simp [served]

theorem run_arrivals (h : Run b os k) (s : SemId) :
    ∃ a, Sim k a ∧ Inv a ∧ ((∀ o ∈ os, ¬ o.Displaces s) →
      arrivals os s = served os s ++ a.list (.sem s)) := by
  refine run_induct (P := fun os _ a => (∀ o ∈ os, ¬ o.Displaces s) →
    arrivals os s = served os s ++ a.list (.sem s)) (fun _ hst _ => ?_) ?_ h
  · rw [hst.list_wait rfl]
    rfl
  · intro os k a k' a' cur e r hs hi hc he ho hs' hi' hp hn
    have hstep := arrival_step hs hi hc he ho hs' hi' (hn _ (by simp))
    rw [arrivals_snoc, served_snoc, hp fun o ho' => hn o (by simp [ho']), List.append_assoc,
      List.append_assoc, hstep]

/-- Takers are served in the order in which they blocked, in every run in which no lock
call moves a waiter of the semaphore. -/
theorem semaphore_fifo (h : Run b os k) (s : SemId) (hn : ∀ o ∈ os, ¬ o.Displaces s) :
    served os s <+: arrivals os s := by
  obtain ⟨a, -, -, ha⟩ := run_arrivals h s
  rw [ha hn]
  exact List.prefix_append _ _

theorem not_displaces {m : MutexId} {w : TaskId} {l₁ l₂ : List TaskId}
    (he : o.entry = .svc (.mutexLock (some m))) (hc : o.pre.gCurrent = some cur)
    (hw : (o.pre.mutex m).owner = some w)
    (hrep : Dll.Repr o.pre.links (o.pre.queue (.sem s)) (l₁ ++ w :: l₂)) (hl₁ : w ∉ l₁)
    (hl₂ : w ∉ l₂) (h1 : ∀ v ∈ l₁, (o.pre.tcb v).priority ≤ (o.pre.tcb cur).priority)
    (h2 : ∀ v, l₂.head? = some v → (o.pre.tcb cur).priority < (o.pre.tcb v).priority) :
    ¬ o.Displaces s := by
  rintro ⟨m', cur', w', l₁', l₂', he', hc', hw', -, hrep', hbad⟩
  obtain rfl : m' = m := by simpa [he] using he'.symm
  obtain rfl : cur' = cur := Option.some.inj (hc'.symm.trans hc)
  obtain rfl : w' = w := Option.some.inj (hw'.symm.trans hw)
  obtain ⟨rfl, -, rfl⟩ := (List.append_cons_inj_of_notMem hl₁ hl₂).1 (hrep.unique hrep')
  rcases hbad with ⟨v, hv, hlt⟩ | ⟨v, hv, hle⟩
  · exact absurd hlt (not_lt.2 (h1 v hv))
  · exact absurd hle (not_le.2 (h2 v hv))

/-- The first of two takers holds a mutex. A more urgent task asks for it and raises the taker in
the queue, where it keeps its place, and two gives serve the takers in the order they came. -/
theorem semaphore_fifo_small : ∃ os k, Run (Boot.wide [1, 2, 2, 2]) os k ∧
    served os 0 = [384, 320] ∧ served os 0 <+: arrivals os 0 ∧
    ∃ o ∈ os, InTake o.pre 0 384 ∧ InTake o.post 0 384 ∧
      (o.post.tcb 384).priority < (o.pre.tcb 384).priority := by
  obtain ⟨os, k, hr, hserved, hraise, hlock⟩ := Boot.play_exists (Boot.wide [1, 2, 2, 2]) 10
    [.pendSV, .svc (.delayTicks 1), .pendSV, .svc (.mutexLock (some 0)), .svc (.semTake (some 0)),
      .pendSV, .svc (.semTake (some 0)), .pendSV, .sysTick, .pendSV, .svc (.mutexLock (some 0)),
      .pendSV, .svc (.semGive (some 0)), .pendSV, .svc (.semGive (some 0))]
    (fun os _ => served os 0 = [384, 320] ∧
      (∃ o ∈ os, InTake o.pre 0 384 ∧ InTake o.post 0 384 ∧
        (o.post.tcb 384).priority < (o.pre.tcb 384).priority) ∧
      ∀ o ∈ os, ∀ m ∈ lockTarget o.entry, (o.pre.mutex m).owner = none ∨
        (o.pre.mutex m).owner = some 384 ∧ o.pre.gCurrent = some 448 ∧
          Dll.Repr o.pre.links (o.pre.queue (.sem 0)) [384, 320] ∧
          (o.pre.tcb 448).priority < (o.pre.tcb 320).priority) (by decide +kernel)
  refine ⟨os, k, hr, hserved, semaphore_fifo hr 0 fun o ho => ?_, hraise⟩
  by_cases htarget : ∃ m, o.entry = .svc (.mutexLock (some m))
  · obtain ⟨m, he⟩ := htarget
    rcases hlock o ho m (by rw [he]; rfl) with hfree | ⟨hown, hc, hrep, hlt⟩
    · rintro ⟨m', -, w, -, -, he', -, hw, -⟩
      obtain rfl : m' = m := by simpa [he] using he'.symm
      rw [hfree] at hw
      cases hw
    · have hplace : Dll.Repr o.pre.links (o.pre.queue (.sem 0)) ([] ++ 384 :: [320]) := hrep
      refine not_displaces he hc hown hplace (by simp) (by simp) (by simp) ?_
      intro v hv
      cases hv
      exact hlt
  · rintro ⟨m, -, -, -, -, he, -⟩
    exact htarget ⟨m, he⟩

/-- The second taker holds a mutex that a more urgent task asks for, and is served first. -/
theorem semaphore_fifo_fails : ∃ os k, Run (Boot.wide [1, 2, 2, 2]) os k ∧
    arrivals os 0 = [384, 320] ∧ served os 0 = [320] ∧ ¬ served os 0 <+: arrivals os 0 :=
  Boot.play_exists (Boot.wide [1, 2, 2, 2]) 10
    [.pendSV, .svc (.delayTicks 1), .pendSV, .svc (.semTake (some 0)), .pendSV,
      .svc (.mutexLock (some 0)), .svc (.semTake (some 0)), .pendSV, .sysTick, .pendSV,
      .svc (.mutexLock (some 0)), .pendSV, .svc (.semGive (some 0))]
    (fun os _ => arrivals os 0 = [384, 320] ∧ served os 0 = [320] ∧
      ¬ served os 0 <+: arrivals os 0) (by decide +kernel)

end Rtos

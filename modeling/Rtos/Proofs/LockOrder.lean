import Rtos.Proofs.Inheritance
import Rtos.Proofs.MutualExclusion
import Rtos.Lib.WaitFor

/-! Deadlock. Nothing in the kernel keeps tasks from waiting for each other's mutexes in a ring.
If every task locks its mutexes in the order of one ranking, it cannot happen. -/

namespace Rtos

open Lib Relation

open Model (WF Inv Outcome)

variable {ρ : Type} [Preorder ρ] {rank : MutexId → ρ} {b : Boot} {os : List Obs} {k : Kernel}
  {a a' : Model} {t cur : TaskId} {m : MutexId}

/-- A lock call asks for a mutex above all those that its caller owns. One for a mutex that the
caller has already does nothing and may come in any order. -/
def Obs.InOrder (rank : MutexId → ρ) (o : Obs) : Prop :=
  ∀ m, o.entry = .svc (.mutexLock (some m)) → (o.pre.mutex m).owner ≠ o.pre.gCurrent →
    ∀ m', (o.pre.mutex m').owner = o.pre.gCurrent → rank m' < rank m

def Kernel.WaitsFor (k : Kernel) : TaskId → TaskId → Prop :=
  WaitFor (fun m => (k.mutex m).owner) k.Waits

def Model.LocksRanked (rank : MutexId → ρ) (a : Model) : Prop :=
  Ranked rank (fun m => (a.mutex m).owner) fun t m => t ∈ a.list (.mutex m)

theorem new_owner_not_waiting (hi : Inv a) (hc : a.gCurrent = some cur) {e : Entry} {r : ℤ}
    (he : a.Enabled e) (ho : Outcome a cur e r a') (hown : (a'.mutex m).owner = some t)
    (hne : (a.mutex m).owner ≠ some t) (m' : MutexId) : t ∉ a'.list (.mutex m') := by
  cases ho.mutex_step hi hc he m with
  | other _ _ ho _ => exact absurd (ho ▸ hown) hne
  | queue hm _ ho _ => exact absurd (hm.trans (ho.symm.trans hown)) hne
  | free _ ho' _ =>
    obtain rfl := Option.some.inj (ho'.symm.trans hown)
    have hnot : cur ∉ a.list (.mutex m') := hi.running_not_waiting he.1 hc rfl
    cases ho.mutex_step hi hc he m' with
    | other _ _ _ hl => rwa [hl]
    | free _ _ hl => rwa [hl]
    | queue _ _ ho _ => exact absurd (ho.symm.trans ho') (by simp; assumption)
  | pass _ ho' hl' =>
    -- it was the first of its queue, and in no other
    have hhead := ho'.symm.trans hown
    have hmem := List.mem_of_mem_head? hhead
    intro ht
    have hold : t ∈ a.list (.mutex m') := by
      cases ho.mutex_step hi hc he m' with
      | other _ _ _ hl => exact (hl t).1 ht
      | pass _ _ hl => exact List.mem_of_mem_tail (hl ▸ ht)
    obtain rfl := QueueRef.mutex.inj (hi.wf.disjoint hold hmem)
    obtain ⟨l, hl⟩ := List.head?_eq_some_iff.1 hhead
    have hnd := hi.wf.nodup (.mutex m')
    rw [hl, List.nodup_cons] at hnd
    rw [hl', hl] at ht
    exact hnd.1 ht

theorem Model.LocksRanked.step (h : a.LocksRanked rank) (hi : Inv a) (hc : a.gCurrent = some cur)
    {e : Entry} {r : ℤ} (he : a.Enabled e) (ho : Outcome a cur e r a')
    (hord : ∀ m, e = .svc (.mutexLock (some m)) → (a.mutex m).owner ≠ some cur →
      ∀ m', (a.mutex m').owner = some cur → rank m' < rank m) : a'.LocksRanked rank := by
  refine Ranked.step h (fun m t hown => ?_) fun t m ht => ?_
  · by_cases hne : (a.mutex m).owner = some t
    · exact .inl hne
    · exact .inr (new_owner_not_waiting hi hc he ho hown hne)
  · cases ho.mutex_step hi hc he m with
    | other _ _ _ hl => exact .inl ((hl t).1 ht)
    | free _ _ hl => exact .inl (hl ▸ ht)
    | queue hm hoc _ hl =>
      rcases (hl t).1 ht with ht | rfl
      · exact .inl ht
      · refine .inr (hord m rfl ?_)
        rw [hm]
        simpa using hoc
    | pass _ _ hl => exact .inl (List.mem_of_mem_tail (hl ▸ ht))

theorem run_ranked (rank : MutexId → ρ) (h : Run b os k) : ∃ a, Sim k a ∧ Inv a ∧ MutexOk a ∧
    ((∀ o ∈ os, o.InOrder rank) → a.LocksRanked rank) := by
  refine run_induct (P := fun os _ a => MutexOk a ∧ ((∀ o ∈ os, o.InOrder rank) →
    a.LocksRanked rank)) (fun _ hst => ⟨hst.mutexOk, fun _ t m m' hw _ => ?_⟩) ?_ h
  · change t ∈ _ at hw
    rw [hst.list_wait (q := .mutex m) rfl] at hw
    cases hw
  · rintro os k a k' a' cur e r hs hi hc he ho hs' hi' ⟨ok, hp⟩
    refine ⟨ok.step hi hc he ho, fun hord => ?_⟩
    have hlast : (⟨k, e, r, k'⟩ : Obs).InOrder rank := hord _ (by simp)
    refine (hp fun o ho => hord o (by simp [ho])).step hi hc he ho fun m hm hne m' hm' => ?_
    refine hlast m hm ?_ m' ?_
    · change (k.mutex m).owner ≠ k.gCurrent
      rwa [hs.mutex, hs.gCurrent, hc]
    · change (k.mutex m').owner = k.gCurrent
      rw [hs.mutex, hs.gCurrent, hc, hm']

/-- If all tasks lock in the order of one ranking, no task ever waits for itself, and from every
task that waits the way along the owners ends at a task that owns a mutex and can go on: it waits
for none, so it can run, or it sleeps or waits for a semaphore. -/
theorem lock_order_deadlock_free (h : Run b os k) (hord : ∀ o ∈ os, o.InOrder rank) :
    (∀ t, ¬ TransGen k.WaitsFor t t) ∧
    ∀ t m, k.Waits t m → ∃ u, TransGen k.WaitsFor t u ∧ u ∈ k.tasks ∧ (∀ m', ¬ k.Waits u m') ∧
      ((k.tcb u).state = .blocked → (k.tcb u).waitQueue = some .sleep ∨
        ∃ s, (k.tcb u).waitQueue = some (.sem s)) := by
  obtain ⟨a, hs, hi, ok, hr⟩ := run_ranked rank h
  have hranked : Ranked rank (fun m => (k.mutex m).owner) k.Waits := by
    intro t m m' hw ho
    refine hr hord t m m' (hs.waits_iff.1 hw) ?_
    rw [← hs.mutex]
    exact ho
  have hacyc : ∀ t, ¬ TransGen k.WaitsFor t t := by
    refine fun t => hranked.acyclic (fun t m m' h1 h2 => ?_) t
    exact QueueRef.mutex.inj (hi.wf.disjoint (hs.waits_iff.1 h1) (hs.waits_iff.1 h2))
  have hmem : ∀ t u, k.WaitsFor t u → u ∈ k.tasks := by
    rintro t u ⟨m, -, ho⟩
    rw [hs.tasks]
    rw [hs.mutex] at ho
    exact hi.owner m u ho
  -- what a task waits for has an owner
  have hnext : ∀ t m, k.Waits t m → ∃ u, k.WaitsFor t u := by
    intro t m hw
    cases ho : (a.mutex m).owner with
    | none =>
      have := hs.waits_iff.1 hw
      rw [ok.free m ho] at this
      cases this
    | some u => exact ⟨u, m, hw, (congrArg Mutex.owner (congrFun hs.mutex m)).trans ho⟩
  refine ⟨hacyc, fun t m hw => ?_⟩
  obtain ⟨v, hv⟩ := hnext t m hw
  obtain ⟨u, hvu, hend⟩ := exists_end (s := {u | u ∈ k.tasks}) (List.finite_toSet k.tasks) hmem hacyc v
  have hnot : ∀ m', ¬ k.Waits u m' := by
    intro m' hw'
    obtain ⟨w, hw'⟩ := hnext u m' hw'
    exact hend w hw'
  have hu : u ∈ k.tasks := by
    rcases hvu.cases_tail with rfl | ⟨w, -, hw'⟩
    · exact hmem t _ hv
    · exact hmem w u hw'
  refine ⟨u, .head' hv hvu, hu, hnot, fun hb => ?_⟩
  rw [hs.data] at hb ⊢
  rw [hs.tasks] at hu
  obtain ⟨q, hq, hwait⟩ := (hi.wf.ok u hu (by simp)).waiting hb
  cases q with
  | ready p => cases hwait
  | sleep => exact .inl hq
  | sem s => exact .inr ⟨s, hq⟩
  | mutex m' =>
    have hin : u ∈ a.list (.mutex m') := hi.wf.home_mem hu (by simp [Model.home, hb, hq])
    exact absurd (hs.waits_iff.2 hin) (hnot m')

/-- Only mutexes that the history has locked need to be compared. -/
theorem inOrder_of_locked (h : Run b os k)
    (hlt : ∀ o ∈ os, ∀ o' ∈ os, ∀ m ∈ lockTarget o.entry, ∀ m' ∈ lockTarget o'.entry,
      (o.pre.mutex m').owner = o.pre.gCurrent → rank m' < rank m) : ∀ o ∈ os, o.InOrder rank := by
  intro o ho m hm _ m' hown
  obtain ⟨os₁, os₂, hos⟩ := List.append_of_mem ho
  have hpre := (h.split hos).1
  obtain ⟨a, hs, hi⟩ := run_sim hpre
  obtain ⟨c, -, hc⟩ := hi.cur
  have hc' := hs.gCurrent.trans hc
  obtain ⟨os₃, o', os₄, hos₁, ⟨he, -, -⟩, -⟩ := claims_of_owner hpre (hown.trans hc')
  refine hlt o ho o' ?_ m ?_ m' ?_ hown
  · rw [hos, hos₁]
    simp
  · rw [hm]
    rfl
  · rw [he]
    rfl

/-- 192 has mutex 0 and waits for mutex 1, which 128 has. -/
theorem lock_order_deadlock_free_small : ∃ os k, Run (Boot.small [1, 1] 0 0 (by decide)) os k ∧
    (∀ o ∈ os, o.InOrder id) ∧ (k.mutex 0).owner = some 192 ∧ k.Waits 192 1 ∧
    ∃ u, TransGen k.WaitsFor 192 u ∧ ∀ m', ¬ k.Waits u m' := by
  obtain ⟨os, k, hr, ho, hh, hlt⟩ :=
    Boot.play_exists (Boot.small [1, 1] 0 0 (by decide)) 10
      [.pendSV, .svc (.mutexLock (some 0)), .svc .yield, .pendSV, .svc (.mutexLock (some 1)),
        .svc .yield, .pendSV, .svc (.mutexLock (some 1)), .pendSV]
      (fun os k => (k.mutex 0).owner = some 192 ∧ (k.queue (.mutex 1)).head = some 192 ∧
        ∀ o ∈ os, ∀ o' ∈ os, ∀ m ∈ lockTarget o.entry, ∀ m' ∈ lockTarget o'.entry,
          (o.pre.mutex m').owner = o.pre.gCurrent → m' < m)
      (by decide +kernel)
  have hord : ∀ o ∈ os, o.InOrder id := inOrder_of_locked hr hlt
  have hw : k.Waits 192 1 := by
    rw [Kernel.Waits, hh]
    exact .here
  obtain ⟨u, hp, -, hend, -⟩ := (lock_order_deadlock_free hr hord).2 192 1 hw
  exact ⟨os, k, hr, hord, ho, hw, u, hp, hend⟩

end Rtos

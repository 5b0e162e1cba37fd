import Rtos.Proofs.MutualExclusion

/-! The order of the tasks that wait for a mutex. A task enters the queue behind those
that are at least as urgent, and is put so again when it is boosted. Nothing else changes
the priority of a task that waits, so the queue is sorted, and the first waiter, which an
unlock makes the owner, is a most urgent one. -/

namespace Rtos

open Lib

open Model (WF Inv Outcome)

variable {b : Boot} {os : List Obs} {o : Obs} {k k' : Kernel} {a a' : Model} {t u cur w : TaskId}
  {m : MutexId} {e : Entry} {r : ℤ}

/-- `t` waits for `m`. -/
def InLock (k : Kernel) (m : MutexId) (t : TaskId) : Prop :=
  (k.tcb t).state = .blocked ∧ (k.tcb t).waitQueue = some (.mutex m)

instance : Decidable (InLock k m t) := inferInstanceAs (Decidable (_ ∧ _))

theorem Sim.inLock_iff (hs : Sim k a) (hw : WF a) (ht : t ∈ a.tasks) :
    InLock k m t ↔ t ∈ a.list (.mutex m) := by
  rw [InLock, hs.data]
  constructor
  · rintro ⟨h1, h2⟩
    exact hw.home_mem ht (by simp [Model.home, h1, h2])
  · exact hw.of_wait rfl

/-- The entry blocks `t`, or raises its priority. -/
def Obs.Places (o : Obs) (t : TaskId) : Prop :=
  (o.pre.tcb t).state ≠ .blocked ∧ (o.post.tcb t).state = .blocked ∨
    (o.post.tcb t).priority < (o.pre.tcb t).priority

/-- `u` was placed after `t` was for the last time. -/
def PlacedBefore (os : List Obs) (t u : TaskId) : Prop :=
  ∃ os₁ o os₂, os = os₁ ++ o :: os₂ ∧ o.Places u ∧ ∀ o' ∈ o :: os₂, ¬ o'.Places t

theorem PlacedBefore.snoc (h : PlacedBefore os t u) (ho : ¬ o.Places t) :
    PlacedBefore (os ++ [o]) t u := by
  obtain ⟨os₁, o₁, os₂, rfl, h1, h2⟩ := h
  refine ⟨os₁, o₁, os₂ ++ [o], by simp, h1, fun o' ho' => ?_⟩
  rw [← List.cons_append, List.mem_append, List.mem_singleton] at ho'
  rcases ho' with ho' | rfl
  · exact h2 o' ho'
  · exact ho

theorem placedBefore_last (hu : o.Places u) (ht : ¬ o.Places t) : PlacedBefore (os ++ [o]) t u :=
  ⟨os, o, [], rfl, hu, by simpa using ht⟩

/-- `t` may stand in front of `u`. -/
def Stands (os : List Obs) (prio : TaskId → Priority) (t u : TaskId) : Prop :=
  prio t < prio u ∨ prio t = prio u ∧ PlacedBefore os t u

def WaitersSorted (os : List Obs) (a : Model) : Prop :=
  ∀ m, (a.list (.mutex m)).Pairwise (Stands os fun t => (a.tcb t).priority)

theorem Stands.le {prio : TaskId → Priority} (h : Stands os prio t u) : prio t ≤ prio u := by
  rcases h with h | h
  · exact h.le
  · exact h.1.le

theorem pairwise_stands {l l' : List TaskId} {f g : TaskId → Priority} (h : l.Pairwise (Stands os f))
    (hl : l'.Sublist l) (hp : ∀ t ∈ l', g t = f t) (ho : ∀ t ∈ l', ¬ o.Places t) :
    l'.Pairwise (Stands (os ++ [o]) g) := by
  refine (h.sublist hl).imp_of_mem fun {t u} ht hu hst => ?_
  rcases hst with hst | ⟨heq, hst⟩
  · left
    rwa [hp t ht, hp u hu]
  · right
    rw [hp t ht, hp u hu]
    exact ⟨heq, hst.snoc (ho t ht)⟩

/-- A task placed by the last entry goes behind those that are at least as urgent. -/
theorem pairwise_insert {l : List TaskId} {f g : TaskId → Priority} (h : l.Pairwise (Stands os f))
    (hp : ∀ t ∈ l, g t = f t) (ho : ∀ t ∈ l, ¬ o.Places t) (hw : o.Places w) :
    (insertWhile (fun i => f i ≤ g w) w l).Pairwise (Stands (os ++ [o]) g) := by
  refine pairwise_insertWhile_of (fun y hy hle => ?_) (fun y hy hgt => ?_) ?_
    (pairwise_stands h (.refl l) hp ho)
  · have hle : f y ≤ g w := by simpa using hle
    rw [← hp y hy] at hle
    rcases hle.lt_or_eq with hlt | heq
    · exact .inl hlt
    · exact .inr ⟨heq, placedBefore_last hw (ho y hy)⟩
  · have hgt : g w < f y := by simpa using hgt
    left
    rwa [hp y hy]
  · refine h.imp_of_mem fun {y z} _ hz hst hgt => ?_
    have hgt : g w < f y := by simpa using hgt
    left
    rw [hp z hz]
    exact hgt.trans_le hst.le

theorem not_places_of_waiting (hs : Sim k a) (hs' : Sim k' a') (hb : (a.tcb t).state = .blocked)
    (hp : (a'.tcb t).priority = (a.tcb t).priority) : ¬ (⟨k, e, r, k'⟩ : Obs).Places t := by
  rintro (⟨h1, -⟩ | h1)
  · rw [hs.data] at h1
    exact h1 hb
  · rw [hs.data, hs'.data, hp] at h1
    exact lt_irrefl _ h1

/-- A contended lock queues its caller, and may move the owner in the queue it waits in. -/
theorem WaitersSorted.lockBlock (h : WaitersSorted os a) (hok : MutexOk a) (hs : Sim k a) (hi : Inv a)
    (hp : a.pendsv = false) (hc : a.gCurrent = some cur) (hm : (a.mutex m).owner = some w)
    (hwc : w ≠ cur)
    (hb : a' = ((a.boost cur w).block (.mutex m) osWaitForever true).addToOwned cur m)
    (hs' : Sim k' a') : WaitersSorted (os ++ [⟨k, e, r, k'⟩]) a' := by
  have hq : Model.Queued a a' cur w m := hb ▸ hi.queued hc hm
  have hw := hi.owner m w hm
  have hbc : (a.boost cur w).gCurrent = some cur := by rw [Model.boost_toGlobals, hc]
  have hkeep : ∀ {m' t}, t ∈ a.list (.mutex m') → t ≠ w →
      (a'.tcb t).priority = (a.tcb t).priority ∧ ¬ (⟨k, e, r, k'⟩ : Obs).Places t := by
    intro m' t ht hne
    have hpr : (a'.tcb t).priority = (a.tcb t).priority := by rw [hq.priority, if_neg hne]
    exact ⟨hpr, not_places_of_waiting hs hs' (hi.wf.of_wait rfl ht).1 hpr⟩
  intro m'
  by_cases hmm : m' = m
  · -- the owner does not wait for its own mutex, so only the caller moves
    subst hmm
    have hne : ∀ {t}, t ∈ a.list (.mutex m') → t ≠ w := fun ht hx => hok.apart m' w hm (hx ▸ ht)
    have hlist : a'.list (.mutex m') = insertWhile
        (fun i => (a.tcb i).priority ≤ (a'.tcb cur).priority) cur (a.list (.mutex m')) := by
      rw [hb, Model.addToOwned_list, Model.block_list hbc, Model.enqueue_list_insert rfl,
        Model.boost_list_other hi.wf hw rfl fun hin => hne hin rfl, ← hb]
      refine insertWhile_congr fun i hin => ?_
      rw [hq.priority, if_neg hwc.symm, Model.boost_tcb, if_neg fun hx => hne hin hx.1,
        Model.boost_tcb, if_neg fun hx => hwc hx.1.symm]
    have hplace : (⟨k, e, r, k'⟩ : Obs).Places cur := by
      left
      rw [hs.data, hs'.data]
      refine ⟨by rw [hi.running hp cur hc]; simp, ?_⟩
      rw [hb, Model.addToOwned_keeps TcbData.state (fun _ _ => rfl), Model.block_tcb hbc, if_pos rfl]
      rfl
    rw [hlist]
    exact pairwise_insert (h m') (fun t ht => (hkeep ht (hne ht)).1)
      (fun t ht => (hkeep ht (hne ht)).2) hplace
  · have hlist : a'.list (.mutex m') = (a.boost cur w).list (.mutex m') := by
      rw [hb, Model.addToOwned_list, Model.block_list_other hbc _ _ (by simpa using hmm) rfl]
    rw [hlist, Model.boost_list hi.wf hw rfl]
    split_ifs with hx
    · have hne : ∀ {t}, t ∈ (a.list (.mutex m')).erase w → t ≠ w := fun ht hx =>
        (hi.wf.nodup _).not_mem_erase (hx ▸ ht)
      have hg : (a'.tcb w).priority = (a.tcb cur).priority := by
        rw [hq.priority, if_pos rfl, min_eq_left hx.1.le]
      have hplace : (⟨k, e, r, k'⟩ : Obs).Places w := by
        right
        rw [hs.data, hs'.data, hg]
        exact hx.1
      rw [← hg]
      exact pairwise_insert ((h m').sublist List.erase_sublist)
        (fun t ht => (hkeep (List.mem_of_mem_erase ht) (hne ht)).1)
        (fun t ht => (hkeep (List.mem_of_mem_erase ht) (hne ht)).2) hplace
    · -- an owner that waits here is urgent enough already
      have hpr : ∀ t ∈ a.list (.mutex m'), (a'.tcb t).priority = (a.tcb t).priority := by
        intro t ht
        rw [hq.priority]
        split_ifs with ht'
        · subst ht'
          exact min_eq_right (not_lt.1 fun hlt => hx ⟨hlt, ht⟩)
        · rfl
      exact pairwise_stands (h m') (.refl _) hpr fun t ht =>
        not_places_of_waiting hs hs' (hi.wf.of_wait rfl ht).1 (hpr t ht)

theorem WaitersSorted.step (h : WaitersSorted os a) (hok : MutexOk a) (hs : Sim k a) (hi : Inv a)
    (hc : a.gCurrent = some cur) (he : a.Enabled e) (ho : Outcome a cur e r a') (hs' : Sim k' a') :
    WaitersSorted (os ++ [⟨k, e, r, k'⟩]) a' := by
  have hstay : ∀ {m} {l : List TaskId}, l.Sublist (a.list (.mutex m)) →
      (∀ t ∈ l, (a'.tcb t).priority = (a.tcb t).priority) →
      l.Pairwise (Stands (os ++ [⟨k, e, r, k'⟩]) fun t => (a'.tcb t).priority) :=
    fun hl hpr => pairwise_stands (h _) hl hpr fun t ht =>
      not_places_of_waiting hs hs' (hi.wf.of_wait rfl (hl.subset ht)).1 (hpr t ht)
  rcases ho.mutex_cases hi hc with ⟨fr, -⟩ | ⟨m₁, rfl, rfl, -, hb⟩ |
      ⟨m₁, w, rfl, rfl, hm, hwc, hb⟩ | ⟨m₁, found, p, rfl, rfl, hm, -, -, hb⟩
  · intro m
    rw [fr.waiters]
    exact hstay (.refl _) fun t ht => (fr.tcb t (hi.wf.mem_tasks ht)).1
  · intro m
    rw [hb, Model.addToOwned_list, Model.setMutex_list, ← hb]
    refine hstay (.refl _) fun t _ => ?_
    rw [hb, Model.addToOwned_keeps TcbData.priority fun _ _ => rfl]
    rfl
  · exact h.lockBlock hok hs hi he.1 hc hm hwc hb hs'
  · intro m
    have st := hi.settled (m := m₁) (p := p) he.1 hc found
    have hsub : (a'.list (.mutex m)).Sublist (a.list (.mutex m)) := by
      rw [hb, Model.handOff_frame.waiters, st.waiters, st.waiters]
      split_ifs with hmm
      · rw [hmm]
        exact List.tail_sublist _
      · exact .refl _
    refine hstay hsub fun t ht => ?_
    have hne : t ≠ cur := fun hx =>
      hi.running_not_waiting (q := .mutex m) he.1 hc rfl (hx ▸ hsub.subset ht)
    rw [hb, (Model.handOff_frame.tcb t).1, st.priority, if_neg hne]

theorem run_waiters (h : Run b os k) : ∃ a, Sim k a ∧ Inv a ∧ MutexOk a ∧ WaitersSorted os a := by
  refine run_induct (P := fun os _ a => MutexOk a ∧ WaitersSorted os a) (fun _ hst => ?_) ?_ h
  · refine ⟨hst.mutexOk, fun m => ?_⟩
    rw [hst.list_wait rfl]
    exact .nil
  · rintro os k a k' a' cur e r hs hi hc he ho hs' - ⟨ok, hp⟩
    exact ⟨ok.step hi hc he ho, hp.step ok hs hi hc he ho hs'⟩

/-- The waiters of a mutex stand in the order of their priorities, and those of one priority
in the order in which they were placed. So an unlock makes the owner a waiter that none of
the others is more urgent than. -/
theorem waiters_sorted (h : Run b os k) (m : MutexId) :
    (∃ l, Dll.Repr k.links (k.queue (.mutex m)) l ∧ (∀ t, t ∈ l ↔ t ∈ k.tasks ∧ InLock k m t) ∧
      l.Pairwise (Stands os fun t => (k.tcb t).priority)) ∧
    ∀ k', k.Enabled (.svc (.mutexUnlock (some m))) →
      (exec k (.svc (.mutexUnlock (some m)))).Returns (0, k') →
      (∃ u ∈ k.tasks, InLock k m u) →
      ∃ n ∈ k.tasks, (k'.mutex m).owner = some n ∧ InLock k m n ∧
        ∀ u ∈ k.tasks, InLock k m u → (k.tcb n).priority ≤ (k.tcb u).priority := by
  obtain ⟨a, hs, hi, hok, hsort⟩ := run_waiters h
  have hin : ∀ {t}, t ∈ k.tasks → (InLock k m t ↔ t ∈ a.list (.mutex m)) := fun ht =>
    hs.inLock_iff hi.wf (hs.tasks ▸ ht)
  have hmem : ∀ {t}, t ∈ a.list (.mutex m) → t ∈ k.tasks := fun ht =>
    hs.tasks ▸ hi.wf.mem_tasks ht
  have hpr : (fun t => (k.tcb t).priority) = fun t => (a.tcb t).priority :=
    funext fun t => by rw [hs.priority]
  refine ⟨⟨a.list (.mutex m), hs.repr _, fun t => ?_, ?_⟩, fun k' he hr hex => ?_⟩
  · exact ⟨fun ht => ⟨hmem ht, (hin (hmem ht)).2 ht⟩, fun ht => (hin ht.1).1 ht.2⟩
  · rw [hpr]
    exact hsort m
  · obtain ⟨cur, -, hc⟩ := hi.cur
    obtain ⟨a', hs', -, ho⟩ := exec_sim hs hi hc he hr
    obtain ⟨u, hu, hul⟩ := hex
    rw [hin hu] at hul
    cases ho.mutex_step hi hc (hs.globals ▸ he) m with
    | other _ hun _ _ => cases (hun rfl).2
    | pass _ hown _ =>
      obtain ⟨n, l, hl⟩ := List.exists_cons_of_ne_nil (List.ne_nil_of_mem hul)
      have hn : n ∈ a.list (.mutex m) := by simp [hl]
      refine ⟨n, hmem hn, ?_, (hin (hmem hn)).2 hn, fun v hv hvl => ?_⟩
      · rw [hs'.mutex, hown, hl]
        rfl
      · rw [hin hv, hl, List.mem_cons] at hvl
        rw [hs.priority, hs.priority]
        rcases hvl with rfl | hvl
        · exact le_refl _
        · have hp := hsort m
          rw [hl, List.pairwise_cons] at hp
          exact (hp.1 v hvl).le

/-- Two tasks wait, the less urgent one for longer, and the owner unlocks. -/
theorem waiters_sorted_small : ∃ os k k', Run (Boot.small [0, 1, 2] 0 0 (by decide)) os k ∧
    InLock k 0 128 ∧ InLock k 0 192 ∧ (exec k (.svc (.mutexUnlock (some 0)))).Returns (0, k') ∧
    (k'.mutex 0).owner = some 192 ∧ ∃ n, (k'.mutex 0).owner = some n ∧ InLock k 0 n ∧
      ∀ u ∈ k.tasks, InLock k 0 u → (k.tcb n).priority ≤ (k.tcb u).priority := by
  obtain ⟨os, k, hr, o, ho, he, h0, h1, h2, h3, h4⟩ := Boot.play_exists
    (Boot.small [0, 1, 2] 0 0 (by decide)) 10
    [.pendSV, .svc (.delayTicks 2), .pendSV, .svc (.delayTicks 1), .pendSV,
      .svc (.mutexLock (some 0)), .sysTick, .pendSV, .svc (.mutexLock (some 0)), .pendSV, .sysTick,
      .pendSV, .svc (.mutexLock (some 0)), .pendSV, .svc (.mutexUnlock (some 0))]
    (fun os _ => ∃ o ∈ os, o.entry = .svc (.mutexUnlock (some 0)) ∧ o.ret = 0 ∧
      InLock o.pre 0 128 ∧ InLock o.pre 0 192 ∧ (o.post.mutex 0).owner = some 192 ∧
      128 ∈ o.pre.tasks) (by decide +kernel)
  obtain ⟨os₁, os₂, rfl⟩ := List.append_of_mem ho
  obtain ⟨hpre, hen, hret⟩ := hr.split rfl
  rw [he] at hen hret
  rw [h0] at hret
  obtain ⟨n, -, hn⟩ := (waiters_sorted hpre 0).2 o.post hen hret ⟨128, h4, h1⟩
  exact ⟨os₁, o.pre, o.post, hpre, h1, h2, hret, h3, n, hn⟩

end Rtos

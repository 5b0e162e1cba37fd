import Rtos.Proofs.Inheritance
import Rtos.Proofs.Ownership
import Rtos.Proofs.Waiters

/-! The priority an unlock leaves its caller with. It is computed from the caller's list
and the first waiters, so it is right exactly when the mutexes on the list and those the
caller owns have equally urgent waiters. -/

namespace Rtos

open Lib

open Model (WF Inv Outcome)

variable {b : Boot} {os : List Obs} {k k' : Kernel} {a a' : Model} {t cur : TaskId}
  {m : MutexId} {next : MutexId → Option MutexId} {p : Option MutexId} {l : List MutexId}

/-! What the two walks have seen when they end, on any list. -/

theorem ownedFind_cut {prev : Option MutexId} {found : Option (Option MutexId)}
    (h : (ownedFind next m (prev, p)).Returns found) :
    (found = none ∧ ∃ l, Chain next p l ∧ m ∉ l) ∨
      ∃ l, Chain (Function.update next m none) p (l ++ [m]) ∧ found = some (l.getLast?.or prev) := by
  refine Comp.loop_induction (P := fun (s : Option MutexId × Option MutexId) found =>
    (found = none ∧ ∃ l, Chain next s.2 l ∧ m ∉ l) ∨
      ∃ l, Chain (Function.update next m none) s.2 (l ++ [m]) ∧ found = some (l.getLast?.or s.1))
    ?_ ?_ h
  · rintro ⟨prev, _ | c⟩ r hr
    · obtain rfl : none = r := by simpa using hr
      exact .inl ⟨rfl, [], rfl, List.not_mem_nil⟩
    · by_cases hc : c = m
      · subst hc
        obtain rfl : some prev = r := by simpa using hr
        exact .inr ⟨[], ⟨rfl, by simp [Chain]⟩, rfl⟩
      · simp [hc] at hr
  · rintro ⟨prev, _ | c⟩ s' r hr ih
    · simp at hr
    · by_cases hc : c = m
      · simp [hc] at hr
      · obtain rfl : (some c, next c) = s' := by simpa [hc] using hr
        rcases ih with ⟨rfl, l, hl, hm⟩ | ⟨l, hl, rfl⟩
        · exact .inl ⟨rfl, c :: l, ⟨rfl, hl⟩, by simp [Ne.symm hc, hm]⟩
        · refine .inr ⟨c :: l, ⟨rfl, ?_⟩, ?_⟩
          · rw [Function.update_of_ne hc]
            exact hl
          · rw [List.getLast?_cons]
            cases l.getLast? <;> rfl

theorem recomputeWalk_chain {waiter : MutexId → Option Priority} {r r' : Priority}
    (h : (recomputeWalk next waiter (p, r)).Returns r') :
    ∃ l, Chain next p l ∧ r' = l.foldl (fun r m => moreUrgent r (waiter m)) r := by
  refine Comp.loop_induction (P := fun (s : Option MutexId × Priority) r' =>
    ∃ l, Chain next s.1 l ∧ r' = l.foldl (fun r m => moreUrgent r (waiter m)) s.2) ?_ ?_ h
  · rintro ⟨_ | c, r⟩ r' hr
    · obtain rfl : r = r' := by simpa using hr
      exact ⟨[], rfl, rfl⟩
    · simp at hr
  · rintro ⟨_ | c, r⟩ s' r' hr ⟨l, hl, rfl⟩
    · simp at hr
    · obtain rfl : (next c, moreUrgent r (waiter c)) = s' := by simpa using hr
      exact ⟨c :: l, ⟨rfl, hl⟩, rfl⟩

theorem isLeast_moreUrgent (l : List MutexId) (waiter : MutexId → Option Priority) (r : Priority) :
    IsLeast (insert r {q | ∃ m ∈ l, waiter m = some q})
      (l.foldl (fun r m => moreUrgent r (waiter m)) r) := by
  induction l generalizing r with
  | nil => simp
  | cons x l ih =>
    have hmin : ∀ q, waiter x = some q → moreUrgent r (waiter x) = min q r := by
      intro q hq
      simp only [hq, moreUrgent]
      split_ifs with hlt
      · exact (min_eq_left hlt.le).symm
      · exact (min_eq_right (not_lt.1 hlt)).symm
    obtain ⟨hmem, hlow⟩ := ih (moreUrgent r (waiter x))
    rw [List.foldl_cons]
    constructor
    · rcases hmem with hmem | ⟨m, hm, hq⟩
      · rw [hmem]
        cases hx : waiter x with
        | none => exact .inl rfl
        | some q =>
          rw [← hx, hmin q hx]
          rcases min_choice q r with hc | hc
          · exact .inr ⟨x, by simp, by rw [hc, hx]⟩
          · exact .inl hc
      · exact .inr ⟨m, by simp [hm], hq⟩
    · have hle := hlow (.inl rfl)
      rintro q (rfl | ⟨m, hm, hq⟩)
      · refine hle.trans ?_
        cases hx : waiter x with
        | none => exact le_refl _
        | some q' =>
          rw [← hx, hmin q' hx]
          exact min_le_right _ _
      · rcases List.mem_cons.1 hm with rfl | hm
        · refine hle.trans ?_
          rw [hmin q hq]
          exact min_le_left _ _
        · exact hlow (.inr ⟨m, hm, hq⟩)

/-- The mutexes that are left on a list once `m` has been taken off. Where the list runs
into a circle through `m`, that is not all but `m`. -/
def LeftOn (next : MutexId → Option MutexId) (head : Option MutexId) (m m' : MutexId) : Prop :=
  Visits next head m' ∧ (m' = m → Visits next (next m) m)

theorem Model.dropOwned_left {found : Option (Option MutexId)}
    (hf : (ownedFind a.nextMutex m (none, (a.tcb t).ownedMutexes)).Returns found)
    (hl : Chain (a.dropOwned t m found).nextMutex ((a.dropOwned t m found).tcb t).ownedMutexes l)
    (m' : MutexId) : m' ∈ l ↔ LeftOn a.nextMutex (a.tcb t).ownedMutexes m m' := by
  rcases ownedFind_cut hf with ⟨rfl, l₁, hl₁, hm⟩ | ⟨l₁, hl₁, rfl⟩
  · rw [hl.unique hl₁, LeftOn, hl₁.visits_iff]
    exact ⟨fun h => ⟨h, fun hx => absurd (hx ▸ h) hm⟩, fun h => h.1⟩
  · rw [Option.or_none] at hl
    rcases List.eq_nil_or_concat' l₁ with rfl | ⟨l₀, y, rfl⟩
    · change Chain (a.dropOwned t m (some none)).nextMutex
        ((a.dropOwned t m (some none)).tcb t).ownedMutexes l at hl
      rw [dropOwned_head.1, dropOwned_head.2] at hl
      exact (show Chain _ _ ([] ++ [m]) from hl₁).mem_without hl
    · have hy : y ≠ m := by
        rintro rfl
        have hnd := hl₁.nodup
        simp [List.nodup_append] at hnd
      rw [List.getLast?_concat, dropOwned_behind.1, dropOwned_behind.2,
        Function.update_comm hy] at hl
      have hl₁' := hl₁
      rw [List.append_assoc] at hl₁'
      obtain ⟨l₂, rfl, h2⟩ := hl₁'.detour hl
      have := hl₁.mem_without (y := m') h2
      rwa [List.append_assoc] at this

theorem Model.unlock_least {found : Option (Option MutexId)} {p : Priority}
    (hf : (ownedFind a.nextMutex m (none, (a.tcb t).ownedMutexes)).Returns found)
    (hp : ((a.dropOwned t m found).recomputePriority t).Returns p) :
    IsLeast (insert (a.tcb t).basePriority {q | ∃ m' w,
      LeftOn a.nextMutex (a.tcb t).ownedMutexes m m' ∧ (a.list (.mutex m')).head? = some w ∧
        (a.tcb w).priority = q}) p := by
  obtain ⟨l, hl, rfl⟩ := recomputeWalk_chain hp
  obtain ⟨v, htcb⟩ := dropOwned_tcb (a := a) (t := t) (m := m) found
  have hpr : ∀ w, ((a.dropOwned t m found).tcb w).priority = (a.tcb w).priority := by
    intro w
    rw [htcb, Function.update_apply]
    split_ifs with hw
    · rw [hw]
    · rfl
  have hb : ((a.dropOwned t m found).tcb t).basePriority = (a.tcb t).basePriority := by
    rw [htcb, Function.update_self]
  have h := isLeast_moreUrgent l (fun m' =>
    ((a.dropOwned t m found).list (.mutex m')).head?.map fun w =>
      ((a.dropOwned t m found).tcb w).priority) ((a.dropOwned t m found).tcb t).basePriority
  rw [hb] at h
  convert h using 2
  ext q
  simp only [Set.mem_ofPred_eq, dropOwned_list, hpr, Option.map_eq_some_iff]
  refine exists_congr fun m' => ?_
  rw [dropOwned_left hf hl m']
  exact ⟨fun ⟨w, h1, h2⟩ => ⟨h1, w, h2⟩, fun ⟨h1, w, h2⟩ => ⟨w, h1, h2⟩⟩

theorem isLeast_insert_iff {ι : Type} [LinearOrder ι] {r x : ι} {S T : Set ι}
    (h : IsLeast (insert r T) x) : IsLeast (insert r S) x ↔
      (∀ s ∈ S, s < r → ∃ y ∈ T, y ≤ s) ∧ ∀ y ∈ T, y < r → ∃ s ∈ S, s ≤ y := by
  obtain ⟨hmem, hlow⟩ := h
  constructor
  · rintro ⟨hmem', hlow'⟩
    refine ⟨fun s hs hlt => ?_, fun y hy hlt => ?_⟩
    · have hx := hlow' (Set.mem_insert_of_mem r hs)
      rcases hmem with rfl | hmem
      · exact absurd hx (not_le.2 hlt)
      · exact ⟨x, hmem, hx⟩
    · have hx := hlow (Set.mem_insert_of_mem r hy)
      rcases hmem' with rfl | hmem'
      · exact absurd hx (not_le.2 hlt)
      · exact ⟨x, hmem', hx⟩
  · rintro ⟨h1, h2⟩
    have hbound : ∀ s ∈ S, x ≤ s := by
      intro s hs
      rcases lt_or_ge s r with hlt | hge
      · obtain ⟨y, hy, hle⟩ := h1 s hs hlt
        exact (hlow (Set.mem_insert_of_mem r hy)).trans hle
      · exact (hlow (Set.mem_insert r T)).trans hge
    refine ⟨?_, fun s hs => ?_⟩
    · rcases hmem with rfl | hmem
      · exact Set.mem_insert x S
      · rcases lt_or_ge x r with hlt | hge
        · obtain ⟨s, hs, hle⟩ := h2 x hmem hlt
          rw [le_antisymm (hbound s hs) hle]
          exact Set.mem_insert_of_mem r hs
        · rw [le_antisymm (hlow (Set.mem_insert r T)) hge]
          exact Set.mem_insert r S
    · rcases hs with rfl | hs
      · exact hlow (Set.mem_insert s T)
      · exact hbound s hs

def Kernel.waiting (k : Kernel) (P : MutexId → Prop) : Set Priority :=
  {q | ∃ m u, P m ∧ k.Waits u m ∧ (k.tcb u).priority = q}

def Kernel.Keeps (k : Kernel) (t : TaskId) (m m' : MutexId) : Prop :=
  m' ≠ m ∧ (k.mutex m').owner = some t

def Kernel.Lists (k : Kernel) (t : TaskId) (m m' : MutexId) : Prop :=
  LeftOn k.nextMutex (k.tcb t).ownedMutexes m m'

def Kernel.Matched (k : Kernel) (t : TaskId) (P Q : MutexId → Prop) : Prop :=
  ∀ q ∈ k.waiting P, q < (k.tcb t).basePriority → ∃ q' ∈ k.waiting Q, q' ≤ q

/-- The priority an unlock computes from the first waiters is the most urgent of all. -/
theorem Sim.unlock_least (hs : Sim k a) (hsort : WaitersSorted os a)
    {found : Option (Option MutexId)} {p : Priority}
    (hf : (ownedFind a.nextMutex m (none, (a.tcb t).ownedMutexes)).Returns found)
    (hp : ((a.dropOwned t m found).recomputePriority t).Returns p) :
    IsLeast (insert (k.tcb t).basePriority (k.waiting (k.Lists t m))) p := by
  obtain ⟨hmem, hlow⟩ := Model.unlock_least hf hp
  have hlist : ∀ m', k.Lists t m m' ↔ LeftOn a.nextMutex (a.tcb t).ownedMutexes m m' := by
    intro m'
    rw [Kernel.Lists, hs.nextMutex, hs.data]
  constructor
  · rw [hs.data]
    refine hmem.imp id ?_
    rintro ⟨m', w, hl, hw, rfl⟩
    refine ⟨m', w, (hlist m').2 hl, hs.waits_iff.2 (List.mem_of_mem_head? hw), ?_⟩
    rw [hs.data]
  · rintro q (rfl | ⟨m', u, hl, hu, rfl⟩)
    · rw [hs.data]
      exact hlow (Set.mem_insert _ _)
    · rw [hs.waits_iff] at hu
      obtain ⟨w, l', hl'⟩ := List.exists_cons_of_ne_nil (List.ne_nil_of_mem hu)
      have hle : (a.tcb w).priority ≤ (a.tcb u).priority := by
        have hp := hsort m'
        rw [hl'] at hp hu
        rcases List.mem_cons.1 hu with rfl | hu
        · exact le_refl _
        · exact ((List.pairwise_cons.1 hp).1 u hu).le
      rw [hs.data]
      refine le_trans (hlow (Set.mem_insert_of_mem _ ?_)) hle
      exact ⟨m', w, (hlist m').1 hl, by rw [hl']; rfl, rfl⟩

theorem Outcome.unlocked (ho : Outcome a cur (.svc (.mutexUnlock (some m))) 0 a') :
    ∃ found p, (a.mutex m).owner = some cur ∧
      (ownedFind a.nextMutex m (none, (a.tcb cur).ownedMutexes)).Returns found ∧
      ((a.dropOwned cur m found).recomputePriority cur).Returns p ∧
      a' = ((a.dropOwned cur m found).setPriority cur p).handOff m := by
  cases ho with
  | unlock hm hf hp => exact ⟨_, _, hm, hf, hp, rfl⟩

/-- After an unlock the caller has the most urgent of its base priority and the priorities
of the tasks that wait for its other mutexes, exactly when those waiters and the ones of
the mutexes left on its list match. -/
theorem unlock_restores (h : Run b os k) (he : k.Enabled (.svc (.mutexUnlock (some m))))
    (hc : k.gCurrent = some t) (hr : (exec k (.svc (.mutexUnlock (some m)))).Returns (0, k')) :
    IsLeast (insert (k'.tcb t).basePriority (k'.waiting fun m' => (k'.mutex m').owner = some t))
        (k'.tcb t).priority ↔
      k.Matched t (k.Keeps t m) (k.Lists t m) ∧ k.Matched t (k.Lists t m) (k.Keeps t m) := by
  obtain ⟨a, hs, hi, -, hsort⟩ := run_waiters h
  rw [hs.gCurrent] at hc
  obtain ⟨a', hs', -, ho⟩ := exec_sim hs hi hc he hr
  obtain ⟨found, p, hm, hf, hp, hb⟩ := Outcome.unlocked ho
  have hrun : a.pendsv = false := by
    rw [← hs.globals]
    exact he.1
  have st := hi.settled (m := m) (p := p) hrun hc found
  have fr := Model.handOff_frame (a := (a.dropOwned t m found).setPriority t p) (m := m)
  rw [← hb] at fr
  have hnot : ∀ m', t ∉ a.list (.mutex m') := fun m' => hi.running_not_waiting hrun hc rfl
  have hown : ∀ m', (k'.mutex m').owner = some t ↔ k.Keeps t m m' := by
    intro m'
    rw [Kernel.Keeps, hs'.mutex, hs.mutex, fr.owner, st.owner, st.waiters]
    split_ifs with hx
    · exact ⟨fun hh => absurd (List.mem_of_mem_head? hh) (hnot m), fun hh => absurd hx hh.1⟩
    · exact ⟨fun hh => ⟨hx, hh⟩, fun hh => hh.2⟩
  have hprio : ∀ u, (k'.tcb u).priority = if u = t then p else (k.tcb u).priority := by
    intro u
    rw [hs'.data, hs.data, (fr.tcb u).1, st.priority]
  have hwait : (k'.waiting fun m' => (k'.mutex m').owner = some t) = k.waiting (k.Keeps t m) := by
    ext q
    refine exists_congr fun m' => exists_congr fun u => ?_
    change (k'.mutex m').owner = some t ∧ _ ↔ _
    rw [hown, hs'.waits_iff, hs.waits_iff, fr.waiters, st.waiters, st.waiters, hprio]
    refine and_congr_right fun hk => ?_
    rw [if_neg hk.1]
    refine and_congr_right fun hu => ?_
    have hne : u ≠ t := fun hx => hnot m' (hx ▸ hu)
    rw [if_neg hne]
  have hbase : (k'.tcb t).basePriority = (k.tcb t).basePriority := by
    rw [hs'.data, hs.data, (fr.tcb t).2.1, st.basePriority]
  rw [hwait, hbase, hprio, if_pos rfl]
  exact isLeast_insert_iff (hs.unlock_least hsort hf hp)

/-- The second of two mutexes is released, and the boost by the waiter of the first one stays. -/
theorem unlock_restores_small : ∃ os k k', Run (Boot.small [0, 2] 0 0 (by decide)) os k ∧
    (exec k (.svc (.mutexUnlock (some 0)))).Returns (0, k') ∧ (k'.tcb 128).priority = 0 ∧
    IsLeast (insert (k'.tcb 128).basePriority
      (k'.waiting fun m' => (k'.mutex m').owner = some 128)) (k'.tcb 128).priority := by
  obtain ⟨os, k, hr, o, ho, he, h0, hc, hown, hhead, hprio, hlist, hpost⟩ := Boot.play_exists
    (Boot.small [0, 2] 0 0 (by decide)) 10
    [.pendSV, .svc (.delayTicks 1), .pendSV, .svc (.mutexLock (some 0)), .svc (.mutexLock (some 1)),
      .sysTick, .pendSV, .svc (.mutexLock (some 1)), .pendSV, .svc (.mutexUnlock (some 0))]
    (fun os _ => ∃ o ∈ os, o.entry = .svc (.mutexUnlock (some 0)) ∧ o.ret = 0 ∧
      o.pre.gCurrent = some 128 ∧ (o.pre.mutex 1).owner = some 128 ∧
      (o.pre.queue (.mutex 1)).head = some 192 ∧ (o.pre.tcb 192).priority = 0 ∧
      (o.pre.tcb 128).ownedMutexes = some 1 ∧ (o.post.tcb 128).priority = 0) (by decide +kernel)
  obtain ⟨os₁, os₂, rfl⟩ := List.append_of_mem ho
  obtain ⟨hpre, hen, hret⟩ := hr.split rfl
  rw [he] at hen hret
  rw [h0] at hret
  have hwait : o.pre.Waits 192 1 := by
    rw [Kernel.Waits, hhead]
    exact .here
  have hlists : o.pre.Lists 128 0 1 := by
    rw [Kernel.Lists, hlist]
    exact ⟨.here, fun hx => absurd hx (by decide)⟩
  have hkeeps : o.pre.Keeps 128 0 1 := ⟨by decide, hown⟩
  refine ⟨os₁, o.pre, o.post, hpre, hret, hpost, ?_⟩
  refine (unlock_restores hpre hen hc hret).2 ⟨fun q _ _ => ?_, fun q _ _ => ?_⟩
  · exact ⟨0, ⟨1, 192, hlists, hwait, hprio⟩, Fin.zero_le q⟩
  · exact ⟨0, ⟨1, 192, hkeeps, hwait, hprio⟩, Fin.zero_le q⟩

/-- Two mutexes of one owner are waited for. A lock of the one cuts the other off the
owner's list, so the release of the first one drops both boosts. -/
theorem unlock_restores_fails : ∃ os k k', Run (Boot.small [0, 1, 2] 0 0 (by decide)) os k ∧
    k.Enabled (.svc (.mutexUnlock (some 1))) ∧ k.gCurrent = some 64 ∧
    (exec k (.svc (.mutexUnlock (some 1)))).Returns (0, k') ∧ (k'.tcb 64).priority = 2 ∧
    ¬ IsLeast (insert (k'.tcb 64).basePriority
      (k'.waiting fun m' => (k'.mutex m').owner = some 64)) (k'.tcb 64).priority := by
  obtain ⟨os, k, hr, o, ho, he, h0, hc, hown, hhead, hprio, hpost⟩ := Boot.play_exists
    (Boot.small [0, 1, 2] 0 0 (by decide)) 10
    [.pendSV, .svc (.delayTicks 2), .pendSV, .svc (.delayTicks 1), .pendSV,
      .svc (.mutexLock (some 0)), .svc (.mutexLock (some 1)), .sysTick, .pendSV,
      .svc (.mutexLock (some 1)), .pendSV, .sysTick, .pendSV, .svc (.mutexLock (some 0)), .pendSV,
      .svc (.mutexUnlock (some 1))]
    (fun os _ => ∃ o ∈ os, o.entry = .svc (.mutexUnlock (some 1)) ∧ o.ret = 0 ∧
      o.pre.gCurrent = some 64 ∧ (o.post.mutex 0).owner = some 64 ∧
      (o.post.queue (.mutex 0)).head = some 192 ∧ (o.post.tcb 192).priority = 0 ∧
      (o.post.tcb 64).priority = 2) (by decide +kernel)
  obtain ⟨os₁, os₂, rfl⟩ := List.append_of_mem ho
  obtain ⟨hpre, hen, hret⟩ := hr.split rfl
  rw [he] at hen hret
  rw [h0] at hret
  refine ⟨os₁, o.pre, o.post, hpre, hen, hc, hret, hpost, fun hleast => ?_⟩
  have hwait : o.post.Waits 192 0 := by
    rw [Kernel.Waits, hhead]
    exact .here
  have := hleast.2 (Set.mem_insert_of_mem _ ⟨0, 192, hown, hwait, hprio⟩)
  rw [hpost] at this
  exact absurd this (by decide)

end Rtos

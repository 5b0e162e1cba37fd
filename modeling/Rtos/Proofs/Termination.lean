import Rtos.Proofs.Ownership

/-! Which entries end. Every walk but those over the lists of owned mutexes is over a
list of the model, so an entry can only hang in an unlock, on a list that does not end;
and a list that does not end comes from a lock that put a mutex on it twice. -/

namespace Rtos

open Lib

open Model (WF Inv Outcome MutexFrame)

variable {b : Boot} {os : List Obs} {o : Obs} {k : Kernel} {a a' : Model} {t u cur : TaskId}
  {m x : MutexId} {l l₁ l₂ : List MutexId} {e : Entry}

namespace Model

/-- The lists of owned mutexes end, whatever is on them. -/
def Ended (a : Model) : Prop :=
  ∀ t ∈ a.tasks, ∃ l, Chain a.nextMutex (a.tcb t).ownedMutexes l

theorem Ended.frame (h : Ended a) (fr : MutexFrame a a') : Ended a' := by
  intro t ht
  by_cases hta : t ∈ a.tasks
  · rw [fr.nextMutex, (fr.tcb t hta).2.2]
    exact h t hta
  · rw [((fr.new t ht).resolve_left hta).1]
    exact ⟨[], rfl⟩

/-- A lock that returns 0 puts the mutex in front of the caller's list, also if it blocks. -/
structure Linked (a a' : Model) (cur : TaskId) (m : MutexId) : Prop where
  tasks : a'.tasks = a.tasks
  nextMutex : a'.nextMutex = Function.update a.nextMutex m (a.tcb cur).ownedMutexes
  ownedMutexes : ∀ u, (a'.tcb u).ownedMutexes = if u = cur then some m else (a.tcb u).ownedMutexes

theorem Outcome.linked {r : ℤ} (ho : Outcome a cur (.svc (.mutexLock (some m))) r a') (hi : Inv a)
    (hc : a.gCurrent = some cur) (hm : (a.mutex m).owner ≠ some cur) : Linked a a' cur m := by
  cases ho with
  | lockOwn h0 => exact absurd h0 hm
  | lockFree _ =>
    refine ⟨rfl, ?_, fun u => ?_⟩
    · rw [addToOwned_next, setOwner_next]
      rfl
    · rw [addToOwned_tcb]
      split_ifs <;> rfl
  | lockBlock h0 _ =>
    have hq := hi.queued hc h0
    refine ⟨hq.tasks, funext fun m' => ?_, hq.ownedMutexes⟩
    rw [Function.update_apply]
    exact hq.nextMutex m'

theorem Ended.link (h : Ended a) (hcur : cur ∈ a.tasks)
    (hm : ¬ Visits a.nextMutex (a.tcb cur).ownedMutexes m) (hlk : Linked a a' cur m) : Ended a' := by
  intro t ht
  obtain ⟨l, hl⟩ := h cur hcur
  rw [hl.visits_iff] at hm
  rw [hlk.nextMutex, hlk.ownedMutexes]
  split_ifs with htc
  · exact ⟨m :: l, hl.push hm⟩
  · obtain ⟨l', hl'⟩ := h t (hlk.tasks ▸ ht)
    exact hl'.redirect hl hm

theorem Ended.drop (h : Ended a)
    (hl : Chain a.nextMutex (a.tcb cur).ownedMutexes (l₁ ++ m :: l₂)) :
    Ended (a.dropOwned cur m (some l₁.getLast?)) := by
  intro t ht
  by_cases htc : t = cur
  · subst htc
    exact ⟨l₁ ++ l₂, dropOwned_chain hl⟩
  · obtain ⟨l, ht⟩ := h t (by simpa using ht)
    obtain ⟨w, htcb⟩ := dropOwned_tcb (a := a) (t := cur) (m := m) (some l₁.getLast?)
    rw [htcb, Function.update_of_ne htc]
    cases hlast : l₁.getLast? with
    | none =>
      rw [dropOwned_head.1]
      exact ht.redirect .nil (by simp)
    | some y =>
      have hy : y ∉ l₂ := by
        intro hy
        have := (List.nodup_append'.1 hl.nodup).2.2 (List.mem_of_getLast? hlast)
        simp [hy] at this
      rw [dropOwned_behind.1]
      obtain ⟨l', hl'⟩ := ht.redirect hl.drop.2 hy
      exact hl'.redirect .nil (by simp)

theorem Ended.find (h : Ended a) (hcur : cur ∈ a.tasks) (m : MutexId) : ∃ found,
    (ownedFind (fun c => (a.mutex c).nextMutex) m (none, (a.tcb cur).ownedMutexes)).Returns found ∧
    Ended (a.dropOwned cur m found) := by
  obtain ⟨l, hl⟩ := h cur hcur
  by_cases hm : m ∈ l
  · obtain ⟨l₁, l₂, rfl⟩ := List.append_of_mem hm
    refine ⟨some l₁.getLast?, ?_, h.drop hl⟩
    have := ownedFind_found none hl
    rwa [Option.or_none] at this
  · exact ⟨none, ownedFind_absent none hl hm, h⟩

theorem Ended.recompute (h : Ended a) (ht : t ∈ a.tasks) : ∃ p, (a.recomputePriority t).Returns p := by
  obtain ⟨l, hl⟩ := h t ht
  exact ⟨_, recomputeWalk_returns hl _⟩

theorem Ended.step (h : Ended a) (hi : Inv a) (hc : a.gCurrent = some cur) {r : ℤ}
    (ho : Outcome a cur e r a') (hm : ∀ m, e = .svc (.mutexLock (some m)) →
      (a.mutex m).owner ≠ some cur → ¬ Visits a.nextMutex (a.tcb cur).ownedMutexes m) : Ended a' := by
  have hcur := hi.cur_mem hc
  rcases ho.mutex_cases hi hc with ⟨fr, -⟩ | ⟨m, rfl, -, hfree, -⟩ | ⟨m, o, rfl, -, hown, hoc, -⟩ |
    ⟨m, found, p, rfl, -, hown, hf, -, rfl⟩
  · exact h.frame fr
  · have hne : (a.mutex m).owner ≠ some cur := by rw [hfree]; nofun
    exact h.link hcur (hm m rfl hne) (ho.linked hi hc hne)
  · have hne : (a.mutex m).owner ≠ some cur := by rw [hown]; simpa using hoc
    exact h.link hcur (hm m rfl hne) (ho.linked hi hc hne)
  · obtain ⟨htasks, hnext, howned⟩ := released_lists (a := a) (m := m) cur found p
    obtain ⟨found', hf', hE⟩ := h.find hcur m
    obtain rfl := hf.unique hf'
    intro t ht
    rw [hnext, howned]
    exact hE t (by simpa [htasks] using ht)

theorem Inv.exec_halts (h : Inv a) (hE : Ended a) (e : Entry) : (a.exec e).Halts := by
  obtain ⟨cur, hcur, hc⟩ := h.cur
  have hpure : ∀ x : ℤ × Model, (pure x : Comp (ℤ × Model)).Halts := fun x => ⟨x, by simp⟩
  cases e with
  | sysTick => exact hpure _
  | pendSV => exact hpure _
  | svc c =>
    cases c with
    | mutexLock mutex =>
      cases mutex with
      | none => exact hpure _
      | some m =>
        cases ho : (a.mutex m).owner with
        | none => exact ⟨_, (mutexLock_returns h hc).2 (.inl ⟨ho, rfl, rfl⟩)⟩
        | some o =>
          by_cases hoc : o = cur
          · exact ⟨_, (mutexLock_returns h hc).2 (.inr (.inl ⟨hoc ▸ ho, rfl, rfl⟩))⟩
          · exact ⟨_, (mutexLock_returns h hc).2 (.inr (.inr ⟨o, ho, hoc, rfl, rfl⟩))⟩
    | mutexUnlock mutex =>
      cases mutex with
      | none => exact hpure _
      | some m =>
        by_cases ho : (a.mutex m).owner = some cur
        · obtain ⟨found, hf, hE'⟩ := hE.find hcur m
          obtain ⟨p, hp⟩ := hE'.recompute (t := cur) (by simpa using hcur)
          exact ⟨_, (mutexUnlock_returns hc).2 (.inr ⟨ho, rfl, found, p, hf, hp, rfl⟩)⟩
        · exact ⟨_, (mutexUnlock_returns hc).2 (.inl ⟨ho, rfl, rfl⟩)⟩
    | yield => exact hpure _
    | delayTicks ticks => exact hpure _
    | semTake s => exact hpure _
    | semGive s => exact hpure _
    | taskCreate args => exact hpure _
    | unrecognized => exact hpure _

/-- Behind the released mutex the list runs into a mutex that is its own successor. -/
theorem unlock_hangs (hc : a.gCurrent = some cur) (hm : (a.mutex m).owner = some cur)
    (ho : (a.tcb cur).ownedMutexes = some m) (hn : a.nextMutex m = some x) (hx : a.nextMutex x = some x)
    (hne : x ≠ m) : ¬ (a.exec (.svc (.mutexUnlock (some m)))).Halts := by
  rintro ⟨⟨r, b⟩, hr⟩
  rcases (mutexUnlock_returns hc).1 hr with ⟨h0, -⟩ | ⟨-, -, found, p, hf, hp, -⟩
  · exact h0 hm
  · rw [ho, ownedFind, Comp.returns_loop] at hf
    obtain rfl : some none = found := by simpa using hf
    rw [recomputePriority, dropOwned_head.2, hn] at hp
    refine Comp.not_halts_loop (fun s : Option MutexId × Priority => s.1 = some x) ?_ rfl hp.halts
    rintro ⟨-, q⟩ rfl
    refine ⟨_, Comp.returns_pure.2 rfl, ?_⟩
    change (a.dropOwned cur m (some none)).nextMutex x = some x
    rw [dropOwned_head.1, Function.update_of_ne hne, hx]

end Model

/-- A lock of a mutex that is not the caller's but is on the caller's list. -/
def Obs.Relinks (o : Obs) : Prop :=
  ∃ m t, o.entry = .svc (.mutexLock (some m)) ∧ o.pre.gCurrent = some t ∧
    (o.pre.mutex m).owner ≠ some t ∧ Visits o.pre.nextMutex (o.pre.tcb t).ownedMutexes m

theorem Started.ended (h : Started b a) : Model.Ended a := by
  intro t ht
  obtain ⟨l, hl, -⟩ := h.owned.lists t ht
  exact ⟨l, hl⟩

theorem run_ended (h : Run b os k) :
    ∃ a, Sim k a ∧ Inv a ∧ ((∀ o ∈ os, ¬ o.Relinks) → Model.Ended a) := by
  refine run_induct (P := fun os _ a => (∀ o ∈ os, ¬ o.Relinks) → Model.Ended a)
    (fun _ hst _ => hst.ended) ?_ h
  intro os k a k' a' cur e r hs hi hc he ho hs' hi' hp hnr
  refine (hp fun o ho' => hnr o (by simp [ho'])).step hi hc ho fun m hm hne hv => ?_
  refine hnr ⟨k, e, r, k'⟩ (by simp) ⟨m, cur, hm, hs.gCurrent.trans hc, ?_, ?_⟩
  · change (k.mutex m).owner ≠ _
    rwa [hs.mutex]
  · change Visits k.nextMutex (k.tcb cur).ownedMutexes m
    rwa [hs.nextMutex, hs.data]

/-- Every entry ends, in every state of a run without a relinking lock. -/
theorem entries_halt (h : Run b os k) (hn : ∀ o ∈ os, ¬ o.Relinks) (he : k.Enabled e) :
    (exec k e).Halts := by
  obtain ⟨a, hs, hi, hp⟩ := run_ended h
  have he' : a.Enabled e := hs.globals ▸ he
  exact (exec_refines hs hi he').halts_iff.2 (hi.exec_halts (hp hn) e)

/-- The owner of a contended mutex can unlock it. -/
theorem entries_halt_small : ∃ os k, Run (Boot.small [2, 2] 0 0 (by decide)) os k ∧
    (∀ o ∈ os, ¬ o.Relinks) ∧ (k.mutex 0).owner = k.gCurrent ∧
    (k.tcb 128).waitQueue = some (.mutex 0) ∧ (exec k (.svc (.mutexUnlock (some 0)))).Halts := by
  obtain ⟨os, k, hr, he, ho, hw, hno⟩ := Boot.play_exists (Boot.small [2, 2] 0 0 (by decide)) 10
    [.pendSV, .svc (.mutexLock (some 0)), .svc .yield, .pendSV, .svc (.mutexLock (some 0)),
      .pendSV]
    (fun os k => k.Enabled (.svc (.mutexUnlock (some 0))) ∧ (k.mutex 0).owner = k.gCurrent ∧
      (k.tcb 128).waitQueue = some (.mutex 0) ∧ ∀ o ∈ os, (lockTarget o.entry).isSome →
        (o.pre.gCurrent.bind fun t => (o.pre.tcb t).ownedMutexes) = none) (by decide +kernel)
  have hnr : ∀ o ∈ os, ¬ o.Relinks := by
    rintro o ho ⟨m, t, hl, hc, -, hv⟩
    have := hno o ho (by rw [hl]; rfl)
    rw [hc, Option.bind_some] at this
    rw [this] at hv
    cases hv
  exact ⟨os, k, hr, hnr, ho, hw, entries_halt hr hnr he⟩

/-- The lists end along a run exactly when it has no relinking lock. -/
theorem lists_end_iff (h : Run b os k) : (∀ os₁ k₁, os₁ <+: os → Run b os₁ k₁ → ∀ t ∈ k₁.tasks,
    ∃ l, Chain k₁.nextMutex (k₁.tcb t).ownedMutexes l) ↔ ∀ o ∈ os, ¬ o.Relinks := by
  constructor
  · rintro hall o ho ⟨m, t, hlock, hcur, hm, hv⟩
    obtain ⟨os₁, os₂, rfl⟩ := List.append_of_mem ho
    obtain ⟨hr, he, hret⟩ := h.split rfl
    obtain ⟨a, hs, hi⟩ := run_sim hr
    rw [hs.gCurrent] at hcur
    obtain ⟨a', hs', -, hout⟩ := exec_sim hs hi hcur he hret
    rw [hs.mutex] at hm
    rw [hs.nextMutex, hs.data] at hv
    rw [hlock] at hout
    have hlk := hout.linked hi hcur hm
    have ht : t ∈ o.post.tasks := by
      rw [hs'.tasks, hlk.tasks]
      exact hi.cur_mem hcur
    obtain ⟨l, hl⟩ := hall (os₁ ++ [o]) o.post ⟨os₂, by simp⟩ (hr.snoc he hret) t ht
    rw [hs'.nextMutex, hs'.data, hlk.nextMutex, hlk.ownedMutexes, if_pos rfl] at hl
    exact hv.endless hl
  · intro hn os₁ k₁ hpre hr t ht
    obtain ⟨a, hs, -, hE⟩ := run_ended hr
    rw [hs.nextMutex, hs.data]
    exact hE (fun o ho => hn o (hpre.subset ho)) t (hs.tasks ▸ ht)

/-- A mutex becomes its own successor, and an unlock later walks over it for ever. -/
theorem entries_hang : ∃ os k, Run (Boot.small [2, 2] 0 0 (by decide)) os k ∧
    k.Enabled (.svc (.mutexUnlock (some 3))) ∧ ¬ (exec k (.svc (.mutexUnlock (some 3)))).Halts := by
  obtain ⟨os, k, hr, he, hc, hm, ho, hn, hx⟩ := Boot.play_exists
    (Boot.small [2, 2] 0 0 (by decide)) 10
    [.pendSV, .svc (.mutexLock (some 1)), .svc .yield, .pendSV, .svc (.mutexLock (some 2)),
      .svc (.mutexLock (some 1)), .pendSV, .svc (.mutexUnlock (some 1)), .svc (.mutexLock (some 2)),
      .pendSV, .svc (.mutexUnlock (some 2)), .svc .yield, .pendSV, .svc (.mutexLock (some 3))]
    (fun _ k => k.Enabled (.svc (.mutexUnlock (some 3))) ∧ k.gCurrent = some 192 ∧
      (k.mutex 3).owner = some 192 ∧ (k.tcb 192).ownedMutexes = some 3 ∧
      k.nextMutex 3 = some 2 ∧ k.nextMutex 2 = some 2) (by decide +kernel)
  refine ⟨os, k, hr, he, ?_⟩
  obtain ⟨a, hs, hi⟩ := run_sim hr
  have he' : a.Enabled (.svc (.mutexUnlock (some 3))) := hs.globals ▸ he
  rw [(exec_refines hs hi he').halts_iff]
  rw [hs.gCurrent] at hc
  rw [hs.mutex] at hm
  rw [hs.data] at ho
  rw [hs.nextMutex] at hn hx
  exact Model.unlock_hangs hc hm ho hn hx (by decide)

end Rtos

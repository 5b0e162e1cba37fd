import Rtos.Proofs.Delay

/-! In which order delays that end on the same tick make their tasks ready. The walk of
`os_timeout_queue_insert_sorted` stops at the first task that is not due before the new one, so
of two tasks due together the one that came last is in front, and it is served first. -/

namespace Rtos

open Lib

open Model (WF Inv Outcome)

variable {b : Boot} {os os₁ os₂ os₃ : List Obs} {o o' : Obs} {k k' : Kernel} {a a' : Model}
  {t u cur : TaskId} {d d' : Word} {p : Priority}

namespace Model

/-- The tasks whose time has come are appended to their ready queues in the order of the list. -/
theorem expireAll_ready (now : Word) (l : List TaskId) (hw : WF a) (hl : l.Nodup)
    (hsub : ∀ t ∈ l, t ∈ a.timeouts) (p : Priority) :
    (expireAll now l a).list (.ready p) = a.list (.ready p) ++
      ((l.takeWhile fun u => osTickReached now (a.tcb u).wakeTick).filter fun u =>
        (a.tcb u).priority = p) := by
  induction l generalizing a with
  | nil => simp [expireAll]
  | cons t l ih =>
    rw [List.nodup_cons] at hl
    simp only [expireAll]
    split_ifs with hnow
    · have ht := hsub t (by simp)
      obtain ⟨-, hq⟩ := (hw.ok t (hw.timeouts_tasks t ht) (by simp)).sleeping ht
      have hne : ∀ u ∈ l, u ≠ t := fun u hu hc => hl.1 (hc ▸ hu)
      have htcb : ∀ u ∈ l, (a.expire t).tcb u = a.tcb u := fun u hu => by
        rw [expire_tcb, if_neg (hne u hu)]
      have hsub' : ∀ u ∈ l, u ∈ (a.expire t).timeouts := fun u hu => by
        rw [expire_timeouts]
        exact (List.mem_erase_of_ne (hne u hu)).2 (hsub u (by simp [hu]))
      have htake : (l.takeWhile fun u => osTickReached now ((a.expire t).tcb u).wakeTick) =
          l.takeWhile fun u => osTickReached now (a.tcb u).wakeTick :=
        takeWhile_congr fun u hu => by rw [htcb u hu]
      rw [ih (hw.expire ht) hl.2 hsub', htake, expire_list hq rfl, if_neg (by simp),
        List.takeWhile_cons, if_pos hnow]
      have hfilter : ((l.takeWhile fun u => osTickReached now (a.tcb u).wakeTick).filter fun u =>
          ((a.expire t).tcb u).priority = p) =
          (l.takeWhile fun u => osTickReached now (a.tcb u).wakeTick).filter fun u =>
            (a.tcb u).priority = p :=
        List.filter_congr fun u hu => by rw [htcb u ((List.takeWhile_sublist _).subset hu)]
      rw [hfilter]
      by_cases hp : (a.tcb t).priority = p
      · rw [if_pos (by rw [hp]), List.filter_cons_of_pos (by simpa using hp), List.append_assoc]
        rfl
      · rw [if_neg (by simpa using Ne.symm hp), List.filter_cons_of_neg (by simpa using hp)]
    · rw [List.takeWhile_cons, if_neg hnow]
      simp

theorem OnTime.takeWhile_due (h : OnTime a) :
    (a.timeouts.takeWhile fun u => osTickReached (a.gTick + 1) (a.tcb u).wakeTick) =
      a.timeouts.filter fun u => a.left u = 1 := by
  have hdue : ∀ u ∈ a.timeouts, osTickReached (a.gTick + 1) (a.tcb u).wakeTick =
      decide (a.left u = 1) := fun u hu => by
    obtain ⟨h1, h2⟩ := h.bound u hu
    have hl : ((a.tcb u).wakeTick - (a.gTick + 1)).toNat = a.left u - 1 := left_succ h1
    have hlt : ((a.tcb u).wakeTick - (a.gTick + 1)).toNat < 2 ^ 31 := by omega
    have hiff := now_reached_iff hlt
    rw [Bool.eq_iff_iff, hiff, hl, decide_eq_true_eq]
    omega
  rw [takeWhile_congr hdue]
  refine takeWhile_eq_filter (h.sorted.imp_of_mem fun {u v} hu _ hle hv => ?_)
  have := h.bound u hu
  simp only [decide_eq_true_eq] at hv ⊢
  omega

/-- A tick appends those of one priority to their ready queue. -/
theorem OnTime.served (h : OnTime a) (hi : Inv a) (p : Priority) :
    ({ a with gTick := a.gTick + 1 } : Model).processTimeouts.list (.ready p) =
      a.list (.ready p) ++
        (a.timeouts.filter fun u => a.left u = 1).filter fun u => (a.tcb u).priority = p := by
  have hw : WF ({ a with gTick := a.gTick + 1 } : Model) := hi.wf.congr rfl (by simp) rfl rfl
  rw [processTimeouts, reschedule_list, expireAll_ready _ _ hw hi.wf.timeouts_nodup fun _ ht => ht]
  exact congrArg (fun l => a.list (.ready p) ++ l.filter fun u => (a.tcb u).priority = p)
    h.takeWhile_due

end Model

/-- First `t` and then `u` have called delays that end on the same tick, the `n`th from now. -/
def Tied (os : List Obs) (t u : TaskId) (n : ℕ) : Prop :=
  ∃ os₁ o os₂ o' os₃ d d', os = os₁ ++ o :: (os₂ ++ o' :: os₃) ∧ o.Delays t d ∧ o'.Delays u d' ∧
    d.toNat = ticks (os₂ ++ o' :: os₃) + n ∧ d'.toNat = ticks os₃ + n

theorem Tied.snoc {n : ℕ} (h : Tied (os ++ [o']) t u n) :
    Tied os t u (n + if o'.entry = .sysTick then 1 else 0) ∨
    ∃ os₁ o os₂ d d', os = os₁ ++ o :: os₂ ∧ o.Delays t d ∧ o'.Delays u d' ∧
      d.toNat = ticks os₂ + n ∧ d'.toNat = n := by
  obtain ⟨os₁, o, os₂, x, os₃, d, d', hos, ho, hx, hd, hd'⟩ := h
  rcases List.eq_nil_or_concat' os₃ with rfl | ⟨os₃, y, rfl⟩
  · rw [← List.cons_append, ← List.append_assoc] at hos
    obtain ⟨h1, h2⟩ := List.append_inj' hos rfl
    obtain rfl : o' = x := by simpa using h2
    rw [ticks_snoc, if_neg (by simp [hx.1])] at hd
    exact .inr ⟨os₁, o, os₂, d, d', h1, ho, hx, hd, by simpa [ticks] using hd'⟩
  · have hos' : os ++ [o'] = (os₁ ++ o :: (os₂ ++ x :: os₃)) ++ [y] := by simpa using hos
    obtain ⟨h1, h2⟩ := List.append_inj' hos' rfl
    obtain rfl : o' = y := by simpa using h2
    rw [← List.cons_append, ← List.append_assoc, ticks_snoc] at hd
    rw [ticks_snoc] at hd'
    exact .inl ⟨os₁, o, os₂, x, os₃, d, d', h1, ho, hx, by omega, by omega⟩

theorem Timely.sleeps (h : Timely os a) {n : ℕ} (hn : 0 < n) (hos : os = os₁ ++ o :: os₂)
    (ho : o.Delays t d) (hd : d.toNat = ticks os₂ + n) :
    t ∈ a.timeouts ∧ (a.tcb t).wakeTick = o.pre.gTick + d ∧ a.left t = n := by
  have hd0 : d ≠ 0 := by
    rintro rfl
    simp at hd
    omega
  have hok := h.calls _ _ _ _ _ hos ho.1 hd0 ho.2
  have hlt : ticks os₂ < d.toNat := by omega
  obtain ⟨h1, h2⟩ := hok.sleeps hlt
  refine ⟨h1, h2, ?_⟩
  rw [Model.left, h2, hok.gTick, left_of_delay hlt]
  omega

theorem Timely.tied (h : Timely os a) {n : ℕ} (hn : 0 < n) (ht : Tied os t u n) :
    (t ∈ a.timeouts ∧ a.left t = n) ∧ u ∈ a.timeouts ∧ a.left u = n := by
  obtain ⟨os₁, o, os₂, x, os₃, d, d', hos, ho, hx, hd, hd'⟩ := ht
  obtain ⟨h1, -, h2⟩ := h.sleeps hn hos ho hd
  have hos' : os = (os₁ ++ o :: os₂) ++ x :: os₃ := by simpa using hos
  obtain ⟨h3, -, h4⟩ := h.sleeps hn hos' hx hd'
  exact ⟨⟨h1, h2⟩, h3, h4⟩

/-- Of two sleepers that are due together, the later one is in front. -/
def Reversed (os : List Obs) (a : Model) : Prop :=
  ∀ t u n, 0 < n → Tied os t u n → [u, t].Sublist a.timeouts

theorem osTickReached_self (x : Word) : osTickReached x x = true := by simp [osTickReached]

theorem Reversed.step {e : Entry} {r : ℤ} (h : Reversed os a) (ht : Timely os a)
    (ht' : Timely (os ++ [⟨k, e, r, k'⟩]) a') (hs : Sim k a) (hi : Inv a)
    (hc : a.gCurrent = some cur) (he : a.Enabled e) (ho : Outcome a cur e r a')
    (hsd : (⟨k, e, r, k'⟩ : Obs).ShortDelay) : Reversed (os ++ [⟨k, e, r, k'⟩]) a' := by
  intro t u n hn htied
  rcases ho.time_cases hi hc he with ⟨hne, fr, hd0⟩ | ⟨rfl, rfl⟩ | ⟨d, rfl, hd, rfl⟩
  · rw [fr.timeouts]
    rcases htied.snoc with hold | ⟨_, _, _, _, d', -, -, hx, -, hd'⟩
    · rw [if_neg hne] at hold
      exact h t u n hn hold
    · have h0 := hd0 d' hx.1
      subst h0
      simp at hd'
      omega
  · obtain ⟨⟨h1, -⟩, h2, -⟩ := ht'.tied hn htied
    rw [(ht.onTime.ticked hi.wf.timeouts_nodup).timeouts] at h1 h2 ⊢
    rcases htied.snoc with hold | ⟨_, _, _, _, _, -, -, hx, -⟩
    · have hsub := h t u _ (by omega) hold
      have hfilter := hsub.filter fun v => decide (a.left v ≠ 1)
      have hu : a.left u ≠ 1 := by simpa using (List.mem_filter.1 h2).2
      have ht1 : a.left t ≠ 1 := by simpa using (List.mem_filter.1 h1).2
      rwa [List.filter_eq_self.2] at hfilter
      simpa using ⟨hu, ht1⟩
    · cases hx.1
  · have dl := hi.delayed he.1 hc (short_ne_forever (hsd d rfl))
    rcases htied.snoc with hold | ⟨os₁, o, os₂, d₁, d', hos, ho', hx, hd₁, hd'⟩
    · rw [dl.timeouts]
      exact (h t u n hn hold).trans sublist_insertWhile
    · -- the second delay is the one called: its task goes in front of the first
      obtain rfl : d = d' := by simpa using hx.1
      obtain rfl : cur = u := Option.some.inj ((hs.gCurrent.trans hc).symm.trans hx.2)
      obtain ⟨hmem, -, hleft⟩ := ht.sleeps hn hos ho' hd₁
      have hwake : ((a.block .sleep d false).tcb t).wakeTick =
          ((a.block .sleep d false).tcb cur).wakeTick := by
        rw [dl.wakeTick, dl.others t hmem]
        rw [Model.left] at hleft
        bv_omega
      rw [dl.timeouts]
      refine pair_insertWhile hmem ?_
      rw [hwake, osTickReached_self]
      rfl

theorem run_reversed (h : Run b os k) :
    ∃ a, Sim k a ∧ Inv a ∧ ((∀ o ∈ os, o.ShortDelay) → Timely os a ∧ Reversed os a) := by
  refine run_induct (P := fun os _ a => (∀ o ∈ os, o.ShortDelay) → Timely os a ∧ Reversed os a)
    ?_ ?_ h
  · intro k a _ hst _
    exact ⟨.start hst, fun t u n _ ⟨_, _, _, _, _, _, _, hos, _⟩ => by simp at hos⟩
  · intro os k a k' a' cur e r hs hi hc he ho _ _ hp hsd
    obtain ⟨ht, hr⟩ := hp fun o ho' => hsd o (by simp [ho'])
    have hlast : (⟨k, e, r, k'⟩ : Obs).ShortDelay := hsd _ (by simp)
    have ht' := ht.step hs hi hc he ho hlast
    exact ⟨ht', hr.step ht ht' hs hi hc he ho hlast⟩

/-- Of two tasks of one priority whose delays end on the same tick, the one that called last is
always the first to be appended to their ready queue. -/
theorem expiries_reversed (h : Run b os k) (hsd : ∀ o ∈ os, o.ShortDelay) (ht : Tied os t u 1)
    (hp : (k.tcb t).priority = p ∧ (k.tcb u).priority = p) {l : List TaskId}
    (hl : Dll.Repr k.links (k.queue (.ready p)) l) :
    ∃ k' served, (osProcessTimeouts { k with gTick := k.gTick + 1 }).Returns k' ∧
      Dll.Repr k'.links (k'.queue (.ready p)) (l ++ served) ∧
      [u, t].Sublist served ∧ ¬ [t, u].Sublist served := by
  obtain ⟨a, hs, hi, ha⟩ := run_reversed h
  obtain ⟨htm, hrev⟩ := ha hsd
  obtain ⟨⟨-, htl⟩, -, hul⟩ := htm.tied Nat.one_pos ht
  have hs₁ : Sim { k with gTick := k.gTick + 1 } { a with gTick := a.gTick + 1 } :=
    hs.mapGlobals fun g => { g with gTick := g.gTick + 1 }
  have hw : WF ({ a with gTick := a.gTick + 1 } : Model) := hi.wf.congr rfl (by simp) rfl rfl
  obtain ⟨k', hk', hs'⟩ := hs₁.processTimeouts hw
  have hr := hs'.repr (.ready p)
  rw [htm.onTime.served hi p, Dll.Repr.unique (hs.repr (.ready p)) hl] at hr
  refine ⟨k', _, hk', hr, ?_⟩
  have hsub : [u, t].Sublist
      ((a.timeouts.filter fun u => a.left u = 1).filter fun u => (a.tcb u).priority = p) := by
    have hfilter := ((hrev t u 1 Nat.one_pos ht).filter fun v => decide (a.left v = 1)).filter
      fun v => decide ((a.tcb v).priority = p)
    have hpt : (a.tcb t).priority = p := by rw [← hs.data]; exact hp.1
    have hpu : (a.tcb u).priority = p := by rw [← hs.data]; exact hp.2
    simpa [htl, hul, hpt, hpu] using hfilter
  refine ⟨hsub, not_pair_swap ?_ hsub⟩
  exact (hi.wf.timeouts_nodup.filter _).filter _

/-- Two tasks of priority 1 sleep, one for two ticks and, one tick later, the other for one. -/
theorem two_sleepers : ∃ os k, Run (Boot.small [1, 1] 0 0 (by decide)) os k ∧
    (∀ o ∈ os, o.ShortDelay) ∧ Tied os 192 128 1 ∧
    ((k.tcb 192).priority = 1 ∧ (k.tcb 128).priority = 1) ∧
    Dll.Repr k.links (k.queue (.ready 1)) [] ∧
    ∃ k', (osProcessTimeouts { k with gTick := k.gTick + 1 }).Returns k' ∧
      Dll.Repr k'.links (k'.queue (.ready 1)) [128, 192] := by
  obtain ⟨os, k, hr, he, h1, h4, hp, hq, hk'⟩ := Boot.play_exists
    (Boot.small [1, 1] 0 0 (by decide)) 10
    [.pendSV, .svc (.delayTicks 2), .pendSV, .sysTick, .svc (.delayTicks 1)]
    (fun os k => os.map Obs.entry =
      [.pendSV, .svc (.delayTicks 2), .pendSV, .sysTick, .svc (.delayTicks 1)] ∧
      (os[1]?.map fun o => o.pre.gCurrent) = some (some 192) ∧
      (os[4]?.map fun o => o.pre.gCurrent) = some (some 128) ∧
      ((k.tcb 192).priority = 1 ∧ (k.tcb 128).priority = 1) ∧
      Dll.Repr k.links (k.queue (.ready 1)) [] ∧
      ((osProcessTimeouts { k with gTick := k.gTick + 1 }).run 10).any fun k' =>
        Dll.Repr k'.links (k'.queue (.ready 1)) [128, 192]) (by decide +kernel)
  have hsd : ∀ o ∈ os, o.ShortDelay := by
    intro o ho d hd
    have hm : o.entry ∈ os.map Obs.entry := List.mem_map_of_mem ho
    rw [he, hd] at hm
    have hd' : d = 2 ∨ d = 1 := by simpa using hm
    rcases hd' with rfl | rfl <;> decide
  have htied : Tied os 192 128 1 := by
    simp only [List.map_eq_cons_iff, List.map_eq_nil_iff] at he
    obtain ⟨o₀, _, rfl, e0, o₁, _, rfl, e1, o₂, _, rfl, e2, o₃, _, rfl, e3, o₄, _, rfl, e4, rfl⟩ := he
    refine ⟨[o₀], o₁, [o₂, o₃], o₄, [], 2, 1, rfl, ⟨e1, by simpa using h1⟩, ⟨e4, by simpa using h4⟩,
      ?_, ?_⟩
    · simp [ticks, e2, e3, e4]
    · simp [ticks]
  obtain ⟨k', hret, hl⟩ := (Option.any_eq_true _ _).1 hk'
  exact ⟨os, k, hr, hsd, htied, hp, hq, k', ⟨10, hret⟩, of_decide_eq_true hl⟩

theorem expiries_reversed_two : ∃ os k, Run (Boot.small [1, 1] 0 0 (by decide)) os k ∧
    Tied os 192 128 1 ∧ ∃ k' served,
      (osProcessTimeouts { k with gTick := k.gTick + 1 }).Returns k' ∧
      Dll.Repr k'.links (k'.queue (.ready 1)) ([] ++ served) ∧
      [128, 192].Sublist served ∧ ¬ [192, 128].Sublist served := by
  obtain ⟨os, k, hr, hsd, htied, hp, hq, -⟩ := two_sleepers
  exact ⟨os, k, hr, htied, expiries_reversed hr hsd htied hp hq⟩

/-- Delays that end together do not keep the order in which they were called. -/
theorem sleeping_order_lost : ¬ ∀ (b : Boot) (os : List Obs) (k : Kernel) (t u : TaskId)
    (p : Priority) (l : List TaskId), Run b os k → (∀ o ∈ os, o.ShortDelay) → Tied os t u 1 →
    (k.tcb t).priority = p ∧ (k.tcb u).priority = p →
    Dll.Repr k.links (k.queue (.ready p)) l →
    ∃ k' served, (osProcessTimeouts { k with gTick := k.gTick + 1 }).Returns k' ∧
      Dll.Repr k'.links (k'.queue (.ready p)) (l ++ served) ∧ [t, u].Sublist served := by
  intro h
  obtain ⟨os, k, hr, hsd, htied, hp, hq, k', hret, hl⟩ := two_sleepers
  obtain ⟨k₁, served, hret₁, hl₁, hsub⟩ := h _ os k 192 128 1 [] hr hsd htied hp hq
  obtain rfl := hret.unique hret₁
  obtain rfl : served = [128, 192] := Dll.Repr.unique hl₁ hl
  exact absurd hsub (by decide)

end Rtos

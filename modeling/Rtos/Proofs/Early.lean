import Rtos.Proofs.Delay

/-! Which delays may end early. The argument of `os_kernel_delay_ticks` is not checked, and a
wake tick more than `2^31` ahead looks like one in the past: the first tick ends such a delay.
`UINT32_MAX` does not, because it means no timeout at all. -/

namespace Rtos

open Lib

open Model (WF Inv Outcome)

variable {b : Boot} {os os₁ os₂ : List Obs} {o : Obs} {k k' : Kernel} {a a' : Model} {t u cur : TaskId}
  {d : Word} {e : Entry} {r : ℤ}

namespace Model

/-- A task whose tick does not look past stays, whoever is in front of it. -/
theorem expireAll_keeps (now : Word) (l : List TaskId) (ht : t ∈ a.timeouts)
    (hn : osTickReached now (a.tcb t).wakeTick = false) :
    (expireAll now l a).tcb t = a.tcb t ∧ t ∈ (expireAll now l a).timeouts := by
  induction l generalizing a with
  | nil => exact ⟨rfl, ht⟩
  | cons u l ih =>
    simp only [expireAll]
    split_ifs with hu
    · have hne : t ≠ u := by
        rintro rfl
        rw [hn] at hu
        cases hu
      have htcb : (a.expire u).tcb t = a.tcb t := by rw [expire_tcb, if_neg hne]
      have hmem : t ∈ (a.expire u).timeouts := by
        rw [expire_timeouts]
        exact (List.mem_erase_of_ne hne).2 ht
      obtain ⟨h1, h2⟩ := ih hmem (by rw [htcb]; exact hn)
      exact ⟨h1.trans htcb, h2⟩
    · exact ⟨rfl, ht⟩

theorem sysTick_keeps (ht : t ∈ a.timeouts)
    (hn : osTickReached (a.gTick + 1) (a.tcb t).wakeTick = false) :
    a.sysTick.tcb t = a.tcb t ∧ t ∈ a.sysTick.timeouts := by
  obtain ⟨h1, h2⟩ := expireAll_keeps (a := { a with gTick := a.gTick + 1 }) (a.gTick + 1) a.timeouts
    ht hn
  rw [sysTick_eq]
  simp only [reschedule_tcb, rotate_tcb, reschedule_timeouts, rotate_timeouts]
  exact ⟨h1, h2⟩

theorem expireAll_subset (now : Word) (l : List TaskId) :
    (expireAll now l a).timeouts ⊆ a.timeouts := by
  induction l generalizing a with
  | nil => exact List.Subset.refl _
  | cons u l ih =>
    simp only [expireAll]
    split_ifs
    · refine List.Subset.trans ih ?_
      rw [expire_timeouts]
      exact List.erase_subset
    · exact List.Subset.refl _

theorem sysTick_subset : a.sysTick.timeouts ⊆ a.timeouts := by
  rw [sysTick_eq]
  simp only [reschedule_timeouts, rotate_timeouts]
  exact expireAll_subset (a := { a with gTick := a.gTick + 1 }) _ _

theorem Outcome.sleep_mem (h : Inv a) (hc : a.gCurrent = some cur) (he : a.Enabled e)
    (ho : Outcome a cur e r a') (hne : e ≠ .sysTick) (ht : t ∈ a.list .sleep) :
    t ∈ a'.list .sleep := by
  by_cases hd : ∃ d, e = .svc (.delayTicks d)
  · obtain ⟨d, rfl⟩ := hd
    cases ho with
    | delayZero =>
      change t ∈ (a.rotate a.gCurrent).list _
      rwa [rotate_list_wait _ rfl]
    | delay _ =>
      rw [block_list hc, (enqueue_list_perm false rfl).mem_iff]
      exact List.mem_cons_of_mem _ ht
  · have hq : waitsIn e ≠ some .sleep := by
      cases e with
      | sysTick => exact absurd rfl hne
      | pendSV => simp [waitsIn]
      | svc c => cases c <;> simp_all [waitsIn]
    exact (ho.wait_list_perm h hc he rfl hq).mem_iff.2 ht

end Model

/-- A delay of `d` ticks that no comparison takes for one in the past. -/
def Measured (d : Word) : Prop := d.toNat ≤ 2 ^ 31 + 1 ∨ d = osWaitForever

/-- Where the sleeper is while its delay lasts: in the timeout list, or for good in the sleep
queue. -/
structure Asleep (o : Obs) (d : Word) (t : TaskId) (os : List Obs) (a : Model) : Prop where
  gTick : a.gTick = o.pre.gTick + BitVec.ofNat 32 (ticks os)
  timed : d ≠ osWaitForever → ticks os < d.toNat →
    t ∈ a.timeouts ∧ (a.tcb t).wakeTick = o.pre.gTick + d
  forever : d = osWaitForever → t ∈ a.list .sleep ∧ t ∉ a.timeouts

theorem Asleep.blocked (h : Asleep o d t os a) (hw : WF a) (hlt : ticks os < d.toNat) :
    (a.tcb t).state = .blocked := by
  by_cases hd : d = osWaitForever
  · exact (hw.of_wait rfl (h.forever hd).1).1
  · have hm := (h.timed hd hlt).1
    exact ((hw.ok t (hw.timeouts_tasks t hm) (by simp)).sleeping hm).1

theorem Asleep.frame {o' : Obs} (h : Asleep o d t os a) (he : o'.entry ≠ .sysTick)
    (hg : a'.gTick = a.gTick) (ht : t ∈ a.timeouts → t ∈ a'.timeouts ∧
      (a'.tcb t).wakeTick = (a.tcb t).wakeTick)
    (hf : t ∈ a.list .sleep → t ∈ a'.list .sleep ∧ (t ∉ a.timeouts → t ∉ a'.timeouts)) :
    Asleep o d t (os ++ [o']) a' := by
  have hn : ticks (os ++ [o']) = ticks os := by rw [ticks_snoc, if_neg he, Nat.add_zero]
  refine ⟨by rw [hn, hg, h.gTick], fun hd hlt => ?_, fun hd => ?_⟩
  · obtain ⟨h1, h2⟩ := h.timed hd (hn ▸ hlt)
    exact ⟨(ht h1).1, (ht h1).2.trans h2⟩
  · obtain ⟨h1, h2⟩ := h.forever hd
    exact ⟨(hf h1).1, (hf h1).2 h2⟩

/-- A tick before the last one of the delay does not look like the last one. -/
theorem Measured.not_reached (hd : Measured d) (hne : d ≠ osWaitForever) {g : Word} {n : ℕ}
    (hn : n + 1 < d.toNat) : osTickReached (g + BitVec.ofNat 32 n + 1) (g + d) = false := by
  have hle : d.toNat ≤ 2 ^ 31 + 1 := hd.resolve_right hne
  have hnow : g + BitVec.ofNat 32 n + 1 = g + BitVec.ofNat 32 (n + 1) := by
    rw [BitVec.ofNat_add, BitVec.add_assoc]
    rfl
  rw [← Bool.not_eq_true, reached_iff, hnow, left_of_delay hn]
  omega

theorem Asleep.tick {o' : Obs} (h : Asleep o d t os a) (hd : Measured d) (hi : Inv a)
    (he : o'.entry = .sysTick) : Asleep o d t (os ++ [o']) a.sysTick := by
  have hn : ticks (os ++ [o']) = ticks os + 1 := by rw [ticks_snoc, if_pos he]
  have fr := hi.tick_frame
  refine ⟨?_, fun hne hlt => ?_, fun hf => ?_⟩
  · rw [hn, fr.gTick, h.gTick]
    bv_omega
  · rw [hn] at hlt
    obtain ⟨h1, h2⟩ := h.timed hne (by omega)
    have hnot : osTickReached (a.gTick + 1) (a.tcb t).wakeTick = false := by
      rw [h2, h.gTick]
      exact hd.not_reached hne hlt
    obtain ⟨h3, h4⟩ := Model.sysTick_keeps h1 hnot
    exact ⟨h4, by rw [h3, h2]⟩
  · -- no timeout: the tick does not see the task
    obtain ⟨h1, h2⟩ := h.forever hf
    have htcb : a.sysTick.tcb t = a.tcb t := (fr.tcb t).resolve_right fun hx => h2 hx.1
    obtain ⟨hb, hq⟩ := hi.wf.of_wait rfl h1
    have hi' := hi.sysTick
    have hmem : t ∈ a.sysTick.tasks := fr.tasks ▸ hi.wf.mem_tasks h1
    refine ⟨hi'.wf.home_mem hmem ?_, fun hin => h2 (Model.sysTick_subset hin)⟩
    rw [htcb, Model.home, if_pos hb, hq]

theorem Asleep.call (hs : Sim k a) (hi : Inv a) (hp : a.pendsv = false) (hc : a.gCurrent = some cur) :
    Asleep ⟨k, .svc (.delayTicks d), r, k'⟩ d cur [] (a.block .sleep d false) := by
  refine ⟨?_, fun hd _ => ?_, fun hd => ⟨?_, ?_⟩⟩
  · rw [Model.block_gTick]
    change _ = k.gTick + _
    rw [hs.gTick]
    simp [ticks]
  · have dl := hi.delayed hp hc hd
    refine ⟨?_, ?_⟩
    · rw [dl.timeouts, mem_insertWhile]
      exact .inl rfl
    · rw [dl.wakeTick]
      change _ = k.gTick + _
      rw [hs.gTick]
  · rw [Model.block_list hc, (Model.enqueue_list_perm false rfl).mem_iff]
    exact List.mem_cons_self
  · rw [hd, Model.block_timeouts_forever hc]
    exact hi.cur_not_timed hp hc

theorem Asleep.step (h : Asleep o d t os a) (hd : Measured d) (hi : Inv a)
    (hc : a.gCurrent = some cur) (he : a.Enabled e) (ho : Outcome a cur e r a') :
    Asleep o d t (os ++ [⟨k, e, r, k'⟩]) a' := by
  rcases ho.time_cases hi hc he with ⟨hne, fr, -⟩ | ⟨rfl, rfl⟩ | ⟨d', rfl, -, rfl⟩
  · refine h.frame hne fr.gTick (fun ht => ?_) fun ht => ⟨ho.sleep_mem hi hc he hne ht, ?_⟩
    · exact ⟨by rwa [fr.timeouts], fr.wakeTick t ht⟩
    · rw [fr.timeouts]
      exact fun hnot => hnot
  · exact h.tick hd hi rfl
  · -- another task falls asleep
    have hsleep := fun ht : t ∈ a.list .sleep => ho.sleep_mem hi hc he (by simp) ht
    by_cases hf : d' = osWaitForever
    · subst hf
      have fr := hi.block_timeFrame he.1 hc .sleep false
      refine h.frame (by simp) fr.gTick (fun ht => ?_) fun ht => ⟨hsleep ht, ?_⟩
      · exact ⟨by rwa [fr.timeouts], fr.wakeTick t ht⟩
      · rw [fr.timeouts]
        exact fun hnot => hnot
    · have dl := hi.delayed he.1 hc hf
      refine h.frame (by simp) dl.gTick (fun ht => ⟨?_, dl.others t ht⟩) fun ht =>
        ⟨hsleep ht, fun hnot hin => ?_⟩
      · rw [dl.timeouts, mem_insertWhile]
        exact .inr ht
      · rw [dl.timeouts, mem_insertWhile] at hin
        rcases hin with rfl | hin
        · exact hi.running_not_waiting he.1 hc rfl ht
        · exact hnot hin

theorem run_asleep (h : Run b os k) : ∃ a, Sim k a ∧ Inv a ∧ ∀ os₁ o os₂ d t,
    os = os₁ ++ o :: os₂ → o.Delays t d → d ≠ 0 → Measured d → Asleep o d t os₂ a := by
  refine run_induct (P := fun os _ a => ∀ os₁ o os₂ d t, os = os₁ ++ o :: os₂ → o.Delays t d →
    d ≠ 0 → Measured d → Asleep o d t os₂ a) ?_ ?_ h
  · intro k a _ _ os₁ o os₂ d t hos
    simp at hos
  · intro os k a k' a' cur e r hs hi hc he ho _ _ hp os₁ o os₂ d t hos hdel hd0 hd
    rcases snoc_split hos with ⟨-, rfl, rfl⟩ | ⟨os₃, rfl, hos'⟩
    · obtain ⟨he', hcur⟩ := hdel
      obtain rfl : e = .svc (.delayTicks d) := he'
      obtain rfl : cur = t := Option.some.inj ((hs.gCurrent.trans hc).symm.trans hcur)
      cases ho with
      | delayZero => exact absurd rfl hd0
      | delay _ => exact .call hs hi he.1 hc
    · exact (hp os₁ o os₃ d t hos' hdel hd0 hd).step hd hi hc he ho

/-- No task that asks for `d` ticks is made ready before, whatever the others do. -/
def NeverEarly (d : Word) : Prop :=
  ∀ (b : Boot) (os₁ : List Obs) (o : Obs) (os₂ : List Obs) (k : Kernel) (t : TaskId),
    Run b (os₁ ++ o :: os₂) k → o.Delays t d → ticks os₂ < d.toNat → (k.tcb t).state = .blocked

theorem Measured.neverEarly (hd : Measured d) : NeverEarly d := by
  intro b os₁ o os₂ k t h hdel hlt
  obtain ⟨a, hs, hi, ha⟩ := run_asleep h
  have hd0 : d ≠ 0 := by
    rintro rfl
    simp at hlt
  rw [hs.data]
  exact (ha os₁ o os₂ d t rfl hdel hd0 hd).blocked hi.wf hlt

/-- The first tick ends a delay that is too long, when nobody else sleeps. -/
theorem woken_at_once (h : Run b os k) (he : k.Enabled (.svc (.delayTicks d)))
    (hc : k.gCurrent = some t) (hl : k.gTimeoutQueue.head = none) (hd : ¬ Measured d) :
    ∃ o o' k', o.Delays t d ∧ o'.entry = .sysTick ∧ Run b (os ++ o :: [o']) k' ∧
      (k'.tcb t).state = .ready := by
  obtain ⟨a, hs, hi⟩ := run_sim h
  obtain ⟨hlong, hf⟩ : 2 ^ 31 + 1 < d.toNat ∧ d ≠ osWaitForever := by simpa [Measured] using hd
  have hac : a.gCurrent = some t := hs.gCurrent.symm.trans hc
  have hae : a.Enabled (.svc (.delayTicks d)) := hs.globals ▸ he
  have hnil : a.timeouts = [] := by
    rw [hs.timeouts.head] at hl
    exact List.head?_eq_none_iff.1 hl
  have hd0 : d ≠ 0 := by
    rintro rfl
    simp at hlong
  -- the call
  have hcall : (a.exec (.svc (.delayTicks d))).Returns (0, a.block .sleep d false) := by
    refine Comp.returns_pure.2 ?_
    rw [Model.delayTicks, if_neg hd0]
  obtain ⟨⟨r₁, k₁⟩, hk₁, -, hs₁⟩ := (exec_refines hs hi hae).1 _ hcall
  have hi₁ := hi.outcome hac hae (Model.exec_outcome hi hac hcall)
  -- the tick
  obtain ⟨⟨r₂, k₂⟩, hk₂, -, hs₂⟩ := (exec_refines hs₁ hi₁ (e := .sysTick) trivial).1 _
    (Comp.returns_pure.2 rfl)
  have hrun := (h.snoc he hk₁).snoc (e := .sysTick) trivial hk₂
  refine ⟨_, _, k₂, ⟨rfl, hc⟩, rfl, by simpa using hrun, ?_⟩
  have dl := hi.delayed hae.1 hac hf
  have hreached : osTickReached (a.gTick + 1) (a.gTick + d) = true := by
    rw [reached_iff]
    bv_omega
  have htl : (a.block .sleep d false).timeouts = [t] := by
    rw [dl.timeouts, hnil]
    rfl
  rw [hs₂.data]
  change ((a.block .sleep d false).sysTick.tcb t).state = .ready
  rw [Model.sysTick_eq]
  simp only [Model.reschedule_tcb, Model.rotate_tcb, htl, Model.expireAll, dl.wakeTick, dl.gTick,
    hreached, if_true, Model.expire_tcb]
  rfl

/-- A delay is never cut short exactly for the arguments up to `2^31 + 1` and for `UINT32_MAX`. -/
theorem neverEarly_iff (d : Word) : NeverEarly d ↔ d.toNat ≤ 2 ^ 31 + 1 ∨ d = osWaitForever := by
  refine ⟨fun h => ?_, Measured.neverEarly⟩
  by_contra hd
  obtain ⟨os, k, hr, he, hc, hl⟩ := Boot.play_exists (Boot.small [1] 0 0 (by decide)) 10 [.pendSV]
    (fun _ k => (k.pendsv = false ∧ k.gCurrent ≠ k.idle) ∧ k.gCurrent = some 192 ∧
      k.gTimeoutQueue.head = none) (by decide +kernel)
  obtain ⟨o, o', k', hdel, ho', hrun, hready⟩ := woken_at_once (d := d) hr he hc hl hd
  have hlt : ticks [o'] < d.toNat := by
    have : ¬ d.toNat ≤ 2 ^ 31 + 1 := fun hle => hd (.inl hle)
    simp only [ticks, List.countP_cons, List.countP_nil, ho']
    norm_num
    omega
  have hb := h _ _ _ _ _ _ hrun hdel hlt
  rw [hready] at hb
  cases hb

/-- A task asks for `2^31 + 2` ticks and is ready after one. -/
theorem sleeper_woken_early : ∃ os₁ o o' k, Run (Boot.small [1] 0 0 (by decide)) (os₁ ++ o :: [o']) k ∧
    o.Delays 192 2147483650 ∧ ticks [o'] < (2147483650 : Word).toNat ∧
    (k.tcb 192).state = .ready := by
  obtain ⟨os, k, hr, he, hc, hk⟩ := Boot.play_exists (Boot.small [1] 0 0 (by decide)) 10
    [.pendSV, .svc (.delayTicks 2147483650), .sysTick]
    (fun os k => os.map Obs.entry = [.pendSV, .svc (.delayTicks 2147483650), .sysTick] ∧
      (os[1]?.map fun o => o.pre.gCurrent) = some (some 192) ∧ (k.tcb 192).state = .ready)
    (by decide +kernel)
  simp only [List.map_eq_cons_iff, List.map_eq_nil_iff] at he
  obtain ⟨o₀, _, rfl, -, o₁, _, rfl, h1, o₂, _, rfl, h2, rfl⟩ := he
  refine ⟨[o₀], o₁, o₂, k, hr, ⟨h1, by simpa using hc⟩, ?_, hk⟩
  simp [ticks, h2]

end Rtos

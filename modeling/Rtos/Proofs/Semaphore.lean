import Rtos.Proofs.Structure
import Rtos.Model.Frames

/-! Semaphore tokens. A give either raises the count or hands its token straight to
the first waiter, and a take either lowers the count or queues up; so the tokens put
in are those in the count and those that have been granted. -/

namespace Rtos

open Lib

open Model (WF Inv Outcome)

variable {b : Boot} {os : List Obs} {o : Obs} {k k' : Kernel} {a a' : Model} {t cur : TaskId}
  {s : SemId}

/-- `t` has blocked in a take of `s`. -/
def InTake (k : Kernel) (s : SemId) (t : TaskId) : Prop :=
  (k.tcb t).state = .blocked ∧ (k.tcb t).waitQueue = some (.sem s)

instance : Decidable (InTake k s t) := inferInstanceAs (Decidable (_ ∧ _))

def Obs.Takes (o : Obs) (s : SemId) : Prop := o.entry = .svc (.semTake (some s))

def Obs.Gives (o : Obs) (s : SemId) : Prop := o.entry = .svc (.semGive (some s))

instance : Decidable (o.Takes s) := inferInstanceAs (Decidable (_ = _))

instance : Decidable (o.Gives s) := inferInstanceAs (Decidable (_ = _))

def gives (os : List Obs) (s : SemId) : ℕ := os.countP fun o => o.Gives s

/-- The takes an entry grants: a take that lowers the count is granted itself, and a
give grants those of the blocked takers it removes from the queue. -/
def Obs.grants (o : Obs) (s : SemId) : ℕ :=
  if o.Takes s then if o.post.semCount s = o.pre.semCount s - 1 then 1 else 0
  else if o.Gives s then
    (o.pre.tasks.toFinset.filter fun t => InTake o.pre s t ∧ ¬ InTake o.post s t).card
  else 0

theorem grants_other (h1 : ¬ o.Takes s) (h2 : ¬ o.Gives s) : o.grants s = 0 := by
  rw [Obs.grants, if_neg h1, if_neg h2]

theorem grants_take (h : o.Takes s) :
    o.grants s = if o.post.semCount s = o.pre.semCount s - 1 then 1 else 0 := by
  rw [Obs.grants, if_pos h]

theorem grants_give (h : o.Gives s) : o.grants s =
    (o.pre.tasks.toFinset.filter fun t => InTake o.pre s t ∧ ¬ InTake o.post s t).card := by
  have hne : ¬ o.Takes s := fun ht => by
    rw [Obs.Takes, show o.entry = _ from h] at ht
    simp at ht
  rw [Obs.grants, if_neg hne, if_pos h]

def granted (os : List Obs) (s : SemId) : ℕ := (os.map fun o => o.grants s).sum

theorem gives_snoc : gives (os ++ [o]) s = gives os s + if o.Gives s then 1 else 0 := by
  simp [gives, List.countP_append, List.countP_singleton]

theorem granted_snoc : granted (os ++ [o]) s = granted os s + o.grants s := by
  simp [granted]

namespace Model

/-- What an entry does to a semaphore. -/
inductive SemStep (a : Model) (cur : TaskId) (s : SemId) : Entry → Model → Prop
  | other {e : Entry} {b : Model} : e ≠ .svc (.semTake (some s)) → e ≠ .svc (.semGive (some s)) →
      b.semCount s = a.semCount s → (b.list (.sem s)).Perm (a.list (.sem s)) → SemStep a cur s e b
  | take {b : Model} : 0 < a.semCount s → b.semCount s = i32 (a.semCount s - 1) →
      b.list (.sem s) = a.list (.sem s) → SemStep a cur s (.svc (.semTake (some s))) b
  | queue {b : Model} : ¬ 0 < a.semCount s → b.semCount s = a.semCount s →
      b.list (.sem s) = a.list (.sem s) ++ [cur] → SemStep a cur s (.svc (.semTake (some s))) b
  | give {b : Model} : a.list (.sem s) = [] → b.semCount s = i32 (a.semCount s + 1) →
      b.list (.sem s) = [] → SemStep a cur s (.svc (.semGive (some s))) b
  | hand {b : Model} {t : TaskId} {l : List TaskId} : a.list (.sem s) = t :: l →
      b.semCount s = a.semCount s → b.list (.sem s) = l → (b.tcb t).state = .ready →
      SemStep a cur s (.svc (.semGive (some s))) b

@[simp] theorem handOff_semCount {m : MutexId} : (a.handOff m).semCount = a.semCount := by
  unfold handOff
  split
  · rw [reschedule_semCount]
    change (a.wake _ _).semCount = _
    rw [wake_toGlobals]
  · rfl

@[simp] theorem dropOwned_semCount {m : MutexId} (found : Option (Option MutexId)) :
    (a.dropOwned t m found).semCount = a.semCount := by
  unfold dropOwned; split
  · rfl
  · split <;> rfl

theorem waitsIn_sem {e : Entry} (h1 : e ≠ .svc (.semTake (some s)))
    (h2 : e ≠ .svc (.semGive (some s))) : waitsIn e ≠ some (.sem s) := by
  intro h
  cases e with
  | sysTick => simp [waitsIn] at h
  | pendSV => simp [waitsIn] at h
  | svc c => cases c <;> simp_all [waitsIn]

/-- Only takes and gives of the semaphore change its count. -/
theorem Outcome.sem_count (h : Inv a) {e : Entry} {r : ℤ} (ho : Outcome a cur e r a')
    (h1 : e ≠ .svc (.semTake (some s))) (h2 : e ≠ .svc (.semGive (some s))) :
    a'.semCount s = a.semCount s := by
  cases ho with
  | tick => rw [h.tick_frame.semCount]
  | pendSV =>
    obtain ⟨n, -, hn, -⟩ := h.next
    rw [commit_eq (a := { a with pendsv := false }) hn]
  | yield =>
    change (a.rotate a.gCurrent).semCount s = _
    simp
  | delayZero =>
    change (a.rotate a.gCurrent).semCount s = _
    simp
  | delay _ => simp
  | @take s' _ =>
    have hs : s ≠ s' := fun hx => h1 (by rw [hx])
    simp [Function.update_of_ne hs]
  | takeBlock _ => simp
  | @give s' _ =>
    have hs : s ≠ s' := fun hx => h2 (by rw [hx])
    simp [Function.update_of_ne hs]
  | giveWake _ => simp
  | lockBlock _ _ =>
    change (block _ _ _ _).semCount s = _
    rw [block_semCount, boost_toGlobals]
  | unlock _ _ _ => rw [handOff_semCount, setPriority_toGlobals, dropOwned_semCount]
  | createFailed hf =>
    obtain ⟨⟨pool, mem, rfl⟩, -, -⟩ := hf
    rfl
  | created hf => rw [hf.frame.semCount]
  | _ => rfl

theorem Outcome.sem_step (h : Inv a) (hc : a.gCurrent = some cur) {e : Entry} {r : ℤ}
    (he : a.Enabled e) (ho : Outcome a cur e r a') (s : SemId) : SemStep a cur s e a' := by
  by_cases h1 : e = .svc (.semTake (some s))
  · subst h1
    cases ho with
    | take hpos => exact .take hpos (by simp) rfl
    | takeBlock hpos => exact .queue hpos (by simp) (by rw [block_list hc, enqueue_list_add rfl])
  · by_cases h2 : e = .svc (.semGive (some s))
    · subst h2
      cases ho with
      | give hl => exact .give hl (by simp) hl
      | giveWake hl =>
        refine .hand hl (by simp) ?_ ?_
        · rw [reschedule_list, wake_list rfl, if_pos rfl, hl, List.erase_cons_head]
        · rw [reschedule_tcb, wake_tcb, if_pos rfl]
          rfl
    · exact .other h1 h2 (ho.sem_count h h1 h2) (ho.wait_list_perm h hc he rfl (waitsIn_sem h1 h2))

end Model

theorem Sim.inTake_iff (hs : Sim k a) (hw : WF a) (ht : t ∈ a.tasks) :
    InTake k s t ↔ t ∈ a.list (.sem s) := by
  rw [InTake, hs.data]
  constructor
  · rintro ⟨h1, h2⟩
    exact hw.home_mem ht (by simp [Model.home, h1, h2])
  · exact hw.of_wait rfl

theorem i32_eq {n : ℤ} (h1 : -2 ^ 31 ≤ n) (h2 : n < 2 ^ 31) : i32 n = n := by
  apply Int.bmod_eq_of_le
  · norm_num at *
    omega
  · norm_num at *
    omega

/-- A queued taker that an entry takes off the queue is the first, and the entry is a give. -/
theorem Model.SemStep.leaves {e : Entry} (h : Model.SemStep a cur s e a')
    (h1 : t ∈ a.list (.sem s)) (h2 : t ∉ a'.list (.sem s)) :
    e = .svc (.semGive (some s)) ∧ (a.list (.sem s)).head? = some t ∧ (a'.tcb t).state = .ready := by
  cases h with
  | other _ _ _ hp => exact absurd (hp.mem_iff.2 h1) h2
  | take _ _ hl =>
    rw [hl] at h2
    exact absurd h1 h2
  | queue _ _ hl =>
    rw [hl] at h2
    exact absurd (List.mem_append_left _ h1) h2
  | give hl _ _ =>
    rw [hl] at h1
    cases h1
  | hand hl _ hl' hr =>
    rw [hl] at h1 ⊢
    rw [hl'] at h2
    rcases List.mem_cons.1 h1 with rfl | h1
    · exact ⟨rfl, rfl, hr⟩
    · exact absurd h1 h2

theorem Outcome.tasks_mono (h : Inv a) (hc : a.gCurrent = some cur) {e : Entry} {r : ℤ}
    (ho : Outcome a cur e r a') (ht : t ∈ a.tasks) : t ∈ a'.tasks := by
  rcases ho.mutex_cases h hc with ⟨fr, -⟩ | ⟨m, -, -, -, rfl⟩ | ⟨m, o, -, -, hm, -, rfl⟩ |
      ⟨m, found, p, -, -, -, -, -, rfl⟩
  · exact fr.tasks t ht
  · exact ht
  · rw [(h.queued hc hm).tasks]
    exact ht
  · rw [Model.handOff_frame.tasks, Model.setPriority_toGlobals, Model.dropOwned_tasks]
    exact ht

/-- The takers a give removes: none, or the first in the queue. -/
theorem removed_card (hs : Sim k a) (hi : Inv a) (hc : a.gCurrent = some cur) {e : Entry} {r : ℤ}
    (ho : Outcome a cur e r a') (hs' : Sim k' a') (hi' : Inv a')
    {x : Option TaskId} (hx : ∀ t, t ∈ a.list (.sem s) ∧ t ∉ a'.list (.sem s) ↔ x = some t) :
    (k.tasks.toFinset.filter fun t => InTake k s t ∧ ¬ InTake k' s t).card = x.toList.length := by
  have hset : k.tasks.toFinset.filter (fun t => InTake k s t ∧ ¬ InTake k' s t) =
      x.toList.toFinset := by
    ext t
    simp only [Finset.mem_filter, List.mem_toFinset, Option.mem_toList, ← hx t, hs.tasks]
    constructor
    · rintro ⟨ht, h1, h2⟩
      rw [hs.inTake_iff hi.wf ht] at h1
      rw [hs'.inTake_iff hi'.wf (Outcome.tasks_mono hi hc ho ht)] at h2
      exact ⟨h1, h2⟩
    · rintro ⟨h1, h2⟩
      have ht := hi.wf.mem_tasks h1
      refine ⟨ht, (hs.inTake_iff hi.wf ht).2 h1, ?_⟩
      rw [hs'.inTake_iff hi'.wf (Outcome.tasks_mono hi hc ho ht)]
      exact h2
  rw [hset]
  cases x <;> rfl

/-- The tokens a give adds and a grant takes away are those the count gains and loses. -/
theorem sem_balance {e : Entry} {r : ℤ} (hs : Sim k a) (hi : Inv a) (hc : a.gCurrent = some cur)
    (he : a.Enabled e) (ho : Outcome a cur e r a') (hs' : Sim k' a') (hi' : Inv a')
    (h0 : 0 ≤ a.semCount s)
    (hlt : a.semCount s + (if (⟨k, e, r, k'⟩ : Obs).Gives s then 1 else 0) < 2 ^ 31) :
    a.semCount s + (if (⟨k, e, r, k'⟩ : Obs).Gives s then 1 else 0) =
      a'.semCount s + (⟨k, e, r, k'⟩ : Obs).grants s := by
  have hcount' : k'.semCount = a'.semCount := hs'.semCount
  cases ho.sem_step hi hc he s with
  | other h1 h2 hcn _ =>
    have hgive : ¬ (⟨k, e, r, k'⟩ : Obs).Gives s := h2
    have hgr : (⟨k, e, r, k'⟩ : Obs).grants s = 0 := grants_other h1 h2
    rw [if_neg hgive, hgr, hcn]
    rfl
  | take hc0 hcn _ =>
    have hgive : ¬ (⟨k, .svc (.semTake (some s)), r, k'⟩ : Obs).Gives s := by simp [Obs.Gives]
    rw [if_neg hgive] at hlt ⊢
    have hdec : a'.semCount s = a.semCount s - 1 := by
      rw [hcn]
      exact i32_eq (by omega) (by omega)
    rw [grants_take (by rfl), hs.semCount, hcount', if_pos hdec, hdec]
    push_cast
    omega
  | queue _ hcn _ =>
    have hgive : ¬ (⟨k, .svc (.semTake (some s)), r, k'⟩ : Obs).Gives s := by simp [Obs.Gives]
    rw [if_neg hgive, grants_take (by rfl), hs.semCount, hcount', hcn, if_neg (by omega)]
    rfl
  | give hl hcn _ =>
    have hgive : (⟨k, .svc (.semGive (some s)), r, k'⟩ : Obs).Gives s := rfl
    rw [if_pos hgive] at hlt ⊢
    rw [grants_give hgive, removed_card (x := none) hs hi hc ho hs' hi' (by simp [hl]), hcn,
      i32_eq (by omega) hlt]
    simp
  | @hand _ t l hl hcn hl' _ =>
    have hgive : (⟨k, .svc (.semGive (some s)), r, k'⟩ : Obs).Gives s := rfl
    have hnd := hi.wf.nodup (.sem s)
    rw [hl, List.nodup_cons] at hnd
    have hx : ∀ u, u ∈ a.list (.sem s) ∧ u ∉ a'.list (.sem s) ↔ some t = some u := by
      intro u
      rw [hl, hl', List.mem_cons, Option.some.injEq]
      constructor
      · rintro ⟨rfl | hu, hu'⟩
        · rfl
        · exact absurd hu hu'
      · rintro rfl
        exact ⟨.inl rfl, hnd.1⟩
    rw [if_pos hgive, grants_give hgive, removed_card (x := some t) hs hi hc ho hs' hi' hx, hcn]
    rfl

/-- A count is never negative, and when there is one nobody waits. -/
theorem Model.SemStep.idle {e : Entry} (h : Model.SemStep a cur s e a') (h0 : 0 ≤ a.semCount s)
    (h1 : 0 < a.semCount s → a.list (.sem s) = []) (hlt : a.semCount s < 2 ^ 31)
    (hgive : e = .svc (.semGive (some s)) → a.semCount s + 1 < 2 ^ 31) :
    0 ≤ a'.semCount s ∧ (0 < a'.semCount s → a'.list (.sem s) = []) := by
  cases h with
  | other _ _ hcn hp =>
    rw [hcn]
    refine ⟨h0, fun hc0 => ?_⟩
    rw [h1 hc0] at hp
    exact hp.eq_nil
  | take hc0 hcn hl =>
    rw [hcn, i32_eq (by omega) (by omega), hl]
    exact ⟨by omega, fun _ => h1 hc0⟩
  | queue hc0 hcn _ =>
    rw [hcn]
    exact ⟨h0, fun hc1 => absurd hc1 hc0⟩
  | give _ hcn hl' =>
    rw [hcn, i32_eq (by omega) (hgive rfl)]
    exact ⟨by omega, fun _ => hl'⟩
  | hand hl hcn _ _ =>
    rw [hcn]
    refine ⟨h0, fun hc1 => ?_⟩
    rw [h1 hc1] at hl
    cases hl

/-- The accounting of one semaphore that was initialised with `n`. -/
structure Tokens (n : ℤ) (os : List Obs) (a : Model) (s : SemId) : Prop where
  nonneg : 0 ≤ a.semCount s
  idle : 0 < a.semCount s → a.list (.sem s) = []
  balance : n + gives os s = a.semCount s + granted os s

theorem Tokens.step {n : ℤ} {e : Entry} {r : ℤ} (h : Tokens n os a s) (hs : Sim k a) (hi : Inv a)
    (hc : a.gCurrent = some cur) (he : a.Enabled e) (ho : Outcome a cur e r a') (hs' : Sim k' a')
    (hi' : Inv a') (hn : n + gives (os ++ [⟨k, e, r, k'⟩]) s < 2 ^ 31) :
    Tokens n (os ++ [⟨k, e, r, k'⟩]) a' s := by
  have hb := h.balance
  rw [gives_snoc] at hn
  push_cast at hn
  have hg : (0 : ℤ) ≤ granted os s := Int.natCast_nonneg _
  have hlt : a.semCount s + (if (⟨k, e, r, k'⟩ : Obs).Gives s then 1 else 0) < 2 ^ 31 := by omega
  have hstep := ho.sem_step hi hc he s
  have hlt' : a.semCount s < 2 ^ 31 := by split_ifs at hlt <;> omega
  have hgive : e = .svc (.semGive (some s)) → a.semCount s + 1 < 2 ^ 31 := fun hx => by
    rwa [if_pos (show (⟨k, e, r, k'⟩ : Obs).Gives s from hx)] at hlt
  obtain ⟨h1, h2⟩ := hstep.idle h.nonneg h.idle hlt' hgive
  refine ⟨h1, h2, ?_⟩
  have hbal := sem_balance hs hi hc he ho hs' hi' h.nonneg hlt
  rw [gives_snoc, granted_snoc]
  push_cast
  omega

theorem run_tokens (h : Run b os k) (s : SemId) :
    ∃ a, Sim k a ∧ Inv a ∧ (b.semCount s + gives os s < 2 ^ 31 → Tokens (b.semCount s) os a s) := by
  refine run_induct (P := fun os _ a => b.semCount s + gives os s < 2 ^ 31 →
    Tokens (b.semCount s) os a s) (fun _ hst _ => ?_) ?_ h
  · refine ⟨?_, fun _ => hst.list_wait rfl, ?_⟩
    · rw [hst.semCount]
      exact b.semCount_nonneg s
    · rw [hst.semCount]
      rfl
  · intro os k a k' a' cur e r hs hi hc he ho hs' hi' hp hn
    refine (hp ?_).step hs hi hc he ho hs' hi' hn
    rw [gives_snoc] at hn
    push_cast at hn
    split_ifs at hn <;> omega

/-- Who leaves a take has been handed the token of a give, and nobody else has. -/
theorem leaves_take {os₁ os₂ : List Obs} (h : Run b os k) (hos : os = os₁ ++ o :: os₂)
    (ht : t ∈ o.pre.tasks) (hin : InTake o.pre s t) (hr : (o.post.tcb t).state = .ready) :
    o.Gives s ∧ ∃ a, Sim o.pre a ∧ Inv a ∧ (a.list (.sem s)).head? = some t := by
  obtain ⟨hpre, he, hret⟩ := h.split hos
  obtain ⟨a, hs, hi⟩ := run_sim hpre
  obtain ⟨cur, -, hc⟩ := hi.cur
  obtain ⟨a', hs', hi', ho⟩ := exec_sim hs hi hc he hret
  have hta : t ∈ a.tasks := by
    rw [← hs.tasks]
    exact ht
  have h1 := (hs.inTake_iff hi.wf hta).1 hin
  have h2 : t ∉ a'.list (.sem s) := by
    rw [← hs'.inTake_iff hi'.wf (Outcome.tasks_mono hi hc ho hta), InTake, hr]
    simp
  obtain ⟨hg, hh, -⟩ := (ho.sem_step hi hc (hs.globals ▸ he) s).leaves h1 h2
  exact ⟨hg, a, hs, hi, hh⟩

/-- Tokens are conserved, and a wake-up is a give's, one for one. -/
theorem semaphore_conservation (h : Run b os k) (s : SemId)
    (hn : b.semCount s + gives os s ≤ 2 ^ 31 - 1) :
    0 ≤ k.semCount s ∧ (0 < k.semCount s → Dll.Repr k.links (k.queue (.sem s)) []) ∧
    b.semCount s + gives os s = k.semCount s + granted os s ∧
    ∀ o ∈ os, ∀ t ∈ o.pre.tasks, InTake o.pre s t → (o.post.tcb t).state = .ready →
      o.Gives s ∧ ∀ u ∈ o.pre.tasks, InTake o.pre s u → (o.post.tcb u).state = .ready → u = t := by
  obtain ⟨a, hs, hi, htok⟩ := run_tokens h s
  have tok := htok (by omega)
  refine ⟨by rw [hs.semCount]; exact tok.nonneg, fun hpos => ?_, by rw [hs.semCount]; exact tok.balance,
    fun o ho t ht hin hr => ?_⟩
  · have hl := tok.idle (hs.semCount ▸ hpos)
    have hrep := hs.repr (.sem s)
    rwa [hl] at hrep
  · obtain ⟨os₁, os₂, hos⟩ := List.append_of_mem ho
    obtain ⟨hg, a₁, hs₁, hi₁, hh₁⟩ := leaves_take h hos ht hin hr
    refine ⟨hg, fun u hu huin hur => ?_⟩
    obtain ⟨-, a₂, hs₂, hi₂, hh₂⟩ := leaves_take h hos hu huin hur
    have he := (hs₁.repr (.sem s)).head.symm.trans (hs₂.repr (.sem s)).head
    rw [hh₁, hh₂] at he
    exact (Option.some.inj he).symm

/-- Two takes of an empty semaphore and one give: one taker is granted, one still waits. -/
theorem semaphore_conservation_small : ∃ os k, Run (Boot.small [1, 1, 2] 0 0 (by decide)) os k ∧
    gives os 0 = 1 ∧ InTake k 0 128 ∧ 0 ≤ k.semCount 0 ∧ 1 = k.semCount 0 + granted os 0 := by
  obtain ⟨os, k, hr, hg, hin⟩ := Boot.play_exists (Boot.small [1, 1, 2] 0 0 (by decide))
    10
    [.pendSV, .svc (.semTake (some 0)), .pendSV, .svc (.semTake (some 0)), .pendSV,
      .svc (.semGive (some 0)), .pendSV]
    (fun os k => gives os 0 = 1 ∧ InTake k 0 128) (by decide +kernel)
  have h0 : (Boot.small [1, 1, 2] 0 0 (by decide)).semCount 0 = 0 := rfl
  obtain ⟨h1, -, h3, -⟩ := semaphore_conservation hr 0 (by rw [hg, h0]; norm_num)
  rw [hg, h0] at h3
  exact ⟨os, k, hr, hg, hin, h1, by simpa using h3⟩

end Rtos

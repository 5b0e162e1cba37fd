import Rtos.Proofs.Structure
import Rtos.Model.Frames

/-! Mutual exclusion. A contended lock returns 0 long before the caller owns the
mutex, so a task holds a mutex only once it has run again after the call. -/

namespace Rtos

open Lib

open Model (WF Inv Outcome)

variable {b : Boot} {os : List Obs} {o : Obs} {k : Kernel} {a a' : Model} {t cur : TaskId}
  {m : MutexId}

/-- A completed `os_mutex_lock(m)` by `t` that returned 0. -/
def Obs.Locks (o : Obs) (t : TaskId) (m : MutexId) : Prop :=
  o.entry = .svc (.mutexLock (some m)) ∧ o.ret = 0 ∧ o.pre.gCurrent = some t

def Obs.Unlocks (o : Obs) (t : TaskId) (m : MutexId) : Prop :=
  o.entry = .svc (.mutexUnlock (some m)) ∧ o.ret = 0 ∧ o.pre.gCurrent = some t

/-- After the entry it is the code of `t` that executes. -/
def Obs.Resumes (o : Obs) (t : TaskId) : Prop := o.post.TaskRuns ∧ o.post.gCurrent = some t

/-- `t` has locked `m` and has not unlocked it since; it may still be queued for it. -/
def Claims (os : List Obs) (t : TaskId) (m : MutexId) : Prop :=
  ∃ os₁ o os₂, os = os₁ ++ o :: os₂ ∧ o.Locks t m ∧ ∀ o' ∈ os₂, ¬ o'.Unlocks t m

/-- `t` has resumed after a lock of `m` and has not unlocked it since. -/
def Holds (os : List Obs) (t : TaskId) (m : MutexId) : Prop :=
  ∃ os₁ o os₂, os = os₁ ++ o :: os₂ ∧ o.Locks t m ∧ (∀ o' ∈ os₂, ¬ o'.Unlocks t m) ∧
    ∃ o' ∈ o :: os₂, o'.Resumes t

theorem claims_snoc (h : Claims (os ++ [o]) t m) :
    o.Locks t m ∨ Claims os t m ∧ ¬ o.Unlocks t m := by
  obtain ⟨os₁, o₁, os₂, he, hl, hu⟩ := h
  rcases snoc_split he with ⟨-, rfl, -⟩ | ⟨os₃, rfl, rfl⟩
  · exact .inl hl
  · exact .inr ⟨⟨os₁, o₁, os₃, rfl, hl, fun o' ho' => hu o' (by simp [ho'])⟩, hu o (by simp)⟩

theorem holds_snoc (h : Holds (os ++ [o]) t m) :
    Holds os t m ∧ ¬ o.Unlocks t m ∨ Claims (os ++ [o]) t m ∧ o.Resumes t := by
  obtain ⟨os₁, o₁, os₂, he, hl, hu, o₂, ho₂, hr⟩ := h
  have hc : Claims (os ++ [o]) t m := ⟨os₁, o₁, os₂, he, hl, hu⟩
  rcases snoc_split he with ⟨-, rfl, rfl⟩ | ⟨os₃, rfl, rfl⟩
  · obtain rfl := List.mem_singleton.1 ho₂
    exact .inr ⟨hc, hr⟩
  · by_cases hlast : o₂ = o
    · exact .inr ⟨hc, hlast ▸ hr⟩
    · refine .inl ⟨⟨os₁, o₁, os₃, rfl, hl, fun o' ho' => hu o' (by simp [ho']), o₂, ?_, hr⟩,
        hu o (by simp)⟩
      simpa [hlast] using ho₂

/-- A mutex without an owner has no waiters, and its owner is not one of them. -/
structure MutexOk (a : Model) : Prop where
  free : ∀ m, (a.mutex m).owner = none → a.list (.mutex m) = []
  apart : ∀ m t, (a.mutex m).owner = some t → t ∉ a.list (.mutex m)

theorem MutexOk.step (h : MutexOk a) (hi : Inv a) (hc : a.gCurrent = some cur) {e : Entry} {r : ℤ}
    (he : a.Enabled e) (ho : Outcome a cur e r a') : MutexOk a' := by
  refine ⟨fun m hn => ?_, fun m t hown => ?_⟩
  · cases ho.mutex_step hi hc he m with
    | other _ _ ho hl =>
      rw [ho] at hn
      refine List.eq_nil_iff_forall_not_mem.2 fun u hu => ?_
      have := (hl u).1 hu
      rw [h.free m hn] at this
      cases this
    | free _ ho _ => cases ho.symm.trans hn
    | queue _ _ ho _ => cases ho.symm.trans hn
    | pass _ ho hl =>
      rw [ho, List.head?_eq_none_iff] at hn
      rw [hl, hn]
      rfl
  · cases ho.mutex_step hi hc he m with
    | other _ _ ho hl =>
      rw [hl]
      exact h.apart m t (ho ▸ hown)
    | free hm _ hl =>
      rw [hl, h.free m hm]
      nofun
    | queue hm hoc ho hl =>
      obtain rfl := Option.some.inj (ho.symm.trans hown)
      rw [hl, not_or]
      exact ⟨h.apart m _ hm, hoc⟩
    | pass _ ho hl =>
      -- the new owner was the first waiter, and it was there once
      obtain ⟨l, hl'⟩ := List.head?_eq_some_iff.1 (ho.symm.trans hown)
      have hnd := hi.wf.nodup (.mutex m)
      rw [hl', List.nodup_cons] at hnd
      rw [hl, hl']
      exact hnd.1

/-- Whoever owns a mutex keeps it until it unlocks it itself. -/
theorem owner_step (hi : Inv a) (hc : a.gCurrent = some cur) {e : Entry}
    {r : ℤ} (he : a.Enabled e) (ho : Outcome a cur e r a') (hown : (a.mutex m).owner = some t)
    (hu : ¬ (e = .svc (.mutexUnlock (some m)) ∧ r = 0 ∧ cur = t)) : (a'.mutex m).owner = some t := by
  cases ho.mutex_step hi hc he m with
  | other _ _ ho _ => rw [ho, hown]
  | free hm _ _ => cases hm.symm.trans hown
  | queue hm _ ho _ => rw [ho, ← hm, hown]
  | pass hm _ _ => exact absurd ⟨rfl, rfl, Option.some.inj (hm.symm.trans hown)⟩ hu

/-- Whoever owns or waits for a mutex goes on to do so, until it unlocks it. -/
theorem claim_step (hi : Inv a) (hc : a.gCurrent = some cur) {e : Entry}
    {r : ℤ} (he : a.Enabled e) (ho : Outcome a cur e r a')
    (hcl : (a.mutex m).owner = some t ∨ t ∈ a.list (.mutex m))
    (hu : ¬ (e = .svc (.mutexUnlock (some m)) ∧ r = 0 ∧ cur = t)) :
    (a'.mutex m).owner = some t ∨ t ∈ a'.list (.mutex m) := by
  rcases hcl with hown | hmem
  · exact .inl (owner_step hi hc he ho hown hu)
  cases ho.mutex_step hi hc he m with
  | other _ _ _ hl => exact .inr ((hl t).2 hmem)
  | free _ _ hl => exact .inr (hl ▸ hmem)
  | queue _ _ _ hl => exact .inr ((hl t).2 (.inl hmem))
  | pass _ ho hl =>
    rw [ho, hl]
    exact Model.mem_head_or_tail hmem

/-- The histories of lock and unlock calls agree with the owners and the waiters. -/
structure Exclusive (os : List Obs) (a : Model) : Prop where
  ok : MutexOk a
  claim : ∀ t m, Claims os t m → (a.mutex m).owner = some t ∨ t ∈ a.list (.mutex m)
  hold : ∀ t m, Holds os t m → (a.mutex m).owner = some t

theorem Exclusive.step {k' : Kernel} {e : Entry} {r : ℤ} (h : Exclusive os a) (hs : Sim k a)
    (hi : Inv a) (hc : a.gCurrent = some cur) (he : a.Enabled e) (ho : Outcome a cur e r a')
    (hs' : Sim k' a') (hi' : Inv a') : Exclusive (os ++ [⟨k, e, r, k'⟩]) a' := by
  have hcur : ∀ t, k.gCurrent = some t ↔ cur = t := fun t => by
    rw [hs.gCurrent, hc, Option.some.injEq]
  have hclaim : ∀ t m, Claims (os ++ [⟨k, e, r, k'⟩]) t m →
      (a'.mutex m).owner = some t ∨ t ∈ a'.list (.mutex m) := by
    intro t m hcl
    rcases claims_snoc hcl with ⟨rfl, hr, ht⟩ | ⟨hcl, hu⟩
    · obtain rfl := (hcur t).1 ht
      cases ho.mutex_step hi hc he m with
      | other hl _ _ _ =>
        rw [(hl rfl).2] at hr
        cases hr
      | free _ ho _ => exact .inl ho
      | queue _ _ _ hl => exact .inr ((hl cur).2 (.inr rfl))
    · refine claim_step hi hc he ho (h.claim t m hcl) ?_
      rintro ⟨h1, h2, h3⟩
      exact hu ⟨h1, h2, (hcur t).2 h3⟩
  refine ⟨h.ok.step hi hc he ho, hclaim, fun t m hh => ?_⟩
  rcases holds_snoc hh with ⟨hh, hu⟩ | ⟨hcl, hp, ht⟩
  · refine owner_step hi hc he ho (h.hold t m hh) ?_
    rintro ⟨h1, h2, h3⟩
    exact hu ⟨h1, h2, (hcur t).2 h3⟩
  · rcases hclaim t m hcl with hown | hmem
    · exact hown
    · -- a task that runs is in no queue
      have hp' : a'.pendsv = false := by rw [← hs'.globals]; exact hp
      exact absurd hmem (hi'.running_not_waiting hp' (hs'.gCurrent.symm.trans ht) rfl)

theorem Started.owner_ne (h : Started b a) (m : MutexId) (t : TaskId) :
    (a.mutex m).owner ≠ some t := by
  rw [h.mutex m]
  simp

theorem Started.mutexOk (h : Started b a) : MutexOk a :=
  ⟨fun _ _ => h.list_wait rfl, fun m t ht => absurd ht (h.owner_ne m t)⟩

theorem run_exclusive (h : Run b os k) : ∃ a, Sim k a ∧ Inv a ∧ Exclusive os a := by
  refine run_induct (P := fun os _ a => Exclusive os a) (fun _ hst => ?_)
    (fun hs hi hc he ho hs' hi' hp => hp.step hs hi hc he ho hs' hi') h
  refine ⟨hst.mutexOk, fun t m hcl => ?_, fun t m hh => ?_⟩
  · obtain ⟨os₁, o, os₂, he, -⟩ := hcl
    simp at he
  · obtain ⟨os₁, o, os₂, he, -⟩ := hh
    simp at he

/-- At most one task holds a mutex, and then it is the owner. A free mutex has no
waiters, the owner is not waiting, and a lock by the owner or an unlock by anyone
else returns -1 with the state as it was. -/
theorem mutual_exclusion (h : Run b os k) (m : MutexId) :
    {t | Holds os t m}.Subsingleton ∧ (∀ t, Holds os t m → (k.mutex m).owner = some t) ∧
    (∃ waiters, Dll.Repr k.links (k.queue (.mutex m)) waiters ∧
      ((k.mutex m).owner = none → waiters = []) ∧
      ∀ t, (k.mutex m).owner = some t → t ∉ waiters) ∧
    ((k.mutex m).owner = k.gCurrent → (exec k (.svc (.mutexLock (some m)))).Returns (-1, k)) ∧
    ((k.mutex m).owner ≠ k.gCurrent → (exec k (.svc (.mutexUnlock (some m)))).Returns (-1, k)) := by
  obtain ⟨a, hs, hi, hx⟩ := run_exclusive h
  obtain ⟨cur, -, hc⟩ := hi.cur
  have hkc : k.gCurrent = some cur := hs.gCurrent.trans hc
  have hown : ∀ t, Holds os t m → (k.mutex m).owner = some t := fun t ht => by
    rw [hs.mutex]
    exact hx.hold t m ht
  refine ⟨fun t ht u hu => ?_, hown, ⟨a.list (.mutex m), hs.repr _, ?_, ?_⟩, fun ho => ?_, fun ho => ?_⟩
  · exact Option.some.inj ((hown t ht).symm.trans (hown u hu))
  · rw [hs.mutex]
    exact hx.ok.free m
  · rw [hs.mutex]
    exact hx.ok.apart m
  · rw [hkc] at ho
    simp [exec, osPortSvcDispatch, osKernelMutexLock, hkc, ho]
  · simp [exec, osPortSvcDispatch, osKernelMutexUnlock, ho]

theorem Claims.snoc (h : Claims os t m) (hu : ¬ o.Unlocks t m) : Claims (os ++ [o]) t m := by
  obtain ⟨os₁, o₁, os₂, rfl, hl, hno⟩ := h
  refine ⟨os₁, o₁, os₂ ++ [o], by simp, hl, fun o' ho' => ?_⟩
  rcases List.mem_append.1 ho' with ho' | ho'
  · exact hno o' ho'
  · exact List.mem_singleton.1 ho' ▸ hu

theorem claims_of_locks (h : o.Locks t m) : Claims (os ++ [o]) t m :=
  ⟨os, o, [], rfl, h, by simp⟩

theorem Claims.snoc_lock {k' : Kernel} {r : ℤ} {m' : MutexId} (h : Claims os t m) :
    Claims (os ++ [⟨k, .svc (.mutexLock (some m')), r, k'⟩]) t m := by
  refine h.snoc fun hu => ?_
  have := hu.1
  simp at this

/-- Conversely, the owner and the waiters of a mutex have locked it. -/
theorem run_claimed (h : Run b os k) : ∃ a, Sim k a ∧ Inv a ∧ MutexOk a ∧ ∀ t m,
    (a.mutex m).owner = some t ∨ t ∈ a.list (.mutex m) → Claims os t m := by
  refine run_induct (P := fun os _ a => MutexOk a ∧ ∀ t m,
    (a.mutex m).owner = some t ∨ t ∈ a.list (.mutex m) → Claims os t m) (fun _ hst => ?_) ?_ h
  · refine ⟨hst.mutexOk, fun t m hcl => ?_⟩
    rcases hcl with hcl | hcl
    · exact absurd hcl (hst.owner_ne m t)
    · rw [hst.list_wait rfl] at hcl
      cases hcl
  · rintro os k a k' a' cur e r hs hi hc he ho hs' hi' ⟨ok, hp⟩
    refine ⟨ok.step hi hc he ho, fun t m hcl => ?_⟩
    have hkc : k.gCurrent = some cur := hs.gCurrent.trans hc
    cases ho.mutex_step hi hc he m with
    | other _ hun ho hl =>
      rw [ho, hl] at hcl
      refine (hp t m hcl).snoc ?_
      rintro ⟨rfl, h0, -⟩
      rw [(hun rfl).2] at h0
      cases h0
    | free hm ho hl =>
      rw [ho, hl, ok.free m hm] at hcl
      obtain rfl : cur = t := hcl.elim Option.some.inj nofun
      exact claims_of_locks ⟨rfl, rfl, hkc⟩
    | queue hm _ ho hl =>
      rw [ho, ← hm, hl, ← or_assoc] at hcl
      rcases hcl with hcl | rfl
      · exact (hp t m hcl).snoc_lock
      · exact claims_of_locks ⟨rfl, rfl, hkc⟩
    | pass _ ho hl =>
      rw [ho, hl] at hcl
      have hmem : t ∈ a.list (.mutex m) := hcl.elim List.mem_of_mem_head? List.mem_of_mem_tail
      refine (hp t m (.inr hmem)).snoc ?_
      rintro ⟨-, -, ht⟩
      obtain rfl : cur = t := Option.some.inj (hkc.symm.trans ht)
      exact hi.running_not_waiting he.1 hc rfl hmem

theorem claims_of_owner (h : Run b os k) (ho : (k.mutex m).owner = some t) : Claims os t m := by
  obtain ⟨a, hs, -, -, hp⟩ := run_claimed h
  rw [hs.mutex] at ho
  exact hp t m (.inl ho)

/-! Histories are lists, so who holds a mutex can be computed. -/

instance (o : Obs) (t : TaskId) (m : MutexId) : Decidable (o.Locks t m) :=
  inferInstanceAs (Decidable (_ ∧ _ ∧ _))

instance (o : Obs) (t : TaskId) (m : MutexId) : Decidable (o.Unlocks t m) :=
  inferInstanceAs (Decidable (_ ∧ _ ∧ _))

instance (o : Obs) (t : TaskId) : Decidable (o.Resumes t) :=
  inferInstanceAs (Decidable (o.post.pendsv = false ∧ _))

def holdsFrom (t : TaskId) (m : MutexId) : List Obs → Bool
  | [] => false
  | o :: os => o.Locks t m ∧ (∀ o' ∈ os, ¬ o'.Unlocks t m) ∧ ∃ o' ∈ o :: os, o'.Resumes t

theorem holds_iff : (∃ l ∈ os.tails, holdsFrom t m l = true) ↔ Holds os t m := by
  constructor
  · rintro ⟨l, hl, h⟩
    obtain ⟨os₁, rfl⟩ := (List.mem_tails _ _).1 hl
    cases l with
    | nil => cases h
    | cons o os₂ => exact ⟨os₁, o, os₂, rfl, of_decide_eq_true h⟩
  · rintro ⟨os₁, o, os₂, rfl, h⟩
    exact ⟨o :: os₂, (List.mem_tails _ _).2 (List.suffix_append _ _), decide_eq_true h⟩

instance : Decidable (Holds os t m) := decidable_of_iff _ holds_iff

/-- A contended lock: the waiter is queued, the owner unlocks, and the waiter resumes. -/
theorem mutual_exclusion_small : ∃ os k, Run (Boot.small [2, 2] 0 0 (by decide)) os k ∧
    Holds os 128 0 ∧ {t | Holds os t 0}.Subsingleton ∧ (k.mutex 0).owner = some 128 := by
  obtain ⟨os, k, hr, hh⟩ := Boot.play_exists (Boot.small [2, 2] 0 0 (by decide)) 10
    [.pendSV, .svc (.mutexLock (some 0)), .svc .yield, .pendSV, .svc (.mutexLock (some 0)),
      .pendSV, .svc (.mutexUnlock (some 0)), .svc .yield, .pendSV]
    (fun os _ => Holds os 128 0) (by decide +kernel)
  obtain ⟨h1, h2, -⟩ := mutual_exclusion hr 0
  exact ⟨os, k, hr, hh, h1, h2 128 hh⟩

end Rtos

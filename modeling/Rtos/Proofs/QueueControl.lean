import Rtos.Kernel.Queue
import Rtos.Proofs.Semaphore
import Rtos.Proofs.MutualExclusion

/-! The blocking queue is a bounded FIFO. Every token of `spaces` is in its count, or with
a sender that has not copied yet, or with a receiver that has; and the other way round for
`items`. So a sender that gets to its copy has a free slot and a receiver a full one, and
the lock keeps the copies and the index updates apart. -/

namespace Rtos

open Lib

open Model (WF Inv Outcome SemStep MutexStep)

variable {b : Boot} {os : List Obs} {k k₀ : Kernel} {a a' : Model} {t u cur : TaskId} {x : SemId}
  {q : OsQueue} {pc pc' : TaskId → QueuePc} {call : QueueCall} {stage : QueueStage} {n : ℕ}

/-- One term of a sum has changed. -/
theorem sum_change {S : Finset TaskId} {f g : TaskId → ℕ} (ht : t ∈ S)
    (h : ∀ u ∈ S, u ≠ t → g u = f u) : ∑ u ∈ S, g u + f t = ∑ u ∈ S, f u + g t := by
  have hrest : ∑ u ∈ S.erase t, g u = ∑ u ∈ S.erase t, f u :=
    Finset.sum_congr rfl fun u hu => h u (Finset.mem_of_mem_erase hu) (Finset.ne_of_mem_erase hu)
  rw [← Finset.add_sum_erase S g ht, ← Finset.add_sum_erase S f ht, hrest]
  omega

namespace QueueStage

/-- The call has its token, or waits for it, and has not copied. -/
def before : QueueStage → Bool
  | .lock | .undo _ | .copy => true
  | _ => false

/-- The call has copied and still has to give. -/
def after : QueueStage → Bool
  | .index | .unlock | .give => true
  | _ => false

/-- Between lock and unlock. -/
def critical : QueueStage → Bool
  | .copy | .index | .unlock => true
  | _ => false

end QueueStage

def QueuePc.critical : QueuePc → Bool
  | .outside => false
  | .inside _ stage => stage.critical

/-- The tokens of `x` that a call has, with `l` waiting for `x`. -/
def held (q : OsQueue) (x : SemId) (l : List TaskId) (t : TaskId) : QueuePc → ℕ
  | .outside => 0
  | .inside call stage =>
    (if q.source call = x ∧ stage.before = true ∧ t ∉ l then 1 else 0) +
      if q.target call = x ∧ stage.after = true then 1 else 0

theorem held_congr {l l' : List TaskId} {c : QueuePc} (h : t ∈ l' ↔ t ∈ l) :
    held q x l' t c = held q x l t c := by
  cases c with
  | outside => rfl
  | inside call stage => simp only [held, h]

/-- The accounting of a semaphore of the queue: `n` tokens are in the count or with a call. -/
structure SemOk (q : OsQueue) (x : SemId) (n : ℕ) (a : Model) (pc : TaskId → QueuePc) : Prop where
  nonneg : 0 ≤ a.semCount x
  idle : 0 < a.semCount x → a.list (.sem x) = []
  waits : ∀ t ∈ a.list (.sem x), ∃ call, pc t = .inside call .lock ∧ q.source call = x
  balance : a.semCount x + ∑ t ∈ a.tasks.toFinset, held q x (a.list (.sem x)) t (pc t) = n

namespace SemOk

variable (h : SemOk q x n a pc)
include h

theorem count_le : a.semCount x ≤ n := by
  have := h.balance
  omega

/-- The semaphore is left alone, and no call gains or loses a token of it. -/
theorem frame (hs : a'.semCount x = a.semCount x)
    (hl : (a'.list (.sem x)).Perm (a.list (.sem x))) (ht : ∀ t ∈ a.tasks, t ∈ a'.tasks)
    (hout : ∀ t, t ∉ a.tasks → pc' t = .outside) (hpc : ∀ t ∈ a.list (.sem x), pc' t = pc t)
    (hheld : ∀ t, held q x (a.list (.sem x)) t (pc' t) = held q x (a.list (.sem x)) t (pc t)) :
    SemOk q x n a' pc' := by
  refine ⟨by rw [hs]; exact h.nonneg, fun hpos => ?_, fun t htl => ?_, ?_⟩
  · rw [hs] at hpos
    rw [h.idle hpos] at hl
    exact hl.eq_nil
  · have htl' := hl.mem_iff.1 htl
    rw [hpc t htl']
    exact h.waits t htl'
  · have hsub : a.tasks.toFinset ⊆ a'.tasks.toFinset := fun u hu =>
      List.mem_toFinset.2 (ht u (List.mem_toFinset.1 hu))
    have hsum : ∑ t ∈ a'.tasks.toFinset, held q x (a'.list (.sem x)) t (pc' t) =
        ∑ t ∈ a.tasks.toFinset, held q x (a.list (.sem x)) t (pc t) := by
      rw [← Finset.sum_subset hsub]
      · refine Finset.sum_congr rfl fun u _ => ?_
        rw [held_congr hl.mem_iff, hheld]
      · intro u _ hu
        rw [hout u fun hm => hu (List.mem_toFinset.2 hm)]
        rfl
    rw [hs, hsum]
    exact h.balance

/-- The same, with one task that moves on. -/
theorem move {c : QueuePc} (hs : a'.semCount x = a.semCount x)
    (hl : (a'.list (.sem x)).Perm (a.list (.sem x))) (htasks : a'.tasks = a.tasks)
    (hmem : ∀ u, pc u ≠ .outside → u ∈ a.tasks) (ht : t ∈ a.tasks) (hnw : t ∉ a.list (.sem x))
    (hheld : held q x (a.list (.sem x)) t c = held q x (a.list (.sem x)) t (pc t)) :
    SemOk q x n a' (Function.update pc t c) := by
  refine h.frame hs hl (fun u hu => by rwa [htasks]) (fun u hu => ?_) (fun u hu => ?_) fun u => ?_
  · have hut : u ≠ t := fun hx => hu (hx ▸ ht)
    rw [Function.update_of_ne hut]
    by_contra hne
    exact hu (hmem u hne)
  · have hut : u ≠ t := fun hx => hnw (hx ▸ hu)
    rw [Function.update_of_ne hut]
  · by_cases hut : u = t
    · rw [hut, Function.update_self, hheld]
    · rw [Function.update_of_ne hut]

theorem take (hst : SemStep a t x (.svc (.semTake (some x))) a') (htasks : a'.tasks = a.tasks)
    (ht : t ∈ a.tasks) (hnw : t ∉ a.list (.sem x)) (hpc : pc t = .inside call .take)
    (hsrc : q.source call = x) (hn : n < 2 ^ 31) :
    SemOk q x n a' (Function.update pc t (.inside call .lock)) := by
  have hle := h.count_le
  have hnn := h.nonneg
  have hbal := h.balance
  have ht' : t ∈ a.tasks.toFinset := List.mem_toFinset.2 ht
  have hsum : ∀ l : List TaskId, (∀ u, u ≠ t → (u ∈ l ↔ u ∈ a.list (.sem x))) →
      ∑ u ∈ a.tasks.toFinset, held q x l u (Function.update pc t (.inside call .lock) u) =
        ∑ u ∈ a.tasks.toFinset, held q x (a.list (.sem x)) u (pc u) + if t ∈ l then 0 else 1 := by
    intro l hl
    have := sum_change (f := fun u => held q x (a.list (.sem x)) u (pc u))
      (g := fun u => held q x l u (Function.update pc t (.inside call .lock) u)) ht'
      fun u _ hu => by rw [Function.update_of_ne hu, held_congr (hl u hu)]
    simp only [Function.update_self, hpc] at this
    simpa [held, QueueStage.before, QueueStage.after, hsrc] using this
  have hwaits : ∀ u ∈ a.list (.sem x), ∃ call', Function.update pc t (.inside call .lock) u =
      .inside call' .lock ∧ q.source call' = x := by
    intro u hu
    have hut : u ≠ t := fun hx => hnw (hx ▸ hu)
    rw [Function.update_of_ne hut]
    exact h.waits u hu
  cases hst with
  | other h1 _ _ _ => exact absurd rfl h1
  | take hpos hc hl =>
    have hdec : a'.semCount x = a.semCount x - 1 := by
      rw [hc]
      exact i32_eq (by omega) (by omega)
    refine ⟨by omega, fun _ => by rw [hl, h.idle hpos], by rwa [hl], ?_⟩
    rw [htasks, hsum _ fun u _ => by rw [hl], hl, if_neg hnw, hdec]
    omega
  | queue hpos hc hl =>
    refine ⟨by rw [hc]; exact hnn, fun hpos' => absurd (hc ▸ hpos') hpos, fun u hu => ?_, ?_⟩
    · rw [hl] at hu
      rcases List.mem_append.1 hu with hu | hu
      · exact hwaits u hu
      · obtain rfl := List.mem_singleton.1 hu
        exact ⟨call, Function.update_self .., hsrc⟩
    · rw [htasks, hsum _ fun u hu => by rw [hl]; simp [hu], hl, if_pos (by simp), hc]
      simpa using hbal

theorem give (hst : SemStep a t x (.svc (.semGive (some x))) a') (htasks : a'.tasks = a.tasks)
    (hnd : (a.list (.sem x)).Nodup) (hmem : ∀ u ∈ a.list (.sem x), u ∈ a.tasks) (ht : t ∈ a.tasks)
    (hnw : t ∉ a.list (.sem x)) (hpc : pc t = .inside call .give) (htgt : q.target call = x)
    (hn : n < 2 ^ 31) : SemOk q x n a' (Function.update pc t .outside) := by
  have hnn := h.nonneg
  have hbal := h.balance
  have ht' : t ∈ a.tasks.toFinset := List.mem_toFinset.2 ht
  have hsum : ∑ u ∈ a.tasks.toFinset, held q x (a.list (.sem x)) u (Function.update pc t .outside u) + 1 =
      ∑ u ∈ a.tasks.toFinset, held q x (a.list (.sem x)) u (pc u) := by
    have := sum_change (f := fun u => held q x (a.list (.sem x)) u (pc u))
      (g := fun u => held q x (a.list (.sem x)) u (Function.update pc t .outside u)) ht'
      fun u _ hu => by rw [Function.update_of_ne hu]
    simp only [Function.update_self, hpc] at this
    simpa [held, QueueStage.before, QueueStage.after, htgt] using this
  have hwaits : ∀ u ∈ a.list (.sem x), ∃ call', Function.update pc t .outside u =
      .inside call' .lock ∧ q.source call' = x := by
    intro u hu
    have hut : u ≠ t := fun hx => hnw (hx ▸ hu)
    rw [Function.update_of_ne hut]
    exact h.waits u hu
  cases hst with
  | other _ h1 _ _ => exact absurd rfl h1
  | give hl hc hl' =>
    have hinc : a'.semCount x = a.semCount x + 1 := by
      rw [hc]
      exact i32_eq (by omega) (by omega)
    refine ⟨by omega, fun _ => hl', by rw [hl']; nofun, ?_⟩
    rw [hl] at hsum hbal
    rw [htasks, hl', hinc]
    omega
  | @hand _ u l hl hc hl' _ =>
    have hu : u ∈ a.list (.sem x) := by simp [hl]
    rw [hl, List.nodup_cons] at hnd
    refine ⟨by rw [hc]; exact hnn, fun hpos => ?_, fun v hv => hwaits v ?_, ?_⟩
    · rw [hc] at hpos
      rw [h.idle hpos] at hu
      cases hu
    · rw [hl'] at hv
      simp [hl, hv]
    · -- the token goes from `t` to `u`
      obtain ⟨call', hu', hsrc⟩ := hwaits u hu
      have hmove := sum_change (t := u)
        (f := fun v => held q x (a.list (.sem x)) v (Function.update pc t .outside v))
        (g := fun v => held q x l v (Function.update pc t .outside v))
        (List.mem_toFinset.2 (hmem u hu)) fun v _ hv => held_congr (by simp [hl, hv])
      simp only [hu'] at hmove
      have h0 : held q x (a.list (.sem x)) u (.inside call' .lock) = 0 := by
        simp [held, QueueStage.after, hu]
      have h1 : held q x l u (.inside call' .lock) = 1 := by
        simp [held, QueueStage.before, QueueStage.after, hsrc, hnd.1]
      rw [htasks, hl', hc]
      omega

/-- The copy of a call that has taken a token of `x`. -/
theorem spend (ht : t ∈ a.tasks) (hnw : t ∉ a.list (.sem x)) (hpc : pc t = .inside call .copy)
    (hsrc : q.source call = x) (htgt : q.target call ≠ x) :
    1 ≤ n ∧ SemOk q x (n - 1) a (Function.update pc t (.inside call .index)) := by
  have hbal := h.balance
  have hnn := h.nonneg
  have hsum := sum_change (f := fun u => held q x (a.list (.sem x)) u (pc u))
    (g := fun u => held q x (a.list (.sem x)) u (Function.update pc t (.inside call .index) u))
    (List.mem_toFinset.2 ht) fun u _ hu => by rw [Function.update_of_ne hu]
  simp only [Function.update_self, hpc] at hsum
  have h1 : held q x (a.list (.sem x)) t (.inside call .copy) = 1 := by
    simp [held, QueueStage.before, QueueStage.after, hsrc, hnw]
  have h0 : held q x (a.list (.sem x)) t (.inside call .index) = 0 := by
    simp [held, QueueStage.before, htgt]
  refine ⟨by omega, hnn, h.idle, fun u hu => ?_, by omega⟩
  have hut : u ≠ t := fun hx => hnw (hx ▸ hu)
  rw [Function.update_of_ne hut]
  exact h.waits u hu

/-- The copy of a call that will give a token to `x`. -/
theorem earn (ht : t ∈ a.tasks) (hnw : t ∉ a.list (.sem x)) (hpc : pc t = .inside call .copy)
    (hsrc : q.source call ≠ x) (htgt : q.target call = x) :
    SemOk q x (n + 1) a (Function.update pc t (.inside call .index)) := by
  have hbal := h.balance
  have hsum := sum_change (f := fun u => held q x (a.list (.sem x)) u (pc u))
    (g := fun u => held q x (a.list (.sem x)) u (Function.update pc t (.inside call .index) u))
    (List.mem_toFinset.2 ht) fun u _ hu => by rw [Function.update_of_ne hu]
  simp only [Function.update_self, hpc] at hsum
  have h1 : held q x (a.list (.sem x)) t (.inside call .copy) = 0 := by
    simp [held, QueueStage.after, hsrc]
  have h0 : held q x (a.list (.sem x)) t (.inside call .index) = 1 := by
    simp [held, QueueStage.before, QueueStage.after, htgt]
  refine ⟨h.nonneg, h.idle, fun u hu => ?_, by omega⟩
  have hut : u ≠ t := fun hx => hnw (hx ▸ hu)
  rw [Function.update_of_ne hut]
  exact h.waits u hu

end SemOk

/-- The owner of the lock and those that wait for it are the calls in their critical section. -/
structure LockOk (m : MutexId) (a : Model) (pc : TaskId → QueuePc) : Prop where
  holder : ∀ t, (a.mutex m).owner = some t → (pc t).critical = true
  queued : ∀ t ∈ a.list (.mutex m), ∃ call, pc t = .inside call .copy
  inside : ∀ t, (pc t).critical = true → (a.mutex m).owner = some t ∨ t ∈ a.list (.mutex m)

namespace LockOk

variable {m : MutexId} (h : LockOk m a pc)
include h

theorem owner_of_runs (hi : Inv a) (hp : a.pendsv = false) (hc : a.gCurrent = some t)
    (ht : (pc t).critical = true) : (a.mutex m).owner = some t :=
  (h.inside t ht).resolve_right (hi.running_not_waiting hp hc rfl)

/-- Beyond the copy a call does not wait for the lock. -/
theorem owner_of_copied (hpc : pc t = .inside call stage)
    (hst : stage = .index ∨ stage = .unlock) : (a.mutex m).owner = some t := by
  refine (h.inside t (by rw [hpc]; rcases hst with rfl | rfl <;> rfl)).resolve_right fun hw => ?_
  obtain ⟨call', hc⟩ := h.queued t hw
  rw [hpc] at hc
  rcases hst with rfl | rfl <;> cases hc

/-- The lock is left alone, and nobody enters or leaves the critical section. -/
theorem frame (ho : (a'.mutex m).owner = (a.mutex m).owner)
    (hl : ∀ u, u ∈ a'.list (.mutex m) ↔ u ∈ a.list (.mutex m))
    (hpc : ∀ u, pc' u = pc u ∨ (pc u).critical = false ∧ (pc' u).critical = false) :
    LockOk m a' pc' := by
  have hcrit : ∀ u, (pc' u).critical = (pc u).critical := by
    intro u
    rcases hpc u with he | ⟨h1, h2⟩
    · rw [he]
    · rw [h1, h2]
  refine ⟨fun t hown => ?_, fun t ht => ?_, fun t ht => ?_⟩
  · rw [hcrit]
    exact h.holder t (ho ▸ hown)
  · obtain ⟨call, hc⟩ := h.queued t ((hl t).1 ht)
    rcases hpc t with he | ⟨h1, -⟩
    · exact ⟨call, he.trans hc⟩
    · rw [hc] at h1
      cases h1
  · rw [ho, hl]
    exact h.inside t (hcrit t ▸ ht)

/-- The same, with one task that moves on outside of it. -/
theorem move {c : QueuePc} (ho : (a'.mutex m).owner = (a.mutex m).owner)
    (hl : ∀ u, u ∈ a'.list (.mutex m) ↔ u ∈ a.list (.mutex m)) (ht : (pc t).critical = false)
    (hc : c.critical = false) : LockOk m a' (Function.update pc t c) := by
  refine h.frame ho hl fun u => ?_
  by_cases hut : u = t
  · right
    rw [hut, Function.update_self]
    exact ⟨ht, hc⟩
  · exact .inl (Function.update_of_ne hut ..)

theorem advance (hown : (a.mutex m).owner = some t) (hnw : t ∉ a.list (.mutex m))
    (hst : stage.critical = true) : LockOk m a (Function.update pc t (.inside call stage)) := by
  refine ⟨fun u hu => ?_, fun u hu => ?_, fun u hu => ?_⟩
  · obtain rfl := Option.some.inj (hown.symm.trans hu)
    rw [Function.update_self]
    exact hst
  · have hut : u ≠ t := fun hx => hnw (hx ▸ hu)
    rw [Function.update_of_ne hut]
    exact h.queued u hu
  · by_cases hut : u = t
    · rw [hut]
      exact .inl hown
    · rw [Function.update_of_ne hut] at hu
      exact h.inside u hu

/-- A lock call: the caller did not have the lock, so the call returns 0. -/
theorem lock (call : QueueCall) {r : ℤ} (hst : MutexStep a t m (.svc (.mutexLock (some m))) r a')
    (hok : (a.mutex m).owner = none → a.list (.mutex m) = []) (hpc : (pc t).critical = false) :
    r = 0 ∧ LockOk m a' (Function.update pc t (.inside call .copy)) := by
  have hne : (a.mutex m).owner ≠ some t := by
    intro ho
    have := h.holder t ho
    rw [hpc] at this
    cases this
  have hqueued : ∀ u ∈ a.list (.mutex m), ∃ call', Function.update pc t (.inside call .copy) u =
      .inside call' .copy := by
    intro u hu
    by_cases hut : u = t
    · exact ⟨call, by rw [hut, Function.update_self]⟩
    · rw [Function.update_of_ne hut]
      exact h.queued u hu
  cases hst with
  | other h1 _ _ _ => exact absurd (h1 rfl).1 hne
  | free hm ho hl =>
    refine ⟨rfl, fun u hu => ?_, by rwa [hl], fun u hu => ?_⟩
    · obtain rfl := Option.some.inj (ho.symm.trans hu)
      rw [Function.update_self]
      rfl
    · by_cases hut : u = t
      · exact .inl (hut ▸ ho)
      · rw [Function.update_of_ne hut] at hu
        have := h.inside u hu
        rw [hm, hok hm] at this
        exact this.elim nofun nofun
  | queue hm hoc ho hl =>
    refine ⟨rfl, fun u hu => ?_, fun u hu => ?_, fun u hu => ?_⟩
    · obtain rfl := Option.some.inj (ho.symm.trans hu)
      rw [Function.update_of_ne hoc]
      exact h.holder _ hm
    · rcases (hl u).1 hu with hu | rfl
      · exact hqueued u hu
      · exact ⟨call, Function.update_self ..⟩
    · rw [ho, ← hm, hl]
      by_cases hut : u = t
      · exact .inr (.inr hut)
      · rw [Function.update_of_ne hut] at hu
        exact (h.inside u hu).imp_right .inl

theorem unlock (call : QueueCall) {r : ℤ} (hst : MutexStep a t m (.svc (.mutexUnlock (some m))) r a')
    (hown : (a.mutex m).owner = some t) (hnw : t ∉ a.list (.mutex m)) :
    r = 0 ∧ LockOk m a' (Function.update pc t (.inside call .give)) := by
  cases hst with
  | other _ h1 _ _ => exact absurd hown (h1 rfl).1
  | pass _ ho hl =>
    have hmem : ∀ u, u ∈ a.list (.mutex m) → Function.update pc t (.inside call .give) u = pc u := by
      intro u hu
      have hut : u ≠ t := fun hx => hnw (hx ▸ hu)
      exact Function.update_of_ne hut _ _
    refine ⟨rfl, fun u hu => ?_, fun u hu => ?_, fun u hu => ?_⟩
    · have hu' : u ∈ a.list (.mutex m) := List.mem_of_mem_head? (ho.symm.trans hu)
      obtain ⟨call', hc⟩ := h.queued u hu'
      rw [hmem u hu', hc]
      rfl
    · rw [hl] at hu
      have hu' := List.mem_of_mem_tail hu
      rw [hmem u hu']
      exact h.queued u hu'
    · by_cases hut : u = t
      · rw [hut, Function.update_self] at hu
        cases hu
      · rw [Function.update_of_ne hut] at hu
        rcases h.inside u hu with hx | hx
        · exact absurd (Option.some.inj (hown.symm.trans hx)) (Ne.symm hut)
        · rw [ho, hl]
          exact Model.mem_head_or_tail hx

end LockOk

/-! The two semaphores together. -/

theorem OsQueue.source_ne_target (q : OsQueue) (call : QueueCall) : q.source call ≠ q.target call := by
  cases call with
  | send msg => exact q.spaces_ne_items
  | recv => exact q.spaces_ne_items.symm

def OsQueue.Uses (q : OsQueue) (x : SemId) : Prop := x = q.spaces ∨ x = q.items

theorem OsQueue.uses_iff (call : QueueCall) : q.Uses x ↔ x = q.source call ∨ x = q.target call := by
  cases call with
  | send msg => exact Iff.rfl
  | recv => exact or_comm

/-- The tokens of a semaphore when `i` messages have been copied in and `o` out. -/
def OsQueue.stock (q : OsQueue) (i o : ℕ) (x : SemId) : ℕ :=
  if x = q.spaces then o + q.capacity.toNat - i else i - o

/-- `i` and `o` after the copy of a call. -/
def QueueCall.counts (call : QueueCall) (i o : ℕ) : ℕ × ℕ :=
  match call with
  | .send _ => (i + 1, o)
  | .recv => (i, o + 1)

/-- What a copy needs: a free slot to send, a message to receive. -/
def QueueCall.Ready (call : QueueCall) (q : OsQueue) (i o : ℕ) : Prop :=
  match call with
  | .send _ => i < o + q.capacity.toNat
  | .recv => o < i

theorem stock_spaces (i o : ℕ) : q.stock i o q.spaces = o + q.capacity.toNat - i := if_pos rfl

theorem stock_items (i o : ℕ) : q.stock i o q.items = i - o := if_neg q.spaces_ne_items.symm

theorem ready_iff {i o : ℕ} : call.Ready q i o ↔ 1 ≤ q.stock i o (q.source call) := by
  cases call with
  | send msg =>
    rw [OsQueue.source, stock_spaces, QueueCall.Ready]
    omega
  | recv =>
    rw [OsQueue.source, stock_items, QueueCall.Ready]
    omega

theorem stock_source (i o : ℕ) : q.stock (call.counts i o).1 (call.counts i o).2 (q.source call) =
    q.stock i o (q.source call) - 1 := by
  cases call with
  | send msg =>
    rw [OsQueue.source, stock_spaces, stock_spaces, QueueCall.counts]
    omega
  | recv =>
    rw [OsQueue.source, stock_items, stock_items, QueueCall.counts]
    omega

theorem stock_target {i o : ℕ} (hle : o ≤ i) (hroom : i ≤ o + q.capacity.toNat) :
    q.stock (call.counts i o).1 (call.counts i o).2 (q.target call) =
      q.stock i o (q.target call) + 1 := by
  cases call with
  | send msg =>
    rw [OsQueue.target, stock_items, stock_items, QueueCall.counts]
    omega
  | recv =>
    rw [OsQueue.target, stock_spaces, stock_spaces, QueueCall.counts]
    omega

theorem counts_bounds {i o : ℕ} (hle : o ≤ i) (hroom : i ≤ o + q.capacity.toNat)
    (hr : call.Ready q i o) : (call.counts i o).2 ≤ (call.counts i o).1 ∧
      (call.counts i o).1 ≤ (call.counts i o).2 + q.capacity.toNat := by
  cases call with
  | send msg =>
    rw [QueueCall.Ready] at hr
    rw [QueueCall.counts]
    omega
  | recv =>
    rw [QueueCall.Ready] at hr
    rw [QueueCall.counts]
    omega

/-- Where the tasks stand, when `i` messages have been copied in and `o` out. -/
structure Control (q : OsQueue) (i o : ℕ) (a : Model) (pc : TaskId → QueuePc) : Prop where
  le : o ≤ i
  room : i ≤ o + q.capacity.toNat
  members : ∀ t, pc t ≠ .outside → t ∈ a.tasks
  noUndo : ∀ t call r, pc t ≠ .inside call (.undo r)
  mutexOk : MutexOk a
  lock : LockOk q.lock a pc
  foreign : ∀ x, ¬ q.Uses x → ∀ t ∈ a.list (.sem x), pc t = .outside
  sems : ∀ x, q.Uses x → SemOk q x (q.stock i o x) a pc

theorem stock_lt {i o : ℕ} (hle : o ≤ i) (hroom : i ≤ o + q.capacity.toNat)
    (hcap : q.capacity.toNat < 2 ^ 31) : q.stock i o x < 2 ^ 31 := by
  unfold OsQueue.stock
  split_ifs <;> omega

/-- The entry names none of the queue's objects. -/
structure Untouched (q : OsQueue) (e : Entry) : Prop where
  take : ∀ x, q.Uses x → e ≠ .svc (.semTake (some x))
  give : ∀ x, q.Uses x → e ≠ .svc (.semGive (some x))
  lock : e ≠ .svc (.mutexLock (some q.lock))
  unlock : e ≠ .svc (.mutexUnlock (some q.lock))

/-- Who waits for a semaphore has waited before, or is the caller of a take. -/
theorem SemStep.mem {e : Entry} (h : SemStep a cur x e a') (hu : u ∈ a'.list (.sem x)) :
    u ∈ a.list (.sem x) ∨ u = cur ∧ e = .svc (.semTake (some x)) := by
  cases h with
  | other _ _ _ hp => exact .inl (hp.mem_iff.1 hu)
  | take _ _ hl => exact .inl (hl ▸ hu)
  | queue _ _ hl =>
    rw [hl] at hu
    rcases List.mem_append.1 hu with hu | hu
    · exact .inl hu
    · exact .inr ⟨List.mem_singleton.1 hu, rfl⟩
  | give _ _ hl =>
    rw [hl] at hu
    cases hu
  | hand hl _ hl' _ =>
    rw [hl'] at hu
    rw [hl]
    exact .inl (List.mem_cons_of_mem _ hu)

theorem SemStep.mem_old {e : Entry} (h : SemStep a cur x e a') (he : e ≠ .svc (.semTake (some x)))
    (hu : u ∈ a'.list (.sem x)) : u ∈ a.list (.sem x) :=
  (SemStep.mem h hu).resolve_right fun hx => he hx.2

namespace Control

variable {i o : ℕ} (h : Control q i o a pc)
include h

theorem outside (ht : t ∉ a.tasks) : pc t = .outside := by
  by_contra hne
  exact ht (h.members t hne)

/-- An entry that has nothing to do with the queue. -/
theorem other {e : Entry} {r : ℤ} (hi : Inv a) (hc : a.gCurrent = some cur) (he : a.Enabled e)
    (ho : Outcome a cur e r a') (hun : Untouched q e)
    (hout : ∀ x, e = .svc (.semTake (some x)) → pc cur = .outside) : Control q i o a' pc := by
  have hmono := fun t ht => Outcome.tasks_mono hi hc ho (t := t) ht
  refine ⟨h.le, h.room, fun t ht => hmono t (h.members t ht), h.noUndo, h.mutexOk.step hi hc he ho,
    ?_, fun x hx t ht => ?_, fun x hx => ?_⟩
  · cases ho.mutex_step hi hc he q.lock with
    | other _ _ hown hl => exact h.lock.frame hown hl fun u => .inl rfl
    | free => exact absurd rfl hun.lock
    | queue => exact absurd rfl hun.lock
    | pass => exact absurd rfl hun.unlock
  · rcases SemStep.mem (ho.sem_step hi hc he x) ht with ht | ⟨rfl, hx'⟩
    · exact h.foreign x hx t ht
    · exact hout x hx'
  · cases ho.sem_step hi hc he x with
    | other _ _ hs hl =>
      exact (h.sems x hx).frame hs hl hmono (fun t ht => h.outside ht) (fun _ _ => rfl) fun _ => rfl
    | take => exact absurd rfl (hun.take x hx)
    | queue => exact absurd rfl (hun.take x hx)
    | give => exact absurd rfl (hun.give x hx)
    | hand => exact absurd rfl (hun.give x hx)

theorem step {i' o' : ℕ} {c : QueuePc} (hle : o' ≤ i') (hroom : i' ≤ o' + q.capacity.toNat)
    (ht : t ∈ a.tasks) (hnw : ∀ x, t ∉ a.list (.sem x)) (htasks : a'.tasks = a.tasks)
    (hmutex : MutexOk a') (hfor : ∀ x, ¬ q.Uses x → ∀ u ∈ a'.list (.sem x), u ∈ a.list (.sem x))
    (hc : ∀ call r, c ≠ .inside call (.undo r)) (hlock : LockOk q.lock a' (Function.update pc t c))
    (hsems : ∀ x, q.Uses x → SemOk q x (q.stock i' o' x) a' (Function.update pc t c)) :
    Control q i' o' a' (Function.update pc t c) := by
  refine ⟨hle, hroom, fun u hu => ?_, fun u call r => ?_, hmutex, hlock, fun x hx u hu => ?_, hsems⟩
  · rw [htasks]
    by_cases hut : u = t
    · exact hut ▸ ht
    · rw [Function.update_of_ne hut] at hu
      exact h.members u hu
  · by_cases hut : u = t
    · rw [hut, Function.update_self]
      exact hc call r
    · rw [Function.update_of_ne hut]
      exact h.noUndo u call r
  · have hu' := hfor x hx u hu
    have hut : u ≠ t := fun hx' => hnw x (hx' ▸ hu')
    rw [Function.update_of_ne hut]
    exact h.foreign x hx u hu'

section
variable {c : Syscall} {r : ℤ} (hi : Inv a) (he : a.Enabled (.svc c)) (hc : a.gCurrent = some t)
  (ho : Outcome a t (.svc c) r a')
include hi he hc ho

theorem take (hpc : pc t = .inside call .take) (hcap : q.capacity.toNat < 2 ^ 31)
    (hs : c = .semTake (some (q.source call))) :
    r = 0 ∧ Control q i o a' (Function.update pc t (.inside call .lock)) := by
  subst hs
  have ht := hi.cur_mem hc
  have hnw : ∀ x, t ∉ a.list (.sem x) := fun x => hi.running_not_waiting he.1 hc rfl
  have htasks := ho.tasks_eq hi hc (by simp)
  have hr : r = 0 := by cases ho <;> rfl
  refine ⟨hr, h.step h.le h.room ht hnw htasks (h.mutexOk.step hi hc he ho) (fun x hx u hu => ?_)
    (by simp) ?_ fun x hx => ?_⟩
  · refine SemStep.mem_old (ho.sem_step hi hc he x) (fun hx' => hx ?_) hu
    obtain rfl : q.source call = x := by simpa using hx'
    exact (OsQueue.uses_iff call).2 (.inl rfl)
  · cases ho.mutex_step hi hc he q.lock with
    | other _ _ hown hl => exact h.lock.move hown hl (by rw [hpc]; rfl) rfl
  · have hst := ho.sem_step hi hc he x
    by_cases hx' : q.source call = x
    · subst hx'
      exact (h.sems _ hx).take hst htasks ht (hnw _) hpc rfl (stock_lt h.le h.room hcap)
    · cases hst with
      | other _ _ hs hl =>
        refine (h.sems x hx).move hs hl htasks h.members ht (hnw x) ?_
        simp [hpc, held, QueueStage.before, QueueStage.after, hx']
      | take => exact absurd rfl hx'
      | queue => exact absurd rfl hx'

theorem lockCall (hpc : pc t = .inside call .lock) (hs : c = .mutexLock (some q.lock)) :
    r = 0 ∧ Control q i o a' (Function.update pc t (.inside call .copy)) := by
  subst hs
  have ht := hi.cur_mem hc
  have hnw : ∀ x, t ∉ a.list (.sem x) := fun x => hi.running_not_waiting he.1 hc rfl
  have htasks := ho.tasks_eq hi hc (by simp)
  obtain ⟨hr, hlock⟩ := h.lock.lock call (ho.mutex_step hi hc he q.lock) (h.mutexOk.free q.lock)
    (by rw [hpc]; rfl)
  refine ⟨hr, h.step h.le h.room ht hnw htasks (h.mutexOk.step hi hc he ho)
    (fun x _ u hu => SemStep.mem_old (ho.sem_step hi hc he x) (by simp) hu) (by simp) hlock fun x hx => ?_⟩
  · cases ho.sem_step hi hc he x with
    | other _ _ hs hl =>
      refine (h.sems x hx).move hs hl htasks h.members ht (hnw x) ?_
      simp [hpc, held, QueueStage.before, QueueStage.after]

theorem unlockCall (hpc : pc t = .inside call .unlock) (hs : c = .mutexUnlock (some q.lock)) :
    r = 0 ∧ Control q i o a' (Function.update pc t (.inside call .give)) := by
  subst hs
  have ht := hi.cur_mem hc
  have hnw : ∀ x, t ∉ a.list (.sem x) := fun x => hi.running_not_waiting he.1 hc rfl
  have htasks := ho.tasks_eq hi hc (by simp)
  obtain ⟨hr, hlock⟩ := h.lock.unlock call (ho.mutex_step hi hc he q.lock)
    (h.lock.owner_of_copied hpc (.inr rfl)) (hi.running_not_waiting he.1 hc rfl)
  refine ⟨hr, h.step h.le h.room ht hnw htasks (h.mutexOk.step hi hc he ho)
    (fun x _ u hu => SemStep.mem_old (ho.sem_step hi hc he x) (by simp) hu) (by simp) hlock fun x hx => ?_⟩
  · cases ho.sem_step hi hc he x with
    | other _ _ hs hl =>
      refine (h.sems x hx).move hs hl htasks h.members ht (hnw x) ?_
      simp [hpc, held, QueueStage.before, QueueStage.after]

theorem give (hpc : pc t = .inside call .give) (hcap : q.capacity.toNat < 2 ^ 31)
    (hs : c = .semGive (some (q.target call))) :
    r = 0 ∧ Control q i o a' (Function.update pc t .outside) := by
  subst hs
  have ht := hi.cur_mem hc
  have hnw : ∀ x, t ∉ a.list (.sem x) := fun x => hi.running_not_waiting he.1 hc rfl
  have htasks := ho.tasks_eq hi hc (by simp)
  have hr : r = 0 := by cases ho <;> rfl
  refine ⟨hr, h.step h.le h.room ht hnw htasks (h.mutexOk.step hi hc he ho)
    (fun x _ u hu => SemStep.mem_old (ho.sem_step hi hc he x) (by simp) hu) (by simp) ?_ fun x hx => ?_⟩
  · cases ho.mutex_step hi hc he q.lock with
    | other _ _ hown hl => exact h.lock.move hown hl (by rw [hpc]; rfl) rfl
  · have hst := ho.sem_step hi hc he x
    by_cases hx' : q.target call = x
    · subst hx'
      exact (h.sems _ hx).give hst htasks (hi.wf.nodup _) (fun u hu => hi.wf.mem_tasks hu) ht (hnw _)
        hpc rfl (stock_lt h.le h.room hcap)
    · cases hst with
      | other _ _ hs hl =>
        refine (h.sems x hx).move hs hl htasks h.members ht (hnw x) ?_
        simp [hpc, held, QueueStage.before, hx']
      | give => exact absurd rfl hx'
      | hand => exact absurd rfl hx'

end

section
variable (hi : Inv a) (hp : a.pendsv = false) (hc : a.gCurrent = some t)
include hi hp hc

theorem enter (call : QueueCall) (hpc : pc t = .outside) :
    Control q i o a (Function.update pc t (.inside call .take)) := by
  have ht := hi.cur_mem hc
  have hnw : ∀ x, t ∉ a.list (.sem x) := fun x => hi.running_not_waiting hp hc rfl
  refine h.step h.le h.room ht hnw rfl h.mutexOk (fun _ _ _ hu => hu) (by simp) ?_ fun x hx => ?_
  · exact h.lock.move rfl (fun _ => Iff.rfl) (by rw [hpc]; rfl) rfl
  · refine (h.sems x hx).move rfl (.refl _) rfl h.members ht (hnw x) ?_
    simp [hpc, held, QueueStage.before, QueueStage.after]

theorem index (hpc : pc t = .inside call .index) :
    Control q i o a (Function.update pc t (.inside call .unlock)) := by
  have ht := hi.cur_mem hc
  have hnw : ∀ x, t ∉ a.list (.sem x) := fun x => hi.running_not_waiting hp hc rfl
  refine h.step h.le h.room ht hnw rfl h.mutexOk (fun _ _ _ hu => hu) (by simp) ?_ fun x hx => ?_
  · exact h.lock.advance (h.lock.owner_of_copied hpc (.inl rfl)) (hi.running_not_waiting hp hc rfl) rfl
  · refine (h.sems x hx).move rfl (.refl _) rfl h.members ht (hnw x) ?_
    simp [hpc, held, QueueStage.before, QueueStage.after]

/-- A call that has come to its copy has what it needs for it. -/
theorem copy (hpc : pc t = .inside call .copy) : call.Ready q i o ∧
    Control q (call.counts i o).1 (call.counts i o).2 a
      (Function.update pc t (.inside call .index)) := by
  have ht := hi.cur_mem hc
  have hnw : ∀ x, t ∉ a.list (.sem x) := fun x => hi.running_not_waiting hp hc rfl
  have hne := q.source_ne_target call
  obtain ⟨hpos, hspend⟩ := (h.sems _ ((OsQueue.uses_iff call).2 (.inl rfl))).spend ht (hnw _) hpc rfl
    (Ne.symm hne)
  have hearn := (h.sems _ ((OsQueue.uses_iff call).2 (.inr rfl))).earn ht (hnw _) hpc hne rfl
  have hready : call.Ready q i o := ready_iff.2 hpos
  rw [← stock_source] at hspend
  rw [← stock_target h.le h.room] at hearn
  obtain ⟨hle, hroom⟩ := counts_bounds h.le h.room hready
  refine ⟨hready, h.step hle hroom ht hnw rfl h.mutexOk (fun _ _ _ hu => hu) (by simp) ?_
    fun x hx => ?_⟩
  · exact h.lock.advance (h.lock.owner_of_runs hi hp hc (by rw [hpc]; rfl))
      (hi.running_not_waiting hp hc rfl) rfl
  · rcases (OsQueue.uses_iff call).1 hx with rfl | rfl
    · exact hspend
    · exact hearn

end

end Control

end Rtos

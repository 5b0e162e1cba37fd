import Rtos.Proofs.Structure
import Rtos.Model.Frames

/-! Priority inheritance along a chain of waiting tasks. A lock call clears
`blocked_on` before its caller has waited at all, so the walk of a later call finds it
clear in every blocked owner and stops: only the owner of the mutex itself inherits. -/

namespace Rtos

open Lib

open Model (WF Inv Outcome)

variable {b : Boot} {os : List Obs} {k k' : Kernel} {a a' : Model} {t u c cur : TaskId}
  {m m' : MutexId}

/-- The owner of `m`, and from each task that waits for a mutex the owner of that one. -/
inductive WaitChain (owner : MutexId → Option TaskId) (waits : TaskId → MutexId → Prop)
    (m : MutexId) : TaskId → Prop
  | owner {t : TaskId} : owner m = some t → WaitChain owner waits m t
  | next {t u : TaskId} {m' : MutexId} : WaitChain owner waits m t → waits t m' →
      owner m' = some u → WaitChain owner waits m u

/-- One more task waits for the first mutex: the chain may come back to its start. -/
theorem waitChain_queue {owner : MutexId → Option TaskId} {waits waits' : TaskId → MutexId → Prop}
    (hw : ∀ t m', waits' t m' ↔ waits t m' ∨ m' = m ∧ t = c) :
    WaitChain owner waits' m u ↔ WaitChain owner waits m u := by
  constructor
  · intro h
    induction h with
    | owner h => exact .owner h
    | next _ hq ho ih =>
      rcases (hw _ _).1 hq with hq | ⟨rfl, -⟩
      · exact .next ih hq ho
      · exact .owner ho
  · intro h
    induction h with
    | owner h => exact .owner h
    | next _ hq ho ih => exact .next ih ((hw _ _).2 (.inl hq)) ho

def Kernel.Waits (k : Kernel) (t : TaskId) (m : MutexId) : Prop :=
  Visits k.links.next (k.queue (.mutex m)).head t

def Kernel.Chained (k : Kernel) (m : MutexId) : TaskId → Prop :=
  WaitChain (fun m' => (k.mutex m').owner) k.Waits m

theorem Sim.waits_iff (hs : Sim k a) : k.Waits t m ↔ t ∈ a.list (.mutex m) :=
  (hs.repr (.mutex m)).visits_iff

theorem Outcome.contended {r : ℤ} (ho : Outcome a cur (.svc (.mutexLock (some m))) r a')
    (h : Inv a) (hp : a.pendsv = false) (hc : a.gCurrent = some cur)
    (hb : (a'.tcb cur).state = .blocked) : ∃ o, (a.mutex m).owner = some o ∧ o ≠ cur := by
  have hrun := h.running hp cur hc
  cases ho with
  | lockFree _ =>
    rw [Model.addToOwned_keeps TcbData.state fun _ _ => rfl] at hb
    cases hrun.symm.trans hb
  | lockOwn _ => cases hrun.symm.trans hb
  | lockBlock hm hoc => exact ⟨_, hm, hoc⟩

/-- After a call that blocks its caller the whole chain is as urgent as the caller exactly
when all of it but the first owner was so before. -/
theorem transitive_inheritance {r : ℤ} (h : Run b os k)
    (he : k.Enabled (.svc (.mutexLock (some m)))) (hc : k.gCurrent = some c)
    (hr : (exec k (.svc (.mutexLock (some m)))).Returns (r, k')) (hb : (k'.tcb c).state = .blocked) :
    (∀ u, k'.Chained m u → (k'.tcb u).priority ≤ (k'.tcb c).priority) ↔
      ∀ u, k.Chained m u → (k.mutex m).owner ≠ some u → (k.tcb u).priority ≤ (k.tcb c).priority := by
  obtain ⟨a, hs, hi⟩ := run_sim h
  rw [hs.gCurrent] at hc
  obtain ⟨a', hs', -, ho⟩ := exec_sim hs hi hc he hr
  have hp : a.pendsv = false := by
    rw [← hs.globals]
    exact he.1
  rw [hs'.data] at hb
  obtain ⟨w, hm, hwc⟩ := Outcome.contended ho hi hp hc hb
  have hq := ho.queued hi hc hm hwc
  have hchain : ∀ u, k'.Chained m u ↔ k.Chained m u := by
    intro u
    have hown : (fun m' => (k'.mutex m').owner) = fun m' => (k.mutex m').owner := by
      funext m'
      rw [hs'.mutex, hs.mutex, hq.owner]
    rw [Kernel.Chained, hown]
    refine waitChain_queue (c := c) fun t m' => ?_
    rw [hs'.waits_iff, hs.waits_iff, hq.waiters]
  have hpc : (k'.tcb c).priority = (k.tcb c).priority := by
    rw [hs'.priority, hs.priority, hq.priority, if_neg (Ne.symm hwc)]
  have hpw : (k'.tcb w).priority ≤ (k.tcb c).priority := by
    rw [hs'.priority, hs.priority, hq.priority, if_pos rfl]
    exact min_le_left _ _
  have hpu : ∀ u, u ≠ w → (k'.tcb u).priority = (k.tcb u).priority := by
    intro u hu
    rw [hs'.priority, hs.priority, hq.priority, if_neg hu]
  rw [hpc, hs.mutex, hm]
  constructor
  · intro hall u hu hne
    rw [← hpu u fun hx => hne (by rw [hx])]
    exact hall u ((hchain u).2 hu)
  · intro hall u hu
    by_cases hx : u = w
    · rw [hx]
      exact hpw
    · rw [hpu u hx]
      exact hall u ((hchain u).1 hu) fun hy => hx (Option.some.inj hy).symm

theorem waits_blocked (h : Run b os k) (hw : k.Waits t m) :
    (k.tcb t).state = .blocked ∧ (k.tcb t).waitQueue = some (.mutex m) := by
  obtain ⟨a, hs, hi⟩ := run_sim h
  rw [hs.waits_iff] at hw
  rw [hs.data]
  exact hi.wf.of_wait rfl hw

/-- A chain of two owners, the second of which was boosted by the first. -/
theorem transitive_inheritance_small : ∃ os k r k', Run (Boot.small [0, 0, 2] 0 0 (by decide)) os k ∧
    (exec k (.svc (.mutexLock (some 1)))).Returns (r, k') ∧ (k'.tcb 192).state = .blocked ∧
    k.Chained 1 64 ∧ ∀ u, k'.Chained 1 u → (k'.tcb u).priority ≤ (k'.tcb 192).priority := by
  obtain ⟨os, k, hr, o, ho, he, hc, hb, h1, h2, hh, hw, hst, hpr⟩ := Boot.play_exists
    (Boot.small [0, 0, 2] 0 0 (by decide)) 10
    [.pendSV, .svc (.delayTicks 2), .pendSV, .svc (.delayTicks 1), .pendSV,
      .svc (.mutexLock (some 2)), .sysTick, .pendSV, .svc (.mutexLock (some 1)),
      .svc (.mutexLock (some 2)), .pendSV, .sysTick, .pendSV, .svc (.mutexLock (some 1))]
    (fun os _ => ∃ o ∈ os, o.entry = .svc (.mutexLock (some 1)) ∧ o.pre.gCurrent = some 192 ∧
      (o.post.tcb 192).state = .blocked ∧ (o.pre.mutex 1).owner = some 128 ∧
      (o.pre.mutex 2).owner = some 64 ∧ (o.pre.queue (.mutex 2)).head = some 128 ∧
      (o.pre.tcb 128).waitQueue = some (.mutex 2) ∧ (o.pre.tcb 64).state ≠ .blocked ∧
      (o.pre.tcb 64).priority ≤ (o.pre.tcb 192).priority) (by decide +kernel)
  obtain ⟨os₁, os₂, rfl⟩ := List.append_of_mem ho
  obtain ⟨hpre, hen, hret⟩ := hr.split rfl
  rw [he] at hen hret
  have hwait : o.pre.Waits 128 2 := by
    rw [Kernel.Waits, hh]
    exact .here
  have hch : o.pre.Chained 1 64 := .next (.owner h1) hwait h2
  have honly : ∀ u, o.pre.Chained 1 u → u = 128 ∨ u = 64 := by
    intro u hu
    induction hu with
    | owner h => exact .inl (Option.some.inj (h1.symm.trans h)).symm
    | next _ hq hown ih =>
      obtain ⟨hb', hq'⟩ := waits_blocked hpre hq
      rcases ih with rfl | rfl
      · rw [hw] at hq'
        obtain rfl := (QueueRef.mutex.inj (Option.some.inj hq')).symm
        exact .inr (Option.some.inj (h2.symm.trans hown)).symm
      · exact absurd hb' hst
  refine ⟨os₁, o.pre, o.ret, o.post, hpre, hret, hb, hch, ?_⟩
  refine (transitive_inheritance hpre hen hc hret hb).2 fun u hu hne => ?_
  rcases honly u hu with rfl | rfl
  · exact absurd h1 hne
  · exact hpr

/-- The second owner of the chain keeps a less urgent priority than the new waiter's. -/
theorem transitive_inheritance_fails : ∃ os k r k', Run (Boot.small [0, 1, 2] 0 0 (by decide)) os k ∧
    k.Enabled (.svc (.mutexLock (some 1))) ∧ k.gCurrent = some 192 ∧
    (exec k (.svc (.mutexLock (some 1)))).Returns (r, k') ∧ (k'.tcb 192).state = .blocked ∧
    ∃ u, k'.Chained 1 u ∧ (k'.tcb 192).priority < (k'.tcb u).priority := by
  obtain ⟨os, k, hr, o, ho, he, hc, hb, h1, h2, hh, hlt⟩ := Boot.play_exists
    (Boot.small [0, 1, 2] 0 0 (by decide)) 10
    [.pendSV, .svc (.delayTicks 2), .pendSV, .svc (.delayTicks 1), .pendSV,
      .svc (.mutexLock (some 2)), .sysTick, .pendSV, .svc (.mutexLock (some 1)),
      .svc (.mutexLock (some 2)), .pendSV, .sysTick, .pendSV, .svc (.mutexLock (some 1))]
    (fun os _ => ∃ o ∈ os, o.entry = .svc (.mutexLock (some 1)) ∧ o.pre.gCurrent = some 192 ∧
      (o.post.tcb 192).state = .blocked ∧ (o.post.mutex 1).owner = some 128 ∧
      (o.post.mutex 2).owner = some 64 ∧ (o.post.queue (.mutex 2)).head = some 128 ∧
      (o.post.tcb 192).priority < (o.post.tcb 64).priority) (by decide +kernel)
  obtain ⟨os₁, os₂, rfl⟩ := List.append_of_mem ho
  obtain ⟨hpre, hen, hret⟩ := hr.split rfl
  rw [he] at hen hret
  have hwait : o.post.Waits 128 2 := by
    rw [Kernel.Waits, hh]
    exact .here
  exact ⟨os₁, o.pre, o.ret, o.post, hpre, hen, hc, hret, hb, 64, .next (.owner h1) hwait h2, hlt⟩

end Rtos

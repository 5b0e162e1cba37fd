import Rtos.Refine.Boot
import Rtos.Model.Clocked

/-! Every task is in one queue, and every queue is a list. The statement reads the
kernel's memory: `l q` is the list that the links of queue `q` spell out. -/

namespace Rtos

open Lib

open Model (WF Inv)

variable {b : Boot} {os : List Obs} {k : Kernel} {a : Model} {t : TaskId}

/-- A ready or running task is once in the ready queue of its priority; a blocked one
is once in the queue its `wait_queue` points to. Neither is in any other queue. -/
structure TaskQueued (k : Kernel) (l : QueueRef → List TaskId) (t : TaskId) : Prop where
  ready : (k.tcb t).state ≠ .blocked → (k.tcb t).waitQueue = none ∧
    ∀ q, (l q).count t = if q = .ready (k.tcb t).priority then 1 else 0
  blocked : (k.tcb t).state = .blocked → ∃ w, (k.tcb t).waitQueue = some w ∧ w.isWait = true ∧
    ∀ q, (l q).count t = if q = w then 1 else 0

def Sleeping (k : Kernel) (t : TaskId) : Prop :=
  (k.tcb t).state = .blocked ∧ (k.tcb t).waitQueue = some .sleep

structure Structured (k : Kernel) (l : QueueRef → List TaskId) (timeouts : List TaskId) : Prop where
  queues : ∀ q, Dll.Repr k.links (k.queue q) (l q)
  tasks : ∀ t ∈ k.tasks, TaskQueued k l t
  only : ∀ q, ∀ t ∈ l q, t ∈ k.tasks
  timeoutList : Dll.Repr k.timeoutLinks k.gTimeoutQueue timeouts
  sleeping : ∀ t ∈ timeouts, t ∈ k.tasks ∧ Sleeping k t
  timed : ∀ t ∈ k.tasks, Sleeping k t → (k.tcb t).wakeTick ≠ osWaitForever → t ∈ timeouts

theorem WF.count (hw : WF a) (ht : t ∈ a.tasks) {w : QueueRef} (hh : Model.home (a.tcb t) = some w)
    (q : QueueRef) : (a.list q).count t = if q = w then 1 else 0 := by
  split_ifs with hq
  · subst hq
    exact List.count_eq_one_of_mem (hw.nodup q) (hw.home_mem ht hh)
  · rw [List.count_eq_zero]
    intro hm
    have := ((hw.mem q t).1 hm).2.2
    rw [hh] at this
    exact hq (Option.some.inj this).symm

theorem Sim.taskQueued (hs : Sim k a) (hw : WF a.untimed) (ht : t ∈ a.tasks) :
    TaskQueued k a.list t := by
  have hd := hs.data t
  have hok := hw.ok t ht (by simp)
  constructor
  · intro hst
    rw [hd] at hst ⊢
    exact ⟨hok.idle hst, WF.count hw ht (by simp [Model.home, hst])⟩
  · intro hst
    rw [hd] at hst ⊢
    obtain ⟨w, hwq, hwait⟩ := hok.waiting hst
    exact ⟨w, hwq, hwait, WF.count hw ht (by simpa [Model.home, hst] using hwq)⟩

theorem Sim.structured (hs : Sim k a) (h : Inv a) : Structured k a.list a.timeouts := by
  have hsl : ∀ t, Sleeping k t ↔ (a.tcb t).state = .blocked ∧ (a.tcb t).waitQueue = some .sleep :=
    fun t => by rw [Sleeping, hs.data]
  refine ⟨hs.repr, fun t ht => hs.taskQueued h.wf.untimed (hs.tasks ▸ ht), fun q t ht => ?_, hs.timeouts,
    fun t ht => ?_, fun t ht hb hne => ?_⟩
  · rw [hs.tasks]
    exact h.wf.mem_tasks ht
  · have hmem := h.wf.timeouts_tasks t ht
    rw [hs.tasks, hsl]
    exact ⟨hmem, (h.wf.ok t hmem (by simp)).sleeping ht⟩
  · rw [hs.tasks] at ht
    rw [hsl] at hb
    rw [hs.data] at hne
    exact (h.wf.ok t ht (by simp)).timed hb.1 hne

/-- The structural invariant of the scheduler, in every state of every run. -/
theorem run_structured (h : Run b os k) : ∃ l timeouts, Structured k l timeouts := by
  obtain ⟨a, hs, hi⟩ := run_sim h
  exact ⟨a.list, a.timeouts, hs.structured hi⟩

/-- A task sleeps, another one waits for a mutex, and a tick comes before the switch. -/
theorem run_structured_small : ∃ os k, Run (Boot.small [1, 2] 0 0 (by decide)) os k ∧
    ((k.tcb 128).state = .blocked ∧ (k.tcb 192).state = .blocked) ∧
    ∃ l timeouts, Structured k l timeouts := by
  obtain ⟨os, k, hr, hk⟩ := Boot.play_exists (Boot.small [1, 2] 0 0 (by decide)) 10
    [.pendSV, .svc (.mutexLock (some 0)), .svc (.delayTicks 5), .pendSV,
      .svc (.mutexLock (some 0)), .sysTick]
    (fun _ k => (k.tcb 128).state = .blocked ∧ (k.tcb 192).state = .blocked) (by decide +kernel)
  exact ⟨os, k, hr, hk, run_structured hr⟩

end Rtos

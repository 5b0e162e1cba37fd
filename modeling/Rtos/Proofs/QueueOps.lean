import Rtos.Refine.Queues

/-! The queue functions of `kernel/scheduler.c` are list operations. Any number of queues may
share the tasks' links, and an operation on one of them leaves the others alone. -/

namespace Rtos

open Lib

variable {k : Kernel} {t : TaskId} {q : QueueRef} {S : Set QueueRef} {L : QueueRef → List TaskId}

theorem remove_clears (q : QueueRef) (t : TaskId) (k : Kernel) :
    ((osTaskQueueRemove q t k).tcb t).next = none ∧
      ((osTaskQueueRemove q t k).tcb t).prev = none := by
  rw [remove_eq, Kernel.setTcb_tcb, if_pos rfl]
  exact ⟨rfl, rfl⟩

theorem Queues.pop_nil (h : Queues S L k) (hq : q ∈ S) (hl : L q = []) :
    osTaskQueuePopHead q k = (none, k) := by
  have hh : (k.queue q).head = none := by rw [(h.repr q hq).head, hl]; rfl
  simp only [osTaskQueuePopHead, hh]

theorem Queues.pop_cons (h : Queues S L k) (hq : q ∈ S) {l : List TaskId} (hl : L q = t :: l) :
    osTaskQueuePopHead q k = (some t, osTaskQueueRemove q t k) ∧
      Moved S L q l k (osTaskQueueRemove q t k) := by
  have hh : (k.queue q).head = some t := by rw [(h.repr q hq).head, hl]; rfl
  have hm := h.remove (t := t) hq (by simp [hl])
  rw [hl, List.erase_cons_head] at hm
  exact ⟨by simp only [osTaskQueuePopHead, hh], hm⟩

/-- In a sorted queue the walk finds the one place that keeps it sorted and fair. -/
theorem Queues.insert_sorted (h : Queues S L k) (hq : q ∈ S) (ht : ∀ q' ∈ S, t ∉ L q')
    (hl : (L q).Pairwise fun x y => (k.tcb x).priority ≤ (k.tcb y).priority) :
    ∃ l₁ l₂ k', L q = l₁ ++ l₂ ∧ (∀ y ∈ l₁, (k.tcb y).priority ≤ (k.tcb t).priority) ∧
      (∀ y ∈ l₂, (k.tcb t).priority < (k.tcb y).priority) ∧
      (osTaskQueueInsertByPriority q t k).Returns k' ∧ Moved S L q (l₁ ++ t :: l₂) k k' := by
  obtain ⟨k', hk', hm⟩ := h.insertByPriority hq ht
  set test : TaskId → Bool := fun i => (k.tcb i).priority ≤ (k.tcb t).priority with htest
  have happ := List.takeWhile_append_dropWhile (p := test) (l := L q)
  refine ⟨_, _, k', happ.symm, fun y hy => ?_, fun y hy => ?_, hk', hm⟩
  · have := List.all_eq_true.1 (List.all_takeWhile (p := test) (l := L q)) y hy
    simpa [htest] using this
  · rw [← happ] at hl
    have hdrop := (List.pairwise_append.1 hl).2.1
    cases hd : (L q).dropWhile test with
    | nil => simp [hd] at hy
    | cons x l =>
      -- the walk stopped at `x`, and what is behind `x` is no more urgent
      have hx : test x = false := by
        have := List.head?_dropWhile_not test (L q)
        rw [hd] at this
        simpa using this
      have hlt : (k.tcb t).priority < (k.tcb x).priority := by simpa [htest] using hx
      rw [hd] at hdrop hy
      rcases List.mem_cons.1 hy with rfl | hy
      · exact hlt
      · exact lt_of_lt_of_le hlt ((List.pairwise_cons.1 hdrop).1 y hy)

/-- What each queue function does to the list that the queue stands for. `Moved` says that the
queue is well linked, and that the other queues and all data but the links are as before. -/
theorem queue_operations (h : Queues S L k) (hq : q ∈ S) :
    (∀ t, (∀ q' ∈ S, t ∉ L q') → Moved S L q (L q ++ [t]) k (osTaskQueueAdd q t k)) ∧
    (∀ t ∈ L q, Moved S L q ((L q).erase t) k (osTaskQueueRemove q t k) ∧
      ((osTaskQueueRemove q t k).tcb t).next = none ∧
      ((osTaskQueueRemove q t k).tcb t).prev = none) ∧
    (L q = [] → osTaskQueuePopHead q k = (none, k)) ∧
    (∀ t l, L q = t :: l → (osTaskQueuePopHead q k).1 = some t ∧
      Moved S L q l k (osTaskQueuePopHead q k).2) ∧
    (∀ t, (∀ q' ∈ S, t ∉ L q') →
      ((L q).Pairwise fun x y => (k.tcb x).priority ≤ (k.tcb y).priority) →
      ∃ l₁ l₂ k', L q = l₁ ++ l₂ ∧ (∀ y ∈ l₁, (k.tcb y).priority ≤ (k.tcb t).priority) ∧
        (∀ y ∈ l₂, (k.tcb t).priority < (k.tcb y).priority) ∧
        (osTaskQueueInsertByPriority q t k).Returns k' ∧ Moved S L q (l₁ ++ t :: l₂) k k') ∧
    (∀ t, q = .ready (k.tcb t).priority →
      ((L q).head? ≠ some t → (osReadyQueueRotate (some t) k).Returns k) ∧
      ((L q).head? = some t → ∃ k', (osReadyQueueRotate (some t) k).Returns k' ∧
        Moved S L q ((L q).tail ++ [t]) k k')) := by
  refine ⟨fun t ht => h.add hq ht, fun t ht => ⟨h.remove hq ht, remove_clears q t k⟩,
    fun hl => h.pop_nil hq hl, fun t l hl => ?_, fun t ht hl => h.insert_sorted hq ht hl,
    fun t ht => ?_⟩
  · obtain ⟨hp, hm⟩ := h.pop_cons hq hl
    rw [hp]
    exact ⟨rfl, hm⟩
  · subst ht
    exact h.rotate t hq

/-- Two tasks of one priority wait for a semaphore, and the first to come is the first to go. -/
theorem queue_operations_small : ∃ L k, Queues Set.univ L k ∧ L (.sem 0) = [64, 128] ∧
    (osTaskQueuePopHead (.sem 0) k).1 = some 64 := by
  have h0 : Queues Set.univ (fun _ => []) (Boot.small [] 0 0 (by decide)).memory :=
    ⟨fun _ _ => ⟨List.nodup_nil, rfl, rfl, trivial⟩, fun _ _ _ _ _ h => by cases h⟩
  have h1 := ((queue_operations (q := .sem 0) h0 trivial).1 64 fun _ _ => by simp).queues
  have hpri : ∀ y, ((osTaskQueueAdd (.sem 0) 64
      (Boot.small [] 0 0 (by decide)).memory).tcb y).priority = 0 := fun y =>
    congrArg TcbData.priority ((add_relinked _ _ _).data y)
  obtain ⟨l₁, l₂, k, hl, -, h2, -, hm⟩ :=
    (queue_operations (q := .sem 0) h1 trivial).2.2.2.2.1 128
      (fun q' _ => by by_cases hq : q' = .sem 0 <;> simp [hq]) (by simp)
  have hnil : l₂ = [] := List.eq_nil_iff_forall_not_mem.2 fun y hy => by
    have := h2 y hy
    rw [hpri, hpri] at this
    exact absurd this (lt_irrefl _)
  subst hnil
  have hl₁ : l₁ = [64] := by simpa using hl.symm
  subst hl₁
  refine ⟨_, k, hm.queues, by simp, ?_⟩
  exact ((queue_operations (q := .sem 0) hm.queues trivial).2.2.2.1 64 [128] (by simp)).1

end Rtos

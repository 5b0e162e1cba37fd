import Rtos.Model.Basic

/-! Which queue every task is in. A task changes queues in three moves: it is
taken off its queue, its fields are rewritten, and it is put on the queue they
name. `WFOff` is the invariant with one task possibly on its way. -/

namespace Rtos

open Lib

namespace Model

section fields
variable (a : Model) (t u : TaskId) (f : TcbData → TcbData) (q q' : QueueRef)
  (g : List TaskId → List TaskId) (m : MutexId) (h : Mutex → Mutex)

@[simp] theorem setTcb_toGlobals : (a.setTcb t f).toGlobals = a.toGlobals := rfl
@[simp] theorem setTcb_list : (a.setTcb t f).list = a.list := rfl
@[simp] theorem setTcb_timeouts : (a.setTcb t f).timeouts = a.timeouts := rfl
@[simp] theorem setTcb_tcb_self : (a.setTcb t f).tcb t = f (a.tcb t) := by simp [setTcb]
@[simp] theorem setList_toGlobals : (a.setList q g).toGlobals = a.toGlobals := rfl
@[simp] theorem setList_tcb : (a.setList q g).tcb = a.tcb := rfl
@[simp] theorem setList_timeouts : (a.setList q g).timeouts = a.timeouts := rfl
@[simp] theorem setList_list_self : (a.setList q g).list q = g (a.list q) := by simp [setList]
@[simp] theorem remove_toGlobals : (a.remove q t).toGlobals = a.toGlobals := rfl
@[simp] theorem remove_tcb : (a.remove q t).tcb = a.tcb := rfl
@[simp] theorem remove_timeouts : (a.remove q t).timeouts = a.timeouts := rfl
@[simp] theorem add_toGlobals : (a.add q t).toGlobals = a.toGlobals := rfl
@[simp] theorem add_tcb : (a.add q t).tcb = a.tcb := rfl
@[simp] theorem add_timeouts : (a.add q t).timeouts = a.timeouts := rfl
@[simp] theorem insertByPriority_toGlobals : (a.insertByPriority q t).toGlobals = a.toGlobals := rfl
@[simp] theorem insertByPriority_tcb : (a.insertByPriority q t).tcb = a.tcb := rfl
@[simp] theorem insertByPriority_timeouts : (a.insertByPriority q t).timeouts = a.timeouts := rfl
@[simp] theorem setMutex_tcb : (a.setMutex m h).tcb = a.tcb := rfl
@[simp] theorem setMutex_list : (a.setMutex m h).list = a.list := rfl
@[simp] theorem setMutex_timeouts : (a.setMutex m h).timeouts = a.timeouts := rfl
@[simp] theorem setMutex_tasks : (a.setMutex m h).tasks = a.tasks := rfl
@[simp] theorem setMutex_gCurrent : (a.setMutex m h).gCurrent = a.gCurrent := rfl
@[simp] theorem setMutex_gNext : (a.setMutex m h).gNext = a.gNext := rfl
@[simp] theorem setMutex_pendsv : (a.setMutex m h).pendsv = a.pendsv := rfl
@[simp] theorem setMutex_mutex_self : (a.setMutex m h).mutex m = h (a.mutex m) := by simp [setMutex]

variable {u t q q'} in
theorem setTcb_tcb_ne (hu : u ≠ t) : (a.setTcb t f).tcb u = a.tcb u := by simp [setTcb, hu]

variable {u t q q'} in
theorem setList_list_ne (hq : q' ≠ q) : (a.setList q g).list q' = a.list q' := by
  simp [setList, hq]

theorem setTcb_tcb : (a.setTcb t f).tcb u = if u = t then f (a.tcb t) else a.tcb u := by
  by_cases hu : u = t
  · simp [hu]
  · simp [hu, setTcb_tcb_ne]

variable {t f} in
/-- A field that the update keeps. -/
theorem setTcb_keeps {β : Type} (g : TcbData → β) (hg : g (f (a.tcb t)) = g (a.tcb t)) :
    g ((a.setTcb t f).tcb u) = g (a.tcb u) := by
  rw [setTcb_tcb]
  split_ifs with hu
  · rw [hg, hu]
  · rfl

theorem setList_list : (a.setList q g).list q' = if q' = q then g (a.list q) else a.list q' := by
  by_cases hq : q' = q
  · simp [hq]
  · simp [hq, setList_list_ne]

@[simp] theorem schedule_tcb : a.schedule.tcb = a.tcb := rfl
@[simp] theorem schedule_list : a.schedule.list = a.list := rfl
@[simp] theorem schedule_timeouts : a.schedule.timeouts = a.timeouts := rfl
@[simp] theorem trigger_tcb : a.trigger.tcb = a.tcb := rfl
@[simp] theorem trigger_list : a.trigger.list = a.list := rfl
@[simp] theorem trigger_timeouts : a.trigger.timeouts = a.timeouts := rfl
@[simp] theorem timeoutRemove_tcb : (a.timeoutRemove t).tcb = a.tcb := rfl
@[simp] theorem timeoutRemove_list : (a.timeoutRemove t).list = a.list := rfl
@[simp] theorem timeoutRemove_toGlobals : (a.timeoutRemove t).toGlobals = a.toGlobals := rfl
@[simp] theorem timeoutInsert_tcb : (a.timeoutInsert t).tcb = a.tcb := rfl
@[simp] theorem timeoutInsert_list : (a.timeoutInsert t).list = a.list := rfl
@[simp] theorem timeoutInsert_toGlobals : (a.timeoutInsert t).toGlobals = a.toGlobals := rfl

end fields

/-- The queue a task's fields put it in. -/
def home (c : TcbData) : Option QueueRef :=
  if c.state = .blocked then c.waitQueue else some (.ready c.priority)

/-- A task's own fields agree with each other and with the timeout list. -/
structure TaskOk (a : Model) (t : TaskId) : Prop where
  waiting : (a.tcb t).state = .blocked → ∃ q, (a.tcb t).waitQueue = some q ∧ q.isWait = true
  idle : (a.tcb t).state ≠ .blocked → (a.tcb t).waitQueue = none
  sleeping : t ∈ a.timeouts → (a.tcb t).state = .blocked ∧ (a.tcb t).waitQueue = some .sleep
  timed : (a.tcb t).state = .blocked → (a.tcb t).wakeTick ≠ osWaitForever → t ∈ a.timeouts

structure WFOff (x : Option TaskId) (a : Model) : Prop where
  nodup : ∀ q, (a.list q).Nodup
  mem : ∀ q u, u ∈ a.list q ↔ u ∈ a.tasks ∧ some u ≠ x ∧ home (a.tcb u) = some q
  ok : ∀ u ∈ a.tasks, some u ≠ x → TaskOk a u
  timeouts_nodup : a.timeouts.Nodup
  timeouts_tasks : ∀ u ∈ a.timeouts, u ∈ a.tasks

abbrev WF (a : Model) : Prop := WFOff none a

section
variable {a b : Model} {x : Option TaskId} {t u : TaskId} {q q' : QueueRef}

/-- Nothing the invariant reads has changed. -/
theorem WFOff.congr (hw : WFOff x a) (htasks : b.tasks = a.tasks)
    (hcb : ∀ u, ((b.tcb u).state = .blocked ↔ (a.tcb u).state = .blocked) ∧
      (b.tcb u).waitQueue = (a.tcb u).waitQueue ∧
      (b.tcb u).priority = (a.tcb u).priority ∧ (b.tcb u).wakeTick = (a.tcb u).wakeTick)
    (hlist : b.list = a.list) (htime : b.timeouts = a.timeouts) : WFOff x b := by
  have hhome : ∀ u, home (b.tcb u) = home (a.tcb u) := fun u => by
    obtain ⟨h1, h2, h3, -⟩ := hcb u
    simp only [home, h1, h2, h3]
  refine ⟨by rw [hlist]; exact hw.nodup, fun q u => by rw [hlist, htasks, hhome, hw.mem], ?_,
    by rw [htime]; exact hw.timeouts_nodup, by rw [htime, htasks]; exact hw.timeouts_tasks⟩
  intro u hu hx
  obtain ⟨h1, h2, -, h4⟩ := hcb u
  obtain ⟨o1, o2, o3, o4⟩ := hw.ok u (htasks ▸ hu) hx
  exact ⟨by rwa [h1, h2], by rwa [ne_eq, h1, h2], by rwa [h1, h2, htime], by rwa [h1, h4, htime]⟩

theorem WFOff.disjoint (hw : WFOff x a) (h1 : t ∈ a.list q) (h2 : t ∈ a.list q') : q = q' := by
  have e1 := ((hw.mem q t).1 h1).2.2
  have e2 := ((hw.mem q' t).1 h2).2.2
  exact Option.some.inj (e1.symm.trans e2)

theorem WFOff.not_mem (hw : WFOff (some t) a) (q : QueueRef) : t ∉ a.list q :=
  fun h => ((hw.mem q t).1 h).2.1 rfl

theorem WF.home_mem (hw : WF a) (ht : t ∈ a.tasks) (hq : home (a.tcb t) = some q) :
    t ∈ a.list q :=
  (hw.mem q t).2 ⟨ht, by simp, hq⟩

theorem WF.ready_mem (hw : WF a) (ht : t ∈ a.tasks) (hs : (a.tcb t).state ≠ .blocked) :
    t ∈ a.list (.ready (a.tcb t).priority) :=
  hw.home_mem ht (by simp [home, hs])

theorem WF.mem_tasks (hw : WF a) (h : t ∈ a.list q) : t ∈ a.tasks := ((hw.mem q t).1 h).1

/-- A member of a ready queue is not blocked and has that queue's priority. -/
theorem WF.of_ready (hw : WF a) {p : Priority} (h : t ∈ a.list (.ready p)) :
    (a.tcb t).state ≠ .blocked ∧ (a.tcb t).priority = p := by
  obtain ⟨ht, -, hh⟩ := (hw.mem _ t).1 h
  by_cases hs : (a.tcb t).state = .blocked
  · obtain ⟨q, hq, hw'⟩ := (hw.ok t ht (by simp)).waiting hs
    simp only [home, hs, if_true, hq, Option.some.injEq] at hh
    rw [hh] at hw'
    cases hw'
  · simp only [home, hs, if_false, Option.some.injEq, QueueRef.ready.injEq] at hh
    exact ⟨hs, hh⟩

/-- A member of a wait queue is blocked on it. -/
theorem WF.of_wait (hw : WF a) (hq : q.isWait = true) (h : t ∈ a.list q) :
    (a.tcb t).state = .blocked ∧ (a.tcb t).waitQueue = some q := by
  obtain ⟨-, -, hh⟩ := (hw.mem _ t).1 h
  by_cases hs : (a.tcb t).state = .blocked
  · exact ⟨hs, by simpa [home, hs] using hh⟩
  · simp only [home, hs, if_false, Option.some.injEq] at hh
    rw [← hh] at hq
    cases hq

/-! The three moves. -/

theorem WF.remove (hw : WF a) (h : t ∈ a.list q) : WFOff (some t) (a.remove q t) := by
  refine ⟨fun q' => ?_, fun q' u => ?_, fun u hu hx => ?_, hw.timeouts_nodup, hw.timeouts_tasks⟩
  · rw [Model.remove, setList_list]
    split_ifs with hq
    · exact (hw.nodup q).erase t
    · exact hw.nodup q'
  · rw [Model.remove, setList_list]
    split_ifs with hq
    · subst hq
      rw [(hw.nodup q').mem_erase_iff, hw.mem]
      simp only [setList_toGlobals, setList_tcb, ne_eq, Option.some.injEq, reduceCtorEq,
        not_false_eq_true, true_and]
      tauto
    · rw [hw.mem]
      simp only [setList_toGlobals, setList_tcb, ne_eq, Option.some.injEq, reduceCtorEq,
        not_false_eq_true, true_and]
      constructor
      · rintro ⟨h1, h2⟩
        refine ⟨h1, fun hc => hq ?_, h2⟩
        subst hc
        exact Option.some.inj (h2.symm.trans ((hw.mem q u).1 h).2.2)
      · exact fun ⟨h1, _, h2⟩ => ⟨h1, h2⟩
  · obtain ⟨o1, o2, o3, o4⟩ := hw.ok u hu (by simp)
    exact ⟨o1, o2, o3, o4⟩

theorem WFOff.setTcb (hw : WFOff (some t) a) (f : TcbData → TcbData) :
    WFOff (some t) (a.setTcb t f) := by
  refine ⟨hw.nodup, fun q u => ?_, fun u hu hx => ?_, hw.timeouts_nodup, hw.timeouts_tasks⟩
  · rw [setTcb_list, hw.mem]
    simp only [setTcb_toGlobals, ne_eq, Option.some.injEq, and_congr_right_iff]
    exact fun _ hne => by rw [setTcb_tcb_ne _ _ hne]
  · have hne : u ≠ t := fun hc => hx (congrArg some hc)
    obtain ⟨o1, o2, o3, o4⟩ := hw.ok u hu hx
    rw [← setTcb_tcb_ne a f hne] at o1 o2 o3 o4
    exact ⟨o1, o2, o3, o4⟩

theorem WFOff.timeoutRemove (hw : WFOff (some t) a) : WFOff (some t) (a.timeoutRemove t) := by
  refine ⟨hw.nodup, hw.mem, fun u hu hx => ?_, hw.timeouts_nodup.erase t,
    fun u hu => hw.timeouts_tasks u (List.mem_of_mem_erase hu)⟩
  have hne : u ≠ t := fun hc => hx (congrArg some hc)
  obtain ⟨o1, o2, o3, o4⟩ := hw.ok u hu hx
  exact ⟨o1, o2, fun h => o3 (List.mem_of_mem_erase h),
    fun h h' => (List.mem_erase_of_ne hne).2 (o4 h h')⟩

/-- Back on the queue its fields name, at any place in it. -/
theorem WFOff.attach (hw : WFOff (some t) a) (ht : t ∈ a.tasks) (hq : home (a.tcb t) = some q)
    (hok : TaskOk a t) {g : List TaskId → List TaskId}
    (hg : (g (a.list q)).Perm (t :: a.list q)) : WF (a.setList q g) := by
  refine ⟨fun q' => ?_, fun q' u => ?_, fun u hu hx => ?_, hw.timeouts_nodup, hw.timeouts_tasks⟩
  · rw [setList_list]
    split_ifs
    · exact hg.nodup_iff.2 (List.nodup_cons.2 ⟨hw.not_mem q, hw.nodup q⟩)
    · exact hw.nodup q'
  · by_cases hu : u = t
    · subst hu
      rw [setList_list]
      split_ifs with h
      · subst h
        rw [hg.mem_iff]
        simp [ht, hq]
      · have : home (a.tcb u) ≠ some q' := fun hc => h (Option.some.inj (hc.symm.trans hq))
        simp [hw.not_mem q', this]
    · rw [setList_list]
      split_ifs with h
      · subst h
        rw [hg.mem_iff, List.mem_cons, hw.mem]
        simp [hu]
      · rw [hw.mem]
        simp [hu]
  · by_cases hu' : u = t
    · subst hu'
      exact ⟨hok.1, hok.2, hok.3, hok.4⟩
    · obtain ⟨o1, o2, o3, o4⟩ := hw.ok u hu (by simpa using hu')
      exact ⟨o1, o2, o3, o4⟩

theorem WFOff.add (hw : WFOff (some t) a) (ht : t ∈ a.tasks) (hq : home (a.tcb t) = some q)
    (hok : TaskOk a t) : WF (a.add q t) :=
  hw.attach ht hq hok (List.perm_append_singleton _ _)

theorem WFOff.insertByPriority (hw : WFOff (some t) a) (ht : t ∈ a.tasks)
    (hq : home (a.tcb t) = some q) (hok : TaskOk a t) : WF (a.insertByPriority q t) :=
  hw.attach ht hq hok insertWhile_perm

end
end Model
end Rtos

import Rtos.Model.WellFormed

/-! What each operation on the queues does to every field, and that it keeps every
task in its queue. -/

namespace Rtos

open Lib

namespace Model

variable {a : Model} {t u cur : TaskId} {q q' : QueueRef} {p : Priority}

/-! Choosing the next task. -/

@[simp] theorem reschedule_tcb : a.reschedule.tcb = a.tcb := by unfold reschedule; split_ifs <;> rfl
@[simp] theorem reschedule_list : a.reschedule.list = a.list := by
  unfold reschedule; split_ifs <;> rfl
@[simp] theorem reschedule_timeouts : a.reschedule.timeouts = a.timeouts := by
  unfold reschedule; split_ifs <;> rfl
@[simp] theorem reschedule_tasks : a.reschedule.tasks = a.tasks := by
  unfold reschedule; split_ifs <;> rfl
@[simp] theorem reschedule_mutex : a.reschedule.mutex = a.mutex := by
  unfold reschedule; split_ifs <;> rfl
@[simp] theorem reschedule_semCount : a.reschedule.semCount = a.semCount := by
  unfold reschedule; split_ifs <;> rfl
@[simp] theorem reschedule_gCurrent : a.reschedule.gCurrent = a.gCurrent := by
  unfold reschedule; split_ifs <;> rfl
@[simp] theorem reschedule_gTick : a.reschedule.gTick = a.gTick := by
  unfold reschedule; split_ifs <;> rfl
@[simp] theorem reschedule_gKernelObjectPool :
    a.reschedule.gKernelObjectPool = a.gKernelObjectPool := by unfold reschedule; split_ifs <;> rfl
@[simp] theorem reschedule_gNext : a.reschedule.gNext = a.firstReady := by
  unfold reschedule; split_ifs <;> rfl

theorem reschedule_pendsv : a.reschedule.pendsv = false ↔
    a.pendsv = false ∧ a.firstReady = a.gCurrent := by
  unfold reschedule
  split_ifs with h
  · simp [trigger, h]
  · simp [schedule, not_not.1 h]

/-- A scan of the queues in order finds the head of the first one that is not empty. -/
theorem scan_some {L : Priority → List TaskId} :
    (List.finRange numPriorities).findSome? (fun p => (L p).head?) = some t ↔
      ∃ p, (L p).head? = some t ∧ ∀ p' < p, L p' = [] := by
  constructor
  · intro h
    obtain ⟨l1, p, l2, hl, hp, hmin⟩ := List.findSome?_eq_some_iff.1 h
    refine ⟨p, hp, fun p' hlt => List.head?_eq_none_iff.1 (hmin p' ?_)⟩
    have hsort : (l1 ++ p :: l2).Pairwise (· < ·) := by
      rw [← hl]; exact List.pairwise_lt_finRange numPriorities
    have hp' : p' ∈ l1 ++ p :: l2 := by rw [← hl]; exact List.mem_finRange _
    rw [List.pairwise_append, List.pairwise_cons] at hsort
    rcases List.mem_append.1 hp' with h1 | h1
    · exact h1
    · rcases List.mem_cons.1 h1 with h2 | h2
      · exact absurd h2 (ne_of_lt hlt)
      · exact absurd (hsort.2.1.1 _ h2) (lt_asymm hlt)
  · rintro ⟨p, hp, hmin⟩
    obtain ⟨l1, l2, hl⟩ := List.append_of_mem (List.mem_finRange p)
    have hsort : (l1 ++ p :: l2).Pairwise (· < ·) := by
      rw [← hl]; exact List.pairwise_lt_finRange numPriorities
    refine List.findSome?_eq_some_iff.2 ⟨l1, p, l2, hl, hp, fun p' hp' => ?_⟩
    rw [hmin p' ((List.pairwise_append.1 hsort).2.2 p' hp' p (by simp))]
    rfl

theorem firstReady_some (hw : WF a) (h : a.firstReady = some t) :
    t ∈ a.tasks ∧ (a.tcb t).state ≠ .blocked ∧
      (a.list (.ready (a.tcb t).priority)).head? = some t ∧
      ∀ u ∈ a.tasks, (a.tcb u).state ≠ .blocked → (a.tcb t).priority ≤ (a.tcb u).priority := by
  obtain ⟨p, hp, hmin⟩ := scan_some.1 h
  have hmem : t ∈ a.list (.ready p) := List.mem_of_mem_head? hp
  obtain ⟨hs, rfl⟩ := hw.of_ready hmem
  refine ⟨hw.mem_tasks hmem, hs, hp, fun u hu hus => ?_⟩
  by_contra hlt
  -- an earlier queue would have been non-empty
  have := hw.ready_mem hu hus
  rw [hmin _ (not_le.1 hlt)] at this
  simp at this

theorem firstReady_isSome (hw : WF a) (ht : t ∈ a.tasks) (hs : (a.tcb t).state ≠ .blocked) :
    ∃ n, a.firstReady = some n := by
  refine Option.ne_none_iff_exists'.1 fun hc => ?_
  have hnil := List.findSome?_eq_none_iff.1 hc (a.tcb t).priority (List.mem_finRange _)
  have := hw.ready_mem ht hs
  rw [List.head?_eq_none_iff] at hnil
  simp [hnil] at this

theorem firstReady_congr {b : Model} (h : b.list = a.list) : b.firstReady = a.firstReady := by
  simp only [firstReady, h]

theorem WF.reschedule (hw : WF a) : WF a.reschedule :=
  hw.congr (by simp) (by simp) (by simp) (by simp)

/-! Rotation. -/

theorem rotate_cases (tcb : Option TaskId) (a : Model) :
    a.rotate tcb = a ∨ ∃ t l, tcb = some t ∧ a.list (.ready (a.tcb t).priority) = t :: l ∧
      a.rotate tcb = a.setList (.ready (a.tcb t).priority) fun l => l.tail ++ [t] := by
  cases tcb with
  | none => exact .inl rfl
  | some t =>
    simp only [rotate]
    split_ifs with h
    · obtain ⟨l, hl⟩ := List.head?_eq_some_iff.1 h
      exact .inr ⟨t, l, rfl, hl, rfl⟩
    · exact .inl rfl

@[simp] theorem rotate_tcb (tcb : Option TaskId) : (a.rotate tcb).tcb = a.tcb := by
  rcases rotate_cases tcb a with h | ⟨t, l, -, -, h⟩ <;> simp [h]

@[simp] theorem rotate_toGlobals (tcb : Option TaskId) :
    (a.rotate tcb).toGlobals = a.toGlobals := by
  rcases rotate_cases tcb a with h | ⟨t, l, -, -, h⟩ <;> simp [h]

@[simp] theorem rotate_timeouts (tcb : Option TaskId) :
    (a.rotate tcb).timeouts = a.timeouts := by
  rcases rotate_cases tcb a with h | ⟨t, l, -, -, h⟩ <;> simp [h]

theorem rotate_list_perm (tcb : Option TaskId) (q : QueueRef) :
    ((a.rotate tcb).list q).Perm (a.list q) := by
  rcases rotate_cases tcb a with h | ⟨t, l, -, hl, h⟩
  · rw [h]
  · rw [h, setList_list]
    split_ifs with hq
    · subst hq
      rw [hl]
      exact List.perm_append_singleton t l
    · rfl

theorem rotate_list_wait (tcb : Option TaskId) (hq : q.isWait = true) :
    (a.rotate tcb).list q = a.list q := by
  rcases rotate_cases tcb a with h | ⟨t, l, -, -, h⟩
  · rw [h]
  · rw [h, setList_list_ne]
    rintro rfl
    cases hq

theorem WF.rotate (hw : WF a) (tcb : Option TaskId) : WF (a.rotate tcb) := by
  refine ⟨fun q => (rotate_list_perm tcb q).nodup_iff.2 (hw.nodup q), fun q u => ?_, fun u hu hx => ?_,
    by simpa using hw.timeouts_nodup, by simpa using hw.timeouts_tasks⟩
  · rw [(rotate_list_perm tcb q).mem_iff, hw.mem]
    simp
  · obtain ⟨o1, o2, o3, o4⟩ := hw.ok u (by simpa using hu) hx
    exact ⟨by simpa using o1, by simpa using o2, by simpa using o3, by simpa using o4⟩

/-! Blocking. -/

theorem enqueue_tcb (o : Bool) : (a.enqueue cur q o).tcb u = if u = cur then
    { a.tcb cur with
      state := .blocked, waitQueue := some q, wakeTick := osWaitForever, waitResult := 0 }
    else a.tcb u := by
  cases o <;> simp [enqueue, insertByPriority, add, setTcb_tcb, readyRemove, remove]

@[simp] theorem enqueue_toGlobals (o : Bool) : (a.enqueue cur q o).toGlobals = a.toGlobals := by
  cases o <;> rfl

@[simp] theorem enqueue_timeouts (o : Bool) : (a.enqueue cur q o).timeouts = a.timeouts := by
  cases o <;> rfl

theorem enqueue_list_ne (o : Bool) (h1 : q' ≠ q) (h2 : q' ≠ .ready (a.tcb cur).priority) :
    (a.enqueue cur q o).list q' = a.list q' := by
  cases o <;>
    simp [enqueue, insertByPriority, add, setList_list, h1, readyRemove, remove, h2]

theorem enqueue_list_add (hq : q.isWait = true) :
    (a.enqueue cur q false).list q = a.list q ++ [cur] := by
  have hne : q ≠ QueueRef.ready (a.tcb cur).priority := by rintro rfl; cases hq
  simp [enqueue, add, readyRemove, remove, setList_list_ne _ _ hne]

theorem enqueue_list_insert (hq : q.isWait = true) : (a.enqueue cur q true).list q =
    insertWhile (fun i => (a.tcb i).priority ≤ (a.tcb cur).priority) cur (a.list q) := by
  have hne : q ≠ QueueRef.ready (a.tcb cur).priority := by rintro rfl; cases hq
  simp only [enqueue, if_true, insertByPriority, setList_list_self]
  have hp := fun i => setTcb_keeps (a.readyRemove cur) (t := cur) i (f := fun c =>
    { c with state := .blocked, waitQueue := some q, wakeTick := osWaitForever, waitResult := 0 })
    TcbData.priority rfl
  have hl : (a.readyRemove cur).list q = a.list q := by
    rw [readyRemove, remove, setList_list_ne _ _ hne]
  rw [setTcb_list, hl]
  congr 1
  funext i
  rw [hp i, hp cur]
  rfl

theorem enqueue_list_perm (o : Bool) (hq : q.isWait = true) :
    ((a.enqueue cur q o).list q).Perm (cur :: a.list q) := by
  cases o with
  | false => rw [enqueue_list_add hq]; exact List.perm_append_singleton cur _
  | true => rw [enqueue_list_insert hq]; exact insertWhile_perm

theorem WF.enqueue (hw : WF a) (hcur : cur ∈ a.tasks) (hs : (a.tcb cur).state ≠ .blocked)
    (hq : q.isWait = true) (o : Bool) : WF (a.enqueue cur q o) := by
  have hoff := (hw.remove (hw.ready_mem hcur hs)).setTcb fun c =>
    { c with state := .blocked, waitQueue := some q, wakeTick := osWaitForever, waitResult := 0 }
  have hnot : cur ∉ a.timeouts := fun h => hs ((hw.ok cur hcur (by simp)).sleeping h).1
  have hok : TaskOk ((a.readyRemove cur).setTcb cur fun c =>
      { c with state := .blocked, waitQueue := some q, wakeTick := osWaitForever, waitResult := 0 })
      cur := by
    refine ⟨fun _ => ⟨q, by simp, hq⟩, fun h => absurd (by simp) h, fun h => absurd h hnot, ?_⟩
    intro _ h
    simp at h
  cases o with
  | false => exact hoff.add hcur (by simp [home]) hok
  | true => exact hoff.insertByPriority hcur (by simp [home]) hok

theorem sleepUntil_tcb (ticks : Word) : (a.sleepUntil cur ticks).tcb u =
    if u = cur ∧ ticks ≠ osWaitForever then { a.tcb cur with wakeTick := a.gTick + ticks }
    else a.tcb u := by
  unfold sleepUntil
  split_ifs <;> simp_all [setTcb_tcb]

@[simp] theorem sleepUntil_toGlobals (ticks : Word) :
    (a.sleepUntil cur ticks).toGlobals = a.toGlobals := by unfold sleepUntil; split_ifs <;> rfl

@[simp] theorem sleepUntil_list (ticks : Word) : (a.sleepUntil cur ticks).list = a.list := by
  unfold sleepUntil; split_ifs <;> rfl

theorem mem_sleepUntil_timeouts (ticks : Word) : u ∈ (a.sleepUntil cur ticks).timeouts ↔
    (u = cur ∧ ticks ≠ osWaitForever) ∨ u ∈ a.timeouts := by
  unfold sleepUntil
  split_ifs with h
  · simp [timeoutInsert, h]
  · simp [h]

theorem WF.sleepUntil (hw : WF a) (hcur : cur ∈ a.tasks) (ticks : Word)
    (hs : ticks ≠ osWaitForever → (a.tcb cur).state = .blocked ∧ (a.tcb cur).waitQueue = some .sleep)
    (hnot : cur ∉ a.timeouts) : WF (a.sleepUntil cur ticks) := by
  by_cases hf : ticks = osWaitForever
  · simpa [Model.sleepUntil, hf] using hw
  obtain ⟨hb, hq⟩ := hs hf
  have hhome : ∀ u, home ((a.sleepUntil cur ticks).tcb u) = home (a.tcb u) := fun u => by
    rw [sleepUntil_tcb]; split_ifs with h
    · rw [h.1]; rfl
    · rfl
  refine ⟨fun q => by simpa using hw.nodup q, fun q u => by rw [hhome]; simpa using hw.mem q u,
    fun u hu _ => ?_, ?_, ?_⟩
  · obtain ⟨o1, o2, o3, o4⟩ := hw.ok u (by simpa using hu) (by simp)
    by_cases hc : u = cur
    · subst hc
      refine ⟨fun _ => ⟨.sleep, ?_, rfl⟩, fun h => absurd ?_ h, fun _ => ⟨?_, ?_⟩, fun _ _ => ?_⟩
      · simpa [sleepUntil_tcb, hf] using hq
      · simpa [sleepUntil_tcb, hf] using hb
      · simpa [sleepUntil_tcb, hf] using hb
      · simpa [sleepUntil_tcb, hf] using hq
      · exact (mem_sleepUntil_timeouts ticks).2 (.inl ⟨rfl, hf⟩)
    · have he : (a.sleepUntil cur ticks).tcb u = a.tcb u := by simp [sleepUntil_tcb, hc]
      have hm : u ∈ (a.sleepUntil cur ticks).timeouts ↔ u ∈ a.timeouts := by
        simp [mem_sleepUntil_timeouts, hc]
      exact ⟨by rwa [he], by rwa [he], by rwa [he, hm], by rwa [he, hm]⟩
  · rw [Model.sleepUntil, if_pos hf]
    exact nodup_insertWhile.2 ⟨hnot, hw.timeouts_nodup⟩
  · intro u hu
    rw [sleepUntil_toGlobals]
    rcases (mem_sleepUntil_timeouts ticks).1 hu with ⟨rfl, -⟩ | h
    · exact hcur
    · exact hw.timeouts_tasks u h

/-- The fields of a task that blocks. -/
def waiting (c : TcbData) (q : QueueRef) (wakeTick : Word) : TcbData :=
  { c with state := .blocked, waitQueue := some q, wakeTick := wakeTick, waitResult := 0 }

theorem block_eq (hc : a.gCurrent = some cur) (ticks : Word) (o : Bool) :
    a.block q ticks o = ((a.enqueue cur q o).sleepUntil cur ticks).reschedule := by
  simp only [block, hc]

theorem block_tcb (hc : a.gCurrent = some cur) (ticks : Word) (o : Bool) :
    (a.block q ticks o).tcb u = if u = cur then
      waiting (a.tcb cur) q (if ticks = osWaitForever then osWaitForever else a.gTick + ticks)
    else a.tcb u := by
  rw [block_eq hc, reschedule_tcb, sleepUntil_tcb, enqueue_tcb, enqueue_tcb]
  by_cases hu : u = cur
  · by_cases hf : ticks = osWaitForever <;> simp [hu, hf, waiting]
  · simp [hu]

theorem block_list (hc : a.gCurrent = some cur) (ticks : Word) (o : Bool) :
    (a.block q ticks o).list = (a.enqueue cur q o).list := by
  rw [block_eq hc, reschedule_list, sleepUntil_list]

section
variable (ticks : Word) (o : Bool)

@[simp] theorem block_tasks : (a.block q ticks o).tasks = a.tasks := by
  unfold block; split <;> simp

@[simp] theorem block_mutex : (a.block q ticks o).mutex = a.mutex := by
  unfold block; split <;> simp

@[simp] theorem block_semCount : (a.block q ticks o).semCount = a.semCount := by
  unfold block; split <;> simp

@[simp] theorem block_gCurrent : (a.block q ticks o).gCurrent = a.gCurrent := by
  unfold block; split <;> simp_all

@[simp] theorem block_gTick : (a.block q ticks o).gTick = a.gTick := by
  unfold block; split <;> simp

end

/-! Waking. -/

/-- The fields of a task that a wake, or with `r = -1` its timeout, makes ready. -/
def woken (c : TcbData) (r : ℤ) : TcbData :=
  { c with waitQueue := none, wakeTick := osWaitForever, waitResult := r, state := .ready }

theorem wake_tcb : (a.wake q t).tcb u = if u = t then woken (a.tcb t) 0 else a.tcb u := by
  simp only [wake, readyAdd, add, setList_tcb, setTcb_tcb]
  split_ifs <;> rfl

@[simp] theorem wake_toGlobals : (a.wake q t).toGlobals = a.toGlobals := by
  simp only [wake, readyAdd, add, setList_toGlobals, setTcb_toGlobals]
  split_ifs <;> rfl

theorem wake_timeouts (h : t ∉ a.timeouts) : (a.wake q t).timeouts = a.timeouts := by
  simp only [wake, readyAdd, add, setList_timeouts, setTcb_timeouts]
  split_ifs
  · exact List.erase_of_not_mem h
  · rfl

theorem wake_list (hq : q.isWait = true) : (a.wake q t).list q' =
    if q' = q then (a.list q).erase t
    else if q' = .ready (a.tcb t).priority then a.list q' ++ [t] else a.list q' := by
  have hp : ((a.wake q t).tcb t).priority = (a.tcb t).priority := by rw [wake_tcb, if_pos rfl]; rfl
  have hl : ∀ b : Model, b.list = (a.remove q t).list →
      (b.setTcb t fun c => { c with
        waitQueue := none, wakeTick := osWaitForever, waitResult := 0, state := .ready }).list =
        (a.remove q t).list := fun b hb => hb
  have hne : QueueRef.ready (a.tcb t).priority ≠ q := by rintro rfl; cases hq
  have he : (a.wake q t).list q' =
      if q' = .ready (a.tcb t).priority then (a.remove q t).list q' ++ [t]
      else (a.remove q t).list q' := by
    simp only [wake]
    rw [readyAdd, add, setList_list, setTcb_tcb_self]
    split_ifs <;> simp_all [remove]
  rw [he, remove, setList_list]
  split_ifs <;> simp_all

/-- What a wake and a timeout have in common: the task leaves its wait queue and the timeout
list, and is ready with the result `r`. -/
def release (q : QueueRef) (t : TaskId) (r : ℤ) (a : Model) : Model :=
  (((a.remove q t).timeoutRemove t).setTcb t fun c => woken c r).readyAdd t

theorem release_tcb {r : ℤ} : (a.release q t r).tcb u =
    if u = t then woken (a.tcb t) r else a.tcb u := by
  rw [release, readyAdd, add_tcb, setTcb_tcb]
  rfl

@[simp] theorem release_toGlobals {r : ℤ} : (a.release q t r).toGlobals = a.toGlobals := rfl

@[simp] theorem release_timeouts {r : ℤ} : (a.release q t r).timeouts = a.timeouts.erase t := rfl

theorem WF.release (hw : WF a) (h : t ∈ a.list q) (r : ℤ) : WF (a.release q t r) := by
  have hoff := (hw.remove h).timeoutRemove.setTcb fun c => woken c r
  refine hoff.add (hw.mem_tasks h) (by simp [home, woken]) ⟨fun h => ?_, fun _ => ?_, fun hm => ?_,
    fun h => ?_⟩
  · simp [woken] at h
  · simp [woken]
  · exact absurd hm hw.timeouts_nodup.not_mem_erase
  · simp [woken] at h

theorem wake_eq_release (h : t ∈ a.timeouts → (a.tcb t).wakeTick ≠ osWaitForever) :
    a.wake q t = a.release q t 0 := by
  simp only [wake, release]
  split_ifs with hf
  · rfl
  · have hnot : t ∉ a.timeouts := fun hm => h hm (not_not.1 hf)
    have he : (a.remove q t).timeoutRemove t = a.remove q t := by
      rw [timeoutRemove, remove_timeouts, List.erase_of_not_mem hnot]
      rfl
    rw [he]
    rfl

theorem WF.wake (hw : WF a) (hq : q.isWait = true) (hs : q ≠ .sleep) (h : t ∈ a.list q) :
    WF (a.wake q t) := by
  have hnot : t ∉ a.timeouts := fun hm => by
    have h1 := ((hw.ok t (hw.mem_tasks h) (by simp)).sleeping hm).2
    rw [(hw.of_wait hq h).2] at h1
    exact hs (Option.some.inj h1)
  rw [wake_eq_release fun hm => absurd hm hnot]
  exact hw.release h 0

/-! A timeout. The task is asleep, so this is where its queue is `g_sleep_queue`. -/

theorem expire_tcb : (a.expire t).tcb u = if u = t then woken (a.tcb t) (-1) else a.tcb u := by
  have h : ∀ b : Model, (∀ v, b.tcb v = if v = t then { a.tcb t with waitQueue := none } else a.tcb v) →
      ((b.setTcb t fun c => { c with
        wakeTick := osWaitForever, waitResult := -1, state := .ready }).readyAdd t).tcb u =
        if u = t then woken (a.tcb t) (-1) else a.tcb u := by
    intro b hb
    rw [readyAdd, add_tcb, setTcb_tcb, hb, hb, if_pos rfl]
    split_ifs <;> rfl
  cases hq : (a.tcb t).waitQueue with
  | none =>
    simp only [expire, timeoutRemove_tcb, hq]
    refine h _ fun v => ?_
    rw [timeoutRemove_tcb]
    split_ifs with hv
    · rw [hv, ← hq]
    · rfl
  | some q =>
    simp only [expire, timeoutRemove_tcb, hq]
    refine h _ fun v => ?_
    rw [setTcb_tcb]
    rfl

@[simp] theorem expire_toGlobals : (a.expire t).toGlobals = a.toGlobals := by
  simp only [expire, readyAdd, add_toGlobals, setTcb_toGlobals, timeoutRemove_tcb]
  cases (a.tcb t).waitQueue <;> rfl

theorem expire_eq (hq : (a.tcb t).waitQueue = some q) : a.expire t =
    (((((a.timeoutRemove t).remove q t).setTcb t fun c => { c with waitQueue := none }).setTcb t
      fun c => { c with wakeTick := osWaitForever, waitResult := -1, state := .ready })).readyAdd t := by
  simp only [expire, timeoutRemove_tcb, hq]

theorem expire_timeouts : (a.expire t).timeouts = a.timeouts.erase t := by
  simp only [expire, readyAdd, add_timeouts, setTcb_timeouts, timeoutRemove_tcb]
  cases (a.tcb t).waitQueue <;> rfl

theorem expire_list (hq : (a.tcb t).waitQueue = some q) (hw : q.isWait = true) :
    (a.expire t).list q' =
      if q' = q then (a.list q).erase t
      else if q' = .ready (a.tcb t).priority then a.list q' ++ [t] else a.list q' := by
  have hne : QueueRef.ready (a.tcb t).priority ≠ q := by rintro rfl; cases hw
  rw [expire_eq hq, readyAdd, add, setList_list]
  simp only [setTcb_tcb_self, setTcb_list, remove, setList_tcb, timeoutRemove_tcb, setList_list,
    timeoutRemove_list]
  split_ifs <;> simp_all

theorem expire_eq_release (hq : (a.tcb t).waitQueue = some q) :
    a.expire t = a.release q t (-1) := by
  rw [expire_eq hq, release]
  congr 1
  simp only [setTcb, Function.update_self, Function.update_idem]
  rfl

theorem WF.expire (hw : WF a) (h : t ∈ a.timeouts) : WF (a.expire t) := by
  have ht := hw.timeouts_tasks t h
  obtain ⟨hb, hq⟩ := (hw.ok t ht (by simp)).sleeping h
  rw [expire_eq_release hq]
  exact hw.release (hw.home_mem ht (by simp [home, hb, hq])) (-1)

/-! Changing a priority. -/

theorem setPriority_tcb : (a.setPriority t p).tcb u =
    if u = t then { a.tcb t with priority := p } else a.tcb u := by
  unfold setPriority
  split <;>
    simp [insertByPriority, remove, readyAdd, readyRemove, add, setTcb_tcb]

@[simp] theorem setPriority_toGlobals : (a.setPriority t p).toGlobals = a.toGlobals := by
  unfold setPriority
  split <;> rfl

@[simp] theorem setPriority_timeouts : (a.setPriority t p).timeouts = a.timeouts := by
  unfold setPriority
  split <;> rfl

theorem setPriority_eq_blocked (hb : (a.tcb t).state = .blocked)
    (hq : (a.tcb t).waitQueue = some q) : a.setPriority t p =
      ((a.setTcb t fun c => { c with priority := p }).remove q t).insertByPriority q t := by
  simp only [setPriority, hb, hq]

theorem setPriority_eq_ready (hb : (a.tcb t).state ≠ .blocked) : a.setPriority t p =
    ((a.readyRemove t).setTcb t fun c => { c with priority := p }).readyAdd t := by
  cases hs : (a.tcb t).state with
  | ready => simp only [setPriority, hs]
  | running => simp only [setPriority, hs]
  | blocked => exact absurd hs hb

theorem WF.setPriority (hw : WF a) (ht : t ∈ a.tasks) (p : Priority) : WF (a.setPriority t p) := by
  obtain ⟨o1, o2, o3, o4⟩ := hw.ok t ht (by simp)
  by_cases hb : (a.tcb t).state = .blocked
  · obtain ⟨q, hq, hwait⟩ := o1 hb
    have hmem : t ∈ a.list q := hw.home_mem ht (by simp [home, hb, hq])
    have hoff := (hw.remove hmem).setTcb fun c => { c with priority := p }
    rw [setPriority_eq_blocked hb hq]
    refine hoff.insertByPriority ht (by simp [home, hb, hq]) ⟨?_, ?_, ?_, ?_⟩
    all_goals simpa using by assumption
  · have hoff := (hw.remove (hw.ready_mem ht hb)).setTcb fun c => { c with priority := p }
    rw [setPriority_eq_ready hb]
    refine hoff.add ht (by simp [home, hb]) ⟨?_, ?_, ?_, ?_⟩
    all_goals simpa using by assumption

/-- The members of a wait queue do not change with anyone's priority. -/
theorem setPriority_list_wait (hw : WF a) (ht : t ∈ a.tasks) (hq : q.isWait = true) :
    (((a.setPriority t p).list q).Perm (a.list q)) := by
  refine (List.perm_ext_iff_of_nodup ((hw.setPriority ht p).nodup q) (hw.nodup q)).2 fun u => ?_
  rw [(hw.setPriority ht p).mem, hw.mem, setPriority_tcb, setPriority_toGlobals]
  by_cases hu : u = t
  · subst hu
    by_cases hb : (a.tcb u).state = .blocked
    · simp [home, hb]
    · have hne : ∀ r, QueueRef.ready r ≠ q := by rintro r rfl; cases hq
      simp [home, hb, hne]
  · simp [hu]

/-! The switch. -/

theorem commit_eq (hn : a.gNext = some t) : a.commit =
    { a with gCurrent := some t, tcb := fun u =>
        { a.tcb u with state := commitState a.gCurrent t u (a.tcb u).state } } := by
  simp only [commit, hn]

theorem commitState_blocked {c : Option TaskId} {s : TaskState} (h : u = t → s ≠ .blocked) :
    commitState c t u s = .blocked ↔ s = .blocked := by
  unfold commitState
  split_ifs with h1 h2
  · simp [h h1]
  · simp [h2.2]
  · rfl

theorem WF.commit (hw : WF a) (hn : a.gNext = some t) (ht : (a.tcb t).state ≠ .blocked) :
    WF a.commit := by
  rw [commit_eq hn]
  refine hw.congr rfl (fun u => ⟨?_, rfl, rfl, rfl⟩) rfl rfl
  exact commitState_blocked fun h => h ▸ ht

/-! Creation. -/

/-- What is not a task yet may be written freely. -/
theorem WF.setTcb_new (hw : WF a) (hnew : t ∉ a.tasks) (f : TcbData → TcbData) :
    WF (a.setTcb t f) := by
  have hne : ∀ u ∈ a.tasks, u ≠ t := fun u hu hc => hnew (hc ▸ hu)
  refine ⟨hw.nodup, fun q u => ?_, fun u hu _ => ?_, hw.timeouts_nodup, hw.timeouts_tasks⟩
  · rw [setTcb_list, hw.mem]
    simp only [setTcb_toGlobals, and_congr_right_iff]
    exact fun hu _ => by rw [setTcb_tcb_ne _ _ (hne u hu)]
  · obtain ⟨o1, o2, o3, o4⟩ := hw.ok u hu (by simp)
    rw [← setTcb_tcb_ne a f (hne u hu)] at o1 o2 o3 o4
    exact ⟨o1, o2, o3, o4⟩

theorem WF.enroll (hw : WF a) (hnew : t ∉ a.tasks) (hs : (a.tcb t).state = .ready)
    (hq : (a.tcb t).waitQueue = none) : WF (a.enroll t) := by
  have hoff : WFOff (some t) ({ a with tasks := a.tasks ++ [t] } : Model) := by
    refine ⟨hw.nodup, fun q u => ?_, fun u hu hx => ?_, hw.timeouts_nodup,
      fun u hu => List.mem_append_left _ (hw.timeouts_tasks u hu)⟩
    · rw [hw.mem]
      simp only [List.mem_append, List.mem_singleton, ne_eq, Option.some.injEq, reduceCtorEq,
        not_false_eq_true, true_and]
      constructor
      · exact fun ⟨h1, h2⟩ => ⟨.inl h1, fun hc => hnew (hc ▸ h1), h2⟩
      · exact fun ⟨h1, h2, h3⟩ => ⟨h1.resolve_right h2, h3⟩
    · have hmem : u ∈ a.tasks := by
        rcases List.mem_append.1 hu with h | h
        · exact h
        · exact absurd (congrArg some (List.mem_singleton.1 h)) hx
      obtain ⟨o1, o2, o3, o4⟩ := hw.ok u hmem (by simp)
      exact ⟨o1, o2, o3, o4⟩
  have hadd : WF (({ a with tasks := a.tasks ++ [t] } : Model).readyAdd t) := by
    refine hoff.add (by simp) (by simp [home, hs]) ⟨?_, ?_, ?_, ?_⟩
    · exact fun h => absurd (hs.symm.trans h) (by simp)
    · exact fun _ => hq
    · exact fun h => absurd (hw.timeouts_tasks t h) hnew
    · exact fun h => absurd (hs.symm.trans h) (by simp)
  unfold Model.enroll
  simp only
  split_ifs
  · exact hadd.congr rfl (by simp) rfl rfl
  · exact hadd.congr rfl (by simp) rfl rfl

end Model
end Rtos

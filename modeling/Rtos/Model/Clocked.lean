import Rtos.Model.Step
import Rtos.Kernel.Calls

/-! The invariant when a task may wait in any queue with a timeout. Which queue every task is in
does not depend on the timeouts, so this half of it is the invariant of the model without them;
the other half is about the timeout list alone. -/

namespace Rtos

open Lib

namespace Model

variable {a b : Model} {t u cur : TaskId} {q : QueueRef} {r : ℤ}

/-- The model with no timeouts running. -/
def untimed (a : Model) : Model :=
  { a with timeouts := [], tcb := fun t => { a.tcb t with wakeTick := osWaitForever } }

@[simp] theorem untimed_toGlobals : a.untimed.toGlobals = a.toGlobals := rfl
@[simp] theorem untimed_list : a.untimed.list = a.list := rfl
@[simp] theorem untimed_state : (a.untimed.tcb t).state = (a.tcb t).state := rfl
@[simp] theorem untimed_waitQueue : (a.untimed.tcb t).waitQueue = (a.tcb t).waitQueue := rfl
@[simp] theorem untimed_priority : (a.untimed.tcb t).priority = (a.tcb t).priority := rfl

structure Clocked (a : Model) : Prop where
  inv : Inv a.untimed
  nodup : a.timeouts.Nodup
  blocked : ∀ t ∈ a.timeouts, t ∈ a.tasks ∧ (a.tcb t).state = .blocked
  timed : ∀ t ∈ a.tasks, (a.tcb t).state = .blocked → (a.tcb t).wakeTick ≠ osWaitForever →
    t ∈ a.timeouts

theorem WF.untimed (hw : WF a) : WF a.untimed := by
  refine ⟨hw.nodup, hw.mem, fun u hu hx => ?_, List.nodup_nil, nofun⟩
  obtain ⟨o1, o2, -, -⟩ := hw.ok u hu hx
  exact ⟨o1, o2, nofun, fun _ hf => absurd rfl hf⟩

theorem Inv.clocked (h : Inv a) : Clocked a := by
  have hw := h.wf
  refine ⟨h.quiet hw.untimed rfl rfl (fun _ => ⟨rfl, rfl, rfl⟩) rfl rfl rfl h.owner,
    hw.timeouts_nodup, fun t ht => ?_, fun t ht => (hw.ok t ht (by simp)).timed⟩
  have hm := hw.timeouts_tasks t ht
  exact ⟨hm, ((hw.ok t hm (by simp)).sleeping ht).1⟩

theorem Clocked.current (h : Clocked a) : ∃ cur, a.gCurrent = some cur := by
  obtain ⟨cur, -, hc⟩ := h.inv.cur
  exact ⟨cur, hc⟩

/-- The task in a wait queue, seen from the whole model. -/
theorem Clocked.of_wait (h : Clocked a) (hq : q.isWait = true) (ht : t ∈ a.list q) :
    t ∈ a.tasks ∧ (a.tcb t).state = .blocked ∧ (a.tcb t).waitQueue = some q :=
  ⟨h.inv.wf.mem_tasks (a := a.untimed) ht, h.inv.wf.of_wait (a := a.untimed) hq ht⟩

theorem Clocked.waiting (h : Clocked a) (ht : t ∈ a.tasks) (hb : (a.tcb t).state = .blocked) :
    ∃ q, (a.tcb t).waitQueue = some q ∧ q.isWait = true ∧ t ∈ a.list q := by
  obtain ⟨q, hq, hw⟩ := (h.inv.wf.ok t ht (by simp)).waiting hb
  exact ⟨q, hq, hw, h.inv.wf.home_mem (a := a.untimed) ht (by simpa [home, hb] using hq)⟩

/-- Off its only queue, the task is in none. -/
theorem Clocked.off (h : Clocked a) (ht : t ∈ a.list q) (q' : QueueRef) :
    t ∉ (a.remove q t).list q' :=
  (h.inv.wf.remove (a := a.untimed) ht).not_mem q'

/-- The timeout list and what it is about have not changed. -/
theorem Clocked.congr (h : Clocked a) (hi : Inv b.untimed) (htasks : b.tasks = a.tasks)
    (htime : b.timeouts = a.timeouts)
    (htcb : ∀ u, ((b.tcb u).state = .blocked ↔ (a.tcb u).state = .blocked) ∧
      (b.tcb u).wakeTick = (a.tcb u).wakeTick) : Clocked b := by
  refine ⟨hi, by rw [htime]; exact h.nodup, fun u hu => ?_, fun u hu => ?_⟩
  · rw [htime] at hu
    rw [htasks, (htcb u).1]
    exact h.blocked u hu
  · rw [htasks] at hu
    rw [(htcb u).1, (htcb u).2, htime]
    exact h.timed u hu

theorem untimed_reschedule : a.reschedule.untimed = a.untimed.reschedule := by
  have hf : a.untimed.firstReady = a.firstReady := rfl
  unfold reschedule
  rw [hf, untimed_toGlobals]
  split_ifs <;> rfl

theorem untimed_rotate (tcb : Option TaskId) : (a.rotate tcb).untimed = a.untimed.rotate tcb := by
  cases tcb with
  | none => rfl
  | some t =>
    by_cases h : (a.list (.ready (a.tcb t).priority)).head? = some t
    · simp only [rotate, untimed_list, untimed_priority, h, if_true]
      rfl
    · simp only [rotate, untimed_list, untimed_priority, h, if_false]

theorem untimed_pendSV : (commit { a with pendsv := false }).untimed =
    commit { a.untimed with pendsv := false } := by
  simp only [commit, untimed_toGlobals]
  split <;> rfl

theorem untimed_setTcb {f g : TcbData → TcbData}
    (h : ∀ c, { f c with wakeTick := osWaitForever } = g { c with wakeTick := osWaitForever }) :
    (a.setTcb t f).untimed = a.untimed.setTcb t g := by
  have htcb : (a.setTcb t f).untimed.tcb = (a.untimed.setTcb t g).tcb := by
    funext u
    simp only [untimed, setTcb_tcb]
    split_ifs
    · exact h _
    · rfl
  simp only [untimed, setTcb] at htcb ⊢
  rw [htcb]

theorem untimed_release : (a.release q t r).untimed = a.untimed.release q t r := by
  have h : (((a.remove q t).timeoutRemove t).setTcb t fun c => woken c r).untimed =
      ((a.untimed.remove q t).timeoutRemove t).setTcb t fun c => woken c r :=
    untimed_setTcb fun _ => rfl
  exact congrArg (readyAdd t) h

theorem untimed_enqueue (o : Bool) :
    (a.enqueue cur q o).untimed = a.untimed.enqueue cur q o := by
  have h : ((a.readyRemove cur).setTcb cur fun c => { c with
        state := .blocked, waitQueue := some q, wakeTick := osWaitForever, waitResult := 0 }).untimed =
      (a.untimed.readyRemove cur).setTcb cur fun c => { c with
        state := .blocked, waitQueue := some q, wakeTick := osWaitForever, waitResult := 0 } :=
    untimed_setTcb fun _ => rfl
  cases o with
  | false => exact congrArg (add q cur) h
  | true => exact congrArg (insertByPriority q cur) h

theorem untimed_sleepUntil (ticks : Word) : (a.sleepUntil cur ticks).untimed = a.untimed := by
  unfold sleepUntil
  split_ifs
  · have h : (a.setTcb cur fun c => { c with wakeTick := a.gTick + ticks }).untimed =
        a.untimed.setTcb cur id := untimed_setTcb fun _ => rfl
    have hid : a.untimed.setTcb cur id = a.untimed := by
      simp only [setTcb, id, Function.update_eq_self]
    exact h.trans hid
  · rfl

theorem untimed_block (hc : a.gCurrent = some cur) (ticks : Word) (o : Bool) :
    (a.block q ticks o).untimed = a.untimed.block q osWaitForever o := by
  have hcu : a.untimed.gCurrent = some cur := hc
  rw [block_eq hc, block_eq hcu, untimed_reschedule, untimed_sleepUntil, untimed_enqueue, sleepUntil,
    if_neg (by simp)]

theorem Clocked.reschedule (h : Clocked a) : Clocked a.reschedule := by
  refine h.congr ?_ (by simp) (by simp) (by simp)
  rw [untimed_reschedule]
  exact h.inv.reschedule

theorem Clocked.rotate (h : Clocked a) (tcb : Option TaskId) : Clocked (a.rotate tcb) := by
  refine h.congr ?_ (by simp) (by simp) (by simp)
  rw [untimed_rotate]
  exact h.inv.rotate tcb

theorem Clocked.pendSV (h : Clocked a) : Clocked (commit { a with pendsv := false }) := by
  obtain ⟨n, -, hn, hnb⟩ := h.inv.next
  have hi : Inv (commit { a with pendsv := false }).untimed := by
    rw [untimed_pendSV]
    exact h.inv.pendSV
  rw [commit_eq (a := { a with pendsv := false }) hn] at hi ⊢
  refine h.congr hi rfl rfl fun u => ⟨commitState_blocked ?_, rfl⟩
  rintro rfl
  exact hnb

/-- Whether by a wake or by its timeout, a task that is released has left the timeout list. -/
theorem Clocked.release (h : Clocked a) (hq : q.isWait = true) (ht : t ∈ a.list q) (r : ℤ) :
    Clocked (a.release q t r) := by
  have hmem : ∀ u, u ∈ (a.release q t r).timeouts ↔ u ≠ t ∧ u ∈ a.timeouts := fun u => by
    rw [release_timeouts]
    exact h.nodup.mem_erase_iff
  refine ⟨?_, h.nodup.erase t, fun u hu => ?_, fun u hu hb hne => ?_⟩
  · rw [untimed_release]
    exact h.inv.release hq ht r
  · obtain ⟨hut, hu⟩ := (hmem u).1 hu
    rw [release_tcb, if_neg hut]
    exact h.blocked u hu
  · rw [release_tcb] at hb hne
    split_ifs at hb hne with hut
    · cases hb
    · exact (hmem u).2 ⟨hut, h.timed u hu hb hne⟩

theorem Clocked.expire (h : Clocked a) (ht : t ∈ a.timeouts) : Clocked (a.expire t) := by
  obtain ⟨hm, hb⟩ := h.blocked t ht
  obtain ⟨q, hq, hw, hl⟩ := h.waiting hm hb
  rw [expire_eq_release hq]
  exact h.release hw hl (-1)

theorem Clocked.expireAll (now : Word) (l : List TaskId) (h : Clocked a) (hl : l.Nodup)
    (hsub : ∀ t ∈ l, t ∈ a.timeouts) : Clocked (expireAll now l a) := by
  induction l generalizing a with
  | nil => exact h
  | cons t l ih =>
    rw [List.nodup_cons] at hl
    simp only [Model.expireAll]
    split_ifs
    · refine ih (h.expire (hsub t (by simp))) hl.2 fun u hu => ?_
      have hne : u ≠ t := fun hc => hl.1 (hc ▸ hu)
      rw [expire_timeouts]
      exact (List.mem_erase_of_ne hne).2 (hsub u (by simp [hu]))
    · exact h

theorem Clocked.gTick (h : Clocked a) (now : Word) : Clocked { a with gTick := now } :=
  h.congr (h.inv.quiet (h.inv.wf.congr rfl (fun _ => ⟨Iff.rfl, rfl, rfl, rfl⟩) rfl rfl) rfl rfl
    (fun _ => ⟨rfl, rfl, rfl⟩) rfl rfl rfl h.inv.owner) rfl rfl fun _ => ⟨Iff.rfl, rfl⟩

theorem Clocked.sysTick (h : Clocked a) : Clocked a.sysTick := by
  have h1 := h.gTick (a.gTick + 1)
  have h2 := h1.expireAll (a.gTick + 1) a.timeouts h.nodup fun _ ht => ht
  exact (h2.reschedule.rotate _).reschedule

/-- The running task, seen from the whole model. -/
theorem Clocked.running (h : Clocked a) (hp : a.pendsv = false) (hc : a.gCurrent = some cur) :
    cur ∈ a.tasks ∧ (a.tcb cur).state = .running ∧ cur ∉ a.timeouts ∧
      cur ∈ a.list (.ready (a.tcb cur).priority) := by
  have hm : cur ∈ a.tasks := h.inv.cur_mem hc
  have hr : (a.tcb cur).state = .running := h.inv.running hp cur hc
  refine ⟨hm, hr, fun hin => ?_, h.inv.wf.ready_mem (a := a.untimed) hm (by simp [hr])⟩
  have := (h.blocked cur hin).2
  rw [hr] at this
  cases this

theorem Clocked.block (h : Clocked a) (hp : a.pendsv = false) (hc : a.gCurrent = some cur)
    (hidle : a.gCurrent ≠ a.idle) (hq : q.isWait = true) (ticks : Word) (o : Bool) :
    Clocked (a.block q ticks o) := by
  obtain ⟨hm, -, hnot, -⟩ := h.running hp hc
  have hmem : ∀ u, u ∈ (a.block q ticks o).timeouts ↔
      (u = cur ∧ ticks ≠ osWaitForever) ∨ u ∈ a.timeouts := fun u => by
    rw [block_eq hc, reschedule_timeouts, mem_sleepUntil_timeouts, enqueue_timeouts]
  have htcb : ∀ u, u ≠ cur → (a.block q ticks o).tcb u = a.tcb u := fun u hu => by
    rw [block_tcb hc, if_neg hu]
  refine ⟨?_, ?_, fun u hu => ?_, fun u hu hb hne => ?_⟩
  · rw [untimed_block hc]
    exact (h.inv.block hp hidle hq (by simp) o).1
  · rw [block_eq hc, reschedule_timeouts, sleepUntil]
    split_ifs
    · refine nodup_insertWhile.2 ⟨?_, ?_⟩
      · simpa using hnot
      · simpa using h.nodup
    · simpa using h.nodup
  · rw [block_tasks]
    by_cases huc : u = cur
    · rw [huc, block_tcb hc, if_pos rfl]
      exact ⟨hm, rfl⟩
    · rw [htcb u huc]
      exact h.blocked u (((hmem u).1 hu).resolve_left fun hx => huc hx.1)
  · rw [hmem]
    by_cases huc : u = cur
    · refine .inl ⟨huc, fun hf => hne ?_⟩
      rw [huc, block_tcb hc, if_pos rfl, if_pos hf]
      rfl
    · rw [htcb u huc] at hb hne
      exact .inr (h.timed u (by simpa using hu) hb hne)

/-- A call of the interface, on the model. -/
def call (a : Model) : Call → Model
  | .block q ticks o => a.block q ticks o
  | .wakeOne q =>
    match a.list q with
    | [] => a
    | t :: _ => a.wake q t
  | .schedule => a.reschedule
  | .sysTick => a.sysTick
  | .pendSV => commit { a with pendsv := false }

/-- The call wakes a task with a timeout that looks as if it had none. -/
def Stale (a : Model) (c : Call) : Prop :=
  ∃ q t l, c = .wakeOne q ∧ a.list q = t :: l ∧ t ∈ a.timeouts ∧
    (a.tcb t).wakeTick = osWaitForever

theorem call_wakeOne {l : List TaskId} (hs : ¬ a.Stale (.wakeOne q)) (hl : a.list q = t :: l) :
    a.call (.wakeOne q) = a.release q t 0 := by
  have he : a.call (.wakeOne q) = a.wake q t := by simp only [call, hl]
  rw [he]
  exact wake_eq_release fun hm hf => hs ⟨q, t, l, rfl, hl, hm, hf⟩

theorem Clocked.call {c : Call} (h : Clocked a) (hc : a.Allows c) (hs : ¬ a.Stale c) :
    Clocked (a.call c) := by
  cases c with
  | block q ticks o =>
    obtain ⟨cur, hcur⟩ := h.current
    exact h.block hc.1.1 hcur hc.1.2 hc.2.1 ticks o
  | wakeOne q =>
    cases hl : a.list q with
    | nil =>
      have he : a.call (.wakeOne q) = a := by simp only [Model.call, hl]
      rwa [he]
    | cons t l =>
      rw [call_wakeOne hs hl]
      exact h.release hc (by simp [hl]) 0
  | schedule => exact h.reschedule
  | sysTick => exact h.sysTick
  | pendSV => exact h.pendSV

end Model

end Rtos

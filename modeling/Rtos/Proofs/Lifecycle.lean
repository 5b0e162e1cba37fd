import Rtos.Proofs.Structure
import Rtos.Model.Frames

/-! The life of a task: READY, RUNNING and BLOCKED, with every way from one to another. -/

namespace Rtos

open Lib

open Model (WF Inv Outcome)

variable {b : Boot} {os : List Obs} {o : Obs} {k k' : Kernel} {a a' : Model} {t cur : TaskId}

/-- The calls that put their caller into the wait queue `q`. -/
inductive Obs.BlocksIn (o : Obs) : QueueRef → Prop
  | delay {d : Word} : o.entry = .svc (.delayTicks d) → d ≠ 0 → o.BlocksIn .sleep
  | take {s : SemId} : o.entry = .svc (.semTake (some s)) → o.pre.semCount s ≤ 0 → o.BlocksIn (.sem s)
  | lock {m : MutexId} {u : TaskId} : o.entry = .svc (.mutexLock (some m)) →
      (o.pre.mutex m).owner = some u → o.pre.gCurrent ≠ some u → o.BlocksIn (.mutex m)

/-- The calls that take the first task out of the wait queue `q`. -/
inductive Obs.WakesFrom (o : Obs) : QueueRef → Prop
  | give {s : SemId} : o.entry = .svc (.semGive (some s)) → o.WakesFrom (.sem s)
  | unlock {m : MutexId} : o.entry = .svc (.mutexUnlock (some m)) →
      (o.pre.mutex m).owner = o.pre.gCurrent → o.WakesFrom (.mutex m)

/-- What an entry may do to the state of a task. There is no way from READY to BLOCKED and none
from BLOCKED to RUNNING. -/
inductive TaskMove (o : Obs) (t : TaskId) : TaskState → TaskState → Prop
  | stay {s : TaskState} : TaskMove o t s s
  | dispatch : o.entry = .pendSV → o.pre.gNext = some t → o.post.gCurrent = some t →
      TaskMove o t .ready .running
  | preempt : o.entry = .pendSV → o.pre.gCurrent = some t → o.post.gCurrent ≠ some t →
      TaskMove o t .running .ready
  | block {q : QueueRef} : o.BlocksIn q → o.pre.gCurrent = some t →
      (o.post.tcb t).waitQueue = some q → TaskMove o t .running .blocked
  | wake {q : QueueRef} : o.WakesFrom q → (o.pre.tcb t).waitQueue = some q →
      (o.pre.queue q).head = some t → (o.post.tcb t).waitResult = 0 → TaskMove o t .blocked .ready
  | expire : o.entry = .sysTick → (o.pre.tcb t).waitQueue = some .sleep →
      osTickReached o.post.gTick (o.pre.tcb t).wakeTick = true → (o.post.tcb t).waitResult = -1 →
      TaskMove o t .blocked .ready

theorem expireAll_reached (now : Word) {l : List TaskId} (hl : l.Nodup)
    (hne : (Model.expireAll now l a).tcb t ≠ a.tcb t) : osTickReached now (a.tcb t).wakeTick = true := by
  induction l generalizing a with
  | nil => exact absurd rfl hne
  | cons u l ih =>
    rw [List.nodup_cons] at hl
    simp only [Model.expireAll] at hne
    split_ifs at hne with hu
    · by_cases htu : t = u
      · rwa [htu]
      · have he : (a.expire u).tcb t = a.tcb t := by rw [Model.expire_tcb, if_neg htu]
        rw [← he] at hne ⊢
        exact ih hl.2 hne
    · exact absurd rfl hne

theorem tick_reached (h : Inv a) (hne : a.sysTick.tcb t ≠ a.tcb t) :
    osTickReached a.sysTick.gTick (a.tcb t).wakeTick = true := by
  rw [Model.sysTick_gTick]
  rw [Model.sysTick_eq] at hne
  simp only [Model.reschedule_tcb, Model.rotate_tcb] at hne
  exact expireAll_reached (a := { a with gTick := a.gTick + 1 }) _ h.wf.timeouts_nodup hne

section

variable {e : Entry} {r : ℤ} (hs : Sim k a) (hs' : Sim k' a')
include hs hs'

theorem TaskMove.of_same (h : (a'.tcb t).state = (a.tcb t).state) :
    TaskMove ⟨k, e, r, k'⟩ t (k.tcb t).state (k'.tcb t).state := by
  rw [hs.state, hs'.state, h]
  exact .stay

theorem TaskMove.of_block {q : QueueRef} (hrun : (a.tcb cur).state = .running)
    (hc : a.gCurrent = some cur) (hb : Obs.BlocksIn ⟨k, e, r, k'⟩ q)
    (hcur : (a'.tcb cur).state = .blocked ∧ (a'.tcb cur).waitQueue = some q)
    (hother : t ≠ cur → (a'.tcb t).state = (a.tcb t).state) :
    TaskMove ⟨k, e, r, k'⟩ t (k.tcb t).state (k'.tcb t).state := by
  by_cases ht : t = cur
  · subst ht
    rw [hs.state, hs'.state, hrun, hcur.1]
    refine .block hb (hs.gCurrent.trans hc) ?_
    change (k'.tcb t).toTcbData.waitQueue = some q
    rw [hs'.data, hcur.2]
  · exact .of_same hs hs' (hother ht)

theorem TaskMove.of_wake {q : QueueRef} {u : TaskId} (hw : WF a) (hq : q.isWait = true)
    (hhead : (a.list q).head? = some u) (hk : Obs.WakesFrom ⟨k, e, r, k'⟩ q)
    (hu : (a'.tcb u).state = .ready ∧ (a'.tcb u).waitResult = 0)
    (hother : t ≠ u → (a'.tcb t).state = (a.tcb t).state) :
    TaskMove ⟨k, e, r, k'⟩ t (k.tcb t).state (k'.tcb t).state := by
  by_cases ht : t = u
  · subst ht
    obtain ⟨hb, hwq⟩ := hw.of_wait hq (List.mem_of_mem_head? hhead)
    rw [hs.state, hs'.state, hb, hu.1]
    refine .wake hk ?_ ?_ ?_
    · change (k.tcb t).toTcbData.waitQueue = some q
      rw [hs.data, hwq]
    · exact (hs.repr q).head.trans hhead
    · change (k'.tcb t).toTcbData.waitResult = 0
      rw [hs'.data, hu.2]
  · exact .of_same hs hs' (hother ht)

theorem TaskMove.of_tick (hi : Inv a) (ha : a' = a.sysTick) :
    TaskMove ⟨k, .sysTick, r, k'⟩ t (k.tcb t).state (k'.tcb t).state := by
  by_cases hsame : a'.tcb t = a.tcb t
  · exact .of_same hs hs' (by rw [hsame])
  · subst ha
    rcases hi.tick_frame.tcb t with he | ⟨hmem, he⟩
    · exact absurd he hsame
    · have hin := hi.wf.timeouts_tasks t hmem
      obtain ⟨hb, hwq⟩ := (hi.wf.ok t hin (by simp)).sleeping hmem
      rw [hs.state, hs'.state, hb, he]
      refine .expire rfl ?_ ?_ ?_
      · change (k.tcb t).toTcbData.waitQueue = some .sleep
        rw [hs.data, hwq]
      · change osTickReached k'.gTick (k.tcb t).toTcbData.wakeTick = true
        rw [hs.data, hs'.gTick]
        exact tick_reached hi hsame
      · change (k'.tcb t).toTcbData.waitResult = -1
        rw [hs'.data, he]
        rfl

theorem TaskMove.of_pendSV (hi : Inv a)
    (ha : a' = Model.commit { a with pendsv := false }) :
    TaskMove ⟨k, .pendSV, r, k'⟩ t (k.tcb t).state (k'.tcb t).state := by
  subst ha
  obtain ⟨n, hn, hnext, hnb⟩ := hi.next
  rw [Model.commit_eq (a := { a with pendsv := false }) hnext] at hs'
  rw [hs.state, hs'.state]
  change TaskMove _ t _ (Model.commitState a.gCurrent n t (a.tcb t).state)
  unfold Model.commitState
  split_ifs with h1 h2
  · subst h1
    cases hst : (a.tcb t).state with
    | ready => exact .dispatch rfl (hs.gNext.trans hnext) hs'.gCurrent
    | running => exact .stay
    | blocked => exact absurd hst hnb
  · rw [h2.2]
    refine .preempt rfl (hs.gCurrent.trans h2.1) ?_
    rw [hs'.gCurrent]
    simpa using Ne.symm h1
  · exact .stay

/-- The three tasks that an unlock may touch: its caller, which stays as it is, the first waiter,
and no other. -/
theorem TaskMove.of_unlock {m : MutexId} {found : Option (Option MutexId)} {p : Priority}
    (hi : Inv a) (hp : a.pendsv = false) (hc : a.gCurrent = some cur)
    (hm : (a.mutex m).owner = some cur)
    (ha : a' = ((a.dropOwned cur m found).setPriority cur p).handOff m) :
    TaskMove ⟨k, .svc (.mutexUnlock (some m)), r, k'⟩ t (k.tcb t).state (k'.tcb t).state := by
  subst ha
  obtain ⟨w, htcb⟩ := Model.dropOwned_tcb (a := a) (t := cur) (m := m) found
  have hst : ∀ u, (((a.dropOwned cur m found).setPriority cur p).tcb u).state = (a.tcb u).state := by
    intro u
    rw [Model.setPriority_tcb, htcb]
    by_cases hu : u = cur
    · simp [hu]
    · simp [hu]
  have hl := (hi.settled (m := m) (p := p) hp hc found).waiters m
  have hk : (⟨k, .svc (.mutexUnlock (some m)), r, k'⟩ : Obs).WakesFrom (.mutex m) := by
    refine .unlock rfl ?_
    change (k.mutex m).owner = k.gCurrent
    rw [hs.mutex, hs.gCurrent, hm, hc]
  generalize (a.dropOwned cur m found).setPriority cur p = c at hs' hst hl
  unfold Model.handOff at hs'
  split at hs'
  · rename_i u l hul
    refine .of_wake hs hs' hi.wf (q := .mutex m) (u := u) rfl (by rw [← hl, hul]; rfl) hk ?_ fun hne => ?_
    · rw [Model.reschedule_tcb, Model.setMutex_tcb, Model.wake_tcb, if_pos rfl]
      exact ⟨rfl, rfl⟩
    · rw [Model.reschedule_tcb, Model.setMutex_tcb, Model.wake_tcb, if_neg hne, hst]
  · exact .of_same hs hs' (hst t)

theorem TaskMove.of_outcome (hi : Inv a) (hc : a.gCurrent = some cur) (he : a.Enabled e)
    (ho : Outcome a cur e r a') (ht : t ∈ a.tasks) :
    TaskMove ⟨k, e, r, k'⟩ t (k.tcb t).state (k'.tcb t).state := by
  have hblock : ∀ c q ticks ordered, c.gCurrent = some cur →
      (∀ u, (c.tcb u).state = (a.tcb u).state) →
      (((Model.block q ticks ordered c).tcb cur).state = .blocked ∧
        ((Model.block q ticks ordered c).tcb cur).waitQueue = some q) ∧
      (t ≠ cur → ((Model.block q ticks ordered c).tcb t).state = (a.tcb t).state) := by
    intro c q ticks ordered hcc hst
    rw [Model.block_tcb hcc, if_pos rfl, Model.block_tcb hcc]
    refine ⟨⟨rfl, rfl⟩, fun hne => ?_⟩
    rw [if_neg hne, hst]
  have hyield : a.yieldCpu.tcb = a.tcb := by
    change (a.rotate a.gCurrent).tcb = _
    simp
  cases ho with
  | tick => exact .of_tick hs hs' hi rfl
  | pendSV => exact .of_pendSV hs hs' hi rfl
  | yield => exact .of_same hs hs' (by rw [hyield])
  | delayZero => exact .of_same hs hs' (by rw [hyield])
  | delay hd =>
    obtain ⟨h1, h2⟩ := hblock _ .sleep _ false hc fun _ => rfl
    exact .of_block hs hs' (hi.running he.1 cur hc) hc (.delay rfl hd) h1 h2
  | takeBlock hcount =>
    obtain ⟨h1, h2⟩ := hblock _ (.sem _) _ false hc fun _ => rfl
    refine .of_block hs hs' (hi.running he.1 cur hc) hc (.take rfl ?_) h1 h2
    change k.semCount _ ≤ 0
    rw [hs.semCount]
    omega
  | give _ => exact .of_same hs hs' rfl
  | take _ => exact .of_same hs hs' rfl
  | giveWake hl =>
    refine .of_wake hs hs' hi.wf (q := .sem _) rfl (by rw [hl]; rfl) (.give rfl) ?_ fun hne => ?_
    · rw [Model.reschedule_tcb, Model.wake_tcb, if_pos rfl]
      exact ⟨rfl, rfl⟩
    · rw [Model.reschedule_tcb, Model.wake_tcb, if_neg hne]
  | lockFree _ =>
    exact .of_same hs hs' (Model.addToOwned_keeps TcbData.state (fun _ _ => rfl) t)
  | @lockBlock m u hm hne =>
    have hbst : ∀ v, ((a.boost cur u).tcb v).state = (a.tcb v).state := by
      intro v
      rw [Model.boost_tcb]
      split_ifs with hv
      · rw [hv.1]
      · rfl
    have hbc : (a.boost cur u).gCurrent = some cur := by rw [Model.boost_toGlobals, hc]
    obtain ⟨⟨h1, h2⟩, h3⟩ := hblock _ (.mutex m) osWaitForever true hbc hbst
    have hkeep := fun v => Model.addToOwned_keeps (t := cur) (m := m)
      (a := (a.boost cur u).block (.mutex m) osWaitForever true)
      (fun c : TcbData => (c.state, c.waitQueue)) (fun _ _ => rfl) v
    refine .of_block hs hs' (hi.running he.1 cur hc) hc (q := .mutex m) (.lock rfl (u := u) ?_ ?_)
      ⟨?_, ?_⟩ fun hne => ?_
    · change (k.mutex m).owner = some u
      rw [hs.mutex, hm]
    · change k.gCurrent ≠ some u
      rw [hs.gCurrent, hc]
      simpa using Ne.symm hne
    · rw [(Prod.mk.inj (hkeep cur)).1, h1]
    · rw [(Prod.mk.inj (hkeep cur)).2, h2]
    · rw [(Prod.mk.inj (hkeep t)).1, h3 hne]
  | unlock hm _ _ => exact .of_unlock hs hs' hi he.1 hc hm rfl
  | createFailed hf =>
    obtain ⟨⟨pool, mem, rfl⟩, -, -⟩ := hf
    exact .of_same hs hs' rfl
  | created hf => exact .of_same hs hs' (by rw [hf.frame.tcb t fun hx => hf.new (hx ▸ ht)])
  | takeNull => exact .of_same hs hs' rfl
  | giveNull => exact .of_same hs hs' rfl
  | lockNull => exact .of_same hs hs' rfl
  | lockOwn _ => exact .of_same hs hs' rfl
  | unlockNull => exact .of_same hs hs' rfl
  | unlockOther _ => exact .of_same hs hs' rfl
  | unrecognized => exact .of_same hs hs' rfl

end

theorem Outcome.born {e : Entry} {r : ℤ} (hi : Inv a) (hc : a.gCurrent = some cur)
    (ho : Outcome a cur e r a') (ht : t ∈ a'.tasks) (hnew : t ∉ a.tasks) :
    (a'.tcb t).state = .ready ∧ ∃ args, e = .svc (.taskCreate args) ∧ r = 0 := by
  by_cases he : ∃ args, e = .svc (.taskCreate args)
  · obtain ⟨args, rfl⟩ := he
    cases ho with
    | createFailed hf =>
      obtain ⟨⟨pool, mem, rfl⟩, -, -⟩ := hf
      exact absurd ht hnew
    | @created _ _ u hf =>
      have fr := hf.frame
      rw [fr.tasks] at ht
      obtain rfl : t = u := by simpa [hnew] using ht
      obtain ⟨sp, p, hn⟩ := fr.new
      exact ⟨by rw [hn]; rfl, args, rfl, rfl⟩
  · rw [ho.tasks_eq hi hc fun args hx => he ⟨args, hx⟩] at ht
    exact absurd ht hnew

/-- In every run each entry moves each task along one edge of the diagram, if at all, and new
tasks are READY. -/
theorem task_transitions (h : Run b os k) (ho : o ∈ os) :
    (∀ t ∈ o.pre.tasks, TaskMove o t (o.pre.tcb t).state (o.post.tcb t).state) ∧
    ∀ t ∈ o.post.tasks, t ∉ o.pre.tasks →
      (o.post.tcb t).state = .ready ∧ ∃ args, o.entry = .svc (.taskCreate args) ∧ o.ret = 0 := by
  obtain ⟨os₁, os₂, rfl⟩ := List.append_of_mem ho
  obtain ⟨hpre, hen, hret⟩ := h.split rfl
  obtain ⟨a, hs, hi⟩ := run_sim hpre
  obtain ⟨cur, -, hc⟩ := hi.cur
  obtain ⟨a', hs', -, hout⟩ := exec_sim hs hi hc hen hret
  refine ⟨fun t ht => ?_, fun t ht hnew => ?_⟩
  · rw [hs.tasks] at ht
    exact .of_outcome hs hs' hi hc (hs.globals ▸ hen) hout ht
  · rw [hs'.tasks] at ht
    rw [hs.tasks] at hnew
    rw [hs'.state]
    exact Outcome.born hi hc hout ht hnew

/-- A task waits for a semaphore, and another one gives it. -/
theorem task_transitions_small : ∃ os k, Run (Boot.small [1, 2] 0 0 (by decide)) os k ∧
    ∃ o ∈ os, o.entry = .svc (.semGive (some 0)) ∧ TaskMove o 192 .blocked .ready := by
  obtain ⟨os, k, hr, o, ho, he, hmem, hpre, hpost⟩ :=
    Boot.play_exists (Boot.small [1, 2] 0 0 (by decide)) 10
      [.pendSV, .svc (.semTake (some 0)), .pendSV, .svc (.semGive (some 0)), .sysTick, .pendSV]
      (fun os _ => ∃ o ∈ os, o.entry = .svc (.semGive (some 0)) ∧ 192 ∈ o.pre.tasks ∧
        (o.pre.tcb 192).state = .blocked ∧ (o.post.tcb 192).state = .ready) (by decide +kernel)
  have hmove := (task_transitions hr ho).1 192 hmem
  rw [hpre, hpost] at hmove
  exact ⟨os, k, hr, o, ho, he, hmove⟩

end Rtos

import Rtos.Model.Frames
import Rtos.Refine.Boot
import Rtos.Kernel.Switch

/-! The tick inside a switch. `os_commit_switch` reads `g_next` once to decide whether the task
that leaves is demoted, and once more for the task that comes. While the two agree about a
running task, one task is RUNNING whenever task code executes, and it is `g_current`. -/

namespace Rtos

open Lib

open Model (WF Inv)

namespace Model

variable {a b : Model} {t u x : TaskId}

/-! A tick does the same whether PendSV is pending or not. -/

theorem trigger_expire : a.trigger.expire t = (a.expire t).trigger := by
  simp only [expire, timeoutRemove_tcb, trigger_tcb]
  cases (a.tcb t).waitQueue <;> rfl

theorem trigger_expireAll (now : Word) (l : List TaskId) :
    expireAll now l a.trigger = (expireAll now l a).trigger := by
  induction l generalizing a with
  | nil => rfl
  | cons t l ih =>
    by_cases hn : osTickReached now (a.tcb t).wakeTick
    · simp only [expireAll, trigger_tcb, hn, if_true, trigger_expire, ih]
    · simp only [expireAll, trigger_tcb, hn, if_false, Bool.false_eq_true]

theorem trigger_reschedule : a.trigger.reschedule = a.reschedule.trigger := by
  have hf : a.trigger.firstReady = a.firstReady := firstReady_congr rfl
  have hc : a.trigger.gCurrent = a.gCurrent := rfl
  simp only [reschedule, schedule, hf, hc]
  split_ifs <;> rfl

theorem trigger_rotate (tcb : Option TaskId) : a.trigger.rotate tcb = (a.rotate tcb).trigger := by
  cases tcb with
  | none => rfl
  | some t =>
    by_cases hh : (a.list (.ready (a.tcb t).priority)).head? = some t
    · simp only [rotate, trigger_tcb, trigger_list, hh, if_true]
      rfl
    · simp only [rotate, trigger_tcb, trigger_list, hh, if_false]

theorem trigger_sysTick : a.trigger.sysTick = a.sysTick.trigger := by
  have h : expireAll (a.gTick + 1) a.timeouts ({ a with gTick := a.gTick + 1 } : Model).trigger =
      (expireAll (a.gTick + 1) a.timeouts { a with gTick := a.gTick + 1 }).trigger :=
    trigger_expireAll _ _
  have ht : a.trigger.sysTick =
      (let c := (expireAll (a.gTick + 1) a.timeouts
        ({ a with gTick := a.gTick + 1 } : Model).trigger).reschedule
      (c.rotate c.gCurrent).reschedule) := rfl
  rw [ht, sysTick_eq, h, trigger_reschedule]
  simp only [trigger_rotate, trigger_reschedule]
  rfl

/-! While PendSV is active the current task need not be running yet: the invariant is the one
with PendSV pending. -/

theorem Inv.trigger (h : Inv a) : Inv a.trigger :=
  ⟨h.wf.congr rfl (by simp) rfl rfl, h.pool.congr rfl rfl fun _ => rfl, h.cur, h.next, nofun,
    h.unique, h.idle, h.owner, h.blockedOn⟩

/-- Nothing is pending any more, and the current task is running. -/
theorem Inv.of_trigger (h : Inv a.trigger)
    (hr : ∀ c, a.gCurrent = some c → (a.tcb c).state = .running) : Inv a :=
  ⟨h.wf.congr rfl (by simp) rfl rfl, h.pool.congr rfl rfl fun _ => rfl, h.cur, h.next, fun _ => hr,
    h.unique, h.idle, h.owner, h.blockedOn⟩

theorem Inv.setCurrent (h : Inv a.trigger) (hx : x ∈ a.tasks)
    (hu : ∀ u ∈ a.tasks, (a.tcb u).state = .running → u = x) :
    Inv ({ a with gCurrent := some x } : Model).trigger :=
  ⟨h.wf.congr rfl (by simp) rfl rfl, h.pool.congr rfl rfl fun _ => rfl, ⟨x, hx, rfl⟩, h.next, nofun,
    fun u hut hr => congrArg some (hu u hut hr).symm, h.idle, h.owner, h.blockedOn⟩

/-- The current task, not blocked, becomes ready or running. -/
theorem Inv.setState (h : Inv a.trigger) (hc : a.gCurrent = some x)
    (hb : (a.tcb x).state ≠ .blocked) {s : TaskState} (hs : s ≠ .blocked) :
    Inv (a.setTcb x fun c => { c with state := s }).trigger := by
  set b := a.setTcb x fun c => { c with state := s } with hbdef
  have hst : ∀ u, (b.tcb u).state = .blocked ↔ (a.tcb u).state = .blocked := fun u => by
    rw [hbdef, setTcb_tcb]
    split_ifs with hu
    · rw [hu]
      exact ⟨fun hf => absurd hf hs, fun hf => absurd hf hb⟩
    · exact Iff.rfl
  have hk : ∀ {β : Type} (g : TcbData → β) (_ : g { a.tcb x with state := s } = g (a.tcb x))
      (u : TaskId), g (b.tcb u) = g (a.tcb u) := fun g hg u => setTcb_keeps a u g hg
  refine ⟨h.wf.congr rfl (fun u => ⟨hst u, hk TcbData.waitQueue rfl u, hk TcbData.priority rfl u,
    hk TcbData.wakeTick rfl u⟩) rfl rfl, h.pool.congr rfl rfl (hk TcbData.sp rfl), h.cur, ?_, nofun,
    fun u hut hr => ?_, ?_, h.owner, fun u hut => ?_⟩
  · obtain ⟨n, hn, hn1, hn2⟩ := h.next
    exact ⟨n, hn, hn1, fun hf => hn2 ((hst n).1 hf)⟩
  · by_cases hu : u = x
    · rw [hu]
      exact hc
    · refine h.unique u hut ?_
      rwa [trigger_tcb, hbdef, setTcb_tcb_ne _ _ hu] at hr
  · obtain ⟨i, hi, hi'⟩ := h.idle
    exact ⟨i, hi, fun hf => hi' ((hst i).1 hf)⟩
  · exact (hk TcbData.blockedOn rfl u).trans (h.blockedOn u hut)

/-- What `os_commit_switch` may rely on before each of its accesses. -/
def At (a : Model) : Switch → Prop
  | .off => Inv a
  | .readCurrent => True
  | .testNull prev => prev = a.gCurrent
  | .testSame prev => prev = a.gCurrent
  | .testState t => a.gCurrent = some t
  | .demote t => a.gCurrent = some t ∧ (a.tcb t).state = .running
  | .readNext prev => prev = a.gCurrent
  | .writeCurrent _ n => ∃ x ∈ a.tasks, n = some x ∧ (a.tcb x).state ≠ .blocked ∧
      ∀ u ∈ a.tasks, (a.tcb u).state = .running → u = x
  | .readBack => ∀ x, a.gCurrent = some x → (a.tcb x).state ≠ .blocked
  | .writeState c => ∃ x, c = some x ∧ a.gCurrent = some x ∧ (a.tcb x).state ≠ .blocked

theorem TickFrame.state (fr : TickFrame a b) (hw : WF a) (u : TaskId) :
    ((b.tcb u).state = .running ↔ (a.tcb u).state = .running) ∧
      ((a.tcb u).state ≠ .blocked → (b.tcb u).state ≠ .blocked) := by
  rcases fr.tcb u with he | ⟨hm, he⟩
  · rw [he]
    exact ⟨Iff.rfl, id⟩
  · have hb := ((hw.ok u (hw.timeouts_tasks u hm) (by simp)).sleeping hm).1
    rw [he, hb]
    simp [woken]

theorem At.tick (h : Inv a.trigger) {p : Switch} (hp : a.At p) : a.sysTick.At p := by
  have hw : WF a := h.wf.congr rfl (by simp) rfl rfl
  have fr : TickFrame a a.sysTick := by
    have := h.tick_frame
    rw [trigger_sysTick] at this
    exact ⟨this.tasks, this.mutex, this.semCount, this.gCurrent, this.gTick, this.tcb, this.list⟩
  have hst := fr.state hw
  cases p with
  | off => exact Inv.sysTick hp
  | readCurrent => trivial
  | testNull prev => exact hp.trans fr.gCurrent.symm
  | testSame prev => exact hp.trans fr.gCurrent.symm
  | testState t => exact fr.gCurrent.trans hp
  | demote t => exact ⟨fr.gCurrent.trans hp.1, (hst t).1.2 hp.2⟩
  | readNext prev => exact hp.trans fr.gCurrent.symm
  | writeCurrent prev n =>
    obtain ⟨x, hx, hn, hb, hu⟩ := hp
    refine ⟨x, by rwa [fr.tasks], hn, (hst x).2 hb, fun u hut hr => ?_⟩
    rw [fr.tasks] at hut
    exact hu u hut ((hst u).1.1 hr)
  | readBack =>
    intro x hx
    rw [fr.gCurrent] at hx
    exact (hst x).2 (hp x hx)
  | writeState c =>
    obtain ⟨x, hc, hx, hb⟩ := hp
    exact ⟨x, hc, fr.gCurrent.trans hx, (hst x).2 hb⟩

end Model

/-- The task that is about to be left, when `g_next` is read for the assignment. -/
def Switch.leaving : Switch → Option TaskId
  | .readNext prev => prev
  | _ => none

/-- A task that has not been demoted by then is still the one that is chosen. -/
def System.Steady (s : System) : Prop :=
  ∀ t ∈ s.sw.leaving, (s.k.tcb t).state = .running → s.k.gNext = some t

instance (s : System) : Decidable s.Steady :=
  inferInstanceAs (Decidable (∀ t ∈ s.sw.leaving, (s.k.tcb t).state = .running → s.k.gNext = some t))

variable {b : Boot} {k k' : Kernel} {a : Model} {s s' : System} {tr : List (System × Act)}

theorem Sim.setState (hs : Sim k a) (t : TaskId) (s : TaskState) :
    Sim (k.setTcb t fun c => { c with state := s }) (a.setTcb t fun c => { c with state := s }) :=
  hs.setTcb t (fun _ => rfl) fun _ => ⟨rfl, rfl, rfl, rfl⟩

theorem Sim.access (hs : Sim s.k a) (h : Inv a.trigger) (hp : a.At s.sw) (hst : s.Steady) :
    ∃ a', Sim (switchStep s.k s.sw).1 a' ∧ Inv a'.trigger ∧ a'.At (switchStep s.k s.sw).2 := by
  obtain ⟨n, hn, hnext, hnb⟩ := h.next
  have hkn : s.k.gNext = some n := hs.gNext.trans hnext
  obtain ⟨c, hct, hc⟩ := h.cur
  obtain ⟨k, p⟩ := s
  cases p with
  | off => exact ⟨a, hs, h, hp⟩
  | readCurrent => exact ⟨a, hs, h, hs.gCurrent⟩
  | testNull prev =>
    have hne : ¬ k.gNext = none := fun hf => by cases hf.symm.trans hkn
    refine ⟨a, ?_⟩
    simp only [switchStep, if_neg hne]
    exact ⟨hs, h, hp⟩
  | testSame prev =>
    refine ⟨a, ?_⟩
    cases prev with
    | none => exact ⟨hs, h, hp⟩
    | some t =>
      simp only [switchStep]
      split_ifs
      · exact ⟨hs, h, hp.symm⟩
      · exact ⟨hs, h, hp⟩
  | testState t =>
    refine ⟨a, ?_⟩
    simp only [switchStep]
    split_ifs with hr
    · exact ⟨hs, h, hp, (hs.state t).symm.trans hr⟩
    · exact ⟨hs, h, hp.symm⟩
  | demote t =>
    have hb : (a.tcb t).state ≠ .blocked := by rw [hp.2]; simp
    exact ⟨_, hs.setState t .ready, h.setState hp.1 hb (by simp), hp.1.symm⟩
  | readNext prev =>
    refine ⟨a, hs, h, n, hn, hkn, hnb, fun u hu hr => ?_⟩
    have hprev : prev = some u := hp.trans (h.unique u hu hr)
    have := hst u hprev ((hs.state u).trans hr)
    exact Option.some.inj (this.symm.trans hkn)
  | writeCurrent prev next =>
    obtain ⟨x, hx, rfl, hb, hu⟩ := hp
    refine ⟨_, hs.mapGlobals fun g => { g with gCurrent := some x }, h.setCurrent hx hu, ?_⟩
    intro y hy
    obtain rfl := Option.some.inj hy
    exact hb
  | readBack => exact ⟨a, hs, h, c, hs.gCurrent.trans hc, hc, hp c hc⟩
  | writeState next =>
    obtain ⟨x, rfl, hx, hb⟩ := hp
    have hi := h.setState hx hb (s := .running) (by simp)
    refine ⟨_, hs.setState x .running, hi, hi.of_trigger fun y hy => ?_⟩
    obtain rfl := Option.some.inj (hx.symm.trans hy)
    simp

/-- The invariant over runs in which a tick may come between any two accesses. -/
theorem system_sim (h : System.Run b tr s) (hst : ∀ x ∈ tr, x.2 = .access → x.1.Steady) :
    ∃ a, Sim s.k a ∧ Inv a.trigger ∧ a.At s.sw := by
  induction h with
  | boot h =>
    obtain ⟨a, hs, hi⟩ := start_sim h
    exact ⟨a, hs, hi.inv.trigger, hi.inv⟩
  | @snoc tr s s' x _ hx ih =>
    obtain ⟨a, hs, hi, hp⟩ := ih fun y hy => hst y (by simp [hy])
    cases hx with
    | svc hoff he hr =>
      rw [hoff] at hp
      obtain ⟨cur, -, hc⟩ := Inv.cur hp
      obtain ⟨a', hs', hi', -⟩ := exec_sim hs hp hc he hr
      exact ⟨a', hs', hi'.trigger, hi'⟩
    | sysTick hr =>
      obtain ⟨k₁, hk₁, hs₁⟩ := hs.sysTick (hi.wf.congr rfl (by simp) rfl rfl)
      have heq := hr.unique (Comp.returns_bind.2 ⟨k₁, hk₁, Comp.returns_pure.2 rfl⟩)
      obtain rfl := (Prod.mk.inj heq).2
      refine ⟨_, hs₁, ?_, hp.tick hi⟩
      rw [← Model.trigger_sysTick]
      exact hi.sysTick
    | enter hoff hpend => exact ⟨_, hs.mapGlobals fun g => { g with pendsv := false }, hi, trivial⟩
    | access hon => exact hs.access hi hp (hst (s, .access) (by simp) rfl)

/-- One task is RUNNING, and it is `g_current`. -/
def Kernel.OneRunning (k : Kernel) : Prop :=
  ∃ t ∈ k.tasks, k.gCurrent = some t ∧ ∀ u ∈ k.tasks, (k.tcb u).state = .running ↔ u = t

theorem one_running (h : System.Run b tr s) (hst : ∀ x ∈ tr, x.2 = .access → x.1.Steady)
    (hr : s.TaskRuns) : s.k.OneRunning := by
  obtain ⟨a, hs, -, hp⟩ := system_sim h hst
  rw [hr.1] at hp
  obtain ⟨c, hct, hc⟩ := Inv.cur hp
  have hpend : a.pendsv = false := hs.pendsv.symm.trans hr.2
  refine ⟨c, by rwa [hs.tasks], hs.gCurrent.trans hc, fun u hu => ?_⟩
  rw [hs.tasks] at hu
  rw [hs.state]
  constructor
  · intro hrun
    exact Option.some.inj ((Inv.unique hp u hu hrun).symm.trans hc)
  · rintro rfl
    exact Inv.running hp hpend u hc

/-- A tick wakes a task while the first one is being left. -/
theorem one_running_small : ∃ tr s, System.Run (Boot.small [2, 1] 0 0 (by decide)) tr s ∧
    ((∀ x ∈ tr, x.2 = .access → x.1.Steady) ∧ s.TaskRuns ∧ (s.k.tcb 192).state = .ready) ∧
    s.k.OneRunning := by
  obtain ⟨tr, s, h, hx⟩ := Boot.playSystem_exists (Boot.small [2, 1] 0 0 (by decide)) 10
    ([.enter] ++ List.replicate 7 .access ++ [.svc (.delayTicks 1), .enter] ++
      List.replicate 8 .access ++ [.svc .yield, .enter] ++ List.replicate 2 .access ++ [.sysTick] ++
      List.replicate 7 .access ++ [.enter] ++ List.replicate 7 .access)
    (fun tr s => (∀ x ∈ tr, x.2 = .access → x.1.Steady) ∧ (s.sw = .off ∧ s.k.pendsv = false) ∧
      (s.k.tcb 192).state = .ready) (by decide +kernel)
  exact ⟨tr, s, h, hx, one_running h hx.1 hx.2.1⟩

/-- The tick comes one access later: task 192 has yielded to itself, and the tick wakes task
128 after the test and before the assignment. Both are RUNNING from then on. -/
theorem one_running_fails : ¬ ∀ (b : Boot) (tr : List (System × Act)) (s : System),
    System.Run b tr s → s.TaskRuns → s.k.OneRunning := by
  intro hall
  obtain ⟨tr, s, h, hr, h1, h2, h3, h4⟩ := Boot.playSystem_exists
    (Boot.small [2, 1] 0 0 (by decide)) 10
    ([.enter] ++ List.replicate 7 .access ++ [.svc (.delayTicks 1), .enter] ++
      List.replicate 8 .access ++ [.svc .yield, .enter] ++ List.replicate 3 .access ++ [.sysTick] ++
      List.replicate 4 .access ++ [.enter] ++ List.replicate 7 .access)
    (fun _ s => (s.sw = .off ∧ s.k.pendsv = false) ∧ 128 ∈ s.k.tasks ∧ 192 ∈ s.k.tasks ∧
      (s.k.tcb 128).state = .running ∧ (s.k.tcb 192).state = .running) (by decide +kernel)
  obtain ⟨t, -, -, ht⟩ := hall _ tr s h hr
  cases ((ht 128 h1).1 h3).trans ((ht 192 h2).1 h4).symm

end Rtos

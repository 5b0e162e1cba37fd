import Rtos.Proofs.Marks
import Rtos.Proofs.Priority
import Rtos.Proofs.Structure
import Rtos.Proofs.Switch

/-! Runs in which a tick may come between any two accesses of `os_commit_switch`, with no condition
on when it comes. The marks may then be wrong, but nothing depends on them: everything is proved of
the kernel without marks, and the mark of the current task is put back where a call needs it. -/

namespace Rtos

open Lib Kernel

open Model (Inv WF Outcome)

variable {a a' : Model} {b : Boot} {s : System} {tr : List (System × Act)} {r : ℤ} {k k' : Kernel}
  {c : Syscall} {cur t : TaskId}

def Model.unmark (a : Model) : Model :=
  { a with tcb := fun t => { a.tcb t with
      state := if (a.tcb t).state = .running then .ready else (a.tcb t).state } }

theorem Model.unmark_blocked (a : Model) (t : TaskId) :
    (a.unmark.tcb t).state = .blocked ↔ (a.tcb t).state = .blocked := by
  simp only [Model.unmark]
  cases (a.tcb t).state <;> simp

theorem Sim.unmark (hs : Sim k a) : Sim k.unmark a.unmark := by
  refine ⟨hs.globals, fun t => ?_, hs.repr, hs.disjoint, hs.timeouts⟩
  simp only [Model.unmark, ← hs.data t]
  rfl

theorem Model.Inv.unmark (h : Inv a) : Inv a.unmark.trigger := by
  have hb := a.unmark_blocked
  obtain ⟨n, hn, hn1, hn2⟩ := h.next
  obtain ⟨i, hi, his⟩ := h.idle
  refine ⟨h.wf.congr rfl (fun u => ⟨hb u, rfl, rfl, rfl⟩) rfl rfl, h.pool.congr rfl rfl fun _ => rfl,
    h.cur, ⟨n, hn, hn1, fun hf => hn2 ((hb n).1 hf)⟩, fun hf => ?_, fun u hu hr => ?_,
    ⟨i, hi, fun hf => his ((hb i).1 hf)⟩, h.owner, h.blockedOn⟩
  · cases hf
  · simp only [Model.trigger, Model.unmark] at hr
    cases hs : (a.tcb u).state <;> rw [hs] at hr <;> cases hr

/-- The current task gets its mark. -/
def Model.mark (a : Model) (cur : TaskId) : Model := a.setTcb cur fun c => { c with state := .running }

/-- What an access does to the kernel, the marks apart. -/
def Model.access (a : Model) : Switch → Model
  | .writeCurrent _ n => { a with gCurrent := n }
  | _ => a

/-- What is known before each access, whatever the marks say. -/
def Model.Reaches (a : Model) : Switch → Prop
  | .off => a.pendsv = false → ∀ x, a.gCurrent = some x → (a.tcb x).state ≠ .blocked
  | .demote t => (a.tcb t).state ≠ .blocked
  | .writeCurrent _ n => ∃ x ∈ a.tasks, n = some x ∧ (a.tcb x).state ≠ .blocked
  | .readBack => ∀ x, a.gCurrent = some x → (a.tcb x).state ≠ .blocked
  | .writeState c => ∃ x, c = some x ∧ a.gCurrent = some x ∧ (a.tcb x).state ≠ .blocked
  | _ => True

/-- The kernel without marks is one the invariant knows, with a switch pending. -/
structure Unmarked (s : System) (a : Model) : Prop where
  sim : Sim s.k.unmark a
  inv : Inv a.trigger
  reaches : a.Reaches s.sw

namespace Unmarked

theorem not_running (h : Unmarked s a) (u : TaskId) : (a.tcb u).state ≠ .running := by
  rw [← h.sim.data u]
  simp only [Kernel.unmark, Tcb.unmark]
  cases (s.k.tcb u).state <;> simp

theorem blocked_iff (h : Unmarked s a) (u : TaskId) :
    (a.tcb u).state = .blocked ↔ (s.k.tcb u).state = .blocked := by
  rw [← h.sim.data u]
  exact (s.k.tcb u).unmark_blocked

theorem not_blocked (h : Unmarked s a) (hoff : s.sw = .off) (hp : s.k.TaskRuns)
    (hc : a.gCurrent = some cur) : (a.tcb cur).state ≠ .blocked := by
  have hreach := h.reaches
  rw [hoff] at hreach
  exact hreach (h.sim.pendsv.symm.trans hp) cur hc

/-- Before a call the mark of the caller can be put where it belongs. -/
theorem svc (h : Unmarked s a) (hoff : s.sw = .off) (he : s.k.Enabled (.svc c))
    (hc : a.gCurrent = some cur) (hr : (exec s.k (.svc c)).Returns (r, k')) :
    ∃ a', Inv (a.mark cur) ∧ Outcome (a.mark cur) cur (.svc c) r a' ∧ Inv a' ∧
      Unmarked ⟨k', .off⟩ a'.unmark := by
  have hb := h.not_blocked hoff he.1 hc
  have hb' : (s.k.unmark.tcb cur).state ≠ .blocked := by
    rw [unmark_tcb, Ne, Tcb.unmark_blocked, ← h.blocked_iff]
    exact hb
  have hi : Inv (a.mark cur) := by
    refine (h.inv.setState hc hb (s := .running) (by simp)).of_trigger fun y hy => ?_
    obtain rfl := Option.some.inj (hc.symm.trans hy)
    simp
  have halike : s.k.unmark = (s.k.unmark.setTcb cur fun c => { c with state := .running }).unmark := by
    rw [unmark_setState hb' (by simp), unmark_unmark]
  -- the call answers alike with the mark and without
  have hr' : (exec s.k.unmark (.svc c)).Returns (r, k'.unmark) := by
    rw [exec_unmark _ (by simp)]
    exact (Comp.returns_map _ _).2 ⟨(r, k'), hr, rfl⟩
  rw [halike, exec_unmark _ (by simp)] at hr'
  obtain ⟨⟨r', l⟩, hl, hx⟩ := (Comp.returns_map _ _).1 hr'
  obtain rfl : r' = r := congrArg Prod.fst hx
  have hlk : l.unmark = k'.unmark := congrArg Prod.snd hx
  obtain ⟨a', hs', hi', ho⟩ := exec_sim (h.sim.setState cur .running) hi hc he hl
  refine ⟨a', hi, ho, hi', ?_, hi'.unmark, fun hp y hy => ?_⟩
  · show Sim k'.unmark a'.unmark
    rw [← hlk]
    exact hs'.unmark
  · rw [Ne, Model.unmark_blocked, hi'.running hp y hy]
    simp

theorem tick (h : Unmarked s a) (hr : (exec s.k .sysTick).Returns (r, k')) :
    Unmarked ⟨k', s.sw⟩ a.sysTick := by
  have hw : WF a := h.inv.wf.congr rfl (by simp) rfl rfl
  have fr : Model.TickFrame a a.sysTick := by
    have := h.inv.tick_frame
    rw [Model.trigger_sysTick] at this
    exact ⟨this.tasks, this.mutex, this.semCount, this.gCurrent, this.gTick, this.tcb, this.list⟩
  have hst := fun u => (fr.state hw u).2
  obtain ⟨l, hl, hsim⟩ := h.sim.sysTick hw
  have hl' : k'.unmark = l := by
    have h1 : (exec s.k.unmark .sysTick).Returns (r, k'.unmark) := by
      rw [exec_unmark _ (by simp)]
      exact (Comp.returns_map _ _).2 ⟨_, hr, rfl⟩
    exact congrArg Prod.snd (h1.unique (Comp.returns_bind.2 ⟨l, hl, Comp.returns_pure.2 rfl⟩))
  refine ⟨?_, ?_, ?_⟩
  · show Sim k'.unmark a.sysTick
    rwa [hl']
  · rw [← Model.trigger_sysTick]
    exact h.inv.sysTick
  · have hreach := h.reaches
    show a.sysTick.Reaches s.sw
    cases hsw : s.sw with
    | off =>
      rw [hsw] at hreach
      intro hp x hx
      rw [fr.gCurrent] at hx
      cases hpa : a.pendsv with
      | false => exact hst x (hreach hpa x hx)
      | true =>
        -- a request that is pending stays so
        have htr : a.trigger = a := congrArg (fun p => ({ a with pendsv := p } : Model)) hpa.symm
        have hp' := congrArg (fun m : Model => m.pendsv) (a.trigger_sysTick)
        rw [htr] at hp'
        cases hp.symm.trans hp'
    | demote t =>
      rw [hsw] at hreach
      exact hst t hreach
    | writeCurrent prev n =>
      rw [hsw] at hreach
      obtain ⟨x, hx, hn, hb⟩ := hreach
      exact ⟨x, by rwa [fr.tasks], hn, hst x hb⟩
    | readBack =>
      rw [hsw] at hreach
      intro x hx
      rw [fr.gCurrent] at hx
      exact hst x (hreach x hx)
    | writeState c =>
      rw [hsw] at hreach
      obtain ⟨x, hc, hx, hb⟩ := hreach
      exact ⟨x, hc, fr.gCurrent.trans hx, hst x hb⟩
    | readCurrent => trivial
    | testNull prev => trivial
    | testSame prev => trivial
    | testState t => trivial
    | readNext prev => trivial

theorem enter (h : Unmarked s a) :
    Unmarked ⟨{ s.k with pendsv := false }, .readCurrent⟩ { a with pendsv := false } :=
  ⟨h.sim.mapGlobals fun g => { g with pendsv := false }, h.inv, trivial⟩

theorem access (h : Unmarked s a) (hon : s.sw ≠ .off) :
    Unmarked ⟨(switchStep s.k s.sw).1, (switchStep s.k s.sw).2⟩ (a.access s.sw) := by
  obtain ⟨n, hn, hnext, hnb⟩ := h.inv.next
  have hkn : s.k.gNext = some n := h.sim.gNext.trans hnext
  obtain ⟨c, hct, hc⟩ := h.inv.cur
  have hnr := h.not_running
  have hbl := h.blocked_iff
  obtain ⟨hs, hi, hreach⟩ := h
  obtain ⟨k, p⟩ := s
  cases p with
  | off => exact absurd rfl hon
  | readCurrent => exact ⟨hs, hi, trivial⟩
  | testNull prev =>
    have hne : ¬ k.gNext = none := fun hf => by cases hf.symm.trans hkn
    simp only [switchStep, if_neg hne]
    exact ⟨hs, hi, trivial⟩
  | testSame prev =>
    cases prev with
    | none => exact ⟨hs, hi, trivial⟩
    | some t =>
      simp only [switchStep]
      split_ifs
      · exact ⟨hs, hi, trivial⟩
      · exact ⟨hs, hi, trivial⟩
  | testState t =>
    simp only [switchStep]
    split_ifs with hr
    · refine ⟨hs, hi, fun hb => ?_⟩
      cases hr.symm.trans ((hbl t).1 hb)
    · exact ⟨hs, hi, trivial⟩
  | demote t =>
    refine ⟨?_, hi, trivial⟩
    have hb : (k.tcb t).state ≠ .blocked := fun hf => hreach ((hbl t).2 hf)
    show Sim (k.setTcb t fun c => { c with state := .ready }).unmark a
    rwa [unmark_setState hb (by simp)]
  | readNext prev => exact ⟨hs, hi, n, hn, hkn, hnb⟩
  | writeCurrent prev next =>
    obtain ⟨x, hx, rfl, hb⟩ := hreach
    refine ⟨hs.mapGlobals fun g => { g with gCurrent := some x },
      hi.setCurrent hx fun u _ hr => absurd hr (hnr u), fun y hy => ?_⟩
    obtain rfl := Option.some.inj hy
    exact hb
  | readBack => exact ⟨hs, hi, c, hs.gCurrent.trans hc, hc, hreach c hc⟩
  | writeState next =>
    obtain ⟨x, rfl, hx, hb⟩ := hreach
    refine ⟨?_, hi, fun _ y hy => ?_⟩
    · have hb' : (k.tcb x).state ≠ .blocked := fun hf => hb ((hbl x).2 hf)
      show Sim (k.setTcb x fun c => { c with state := .running }).unmark a
      rwa [unmark_setState hb' (by simp)]
    · obtain rfl := Option.some.inj (hx.symm.trans hy)
      exact hb

end Unmarked

/-- Induction over preempted runs, at the level of the model without marks. -/
theorem system_induct {P : List (System × Act) → Switch → Model → Prop}
    (boot : ∀ {a}, Started b a → P [] .off a.unmark)
    (svc : ∀ {tr s a a' cur c r}, Unmarked s a → s.sw = .off → s.k.Enabled (.svc c) →
      a.gCurrent = some cur → Inv (a.mark cur) → Outcome (a.mark cur) cur (.svc c) r a' → Inv a' →
      P tr .off a → P (tr ++ [(s, .svc c)]) .off a'.unmark)
    (tick : ∀ {tr s a}, Unmarked s a → P tr s.sw a → P (tr ++ [(s, .sysTick)]) s.sw a.sysTick)
    (enter : ∀ {tr s a}, Unmarked s a → P tr .off a →
      P (tr ++ [(s, .enter)]) .readCurrent { a with pendsv := false })
    (access : ∀ {tr s a}, Unmarked s a → s.sw ≠ .off → P tr s.sw a →
      P (tr ++ [(s, .access)]) (switchStep s.k s.sw).2 (a.access s.sw))
    (h : System.Run b tr s) : ∃ a, Unmarked s a ∧ P tr s.sw a := by
  induction h with
  | boot h =>
    obtain ⟨a, hs, hst⟩ := start_sim h
    refine ⟨a.unmark, ⟨hs.unmark, hst.inv.unmark, fun hp x hx => ?_⟩, boot hst⟩
    rw [Ne, Model.unmark_blocked, hst.inv.running hp x hx]
    simp
  | snoc _ hx ih =>
    obtain ⟨a, ha, hP⟩ := ih
    cases hx with
    | svc hoff he hr =>
      obtain ⟨cur, -, hc⟩ := ha.inv.cur
      obtain ⟨a', hi, ho, hi', ha'⟩ := ha.svc hoff he hc hr
      rw [hoff] at hP
      exact ⟨a'.unmark, ha', svc ha hoff he hc hi ho hi' hP⟩
    | sysTick hr => exact ⟨_, ha.tick hr, tick ha hP⟩
    | enter hoff _ =>
      rw [hoff] at hP
      exact ⟨_, ha.enter, enter ha hP⟩
    | access hon => exact ⟨_, ha.access hon, access ha hon hP⟩

theorem Structured.of_unmark {l : QueueRef → List TaskId} {timeouts : List TaskId}
    (h : Structured k.unmark l timeouts) : Structured k l timeouts := by
  have hb : ∀ t, (k.unmark.tcb t).state = .blocked ↔ (k.tcb t).state = .blocked :=
    fun t => (k.tcb t).unmark_blocked
  have hsl : ∀ t, Sleeping k.unmark t ↔ Sleeping k t := fun t => and_congr (hb t) Iff.rfl
  refine ⟨h.queues, fun t ht => ⟨fun hs => ?_, fun hs => ?_⟩, h.only, h.timeoutList,
    fun t ht => ?_, fun t ht hs => ?_⟩
  · exact (h.tasks t ht).ready fun hf => hs ((hb t).1 hf)
  · exact (h.tasks t ht).blocked ((hb t).2 hs)
  · exact ⟨(h.sleeping t ht).1, (hsl t).1 (h.sleeping t ht).2⟩
  · exact h.timed t ht ((hsl t).2 hs)

theorem Unmarked.enabled (h : Unmarked s a) (he : s.k.Enabled (.svc c)) :
    (a.mark cur).Enabled (.svc c) := by
  have hg : (a.mark cur).toGlobals = s.k.toGlobals := h.sim.globals.symm
  rw [hg]
  exact he

theorem MutexOk.tick (h : MutexOk a) (hi : Inv a.trigger) : MutexOk a.sysTick := by
  obtain ⟨c, -, hc⟩ := hi.cur
  have ht : MutexOk a.trigger := ⟨h.free, h.apart⟩
  have h' := ht.step hi hc (e := .sysTick) trivial .tick
  rw [Model.trigger_sysTick] at h'
  exact ⟨h'.free, h'.apart⟩

theorem system_mutexOk (h : System.Run b tr s) : ∃ a, Unmarked s a ∧ MutexOk a := by
  refine system_induct (P := fun _ _ a => MutexOk a) ?_ ?_ ?_ ?_ ?_ h
  · intro a hst
    exact ⟨hst.inherits.ok.free, hst.inherits.ok.apart⟩
  · intro tr s a a' cur c r ha _ he hc hi ho _ hP
    have hm : MutexOk (a.mark cur) := ⟨hP.free, hP.apart⟩
    have hm' := hm.step hi hc (ha.enabled he) ho
    exact ⟨hm'.free, hm'.apart⟩
  · intro tr s a ha hP
    exact hP.tick ha.inv
  · intro tr s a _ hP
    exact ⟨hP.free, hP.apart⟩
  · intro tr s a _ _ hP
    cases s.sw <;> exact ⟨hP.free, hP.apart⟩

theorem Unmarked.structured (h : Unmarked s a) : Structured s.k a.list a.timeouts := by
  have hst := (h.sim.mapGlobals fun g => { g with pendsv := true }).structured h.inv
  refine Structured.of_unmark ⟨hst.queues, fun t ht => ?_, hst.only, hst.timeoutList, hst.sleeping,
    hst.timed⟩
  exact ⟨(hst.tasks t ht).ready, (hst.tasks t ht).blocked⟩

/-- Wherever the ticks come, in the switch or outside: the queues are in order, what runs and what
is chosen to run next can run, a free mutex has no waiters and no task waits for its own mutex. -/
theorem preempted_structured (h : System.Run b tr s) :
    (∃ l timeouts, Structured s.k l timeouts) ∧
    (∃ c ∈ s.k.tasks, s.k.gCurrent = some c ∧ (s.TaskRuns → (s.k.tcb c).state ≠ .blocked)) ∧
    (∃ n ∈ s.k.tasks, s.k.gNext = some n ∧ (s.k.tcb n).state ≠ .blocked) ∧
    ∀ m, ((s.k.mutex m).owner = none → s.k.queue (.mutex m) = ⟨none, none⟩) ∧
      ∀ o, (s.k.mutex m).owner = some o → o ∈ s.k.tasks ∧
        ((s.k.tcb o).state = .blocked → (s.k.tcb o).waitQueue ≠ some (.mutex m)) := by
  obtain ⟨a, ha, hm⟩ := system_mutexOk h
  have hb := ha.blocked_iff
  have htasks : s.k.tasks = a.tasks := ha.sim.tasks
  have hmutex : s.k.mutex = a.mutex := ha.sim.mutex
  obtain ⟨n, hn, hn1, hn2⟩ := ha.inv.next
  obtain ⟨c, hct, hc⟩ := ha.inv.cur
  refine ⟨⟨_, _, ha.structured⟩, ⟨c, ?_, ha.sim.gCurrent.trans hc, fun hr => ?_⟩,
    ⟨n, ?_, ha.sim.gNext.trans hn1, ?_⟩, fun m => ⟨fun hfree => ?_, fun o ho => ⟨?_, fun hbl hq => ?_⟩⟩⟩
  · rwa [htasks]
  · rw [Ne, ← hb]
    exact ha.not_blocked hr.1 hr.2 hc
  · rwa [htasks]
  · rwa [Ne, ← hb]
  · rw [hmutex] at hfree
    have hrepr := ha.sim.repr (.mutex m)
    rw [hm.free m hfree] at hrepr
    calc s.k.queue (.mutex m)
        = ⟨(s.k.queue (.mutex m)).head, (s.k.queue (.mutex m)).tail⟩ := rfl
      _ = ⟨none, none⟩ := congrArg₂ Ends.mk hrepr.head hrepr.tail
  · rw [hmutex] at ho
    rw [htasks]
    exact ha.inv.owner m o ho
  · rw [hmutex] at ho
    obtain ⟨w, hw, -, hcount⟩ := (ha.structured.tasks o (by rw [htasks]; exact ha.inv.owner m o ho)).blocked hbl
    obtain rfl := Option.some.inj (hw.symm.trans hq)
    have hcnt := hcount (.mutex m)
    rw [if_pos rfl, List.count_eq_zero_of_not_mem (hm.apart m o ho)] at hcnt
    cases hcnt

/-- Two tasks are marked RUNNING, as in `one_running_fails`. -/
theorem preempted_structured_marks : ∃ tr s, System.Run (Boot.small [2, 1] 0 0 (by decide)) tr s ∧
    (s.TaskRuns ∧ (s.k.tcb 192).state = .running ∧ (s.k.tcb 128).state = .running) ∧
    ∃ l timeouts, Structured s.k l timeouts := by
  obtain ⟨tr, s, h, hx⟩ := Boot.playSystem_exists (Boot.small [2, 1] 0 0 (by decide)) 10
    ([.enter] ++ List.replicate 7 .access ++ [.svc (.delayTicks 1), .enter] ++
      List.replicate 8 .access ++ [.svc .yield, .enter] ++ List.replicate 3 .access ++ [.sysTick] ++
      List.replicate 4 .access ++ [.enter] ++ List.replicate 7 .access)
    (fun _ s => (s.sw = .off ∧ s.k.pendsv = false) ∧ (s.k.tcb 192).state = .running ∧
      (s.k.tcb 128).state = .running) (by decide +kernel)
  exact ⟨tr, s, h, hx, (preempted_structured h).1⟩

/-- `g_next` has been read, `g_current` has not been written. -/
def Switch.assigning : Switch → Bool
  | .writeCurrent _ _ => true
  | _ => false

/-- The last tick came in the middle of the assignment `g_current = g_next`. -/
def lateTick (tr : List (System × Act)) : Bool :=
  tr.foldl (fun late x => if x.2 = .sysTick then x.1.sw.assigning else late) false

theorem lateTick_snoc (x : System × Act) :
    lateTick (tr ++ [x]) = if x.2 = .sysTick then x.1.sw.assigning else lateTick tr := by
  simp [lateTick]

/-- The task chosen last is the one that runs, unless the choice was made too late. -/
def Chosen (tr : List (System × Act)) (a : Model) : Switch → Prop
  | .off => a.pendsv = false → lateTick tr = false → a.gNext = a.gCurrent
  | .writeCurrent _ n => lateTick tr = false → n = a.gNext
  | .readBack => a.pendsv = false → lateTick tr = false → a.gNext = a.gCurrent
  | .writeState _ => a.pendsv = false → lateTick tr = false → a.gNext = a.gCurrent
  | _ => True

theorem Model.sysTick_chosen (hp : a.sysTick.pendsv = false) : a.sysTick.gNext = a.sysTick.gCurrent := by
  unfold Model.sysTick at hp ⊢
  simp only at hp ⊢
  rw [Model.reschedule_gNext, Model.reschedule_gCurrent]
  exact (Model.reschedule_pendsv.1 hp).2

theorem Chosen.access {p : Switch} (h : Chosen tr a p) (hn : k.gNext = a.gNext) (hne : a.gNext ≠ none) :
    Chosen (tr ++ [(s, .access)]) (a.access p) (switchStep k p).2 := by
  have hlt : lateTick (tr ++ [(s, .access)]) = lateTick tr := by
    rw [lateTick_snoc]
    rfl
  cases p with
  | off =>
    intro hp hl
    rw [hlt] at hl
    exact h hp hl
  | readCurrent => trivial
  | testNull prev =>
    have : ¬ k.gNext = none := by rwa [hn]
    simp only [switchStep, if_neg this]
    trivial
  | testSame prev =>
    cases prev with
    | none => trivial
    | some t =>
      simp only [switchStep]
      split_ifs <;> trivial
  | testState t =>
    simp only [switchStep]
    split_ifs <;> trivial
  | demote t => trivial
  | readNext prev => exact fun _ => hn
  | writeCurrent prev n =>
    intro _ hl
    rw [hlt] at hl
    exact (h hl).symm
  | readBack =>
    intro hp hl
    rw [hlt] at hl
    exact h hp hl
  | writeState c =>
    intro hp hl
    rw [hlt] at hl
    exact h hp hl

theorem Chosen.tick {p : Switch} (h : Chosen tr a p) (hs : s.sw = p) :
    Chosen (tr ++ [(s, .sysTick)]) a.sysTick p := by
  have hlt : lateTick (tr ++ [(s, .sysTick)]) = s.sw.assigning := by
    rw [lateTick_snoc]
    rfl
  cases p with
  | off => exact fun hp _ => Model.sysTick_chosen hp
  | writeCurrent prev n =>
    intro hl
    rw [hlt, hs] at hl
    cases hl
  | readBack => exact fun hp _ => Model.sysTick_chosen hp
  | writeState c => exact fun hp _ => Model.sysTick_chosen hp
  | readCurrent => trivial
  | testNull prev => trivial
  | testSame prev => trivial
  | testState t => trivial
  | demote t => trivial
  | readNext prev => trivial

/-! Inheritance and the choice of the next task do not look at the marks. -/

/-- Nobody locks while it owns a mutex. -/
def NoNested (tr : List (System × Act)) : Prop :=
  ∀ x ∈ tr, ∀ m, x.2 = .svc (.mutexLock (some m)) → ∀ m', (x.1.k.mutex m').owner ≠ x.1.k.gCurrent

/-- Nothing that inheritance is about has changed. -/
structure SamePriorities (a a' : Model) : Prop where
  mutex : a'.mutex = a.mutex
  list : a'.list = a.list
  tasks : a'.tasks = a.tasks
  gNext : a'.gNext = a.gNext
  tcb : ∀ t, (a'.tcb t).priority = (a.tcb t).priority ∧
    (a'.tcb t).basePriority = (a.tcb t).basePriority ∧
    (a'.tcb t).ownedMutexes = (a.tcb t).ownedMutexes
  blocked : ∀ t, (a'.tcb t).state = .blocked ↔ (a.tcb t).state = .blocked

theorem SamePriorities.unmark (a : Model) : SamePriorities a a.unmark :=
  ⟨rfl, rfl, rfl, rfl, fun _ => ⟨rfl, rfl, rfl⟩, a.unmark_blocked⟩

theorem SamePriorities.mark (hb : (a.tcb cur).state ≠ .blocked) : SamePriorities a (a.mark cur) := by
  refine ⟨rfl, rfl, rfl, rfl, fun t => ⟨?_, ?_, ?_⟩, fun t => ?_⟩
  · exact Model.setTcb_keeps a t TcbData.priority rfl
  · exact Model.setTcb_keeps a t TcbData.basePriority rfl
  · exact Model.setTcb_keeps a t TcbData.ownedMutexes rfl
  · rw [Model.mark, Model.setTcb_tcb]
    split_ifs with ht
    · subst ht
      exact iff_of_false (by simp) hb
    · rfl

theorem SamePriorities.inherits (h : SamePriorities a a') (hi : Inherits a) : Inherits a' := by
  have hp := fun t => (h.tcb t).1
  have hbp := fun t => (h.tcb t).2.1
  have ho := fun t => (h.tcb t).2.2
  refine ⟨⟨?_, ?_⟩, ?_, ?_, ?_, ?_, ?_, ?_, ?_⟩
  · simpa only [h.mutex, h.list] using hi.ok.free
  · simpa only [h.mutex, h.list] using hi.ok.apart
  · simpa only [h.mutex] using hi.single
  · simpa only [h.mutex, h.list] using hi.waiter
  · simpa only [h.mutex, h.list, ho] using hi.owned
  · simpa only [h.mutex, h.list, h.tasks, ho] using hi.unowned
  · simpa only [h.list, hp] using hi.sorted
  · simpa only [h.mutex, h.list, hp] using hi.boosted
  · simpa only [h.mutex, h.list, h.tasks, hp, hbp] using hi.base

theorem SamePriorities.bestNext (h : SamePriorities a a') (hb : BestNext a) : BestNext a' :=
  hb.congr h.gNext h.tasks (fun u => (h.tcb u).1) fun u _ hs hf => hs ((h.blocked u).2 hf)

theorem SamePriorities.access (a : Model) (p : Switch) : SamePriorities a (a.access p) := by
  cases p <;> exact ⟨rfl, rfl, rfl, rfl, fun _ => ⟨rfl, rfl, rfl⟩, fun _ => Iff.rfl⟩

theorem Inherits.tick (h : Inherits a) (hi : Inv a.trigger) : Inherits a.sysTick := by
  obtain ⟨c, -, hc⟩ := hi.cur
  have ht : SamePriorities a a.trigger :=
    ⟨rfl, rfl, rfl, rfl, fun _ => ⟨rfl, rfl, rfl⟩, fun _ => Iff.rfl⟩
  have h' := (ht.inherits h).step hi hc (e := .sysTick) trivial .tick fun m hm => by cases hm
  rw [Model.trigger_sysTick] at h'
  have hback : SamePriorities a.sysTick.trigger a.sysTick :=
    ⟨rfl, rfl, rfl, rfl, fun _ => ⟨rfl, rfl, rfl⟩, fun _ => Iff.rfl⟩
  exact hback.inherits h'

theorem bestNext_tick (hi : Inv a.trigger) : BestNext a.sysTick := by
  have hw : WF a.sysTick := by
    have := hi.sysTick.wf
    rw [Model.trigger_sysTick] at this
    exact this.congr rfl (by simp) rfl rfl
  exact bestNext_reschedule hw

theorem system_inherits (h : System.Run b tr s) : ∃ a, Unmarked s a ∧
    (NoNested tr → Inherits a ∧ BestNext a) ∧ Chosen tr a s.sw := by
  refine system_induct (P := fun tr p a => (NoNested tr → Inherits a ∧ BestNext a) ∧ Chosen tr a p)
    ?_ ?_ ?_ ?_ ?_ h
  · intro a hst
    refine ⟨fun _ => ⟨?_, ?_⟩, fun hp => ?_⟩
    · exact (SamePriorities.unmark a).inherits hst.inherits
    · exact (SamePriorities.unmark a).bestNext (bestNext_of_firstReady hst.inv.wf hst.gNext)
    · cases hp.symm.trans hst.pendsv
  · intro tr s a a' cur c r ha hoff he hc hi ho hi' hP
    have hsame : SamePriorities a (a.mark cur) := .mark (ha.not_blocked hoff he.1 hc)
    have hen : (a.mark cur).Enabled (.svc c) := ha.enabled he
    refine ⟨fun hd => ?_, fun hp hl => ?_⟩
    · obtain ⟨h1, h2⟩ := hP.1 fun x hx => hd x (by simp [hx])
      have h1' := hsame.inherits h1
      refine ⟨(SamePriorities.unmark a').inherits (h1'.step hi hc hen ho fun m hm m' => ?_),
        (SamePriorities.unmark a').bestNext ((hsame.bestNext h2).step h1' hi hi' hc hen ho)⟩
      have hne := hd (s, .svc c) (by simp) m (by rw [Entry.svc.inj hm]) m'
      have hcur : s.k.gCurrent = some cur := ha.sim.gCurrent.trans hc
      have hmutex : s.k.mutex = a.mutex := ha.sim.mutex
      rw [hcur, hmutex] at hne
      exact hne
    · rw [lateTick_snoc] at hl
      have hch : (a.mark cur).pendsv = false → (a.mark cur).gNext = (a.mark cur).gCurrent :=
        fun hp => hP.2 hp hl
      have hfin : a'.gNext = a'.gCurrent := chosen_step hch hi hc ho hp
      exact hfin
  · intro tr s a ha hP
    refine ⟨fun hd => ⟨?_, bestNext_tick ha.inv⟩, hP.2.tick rfl⟩
    exact (hP.1 fun x hx => hd x (by simp [hx])).1.tick ha.inv
  · intro tr s a ha hP
    refine ⟨fun hd => ?_, trivial⟩
    obtain ⟨h1, h2⟩ := hP.1 fun x hx => hd x (by simp [hx])
    have hsame : SamePriorities a { a with pendsv := false } :=
      ⟨rfl, rfl, rfl, rfl, fun _ => ⟨rfl, rfl, rfl⟩, fun _ => Iff.rfl⟩
    exact ⟨hsame.inherits h1, hsame.bestNext h2⟩
  · intro tr s a ha hon hP
    refine ⟨fun hd => ?_, hP.2.access ha.sim.gNext ?_⟩
    · obtain ⟨h1, h2⟩ := hP.1 fun x hx => hd x (by simp [hx])
      have hsame := SamePriorities.access a s.sw
      exact ⟨hsame.inherits h1, hsame.bestNext h2⟩
    · obtain ⟨n, -, hn, -⟩ := ha.inv.next
      intro hf
      cases hn.symm.trans hf

/-- Fixed priorities and bounded inversion with a switch that can be preempted: while task code
executes, no task that can run is more urgent than the current one, and no waiter is more urgent
whose owner can run. The exception ends with the next tick: a tick in the middle of the assignment
`g_current = g_next` compares its choice with the task that is just being replaced. -/
theorem preempted_inversion (h : System.Run b tr s) (hd : NoNested tr) (hr : s.TaskRuns)
    (hl : lateTick tr = false) : ∃ c, s.k.gCurrent = some c ∧ s.k.gNext = some c ∧
      (s.k.tcb c).state ≠ .blocked ∧
      (∀ t ∈ s.k.tasks, (s.k.tcb t).state ≠ .blocked → (s.k.tcb c).priority ≤ (s.k.tcb t).priority) ∧
      ∀ w ∈ s.k.tasks, (s.k.tcb w).state = .blocked → ∀ m, (s.k.tcb w).waitQueue = some (.mutex m) →
        ∀ o, (s.k.mutex m).owner = some o → (s.k.tcb o).state ≠ .blocked →
          (s.k.tcb c).priority ≤ (s.k.tcb w).priority := by
  obtain ⟨a, ha, hP, hch⟩ := system_inherits h
  obtain ⟨hh, hbest⟩ := hP hd
  have hb := ha.blocked_iff
  have htasks : s.k.tasks = a.tasks := ha.sim.tasks
  have hmutex : s.k.mutex = a.mutex := ha.sim.mutex
  have hpri : ∀ t, (s.k.tcb t).priority = (a.tcb t).priority := fun t => ha.sim.priority t
  have hwq : ∀ t, (s.k.tcb t).waitQueue = (a.tcb t).waitQueue := by
    intro t
    rw [← ha.sim.data t]
    rfl
  have hw : WF a := ha.inv.wf.congr rfl (by simp) rfl rfl
  obtain ⟨c, -, hc⟩ := ha.inv.cur
  rw [hr.1] at hch
  have hnext : a.gNext = some c := (hch (ha.sim.pendsv.symm.trans hr.2) hl).trans hc
  have hle := hbest c hnext
  refine ⟨c, ha.sim.gCurrent.trans hc, ha.sim.gNext.trans hnext, ?_, fun t ht hst => ?_,
    fun w hwt hbl m hq o ho hob => ?_⟩
  · rw [Ne, ← hb]
    exact ha.not_blocked hr.1 hr.2 hc
  · rw [htasks] at ht
    rw [Ne, ← hb] at hst
    rw [hpri, hpri]
    exact hle t ht hst
  · rw [htasks] at hwt
    rw [← hb] at hbl
    rw [Ne, ← hb] at hob
    rw [hwq] at hq
    rw [hmutex] at ho
    have hmem : w ∈ a.list (.mutex m) := hw.home_mem hwt (by simp [Model.home, hbl, hq])
    rw [hpri, hpri]
    calc (a.tcb c).priority ≤ (a.tcb o).priority := hle o (ha.inv.owner m o ho) hob
      _ ≤ (a.tcb w).priority := hh.boosted m o ho w hmem

/-- The tick that wakes task 192 comes just before `g_next` is read. -/
theorem preempted_inversion_early : ∃ tr s, System.Run (Boot.small [0, 1] 0 0 (by decide)) tr s ∧
    (NoNested tr ∧ s.TaskRuns ∧ lateTick tr = false ∧ s.k.gCurrent = some 192) ∧
    ∃ c, s.k.gCurrent = some c ∧ s.k.gNext = some c := by
  obtain ⟨tr, s, h, hno, hr, hl, hcur⟩ := Boot.playSystem_exists (Boot.small [0, 1] 0 0 (by decide)) 10
    ([.enter] ++ List.replicate 7 .access ++ [.svc (.delayTicks 1), .enter] ++
      List.replicate 4 .access ++ [.sysTick] ++ List.replicate 4 .access)
    (fun tr s => (∀ x ∈ tr, x.2 ∈ [.enter, .access, .sysTick, .svc (.delayTicks 1)]) ∧
      (s.sw = .off ∧ s.k.pendsv = false) ∧ lateTick tr = false ∧ s.k.gCurrent = some 192) (by decide +kernel)
  have hd : NoNested tr := by
    intro x hx m hm
    have := hno x hx
    rw [hm] at this
    simp at this
  obtain ⟨c, h1, h2, -⟩ := preempted_inversion h hd hr hl
  exact ⟨tr, s, h, ⟨hd, hr, hl, hcur⟩, c, h1, h2⟩

/-- The same tick one access later: task 192 is woken while it is still `g_current`, so no switch is
asked for, and the less urgent task 128 runs. -/
theorem late_tick_inverts : ∃ tr s, System.Run (Boot.small [0, 1] 0 0 (by decide)) tr s ∧
    s.TaskRuns ∧ lateTick tr = true ∧ s.k.gCurrent = some 128 ∧ s.k.gNext = some 192 ∧
    (s.k.tcb 192).state = .ready ∧ (s.k.tcb 192).priority < (s.k.tcb 128).priority := by
  obtain ⟨tr, s, h, hr, hx⟩ := Boot.playSystem_exists (Boot.small [0, 1] 0 0 (by decide)) 10
    ([.enter] ++ List.replicate 7 .access ++ [.svc (.delayTicks 1), .enter] ++
      List.replicate 5 .access ++ [.sysTick] ++ List.replicate 3 .access)
    (fun tr s => (s.sw = .off ∧ s.k.pendsv = false) ∧ lateTick tr = true ∧
      s.k.gCurrent = some 128 ∧ s.k.gNext = some 192 ∧
      (s.k.tcb 192).state = .ready ∧ (s.k.tcb 192).priority < (s.k.tcb 128).priority)
    (by decide +kernel)
  exact ⟨tr, s, h, hr, hx⟩

end Rtos

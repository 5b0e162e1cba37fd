import Rtos.Refine.Boot

/-! The kernel and its specification, run against each other. The specification has lists for
queues and no links; from the same boot the two make the same entries with the same results, and
hang on the same ones. -/

namespace Rtos

open Lib

open Model (WF Inv Outcome)

variable {b : Boot} {os : List Obs} {es : List (Entry × ℤ)} {k : Kernel} {a : Model}

def Boot.modelStart (b : Boot) : Option Model :=
  let a := ((some b.idleArgs :: b.creates).foldl (fun a args => (a.taskCreate args).2) b.model).schedule
  if a.gNext = none then none else some { a with gCurrent := a.gNext, pendsv := true }

/-- A run of the specification, with what can be seen of it: the entries and their results. -/
inductive ModelRun (b : Boot) : List (Entry × ℤ) → Model → Prop
  | boot {a : Model} : b.modelStart = some a → ModelRun b [] a
  | snoc {es : List (Entry × ℤ)} {a a' : Model} {e : Entry} {r : ℤ} : ModelRun b es a →
      a.Enabled e → (a.exec e).Returns (r, a') → ModelRun b (es ++ [(e, r)]) a'

def Obs.seen (o : Obs) : Entry × ℤ := (o.entry, o.ret)

theorem creates_sim (l : List (Option TaskCreateArgs)) (hs : Sim k a) (h : Booting b a) :
    Sim (l.foldl (fun k args => (osKernelTaskCreate args k).2) k)
      (l.foldl (fun a args => (a.taskCreate args).2) a) := by
  induction l generalizing k a with
  | nil => exact hs
  | cons args l ih =>
    refine ih (hs.taskCreate h.wf h.pool args).2 ?_
    rcases Model.taskCreate_cases h.pool args with ⟨-, hf⟩ | ⟨-, t, hf⟩
    · exact h.createFailed hf
    · exact h.created hf

theorem modelStart_sim (b : Boot) : (b.start = none ∧ b.modelStart = none) ∨
    ∃ k a, b.start = some k ∧ b.modelStart = some a ∧ Sim k a := by
  have hs := (creates_sim (some b.idleArgs :: b.creates) b.model_sim b.model_booting).schedule
  unfold Boot.start osStart Boot.modelStart
  by_cases hn : (osSchedule b.created).gNext = none
  · have hn' := hs.gNext.symm.trans hn
    refine .inl ⟨?_, ?_⟩
    · simp only [hn, if_true]
    · simp only [hn', if_true]
  · refine .inr ⟨_, _, if_neg hn, if_neg fun hx => hn (hs.gNext.trans hx), ?_⟩
    exact (hs.mapGlobals fun g => { g with gCurrent := g.gNext }).trigger

/-- A state of the kernel stands for one state of the specification. -/
theorem Sim.unique {a₁ a₂ : Model} (h₁ : Sim k a₁) (h₂ : Sim k a₂) : a₁ = a₂ := by
  obtain ⟨g₁, tcb₁, list₁, timeouts₁⟩ := a₁
  obtain ⟨g₂, tcb₂, list₂, timeouts₂⟩ := a₂
  obtain rfl : g₁ = g₂ := h₁.globals.symm.trans h₂.globals
  obtain rfl : tcb₁ = tcb₂ := funext fun t => (h₁.data t).symm.trans (h₂.data t)
  obtain rfl : list₁ = list₂ := funext fun q => (h₁.repr q).unique (h₂.repr q)
  obtain rfl : timeouts₁ = timeouts₂ := h₁.timeouts.unique h₂.timeouts
  rfl

theorem start_model (h : b.start = some k) : ∃ a, b.modelStart = some a ∧ Sim k a ∧ Inv a := by
  obtain ⟨a₁, hs₁, hst⟩ := start_sim h
  rcases modelStart_sim b with ⟨hn, -⟩ | ⟨k', a, hk, ha, hs⟩
  · cases h.symm.trans hn
  · obtain rfl := Option.some.inj (h.symm.trans hk)
    obtain rfl := hs₁.unique hs
    exact ⟨a₁, ha, hs, hst.inv⟩

theorem seen_snoc (o : Obs) : (os ++ [o]).map Obs.seen = os.map Obs.seen ++ [(o.entry, o.ret)] := by
  simp [Obs.seen]

/-- Every run of the kernel is one of the specification. -/
theorem run_model (h : Run b os k) : ∃ a, ModelRun b (os.map Obs.seen) a ∧ Sim k a ∧ Inv a := by
  induction h with
  | boot h =>
    obtain ⟨a, ha, hs, hi⟩ := start_model h
    exact ⟨a, .boot ha, hs, hi⟩
  | @snoc os k k' e r _ he hr ih =>
    obtain ⟨a, hm, hs, hi⟩ := ih
    have he' : a.Enabled e := hs.globals ▸ he
    obtain ⟨⟨r', a'⟩, ha', hr', hs'⟩ := (exec_refines hs hi he').returns hr
    obtain rfl : r = r' := hr'
    obtain ⟨cur, -, hc⟩ := hi.cur
    refine ⟨a', ?_, hs', hi.outcome hc he' (Model.exec_outcome hi hc ha')⟩
    rw [seen_snoc]
    exact hm.snoc he' ha'

theorem model_run (h : ModelRun b es a) :
    ∃ os k, Run b os k ∧ os.map Obs.seen = es ∧ Sim k a ∧ Inv a := by
  induction h with
  | boot h =>
    rcases modelStart_sim b with ⟨-, hn⟩ | ⟨k, a', hk, ha, hs⟩
    · cases h.symm.trans hn
    · obtain rfl := Option.some.inj (h.symm.trans ha)
      obtain ⟨a₁, -, hs₁, hi⟩ := start_model hk
      obtain rfl := hs₁.unique hs
      exact ⟨[], k, .boot hk, rfl, hs, hi⟩
  | @snoc es a a' e r _ he hr ih =>
    obtain ⟨os, k, hrun, hseen, hs, hi⟩ := ih
    have he' : k.Enabled e := by
      rw [hs.globals]
      exact he
    obtain ⟨⟨r', k'⟩, hk', hr', hs'⟩ := (exec_refines hs hi he).1 _ hr
    obtain rfl : r' = r := hr'
    obtain ⟨cur, -, hc⟩ := hi.cur
    refine ⟨_, k', hrun.snoc he' hk', ?_, hs', hi.outcome hc he (Model.exec_outcome hi hc hr)⟩
    rw [seen_snoc, hseen]

/-- The linked kernel and the specification with lists have the same runs: each entry of one can
be made by the other with the same result, to a state that stands for the other's, and an entry
of the one comes to an end exactly if it does in the other. -/
theorem traces_agree (b : Boot) :
    (∀ os k, Run b os k → ∃ a, ModelRun b (os.map Obs.seen) a ∧ Sim k a) ∧
    (∀ es a, ModelRun b es a → ∃ os k, Run b os k ∧ os.map Obs.seen = es ∧ Sim k a) ∧
    ∀ os k a, Run b os k → Sim k a → ∀ e, k.Enabled e → ((exec k e).Halts ↔ (a.exec e).Halts) := by
  refine ⟨fun os k h => ?_, fun es a h => ?_, fun os k a h hs e he => ?_⟩
  · obtain ⟨a, hm, hs, -⟩ := run_model h
    exact ⟨a, hm, hs⟩
  · obtain ⟨os, k, hr, hseen, hs, -⟩ := model_run h
    exact ⟨os, k, hr, hseen, hs⟩
  · obtain ⟨a', hs', hi⟩ := run_sim h
    obtain rfl := hs'.unique hs
    exact (exec_refines hs hi (hs.globals ▸ he)).halts_iff

end Rtos

import Mathlib.Tactic

/-! Loops over shared pointers may not end, so a looping function is a
computation indexed by a step budget. The budget is only a resource: more of it
never changes a result, and that is a field of the type. -/

namespace Lib

universe u

structure Comp (α : Type u) where
  run : ℕ → Option α
  mono : ∀ n x, run n = some x → run (n + 1) = some x

namespace Comp

variable {α β γ δ σ ρ : Type u}

/-- The computation ends, with this value. -/
def Returns (c : Comp α) (x : α) : Prop := ∃ n, c.run n = some x

def Halts (c : Comp α) : Prop := ∃ x, c.Returns x

theorem mono_le (c : Comp α) {n m : ℕ} {x : α} (hnm : n ≤ m) (h : c.run n = some x) :
    c.run m = some x := by
  induction hnm with
  | refl => exact h
  | step _ ih => exact c.mono _ _ ih

theorem Returns.unique {c : Comp α} {x y : α} (hx : c.Returns x) (hy : c.Returns y) : x = y := by
  obtain ⟨n, hn⟩ := hx
  obtain ⟨m, hm⟩ := hy
  have h1 := c.mono_le (le_max_left n m) hn
  have h2 := c.mono_le (le_max_right n m) hm
  exact Option.some.inj (h1.symm.trans h2)

theorem Returns.halts {c : Comp α} {x : α} (h : c.Returns x) : c.Halts := ⟨x, h⟩

protected def pure (x : α) : Comp α := ⟨fun _ => some x, fun _ _ h => h⟩

protected def bind (c : Comp α) (f : α → Comp β) : Comp β where
  run n := (c.run n).bind fun x => (f x).run n
  mono n y h := by
    obtain ⟨x, hx, hy⟩ := Option.bind_eq_some_iff.1 h
    exact Option.bind_eq_some_iff.2 ⟨x, c.mono n x hx, (f x).mono n y hy⟩

instance : Monad Comp where
  pure := Comp.pure
  bind := Comp.bind

/-- No value where the argument has none: the source dereferences a null
pointer there, and nothing is promised about what follows. -/
def ofOption (o : Option α) : Comp α := ⟨fun _ => o, fun _ _ h => h⟩

@[simp] theorem returns_pure {x y : α} : (pure x : Comp α).Returns y ↔ x = y :=
  ⟨fun ⟨_, h⟩ => Option.some.inj h, fun h => ⟨0, congrArg some h⟩⟩

@[simp] theorem returns_ofOption {o : Option α} {x : α} : (ofOption o).Returns x ↔ o = some x :=
  ⟨fun ⟨_, h⟩ => h, fun h => ⟨0, h⟩⟩

@[simp] theorem returns_bind {c : Comp α} {f : α → Comp β} {y : β} :
    (c >>= f).Returns y ↔ ∃ x, c.Returns x ∧ (f x).Returns y := by
  constructor
  · rintro ⟨n, h⟩
    obtain ⟨x, hx, hy⟩ := Option.bind_eq_some_iff.1 h
    exact ⟨x, ⟨n, hx⟩, ⟨n, hy⟩⟩
  · rintro ⟨x, ⟨n, hn⟩, ⟨m, hm⟩⟩
    refine ⟨max n m, Option.bind_eq_some_iff.2 ⟨x, ?_, ?_⟩⟩
    · exact c.mono_le (le_max_left n m) hn
    · exact (f x).mono_le (le_max_right n m) hm

/-! A loop: `step` either goes on with a new loop state or leaves with a result. -/

def loopRun (step : σ → Comp (σ ⊕ ρ)) : ℕ → σ → Option ρ
  | 0, _ => none
  | n + 1, s => ((step s).run n).bind fun o =>
      match o with
      | .inl s' => loopRun step n s'
      | .inr r => some r

theorem loopRun_mono (step : σ → Comp (σ ⊕ ρ)) (n : ℕ) (s : σ) (r : ρ)
    (h : loopRun step n s = some r) : loopRun step (n + 1) s = some r := by
  induction n generalizing s with
  | zero => cases h
  | succ n ih =>
    obtain ⟨o, ho, hr⟩ := Option.bind_eq_some_iff.1 h
    refine Option.bind_eq_some_iff.2 ⟨o, (step s).mono n o ho, ?_⟩
    cases o with
    | inl s' => exact ih s' hr
    | inr r' => exact hr

def loop (step : σ → Comp (σ ⊕ ρ)) (s : σ) : Comp ρ :=
  ⟨fun n => loopRun step n s, fun n r h => loopRun_mono step n s r h⟩

theorem returns_loop {step : σ → Comp (σ ⊕ ρ)} {s : σ} {r : ρ} :
    (loop step s).Returns r ↔
      (step s).Returns (.inr r) ∨ ∃ s', (step s).Returns (.inl s') ∧ (loop step s').Returns r := by
  constructor
  · rintro ⟨n, h⟩
    cases n with
    | zero => cases h
    | succ n =>
      obtain ⟨o, ho, hr⟩ := Option.bind_eq_some_iff.1 h
      cases o with
      | inl s' => exact .inr ⟨s', ⟨n, ho⟩, ⟨n, hr⟩⟩
      | inr r' => exact .inl ⟨n, by rw [ho, Option.some.inj hr]⟩
  · rintro (⟨n, hn⟩ | ⟨s', ⟨n, hn⟩, ⟨m, hm⟩⟩)
    · exact ⟨n + 1, Option.bind_eq_some_iff.2 ⟨.inr r, hn, rfl⟩⟩
    · refine ⟨max n m + 1, Option.bind_eq_some_iff.2 ⟨.inl s', ?_, ?_⟩⟩
      · exact (step s).mono_le (le_max_left n m) hn
      · exact (loop step s').mono_le (le_max_right n m) hm

/-- Induction over the rounds of a loop that ended. -/
theorem loop_induction {step : σ → Comp (σ ⊕ ρ)} {P : σ → ρ → Prop}
    (done : ∀ s r, (step s).Returns (.inr r) → P s r)
    (next : ∀ s s' r, (step s).Returns (.inl s') → P s' r → P s r)
    {s : σ} {r : ρ} (h : (loop step s).Returns r) : P s r := by
  obtain ⟨n, h⟩ := h
  induction n generalizing s with
  | zero => cases h
  | succ n ih =>
    obtain ⟨o, ho, hr⟩ := Option.bind_eq_some_iff.1 h
    cases o with
    | inl s' => exact next s s' r ⟨n, ho⟩ (ih hr)
    | inr r' =>
      obtain rfl := Option.some.inj hr
      exact done s r' ⟨n, ho⟩

/-- The loop states of a loop that ends, from its first round to its last. -/
inductive Rounds (step : σ → Comp (σ ⊕ ρ)) : σ → List σ → ρ → Prop
  | done {s : σ} {r : ρ} : (step s).Returns (.inr r) → Rounds step s [s] r
  | next {s s' : σ} {l : List σ} {r : ρ} : (step s).Returns (.inl s') → Rounds step s' l r →
      Rounds step s (s :: l) r

theorem Rounds.returns {step : σ → Comp (σ ⊕ ρ)} {s : σ} {l : List σ} {r : ρ}
    (h : Rounds step s l r) : (loop step s).Returns r := by
  induction h with
  | done h => exact returns_loop.2 (.inl h)
  | next h _ ih => exact returns_loop.2 (.inr ⟨_, h, ih⟩)

/-- A loop that can always go on inside `I` never ends. -/
theorem not_halts_loop {step : σ → Comp (σ ⊕ ρ)} (I : σ → Prop)
    (stay : ∀ s, I s → ∃ s', (step s).Returns (.inl s') ∧ I s') {s : σ} (hs : I s) :
    ¬ (loop step s).Halts := by
  rintro ⟨r, hr⟩
  refine loop_induction (P := fun s _ => ¬ I s) ?_ ?_ hr hs
  · intro s r h hI
    obtain ⟨s', hs', -⟩ := stay s hI
    cases h.unique hs'
  · intro s s' r h ih hI
    obtain ⟨s'', hs'', hI'⟩ := stay s hI
    cases h.unique hs''
    exact ih hI'

/-! Refinement between a computation and a more abstract one: the two end on
the same inputs, with related results. -/

def Refines (R : α → β → Prop) (c : Comp α) (d : Comp β) : Prop :=
  (∀ y, d.Returns y → ∃ x, c.Returns x ∧ R x y) ∧ (c.Halts → d.Halts)

theorem Refines.of_returns {R : α → β → Prop} {c : Comp α} {d : Comp β} {x : α} {y : β}
    (hc : c.Returns x) (hd : d.Returns y) (h : R x y) : Refines R c d := by
  refine ⟨fun z hz => ⟨x, hc, ?_⟩, fun _ => hd.halts⟩
  exact hd.unique hz ▸ h

theorem Refines.pure {R : α → β → Prop} {x : α} {y : β} (h : R x y) :
    Refines R (pure x) (pure y) :=
  .of_returns (by simp) (by simp) h

theorem Refines.bind {R : α → β → Prop} {S : γ → δ → Prop} {c : Comp α} {d : Comp β}
    {f : α → Comp γ} {g : β → Comp δ} (h : Refines R c d)
    (hfg : ∀ x y, R x y → Refines S (f x) (g y)) : Refines S (c >>= f) (d >>= g) := by
  constructor
  · intro z hz
    obtain ⟨y, hy, hz⟩ := returns_bind.1 hz
    obtain ⟨x, hx, hxy⟩ := h.1 y hy
    obtain ⟨w, hw, hwz⟩ := (hfg x y hxy).1 z hz
    exact ⟨w, returns_bind.2 ⟨x, hx, hw⟩, hwz⟩
  · rintro ⟨w, hw⟩
    obtain ⟨x, hx, hw⟩ := returns_bind.1 hw
    obtain ⟨y, hy⟩ := h.2 ⟨x, hx⟩
    obtain ⟨x', hx', hxy⟩ := h.1 y hy
    obtain rfl := hx.unique hx'
    obtain ⟨z, hz⟩ := (hfg x y hxy).2 ⟨w, hw⟩
    exact ⟨z, returns_bind.2 ⟨y, hy, hz⟩⟩

theorem Refines.refl (c : Comp α) : Refines (· = ·) c c :=
  ⟨fun y hy => ⟨y, hy, rfl⟩, id⟩

/-- What is known of the abstract result may be used in what follows. -/
theorem Refines.and_right {R : α → β → Prop} {P : β → Prop} {c : Comp α} {d : Comp β}
    (h : Refines R c d) (hP : ∀ y, d.Returns y → P y) : Refines (fun x y => R x y ∧ P y) c d := by
  refine ⟨fun y hy => ?_, h.2⟩
  obtain ⟨x, hx, hR⟩ := h.1 y hy
  exact ⟨x, hx, hR, hP y hy⟩

/-- What ended below ended above, with a related result. -/
theorem Refines.returns {R : α → β → Prop} {c : Comp α} {d : Comp β} (h : Refines R c d)
    {x : α} (hx : c.Returns x) : ∃ y, d.Returns y ∧ R x y := by
  obtain ⟨y, hy⟩ := h.2 hx.halts
  obtain ⟨x', hx', hR⟩ := h.1 y hy
  obtain rfl := hx.unique hx'
  exact ⟨y, hy, hR⟩

theorem Refines.halts_iff {R : α → β → Prop} {c : Comp α} {d : Comp β} (h : Refines R c d) :
    c.Halts ↔ d.Halts :=
  ⟨h.2, fun ⟨y, hy⟩ => (h.1 y hy).elim fun _ hx => hx.1.halts⟩

end Comp
end Lib

import Rtos.Lib.Comp

/-! Computations under a map of their values. A map that commutes with every round of a loop
commutes with the loop, whether or not it ends. -/

namespace Lib

/-- Two choices that agree, with branches that a map relates. -/
theorem ite_hom {α β : Type*} {p q : Prop} [Decidable p] [Decidable q] {f : α → β} {x y : β} {x' y' : α}
    (h : p ↔ q) (hx : x = f x') (hy : y = f y') : (if p then x else y) = f (if q then x' else y') :=
  (if_congr h hx hy).trans (apply_ite f q x' y').symm

namespace Comp

universe u

variable {α β γ σ σ' ρ ρ' : Type u}

@[ext] theorem ext {c d : Comp α} (h : ∀ n, c.run n = d.run n) : c = d := by
  cases c
  cases d
  congr
  exact funext h

def map (f : α → β) (c : Comp α) : Comp β where
  run n := (c.run n).map f
  mono n y h := by
    obtain ⟨x, hx, hy⟩ := Option.map_eq_some_iff.1 h
    exact Option.map_eq_some_iff.2 ⟨x, c.mono n x hx, hy⟩

variable (f : α → β) (c : Comp α)

theorem returns_map {y : β} : (c.map f).Returns y ↔ ∃ x, c.Returns x ∧ f x = y := by
  constructor
  · rintro ⟨n, h⟩
    obtain ⟨x, hx, hy⟩ := Option.map_eq_some_iff.1 h
    exact ⟨x, ⟨n, hx⟩, hy⟩
  · rintro ⟨x, ⟨n, hn⟩, hy⟩
    exact ⟨n, Option.map_eq_some_iff.2 ⟨x, hn, hy⟩⟩

@[simp] theorem map_pure (x : α) : (pure x : Comp α).map f = pure (f x) := rfl

@[simp] theorem map_ofOption (o : Option α) : (ofOption o).map f = ofOption (o.map f) := rfl

@[simp] theorem map_bind (g : γ → Comp α) (d : Comp γ) :
    (d >>= g).map f = d >>= fun x => (g x).map f := by
  ext1 n
  exact Option.map_bind

@[simp] theorem bind_map (g : β → Comp γ) : c.map f >>= g = c >>= fun x => g (f x) := by
  ext1 n
  exact Option.bind_map

variable {f c} in
theorem loop_map {step : σ → Comp (σ ⊕ ρ)} {step' : σ' → Comp (σ' ⊕ ρ')} {h : σ → σ'} {g : ρ → ρ'}
    (hstep : ∀ s, step' (h s) = (step s).map (Sum.map h g)) (s : σ) :
    loop step' (h s) = (loop step s).map g := by
  ext1 n
  show loopRun step' n (h s) = (loopRun step n s).map g
  induction n generalizing s with
  | zero => rfl
  | succ n ih =>
    have hrun : (step' (h s)).run n = ((step s).run n).map (Sum.map h g) := by
      rw [hstep]
      rfl
    simp only [loopRun, hrun]
    cases (step s).run n with
    | none => rfl
    | some o =>
      cases o with
      | inl s' => exact ih s'
      | inr r => rfl

end Comp
end Lib

import Mathlib.Tactic
import Mathlib.Data.Fintype.Card

/-! Who waits for whom over things that have at most one owner each. If all waiting goes up a
ranking of the things, then nobody waits for himself, however long the way round. -/

namespace Lib

open Relation

section

variable {α : Type} {R : α → α → Prop} {s : Set α}

/-- From every point of a relation without cycles that leads into a finite set, some path comes
to an end. -/
theorem exists_end (hs : s.Finite) (hR : ∀ x y, R x y → y ∈ s) (hacyc : ∀ x, ¬ TransGen R x x)
    (x : α) : ∃ y, ReflTransGen R x y ∧ ∀ z, ¬ R y z := by
  have : Finite s := hs
  let below : s → s → Prop := fun y x => TransGen R x.1 y.1
  have : IsTrans s below := ⟨fun _ _ _ h₁ h₂ => h₂.trans h₁⟩
  have : Std.Irrefl below := ⟨fun x => hacyc x.1⟩
  have hwf : WellFounded below := Finite.wellFounded_of_trans_of_irrefl below
  have hin : ∀ y : s, ∃ z, ReflTransGen R y.1 z ∧ ∀ w, ¬ R z w := by
    intro y
    induction y using hwf.induction with
    | _ y ih =>
      by_cases hy : ∃ z, R y.1 z
      · obtain ⟨z, hz⟩ := hy
        obtain ⟨w, hw, hend⟩ := ih ⟨z, hR _ _ hz⟩ (.single hz)
        exact ⟨w, hw.head hz, hend⟩
      · exact ⟨y.1, .refl, fun z hz => hy ⟨z, hz⟩⟩
  by_cases hx : ∃ z, R x z
  · obtain ⟨z, hz⟩ := hx
    obtain ⟨w, hw, hend⟩ := hin ⟨z, hR _ _ hz⟩
    exact ⟨w, hw.head hz, hend⟩
  · exact ⟨x, .refl, fun z hz => hx ⟨z, hz⟩⟩

end

variable {τ μ ρ : Type} [Preorder ρ] {owner owner' : μ → Option τ} {waits waits' : τ → μ → Prop}
  {rank : μ → ρ} {t u : τ} {m : μ}

def WaitFor (owner : μ → Option τ) (waits : τ → μ → Prop) (t u : τ) : Prop :=
  ∃ m, waits t m ∧ owner m = some u

/-- Whoever waits, waits for something above everything he owns. -/
def Ranked (rank : μ → ρ) (owner : μ → Option τ) (waits : τ → μ → Prop) : Prop :=
  ∀ t m m', waits t m → owner m' = some t → rank m' < rank m

namespace Ranked

theorem step (h : Ranked rank owner waits)
    (hown : ∀ m t, owner' m = some t → owner m = some t ∨ ∀ m', ¬ waits' t m')
    (hwait : ∀ t m, waits' t m → waits t m ∨ ∀ m', owner m' = some t → rank m' < rank m) :
    Ranked rank owner' waits' := by
  intro t m m' hw ho
  rcases hown m' t ho with ho | hno
  · rcases hwait t m hw with hw | hlt
    · exact h t m m' hw ho
    · exact hlt m' ho
  · exact absurd hw (hno m)

theorem rank_lt (h : Ranked rank owner waits) (hp : TransGen (WaitFor owner waits) t u)
    {m' : μ} (hu : waits u m') : ∃ m, waits t m ∧ rank m < rank m' := by
  induction hp using TransGen.head_induction_on with
  | single hs =>
    obtain ⟨m, hw, ho⟩ := hs
    exact ⟨m, hw, h _ _ _ hu ho⟩
  | head hs _ ih =>
    obtain ⟨m, hw, ho⟩ := hs
    obtain ⟨m₁, hw₁, hlt⟩ := ih
    exact ⟨m, hw, (h _ _ _ hw₁ ho).trans hlt⟩

/-- With one thing waited for at a time, nobody waits for himself. -/
theorem acyclic (h : Ranked rank owner waits) (hone : ∀ t m m', waits t m → waits t m' → m = m')
    (t : τ) : ¬ TransGen (WaitFor owner waits) t t := by
  intro hp
  obtain ⟨m, hw⟩ : ∃ m, waits t m := by
    obtain ⟨u, ⟨m, hw, -⟩, -⟩ := TransGen.head'_iff.1 hp
    exact ⟨m, hw⟩
  obtain ⟨m', hw', hlt⟩ := h.rank_lt hp hw
  obtain rfl := hone t m m' hw hw'
  exact lt_irrefl _ hlt

end Ranked
end Lib

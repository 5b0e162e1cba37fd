import Mathlib.Tactic

/-! Singly linked lists over a shared next pointer. A pointer from which the walk
ends spells out exactly one list, and that list has no repetition. -/

namespace Lib

universe u

variable {α : Type u} {next next' : α → Option α} {p : Option α} {l l' : List α} {x : α}

/-- Following `next` from `p` visits `l` and then ends. -/
def Chain (next : α → Option α) : Option α → List α → Prop
  | p, [] => p = none
  | p, x :: l => p = some x ∧ Chain next (next x) l

namespace Chain

theorem nil : Chain next none [] := rfl

theorem unique (h : Chain next p l) (h' : Chain next p l') : l = l' := by
  induction l generalizing p l' with
  | nil =>
    cases l' with
    | nil => rfl
    | cons y l' => cases h.symm.trans h'.1
  | cons x l ih =>
    cases l' with
    | nil => cases h.1.symm.trans h'
    | cons y l' =>
      obtain rfl := Option.some.inj (h.1.symm.trans h'.1)
      rw [ih h.2 h'.2]

theorem congr (h : Chain next p l) (hn : ∀ x ∈ l, next' x = next x) : Chain next' p l := by
  induction l generalizing p with
  | nil => exact h
  | cons x l ih =>
    refine ⟨h.1, ?_⟩
    rw [hn x (by simp)]
    exact ih h.2 fun y hy => hn y (by simp [hy])

theorem drop {l₁ l₂ : List α} (h : Chain next p (l₁ ++ x :: l₂)) :
    Chain next (some x) (x :: l₂) := by
  induction l₁ generalizing p with
  | nil => exact ⟨rfl, h.2⟩
  | cons y l₁ ih => exact ih h.2

theorem nodup (h : Chain next p l) : l.Nodup := by
  induction l generalizing p with
  | nil => exact List.nodup_nil
  | cons x l ih =>
    refine List.nodup_cons.2 ⟨fun hx => ?_, ih h.2⟩
    obtain ⟨l₁, l₂, rfl⟩ := List.append_of_mem hx
    -- the walk from `x` would have two lengths
    have h1 : Chain next (some x) (x :: l₂) := drop (show Chain next p ((x :: l₁) ++ x :: l₂) from h)
    have h2 : Chain next (some x) (x :: (l₁ ++ x :: l₂)) := ⟨rfl, h.2⟩
    have := congrArg List.length (h1.unique h2)
    simp at this
    omega

theorem update [DecidableEq α] (h : Chain next p l) (hx : x ∉ l) (w : Option α) :
    Chain (Function.update next x w) p l := by
  refine h.congr fun y hy => Function.update_of_ne ?_ _ _
  rintro rfl
  exact hx hy

theorem push [DecidableEq α] (h : Chain next p l) (hx : x ∉ l) :
    Chain (Function.update next x p) (some x) (x :: l) := by
  refine ⟨rfl, ?_⟩
  rw [Function.update_self]
  exact h.update hx p

theorem pop [DecidableEq α] (h : Chain next p (x :: l)) :
    Chain (Function.update next x none) (next x) l :=
  h.2.update (List.nodup_cons.1 h.nodup).1 none

/-- A node taken out from behind `y`. -/
theorem unlink [DecidableEq α] {l₁ l₂ : List α} {y : α} (h : Chain next p (l₁ ++ x :: l₂))
    (hy : l₁.getLast? = some y) :
    Chain (Function.update (Function.update next y (next x)) x none) p (l₁ ++ l₂) := by
  induction l₁ generalizing p with
  | nil => cases hy
  | cons z l₁ ih =>
    obtain ⟨hz, hnd⟩ : z ∉ l₁ ++ x :: l₂ ∧ (l₁ ++ x :: l₂).Nodup := List.nodup_cons.1 h.nodup
    simp only [List.mem_append, List.mem_cons, not_or] at hz
    refine ⟨h.1, ?_⟩
    rw [Function.update_of_ne hz.2.1]
    cases l₁ with
    | nil =>
      obtain rfl : z = y := by simpa using hy
      rw [Function.update_self]
      refine h.2.2.congr fun w hw => ?_
      have hwx : w ≠ x := fun hc => (List.nodup_cons.1 hnd).1 (hc ▸ hw)
      have hwz : w ≠ z := fun hc => hz.2.2 (hc ▸ hw)
      rw [Function.update_of_ne hwx, Function.update_of_ne hwz]
    | cons w l₁ =>
      have hzy : z ≠ y := fun hc => hz.1 (hc ▸ List.mem_of_getLast? (by simpa using hy))
      rw [Function.update_of_ne hzy]
      exact ih h.2 (by simpa using hy)

/-- A pointer set to where a walk ends, without coming back, spoils no walk that ends. -/
theorem redirect [DecidableEq α] {w : Option α} (h : Chain next p l) (hw : Chain next w l')
    (hx : x ∉ l') : ∃ l'', Chain (Function.update next x w) p l'' := by
  induction l generalizing p with
  | nil => exact ⟨[], h⟩
  | cons y l ih =>
    by_cases hy : y = x
    · subst hy
      exact ⟨y :: l', h.1, (hw.push hx).2⟩
    · obtain ⟨l'', hl⟩ := ih h.2
      refine ⟨y :: l'', h.1, ?_⟩
      rwa [Function.update_of_ne hy]

end Chain

/-- Following `next` from `p` comes to `x`. -/
inductive Visits (next : α → Option α) : Option α → α → Prop
  | here {x : α} : Visits next (some x) x
  | there {x y : α} : Visits next (next y) x → Visits next (some y) x

theorem Visits.update [DecidableEq α] (h : Visits next p x) (w : Option α) :
    Visits (Function.update next x w) p x := by
  induction h with
  | here => exact .here
  | @there x y _ ih =>
    by_cases hy : y = x
    · subst hy
      exact .here
    · refine .there ?_
      rwa [Function.update_of_ne hy]

theorem Chain.visits_iff (h : Chain next p l) : Visits next p x ↔ x ∈ l := by
  induction l generalizing p with
  | nil =>
    rw [show p = none from h]
    exact ⟨nofun, nofun⟩
  | cons y l ih =>
    rw [h.1, List.mem_cons, ← ih h.2]
    constructor
    · intro hv
      cases hv with
      | here => exact .inl rfl
      | there hv => exact .inr hv
    · rintro (rfl | hv)
      · exact .here
      · exact .there hv

theorem Visits.trans {y : α} (h : Visits next p x) (h' : Visits next (next x) y) :
    Visits next p y := by
  induction h with
  | here => exact .there h'
  | there _ ih => exact .there (ih h')

/-- A walk that is cut behind `x` is part of the whole one. -/
theorem Visits.of_cut [DecidableEq α] {y : α} (h : Visits (Function.update next x none) p y) :
    Visits next p y := by
  induction h with
  | here => exact .here
  | @there y z hv ih =>
    refine .there ?_
    by_cases hz : z = x
    · rw [hz, Function.update_self] at hv
      cases hv
    · rwa [Function.update_of_ne hz] at ih

/-- What a walk comes to, it comes to before `x` or behind it. -/
theorem Visits.cut [DecidableEq α] {y : α} (h : Visits next p y) :
    Visits (Function.update next x none) p y ∨
      Visits (Function.update next x none) (next x) y := by
  induction h with
  | here => exact .inl .here
  | @there y z _ ih =>
    by_cases hz : z = x
    · rw [hz] at ih
      exact .inr (ih.elim id id)
    · refine ih.imp_left fun hv => .there ?_
      rwa [Function.update_of_ne hz]

theorem visits_cut_iff [DecidableEq α] {y : α} :
    Visits (Function.update next x none) (next x) y ↔ Visits next (next x) y :=
  ⟨Visits.of_cut, fun h => h.cut.elim id id⟩

/-- The walk up to `x`, and then from `w` on. -/
theorem Chain.detour [DecidableEq α] {l₁ : List α} {y : α} {w : Option α}
    (h : Chain next p (l₁ ++ [y, x])) (h' : Chain (Function.update next y w) p l) :
    ∃ l₂, l = l₁ ++ y :: l₂ ∧ Chain next w l₂ := by
  induction l₁ generalizing p l with
  | nil =>
    rw [h.1] at h'
    cases l with
    | nil => cases h'
    | cons z l =>
      obtain rfl := Option.some.inj h'.1
      have hnd := (List.nodup_cons.1 h'.nodup).1
      refine ⟨l, rfl, ?_⟩
      have ht := h'.2
      rw [Function.update_self] at ht
      refine ht.congr fun z hz => (Function.update_of_ne ?_ _ _).symm
      exact fun hc => hnd (hc ▸ hz)
  | cons a l₁ ih =>
    have hne : a ≠ y := by
      rintro rfl
      have := (List.nodup_cons.1 h.nodup).1
      simp at this
    rw [h.1] at h'
    cases l with
    | nil => cases h'
    | cons z l =>
      obtain rfl := Option.some.inj h'.1
      have ht := h'.2
      rw [Function.update_of_ne hne] at ht
      obtain ⟨l₂, rfl, h2⟩ := ih h.2 ht
      exact ⟨l₂, rfl, h2⟩

/-- The chain that is left when `x` has been taken out of the walk from `p`. -/
theorem Chain.mem_without [DecidableEq α] {l₁ l₂ : List α} {y : α}
    (h : Chain (Function.update next x none) p (l₁ ++ [x]))
    (h' : Chain (Function.update next x none) (next x) l₂) :
    y ∈ l₁ ++ l₂ ↔ Visits next p y ∧ (y = x → Visits next (next x) x) := by
  have hx : x ∉ l₁ := by
    have hnd := h.nodup
    rw [List.nodup_append] at hnd
    exact fun hin => hnd.2.2 x hin x (by simp) rfl
  have hbehind : y ∈ l₂ ↔ Visits next (next x) y := by rw [← h'.visits_iff, visits_cut_iff]
  have hreach : Visits next p x := .of_cut (h.visits_iff.2 (by simp))
  have hall : Visits next p y ↔ y ∈ l₁ ∨ y = x ∨ y ∈ l₂ := by
    constructor
    · intro hv
      rcases hv.cut (x := x) with hv | hv
      · rw [h.visits_iff, List.mem_append, List.mem_singleton] at hv
        exact hv.imp_right .inl
      · exact .inr (.inr (h'.visits_iff.1 hv))
    · rintro (hy | rfl | hy)
      · exact .of_cut (h.visits_iff.2 (by simp [hy]))
      · exact hreach
      · exact hreach.trans (hbehind.1 hy)
  rw [List.mem_append, hall]
  constructor
  · rintro (hy | hy)
    · exact ⟨.inl hy, fun hyx => absurd (hyx ▸ hy) hx⟩
    · exact ⟨.inr (.inr hy), fun hyx => hyx ▸ hbehind.1 hy⟩
  · rintro ⟨hy | rfl | hy, hb⟩
    · exact .inl hy
    · exact .inr (hbehind.2 (hb rfl))
    · exact .inr hy

/-- A node put in front of a list that has it already. -/
theorem Visits.endless [DecidableEq α] (h : Visits next p x) :
    ¬ Chain (Function.update next x p) (some x) l := by
  intro hl
  cases l with
  | nil => cases hl
  | cons y l =>
    obtain ⟨hy, ht⟩ := hl
    obtain rfl := Option.some.inj hy
    have hnd : (x :: l).Nodup := Chain.nodup ⟨hy, ht⟩
    rw [Function.update_self] at ht
    exact (List.nodup_cons.1 hnd).1 (ht.visits_iff.1 (h.update p))

end Lib

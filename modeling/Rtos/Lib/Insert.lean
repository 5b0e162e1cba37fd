import Mathlib.Tactic

/-! Insertion behind the longest initial run that satisfies a test. -/

namespace Lib

universe u v

variable {α : Type u} {p : α → Bool} {x y : α} {l : List α}

def insertWhile (p : α → Bool) (x : α) (l : List α) : List α :=
  l.takeWhile p ++ x :: l.dropWhile p

theorem insertWhile_perm : (insertWhile p x l).Perm (x :: l) := by
  have h : (insertWhile p x l).Perm (x :: (l.takeWhile p ++ l.dropWhile p)) := List.perm_middle
  rwa [List.takeWhile_append_dropWhile] at h

@[simp] theorem mem_insertWhile : y ∈ insertWhile p x l ↔ y = x ∨ y ∈ l := by
  rw [insertWhile_perm.mem_iff, List.mem_cons]

theorem nodup_insertWhile : (insertWhile p x l).Nodup ↔ x ∉ l ∧ l.Nodup := by
  rw [insertWhile_perm.nodup_iff, List.nodup_cons]

theorem insertWhile_congr {p' : α → Bool} (h : ∀ y ∈ l, p' y = p y) :
    insertWhile p' x l = insertWhile p x l := by
  induction l with
  | nil => rfl
  | cons a l ih =>
    have ha := h a (by simp)
    have ih := ih fun y hy => h y (by simp [hy])
    simp only [insertWhile, List.takeWhile_cons, List.dropWhile_cons, ha] at ih ⊢
    split_ifs
    · simp only [List.cons_append, ih]
    · rfl

theorem sublist_insertWhile : l.Sublist (insertWhile p x l) := by
  have h : (l.takeWhile p ++ l.dropWhile p).Sublist (insertWhile p x l) :=
    List.Sublist.append_left (List.sublist_cons_self x _) _
  rwa [List.takeWhile_append_dropWhile] at h

/-- Whatever fails the test ends up behind what is inserted. -/
theorem pair_insertWhile (hy : y ∈ l) (hp : p y = false) : [x, y].Sublist (insertWhile p x l) := by
  have hdrop : y ∈ l.dropWhile p := by
    rw [← List.takeWhile_append_dropWhile (p := p) (l := l), List.mem_append] at hy
    refine hy.resolve_left fun hin => ?_
    have := List.all_eq_true.1 (List.all_takeWhile (p := p) (l := l)) y hin
    rw [hp] at this
    cases this
  exact ((List.singleton_sublist.2 hdrop).cons_cons x).trans (List.sublist_append_right _ _)

theorem takeWhile_congr {p' : α → Bool} (h : ∀ y ∈ l, p' y = p y) :
    l.takeWhile p' = l.takeWhile p := by
  induction l with
  | nil => rfl
  | cons a l ih =>
    rw [List.takeWhile_cons, List.takeWhile_cons, h a (by simp), ih fun y hy => h y (by simp [hy])]

/-- If what satisfies the test comes first, then the initial run is all of it. -/
theorem takeWhile_eq_filter (h : l.Pairwise fun y z => p z = true → p y = true) :
    l.takeWhile p = l.filter p := by
  induction l with
  | nil => rfl
  | cons a l ih =>
    rw [List.pairwise_cons] at h
    cases ha : p a with
    | true => rw [List.takeWhile_cons_of_pos ha, List.filter_cons_of_pos ha, ih h.2]
    | false =>
      rw [List.takeWhile_cons_of_neg (by simp [ha]), List.filter_cons_of_neg (by simp [ha])]
      refine (List.filter_eq_nil_iff.2 fun y hy hpy => ?_).symm
      rw [h.1 y hy hpy] at ha
      cases ha

/-- Without repetitions, two members stand in one order only. -/
theorem not_pair_swap (hl : l.Nodup) (h : [x, y].Sublist l) : ¬ [y, x].Sublist l := by
  intro h'
  induction l with
  | nil => cases h
  | cons a l ih =>
    rw [List.nodup_cons] at hl
    have hmem : ∀ {z w}, [z, w].Sublist (a :: l) → w ∈ l := fun hzw => by
      cases hzw with
      | cons _ hs => exact hs.subset (by simp)
      | cons_cons _ hs => exact hs.subset (by simp)
    cases h with
    | cons_cons _ _ => exact hl.1 (hmem h')
    | cons _ hs =>
      cases h' with
      | cons_cons _ _ => exact hl.1 (hs.subset (by simp))
      | cons _ hs' => exact ih hl.2 hs hs'

/-- Where the insertion takes place. -/
theorem insertWhile_append {l₁ l₂ : List α} (h1 : ∀ y ∈ l₁, p y = true)
    (h2 : ∀ y, l₂.head? = some y → p y = false) : insertWhile p x (l₁ ++ l₂) = l₁ ++ x :: l₂ := by
  induction l₁ with
  | nil =>
    cases l₂ with
    | nil => rfl
    | cons a l₂ => simp [insertWhile, h2 a rfl]
  | cons a l₁ ih =>
    have ih := ih fun y hy => h1 y (by simp [hy])
    simp only [insertWhile] at ih ⊢
    simp [h1 a (by simp), ih]

/-- The insertion keeps every pair in relation: all that pass the test may stand in front of
`x`, and whatever comes behind one that fails it may stand behind `x`. -/
theorem pairwise_insertWhile_of {R : α → α → Prop} (h1 : ∀ y ∈ l, p y = true → R y x)
    (h2 : ∀ y ∈ l, p y = false → R x y) (h3 : l.Pairwise fun y z => p y = false → R x z)
    (hl : l.Pairwise R) : (insertWhile p x l).Pairwise R := by
  induction l with
  | nil => simp [insertWhile]
  | cons a l ih =>
    rw [List.pairwise_cons] at hl h3
    cases ha : p a with
    | true =>
      have he : insertWhile p x (a :: l) = a :: insertWhile p x l := by simp [insertWhile, ha]
      rw [he, List.pairwise_cons]
      refine ⟨fun z hz => ?_, ih (fun y hy => h1 y (by simp [hy])) (fun y hy => h2 y (by simp [hy]))
        h3.2 hl.2⟩
      rcases mem_insertWhile.1 hz with rfl | hz
      · exact h1 a (by simp) ha
      · exact hl.1 z hz
    | false =>
      have he : insertWhile p x (a :: l) = x :: a :: l := by simp [insertWhile, ha]
      rw [he, List.pairwise_cons, List.pairwise_cons]
      refine ⟨fun z hz => ?_, hl⟩
      rcases List.mem_cons.1 hz with rfl | hz
      · exact h2 z (by simp) ha
      · exact h3.1 z hz ha

/-- The insertion keeps a list sorted if the test tells the smaller keys from the larger ones. -/
theorem pairwise_insertWhile {ι : Type v} [Preorder ι] {key : α → ι}
    (h1 : ∀ y ∈ l, p y = true → key y ≤ key x) (h2 : ∀ y ∈ l, p y = false → key x ≤ key y)
    (hl : l.Pairwise fun y z => key y ≤ key z) :
    (insertWhile p x l).Pairwise fun y z => key y ≤ key z := by
  refine pairwise_insertWhile_of h1 h2 ?_ hl
  exact hl.imp_of_mem fun hy _ hle hp => (h2 _ hy hp).trans hle

end Lib

import Rtos.Lib.Comp
import Rtos.Lib.Chain

/-! Intrusive doubly linked lists: the links live in the nodes, the two ends in
a separate record, and many lists share one heap of nodes. `Repr` ties such a
list to the sequence it stands for. The two link operations are stated on the
list cut at the place they work on. -/

namespace Lib

universe u

@[ext] structure Links (α : Type u) where
  next : α → Option α
  prev : α → Option α

@[ext] structure Ends (α : Type u) where
  head : Option α
  tail : Option α

/-- `while (iter != NULL && test(iter)) iter = iter->next`. -/
def walkWhile {α : Type u} (next : α → Option α) (test : α → Bool) : Option α → Comp (Option α) :=
  Comp.loop fun iter =>
    match iter with
    | none => pure (.inr none)
    | some i => if test i then pure (.inl (next i)) else pure (.inr (some i))

namespace Dll

variable {α : Type u} {h h' : Links α} {e : Ends α} {p p' q q' : Option α} {a b l : List α} {x : α}

/-- The nodes of `l` are linked in order; `p` is behind the first, `q` after the last. -/
def Seg (h : Links α) : Option α → List α → Option α → Prop
  | _, [], _ => True
  | p, x :: l, q => h.prev x = p ∧ h.next x = l.head?.or q ∧ Seg h (some x) l q

structure Repr (h : Links α) (e : Ends α) (l : List α) : Prop where
  nodup : l.Nodup
  head : e.head = l.head?
  tail : e.tail = l.getLast?
  seg : Seg h none l none

instance Seg.decidable [DecidableEq α] (h : Links α) : ∀ p l q, Decidable (Seg h p l q)
  | _, [], _ => isTrue trivial
  | _, x :: l, q =>
    haveI := Seg.decidable h (some x) l q
    inferInstanceAs (Decidable (_ ∧ _ ∧ _))

instance Repr.decidable [DecidableEq α] : Decidable (Repr h e l) :=
  decidable_of_iff (l.Nodup ∧ e.head = l.head? ∧ e.tail = l.getLast? ∧ Seg h none l none)
    ⟨fun ⟨h1, h2, h3, h4⟩ => ⟨h1, h2, h3, h4⟩, fun h => ⟨h.nodup, h.head, h.tail, h.seg⟩⟩

theorem seg_append :
    Seg h p (a ++ b) q ↔ Seg h p a (b.head?.or q) ∧ Seg h (a.getLast?.or p) b q := by
  induction a generalizing p with
  | nil => simp [Seg]
  | cons x a ih =>
    simp only [List.cons_append, Seg, ih, List.head?_append, List.getLast?_cons, Option.or_assoc]
    cases a.getLast? <;> simp [and_assoc]

theorem Seg.congr (hs : Seg h p l q) (hn : ∀ x ∈ l, h'.next x = h.next x)
    (hp : ∀ x ∈ l, h'.prev x = h.prev x) : Seg h' p l q := by
  induction l generalizing p with
  | nil => trivial
  | cons x l ih =>
    obtain ⟨h1, h2, h3⟩ := hs
    refine ⟨by rw [hp x (by simp), h1], by rw [hn x (by simp), h2], ih h3 ?_ ?_⟩
    · exact fun y hy => hn y (by simp [hy])
    · exact fun y hy => hp y (by simp [hy])

theorem Seg.chain (hs : Seg h p l none) : Chain h.next l.head? l := by
  induction l generalizing p with
  | nil => rfl
  | cons x l ih =>
    refine ⟨rfl, ?_⟩
    rw [hs.2.1, Option.or_none]
    exact ih hs.2.2

theorem Repr.visits_iff (hr : Repr h e l) : Visits h.next e.head x ↔ x ∈ l := by
  rw [hr.head]
  exact hr.seg.chain.visits_iff

theorem Repr.unique {l' : List α} (hr : Repr h e l) (hr' : Repr h e l') : l = l' := by
  have hc' := hr'.seg.chain
  rw [← hr'.head, hr.head] at hc'
  exact hr.seg.chain.unique hc'

theorem Repr.congr (hr : Repr h e l) (hn : ∀ x ∈ l, h'.next x = h.next x)
    (hp : ∀ x ∈ l, h'.prev x = h.prev x) : Repr h' e l :=
  ⟨hr.nodup, hr.head, hr.tail, hr.seg.congr hn hp⟩

/-- Only the last node's forward link tells what follows a segment. -/
theorem Seg.retarget_next [DecidableEq α] (hs : Seg h p l q) (hp : ∀ x ∈ l, h'.prev x = h.prev x)
    (hn : ∀ x ∈ l, h'.next x = if l.getLast? = some x then q' else h.next x)
    (hl : l.Nodup) : Seg h' p l q' := by
  induction l generalizing p with
  | nil => trivial
  | cons x l ih =>
    obtain ⟨h1, h2, h3⟩ := hs
    rw [List.nodup_cons] at hl
    have hx := hn x (by simp)
    refine ⟨by rw [hp x (by simp), h1], ?_, ih h3 (fun y hy => hp y (by simp [hy])) ?_ hl.2⟩
    · cases l with
      | nil => simpa using hx
      | cons y l =>
        have hne : (x :: y :: l).getLast? ≠ some x := by
          rw [List.getLast?_cons_cons]
          exact fun hc => hl.1 (List.mem_of_getLast? hc)
        rw [hx, if_neg hne, h2]
        rfl
    · intro y hy
      rw [hn y (by simp [hy])]
      cases l with
      | nil => simp at hy
      | cons z l => rw [List.getLast?_cons_cons]

theorem Seg.retarget_prev [DecidableEq α] (hs : Seg h p l q) (hn : ∀ x ∈ l, h'.next x = h.next x)
    (hp : ∀ x ∈ l, h'.prev x = if l.head? = some x then p' else h.prev x)
    (hl : l.Nodup) : Seg h' p' l q := by
  cases l with
  | nil => trivial
  | cons x l =>
    obtain ⟨h1, h2, h3⟩ := hs
    rw [List.nodup_cons] at hl
    refine ⟨by rw [hp x (by simp)]; simp, by rw [hn x (by simp), h2], h3.congr ?_ ?_⟩
    · exact fun y hy => hn y (by simp [hy])
    · intro y hy
      rw [hp y (by simp [hy]), if_neg]
      rintro hc
      obtain rfl : x = y := by simpa using hc
      exact hl.1 hy

/-- What the links of a member are, at its place in the list. -/
theorem Repr.member (hr : Repr h e (a ++ x :: b)) :
    h.prev x = a.getLast? ∧ h.next x = b.head? := by
  have hs := (seg_append.1 hr.seg).2
  exact ⟨by simpa using hs.1, by simpa using hs.2.1⟩

/-- A walk along a list stops at the first node that fails the test. -/
theorem walkWhile_returns (test : α → Bool) (hs : Seg h p l none) :
    (walkWhile h.next test l.head?).Returns (l.dropWhile test).head? := by
  induction l generalizing p with
  | nil =>
    rw [walkWhile, Comp.returns_loop]
    simp
  | cons x l ih =>
    obtain ⟨-, h2, h3⟩ := hs
    rw [walkWhile, Comp.returns_loop]
    cases hx : test x with
    | true =>
      refine .inr ⟨l.head?, by simp [hx, h2], ?_⟩
      rw [List.dropWhile_cons_of_pos hx]
      exact ih h3
    | false =>
      rw [List.dropWhile_cons_of_neg (by simp [hx])]
      simp [hx]

section
variable [DecidableEq α]

/-- Takes a node out: its neighbours, or the ends, are joined over it. -/
def unlink (h : Links α) (x : α) : Links α where
  next y := if y = x then none else if h.prev x = some y then h.next x else h.next y
  prev y := if y = x then none else if h.next x = some y then h.prev x else h.prev y

def unlinkEnds (h : Links α) (e : Ends α) (x : α) : Ends α where
  head := if h.prev x = none then h.next x else e.head
  tail := if h.next x = none then h.prev x else e.tail

/-- Puts a node between the neighbours `p` and `q`, either of which may be an end. -/
def link (h : Links α) (p q : Option α) (x : α) : Links α where
  next y := if y = x then q else if p = some y then some x else h.next y
  prev y := if y = x then p else if q = some y then some x else h.prev y

def linkEnds (e : Ends α) (p q : Option α) (x : α) : Ends α where
  head := if p = none then some x else e.head
  tail := if q = none then some x else e.tail

theorem Repr.unlink (hr : Repr h e (a ++ x :: b)) :
    Repr (unlink h x) (unlinkEnds h e x) (a ++ b) := by
  obtain ⟨hprev, hnext⟩ := hr.member
  obtain ⟨hs1, hs2⟩ := seg_append.1 hr.seg
  have hl := hr.nodup
  rw [List.nodup_append, List.nodup_cons] at hl
  obtain ⟨hla, ⟨hxb, hlb⟩, hab⟩ := hl
  have hxa : x ∉ a := fun hx => hab x hx x (by simp) rfl
  have hne : ∀ y ∈ a, ∀ z ∈ b, y ≠ z := fun y hy z hz => hab y hy z (by simp [hz])
  refine ⟨List.nodup_append.2 ⟨hla, hlb, hne⟩, ?_, ?_, seg_append.2 ⟨?_, ?_⟩⟩
  · have := hr.head
    cases a <;> simp_all [unlinkEnds, List.getLast?_cons]
  · have := hr.tail
    cases b <;> simp_all [unlinkEnds, List.getLast?_cons]
  · refine hs1.retarget_next (fun y hy => ?_) (fun y hy => ?_) hla
    · have h1 : y ≠ x := fun hc => hxa (hc ▸ hy)
      have h2 : b.head? ≠ some y := fun hc => hne y hy y (List.mem_of_mem_head? hc) rfl
      simp [Dll.unlink, h1, hnext, h2]
    · have h1 : y ≠ x := fun hc => hxa (hc ▸ hy)
      simp [Dll.unlink, h1, hprev, hnext]
  · refine hs2.2.2.retarget_prev (fun y hy => ?_) (fun y hy => ?_) hlb
    · have h1 : y ≠ x := fun hc => hxb (hc ▸ hy)
      have h2 : a.getLast? ≠ some y := fun hc => hne y (List.mem_of_getLast? hc) y hy rfl
      simp [Dll.unlink, h1, hprev, h2]
    · have h1 : y ≠ x := fun hc => hxb (hc ▸ hy)
      simp [Dll.unlink, h1, hprev, hnext]

theorem unlink_frame (hr : Repr h e (a ++ x :: b)) {y : α} (hy : y ∉ a ++ x :: b) :
    (unlink h x).next y = h.next y ∧ (unlink h x).prev y = h.prev y := by
  obtain ⟨hprev, hnext⟩ := hr.member
  have h1 : y ≠ x := fun hc => hy (by simp [hc])
  have h2 : a.getLast? ≠ some y := fun hc => hy (by simp [List.mem_of_getLast? hc])
  have h3 : b.head? ≠ some y := fun hc => hy (by simp [List.mem_of_mem_head? hc])
  simp [Dll.unlink, h1, hprev, hnext, h2, h3]

theorem Repr.link (hr : Repr h e (a ++ b)) (hx : x ∉ a ++ b) :
    Repr (link h a.getLast? b.head? x) (linkEnds e a.getLast? b.head? x) (a ++ x :: b) := by
  obtain ⟨hs1, hs2⟩ := seg_append.1 hr.seg
  obtain ⟨hla, hlb, hab⟩ := List.nodup_append.1 hr.nodup
  rw [List.mem_append, not_or] at hx
  refine ⟨?_, ?_, ?_, seg_append.2 ⟨?_, ?_, ?_, ?_⟩⟩
  · refine List.nodup_append.2 ⟨hla, List.nodup_cons.2 ⟨hx.2, hlb⟩, ?_⟩
    intro y hy z hz
    rcases List.mem_cons.1 hz with rfl | hz
    · exact fun hc => hx.1 (hc ▸ hy)
    · exact hab y hy z hz
  · have := hr.head
    cases a <;> simp_all [linkEnds, List.getLast?_cons]
  · have := hr.tail
    cases b <;> simp_all [linkEnds, List.getLast?_cons]
  · refine hs1.retarget_next (fun y hy => ?_) (fun y hy => ?_) hla
    · have h1 : y ≠ x := fun hc => hx.1 (hc ▸ hy)
      have h2 : b.head? ≠ some y := fun hc => hab y hy y (List.mem_of_mem_head? hc) rfl
      simp [Dll.link, h1, h2]
    · have h1 : y ≠ x := fun hc => hx.1 (hc ▸ hy)
      simp [Dll.link, h1]
  · simp [Dll.link]
  · simp [Dll.link]
  · refine hs2.retarget_prev (fun y hy => ?_) (fun y hy => ?_) hlb
    · have h1 : y ≠ x := fun hc => hx.2 (hc ▸ hy)
      have h2 : a.getLast? ≠ some y := fun hc => hab y (List.mem_of_getLast? hc) y hy rfl
      simp [Dll.link, h1, h2]
    · have h1 : y ≠ x := fun hc => hx.2 (hc ▸ hy)
      simp [Dll.link, h1]

theorem link_frame {y : α} (hy : y ∉ a ++ x :: b) :
    (link h a.getLast? b.head? x).next y = h.next y ∧
      (link h a.getLast? b.head? x).prev y = h.prev y := by
  have h1 : y ≠ x := fun hc => hy (by simp [hc])
  have h2 : a.getLast? ≠ some y := fun hc => hy (by simp [List.mem_of_getLast? hc])
  have h3 : b.head? ≠ some y := fun hc => hy (by simp [List.mem_of_mem_head? hc])
  simp [Dll.link, h1, h2, h3]

end
end Dll
end Lib

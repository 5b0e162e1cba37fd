import Mathlib.Tactic

/-! Consecutive words in byte-addressed memory, where `mem a` is the word that starts at `a`. -/

namespace Lib

universe u

variable {β : Type u} {n m : ℕ} {mem mem' : ℕ → β} {a b x : ℕ} {f : Fin n → β}

def loadWords (n : ℕ) (mem : ℕ → β) (a : ℕ) : Fin n → β := fun i => mem (a + 4 * i)

def storeWords (mem : ℕ → β) (a : ℕ) (f : Fin n → β) : ℕ → β := fun x =>
  if h : a ≤ x ∧ (x - a) % 4 = 0 ∧ (x - a) / 4 < n then f ⟨(x - a) / 4, h.2.2⟩ else mem x

theorem loadWords_store : loadWords n (storeWords mem a f) a = f := by
  funext i
  have hi := i.isLt
  have hdiv : (a + 4 * (i : ℕ) - a) / 4 = i := by omega
  have h : a ≤ a + 4 * (i : ℕ) ∧ (a + 4 * (i : ℕ) - a) % 4 = 0 ∧ (a + 4 * (i : ℕ) - a) / 4 < n := by
    omega
  rw [loadWords, storeWords, dif_pos h]
  exact congrArg f (Fin.ext hdiv)

/-- A store leaves the words outside of it alone. -/
theorem storeWords_outside (h : x < a ∨ a + 4 * n ≤ x) : storeWords mem a f x = mem x :=
  dif_neg (by omega)

theorem loadWords_congr (h : ∀ x, a ≤ x → x < a + 4 * n → mem' x = mem x) :
    loadWords n mem' a = loadWords n mem a := by
  funext i
  have := i.isLt
  exact h _ (by omega) (by omega)

end Lib

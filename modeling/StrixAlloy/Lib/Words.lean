import Mathlib.Algebra.Group.Nat.Defs
import Mathlib.Tactic.Common

/-!
# Calculations on machine words

A calculation on 64-bit words notes whether one of its operations left the range of a word. Its
operations wrap as the machine's do. An operation whose exact result is a word is that result and
nothing else (`add_of_lt` and its like), so that a calculation in which no operation wraps reduces to a
pure value by rewriting.
-/

namespace Words

/-- A calculation with the note whether an operation so far wrapped. -/
abbrev Calc (α : Type) := StateM Bool α

/-- An operation with the word `value`, of which `isExact` says that it is the exact result. -/
def note (value : ℕ) (isExact : Bool) : Calc ℕ := fun wrapped => (value, wrapped || !isExact)

def add (a b : ℕ) : Calc ℕ := note ((a + b) % 2 ^ 64) (a + b < 2 ^ 64)

def sub (a b : ℕ) : Calc ℕ := note ((a + 2 ^ 64 - b) % 2 ^ 64) (b ≤ a)

def mul (a b : ℕ) : Calc ℕ := note (a * b % 2 ^ 64) (a * b < 2 ^ 64)

variable {a b : ℕ}

theorem note_true (value : ℕ) : note value true = pure value := by
  funext wrapped
  show (value, wrapped || false) = (value, wrapped)
  rw [Bool.or_false]

theorem add_of_lt (h : a + b < 2 ^ 64) : add a b = pure (a + b) := by
  unfold add
  rw [decide_eq_true h, note_true, Nat.mod_eq_of_lt h]

theorem sub_of_le (h : b ≤ a) (ha : a < 2 ^ 64) : sub a b = pure (a - b) := by
  have hmod : (a + 2 ^ 64 - b) % 2 ^ 64 = a - b := by omega
  unfold sub
  rw [decide_eq_true h, note_true, hmod]

theorem mul_of_lt (h : a * b < 2 ^ 64) : mul a b = pure (a * b) := by
  unfold mul
  rw [decide_eq_true h, note_true, Nat.mod_eq_of_lt h]

/-- The distance of a word to the largest one never wraps. -/
theorem max_sub (h : a < 2 ^ 64) : sub (2 ^ 64 - 1) a = pure (2 ^ 64 - 1 - a) :=
  sub_of_le (by omega) (by omega)

end Words

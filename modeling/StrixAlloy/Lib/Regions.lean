import Mathlib.Tactic.Common

/-!
# Regions of a flat memory

A memory gives a value to every address. A block of a fixed size is read from and written to an
address; a write is read back (`read_write`), and does not show in a region apart from it
(`read_write_of_apart`).
-/

namespace Regions

variable {β : Type*} {size : ℕ}

/-- The regions of `size` addresses from `p` and from `q` have no address in common. -/
def Apart (size p q : ℕ) : Prop := p + size ≤ q ∨ q + size ≤ p

instance (size p q : ℕ) : Decidable (Apart size p q) := inferInstanceAs (Decidable (_ ∨ _))

theorem Apart.symm {p q : ℕ} (h : Apart size p q) : Apart size q p := Or.symm h

/-- The block at `p`. -/
def read (m : ℕ → β) (p : ℕ) : Fin size → β := fun i => m (p + i)

/-- The memory with the block `row` at `p`. -/
def write (m : ℕ → β) (p : ℕ) (row : Fin size → β) : ℕ → β := fun a =>
  if h : p ≤ a ∧ a < p + size then row ⟨a - p, by omega⟩ else m a

/-- What was written is read. -/
theorem read_write (m : ℕ → β) (p : ℕ) (row : Fin size → β) : read (write m p row) p = row := by
  funext i
  unfold read write
  have hi := i.isLt
  rw [dif_pos (by omega)]
  congr 1
  exact Fin.ext (by simp)

/-- A write changes nothing in a region apart from it. -/
theorem read_write_of_apart {p q : ℕ} (h : Apart size p q) (m : ℕ → β) (row : Fin size → β) :
    read (write m p row) q = (read m q : Fin size → β) := by
  funext i
  unfold read write
  have hi := i.isLt
  unfold Apart at h
  rw [dif_neg (by omega)]

end Regions

import Mathlib.Data.List.Infix

/-!
# Searching a text

The first and the last place of a pattern in a text. A text in which the pattern's first character does not
occur does not hold the pattern, whatever follows it (`indexOf_append`, `lastIndexOf_append`).
-/

namespace Search

/-- The first place of a pattern that is not empty. -/
def indexOf (pat : List Char) : List Char → Option ℕ
  | [] => none
  | c :: cs => if pat <+: c :: cs then some 0 else (indexOf pat cs).map (· + 1)

/-- The last place of a pattern that is not empty. -/
def lastIndexOf (pat : List Char) : List Char → Option ℕ
  | [] => none
  | c :: cs =>
    match lastIndexOf pat cs with
    | some i => some (i + 1)
    | none => if pat <+: c :: cs then some 0 else none

/-- Whether the pattern occurs. -/
def contains (pat s : List Char) : Bool := (indexOf pat s).isSome

variable {a : Char} {p s : List Char}

-- Makes the equations once, for all of the proofs.
attribute [local simp] indexOf lastIndexOf in
theorem not_prefix_of_ne {c : Char} {cs : List Char} (h : a ≠ c) : ¬a :: p <+: c :: cs := by
  rintro ⟨t, ht⟩
  exact h (List.cons.inj ht).1

theorem indexOf_append {w : List Char} (h : a ∉ w) (s : List Char) :
    indexOf (a :: p) (w ++ s) = (indexOf (a :: p) s).map (· + w.length) := by
  induction w with
  | nil => exact Option.map_id'.symm
  | cons c w ih =>
    obtain ⟨hc, hw⟩ := not_or.1 (List.mem_cons.not.1 h)
    rw [List.cons_append, indexOf, if_neg (not_prefix_of_ne hc), ih hw, Option.map_map]
    rfl

theorem lastIndexOf_append {w : List Char} (h : a ∉ w) (s : List Char) :
    lastIndexOf (a :: p) (w ++ s) = (lastIndexOf (a :: p) s).map (· + w.length) := by
  induction w with
  | nil => exact Option.map_id'.symm
  | cons c w ih =>
    obtain ⟨hc, hw⟩ := not_or.1 (List.mem_cons.not.1 h)
    rw [List.cons_append, lastIndexOf, ih hw]
    cases lastIndexOf (a :: p) s with
    | none => exact if_neg (not_prefix_of_ne hc)
    | some => rfl

/-- A pattern at the beginning. -/
theorem indexOf_of_prefix (h : a :: p <+: s) : indexOf (a :: p) s = some 0 := by
  cases s with
  | nil => exact absurd h.length_le (Nat.not_succ_le_zero _)
  | cons => exact if_pos h

/-- A pattern at the beginning that does not occur later. -/
theorem lastIndexOf_of_prefix {c : Char} {cs : List Char} (h : a :: p <+: c :: cs)
    (hlast : lastIndexOf (a :: p) cs = none) : lastIndexOf (a :: p) (c :: cs) = some 0 := by
  rw [lastIndexOf, hlast]
  exact if_pos h

/-- A pattern whose place is found is there. -/
theorem exists_of_indexOf {pat s : List Char} {i : ℕ} (h : indexOf pat s = some i) :
    ∃ t, s = s.take i ++ pat ++ t := by
  induction s generalizing i with
  | nil => cases h
  | cons c cs ih =>
    rw [indexOf] at h
    split at h
    · rename_i hp
      obtain ⟨t, ht⟩ := hp
      cases h
      exact ⟨t, ht.symm⟩
    · obtain ⟨j, hj, rfl⟩ := Option.map_eq_some_iff.1 h
      obtain ⟨t, ht⟩ := ih hj
      refine ⟨t, ?_⟩
      rw [List.take_succ_cons, List.cons_append, List.cons_append, ← ht]

/-- A pattern that is there is found. -/
theorem contains_of_infix {pat s : List Char} (hpat : pat ≠ []) (h : pat <:+: s) : contains pat s := by
  unfold contains
  induction s with
  | nil => exact absurd (List.infix_nil.1 h) hpat
  | cons c cs ih =>
    rw [indexOf]
    split
    · rfl
    · rename_i hp
      rw [Option.isSome_map]
      exact ih ((List.infix_cons_iff.1 h).resolve_left hp)

/-- Where a pattern is found, a part of it is found. -/
theorem contains_of_part {pat pat' s : List Char} (hpat : pat ≠ []) (hpart : pat <:+: pat')
    (h : contains pat' s) : contains pat s := by
  obtain ⟨i, hi⟩ := Option.isSome_iff_exists.1 h
  obtain ⟨t, ht⟩ := exists_of_indexOf hi
  exact contains_of_infix hpat (hpart.trans ⟨s.take i, t, ht.symm⟩)

end Search

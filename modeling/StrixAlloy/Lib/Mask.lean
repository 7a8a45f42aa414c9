import Mathlib.Data.List.Infix

/-!
# Masking the occurrences of a word

The leftmost occurrences of a word in a list, without overlaps, replaced by stars that the word has none of
(`replace`). The same comes out where an occurrence is replaced as soon as its last element is there (`masked`), so
that a list may be masked piece by piece: of what is masked so far only as much is needed again as is shorter than
the word (`masked_append`).
-/

namespace Mask

open List

variable {α : Type*} [DecidableEq α] (s : List α) (star : α)

/-- The list behind an occurrence, `skip` elements of which are still to be replaced. -/
def replaceFrom : ℕ → List α → List α
  | _, [] => []
  | skip + 1, _ :: l => star :: replaceFrom skip l
  | 0, a :: l => if s <+: a :: l then star :: replaceFrom (s.length - 1) l else a :: replaceFrom 0 l

def replace (l : List α) : List α := replaceFrom s star 0 l

/-- One more element of a masked list. -/
def step (out : List α) (a : α) : List α :=
  if s <:+ out ++ [a] then (out ++ [a]).take (out.length + 1 - s.length) ++ List.replicate s.length star
  else out ++ [a]

/-- A list that is masked element by element. -/
def masked (l : List α) : List α := l.foldl (step s star) []

variable {s star}

theorem length_step (out : List α) (a : α) : (step s star out a).length = out.length + 1 := by
  unfold step
  split_ifs with h
  · have hle := h.length_le
    rw [length_append, length_singleton] at hle
    rw [length_append, length_take, length_append, length_singleton, length_replicate]
    omega
  · rw [length_append, length_singleton]

theorem masked_concat (l : List α) (a : α) : masked s star (l ++ [a]) = step s star (masked s star l) a := by
  rw [masked, foldl_append]
  rfl

theorem length_masked (l : List α) : (masked s star l).length = l.length := by
  induction l using List.reverseRecOn with
  | nil => rfl
  | append_singleton l a ih => rw [masked_concat, length_step, ih, length_append, length_singleton]

/-! ## Parts that are left alone -/

/-- What no occurrence reaches is not changed by what follows. -/
theorem foldl_step_append {w : List α} (l : List α) : ∀ p : List α,
    (∀ q : List α, p.length < q.length → s <:+ w ++ q → s.length ≤ q.length) →
    l.foldl (step s star) (w ++ p) = w ++ l.foldl (step s star) p := by
  induction l with
  | nil => exact fun p _ => rfl
  | cons a l ih =>
    intro p h
    have hstep : step s star (w ++ p) a = w ++ step s star p a := by
      have hiff : s <:+ w ++ (p ++ [a]) ↔ s <:+ p ++ [a] := by
        refine ⟨fun hs => ?_, fun hs => hs.trans (suffix_append _ _)⟩
        exact suffix_of_suffix_length_le hs (suffix_append _ _)
          (h _ (by rw [length_append, length_singleton]; omega) hs)
      unfold step
      rw [append_assoc]
      by_cases hs : s <:+ p ++ [a]
      · have hle := hs.length_le
        rw [length_append, length_singleton] at hle
        rw [if_pos (hiff.2 hs), if_pos hs, length_append, ← append_assoc,
          show w.length + p.length + 1 - s.length = w.length + (p.length + 1 - s.length) by omega,
          append_assoc w p, take_length_add_append, append_assoc]
      · rw [if_neg (hiff.not.2 hs), if_neg hs]
    rw [foldl_cons, foldl_cons, hstep]
    refine ih _ fun q hq => h q ?_
    rw [length_step] at hq
    omega

omit [DecidableEq α] in
/-- An occurrence has no star. -/
theorem suffix_of_star (hstar : star ∉ s) {u q : List α} (h : s <:+ (u ++ [star]) ++ q) : s.length ≤ q.length := by
  by_contra hlt
  have hle : star :: q <:+ s := by
    refine suffix_of_suffix_length_le ?_ h (by rw [length_cons]; omega)
    rw [append_assoc]
    exact suffix_append _ _
  exact hstar (hle.subset mem_cons_self)

theorem masked_of_not_infix {l : List α} (h : ¬s <:+: l) : masked s star l = l := by
  induction l using List.reverseRecOn with
  | nil => rfl
  | append_singleton l a ih =>
    rw [masked_concat, ih fun hl => h (hl.trans (prefix_append _ _).isInfix), step,
      if_neg fun hs => h hs.isInfix]

/-- Only as much of what is masked so far is needed again as is shorter than the word. -/
theorem masked_append {w p : List α} {l : List α} (hl : masked s star l = w ++ p) (hp : p.length < s.length)
    (hw : w = [] ∨ s.length ≤ p.length + 1) (d : List α) :
    masked s star (l ++ d) = w ++ masked s star (p ++ d) := by
  have hshort : masked s star p = p := masked_of_not_infix fun h => absurd h.length_le (by omega)
  have hfold : ∀ l d : List α, masked s star (l ++ d) = d.foldl (step s star) (masked s star l) := fun _ _ =>
    foldl_append
  rw [hfold, hfold, hl, hshort]
  refine foldl_step_append d p fun q hq hsuffix => ?_
  rcases hw with rfl | hw
  · exact hsuffix.length_le
  · omega

theorem replaceFrom_append (skip : List α) (l : List α) :
    replaceFrom s star skip.length (skip ++ l) = List.replicate skip.length star ++ replace s star l := by
  induction skip with
  | nil => rfl
  | cons a skip ih => rw [length_cons, cons_append, replaceFrom, ih, replicate_succ, cons_append]

/-! ## The two are the same -/

section

variable (hs : s ≠ []) (hstar : star ∉ s)
include hs

omit [DecidableEq α] in
theorem exists_concat : ∃ s' a, s = s' ++ [a] := ⟨_, _, (dropLast_concat_getLast hs).symm⟩

/-- A masked list without stars is the list. -/
theorem masked_eq_self {l : List α} (h : star ∉ masked s star l) : masked s star l = l := by
  induction l using List.reverseRecOn with
  | nil => rfl
  | append_singleton l a ih =>
    rw [masked_concat, step] at h ⊢
    split_ifs at h ⊢ with hocc
    · exact absurd (mem_append_right _ (mem_replicate.2 ⟨mt eq_nil_of_length_eq_zero hs, rfl⟩)) h
    · rw [ih fun hl => h (mem_append_left _ hl)]

/-- The first occurrence is replaced as a whole. -/
theorem masked_self : masked s star s = List.replicate s.length star := by
  obtain ⟨s', a, rfl⟩ := exists_concat hs
  have hshort : ¬s' ++ [a] <:+: s' := fun h => by
    have hle := h.length_le
    rw [length_append, length_singleton] at hle
    omega
  rw [masked_concat, masked_of_not_infix hshort, step, if_pos suffix_rfl]
  simp

include hstar

theorem masked_append_copy (l : List α) :
    masked s star (s ++ l) = List.replicate s.length star ++ masked s star l := by
  have hlen : s.length ≠ 0 := mt eq_nil_of_length_eq_zero hs
  obtain ⟨n, hn⟩ := Nat.exists_eq_succ_of_ne_zero hlen
  have hw : List.replicate s.length star = List.replicate n star ++ [star] := by
    rw [hn, replicate_succ']
  have hfold : l.foldl (step s star) (List.replicate s.length star ++ []) = _ :=
    foldl_step_append l [] fun q _ h => suffix_of_star hstar (hw ▸ h)
  rw [masked, foldl_append]
  rw [append_nil] at hfold
  exact (congrArg (l.foldl (step s star)) (masked_self hs)).trans hfold

theorem masked_cons {a : α} {l : List α} (h : ¬s <+: a :: l) :
    masked s star (a :: l) = a :: masked s star l := by
  induction l using List.reverseRecOn with
  | nil =>
    refine masked_of_not_infix fun hin => ?_
    rcases (infix_singleton_iff _ _).1 hin with hnil | hone
    · exact hs hnil
    · exact h (hone ▸ prefix_rfl)
  | append_singleton l b ih =>
    have hpre : a :: l <+: a :: (l ++ [b]) := ⟨[b], rfl⟩
    rw [← cons_append, masked_concat, ih fun hp => h (hp.trans hpre), masked_concat]
    have hone : ¬s = a :: (masked s star l ++ [b]) := by
      intro he
      have hl : masked s star l = l := masked_eq_self hs fun hmem =>
        hstar (he ▸ mem_cons_of_mem _ (mem_append_left _ hmem))
      rw [hl] at he
      exact h (he ▸ prefix_rfl)
    have hiff : s <:+ a :: (masked s star l ++ [b]) ↔ s <:+ masked s star l ++ [b] := by
      rw [suffix_cons_iff]
      exact ⟨fun h => h.resolve_left hone, .inr⟩
    unfold step
    rw [cons_append]
    by_cases hocc : s <:+ masked s star l ++ [b]
    · have hle := hocc.length_le
      rw [length_append, length_singleton] at hle
      rw [if_pos (hiff.2 hocc), if_pos hocc, length_cons,
        show (masked s star l).length + 1 + 1 - s.length = (masked s star l).length + 1 - s.length + 1 by omega,
        take_succ_cons, cons_append]
    · rw [if_neg (hiff.not.2 hocc), if_neg hocc]

/-- The list may be masked element by element. -/
theorem replace_eq_masked (l : List α) : replace s star l = masked s star l := by
  induction hn : l.length using Nat.strong_induction_on generalizing l with
  | _ n ih =>
    cases l with
    | nil => rfl
    | cons a l =>
      by_cases hp : s <+: a :: l
      · obtain ⟨t, ht⟩ := hp
        obtain ⟨b, s', rfl⟩ := exists_cons_of_ne_nil hs
        rw [cons_append] at ht
        obtain ⟨rfl, rfl⟩ := List.cons.inj ht
        have hlt : t.length < n := by
          rw [← hn, length_cons, length_append]
          omega
        calc replace (b :: s') star (b :: (s' ++ t))
            = star :: replaceFrom (b :: s') star s'.length (s' ++ t) := if_pos ⟨t, rfl⟩
          _ = List.replicate (b :: s').length star ++ replace (b :: s') star t := by rw [replaceFrom_append]; rfl
          _ = List.replicate (b :: s').length star ++ masked (b :: s') star t := by rw [ih _ hlt t rfl]
          _ = masked (b :: s') star (b :: s' ++ t) := (masked_append_copy hs hstar t).symm
      · have hlt : l.length < n := by
          rw [← hn]
          exact Nat.lt_succ_self _
        rw [replace, replaceFrom, if_neg hp, masked_cons hs hstar hp, ← ih _ hlt l rfl]
        rfl

omit [DecidableEq α] in
/-- An occurrence does not reach into stars. -/
theorem infix_of_stars {u : List α} (k : ℕ) (h : s <:+: u ++ List.replicate k star) : s <:+: u := by
  induction k with
  | zero => rwa [replicate_zero, append_nil] at h
  | succ k ih =>
    rw [replicate_succ', ← append_assoc, infix_concat_iff] at h
    rcases h with h | h
    · have hle := suffix_of_star hstar (by rwa [append_nil])
      exact absurd (eq_nil_of_length_eq_zero (Nat.le_zero.1 hle)) hs
    · exact ih h

/-- No occurrence is left. -/
theorem not_infix_masked (l : List α) : ¬s <:+: masked s star l := by
  induction l using List.reverseRecOn with
  | nil => exact fun h => hs (eq_nil_of_infix_nil h)
  | append_singleton l a ih =>
    rw [masked_concat, step]
    split_ifs with hocc
    · intro h
      have hpos : 0 < s.length := length_pos_iff.2 hs
      have hin := infix_of_stars hs hstar _ h
      rw [take_append_of_le_length (by omega)] at hin
      exact ih (hin.trans (List.take_prefix _ _).isInfix)
    · rw [infix_concat_iff]
      exact fun h => h.elim hocc ih

end

end Mask

import Mathlib.Data.List.Infix

/-!
# The places of a pattern

Where a pattern stands in a list, the first place from a start on, and what joining lists does to the places. A
pattern does not stand across a joint whose right side begins with an element that the pattern has at its head
only (`at_append_cons`); so it stands in a list with an insertion where it stood before and where it stands in
the inserted part (`at_enclose`).
-/

namespace Occurs

open List

variable {α : Type*} {pat s a b : List α} {x : α} {i j : ℕ}

/-- The pattern stands at a place. -/
def At (pat s : List α) (i : ℕ) : Prop := pat <+: s.drop i

instance [DecidableEq α] : Decidable (At pat s i) := inferInstanceAs (Decidable (pat <+: s.drop i))

/-- The pattern stands at a place and nowhere else. -/
def Once (pat s : List α) (i : ℕ) : Prop := At pat s i ∧ ∀ j, At pat s j → j = i

/-- The pattern stands nowhere. -/
def Nowhere (pat s : List α) : Prop := ∀ i, ¬At pat s i

theorem at_iff : At pat s i ↔ ∀ k, (h : k < pat.length) → s[i + k]? = some pat[k] := by
  simp [At, prefix_iff_getElem?]

theorem At.getElem? (h : At pat s i) {k : ℕ} (hk : k < pat.length) : s[i + k]? = pat[k]? := by
  rw [at_iff.1 h k hk, List.getElem?_eq_getElem hk]

theorem At.length_le (h : At pat s i) (hp : pat ≠ []) : i + pat.length ≤ s.length := by
  have hle := List.IsPrefix.length_le h
  have hpos := length_pos_iff.2 hp
  rw [length_drop] at hle
  omega

theorem not_at_nil (hp : pat ≠ []) : ¬At pat [] i := by
  intro h
  have hle := h.length_le hp
  have hpos := length_pos_iff.2 hp
  simp only [length_nil] at hle
  omega

theorem at_zero : At pat s 0 ↔ pat <+: s := Iff.rfl

theorem at_cons_succ : At pat (x :: s) (i + 1) ↔ At pat s i := Iff.rfl

theorem At.isInfix (h : At pat s i) : pat <:+: s :=
  List.IsInfix.trans (List.IsPrefix.isInfix h) (drop_suffix i s).isInfix

theorem exists_at_iff : (∃ i, At pat s i) ↔ pat <:+: s := by
  constructor
  · rintro ⟨i, h⟩
    exact h.isInfix
  · rintro ⟨u, v, rfl⟩
    refine ⟨u.length, v, ?_⟩
    rw [append_assoc, drop_left]

theorem nowhere_iff : Nowhere pat s ↔ ¬pat <:+: s := by
  rw [← exists_at_iff, not_exists, Nowhere]

/-- A pattern stands nowhere in a list without its head. -/
theorem nowhere_of_notMem (hx : x ∉ s) : Nowhere (x :: pat) s := by
  intro i h
  exact hx (mem_of_getElem? (h.getElem? (Nat.zero_lt_succ pat.length)))

/-! ## Joints -/

theorem at_append_right (h : a.length ≤ i) : At pat (a ++ b) i ↔ At pat b (i - a.length) := by
  rw [At, At, drop_append, drop_eq_nil_of_le h, nil_append]

theorem at_append_left (hp : i + pat.length ≤ a.length) : At pat (a ++ b) i ↔ At pat a i := by
  rw [at_iff, at_iff]
  refine forall_congr' fun k => forall_congr' fun hk => ?_
  rw [List.getElem?_append_left (by omega)]

/-- The places of a pattern in two lists whose joint it cannot cross. -/
theorem at_append_cons (hp : pat ≠ []) (hx : x ∉ pat.tail) :
    At pat (a ++ x :: b) i ↔ At pat a i ∨ a.length ≤ i ∧ At pat (x :: b) (i - a.length) := by
  rcases Nat.lt_or_ge i a.length with hi | hi
  · rw [or_iff_left fun h => absurd h.1 (Nat.not_le.2 hi)]
    rcases Nat.lt_or_ge a.length (i + pat.length) with hl | hl
    · -- the joint's element would stand inside the pattern
      refine iff_of_false (fun h => hx ?_) fun h => absurd (h.length_le hp) (Nat.not_le.2 hl)
      have hk : a.length - i < pat.length := by omega
      have hget := h.getElem? hk
      rw [List.getElem?_append_right (by omega), show i + (a.length - i) - a.length = 0 by omega] at hget
      refine mem_iff_getElem?.2 ⟨a.length - i - 1, ?_⟩
      rw [List.getElem?_tail, show a.length - i - 1 + 1 = a.length - i by omega, ← hget]
      rfl
    · exact at_append_left hl
  · rw [at_append_right hi, or_iff_right fun h => ?_, and_iff_right hi]
    have hle := h.length_le hp
    have hpos := length_pos_iff.2 hp
    omega

/-- The places of a pattern on the two sides of an element that it does not have. -/
theorem at_separator (hp : pat ≠ []) (hx : x ∉ pat) :
    At pat (a ++ x :: b) i ↔ At pat a i ∨ a.length + 1 ≤ i ∧ At pat b (i - a.length - 1) := by
  rw [at_append_cons hp fun h => hx (mem_of_mem_tail h)]
  refine or_congr_right ?_
  cases hd : i - a.length with
  | zero =>
    refine iff_of_false (fun h => hx ?_) fun h => by omega
    obtain ⟨y, p, rfl⟩ := exists_cons_of_ne_nil hp
    obtain ⟨t, ht⟩ := h.2
    rw [← (List.cons.inj ht).1]
    exact mem_cons_self
  | succ =>
    refine and_congr (by omega) ?_
    rw [at_cons_succ, Nat.add_sub_cancel]

theorem nowhere_separator (hp : pat ≠ []) (hx : x ∉ pat) :
    Nowhere pat (a ++ x :: b) ↔ Nowhere pat a ∧ Nowhere pat b := by
  constructor
  · intro h
    refine ⟨fun i hi => h i ((at_separator hp hx).2 (.inl hi)), fun i hi => ?_⟩
    refine h (i + a.length + 1) ((at_separator hp hx).2 (.inr ⟨by omega, ?_⟩))
    rwa [show i + a.length + 1 - a.length - 1 = i by omega]
  · rintro ⟨ha, hb⟩ i hi
    rcases (at_separator hp hx).1 hi with hi | ⟨-, hi⟩
    · exact ha i hi
    · exact hb _ hi

/-! ## Insertions -/

/-- A list with an insertion between two separators. -/
def enclose (x : α) (v s : List α) (c : ℕ) : List α := s.take c ++ x :: (v ++ [x]) ++ s.drop c

variable {v : List α} {c : ℕ} {y : α}

theorem length_enclose : (enclose x v s c).length = s.length + v.length + 2 := by
  have h := congrArg List.length (take_append_drop c s)
  simp only [enclose, length_append, length_cons, length_nil] at h ⊢
  omega

/-- The inserted list stands after its separator. -/
theorem at_enclose_self (hc : c ≤ s.length) : At v (enclose x v s c) (c + 1) := by
  have hlen := length_take_of_le hc
  rw [enclose, append_assoc, at_append_right (by omega), hlen, Nat.add_sub_cancel_left, cons_append,
    at_cons_succ, at_zero, append_assoc]
  exact prefix_append v _

/-- Up to there the places are those before what follows. -/
theorem at_enclose_le (hc : c ≤ s.length) (hi : i ≤ c + 1) :
    At v (enclose x v s c) i ↔ At v (s.take c ++ x :: v) i := by
  have he : enclose x v s c = (s.take c ++ x :: v) ++ x :: s.drop c := by
    simp only [enclose, cons_append, append_assoc, nil_append]
  rw [he]
  refine at_append_left ?_
  rw [length_append, length_take_of_le hc, length_cons]
  omega

section

variable (hp : pat ≠ []) (hx : x ∉ pat) (hc : s[c]? = some y) (hy : y ∉ pat.tail)
include hp hx hc hy

/-- A pattern without the separator that begins at the place, if at all, stands in the list where it stood before
and where it stands in what was inserted. -/
theorem at_enclose : At pat (enclose x v s c) i ↔ (i < c ∧ At pat s i) ∨ (c + 1 ≤ i ∧ At pat v (i - c - 1)) ∨
    c + v.length + 2 ≤ i ∧ At pat s (i - v.length - 2) := by
  obtain ⟨hlt, hget⟩ := List.getElem?_eq_some_iff.1 hc
  have hs : s = s.take c ++ y :: s.drop (c + 1) := by
    rw [← hget, getElem_cons_drop, take_append_drop]
  have hlen : (s.take c).length = c := length_take_of_le hlt.le
  have he : enclose x v s c = s.take c ++ x :: (v ++ x :: s.drop c) := by
    simp only [enclose, cons_append, append_assoc, nil_append]
  have hdrop : ∀ k, At pat (s.drop c) k ↔ At pat s (c + k) := fun k => by rw [At, At, drop_drop]
  have hleft : At pat (s.take c) i ↔ i < c ∧ At pat s i := by
    have hjoint := at_append_cons (a := s.take c) (b := s.drop (c + 1)) (i := i) hp hy
    rw [← hs, hlen] at hjoint
    rw [hjoint]
    have hpos := length_pos_iff.2 hp
    constructor
    · intro h
      have hle := h.length_le hp
      exact ⟨by omega, .inl h⟩
    · rintro ⟨hi, h | h⟩
      · exact h
      · exact absurd h.1 (Nat.not_le.2 hi)
  rw [he, at_separator hp hx, at_separator hp hx, hleft, hlen, hdrop, and_or_left]
  refine or_congr_right (or_congr_right ?_)
  constructor
  · rintro ⟨h1, h2, h3⟩
    refine ⟨by omega, ?_⟩
    rwa [show i - v.length - 2 = c + (i - c - 1 - v.length - 1) by omega]
  · rintro ⟨h1, h2⟩
    refine ⟨by omega, by omega, ?_⟩
    rwa [show c + (i - c - 1 - v.length - 1) = i - v.length - 2 by omega]

/-- A pattern that is not in the insertion keeps its one place, moved if it is behind. -/
theorem once_enclose (h : Once pat s i) (hn : Nowhere pat v) :
    Once pat (enclose x v s c) (if i < c then i else i + v.length + 2) := by
  constructor
  · rw [at_enclose hp hx hc hy]
    split_ifs with hlt
    · exact .inl ⟨hlt, h.1⟩
    · refine .inr (.inr ⟨by omega, ?_⟩)
      rw [show i + v.length + 2 - v.length - 2 = i by omega]
      exact h.1
  · intro j hj
    rcases (at_enclose hp hx hc hy).1 hj with ⟨hlt, hj⟩ | ⟨-, hj⟩ | ⟨hle, hj⟩
    · obtain rfl := h.2 _ hj
      rw [if_pos hlt]
    · exact absurd hj (hn _)
    · have hji := h.2 _ hj
      rw [if_neg (by omega)]
      omega

/-- A pattern of the list that is in the insertion too has more than one place. -/
theorem not_once_enclose (h : At pat s i) (hn : ¬Nowhere pat v) : ¬Once pat (enclose x v s c) j := by
  intro ho
  obtain ⟨k, hk⟩ := not_forall_not.1 hn
  have hlen := hk.length_le hp
  have hpos := length_pos_iff.2 hp
  have hin : At pat (enclose x v s c) (c + 1 + k) := by
    refine (at_enclose hp hx hc hy).2 (.inr (.inl ⟨by omega, ?_⟩))
    rwa [show c + 1 + k - c - 1 = k by omega]
  have hj := ho.2 _ hin
  rcases Nat.lt_or_ge i c with hlt | hge
  · have hi := ho.2 _ ((at_enclose hp hx hc hy).2 (.inl ⟨hlt, h⟩))
    omega
  · have hin' : At pat (enclose x v s c) (i + v.length + 2) := by
      refine (at_enclose hp hx hc hy).2 (.inr (.inr ⟨by omega, ?_⟩))
      rwa [show i + v.length + 2 - v.length - 2 = i by omega]
    have hi := ho.2 _ hin'
    omega

end

/-- An inserted list whose head does not come back soon, and which does not have the pattern that follows it, is
not found behind its place. -/
theorem le_of_at_enclose {h : α} {w : List α} (hx : x ≠ h) (hs : Nowhere (h :: w) s) (hp : pat ≠ [])
    (hc : At pat s c) (hhead : ∀ j < pat.length, w[j]? ≠ some h) (hn : Nowhere pat (h :: w))
    (hi : At (h :: w) (enclose x (h :: w) s c) i) : i ≤ c + 1 := by
  have hle := hc.length_le hp
  have hlen : (s.take c).length = c := length_take_of_le (by omega)
  have he : enclose x (h :: w) s c = s.take c ++ x :: ((h :: w) ++ x :: s.drop c) := by
    simp only [enclose, cons_append, append_assoc, nil_append]
  by_contra hlt
  obtain ⟨d, rfl⟩ : ∃ d, i = c + 1 + (d + 1) := ⟨i - c - 2, by omega⟩
  -- the list would begin in what follows its own beginning
  rw [he, at_append_right (by omega), hlen, show c + 1 + (d + 1) - c = d + 1 + 1 by omega, at_cons_succ] at hi
  have hfirst : ((h :: w) ++ x :: s.drop c)[d + 1]? = some h := hi.getElem? (Nat.zero_lt_succ w.length)
  rcases Nat.lt_trichotomy d w.length with hd | rfl | hd
  · rw [List.getElem?_append_left (by rw [length_cons]; omega), List.getElem?_cons_succ] at hfirst
    have hfar : pat.length ≤ d := Nat.le_of_not_lt fun hd => hhead d hd hfirst
    -- then the pattern stands at its end
    refine hn (w.length + 1 - d) (at_iff.2 fun k hk => ?_)
    have hget := hi.getElem? (show w.length + 1 - d + k < (h :: w).length by rw [length_cons]; omega)
    rw [← hget, List.getElem?_append_right (by rw [length_cons]; omega), length_cons,
      show d + 1 + (w.length + 1 - d + k) - (w.length + 1) = k + 1 by omega, List.getElem?_cons_succ,
      List.getElem?_drop]
    exact at_iff.1 hc k hk
  · rw [List.getElem?_append_right (by rw [length_cons]), length_cons, Nat.sub_self] at hfirst
    exact hx (Option.some.inj hfirst)
  · rw [at_append_right (by rw [length_cons]; omega), length_cons,
      show d + 1 - (w.length + 1) = d - w.length - 1 + 1 by omega, at_cons_succ, At, drop_drop] at hi
    exact hs _ hi

/-! ## The first place -/

section

variable [DecidableEq α]

/-- The first place in a list. -/
def first (pat : List α) : List α → Option ℕ
  | [] => if pat = [] then some 0 else none
  | x :: s => if pat <+: x :: s then some 0 else (first pat s).map (· + 1)

/-- The first place from a start on. -/
def indexOf (pat s : List α) (start : ℕ) : Option ℕ := (first pat (s.drop start)).map (· + start)

theorem first_eq_some : first pat s = some i ↔ At pat s i ∧ ∀ j < i, ¬At pat s j := by
  induction s generalizing i with
  | nil =>
    by_cases hp : pat = []
    · subst hp
      have hall : ∀ j, At ([] : List α) [] j := fun j => nil_prefix
      rw [first, if_pos rfl]
      constructor
      · rintro ⟨⟩
        exact ⟨hall 0, fun j hj => absurd hj (Nat.not_lt_zero j)⟩
      · rintro ⟨-, hmin⟩
        rw [Nat.eq_zero_of_not_pos fun hpos => hmin 0 hpos (hall 0)]
    · rw [first, if_neg hp]
      exact iff_of_false nofun fun h => not_at_nil hp h.1
  | cons x s ih =>
    rw [first]
    split_ifs with h
    · constructor
      · rintro ⟨⟩
        exact ⟨h, fun j hj => absurd hj (Nat.not_lt_zero j)⟩
      · rintro ⟨-, hmin⟩
        rw [Nat.eq_zero_of_not_pos fun hpos => hmin 0 hpos h]
    · cases i with
      | zero =>
        refine iff_of_false (fun he => ?_) fun he => h he.1
        obtain ⟨k, -, hk⟩ := Option.map_eq_some_iff.1 he
        exact absurd hk (Nat.succ_ne_zero k)
      | succ i =>
        rw [Option.map_eq_some_iff]
        constructor
        · rintro ⟨k, hk, hki⟩
          obtain rfl := Nat.succ.inj hki
          obtain ⟨hat, hmin⟩ := ih.1 hk
          refine ⟨hat, fun j hj => ?_⟩
          cases j with
          | zero => exact h
          | succ j => exact hmin j (by omega)
        · rintro ⟨hat, hmin⟩
          exact ⟨i, ih.2 ⟨hat, fun j hj => hmin (j + 1) (by omega)⟩, rfl⟩

theorem first_eq_none : first pat s = none ↔ Nowhere pat s := by
  constructor
  · intro h i hat
    -- a place that is not first has a first one before it
    induction i using Nat.strong_induction_on with
    | _ i ih =>
      refine absurd (first_eq_some.2 ⟨hat, fun j hj hj' => ih j hj hj'⟩) ?_
      rw [h]
      nofun
  · intro h
    cases hf : first pat s with
    | none => rfl
    | some i => exact absurd (first_eq_some.1 hf).1 (h i)

omit [DecidableEq α] in
private theorem at_drop {start : ℕ} : At pat (s.drop start) i ↔ At pat s (i + start) := by
  rw [At, At, drop_drop, Nat.add_comm]

theorem indexOf_eq_some {start : ℕ} :
    indexOf pat s start = some i ↔ start ≤ i ∧ At pat s i ∧ ∀ j, start ≤ j → j < i → ¬At pat s j := by
  rw [indexOf, Option.map_eq_some_iff]
  constructor
  · rintro ⟨k, hk, rfl⟩
    obtain ⟨hat, hmin⟩ := first_eq_some.1 hk
    refine ⟨Nat.le_add_left _ _, at_drop.1 hat, fun j hs hj h => hmin (j - start) (by omega) (at_drop.2 ?_)⟩
    rwa [Nat.sub_add_cancel hs]
  · rintro ⟨hs, hat, hmin⟩
    refine ⟨i - start, first_eq_some.2 ⟨at_drop.2 ?_, fun j hj h => ?_⟩, Nat.sub_add_cancel hs⟩
    · rwa [Nat.sub_add_cancel hs]
    · exact hmin (j + start) (Nat.le_add_left _ _) (by omega) (at_drop.1 h)

theorem indexOf_eq_none {start : ℕ} : indexOf pat s start = none ↔ ∀ j, start ≤ j → ¬At pat s j := by
  rw [indexOf, Option.map_eq_none_iff, first_eq_none]
  constructor
  · intro h j hs hat
    refine h (j - start) (at_drop.2 ?_)
    rwa [Nat.sub_add_cancel hs]
  · intro h j hat
    exact h _ (Nat.le_add_left _ _) (at_drop.1 hat)

/-- A pattern with one place is found there from any start before it. -/
theorem Once.indexOf {start : ℕ} (h : Once pat s i) (hs : start ≤ i) : indexOf pat s start = some i :=
  indexOf_eq_some.2 ⟨hs, h.1, fun _ _ hj hat => absurd (h.2 _ hat) (Nat.ne_of_lt hj)⟩

/-- A pattern with one place is not found after it. -/
theorem Once.indexOf_after {start : ℕ} (h : Once pat s i) (hs : i < start) :
    Occurs.indexOf pat s start = none :=
  indexOf_eq_none.2 fun _ hj hat => absurd (h.2 _ hat) (Nat.ne_of_gt (Nat.lt_of_lt_of_le hs hj))

/-- A first place after which the pattern is not found is its only one. -/
theorem once_of_indexOf (h : indexOf pat s 0 = some i) (h' : indexOf pat s (i + 1) = none) : Once pat s i := by
  obtain ⟨-, hat, hmin⟩ := indexOf_eq_some.1 h
  refine ⟨hat, fun j hj => Nat.le_antisymm ?_ ?_⟩
  · exact Nat.le_of_not_lt fun hlt => indexOf_eq_none.1 h' j hlt hj
  · exact Nat.le_of_not_lt fun hlt => hmin j (Nat.zero_le j) hlt hj

end

end Occurs

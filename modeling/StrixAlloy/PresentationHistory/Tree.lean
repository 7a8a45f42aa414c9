import Mathlib.Data.List.TakeWhile
import StrixAlloy.PresentationHistory.Json

/-!
# JSON as it is written

A JSON text with all the members that its objects are written with, where `JSON.parse` keeps the last of those
with one key. `parse` is the tree with its members merged (`parse_eq`), and a tree whose keys are different is
what `parse` gives. The texts of a number and of a string are read alike wherever they stand.
-/

namespace StrixAlloy.PresentationHistory

open List hiding map_map
open Option

mutual

/-- A value of the grammar at the beginning of a text, and what follows. -/
def readTree : ℕ → JsStr → Option (Value CodeUnit × JsStr)
  | 0, _ => none
  | fuel + 1, s =>
    match skip s with
    | [] => none
    | u :: r =>
      if u = unit '"' then (readUnits .plain r).map fun p => (.str p.1, p.2)
      else if u = unit '[' then
        match skip r with
        | [] => none
        | v :: r' =>
          if v = unit ']' then some (.list [], r')
          else (readTrees fuel r).map fun p => (.list p.1, p.2)
      else if u = unit '{' then
        match skip r with
        | [] => none
        | v :: r' =>
          if v = unit '}' then some (.dict [], r')
          else (readFields fuel r).map fun p => (.dict p.1, p.2)
      else if js "null" <+: u :: r then some (.null, (u :: r).drop 4)
      else if js "true" <+: u :: r then some (.bool true, (u :: r).drop 4)
      else if js "false" <+: u :: r then some (.bool false, (u :: r).drop 5)
      else readNumber (u :: r)

/-- The items of an array, with its closing bracket. -/
def readTrees : ℕ → JsStr → Option (List (Value CodeUnit) × JsStr)
  | 0, _ => none
  | fuel + 1, s => do
    let (v, r) ← readTree fuel s
    match skip r with
    | [] => none
    | u :: r =>
      if u = unit ',' then (readTrees fuel r).map fun p => (v :: p.1, p.2)
      else if u = unit ']' then some ([v], r)
      else none

/-- The members of an object, with its closing brace. -/
def readFields : ℕ → JsStr → Option (List (JsStr × Value CodeUnit) × JsStr)
  | 0, _ => none
  | fuel + 1, s =>
    match skip s with
    | [] => none
    | u :: r =>
      if u ≠ unit '"' then none
      else do
        let (k, r) ← readUnits .plain r
        match skip r with
        | [] => none
        | u :: r =>
          if u ≠ unit ':' then none
          else do
            let (v, r) ← readTree fuel r
            match skip r with
            | [] => none
            | u :: r =>
              if u = unit ',' then (readFields fuel r).map fun p => ((k, v) :: p.1, p.2)
              else if u = unit '}' then some ([(k, v)], r)
              else none

end

/-- The tree of a JSON text; nothing where it is none. -/
def tree (s : JsStr) : Option (Value CodeUnit) :=
  match readTree s.length s with
  | some (v, r) => if (skip r).isEmpty then some v else none
  | none => none

/-! ## Members merged -/

namespace Value

mutual

/-- A tree in which the last member of a key is kept, in the place of the first. -/
def merged : Value CodeUnit → Value CodeUnit
  | .list items => .list (mergedItems items)
  | .dict members => .dict ((mergedMembers members).foldl putMember [])
  | .null => .null
  | .bool b => .bool b
  | .int n => .int n
  | .float x => .float x
  | .str s => .str s

def mergedItems : List (Value CodeUnit) → List (Value CodeUnit)
  | [] => []
  | v :: vs => merged v :: mergedItems vs

def mergedMembers : List (JsStr × Value CodeUnit) → List (JsStr × Value CodeUnit)
  | [] => []
  | (k, v) :: ms => (k, merged v) :: mergedMembers ms

end

mutual

theorem merged_of_unique : ∀ v : Value CodeUnit, v.unique → v.merged = v
  | .null, _ => rfl
  | .bool _, _ => rfl
  | .int _, _ => rfl
  | .float _, _ => rfl
  | .str _, _ => rfl
  | .list items, h => congrArg Value.list (mergedItems_of_unique items h)
  | .dict members, h => by
    simp only [unique, Bool.and_eq_true, decide_eq_true_eq] at h
    have hput : members.foldl putMember [] = [] ++ members := foldl_putMember h.1
    rw [merged, mergedMembers_of_unique members h.2, hput, nil_append]

theorem mergedItems_of_unique : ∀ vs : List (Value CodeUnit), uniqueItems vs → mergedItems vs = vs
  | [], _ => rfl
  | v :: vs, h => by
    simp only [uniqueItems, Bool.and_eq_true] at h
    rw [mergedItems, merged_of_unique v h.1, mergedItems_of_unique vs h.2]

theorem mergedMembers_of_unique : ∀ ms : List (JsStr × Value CodeUnit), uniqueMembers ms → mergedMembers ms = ms
  | [], _ => rfl
  | (k, v) :: ms, h => by
    simp only [uniqueMembers, Bool.and_eq_true] at h
    rw [mergedMembers, merged_of_unique v h.1, mergedMembers_of_unique ms h.2]

end

end Value

variable {r s : JsStr}

theorem readMagnitude_cases {negative : Bool} {v : Value CodeUnit} (h : readMagnitude negative s = some (v, r)) :
    (∃ n, v = .int n) ∨ ∃ x, v = .float x := by
  have hnumeral : ∀ {n : ℚ} {v : Value CodeUnit}, (if n.den = 1 then .int n.num else .float n) = v →
      (∃ n, v = .int n) ∨ ∃ x, v = .float x := by
    intro n v h
    split_ifs at h
    · exact .inl ⟨_, h.symm⟩
    · exact .inr ⟨_, h.symm⟩
  unfold readMagnitude at h
  dsimp only at h
  split at h
  · cases h
  obtain ⟨⟨fraction, r1⟩, -, h⟩ := bind_eq_some_iff.1 h
  obtain ⟨⟨exponent, r2⟩, -, h⟩ := bind_eq_some_iff.1 h
  exact hnumeral (Prod.mk.inj (Option.some.inj h)).1

theorem readNumber_cases {v : Value CodeUnit} (h : readNumber s = some (v, r)) :
    (∃ n, v = .int n) ∨ ∃ x, v = .float x := by
  unfold readNumber at h
  split_ifs at h <;> exact readMagnitude_cases h

theorem readNumber_merged {v : Value CodeUnit} (h : readNumber s = some (v, r)) : v.merged = v := by
  rcases readNumber_cases h with ⟨n, rfl⟩ | ⟨x, rfl⟩ <;> rfl

/-- Every reader of `JSON.parse` reads the tree. -/
theorem read_eq (fuel : ℕ) :
    (∀ s, readValue fuel s = (readTree fuel s).map fun p => (p.1.merged, p.2)) ∧
    (∀ s, readItems fuel s = (readTrees fuel s).map fun p => (Value.mergedItems p.1, p.2)) ∧
    ∀ s, readMembers fuel s = (readFields fuel s).map fun p => (Value.mergedMembers p.1, p.2) := by
  induction fuel with
  | zero => exact ⟨fun _ => rfl, fun _ => rfl, fun _ => rfl⟩
  | succ fuel ih =>
    obtain ⟨ihv, ihi, ihm⟩ := ih
    refine ⟨fun s => ?_, fun s => ?_, fun s => ?_⟩
    · rw [readValue, readTree]
      cases skip s with
      | nil => rfl
      | cons u r =>
        dsimp only
        split_ifs
        · rw [map_map]
          rfl
        · cases skip r with
          | nil => rfl
          | cons =>
            dsimp only
            split_ifs
            · rfl
            · rw [ihi, map_map, map_map]
              rfl
        · cases skip r with
          | nil => rfl
          | cons =>
            dsimp only
            split_ifs
            · rfl
            · rw [ihm, map_map, map_map]
              rfl
        · rfl
        · rfl
        · rfl
        · cases h : readNumber (u :: r) with
          | none => rfl
          | some => rw [map_some, readNumber_merged h]
    · rw [readItems, readTrees, ihv]
      cases readTree fuel s with
      | none => rfl
      | some p =>
        simp only [map_some, bind_eq_bind, bind_some]
        cases skip p.2 with
        | nil => rfl
        | cons =>
          dsimp only
          split_ifs
          · rw [ihi, map_map, map_map]
            rfl
          · rfl
          · rfl
    · rw [readMembers, readFields]
      cases skip s with
      | nil => rfl
      | cons u r =>
        dsimp only
        split_ifs
        · rfl
        cases readUnits .plain r with
        | none => rfl
        | some p =>
          simp only [bind_eq_bind, bind_some]
          cases skip p.2 with
          | nil => rfl
          | cons u r =>
            dsimp only
            split_ifs
            · rfl
            rw [ihv]
            cases readTree fuel r with
            | none => rfl
            | some q =>
              simp only [map_some, bind_some]
              cases skip q.2 with
              | nil => rfl
              | cons =>
                dsimp only
                split_ifs
                · rw [ihm, map_map, map_map]
                  rfl
                · rfl
                · rfl

/-- `JSON.parse` is the tree with its members merged. -/
theorem parse_eq (s : JsStr) : parse s = (tree s).map Value.merged := by
  unfold parse tree
  rw [(read_eq s.length).1]
  cases readTree s.length s with
  | none => rfl
  | some =>
    simp only [map_some]
    split_ifs <;> rfl

/-! ## The texts of strings and of numbers -/

/-- A string is read up to its quote, whatever follows. -/
theorem readUnits_text {m : Mode} {k : JsStr} (h : readUnits m s = some (k, r)) :
    ∃ t, s = t ++ r ∧ ∀ r', readUnits m (t ++ r') = some (k, r') := by
  fun_induction readUnits m s generalizing k with
  | case1 => cases h
  | case2 =>
    cases h
    exact ⟨[unit '"'], rfl, fun _ => if_pos rfl⟩
  | case3 => cases h
  | case4 s _ _ ih =>
    obtain ⟨t, rfl, ht⟩ := ih h
    refine ⟨unit '\\' :: t, rfl, fun r' => ?_⟩
    rw [cons_append, readUnits, if_neg (by decide), if_neg (by decide), if_pos rfl, ht]
  | case5 u s hu hlow hback ih =>
    obtain ⟨⟨k', r''⟩, hread, ⟨⟩⟩ := map_eq_some_iff.1 h
    obtain ⟨t, rfl, ht⟩ := ih hread
    refine ⟨u :: t, rfl, fun r' => ?_⟩
    rw [cons_append, readUnits, if_neg hu, if_neg hlow, if_neg hback, ht, map_some]
  | case6 s ih =>
    obtain ⟨t, rfl, ht⟩ := ih h
    refine ⟨unit 'u' :: t, rfl, fun r' => ?_⟩
    rw [cons_append, readUnits, if_pos rfl, ht]
  | case7 u s hu v hv ih =>
    obtain ⟨⟨k', r''⟩, hread, ⟨⟩⟩ := map_eq_some_iff.1 h
    obtain ⟨t, rfl, ht⟩ := ih hread
    refine ⟨u :: t, rfl, fun r' => ?_⟩
    rw [cons_append, readUnits, if_neg hu]
    simp only [hv, ht, map_some]
  | case8 => cases h
  | case9 => cases h
  | case10 value u s d hd ih =>
    obtain ⟨⟨k', r''⟩, hread, ⟨⟩⟩ := map_eq_some_iff.1 h
    obtain ⟨t, rfl, ht⟩ := ih hread
    refine ⟨u :: t, rfl, fun r' => ?_⟩
    simp only [cons_append, readUnits, hd, ht, map_some]
  | case11 value u s d n hd ih =>
    obtain ⟨t, rfl, ht⟩ := ih h
    refine ⟨u :: t, rfl, fun r' => ?_⟩
    simp only [cons_append, readUnits, hd, ht]

/-- What a number is written with. -/
def isNumeric (u : CodeUnit) : Bool := isDigitUnit u || [unit '-', unit '+', unit '.', unit 'e', unit 'E'].elem u

theorem isDigitUnit_takeWhile : ∀ u ∈ s.takeWhile isDigitUnit, isDigitUnit u :=
  fun _ hu => mem_takeWhile_imp hu

/-- The digits at the beginning of a text, where something else follows them. -/
theorem digits_append {t : JsStr} (ht : ∀ u ∈ t, isDigitUnit u) (hr : ∀ u ∈ r.head?, isDigitUnit u = false) :
    (t ++ r).takeWhile isDigitUnit = t ∧ (t ++ r).dropWhile isDigitUnit = r := by
  rw [takeWhile_append_of_pos ht, dropWhile_append_of_pos ht]
  cases r with
  | nil => exact ⟨append_nil _, rfl⟩
  | cons u =>
    have hu : ¬isDigitUnit u := by
      rw [hr u rfl]
      exact Bool.false_ne_true
    rw [takeWhile_cons_of_neg hu, dropWhile_cons_of_neg hu]
    exact ⟨append_nil _, rfl⟩

theorem takeWhile_digits (s : JsStr) :
    (s.takeWhile isDigitUnit).takeWhile isDigitUnit = s.takeWhile isDigitUnit ∧
      (s.takeWhile isDigitUnit).dropWhile isDigitUnit = [] := by
  have h := digits_append (t := s.takeWhile isDigitUnit) (r := []) isDigitUnit_takeWhile nofun
  rwa [append_nil] at h

theorem isNumeric_of_digit {u : CodeUnit} (h : isDigitUnit u) : isNumeric u := by
  rw [isNumeric, h, Bool.true_or]

theorem readExponent_text {e : ℤ} (h : readExponent s = some (e, r)) :
    ∃ t, s = t ++ r ∧ (∀ u ∈ t, isNumeric u) ∧ readExponent t = some (e, []) ∧
      ∀ u ∈ t.head?, isDigitUnit u = false ∧ u ≠ unit '.' := by
  match s, h with
  | [], h =>
    cases h
    exact ⟨[], rfl, nofun, rfl, nofun⟩
  | u :: s, h =>
    unfold readExponent at h
    dsimp only at h
    by_cases hu : u ≠ unit 'e' ∧ u ≠ unit 'E'
    · rw [if_pos hu] at h
      cases h
      exact ⟨[], rfl, nofun, rfl, nofun⟩
    rw [if_neg hu] at h
    have hletter : isNumeric u ∧ isDigitUnit u = false ∧ u ≠ unit '.' := by
      rw [not_and_or, not_not, not_not] at hu
      rcases hu with rfl | rfl <;> decide
    match s, h with
    | [], h => cases h
    | v :: s, h =>
      -- the text of the exponent is the letter, the next unit and the digits after it
      simp only [List.head?_cons, Option.some.injEq, tail_cons] at h
      obtain ⟨htake, hdrop⟩ := takeWhile_digits s
      have hmem : isNumeric v → ∀ w ∈ u :: v :: s.takeWhile isDigitUnit, isNumeric w := by
        intro hv w hw
        rcases mem_cons.1 hw with rfl | hw
        · exact hletter.1
        · rcases mem_cons.1 hw with rfl | hw
          · exact hv
          · exact isNumeric_of_digit (isDigitUnit_takeWhile w hw)
      have hhead : ∀ w ∈ (u :: v :: s.takeWhile isDigitUnit).head?, isDigitUnit w = false ∧ w ≠ unit '.' := by
        intro w hw
        cases hw
        exact hletter.2
      have happ : r = s.dropWhile isDigitUnit → u :: v :: s = u :: v :: s.takeWhile isDigitUnit ++ r := by
        rintro rfl
        rw [cons_append, cons_append, takeWhile_append_dropWhile]
      by_cases hv : v = unit '-' ∨ v = unit '+'
      · rw [if_pos hv] at h
        split at h
        · cases h
        rename_i hne
        cases h
        refine ⟨_, happ rfl, hmem (by rcases hv with rfl | rfl <;> decide), ?_, hhead⟩
        unfold readExponent
        simp only [List.head?_cons, Option.some.injEq, tail_cons]
        rw [if_neg hu, if_pos hv, htake, hdrop, if_neg hne]
      · rw [if_neg hv] at h
        by_cases hd : isDigitUnit v
        · rw [takeWhile_cons_of_pos hd, dropWhile_cons_of_pos hd, isEmpty_cons,
            if_neg Bool.false_ne_true] at h
          cases h
          refine ⟨_, happ rfl, hmem (isNumeric_of_digit hd), ?_, hhead⟩
          unfold readExponent
          simp only [List.head?_cons, Option.some.injEq, tail_cons]
          rw [if_neg hu, if_neg hv, takeWhile_cons_of_pos hd, dropWhile_cons_of_pos hd, htake, hdrop,
            isEmpty_cons, if_neg Bool.false_ne_true]
        · rw [takeWhile_cons_of_neg hd] at h
          cases h

theorem readFraction_text {f : JsStr} (h : readFraction s = some (f, r)) :
    ∃ t, s = t ++ r ∧ (∀ u ∈ t, isNumeric u) ∧ (∀ u ∈ t.head?, isDigitUnit u = false) ∧
      ∀ r', (∀ u ∈ r'.head?, isDigitUnit u = false ∧ u ≠ unit '.') → readFraction (t ++ r') = some (f, r') := by
  match s, h with
  | [], h =>
    cases h
    refine ⟨[], rfl, nofun, nofun, fun r' hr => ?_⟩
    match r', hr with
    | [], _ => rfl
    | v :: r', hr => exact if_pos (hr v rfl).2
  | u :: s, h =>
    unfold readFraction at h
    dsimp only at h
    by_cases hu : u ≠ unit '.'
    · rw [if_pos hu] at h
      cases h
      refine ⟨[], rfl, nofun, nofun, fun r' hr => ?_⟩
      match r', hr with
      | [], _ => rfl
      | v :: r', hr => exact if_pos (hr v rfl).2
    rw [if_neg hu] at h
    split at h
    · cases h
    rename_i hne
    cases h
    rw [not_not] at hu
    subst hu
    refine ⟨unit '.' :: s.takeWhile isDigitUnit, ?_, fun w hw => ?_, fun w hw => ?_, fun r' hr => ?_⟩
    · rw [cons_append, takeWhile_append_dropWhile]
    · rcases mem_cons.1 hw with rfl | hw
      · decide
      · exact isNumeric_of_digit (isDigitUnit_takeWhile w hw)
    · cases hw
      decide
    · obtain ⟨htake, hdrop⟩ := digits_append isDigitUnit_takeWhile fun w hw => (hr w hw).1
      unfold readFraction
      dsimp only [cons_append]
      rw [if_neg (not_not.2 rfl), htake, hdrop, if_neg hne]

theorem readMagnitude_text {negative : Bool} {v : Value CodeUnit} (h : readMagnitude negative s = some (v, r)) :
    ∃ u t, s = u :: t ++ r ∧ (∀ w ∈ u :: t, isNumeric w) ∧ isDigitUnit u ∧
      readMagnitude negative (u :: t) = some (v, []) := by
  unfold readMagnitude at h
  dsimp only at h
  split at h
  · cases h
  rename_i hwhole
  obtain ⟨⟨f, r1⟩, hf, h⟩ := bind_eq_some_iff.1 h
  obtain ⟨⟨e, r2⟩, he, h⟩ := bind_eq_some_iff.1 h
  obtain ⟨hv, rfl⟩ := Prod.mk.inj (Option.some.inj h)
  obtain ⟨tf, htf, hnf, hheadf, hreadf⟩ := readFraction_text hf
  obtain ⟨te, hte, hne, hreade, hheade⟩ := readExponent_text he
  have hfollows : ∀ w ∈ (tf ++ te).head?, isDigitUnit w = false := by
    intro w hw
    cases tf with
    | nil => exact (hheade w hw).1
    | cons => exact hheadf w hw
  obtain ⟨htake, hdrop⟩ := digits_append isDigitUnit_takeWhile hfollows
  have hsplit : s = s.takeWhile isDigitUnit ++ (tf ++ te) ++ r2 := by
    rw [append_assoc, append_assoc, ← hte, ← htf, takeWhile_append_dropWhile]
  obtain ⟨u, w, hw⟩ := exists_cons_of_ne_nil fun hnil => hwhole (.inl (isEmpty_iff.2 hnil))
  rw [hw] at hwhole hv htake hdrop hsplit
  have hdigits : ∀ x ∈ u :: w, isDigitUnit x := hw ▸ isDigitUnit_takeWhile
  refine ⟨u, w ++ (tf ++ te), hsplit, fun x hx => ?_, hdigits u mem_cons_self, ?_⟩
  · rw [← cons_append, mem_append, mem_append] at hx
    rcases hx with hx | hx | hx
    · exact isNumeric_of_digit (hdigits x hx)
    · exact hnf x hx
    · exact hne x hx
  · unfold readMagnitude
    dsimp only
    rw [← cons_append, htake, hdrop, if_neg hwhole, hreadf te hheade]
    simp only [bind_eq_bind, bind_some, hreade]
    rw [hv]

/-- A number is read alike where nothing follows. -/
theorem readNumber_text {v : Value CodeUnit} (h : readNumber s = some (v, r)) :
    ∃ u t, s = u :: t ++ r ∧ (∀ w ∈ u :: t, isNumeric w) ∧ (isDigitUnit u ∨ u = unit '-') ∧
      readNumber (u :: t) = some (v, []) := by
  unfold readNumber at h
  by_cases hs : s.head? = some (unit '-')
  · rw [if_pos hs] at h
    obtain ⟨u, t, htail, hnumeric, -, hread⟩ := readMagnitude_text h
    refine ⟨unit '-', u :: t, ?_, fun w hw => ?_, .inr rfl, ?_⟩
    · rw [← cons_head?_tail hs, htail]
      rfl
    · rcases mem_cons.1 hw with rfl | hw
      · decide
      · exact hnumeric w hw
    · rw [readNumber, List.head?_cons, if_pos rfl]
      exact hread
  · rw [if_neg hs] at h
    obtain ⟨u, t, htext, hnumeric, hdigit, hread⟩ := readMagnitude_text h
    refine ⟨u, t, htext, hnumeric, .inl hdigit, ?_⟩
    rw [readNumber, if_neg, hread]
    intro hu
    cases hu
    exact absurd hdigit (by decide)

end StrixAlloy.PresentationHistory

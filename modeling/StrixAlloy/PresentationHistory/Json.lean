import Mathlib.Algebra.Field.Rat
import Mathlib.Algebra.Order.Group.Nat
import StrixAlloy.PresentationHistory.Script

/-!
# JSON of the script

`JSON.parse` and `JSON.stringify` on texts of UTF-16 units. A number is read exactly, where the script rounds it to
a double. A number with a fraction is written by a function that is given (`fraction`); no text of this development
has one. What is written is read again with whatever quoting of strings, as long as a quoted string is read as it
is (`parse_write`).
-/

namespace StrixAlloy.PresentationHistory

open List

/-- A letter, digit or mark of the source. -/
def unit (c : Char) : CodeUnit := Fin.ofNat _ c.toNat

/-! ## Numbers -/

def isDigitUnit (u : CodeUnit) : Bool := 48 ≤ u.val && u.val ≤ 57

/-- `Number` of decimal digits. -/
def number (s : JsStr) : ℕ := s.foldl (fun n u => 10 * n + (u.val - 48)) 0

/-- A number as it is joined to a text. -/
def decimal (n : ℕ) : JsStr := js (String.ofList (Nat.toDigits 10 n))

def intText : ℤ → JsStr
  | .ofNat n => decimal n
  | .negSucc n => unit '-' :: decimal (n + 1)

theorem toNat_of_isDigit {c : Char} (h : c.isDigit) : 48 ≤ c.toNat ∧ c.toNat ≤ 57 := by
  simp only [Char.isDigit, Bool.and_eq_true, decide_eq_true_eq] at h
  exact h

theorem decimal_eq (n : ℕ) : decimal n = (Nat.toDigits 10 n).map unit := by
  rw [decimal, js_ofList, utf16, flatMap_map, map_eq_flatMap]
  refine flatMap_congr fun c hc => ?_
  obtain ⟨-, hle⟩ := toNat_of_isDigit (Nat.isDigit_of_mem_toDigits (by decide) (by decide) hc)
  have hlt : c.toNat < 0x10000 := by omega
  rw [units, dif_pos hlt]
  exact congrArg (fun u => [u]) (Fin.ext (Nat.mod_eq_of_lt hlt).symm)

theorem unit_val {n : ℕ} {c : Char} (h : c ∈ Nat.toDigits 10 n) :
    (unit c).val = c.toNat ∧ 48 ≤ c.toNat ∧ c.toNat ≤ 57 := by
  obtain ⟨hle, hge⟩ := toNat_of_isDigit (Nat.isDigit_of_mem_toDigits (by decide) (by decide) h)
  exact ⟨Nat.mod_eq_of_lt (by omega), hle, hge⟩

theorem isDigitUnit_of_mem {n : ℕ} {u : CodeUnit} (h : u ∈ decimal n) : isDigitUnit u := by
  rw [decimal_eq] at h
  obtain ⟨c, hc, rfl⟩ := mem_map.1 h
  obtain ⟨hval, hle, hge⟩ := unit_val hc
  rw [isDigitUnit, hval, Bool.and_eq_true, decide_eq_true_eq, decide_eq_true_eq]
  exact ⟨hle, hge⟩

theorem decimal_ne_nil (n : ℕ) : decimal n ≠ [] := by
  rw [decimal_eq]
  exact map_eq_nil_iff.not.2 Nat.toDigits_ne_nil

theorem number_decimal (n : ℕ) : number (decimal n) = n := by
  calc number (decimal n)
      = (Nat.toDigits 10 n).foldl (fun m c => 10 * m + ((unit c).val - 48)) 0 := by
        rw [decimal_eq, number, foldl_map]
    _ = Nat.ofDigitChars 10 (Nat.toDigits 10 n) 0 := by
        refine foldl_ext _ _ _ fun m c hc => ?_
        rw [(unit_val hc).1]
        rfl
    _ = n := Nat.ofDigitChars_ten_toDigits

/-- A number that is not zero does not begin with a zero. -/
theorem head_toDigits (n : ℕ) (h : 0 < n) : ∃ c rest, Nat.toDigits 10 n = c :: rest ∧ 49 ≤ c.toNat := by
  induction n using Nat.strong_induction_on with
  | _ n ih =>
    rw [Nat.toDigits_eq_if (by decide)]
    split_ifs with hn
    · have hdigit : ∀ m < 10, 0 < m → 49 ≤ m.digitChar.toNat := by decide
      exact ⟨n.digitChar, [], rfl, hdigit n hn h⟩
    · obtain ⟨c, rest, he, hc⟩ := ih (n / 10) (Nat.div_lt_self h (by decide)) (by omega)
      exact ⟨c, rest ++ [Nat.digitChar (n % 10)], by rw [he, cons_append], hc⟩

/-- The fraction of a number, without its point. -/
def readFraction : JsStr → Option (JsStr × JsStr)
  | [] => some ([], [])
  | u :: r =>
    if u ≠ unit '.' then some ([], u :: r)
    else if (r.takeWhile isDigitUnit).isEmpty then none
    else some (r.takeWhile isDigitUnit, r.dropWhile isDigitUnit)

def readExponent : JsStr → Option (ℤ × JsStr)
  | [] => some (0, [])
  | u :: r =>
    if u ≠ unit 'e' ∧ u ≠ unit 'E' then some (0, u :: r)
    else
      let negative := r.head? = some (unit '-')
      let digits := if negative ∨ r.head? = some (unit '+') then r.tail else r
      if (digits.takeWhile isDigitUnit).isEmpty then none
      else
        let n : ℤ := number (digits.takeWhile isDigitUnit)
        some (if negative then -n else n, digits.dropWhile isDigitUnit)

/-- A number without its sign. -/
def readMagnitude (negative : Bool) (s : JsStr) : Option (Value CodeUnit × JsStr) := do
  let whole := s.takeWhile isDigitUnit
  if whole.isEmpty ∨ (1 < whole.length ∧ whole.head? = some (unit '0')) then none
  else do
    let (fraction, r) ← readFraction (s.dropWhile isDigitUnit)
    let (exponent, r) ← readExponent r
    let n : ℚ := number (whole ++ fraction) * (10 : ℚ) ^ (exponent - fraction.length)
    let n := if negative then -n else n
    some (if n.den = 1 then .int n.num else .float n, r)

def readNumber (s : JsStr) : Option (Value CodeUnit × JsStr) :=
  if s.head? = some (unit '-') then readMagnitude true s.tail else readMagnitude false s

/-! ## Strings -/

def hexDigit? (u : CodeUnit) : Option ℕ :=
  if 48 ≤ u.val ∧ u.val ≤ 57 then some (u.val - 48)
  else if 97 ≤ u.val ∧ u.val ≤ 102 then some (u.val - 87)
  else if 65 ≤ u.val ∧ u.val ≤ 70 then some (u.val - 55)
  else none

/-- What stands for itself or for a control character behind a backslash. -/
def unescape (u : CodeUnit) : Option CodeUnit :=
  if u = unit '"' ∨ u = unit '\\' ∨ u = unit '/' then some u
  else if u = unit 'b' then some 8
  else if u = unit 'f' then some 12
  else if u = unit 'n' then some 10
  else if u = unit 'r' then some 13
  else if u = unit 't' then some 9
  else none

/-- Where a reader stands in a string. -/
inductive Mode where
  | plain
  | escape
  /-- `digits` more follow after the next hexadecimal digit. -/
  | hex (digits value : ℕ)

/-- The units of a string up to its closing quote, and what follows. -/
def readUnits : Mode → JsStr → Option (JsStr × JsStr)
  | _, [] => none
  | .plain, u :: r =>
    if u = unit '"' then some ([], r)
    else if u.val < 32 then none
    else if u = unit '\\' then readUnits .escape r
    else (readUnits .plain r).map fun p => (u :: p.1, p.2)
  | .escape, u :: r =>
    if u = unit 'u' then readUnits (.hex 3 0) r
    else match unescape u with
      | some v => (readUnits .plain r).map fun p => (v :: p.1, p.2)
      | none => none
  | .hex digits value, u :: r =>
    match hexDigit? u, digits with
    | none, _ => none
    | some d, 0 => (readUnits .plain r).map fun p => (Fin.ofNat _ (16 * value + d) :: p.1, p.2)
    | some d, n + 1 => readUnits (.hex n (16 * value + d)) r

/-! ## `JSON.parse` -/

def skip (s : JsStr) : JsStr := s.dropWhile fun u => u.val = 9 || u.val = 10 || u.val = 13 || u.val = 32

/-- A member put into an object, in the place of one with its key. -/
def putMember (members : List (JsStr × Value CodeUnit)) (m : JsStr × Value CodeUnit) :
    List (JsStr × Value CodeUnit) :=
  if members.any fun n => n.1 = m.1 then members.map fun n => if n.1 = m.1 then m else n else members ++ [m]

mutual

def readValue : ℕ → JsStr → Option (Value CodeUnit × JsStr)
  | 0, _ => none
  | fuel + 1, s =>
    match skip s with
    | [] => none
    | u :: r =>
      if u = unit '"' then (readUnits .plain r).map fun p => (.str p.1, p.2)
      else if u = unit '[' then
        match skip r with
        | [] => none
        | v :: r' =>
          if v = unit ']' then some (.list [], r')
          else (readItems fuel r).map fun p => (.list p.1, p.2)
      else if u = unit '{' then
        match skip r with
        | [] => none
        | v :: r' =>
          if v = unit '}' then some (.dict [], r')
          else (readMembers fuel r).map fun p => (.dict (p.1.foldl putMember []), p.2)
      else if js "null" <+: u :: r then some (.null, (u :: r).drop 4)
      else if js "true" <+: u :: r then some (.bool true, (u :: r).drop 4)
      else if js "false" <+: u :: r then some (.bool false, (u :: r).drop 5)
      else readNumber (u :: r)

/-- The items of an array, with its closing bracket. -/
def readItems : ℕ → JsStr → Option (List (Value CodeUnit) × JsStr)
  | 0, _ => none
  | fuel + 1, s => do
    let (v, r) ← readValue fuel s
    match skip r with
    | [] => none
    | u :: r =>
      if u = unit ',' then (readItems fuel r).map fun p => (v :: p.1, p.2)
      else if u = unit ']' then some ([v], r)
      else none

/-- The members of an object, with its closing brace. -/
def readMembers : ℕ → JsStr → Option (List (JsStr × Value CodeUnit) × JsStr)
  | 0, _ => none
  | fuel + 1, s =>
    match skip s with
    | [] => none
    | u :: r =>
      if u ≠ unit '"' then none
      else do
        let (k, r) ← readUnits .plain r
        match skip r with
        | [] => none
        | u :: r =>
          if u ≠ unit ':' then none
          else do
            let (v, r) ← readValue fuel r
            match skip r with
            | [] => none
            | u :: r =>
              if u = unit ',' then (readMembers fuel r).map fun p => ((k, v) :: p.1, p.2)
              else if u = unit '}' then some ([(k, v)], r)
              else none

end

/-- `JSON.parse`; nothing where it throws. -/
def parse (s : JsStr) : Option (Value CodeUnit) :=
  match readValue s.length s with
  | some (v, r) => if (skip r).isEmpty then some v else none
  | none => none

/-! ## `JSON.stringify` -/

section

variable (quote : JsStr → JsStr) (fraction : ℚ → JsStr)

mutual

/-- The text of a value, with a quoting of strings. -/
def write : Value CodeUnit → JsStr
  | .null => js "null"
  | .bool true => js "true"
  | .bool false => js "false"
  | .int n => intText n
  | .float x => fraction x
  | .str s => unit '"' :: (quote s ++ [unit '"'])
  | .list [] => [unit '[', unit ']']
  | .list (v :: vs) => unit '[' :: (write v ++ writeItems vs)
  | .dict [] => [unit '{', unit '}']
  | .dict ((k, v) :: ms) =>
    unit '{' :: unit '"' :: (quote k ++ unit '"' :: unit ':' :: (write v ++ writeMembers ms))

/-- The items after the first, with the closing bracket. -/
def writeItems : List (Value CodeUnit) → JsStr
  | [] => [unit ']']
  | v :: vs => unit ',' :: (write v ++ writeItems vs)

/-- The members after the first, with the closing brace. -/
def writeMembers : List (JsStr × Value CodeUnit) → JsStr
  | [] => [unit '}']
  | (k, v) :: ms =>
    unit ',' :: unit '"' :: (quote k ++ unit '"' :: unit ':' :: (write v ++ writeMembers ms))

end

end

/-- The digit of a number below sixteen. -/
def hexUnit (n : ℕ) : CodeUnit := unit (Nat.digitChar n)

/-- `\uXXXX`. -/
def hexEscape (u : CodeUnit) : JsStr :=
  [unit '\\', unit 'u', hexUnit (u.val / 4096), hexUnit (u.val / 256 % 16), hexUnit (u.val / 16 % 16),
    hexUnit (u.val % 16)]

def quoteUnit (u : CodeUnit) : JsStr :=
  if u = unit '"' ∨ u = unit '\\' then [unit '\\', u]
  else if u.val = 8 then [unit '\\', unit 'b']
  else if u.val = 9 then [unit '\\', unit 't']
  else if u.val = 10 then [unit '\\', unit 'n']
  else if u.val = 12 then [unit '\\', unit 'f']
  else if u.val = 13 then [unit '\\', unit 'r']
  else if u.val < 32 then hexEscape u
  else [u]

/-- The units of a string in quotes; a surrogate alone is escaped. -/
def quoteUnits : JsStr → JsStr
  | [] => []
  | [u] => if isHigh u || isLow u then hexEscape u else quoteUnit u
  | u :: v :: rest =>
    if isHigh u && isLow v then u :: v :: quoteUnits rest
    else if isHigh u || isLow u then hexEscape u ++ quoteUnits (v :: rest)
    else quoteUnit u ++ quoteUnits (v :: rest)

/-- `JSON.stringify`. -/
def stringify (fraction : ℚ → JsStr) (v : Value CodeUnit) : JsStr := write quoteUnits fraction v

/-! ## What is written is read -/

/-- A text that ends or goes on behind a value. -/
def Follows (r : JsStr) : Prop := ∀ u ∈ r.head?, u = unit ',' ∨ u = unit ']' ∨ u = unit '}'

-- Makes the equations once, for all of the proofs.
attribute [local simp] readUnits readValue readItems readMembers readFraction readExponent readNumber quoteUnits
  quoteUnit hexEscape unescape write writeItems writeMembers in
theorem Follows.not_digit {r : JsStr} (h : Follows r) : ∀ u ∈ r.head?, isDigitUnit u = false := by
  intro u hu
  rcases h u hu with rfl | rfl | rfl <;> decide

theorem readFraction_follows {r : JsStr} (h : Follows r) : readFraction r = some ([], r) := by
  cases r with
  | nil => rfl
  | cons u r =>
    refine if_pos ?_
    rcases h u rfl with rfl | rfl | rfl <;> decide

theorem readExponent_follows {r : JsStr} (h : Follows r) : readExponent r = some (0, r) := by
  cases r with
  | nil => rfl
  | cons u r =>
    refine if_pos ?_
    rcases h u rfl with rfl | rfl | rfl <;> decide

theorem takeWhile_decimal {r : JsStr} (n : ℕ) (h : Follows r) :
    (decimal n ++ r).takeWhile isDigitUnit = decimal n ∧ (decimal n ++ r).dropWhile isDigitUnit = r := by
  have hdigits : ∀ u ∈ decimal n, isDigitUnit u := fun u hu => isDigitUnit_of_mem hu
  rw [takeWhile_append_of_pos hdigits, dropWhile_append_of_pos hdigits]
  cases r with
  | nil => exact ⟨append_nil _, rfl⟩
  | cons u r =>
    have hu : isDigitUnit u = false := h.not_digit u rfl
    rw [takeWhile_cons_of_neg (by rw [hu]; exact Bool.false_ne_true), append_nil,
      dropWhile_cons_of_neg (by rw [hu]; exact Bool.false_ne_true)]
    exact ⟨rfl, rfl⟩

/-- Only the text of zero begins with a zero. -/
theorem decimal_head (n : ℕ) : ¬(1 < (decimal n).length ∧ (decimal n).head? = some (unit '0')) := by
  rintro ⟨hlen, hhead⟩
  rcases Nat.eq_zero_or_pos n with rfl | hn
  · exact absurd hlen (by decide +kernel)
  · obtain ⟨c, rest, he, hc⟩ := head_toDigits n hn
    obtain ⟨hval, -⟩ := unit_val (he ▸ mem_cons_self)
    rw [decimal_eq, he] at hhead
    have hzero : (unit '0').val = 48 := rfl
    rw [← Option.some.inj hhead] at hzero
    omega

theorem readNumber_intText {r : JsStr} (n : ℤ) (h : Follows r) : readNumber (intText n ++ r) = some (.int n, r) := by
  have hplain : ∀ m, (decimal m ++ r).head? ≠ some (unit '-') := by
    intro m hhead
    obtain ⟨u, t, ht⟩ := exists_cons_of_ne_nil (decimal_ne_nil m)
    have hu := isDigitUnit_of_mem (ht ▸ mem_cons_self)
    rw [ht] at hhead
    rw [Option.some.inj hhead] at hu
    exact absurd hu (by decide)
  have hread : ∀ m, (decimal m).isEmpty = false := fun m => isEmpty_eq_false_iff.2 (decimal_ne_nil m)
  have hvalue : ∀ m : ℕ, (number (decimal m ++ []) : ℚ) * (10 : ℚ) ^ ((0 : ℤ) - ([] : JsStr).length) = m := by
    intro m
    rw [append_nil, number_decimal]
    simp
  cases n with
  | ofNat m =>
    obtain ⟨htake, hdrop⟩ := takeWhile_decimal m h
    simp only [readNumber, readMagnitude, intText, hplain, if_false, htake, hdrop, hread, decimal_head, or_self,
      Bool.false_eq_true, readFraction_follows h, readExponent_follows h, Option.bind_eq_bind, Option.bind_some,
      hvalue, Rat.den_natCast, Rat.num_natCast, if_true, Int.ofNat_eq_natCast]
  | negSucc m =>
    obtain ⟨htake, hdrop⟩ := takeWhile_decimal (m + 1) h
    simp only [readNumber, readMagnitude, intText, cons_append, List.head?_cons, if_true, tail_cons, htake, hdrop,
      hread, decimal_head, or_self, if_false, Bool.false_eq_true, readFraction_follows h, readExponent_follows h,
      Option.bind_eq_bind, Option.bind_some, hvalue, Rat.neg_den, Rat.neg_num, Rat.den_natCast, Rat.num_natCast,
      if_true]
    rfl

/-! ### Strings -/

/-- A text in a string that is read as one unit. -/
def ReadsAs (t : JsStr) (u : CodeUnit) : Prop :=
  ∀ r, readUnits .plain (t ++ r) = (readUnits .plain r).map fun p => (u :: p.1, p.2)

/-- A quoting that is read as the string. -/
def Quotes (quote : JsStr → JsStr) : Prop := ∀ s r, readUnits .plain (quote s ++ unit '"' :: r) = some (s, r)

theorem readsAs_self {u : CodeUnit} (hq : u ≠ unit '"') (hs : u ≠ unit '\\') (h : ¬u.val < 32) : ReadsAs [u] u := by
  intro r
  rw [singleton_append, readUnits, if_neg hq, if_neg h, if_neg hs]

theorem readsAs_surrogate {u : CodeUnit} (h : isHigh u || isLow u) : ReadsAs [u] u := by
  refine readsAs_self ?_ ?_ ?_
  · rintro rfl
    exact absurd h (by decide)
  · rintro rfl
    exact absurd h (by decide)
  · intro hlow
    simp only [isHigh, isLow, Bool.or_eq_true, Bool.and_eq_true, decide_eq_true_eq] at h
    omega

theorem hexDigit?_hexUnit {n : ℕ} (h : n < 16) : hexDigit? (hexUnit n) = some n := by
  have hall : ∀ m < 16, hexDigit? (hexUnit m) = some m := by decide
  exact hall n h

theorem readsAs_hexEscape (u : CodeUnit) : ReadsAs (hexEscape u) u := by
  intro r
  have hu := u.isLt
  have hfour : Fin.ofNat 0x10000 (16 * (16 * (16 * (16 * 0 + u.val / 4096) + u.val / 256 % 16) +
      u.val / 16 % 16) + u.val % 16) = u := by
    refine Fin.ext ?_
    rw [Fin.val_ofNat]
    omega
  rw [hexEscape]
  simp only [cons_append, nil_append]
  rw [readUnits, if_neg (by decide), if_neg (by decide), if_pos rfl, readUnits, if_pos rfl]
  simp only [readUnits, hexDigit?_hexUnit (show u.val / 4096 < 16 by omega),
    hexDigit?_hexUnit (show u.val / 256 % 16 < 16 by omega), hexDigit?_hexUnit (show u.val / 16 % 16 < 16 by omega),
    hexDigit?_hexUnit (show u.val % 16 < 16 by omega)]
  rw [hfour]

/-- An escape of one letter. -/
theorem readsAs_escape {u v : CodeUnit} (hu : u ≠ unit 'u') (h : unescape u = some v) :
    ReadsAs [unit '\\', u] v := by
  intro r
  simp only [cons_append, nil_append]
  rw [readUnits, if_neg (by decide), if_neg (by decide), if_pos rfl, readUnits, if_neg hu]
  simp only [h]

theorem readsAs_quoteUnit (u : CodeUnit) : ReadsAs (quoteUnit u) u := by
  have hval : ∀ {n : ℕ} (hn : n < 0x10000), u.val = n → (⟨n, hn⟩ : CodeUnit) = u := fun _ h => Fin.ext h.symm
  unfold quoteUnit
  split_ifs with hmark h8 h9 h10 h12 h13 hlow
  · rcases hmark with rfl | rfl
    · exact readsAs_escape (by decide) (by decide)
    · exact readsAs_escape (by decide) (by decide)
  · exact hval (by decide) h8 ▸ readsAs_escape (by decide) (by decide)
  · exact hval (by decide) h9 ▸ readsAs_escape (by decide) (by decide)
  · exact hval (by decide) h10 ▸ readsAs_escape (by decide) (by decide)
  · exact hval (by decide) h12 ▸ readsAs_escape (by decide) (by decide)
  · exact hval (by decide) h13 ▸ readsAs_escape (by decide) (by decide)
  · exact readsAs_hexEscape u
  · exact readsAs_self (fun h => hmark (.inl h)) (fun h => hmark (.inr h)) hlow

/-- Strings in which the quoted text is rewritten unit by unit. -/
theorem quotes_flatMap {g : CodeUnit → JsStr} (hunit : ∀ u, ReadsAs ((quoteUnit u).flatMap g) u)
    (hhex : ∀ u, ReadsAs ((hexEscape u).flatMap g) u)
    (hself : ∀ u, isHigh u || isLow u → ReadsAs ([u].flatMap g) u) :
    Quotes fun s => (quoteUnits s).flatMap g := by
  intro s r
  dsimp only
  have hclose : readUnits .plain (unit '"' :: r) = some ([], r) := if_pos rfl
  fun_induction quoteUnits s with
  | case1 => exact hclose
  | case2 u _ => rw [hhex u, hclose, Option.map_some]
  | case3 u _ => rw [hunit u, hclose, Option.map_some]
  | case4 u v rest h ih =>
    rw [Bool.and_eq_true] at h
    have hcons : (u :: v :: quoteUnits rest).flatMap g =
        [u].flatMap g ++ ([v].flatMap g ++ (quoteUnits rest).flatMap g) := by
      simp only [flatMap_cons, flatMap_nil, append_nil]
    rw [hcons, append_assoc, append_assoc, hself u (Bool.or_eq_true_iff.2 (.inl h.1)),
      hself v (Bool.or_eq_true_iff.2 (.inr h.2)), ih, Option.map_some, Option.map_some]
  | case5 u v rest _ _ ih => rw [flatMap_append, append_assoc, hhex u, ih, Option.map_some]
  | case6 u v rest _ _ ih => rw [flatMap_append, append_assoc, hunit u, ih, Option.map_some]

theorem quotes_quoteUnits : Quotes quoteUnits := by
  have hid : ∀ t : JsStr, t.flatMap (fun u => [u]) = t := fun t => flatMap_singleton' t
  have h := quotes_flatMap (fun u => by rw [hid]; exact readsAs_quoteUnit u)
    (fun u => by rw [hid]; exact readsAs_hexEscape u) fun u hu => by rw [hid]; exact readsAs_surrogate hu
  simpa only [hid] using h

/-! ### Values -/

namespace Value

mutual

/-- No number has a fraction. -/
def integral : Value CodeUnit → Bool
  | .float _ => false
  | .list items => integralItems items
  | .dict members => integralMembers members
  | _ => true

def integralItems : List (Value CodeUnit) → Bool
  | [] => true
  | v :: vs => integral v && integralItems vs

def integralMembers : List (JsStr × Value CodeUnit) → Bool
  | [] => true
  | (_, v) :: ms => integral v && integralMembers ms

end

end Value

/-- Members of other keys are put one behind the other. -/
theorem foldl_putMember {ms before : List (JsStr × Value CodeUnit)} (h : ((before ++ ms).map Prod.fst).Nodup) :
    ms.foldl putMember before = before ++ ms := by
  induction ms generalizing before with
  | nil => rw [foldl_nil, append_nil]
  | cons m ms ih =>
    have hnew : before.any (fun n => n.1 = m.1) = false := by
      rw [any_eq_false]
      intro n hn he
      rw [map_append, nodup_append] at h
      exact h.2.2 _ (mem_map_of_mem hn) _ (mem_map_of_mem mem_cons_self) (of_decide_eq_true he)
    rw [foldl_cons, putMember, if_neg (by rw [hnew]; exact Bool.false_ne_true), ih, append_assoc,
      singleton_append]
    rwa [append_assoc, singleton_append]

section

variable {quote : JsStr → JsStr} {fraction : ℚ → JsStr}

theorem intText_head (n : ℤ) : ∃ u t, intText n = u :: t ∧ (isDigitUnit u ∨ u = unit '-') := by
  cases n with
  | ofNat n =>
    obtain ⟨u, t, ht⟩ := exists_cons_of_ne_nil (decimal_ne_nil n)
    exact ⟨u, t, ht, .inl (isDigitUnit_of_mem (ht ▸ mem_cons_self))⟩
  | negSucc n => exact ⟨_, _, rfl, .inr rfl⟩

/-- A text without blanks at its beginning. -/
theorem skip_cons {u : CodeUnit} {r : JsStr} (h : 32 < u.val) : skip (u :: r) = u :: r := by
  refine dropWhile_cons_of_neg ?_
  simp only [Bool.or_eq_true, decide_eq_true_eq]
  omega

variable (quote fraction) in
/-- A value begins with no blank and no closing bracket. -/
theorem write_head {v : Value CodeUnit} (h : v.integral) :
    ∃ u t, write quote fraction v = u :: t ∧ 32 < u.val ∧ u ≠ unit ']' := by
  have hjs : ∀ s ∈ [js "null", js "true", js "false"], ∃ u t, s = u :: t ∧ 32 < u.val ∧ u ≠ unit ']' := by
    have hall : ∀ s ∈ [js "null", js "true", js "false"], s.head? ∈ [unit 'n', unit 't', unit 'f'].map some := by
      decide +kernel
    intro s hs
    obtain ⟨u, hu, hhead⟩ := mem_map.1 (hall s hs)
    refine ⟨u, s.tail, (cons_head?_tail hhead.symm).symm, ?_⟩
    simp only [mem_cons, not_mem_nil, or_false] at hu
    rcases hu with rfl | rfl | rfl <;> decide
  cases v with
  | null => exact hjs _ (by simp [write])
  | bool b => cases b <;> exact hjs _ (by simp [write])
  | float => cases h
  | int n =>
    obtain ⟨u, t, ht, hu⟩ := intText_head n
    refine ⟨u, t, ht, ?_⟩
    rcases hu with hu | rfl
    · simp only [isDigitUnit, Bool.and_eq_true, decide_eq_true_eq] at hu
      refine ⟨by omega, ?_⟩
      rintro rfl
      exact absurd hu (by decide)
    · decide
  | str => exact ⟨_, _, rfl, by decide, by decide⟩
  | list items => cases items <;> exact ⟨_, _, rfl, by decide, by decide⟩
  | dict members => rcases members with _ | ⟨⟨_, _⟩, _⟩ <;> exact ⟨_, _, rfl, by decide, by decide⟩

variable (quote fraction) in
theorem follows_items (vs : List (Value CodeUnit)) (r : JsStr) : Follows (writeItems quote fraction vs ++ r) := by
  intro u hu
  cases vs with
  | nil => exact .inr (.inl (Option.some.inj hu).symm)
  | cons v vs => exact .inl (Option.some.inj hu).symm

variable (quote fraction) in
theorem follows_members (ms : List (JsStr × Value CodeUnit)) (r : JsStr) :
    Follows (writeMembers quote fraction ms ++ r) := by
  intro u hu
  match ms with
  | [] => exact .inr (.inr (Option.some.inj hu).symm)
  | (_, _) :: _ => exact .inl (Option.some.inj hu).symm

theorem js_literals : js "null" = ['n', 'u', 'l', 'l'].map unit ∧ js "true" = ['t', 'r', 'u', 'e'].map unit ∧
    js "false" = ['f', 'a', 'l', 's', 'e'].map unit := by decide +kernel

theorem readValue_null (fuel : ℕ) (r : JsStr) : readValue (fuel + 1) (js "null" ++ r) = some (.null, r) := by
  have hskip : skip (js "null" ++ r) = unit 'n' :: (['u', 'l', 'l'].map unit ++ r) := by
    rw [js_literals.1]
    exact skip_cons (by decide)
  simp only [readValue, hskip]
  rw [if_neg (by decide), if_neg (by decide), if_neg (by decide), if_pos ⟨r, by rw [js_literals.1]; rfl⟩]
  rfl

theorem readValue_true (fuel : ℕ) (r : JsStr) : readValue (fuel + 1) (js "true" ++ r) = some (.bool true, r) := by
  have hskip : skip (js "true" ++ r) = unit 't' :: (['r', 'u', 'e'].map unit ++ r) := by
    rw [js_literals.2.1]
    exact skip_cons (by decide)
  have hnull : ¬js "null" <+: unit 't' :: (['r', 'u', 'e'].map unit ++ r) := by
    rw [js_literals.1]
    exact fun h => absurd (cons_prefix_cons.1 h).1 (by decide)
  simp only [readValue, hskip]
  rw [if_neg (by decide), if_neg (by decide), if_neg (by decide), if_neg hnull,
    if_pos ⟨r, by rw [js_literals.2.1]; rfl⟩]
  rfl

theorem readValue_false (fuel : ℕ) (r : JsStr) :
    readValue (fuel + 1) (js "false" ++ r) = some (.bool false, r) := by
  have hskip : skip (js "false" ++ r) = unit 'f' :: (['a', 'l', 's', 'e'].map unit ++ r) := by
    rw [js_literals.2.2]
    exact skip_cons (by decide)
  have hnull : ¬js "null" <+: unit 'f' :: (['a', 'l', 's', 'e'].map unit ++ r) := by
    rw [js_literals.1]
    exact fun h => absurd (cons_prefix_cons.1 h).1 (by decide)
  have htrue : ¬js "true" <+: unit 'f' :: (['a', 'l', 's', 'e'].map unit ++ r) := by
    rw [js_literals.2.1]
    exact fun h => absurd (cons_prefix_cons.1 h).1 (by decide)
  simp only [readValue, hskip]
  rw [if_neg (by decide), if_neg (by decide), if_neg (by decide), if_neg hnull, if_neg htrue,
    if_pos ⟨r, by rw [js_literals.2.2]; rfl⟩]
  rfl

theorem readValue_int (fuel : ℕ) (n : ℤ) {r : JsStr} (h : Follows r) :
    readValue (fuel + 1) (intText n ++ r) = some (.int n, r) := by
  obtain ⟨u, t, ht, hu⟩ := intText_head n
  have hne : ∀ v : CodeUnit, isDigitUnit v = false → v ≠ unit '-' → u ≠ v := by
    rintro v hd hm rfl
    rcases hu with hu | hu
    · rw [hd] at hu
      cases hu
    · exact hm hu
  have hlow : 32 < u.val := by
    rcases hu with hu | rfl
    · simp only [isDigitUnit, Bool.and_eq_true, decide_eq_true_eq] at hu
      omega
    · decide
  have hletter : ∀ {v : CodeUnit} {w : JsStr}, isDigitUnit v = false → v ≠ unit '-' → ¬v :: w <+: u :: (t ++ r) :=
    fun hd hm hp => hne _ hd hm (cons_prefix_cons.1 hp).1.symm
  have hnumber := readNumber_intText n h
  rw [ht, cons_append] at hnumber ⊢
  simp only [readValue, skip_cons hlow, hnumber]
  rw [if_neg (hne _ (by decide) (by decide)), if_neg (hne _ (by decide) (by decide)),
    if_neg (hne _ (by decide) (by decide)), if_neg (by rw [js_literals.1]; exact hletter (by decide) (by decide)),
    if_neg (by rw [js_literals.2.1]; exact hletter (by decide) (by decide)),
    if_neg (by rw [js_literals.2.2]; exact hletter (by decide) (by decide))]

theorem readValue_nil (fuel : ℕ) (r : JsStr) :
    readValue (fuel + 1) (unit '[' :: unit ']' :: r) = some (.list [], r) := by
  simp only [readValue, skip_cons (show 32 < (unit '[').val by decide), skip_cons (show 32 < (unit ']').val by decide)]
  rw [if_neg (by decide), if_pos trivial, if_pos trivial]

theorem readValue_items (fuel : ℕ) {u : CodeUnit} {t : JsStr} (hlow : 32 < u.val) (hu : u ≠ unit ']') :
    readValue (fuel + 1) (unit '[' :: u :: t) = (readItems fuel (u :: t)).map fun p => (.list p.1, p.2) := by
  simp only [readValue, skip_cons (show 32 < (unit '[').val by decide), skip_cons hlow]
  rw [if_neg (by decide), if_pos trivial, if_neg hu]

theorem readValue_empty (fuel : ℕ) (r : JsStr) :
    readValue (fuel + 1) (unit '{' :: unit '}' :: r) = some (.dict [], r) := by
  simp only [readValue, skip_cons (show 32 < (unit '{').val by decide), skip_cons (show 32 < (unit '}').val by decide)]
  rw [if_neg (by decide), if_neg (by decide), if_pos trivial, if_pos trivial]

theorem readValue_members (fuel : ℕ) (t : JsStr) : readValue (fuel + 1) (unit '{' :: unit '"' :: t) =
    (readMembers fuel (unit '"' :: t)).map fun p => (.dict (p.1.foldl putMember []), p.2) := by
  simp only [readValue, skip_cons (show 32 < (unit '{').val by decide), skip_cons (show 32 < (unit '"').val by decide)]
  rw [if_neg (by decide), if_neg (by decide), if_pos trivial, if_neg (by decide)]

/-- The last item. -/
theorem readItems_last {fuel : ℕ} {s r : JsStr} {v : Value CodeUnit}
    (h : readValue fuel s = some (v, unit ']' :: r)) : readItems (fuel + 1) s = some ([v], r) := by
  simp only [readItems, h, Option.bind_eq_bind, Option.bind_some, skip_cons (show 32 < (unit ']').val by decide)]
  rw [if_neg (by decide), if_pos trivial]

theorem readItems_more {fuel : ℕ} {s r r' : JsStr} {v : Value CodeUnit} {vs : List (Value CodeUnit)}
    (h : readValue fuel s = some (v, unit ',' :: r)) (h' : readItems fuel r = some (vs, r')) :
    readItems (fuel + 1) s = some (v :: vs, r') := by
  simp only [readItems, h, Option.bind_eq_bind, Option.bind_some, skip_cons (show 32 < (unit ',').val by decide),
    if_true, h', Option.map_some]

/-- The last member. -/
theorem readMembers_last {fuel : ℕ} {s t r : JsStr} {k : JsStr} {v : Value CodeUnit}
    (hk : readUnits .plain s = some (k, unit ':' :: t)) (h : readValue fuel t = some (v, unit '}' :: r)) :
    readMembers (fuel + 1) (unit '"' :: s) = some ([(k, v)], r) := by
  simp only [readMembers, hk, h, Option.bind_eq_bind, Option.bind_some, ne_eq, not_true, if_false,
    skip_cons (show 32 < (unit '"').val by decide), skip_cons (show 32 < (unit ':').val by decide),
    skip_cons (show 32 < (unit '}').val by decide)]
  rw [if_neg (by decide), if_pos trivial]

theorem readMembers_more {fuel : ℕ} {s t r r' : JsStr} {k : JsStr} {v : Value CodeUnit}
    {ms : List (JsStr × Value CodeUnit)} (hk : readUnits .plain s = some (k, unit ':' :: t))
    (h : readValue fuel t = some (v, unit ',' :: r)) (h' : readMembers fuel r = some (ms, r')) :
    readMembers (fuel + 1) (unit '"' :: s) = some ((k, v) :: ms, r') := by
  simp only [readMembers, hk, h, h', Option.bind_eq_bind, Option.bind_some, ne_eq, not_true, if_false, if_true,
    Option.map_some, skip_cons (show 32 < (unit '"').val by decide), skip_cons (show 32 < (unit ':').val by decide),
    skip_cons (show 32 < (unit ',').val by decide)]

variable (hq : Quotes quote)
include hq

theorem readValue_str (fuel : ℕ) (s r : JsStr) :
    readValue (fuel + 1) (unit '"' :: (quote s ++ [unit '"']) ++ r) = some (.str s, r) := by
  rw [cons_append, append_assoc, singleton_append]
  simp only [readValue, skip_cons (show 32 < (unit '"').val by decide), if_true, hq s r, Option.map_some]

set_option linter.unusedSectionVars false in
mutual

theorem readValue_write : ∀ (v : Value CodeUnit) {n : ℕ} {r : JsStr}, v.unique → v.integral → Follows r →
    (write quote fraction v).length ≤ n → readValue n (write quote fraction v ++ r) = some (v, r)
  | v, 0, r, _, hi, _, hlen => by
    obtain ⟨u, t, ht, -⟩ := write_head quote fraction hi
    rw [ht] at hlen
    exact absurd hlen (Nat.not_succ_le_zero _)
  | .null, fuel + 1, r, _, _, _, _ => readValue_null fuel r
  | .bool true, fuel + 1, r, _, _, _, _ => readValue_true fuel r
  | .bool false, fuel + 1, r, _, _, _, _ => readValue_false fuel r
  | .int n, fuel + 1, r, _, _, hr, _ => readValue_int fuel n hr
  | .float _, fuel + 1, r, _, hi, _, _ => nomatch hi
  | .str s, fuel + 1, r, _, _, _, _ => readValue_str hq fuel s r
  | .list [], fuel + 1, r, _, _, _, _ => readValue_nil fuel r
  | .list (v :: vs), fuel + 1, r, hu, hi, _, hlen => by
    simp only [Value.unique, Value.uniqueItems, Bool.and_eq_true] at hu
    simp only [Value.integral, Value.integralItems, Bool.and_eq_true] at hi
    rw [write, length_cons] at hlen
    have hread := readItems_write v vs (n := fuel) (r := r) hu.1 hi.1 hu.2 hi.2 (by omega)
    obtain ⟨u, t, ht, hlow, hu⟩ := write_head quote fraction hi.1
    rw [write, cons_append]
    rw [ht, cons_append, cons_append] at hread ⊢
    rw [readValue_items fuel hlow hu, hread, Option.map_some]
  | .dict [], fuel + 1, r, _, _, _, _ => readValue_empty fuel r
  | .dict ((k, v) :: ms), fuel + 1, r, hu, hi, _, hlen => by
    simp only [Value.unique, Value.uniqueMembers, Bool.and_eq_true, decide_eq_true_eq] at hu
    simp only [Value.integral, Value.integralMembers, Bool.and_eq_true] at hi
    rw [write, length_cons] at hlen
    have hread := readMembers_write k v ms (n := fuel) (r := r) hu.2.1 hi.1 hu.2.2 hi.2 (by omega)
    rw [write, cons_append, cons_append, readValue_members]
    rw [cons_append] at hread
    rw [hread, Option.map_some, foldl_putMember hu.1, nil_append]

theorem readItems_write : ∀ (v : Value CodeUnit) (vs : List (Value CodeUnit)) {n : ℕ} {r : JsStr}, v.unique →
    v.integral → Value.uniqueItems vs → Value.integralItems vs →
    (write quote fraction v ++ writeItems quote fraction vs).length ≤ n →
    readItems n (write quote fraction v ++ writeItems quote fraction vs ++ r) = some (v :: vs, r)
  | v, vs, 0, r, _, hi, _, _, hlen => by
    obtain ⟨u, t, ht, -⟩ := write_head quote fraction hi
    rw [ht] at hlen
    exact absurd hlen (Nat.not_succ_le_zero _)
  | v, [], fuel + 1, r, hu, hi, _, _, hlen => by
    rw [length_append, writeItems, length_singleton] at hlen
    have hread := readValue_write v (n := fuel) hu hi (follows_items quote fraction [] r) (by omega)
    rw [append_assoc]
    exact readItems_last hread
  | v, w :: vs, fuel + 1, r, hu, hi, hus, his, hlen => by
    simp only [Value.uniqueItems, Bool.and_eq_true] at hus
    simp only [Value.integralItems, Bool.and_eq_true] at his
    rw [length_append, writeItems, length_cons] at hlen
    have hread := readValue_write v (n := fuel) hu hi (follows_items quote fraction (w :: vs) r) (by omega)
    have hrest := readItems_write w vs (n := fuel) (r := r) hus.1 his.1 hus.2 his.2 (by omega)
    rw [append_assoc]
    exact readItems_more hread hrest

theorem readMembers_write : ∀ (k : JsStr) (v : Value CodeUnit) (ms : List (JsStr × Value CodeUnit)) {n : ℕ}
    {r : JsStr}, v.unique → v.integral → Value.uniqueMembers ms → Value.integralMembers ms →
    (unit '"' :: (quote k ++ unit '"' :: unit ':' ::
      (write quote fraction v ++ writeMembers quote fraction ms))).length ≤ n →
    readMembers n (unit '"' :: (quote k ++ unit '"' :: unit ':' ::
      (write quote fraction v ++ writeMembers quote fraction ms)) ++ r) = some ((k, v) :: ms, r)
  | k, v, ms, 0, r, _, _, _, _, hlen => absurd hlen (Nat.not_succ_le_zero _)
  | k, v, [], fuel + 1, r, hu, hi, _, _, hlen => by
    simp only [length_append, length_cons] at hlen
    have hread := readValue_write v (n := fuel) hu hi (follows_members quote fraction [] r) (by omega)
    simp only [cons_append, append_assoc]
    exact readMembers_last (hq k _) hread
  | k, v, (k', w) :: ms, fuel + 1, r, hu, hi, hus, his, hlen => by
    simp only [Value.uniqueMembers, Bool.and_eq_true] at hus
    simp only [Value.integralMembers, Bool.and_eq_true] at his
    simp only [length_append, length_cons, writeMembers] at hlen
    have hread := readValue_write v (n := fuel) hu hi (follows_members quote fraction ((k', w) :: ms) r) (by omega)
    have hrest := readMembers_write k' w ms (n := fuel) (r := r) hus.1 his.1 hus.2 his.2
      (by simp only [length_append, length_cons]; omega)
    simp only [cons_append, append_assoc]
    exact readMembers_more (hq k _) hread hrest

end

/-- A value without fractions that is written with a quoting is read again. -/
theorem parse_write (v : Value CodeUnit) (hu : v.unique) (hi : v.integral) :
    parse (write quote fraction v) = some v := by
  have h := readValue_write hq v (n := (write quote fraction v).length) (r := []) hu hi nofun le_rfl
  rw [append_nil] at h
  rw [parse, h]
  rfl

end

theorem parse_stringify (fraction : ℚ → JsStr) (v : Value CodeUnit) (hu : v.unique) (hi : v.integral) :
    parse (stringify fraction v) = some v := parse_write quotes_quoteUnits v hu hi

/-! ## A text rewritten unit by unit -/

/-- The units that stand outside of strings. -/
def isMark (u : CodeUnit) : Bool :=
  isDigitUnit u || (97 ≤ u.val && u.val ≤ 122) ||
    [unit '"', unit ':', unit ',', unit '[', unit ']', unit '{', unit '}', unit '-'].elem u

section

variable {quote : JsStr → JsStr} {fraction : ℚ → JsStr} {g : CodeUnit → JsStr} (hg : ∀ u, isMark u → g u = [u])
include hg

theorem flatMap_marks {s : JsStr} (h : s.all isMark) : s.flatMap g = s := by
  calc s.flatMap g = s.flatMap fun u => [u] := flatMap_congr fun u hu => hg u (all_eq_true.1 h u hu)
    _ = s := flatMap_singleton' s

theorem flatMap_intText (n : ℤ) : (intText n).flatMap g = intText n := by
  have hdecimal : ∀ m, (decimal m).all isMark := fun m => all_eq_true.2 fun u hu => by
    rw [isMark, isDigitUnit_of_mem hu, Bool.true_or, Bool.true_or]
  cases n with
  | ofNat m => exact flatMap_marks hg (hdecimal m)
  | negSucc m =>
    refine flatMap_marks hg ?_
    rw [intText, all_cons, hdecimal, Bool.and_true]
    decide

mutual

/-- Where only strings are rewritten, the rewritten text is that of another quoting. -/
theorem flatMap_write : ∀ v : Value CodeUnit, v.integral →
    (write quote fraction v).flatMap g = write (fun s => (quote s).flatMap g) fraction v
  | .null, _ => flatMap_marks hg (show (js "null").all isMark by decide +kernel)
  | .bool true, _ => flatMap_marks hg (show (js "true").all isMark by decide +kernel)
  | .bool false, _ => flatMap_marks hg (show (js "false").all isMark by decide +kernel)
  | .int n, _ => flatMap_intText hg n
  | .float _, hi => nomatch hi
  | .str s, _ => by
    simp only [write, flatMap_cons, flatMap_append, flatMap_nil, append_nil,
      hg (unit '"') (by decide), singleton_append]
  | .list [], _ => flatMap_marks hg (show [unit '[', unit ']'].all isMark by decide)
  | .list (v :: vs), hi => by
    simp only [Value.integral, Value.integralItems, Bool.and_eq_true] at hi
    simp only [write, flatMap_cons, flatMap_append, hg (unit '[') (by decide), singleton_append,
      flatMap_write v hi.1, flatMap_writeItems vs hi.2]
  | .dict [], _ => flatMap_marks hg (show [unit '{', unit '}'].all isMark by decide)
  | .dict ((k, v) :: ms), hi => by
    simp only [Value.integral, Value.integralMembers, Bool.and_eq_true] at hi
    simp only [write, flatMap_cons, flatMap_append, hg (unit '{') (by decide), hg (unit '"') (by decide),
      hg (unit ':') (by decide), singleton_append, flatMap_write v hi.1, flatMap_writeMembers ms hi.2]

theorem flatMap_writeItems : ∀ vs : List (Value CodeUnit), Value.integralItems vs →
    (writeItems quote fraction vs).flatMap g = writeItems (fun s => (quote s).flatMap g) fraction vs
  | [], _ => flatMap_marks hg (show [unit ']'].all isMark by decide)
  | v :: vs, hi => by
    simp only [Value.integralItems, Bool.and_eq_true] at hi
    simp only [writeItems, flatMap_cons, flatMap_append, hg (unit ',') (by decide), singleton_append,
      flatMap_write v hi.1, flatMap_writeItems vs hi.2]

theorem flatMap_writeMembers : ∀ ms : List (JsStr × Value CodeUnit), Value.integralMembers ms →
    (writeMembers quote fraction ms).flatMap g = writeMembers (fun s => (quote s).flatMap g) fraction ms
  | [], _ => flatMap_marks hg (show [unit '}'].all isMark by decide)
  | (k, v) :: ms, hi => by
    simp only [Value.integralMembers, Bool.and_eq_true] at hi
    simp only [writeMembers, flatMap_cons, flatMap_append, hg (unit ',') (by decide),
      hg (unit '"') (by decide), hg (unit ':') (by decide), singleton_append, flatMap_write v hi.1,
      flatMap_writeMembers ms hi.2]

end

end

end StrixAlloy.PresentationHistory

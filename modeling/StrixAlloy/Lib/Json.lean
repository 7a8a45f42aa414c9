import Mathlib.Data.List.Sort
import Mathlib.Tactic.IntervalCases

/-!
# JSON values and their canonical text

`Json` is the type of JSON values as Python's `json` module reads and writes them, and `dumps` is
`json.dumps` with `sort_keys=True`, the separators `,` and `:`, and `ensure_ascii=False`. A
floating-point number is carried by its `repr`, which determines it.

The text determines the value up to the order of the members of its objects: `dumps` writes the
value whose members are sorted (`sortKeys`), and `text`, which writes a value as it stands, is
injective (`text_injective`). The proof reads two equal texts from the left: a text of an atom ends
where a delimiter begins (`Closed`), and a quoted string ends at its closing quote.
-/

/-- The `repr` of a finite floating-point number: digits, signs, and at least one of the point and
the exponent's `e`, which no integer has. -/
structure FloatText where
  /-- The characters of the `repr`. -/
  text : List Char
  /-- Only characters of a `repr` occur. -/
  chars : ∀ c ∈ text, c.isDigit ∨ c ∈ ['+', '-', '.', 'e']
  /-- The point or the exponent occurs. -/
  point : '.' ∈ text ∨ 'e' ∈ text

/-- The floating-point values that are not numbers or not finite. -/
inductive NonFinite where
  | nan | infinity | negInfinity

/-- A JSON value. The members of an object are in insertion order. -/
inductive Json where
  | null
  | bool (b : Bool)
  | int (n : ℤ)
  | float (f : FloatText)
  | nonfinite (f : NonFinite)
  | str (s : String)
  | list (items : List Json)
  | dict (members : List (String × Json))

namespace Json

open List

/-- The member of an object under the key `k`. -/
def get? (members : List (String × Json)) (k : String) : Option Json :=
  (members.find? fun m => m.1 = k).map Prod.snd

/-! ## The text of a value -/

/-- A character inside a quoted string: the quote, the backslash and the control characters are
escaped, and every other character stands for itself. -/
def escapeChar (c : Char) : List Char :=
  if c = '"' then ['\\', '"']
  else if c = '\\' then ['\\', '\\']
  else if c = '\n' then ['\\', 'n']
  else if c = '\r' then ['\\', 'r']
  else if c = '\t' then ['\\', 't']
  else if c = '\x0c' then ['\\', 'f']
  else if c = '\x08' then ['\\', 'b']
  else if c.toNat < 32 then ['\\', 'u', '0', '0', Nat.digitChar (c.toNat / 16),
      Nat.digitChar (c.toNat % 16)]
  else [c]

/-- A string in quotes. -/
def quote (s : String) : List Char := '"' :: (s.toList.flatMap escapeChar ++ ['"'])

/-- The decimal digits of an integer, with its sign. -/
def intText : ℤ → List Char
  | .ofNat n => Nat.toDigits 10 n
  | .negSucc n => '-' :: Nat.toDigits 10 (n + 1)

/-- The names that `json` gives to the values that are no finite numbers. -/
def NonFinite.text : NonFinite → List Char
  | .nan => "NaN".toList
  | .infinity => "Infinity".toList
  | .negInfinity => "-Infinity".toList

mutual

/-- The text of a value, with the members of each object in the order in which they stand. -/
def text : Json → List Char
  | .null => "null".toList
  | .bool true => "true".toList
  | .bool false => "false".toList
  | .int n => intText n
  | .float f => f.text
  | .nonfinite f => NonFinite.text f
  | .str s => quote s
  | .list [] => ['[', ']']
  | .list (x :: xs) => '[' :: (text x ++ itemsText xs)
  | .dict [] => ['{', '}']
  | .dict ((k, v) :: ms) => '{' :: (quote k ++ ':' :: (text v ++ membersText ms))

/-- The items of a list after its first, with the closing bracket. -/
def itemsText : List Json → List Char
  | [] => [']']
  | x :: xs => ',' :: (text x ++ itemsText xs)

/-- The members of an object after its first, with the closing brace. -/
def membersText : List (String × Json) → List Char
  | [] => ['}']
  | (k, v) :: ms => ',' :: (quote k ++ ':' :: (text v ++ membersText ms))

end

mutual

/-- The value with the members of every object in the order of their keys. -/
def sortKeys : Json → Json
  | .list items => .list (sortItems items)
  | .dict members => .dict ((sortMembers members).insertionSort fun a b => a.1 ≤ b.1)
  | v => v

/-- The items of a list, each with its members sorted. -/
def sortItems : List Json → List Json
  | [] => []
  | x :: xs => sortKeys x :: sortItems xs

/-- The members of an object, each value with its own members sorted. -/
def sortMembers : List (String × Json) → List (String × Json)
  | [] => []
  | (k, v) :: ms => (k, sortKeys v) :: sortMembers ms

end

/-- `json.dumps` with sorted keys and without blanks. -/
def dumps (v : Json) : List Char := text (sortKeys v)

example : dumps (.dict [("b", .list [.int (-12), .null]), ("a", .str "x\n")]) =
    "\x7b\"a\":\"x\\n\",\"b\":[-12,null]\x7d".toList := by decide

mutual

/-- Whether `json.dumps(allow_nan=False)` returns a text: no number is infinite or undefined, and
no integer has more digits than the interpreter converts. -/
def encodable : Json → Bool
  | .int n => (Nat.toDigits 10 n.natAbs).length ≤ 4300
  | .nonfinite _ => false
  | .list items => encodableItems items
  | .dict members => encodableMembers members
  | _ => true

def encodableItems : List Json → Bool
  | [] => true
  | x :: xs => encodable x && encodableItems xs

def encodableMembers : List (String × Json) → Bool
  | [] => true
  | (_, v) :: ms => encodable v && encodableMembers ms

end

/-! ## Quoted strings -/

/-- The value of a lower-case hexadecimal digit. -/
def hexVal (c : Char) : ℕ := if c.isDigit then c.toNat - 48 else c.toNat - 87

/-- The first character that a quoted body stands for, with the rest of the body. -/
def unescape : List Char → Option (Char × List Char)
  | '\\' :: 'u' :: '0' :: '0' :: a :: b :: r =>
    some (Char.ofNat (16 * hexVal a + hexVal b), r)
  | '\\' :: 'n' :: r => some ('\n', r)
  | '\\' :: 'r' :: r => some ('\r', r)
  | '\\' :: 't' :: r => some ('\t', r)
  | '\\' :: 'f' :: r => some ('\x0c', r)
  | '\\' :: 'b' :: r => some ('\x08', r)
  | '\\' :: c :: r => some (c, r)
  | '"' :: _ => none
  | c :: r => some (c, r)
  | [] => none

/-- Reading an escaped character gives it back, with what follows it. -/
theorem unescape_escapeChar (c : Char) (r : List Char) : unescape (escapeChar c ++ r) = some (c, r) := by
  by_cases hc : c.toNat < 32
  · have hval : c = Char.ofNat c.toNat := (Char.ofNat_toNat c).symm
    generalize c.toNat = n at hc hval
    subst hval
    interval_cases n <;> rfl
  · unfold escapeChar
    split_ifs with h1 h2 h3 h4 h5 h6 h7
    all_goals try (subst_vars; rfl)
    rw [singleton_append, unescape.eq_def]
    split <;> simp_all

/-- Two bodies that continue with a closing quote are equal as far as it. -/
theorem flatMap_escapeChar_inj : ∀ {cs ds : List Char} {r r' : List Char},
    cs.flatMap escapeChar ++ '"' :: r = ds.flatMap escapeChar ++ '"' :: r' → cs = ds ∧ r = r'
  | [], [], r, r', h => by simpa using h
  | [], d :: ds, r, r', h => by
    have hu := congrArg unescape h
    rw [flatMap_cons, append_assoc, unescape_escapeChar] at hu
    exact absurd hu (by simp [unescape])
  | c :: cs, [], r, r', h => by
    have hu := congrArg unescape h
    rw [flatMap_cons, append_assoc, unescape_escapeChar] at hu
    exact absurd hu (by simp [unescape])
  | c :: cs, d :: ds, r, r', h => by
    have hu := congrArg unescape h
    simp only [flatMap_cons, append_assoc, unescape_escapeChar, Option.some.injEq,
      Prod.mk.injEq] at hu
    obtain ⟨rfl, htail⟩ := hu
    obtain ⟨rfl, rfl⟩ := flatMap_escapeChar_inj htail
    exact ⟨rfl, rfl⟩

/-- A quoted string is determined by any text that it begins, and so is the rest of that text. -/
theorem quote_append_inj {s t : String} {r r' : List Char} (h : quote s ++ r = quote t ++ r') :
    s = t ∧ r = r' := by
  simp only [quote, cons_append, append_assoc, nil_append, List.cons.injEq,
    true_and] at h
  obtain ⟨e, rfl⟩ := flatMap_escapeChar_inj h
  exact ⟨String.toList_injective e, rfl⟩

/-! ## Atoms -/

/-- The characters that end an atom or begin a compound value. -/
def structural : List Char := [',', ']', '}', '[', '{', '"']

/-- A text that is empty or goes on with a comma or a closing bracket or brace. -/
def Closed (r : List Char) : Prop := ∀ c ∈ r.head?, c ∈ structural

/-- Two texts without structural characters, each followed by one, are equal if their continuations
agree. -/
theorem append_inj_of_closed : ∀ {a b r r' : List Char}, (∀ c ∈ a, c ∉ structural) →
    (∀ c ∈ b, c ∉ structural) → Closed r → Closed r' → a ++ r = b ++ r' → a = b ∧ r = r'
  | [], [], r, r', _, _, _, _, h => ⟨rfl, h⟩
  | [], d :: b, r, r', _, hb, hr, _, h => by
    rw [nil_append] at h
    exact absurd (hr d (by simp [h])) (hb d mem_cons_self)
  | c :: a, [], r, r', ha, _, _, hr', h => by
    rw [nil_append] at h
    exact absurd (hr' c (by simp [← h])) (ha c mem_cons_self)
  | c :: a, d :: b, r, r', ha, hb, hr, hr', h => by
    simp only [cons_append, List.cons.injEq] at h
    obtain ⟨rfl, h⟩ := h
    obtain ⟨rfl, rfl⟩ := append_inj_of_closed (fun x hx => ha x (mem_cons_of_mem _ hx))
      (fun x hx => hb x (mem_cons_of_mem _ hx)) hr hr' h
    exact ⟨rfl, rfl⟩

/-- The text of an integer consists of digits and a sign. -/
theorem mem_intText {n : ℤ} {c : Char} (h : c ∈ intText n) : c.isDigit ∨ c = '-' := by
  have hdigit : ∀ m, c ∈ Nat.toDigits 10 m → c.isDigit :=
    fun m hm => Nat.isDigit_of_mem_toDigits (by norm_num) (by norm_num) hm
  cases n with
  | ofNat => exact .inl (hdigit _ h)
  | negSucc =>
    rcases mem_cons.1 h with rfl | h
    · exact .inr rfl
    · exact .inl (hdigit _ h)

/-- The integer that a text of digits with a sign stands for. -/
def readInt : List Char → ℤ
  | '-' :: ds => -(Nat.ofDigitChars 10 ds 0)
  | ds => Nat.ofDigitChars 10 ds 0

/-- Reading the text of an integer gives it back. -/
theorem readInt_intText (n : ℤ) : readInt (intText n) = n := by
  cases n with
  | negSucc => simp [readInt, intText, Int.negSucc_eq]
  | ofNat n =>
    have hsign : ∀ ds, Nat.toDigits 10 n ≠ '-' :: ds := by
      intro ds e
      have hm : '-' ∈ Nat.toDigits 10 n := by rw [e]; exact mem_cons_self
      exact absurd (Nat.isDigit_of_mem_toDigits (by norm_num) (by norm_num) hm) (by decide)
    rw [intText, readInt, Nat.ofDigitChars_ten_toDigits]
    · rfl
    · exact hsign

/-- The values that are written without structural characters. -/
def IsAtom : Json → Prop
  | .str _ | .list _ | .dict _ => False
  | _ => True

variable {v w : Json}

/-- The text of an atom has no structural character. -/
theorem IsAtom.not_mem_structural (h : IsAtom v) : ∀ c ∈ text v, c ∉ structural := by
  have hdigit : ∀ c : Char, c.isDigit → c ∉ structural := by
    intro c hc hs
    simp only [structural, mem_cons, not_mem_nil, or_false] at hs
    rcases hs with rfl | rfl | rfl | rfl | rfl | rfl <;> simp at hc
  have hsign : ∀ c ∈ ['+', '-', '.', 'e'], c ∉ structural := by simp [structural]
  -- not by `decide` on the statement, which would go through every character
  have hall : ∀ w : List Char, w.all (fun c => decide (c ∉ structural)) → ∀ c ∈ w, c ∉ structural :=
    fun w hw c hc => of_decide_eq_true (all_eq_true.1 hw c hc)
  match v, h with
  | .null, _ | .bool true, _ | .bool false, _ | .nonfinite .nan, _ | .nonfinite .infinity, _
  | .nonfinite .negInfinity, _ => exact hall _ (by decide)
  | .int n, _ =>
    intro c hc
    rcases mem_intText hc with hc | rfl
    · exact hdigit c hc
    · decide
  | .float f, _ =>
    intro c hc
    rcases f.chars c hc with hc | hc
    · exact hdigit c hc
    · exact hsign c hc

/-- The characters of a number. -/
def isNumeric (t : List Char) : Bool := t.all fun c => c.isDigit || c ∈ ['+', '-', '.', 'e']

theorem isNumeric_iff {t : List Char} : isNumeric t ↔ ∀ c ∈ t, c.isDigit ∨ c ∈ ['+', '-', '.', 'e'] := by
  simp [isNumeric]

/-- The atom that a text without structural characters stands for. -/
def readAtom (t : List Char) : Json :=
  if t = "null".toList then .null
  else if t = "true".toList then .bool true
  else if t = "false".toList then .bool false
  else if t = "NaN".toList then .nonfinite .nan
  else if t = "Infinity".toList then .nonfinite .infinity
  else if t = "-Infinity".toList then .nonfinite .negInfinity
  else if h : isNumeric t ∧ ('.' ∈ t ∨ 'e' ∈ t) then .float ⟨t, isNumeric_iff.1 h.1, h.2⟩
  else .int (readInt t)

/-- A text that has none of three letters is none of the names. -/
theorem readAtom_of_not_mem {t : List Char} (hl : 'l' ∉ t) (hN : 'N' ∉ t) (hu : 'u' ∉ t)
    (hI : 'I' ∉ t) : readAtom t =
      if h : isNumeric t ∧ ('.' ∈ t ∨ 'e' ∈ t) then .float ⟨t, isNumeric_iff.1 h.1, h.2⟩
      else .int (readInt t) := by
  have hne : ∀ {c : Char} {s : List Char}, c ∉ t → c ∈ s → t ≠ s := fun hc hs e => hc (e ▸ hs)
  unfold readAtom
  rw [if_neg (hne hl (by decide)), if_neg (hne hu (by decide)), if_neg (hne hl (by decide)),
    if_neg (hne hN (by decide)), if_neg (hne hI (by decide)), if_neg (hne hI (by decide))]

/-- Reading the text of an atom gives it back. -/
theorem readAtom_text (h : IsAtom v) : readAtom (text v) = v := by
  match v, h with
  | .null, _ | .bool true, _ | .bool false, _ | .nonfinite .nan, _ | .nonfinite .infinity, _
  | .nonfinite .negInfinity, _ => rfl
  | .int n, _ =>
    have hno : ∀ c : Char, c.isDigit = false → c ≠ '-' → c ∉ intText n := by
      intro c hd hs hc
      rcases mem_intText hc with hc | hc
      · exact absurd hc (by simp [hd])
      · exact hs hc
    rw [text, readAtom_of_not_mem (hno _ rfl (by decide)) (hno _ rfl (by decide))
      (hno _ rfl (by decide)) (hno _ rfl (by decide)), dif_neg, readInt_intText]
    rintro ⟨-, hp | he⟩
    · exact hno _ rfl (by decide) hp
    · exact hno _ rfl (by decide) he
  | .float f, _ =>
    have hno : ∀ c : Char, c.isDigit = false → c ∉ ['+', '-', '.', 'e'] → c ∉ f.text := by
      intro c hd hs hc
      rcases f.chars c hc with hc | hc
      · exact absurd hc (by simp [hd])
      · exact hs hc
    rw [text, readAtom_of_not_mem (hno _ rfl (by decide)) (hno _ rfl (by decide))
      (hno _ rfl (by decide)) (hno _ rfl (by decide)), dif_pos ⟨isNumeric_iff.2 f.chars, f.point⟩]

/-- The text of an atom is not empty. -/
theorem IsAtom.text_ne_nil (h : IsAtom v) : text v ≠ [] := by
  intro e
  have hr := readAtom_text h
  rw [e] at hr
  have h0 : readAtom [] = .int 0 := rfl
  rw [h0] at hr
  rw [← hr] at e
  exact cons_ne_nil '0' [] e

/-! ## Values -/

/-- The character that begins the text of a value: one of its own for each kind of compound value,
and no structural one for an atom. -/
theorem exists_text_eq_cons (v : Json) : ∃ c t, text v = c :: t ∧
    ((IsAtom v ∧ c ∉ structural) ∨ (c = '"' ∧ ∃ s, v = .str s) ∨ (c = '[' ∧ ∃ xs, v = .list xs) ∨
      (c = '{' ∧ ∃ ms, v = .dict ms)) := by
  have hatom : ∀ v, IsAtom v → ∃ c t, text v = c :: t ∧ IsAtom v ∧ c ∉ structural := by
    intro v hv
    obtain ⟨c, t, e⟩ := exists_cons_of_ne_nil hv.text_ne_nil
    exact ⟨c, t, e, hv, hv.not_mem_structural c (by rw [e]; exact mem_cons_self)⟩
  by_cases hv : IsAtom v
  · obtain ⟨c, t, e, h⟩ := hatom v hv
    exact ⟨c, t, e, .inl h⟩
  match v, hv with
  | .str s, _ => exact ⟨_, _, rfl, .inr (.inl ⟨rfl, s, rfl⟩)⟩
  | .list [], _ => exact ⟨_, _, rfl, .inr (.inr (.inl ⟨rfl, [], rfl⟩))⟩
  | .list (x :: xs), _ => exact ⟨_, _, rfl, .inr (.inr (.inl ⟨rfl, x :: xs, rfl⟩))⟩
  | .dict [], _ => exact ⟨_, _, rfl, .inr (.inr (.inr ⟨rfl, [], rfl⟩))⟩
  | .dict (m :: ms), _ => exact ⟨_, _, rfl, .inr (.inr (.inr ⟨rfl, m :: ms, rfl⟩))⟩
  | .null, h | .bool _, h | .int _, h | .float _, h | .nonfinite _, h => exact absurd trivial h

/-- Values whose texts begin alike are of one kind. -/
theorem kind_eq_of_text {r r' : List Char} (h : text v ++ r = text w ++ r') :
    (IsAtom v ∧ IsAtom w) ∨ (∃ s t, v = .str s ∧ w = .str t) ∨ (∃ xs ys, v = .list xs ∧ w = .list ys) ∨
      ∃ ms ns, v = .dict ms ∧ w = .dict ns := by
  obtain ⟨c, t, ev, hv⟩ := exists_text_eq_cons v
  obtain ⟨d, u, ew, hw⟩ := exists_text_eq_cons w
  rw [ev, ew] at h
  obtain ⟨rfl, -⟩ := List.cons.inj h
  rcases hv with ⟨hv, hc⟩ | ⟨rfl, s, rfl⟩ | ⟨rfl, xs, rfl⟩ | ⟨rfl, ms, rfl⟩ <;>
    rcases hw with ⟨hw, hd⟩ | ⟨e, s', rfl⟩ | ⟨e, ys, rfl⟩ | ⟨e, ns, rfl⟩ <;>
    first
    | exact .inl ⟨hv, hw⟩
    | exact .inr (.inl ⟨_, _, rfl, rfl⟩)
    | exact .inr (.inr (.inl ⟨_, _, rfl, rfl⟩))
    | exact .inr (.inr (.inr ⟨_, _, rfl, rfl⟩))
    | (subst e; exact absurd (by decide) hc)
    | exact absurd (by decide) hd
    | exact absurd e (by decide)

theorem closed_itemsText (xs : List Json) (r : List Char) : Closed (itemsText xs ++ r) := by
  cases xs <;> simp [itemsText, Closed, structural]

theorem closed_membersText (ms : List (String × Json)) (r : List Char) :
    Closed (membersText ms ++ r) := by
  rcases ms with _ | ⟨⟨k, v⟩, ms⟩ <;> simp [membersText, Closed, structural]

/-- An atom is determined by any text that its own begins, if a delimiter follows. -/
theorem IsAtom.text_append_inj (hv : IsAtom v) {r r' : List Char} (hr : Closed r) (hr' : Closed r')
    (h : text v ++ r = text w ++ r') : v = w ∧ r = r' := by
  rcases kind_eq_of_text h with ⟨-, hw⟩ | ⟨_, _, rfl, -⟩ | ⟨_, _, rfl, -⟩ | ⟨_, _, rfl, -⟩
  · obtain ⟨e, rfl⟩ := append_inj_of_closed hv.not_mem_structural hw.not_mem_structural hr hr' h
    have hread := congrArg readAtom e
    rw [readAtom_text hv, readAtom_text hw] at hread
    exact ⟨hread, rfl⟩
  · exact hv.elim
  · exact hv.elim
  · exact hv.elim

/-- The text of a value does not begin with a closing bracket or brace. -/
theorem text_append_ne {c : Char} {r r' : List Char} (hc : c ∈ [',', ']', '}']) : text v ++ r ≠ c :: r' := by
  intro h
  obtain ⟨d, t, e, hd⟩ := exists_text_eq_cons v
  rw [e] at h
  obtain ⟨rfl, -⟩ := List.cons.inj h
  have hs : ∀ d ∈ [',', ']', '}'], d ∈ structural := by simp [structural]
  rcases hd with ⟨-, hd⟩ | ⟨rfl, -⟩ | ⟨rfl, -⟩ | ⟨rfl, -⟩
  · exact hd (hs d hc)
  all_goals exact absurd hc (by decide)

mutual

/-- A value is determined by any text that its own begins, if a delimiter follows. -/
theorem text_append_inj : ∀ (v w : Json) {r r' : List Char}, Closed r → Closed r' →
    text v ++ r = text w ++ r' → v = w ∧ r = r'
  | .null, _, _, _, hr, hr', h => IsAtom.text_append_inj (v := .null) trivial hr hr' h
  | .bool b, _, _, _, hr, hr', h => IsAtom.text_append_inj (v := .bool b) trivial hr hr' h
  | .int n, _, _, _, hr, hr', h => IsAtom.text_append_inj (v := .int n) trivial hr hr' h
  | .float f, _, _, _, hr, hr', h => IsAtom.text_append_inj (v := .float f) trivial hr hr' h
  | .nonfinite f, _, _, _, hr, hr', h =>
    IsAtom.text_append_inj (v := .nonfinite f) trivial hr hr' h
  | .str s, w, _, _, _, _, h => by
    rcases kind_eq_of_text h with ⟨hv, -⟩ | ⟨_, t, -, rfl⟩ | ⟨_, _, e, -⟩ | ⟨_, _, e, -⟩
    · exact hv.elim
    · obtain ⟨rfl, rfl⟩ := quote_append_inj h
      exact ⟨rfl, rfl⟩
    · cases e
    · cases e
  | .list [], w, r, r', _, _, h => by
    rcases kind_eq_of_text h with ⟨hv, -⟩ | ⟨_, _, e, -⟩ | ⟨_, ys, -, rfl⟩ | ⟨_, _, e, -⟩
    · exact hv.elim
    · cases e
    · rcases ys with _ | ⟨y, ys⟩
      · simpa [text] using h
      · simp only [text, cons_append, append_assoc, List.cons.injEq, true_and] at h
        exact absurd h.symm (text_append_ne (by decide))
    · cases e
  | .list (x :: xs), w, r, r', _, _, h => by
    rcases kind_eq_of_text h with ⟨hv, -⟩ | ⟨_, _, e, -⟩ | ⟨_, ys, -, rfl⟩ | ⟨_, _, e, -⟩
    · exact hv.elim
    · cases e
    · rcases ys with _ | ⟨y, ys⟩
      · simp only [text, cons_append, append_assoc, List.cons.injEq, true_and] at h
        exact absurd h (text_append_ne (by decide))
      · simp only [text, cons_append, append_assoc, List.cons.injEq, true_and] at h
        obtain ⟨rfl, hrest⟩ := text_append_inj x y (closed_itemsText _ _) (closed_itemsText _ _) h
        obtain ⟨rfl, rfl⟩ := itemsText_append_inj xs ys hrest
        exact ⟨rfl, rfl⟩
    · cases e
  | .dict [], w, r, r', _, _, h => by
    rcases kind_eq_of_text h with ⟨hv, -⟩ | ⟨_, _, e, -⟩ | ⟨_, _, e, -⟩ | ⟨_, ns, -, rfl⟩
    · exact hv.elim
    · cases e
    · cases e
    · rcases ns with _ | ⟨⟨k, v⟩, ns⟩
      · simpa [text] using h
      · simp [text, quote] at h
  | .dict ((k, v) :: ms), w, r, r', _, _, h => by
    rcases kind_eq_of_text h with ⟨hv, -⟩ | ⟨_, _, e, -⟩ | ⟨_, _, e, -⟩ | ⟨_, ns, -, rfl⟩
    · exact hv.elim
    · cases e
    · cases e
    · rcases ns with _ | ⟨⟨k', v'⟩, ns⟩
      · simp [text, quote] at h
      · simp only [text, cons_append, append_assoc, List.cons.injEq, true_and] at h
        obtain ⟨rfl, hvalue⟩ := quote_append_inj h
        obtain ⟨rfl, hrest⟩ := text_append_inj v v' (closed_membersText _ _) (closed_membersText _ _)
          (List.cons.inj hvalue).2
        obtain ⟨rfl, rfl⟩ := membersText_append_inj ms ns hrest
        exact ⟨rfl, rfl⟩

/-- The items of a list are determined by any text that their own begins. -/
theorem itemsText_append_inj : ∀ (xs ys : List Json) {r r' : List Char},
    itemsText xs ++ r = itemsText ys ++ r' → xs = ys ∧ r = r'
  | [], [], r, r', h => by simpa [itemsText] using h
  | [], y :: ys, r, r', h => by simp [itemsText] at h
  | x :: xs, [], r, r', h => by simp [itemsText] at h
  | x :: xs, y :: ys, r, r', h => by
    simp only [itemsText, cons_append, append_assoc, List.cons.injEq, true_and] at h
    obtain ⟨rfl, hrest⟩ := text_append_inj x y (closed_itemsText _ _) (closed_itemsText _ _) h
    obtain ⟨rfl, rfl⟩ := itemsText_append_inj xs ys hrest
    exact ⟨rfl, rfl⟩

/-- The members of an object are determined by any text that their own begins. -/
theorem membersText_append_inj : ∀ (ms ns : List (String × Json)) {r r' : List Char},
    membersText ms ++ r = membersText ns ++ r' → ms = ns ∧ r = r'
  | [], [], r, r', h => by simpa [membersText] using h
  | [], (k, v) :: ns, r, r', h => by simp [membersText] at h
  | (k, v) :: ms, [], r, r', h => by simp [membersText] at h
  | (k, v) :: ms, (k', v') :: ns, r, r', h => by
    simp only [membersText, cons_append, append_assoc, List.cons.injEq, true_and] at h
    obtain ⟨rfl, hvalue⟩ := quote_append_inj h
    obtain ⟨rfl, hrest⟩ := text_append_inj v v' (closed_membersText _ _) (closed_membersText _ _)
      (List.cons.inj hvalue).2
    obtain ⟨rfl, rfl⟩ := membersText_append_inj ms ns hrest
    exact ⟨rfl, rfl⟩

end

/-- The text of a value determines it. -/
theorem text_injective (h : text v = text w) : v = w := by
  have hnil : Closed [] := by simp [Closed]
  exact (text_append_inj v w hnil hnil (by simpa using h)).1

end Json

import Mathlib.Algebra.GroupWithZero.Nat
import Mathlib.Data.Rat.Defs

/-!
# Values and texts of two languages

What `json.loads` and `JSON.parse` give: a string is a list of code points in Python and a list of UTF-16 units
in JavaScript, where surrogates may stand alone. A Python `float` is a `float` even if it is integral; a number
of JavaScript is a `float` only if it is not.
-/

namespace StrixAlloy.PresentationHistory

/-- A code point, surrogates included. -/
abbrev CodePoint := Fin 0x110000

/-- A UTF-16 unit. -/
abbrev CodeUnit := Fin 0x10000

instance neZero_units : NeZero 0x10000 := ⟨Nat.succ_ne_zero _⟩

inductive Value (χ : Type) where
  | null
  | bool (b : Bool)
  | int (n : ℤ)
  | float (x : ℚ)
  | str (s : List χ)
  | list (items : List (Value χ))
  | dict (members : List (List χ × Value χ))

abbrev PyStr := List CodePoint

theorem toNat_lt (c : Char) : c.toNat < 0x110000 := by
  rcases c.valid with h | h
  · exact Nat.lt_trans h (by omega)
  · exact h.2

/-- A text of the source. -/
def py (s : String) : PyStr := s.toList.map fun c => ⟨c.toNat, toNat_lt c⟩

/-! ## Counts -/

def isSurrogate (c : CodePoint) : Bool := 0xD800 ≤ c.val && c.val ≤ 0xDFFF

/-- `value.encode('utf-8')`, counted; nothing where it raises. -/
def utf8Length (s : PyStr) : Option ℕ :=
  if s.any isSurrogate then none
  else some (s.map fun c =>
    if c.val < 0x80 then 1 else if c.val < 0x800 then 2 else if c.val < 0x10000 then 3 else 4).sum

/-- The UTF-16 units of a text. -/
def utf16Length (s : PyStr) : ℕ := (s.map fun c => if c.val < 0x10000 then 1 else 2).sum

/-- What `str.strip` takes away. -/
def isSpace (c : CodePoint) : Bool :=
  (9 ≤ c.val && c.val ≤ 13) || (28 ≤ c.val && c.val ≤ 32) || c.val = 0x85 || c.val = 0xA0 || c.val = 0x1680 ||
    (0x2000 ≤ c.val && c.val ≤ 0x200A) || c.val = 0x2028 || c.val = 0x2029 || c.val = 0x202F ||
    c.val = 0x205F || c.val = 0x3000

/-- `not value.strip()`. -/
def isBlank (s : PyStr) : Bool := s.all isSpace

def isHex (n : ℕ) : Bool := (48 ≤ n && n ≤ 57) || (97 ≤ n && n ≤ 102)

/-- `re.fullmatch('[0-9a-f]{size}', item)`. -/
def isDigest (size : ℕ) (s : PyStr) : Bool := s.length = size && s.all fun c => isHex c.val

/-! ## Members -/

namespace Value

variable {χ : Type} [DecidableEq χ]

def get? (members : List (List χ × Value χ)) (k : List χ) : Option (Value χ) :=
  (members.find? fun m => m.1 = k).map Prod.snd

/-- `set(value) == FIELDS`. -/
def hasKeys (members : List (List χ × Value χ)) (fields : List (List χ)) : Bool :=
  (members.all fun m => m.1 ∈ fields) && fields.all fun k => members.any fun m => m.1 = k

/-- A member that is a string. -/
def str? (members : List (List χ × Value χ)) (k : List χ) : Option (List χ) :=
  match get? members k with
  | some (.str s) => some s
  | _ => none

def bool? (members : List (List χ × Value χ)) (k : List χ) : Option Bool :=
  match get? members k with
  | some (.bool b) => some b
  | _ => none

def int? (members : List (List χ × Value χ)) (k : List χ) : Option ℤ :=
  match get? members k with
  | some (.int n) => some n
  | _ => none

end Value

end StrixAlloy.PresentationHistory

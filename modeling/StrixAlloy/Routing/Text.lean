import Mathlib.Data.List.Infix
import Mathlib.Data.List.SplitBy
import Mathlib.Data.String.Basic
import StrixAlloy.BusinessTasks

/-!
# Text

The functions on text that the routing policy takes from Python's standard library. Its strings are
sequences of code points, which a Lean string lists. `Engine` stands for the regular expressions and
the Unicode tables of the interpreter; patterns are passed to it as the source writes them.
-/

namespace StrixAlloy.Routing

/-- A match of a pattern: its span, its text and its groups. -/
structure Match where
  start : ℕ
  stop : ℕ
  group : String
  groups : List String

/-- Python's `re` and the tables behind `str`. The Boolean after a pattern says whether `re.I` is
set. -/
structure Engine where
  finditer : String → Bool → String → List Match
  matchStart : String → Bool → String → Option Match
  fullmatch : String → Bool → String → Option Match
  /-- `re.sub(pattern, replacement, text)`. -/
  sub : String → Bool → String → String → String
  split : String → String → List String
  casefold : String → String
  isalnum : Char → Bool

namespace Engine

variable (e : Engine)

/-- `bool(re.search(pattern, text))`. -/
def search (pattern : String) (ignorecase : Bool) (text : String) : Bool :=
  !(e.finditer pattern ignorecase text).isEmpty

/-- `re.findall(pattern, text)`, for a pattern with one group or none. -/
def findall (pattern : String) (ignorecase : Bool) (text : String) : List String :=
  (e.finditer pattern ignorecase text).map fun m => m.groups.headD m.group

end Engine

/-- The characters that `re.escape` puts a backslash before. -/
def specialChars : List Char := "()[]\x7b\x7d?*+-|^$\\.&~# \t\n\r\x0b\x0c".toList

/-- `re.escape`. -/
def escape (s : String) : String :=
  String.ofList (s.toList.flatMap fun c => if c ∈ specialChars then ['\\', c] else [c])

/-- `str.rstrip(chars)`. -/
def rstrip (chars : List Char) (s : String) : String :=
  String.ofList (s.toList.reverse.dropWhile (· ∈ chars)).reverse

/-- `str.strip()`. -/
def strip (s : String) : String :=
  String.ofList ((s.toList.dropWhile isSpace).reverse.dropWhile isSpace).reverse

/-- `str.split()`. -/
def words (s : String) : List String :=
  ((s.toList.splitOnP isSpace).filter fun w => w ≠ []).map String.ofList

/-- `text[left:right]`. -/
def slice (s : String) (left right : ℕ) : String :=
  String.ofList ((s.toList.take right).drop left)

/-- `text.rfind(mark, 0, start) + 1`, for the last of some marks. -/
def afterLast (marks : List Char) (s : String) (start : ℕ) : ℕ :=
  ((List.range (min start s.length)).reverse.find? fun i => s.toList.getD i ' ' ∈ marks).elim 0 (· + 1)

/-- `text.find(mark, stop)` for the first of some marks, or the end of the text. -/
def firstFrom (marks : List Char) (s : String) (stop : ℕ) : ℕ :=
  ((List.range s.length).find? fun i => stop ≤ i && s.toList.getD i ' ' ∈ marks).getD s.length

/-- `part in text`. -/
def occursIn (part text : String) : Bool := decide (part.toList <:+: text.toList)

end StrixAlloy.Routing

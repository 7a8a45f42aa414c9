import Mathlib.Data.List.Nodup
import StrixAlloy.PresentationHistory.Value

/-!
# Objects without repeated keys
-/

namespace StrixAlloy.PresentationHistory

namespace Value

variable {χ : Type} [DecidableEq χ]

mutual

/-- No object repeats a key. -/
def unique : Value χ → Bool
  | .list items => uniqueItems items
  | .dict members => (members.map Prod.fst).Nodup && uniqueMembers members
  | _ => true

def uniqueItems : List (Value χ) → Bool
  | [] => true
  | v :: vs => unique v && uniqueItems vs

def uniqueMembers : List (List χ × Value χ) → Bool
  | [] => true
  | (_, v) :: ms => unique v && uniqueMembers ms

end

end Value

end StrixAlloy.PresentationHistory

import StrixAlloy.Lib.Json

/-!
# Reading JSON

A reader of JSON, of which no more is assumed than that it gives back a value from its compact text. This
is so for values whose objects repeat no key and that hold no number beyond the finite ones (`regular`).
-/

namespace Json

mutual

/-- No object repeats a key, and every number is finite. -/
def regular : Json → Bool
  | .nonfinite _ => false
  | .list items => regularItems items
  | .dict members => (members.map Prod.fst).Nodup && regularMembers members
  | _ => true

def regularItems : List Json → Bool
  | [] => true
  | x :: xs => regular x && regularItems xs

def regularMembers : List (String × Json) → Bool
  | [] => true
  | (_, v) :: ms => regular v && regularMembers ms

end

/-- A function that reads JSON. -/
structure Reader where
  parse : List Char → Option Json
  parse_text : ∀ v : Json, v.regular → parse v.text = some v

open Classical in
/-- There is one, since the text determines the value. -/
noncomputable def Reader.ofText : Reader where
  parse t := if h : ∃ v : Json, v.text = t then some h.choose else none
  parse_text v _ := by
    have h : ∃ w : Json, w.text = v.text := ⟨v, rfl⟩
    rw [dif_pos h, text_injective h.choose_spec]

end Json

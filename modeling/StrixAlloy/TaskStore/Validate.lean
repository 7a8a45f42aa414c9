import Mathlib.Data.List.Infix
import StrixAlloy.BusinessTasks
import StrixAlloy.Lib.Json

/-!
# Admission of JSON and of receipt references

`validateJson` is `_validate_json`: a walk over an explicit stack that counts the visited nodes, and
then the encoding and its length. The journal keeps, for a column that holds JSON text, the value
that was encoded into it; two such columns are compared by their text.
-/

namespace StrixAlloy.TaskStore

open Checked

/-- `_MAX_JSON_DEPTH`. -/
def maxJsonDepth : ℕ := 32

/-- `_MAX_JSON_NODES`. -/
def maxJsonNodes : ℕ := 2048

/-- `_CREDENTIAL_KEY_PARTS`. -/
def credentialKeyParts : List String :=
  ["apikey", "bearer", "cookie", "credential", "csrf", "password", "passwd", "secret", "sessionid",
    "token", "authorization", "authentication", "privatekey", "accesskey", "authheader", "authkey"]

/-- A field name of nonempty printable ASCII, of at most 128 characters. -/
def printableKey (key : String) : Bool :=
  key ≠ "" && key.length ≤ 128 && key.toList.all fun c => 32 ≤ c.toNat && c.toNat < 127

/-- A field name without case and separators. On the ASCII names that reach it, case folding is the
change to lower case. -/
def normalizedKey (key : String) : List Char :=
  (key.toList.map Char.toLower).filter Char.isAlphanum

/-- A field name that contains a credential fragment or ends like one. -/
def credentialShaped (key : String) : Bool :=
  (credentialKeyParts.any fun part => decide (part.toList <:+: normalizedKey key)) ||
    decide ("auth".toList <:+ normalizedKey key)

/-- The loop of `_validate_json` over its stack, whose top is the head of the list. `budget` is the
number of nodes that may still be visited. -/
def validateStack (limit : ℕ) : ℕ → List (Json × ℕ) → Except StoreError Unit
  | _, [] => .ok ()
  | 0, _ :: _ => .error (.invalid "payload too complex")
  | budget + 1, (item, depth) :: stack => do
    require (depth ≤ maxJsonDepth) (.invalid "payload too complex")
    match item with
    | .dict members =>
      require (members.length + stack.length ≤ budget) (.invalid "payload too complex")
      require (∀ m ∈ members, printableKey m.1 ∧ ¬ credentialShaped m.1) (.invalid "invalid payload")
      validateStack limit budget ((members.map fun m => (m.2, depth + 1)).reverse ++ stack)
    | .list items =>
      require (items.length + stack.length ≤ budget) (.invalid "payload too complex")
      validateStack limit budget ((items.map fun v => (v, depth + 1)).reverse ++ stack)
    | .str s =>
      require (s.length ≤ limit) (.invalid "payload too large")
      validateStack limit budget stack
    | _ => validateStack limit budget stack

/-- `_validate_json`. -/
def validateJson (value : Json) (limit : ℕ) : Except StoreError Unit := do
  validateStack limit maxJsonNodes [(value, 0)]
  require (Json.encodable value) (.invalid "invalid payload")
  require ((Json.dumps value).length ≤ limit) (.invalid "payload too large")

/-- The limit of `_validate_json` where the caller names none. -/
def defaultLimit : ℕ := 16384

/-- The references that the pattern of `_receipt_ref` matches. -/
def isReceiptRef (value : String) : Bool :=
  match value.toList with
  | [] => false
  | c :: cs => c.isAlphanum && cs.length ≤ 127 &&
      cs.all fun d => d.isAlphanum || d ∈ ['_', '.', ':', '-']

/-- `_receipt_ref`. -/
def receiptRef (value : Json) : Except StoreError String :=
  match value with
  | .str s => do
    require (isReceiptRef s) (.invalid "invalid receipt reference")
    return s
  | _ => .error (.invalid "invalid receipt reference")

/-- What `_receipt_ref` returns matches its pattern. -/
theorem isReceiptRef_of_receiptRef {value : Json} {s : String} (h : receiptRef value = .ok s) : isReceiptRef s := by
  cases value with
  | str =>
    simp only [receiptRef, bind_eq_ok, require_eq_ok, pure_eq_ok] at h
    obtain ⟨-, ht, rfl⟩ := h
    exact ht
  | _ => cases h

/-- A text that a caller may give: neither empty nor longer than 4000 characters. -/
def isText (text : String) : Bool := text ≠ "" && text.length ≤ 4000

/-- `replies` as the methods that settle accept them. -/
def areReplies (replies : List String) : Bool :=
  replies.length ≤ 32 && replies.all fun r => r.length ≤ 4000

end StrixAlloy.TaskStore

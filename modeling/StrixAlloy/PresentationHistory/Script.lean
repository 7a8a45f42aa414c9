import Mathlib.Data.List.Sort
import Mathlib.Data.List.Lex
import StrixAlloy.PresentationHistory.Event
import StrixAlloy.PresentationHistory.Same

/-!
# Texts and values in the script

The helpers of `SCCVoicePresentationHistoryV1`: its counts of a text, its comparison of keys, and `_event`. The
platform's digest is a parameter.
-/

namespace StrixAlloy.PresentationHistory

/-- A string of JavaScript. -/
abbrev JsStr := List CodeUnit

instance lawfulBEq_jsStr : LawfulBEq JsStr := inferInstance

/-- A code point in UTF-16. -/
def units (c : CodePoint) : JsStr :=
  if h : c.val < 0x10000 then [⟨c.val, h⟩]
  else [⟨0xD800 + (c.val - 0x10000) / 0x400, by omega⟩, ⟨0xDC00 + (c.val - 0x10000) % 0x400, by omega⟩]

def utf16 (s : PyStr) : JsStr := s.flatMap units

/-- A text of the source. -/
def js (s : String) : JsStr := utf16 (py s)

theorem js_ofList (l : List Char) : js (String.ofList l) = utf16 (l.map fun c => ⟨c.toNat, toNat_lt c⟩) := by
  rw [js, py, String.toList_ofList]

/-! ## Counts -/

def isHigh (u : CodeUnit) : Bool := 0xD800 ≤ u.val && u.val ≤ 0xDBFF

def isLow (u : CodeUnit) : Bool := 0xDC00 ≤ u.val && u.val ≤ 0xDFFF

/-- `_characters`; nothing where it throws. -/
def characters : JsStr → Option ℕ
  | [] => some 0
  | [u] => if isHigh u || isLow u then none else some 1
  | u :: v :: rest =>
    if isHigh u then if isLow v then (characters rest).map (· + 1) else none
    else if isLow u then none
    else (characters (v :: rest)).map (· + 1)

/-- The UTF-8 bytes of a unit that is no surrogate. -/
def unitBytes (n : ℕ) : ℕ := if n < 0x80 then 1 else if n < 0x800 then 2 else 3

/-- `_bytes`; nothing where `encodeURIComponent` throws. -/
def bytes : JsStr → Option ℕ
  | [] => some 0
  | [u] => if isHigh u || isLow u then none else some (unitBytes u.val)
  | u :: v :: rest =>
    if isHigh u then if isLow v then (bytes rest).map (· + 4) else none
    else if isLow u then none
    else (bytes (v :: rest)).map (· + unitBytes u.val)

/-- The units that the expression of `_event` for blank texts leaves out. -/
def isBlankUnit (u : CodeUnit) : Bool :=
  (9 ≤ u.val && u.val ≤ 13) || (28 ≤ u.val && u.val ≤ 32) || u.val = 0x85 || u.val = 0xA0 || u.val = 0x1680 ||
    (0x2000 ≤ u.val && u.val ≤ 0x200A) || u.val = 0x2028 || u.val = 0x2029 || u.val = 0x202F ||
    u.val = 0x205F || u.val = 0x3000

/-- `/^[0-9a-f]{size}$/`. -/
def isDigestUnits (size : ℕ) (s : JsStr) : Bool := s.length = size && s.all fun u => isHex u.val

/-- `_id`. -/
def isId (s : JsStr) : Bool := isDigestUnits 32 s

/-! ## Members -/

/-- `_keys`, for the keys of an object. -/
def keysAre (members : List (JsStr × Value CodeUnit)) (keys : List String) : Bool :=
  (js ",").intercalate ((members.map Prod.fst).insertionSort (· ≤ ·)) =
    (js ",").intercalate ((keys.map js).insertionSort (· ≤ ·))

section

variable (members : List (JsStr × Value CodeUnit))

/-- `_integer` of a member. -/
def integerOf (name : String) (minimum maximum : ℕ) : Option ℕ :=
  match Value.int? members (js name) with
  | some n => if (minimum : ℤ) ≤ n ∧ n ≤ maximum then some n.toNat else none
  | none => none

/-- A member that is a string of a form. -/
def stringOf (form : JsStr → Bool) (name : String) : Option JsStr :=
  (Value.str? members (js name)).filter form

/-- A member with one value. -/
def isConstant (name : String) (value : JsStr) : Bool := Value.str? members (js name) = some value

/-- The optional provenance in `_event`. -/
def provenanceOf : Option (Option (JsStr × JsStr)) :=
  match Value.get? members (js "caller_turn_id"), Value.get? members (js "original_asr_sha256") with
  | some .null, some .null => some none
  | some (.str caller), some (.str raw) =>
    if isId caller && isDigestUnits 64 raw then some (some (caller, raw)) else none
  | _, _ => none

end

/-! ## `_event` -/

def eventKeys : List String :=
  ["version", "kind", "local_output_state", "native_request_binding", "owner_id", "event_id", "sequence",
    "caller_turn_id", "original_asr_sha256", "output_epoch", "task_revision", "playback_generation", "text",
    "text_sha256", "accepted_samples", "emitted_samples"]

/-- `_event`: the canonical copy, or nothing where it throws. -/
def scriptEvent (digest : JsStr → JsStr) : Value CodeUnit → Option (Event CodeUnit)
  | .dict members =>
    if !keysAre members eventKeys || !isConstant members "kind" (js "local_conversation_history") ||
        !isConstant members "local_output_state" (js "host_emitted") ||
        !isConstant members "native_request_binding" (js "unavailable") then none
    else do
      let _ ← integerOf members "version" 1 1
      let owner_id ← stringOf members isId "owner_id"
      let event_id ← stringOf members isId "event_id"
      let sequence ← integerOf members "sequence" 1 16
      let caller ← provenanceOf members
      let output_epoch ← integerOf members "output_epoch" 1 2147483647
      let task_revision ← integerOf members "task_revision" 1 2147483647
      let playback_generation ← integerOf members "playback_generation" 0 2147483647
      let text ← Value.str? members (js "text")
      let count ← characters text
      let size ← bytes text
      let text_sha256 ← stringOf members (isDigestUnits 64) "text_sha256"
      let samples ← integerOf members "accepted_samples" 1 43200000
      if text.all isBlankUnit ∨ 2000 < text.length ∨ 2000 < count ∨ 8000 < size ∨
          !isDigestUnits 64 (digest text) ∨ text_sha256 ≠ digest text ∨
          Value.int? members (js "emitted_samples") ≠ some (samples : ℤ) then none
      else some ⟨owner_id, event_id, sequence, caller, output_epoch, task_revision, playback_generation, text,
        text_sha256, samples⟩
  | _ => none

/-- The object of a canonical copy. -/
def Event.value (e : Event CodeUnit) : Value CodeUnit :=
  .dict [(js "version", .int 1), (js "kind", .str (js "local_conversation_history")),
    (js "local_output_state", .str (js "host_emitted")),
    (js "native_request_binding", .str (js "unavailable")), (js "owner_id", .str e.owner_id),
    (js "event_id", .str e.event_id), (js "sequence", .int e.sequence),
    (js "caller_turn_id", e.caller.elim .null fun c => .str c.1),
    (js "original_asr_sha256", e.caller.elim .null fun c => .str c.2),
    (js "output_epoch", .int e.output_epoch), (js "task_revision", .int e.task_revision),
    (js "playback_generation", .int e.playback_generation), (js "text", .str e.text),
    (js "text_sha256", .str e.text_sha256), (js "accepted_samples", .int e.samples),
    (js "emitted_samples", .int e.samples)]

end StrixAlloy.PresentationHistory

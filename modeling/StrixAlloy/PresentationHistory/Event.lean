import StrixAlloy.PresentationHistory.Value

/-!
# Events and receipts

`validateEvent` and `validReceipt` of `presentation_history.py`. An accepted value is carried as an `Event`,
whose fields are what its members can be.
-/

namespace StrixAlloy.PresentationHistory

open Value

/-- `MAX_EVENTS`. -/
def maxEvents : ℕ := 16

/-- `FIELDS`. -/
def fields : List PyStr :=
  ["version", "kind", "local_output_state", "native_request_binding", "owner_id", "event_id", "sequence",
    "caller_turn_id", "original_asr_sha256", "output_epoch", "task_revision", "playback_generation", "text",
    "text_sha256", "accepted_samples", "emitted_samples"].map py

/-- An accepted event, in the strings of one of the languages. -/
structure Event (χ : Type) where
  owner_id : List χ
  event_id : List χ
  sequence : ℕ
  /-- `caller_turn_id` and `original_asr_sha256`. -/
  caller : Option (List χ × List χ)
  output_epoch : ℕ
  task_revision : ℕ
  playback_generation : ℕ
  text : List χ
  text_sha256 : List χ
  /-- `accepted_samples` and `emitted_samples`. -/
  samples : ℕ
deriving DecidableEq

section

variable (members : List (PyStr × Value CodePoint))

/-- `integer` of `validateEvent`. -/
def integer (name : String) (low high : ℕ) : Option ℕ :=
  match int? members (py name) with
  | some n => if (low : ℤ) ≤ n ∧ n ≤ high then some n.toNat else none
  | none => none

/-- `digest` of `validateEvent`, of a member. -/
def digest (name : String) (size : ℕ) : Option PyStr :=
  (str? members (py name)).filter (isDigest size)

/-- A member with one value. -/
def constant (name value : String) : Bool := str? members (py name) = some (py value)

/-- The optional provenance. -/
def provenance : Option (Option (PyStr × PyStr)) :=
  match get? members (py "caller_turn_id"), get? members (py "original_asr_sha256") with
  | some .null, some .null => some none
  | some (.str caller), some (.str raw) =>
    if isDigest 32 caller && isDigest 64 raw then some (some (caller, raw)) else none
  | _, _ => none

end

/-- The digest of the UTF-8 encoding of a text, in hexadecimal. -/
abbrev Sha256 := PyStr → PyStr

/-- `validateEvent`; nothing where it raises. -/
def validateEvent (sha256 : Sha256) : Value CodePoint → Option (Event CodePoint)
  | .dict members =>
    if !hasKeys members fields || !constant members "kind" "local_conversation_history" ||
        !constant members "local_output_state" "host_emitted" ||
        !constant members "native_request_binding" "unavailable" then none
    else do
      let _ ← integer members "version" 1 1
      let owner_id ← digest members "owner_id" 32
      let event_id ← digest members "event_id" 32
      let sequence ← integer members "sequence" 1 maxEvents
      let output_epoch ← integer members "output_epoch" 1 2147483647
      let task_revision ← integer members "task_revision" 1 2147483647
      let playback_generation ← integer members "playback_generation" 0 2147483647
      let accepted ← integer members "accepted_samples" 1 43200000
      let emitted ← integer members "emitted_samples" 1 43200000
      let text ← str? members (py "text")
      let text_sha256 ← digest members "text_sha256" 64
      let caller ← provenance members
      let encoded ← utf8Length text
      if accepted ≠ emitted ∨ isBlank text ∨ 2000 < text.length ∨ 2000 < utf16Length text ∨ 8000 < encoded ∨
          sha256 text ≠ text_sha256 then none
      else some ⟨owner_id, event_id, sequence, caller, output_epoch, task_revision, playback_generation, text,
        text_sha256, accepted⟩
  | _ => none

/-- `RECEIPT_FIELDS`. -/
def receiptFields : List PyStr :=
  ["status", "state", "requestId", "conversationId", "sequence", "eventId", "textSha256", "stored", "hostEmitted",
    "heard", "promptIncluded"].map py

/-- `validReceipt`. -/
def validReceipt (value : Value CodePoint) (event : Event CodePoint) (conversationId : PyStr)
    (requestId : Option PyStr) : Bool :=
  match value with
  | .dict members =>
    hasKeys members receiptFields && constant members "status" "success" &&
      constant members "state" "presentation_history_stored" &&
      ((digest members "requestId" 32).any fun r => requestId.all (r = ·)) &&
      str? members (py "conversationId") = some conversationId &&
      int? members (py "sequence") = some (event.sequence : ℤ) &&
      str? members (py "eventId") = some event.event_id &&
      str? members (py "textSha256") = some event.text_sha256 &&
      bool? members (py "stored") = some true && bool? members (py "hostEmitted") = some true &&
      bool? members (py "heard") = some false && bool? members (py "promptIncluded") = some false
  | _ => false

end StrixAlloy.PresentationHistory

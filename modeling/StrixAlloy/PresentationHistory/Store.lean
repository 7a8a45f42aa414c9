import StrixAlloy.PresentationHistory.Script

/-!
# Stored entries

The entries of `SCCVoicePresentationHistoryV1` in the provider context, and the checks that `_entry` makes of them.
-/

namespace StrixAlloy.PresentationHistory

def profile : JsStr := js "c623e20f93374354e7f2b9fa6aba1081"
def service : JsStr := js "8aa131d793f787105c8132d47aba1095"

/-- The whitespace of `trim`. -/
def isTrimmed (u : CodeUnit) : Bool :=
  (9 ≤ u.val && u.val ≤ 13) || u.val = 32 || u.val = 0xA0 || u.val = 0x1680 ||
    (0x2000 ≤ u.val && u.val ≤ 0x200A) || u.val = 0x2028 || u.val = 0x2029 || u.val = 0x202F ||
    u.val = 0x205F || u.val = 0x3000 || u.val = 0xFEFF

/-- What `_binding` returns. -/
structure Binding where
  conversation_id : JsStr
  provider_user_id : JsStr
  caller_user_id : JsStr
  account_id : JsStr
  channel_profile_id : JsStr
  creation_message_id : JsStr
  interaction_id : JsStr
  session_id : JsStr
  device_id : JsStr
  reader_actor_id : JsStr

/-! ## Entries -/

/-- The members of an entry that do not follow from its grant. -/
structure Entry where
  client_session_id : JsStr
  stored_at_ms : ℕ
  event : Event CodeUnit

/-- The checks of `_entry`. -/
def entryOf (digest : JsStr → JsStr) (b : Binding) (sequence now : ℕ) : Value CodeUnit → Option Entry
  | .dict members =>
    if !keysAre members ["version", "conversation_id", "provider_user_id", "caller_user_id", "account_id",
        "channel_profile_id", "creation_message_id", "service_id", "context_profile", "stored_at_ms", "event",
        "client_session_id", "transport_user_id"] ||
        !isConstant members "conversation_id" b.conversation_id ||
        !isConstant members "provider_user_id" b.provider_user_id ||
        !isConstant members "caller_user_id" b.caller_user_id ||
        !isConstant members "account_id" b.account_id ||
        !isConstant members "channel_profile_id" b.channel_profile_id ||
        !isConstant members "creation_message_id" b.creation_message_id ||
        !isConstant members "service_id" service || !isConstant members "context_profile" profile then none
    else do
      let _ ← integerOf members "version" 2 2
      let client ← stringOf members isId "client_session_id"
      let _ ← stringOf members (· = js "voice-" ++ client) "transport_user_id"
      let stored ← integerOf members "stored_at_ms" 1 now
      let event ← (Value.get? members (js "event")).bind (scriptEvent digest)
      if event.sequence = sequence then some ⟨client, stored, event⟩ else none
  | _ => none

end StrixAlloy.PresentationHistory

import StrixAlloy.Lib.Json

/-!
# What a text turn reads upstream

The answer of the controller about its models and the event stream of one generation, as `_generate`
reads them. Whatever it refuses it raises on; the parts of a text and the limits on them stay in the
local variables of the loop (`Stream`). The texts, lists of characters here, are decoded by the
`json` module, which is a parameter (`loads`), since nothing depends on how it reads a text.
-/

namespace StrixAlloy.LocalText

/-- Python's truth of a decoded value. -/
def truthy : Json → Bool
  | .null => false
  | .bool b => b
  | .int n => n ≠ 0
  | .float f => f.text ∉ ["0.0".toList, "-0.0".toList]
  | .nonfinite _ => true
  | .str s => s ≠ ""
  | .list items => !items.isEmpty
  | .dict members => !members.isEmpty

/-- `members.get(key)`, with `None` for an absent member. -/
def field (members : List (String × Json)) (key : String) : Json :=
  (Json.get? members key).getD .null

/-! ## The selected model -/

/-- The pattern of a model's name. -/
def isModel (name : String) : Bool :=
  match name.toList with
  | [] => false
  | c :: cs => c.isAlphanum && cs.length ≤ 127 &&
      cs.all fun d => d.isAlphanum || d ∈ ['_', '.', '-']

/-- The body of the answer to `GET /v1/models`: its length in bytes, at most one more than allowed, and
what it decodes to, if it does. -/
structure Payload where
  length : ℕ
  models : Option Json

/-- What the answer leads to: an exception, an exception that also closes the selection for every later
turn, or the model to ask. -/
inductive Selection where
  | unavailable
  | mismatch
  | model (name : String)

/-- The one entry that the answer has to hold. -/
def modelEntry : Option Json → Option (List (String × Json))
  | some (.dict models) =>
    match field models "data" with
    | .list [.dict entry] => some entry
    | _ => none
  | _ => none

/-- The reading of the answer. -/
def select (expected_model : Option String) (status : ℕ) (payload : Payload) : Selection :=
  match modelEntry payload.models with
  | none => .unavailable
  | some entry =>
    if status ≠ 200 ∨ 65536 < payload.length then .unavailable
    else
      match field entry "id" with
      | .str model =>
        if !isModel model then .unavailable
        else if expected_model.isSome ∧ expected_model ≠ some model then .mismatch
        else .model model
      | _ => .unavailable

/-! ## The event stream -/

/-- The local variables of the loop over the lines. -/
structure Stream where
  data : List (List Char)
  event_count : ℕ
  saw_finish : Bool
  saw_done : Bool
  parts : List String
  total : ℕ
deriving DecidableEq

def Stream.init : Stream := ⟨[], 0, false, false, [], 0⟩

/-- One line of the response: its length in bytes, and its text if it is one. -/
structure Line where
  length : ℕ
  text : Option (List Char)

/-- What one line leads to: the delta that is emitted, if any, and then the variables for the next line,
or `none` for an exception. -/
structure Taken where
  delta : Option String
  next : Option Stream

/-- An exception before anything was emitted. -/
def Taken.raised : Taken := ⟨none, none⟩

namespace Stream

/-- The `finish_reason` of a choice. -/
def reason (st : Stream) : Json → Option Stream
  | .null => some st
  | .str r =>
    if r ∉ ["stop", "length"] ∨ st.saw_finish then none else some { st with saw_finish := true }
  | _ => none

/-- The `content` of a choice: the text to emit and the variables after it. -/
def content (st : Stream) : Json → Option (Option String × Stream)
  | .null => some (none, st)
  | .str content =>
    if st.saw_finish then none
    else if content = "" then some (none, st)
    else if 16384 < st.total + content.length then none
    else some (some content,
      { st with total := st.total + content.length, parts := st.parts ++ [content] })
  | _ => none

/-- The one choice of an event. Its delta is emitted before its `finish_reason` is looked at. -/
def choice (st : Stream) (choice : List (String × Json)) : Taken :=
  match field choice "delta" with
  | .dict delta =>
    if truthy (field delta "tool_calls") || truthy (field delta "function_call") then .raised
    else if truthy (field delta "reasoning_content") || truthy (field delta "reasoning") then .raised
    else
      match st.content (field delta "content") with
      | none => .raised
      | some (text, st) => ⟨text, st.reason (field choice "finish_reason")⟩
  | _ => .raised

/-- One decoded event. -/
def item (st : Stream) : Json → Taken
  | .dict item =>
    if truthy (field item "error") then .raised
    else
      match field item "choices" with
      | .list [] => if (Json.get? item "usage").isSome then ⟨none, some st⟩ else .raised
      | .list [.dict choice] => st.choice choice
      | _ => .raised
  | _ => .raised

/-- One event of the stream, from the text of its `data` lines. -/
def event (loads : List Char → Option Json) (st : Stream) (payload : List Char) : Taken :=
  if 4096 < st.event_count + 1 then .raised
  else if payload = "[DONE]".toList then
    ⟨none, some { st with event_count := st.event_count + 1, saw_done := true }⟩
  else
    match loads payload with
    | none => .raised
    | some item => { st with event_count := st.event_count + 1 }.item item

/-- `line.decode('utf-8').rstrip('\r\n')`, from the decoded line. -/
def rstrip (line : List Char) : List Char :=
  (line.reverse.dropWhile fun c => c = '\r' || c = '\n').reverse

/-- One line of the stream. -/
def line (loads : List Char → Option Json) (st : Stream) (line : Line) : Taken :=
  if 65536 < line.length then .raised
  else
    match line.text.map rstrip with
    | none => .raised
    | some decoded =>
      if "data:".toList <+: decoded then
        let data := st.data ++ [(decoded.drop 5).dropWhile (· = ' ')]
        if 65536 < (data.map List.length).sum then .raised else ⟨none, some { st with data := data }⟩
      else if decoded ≠ [] ∨ st.data = [] then ⟨none, some st⟩
      else { st with data := [] }.event loads (['\n'].intercalate st.data)

/-- The check after the loop. -/
def complete (st : Stream) : Bool := st.saw_finish && st.saw_done && !st.parts.isEmpty

end Stream

end StrixAlloy.LocalText

import StrixAlloy.Lib.Framing

/-!
# The control channel

`_Channel`, one end of a pipe: a state machine over one outstanding operation at a time, which sends and
receives frames whatever pieces the system moves them in. The bytes between the two ends of a pipe are a
list in each direction. What an end has taken and what it has issued are history.
-/

namespace StrixAlloy.Handoff

open Framing

/-- The identity of a process, as `_Peer` finds it. -/
structure Identity where
  pid : ℤ
  creation_time_100ns : ℤ
  executable : String
  user_sid : String
deriving DecidableEq

/-- The fields of a message that either side looks at; a field of another type is one that is absent. -/
structure Message where
  schema_version : Option ℤ
  run_id : Option String
  profile_digest : Option String
  challenge : Option String
  kind : Option String
  command : Option String
  client : Option Identity
  state : Option String
  guardian : Option Identity
  child : Option Identity
  run : Option String
deriving DecidableEq

/-- The `json` module on messages: what was written and can be sent is read back. Texts that are no
message, or none that `_decode` admits, are read as `none`. -/
structure Codec where
  encode : Message → List UInt8
  decode : List UInt8 → Option Message
  decode_encode : ∀ m, 0 < (encode m).length → (encode m).length ≤ 65536 → decode (encode m) = some m

/-- The states of a channel. -/
inductive Mode where
  | initial
  | connect
  | write
  | header
  | body
  | received
  | request
  | commit
  | close
deriving DecidableEq

/-- The outstanding operation. `moved` counts the bytes of a write that the system has taken so far. -/
inductive Op where
  | connect
  | write (moved : ℕ)
  | read (size : ℕ)

/-- One end of a pipe. `issued` and `taken` are history: the payloads whose frames this end has begun to
write, and those that it has read. -/
structure Channel where
  mode : Mode
  data : List UInt8
  needed : ℕ
  after : Mode
  operation : Option Op
  queued_send : Option (Message × Mode)
  challenge : String
  retained : Bool
  issued : List (List UInt8)
  taken : List (List UInt8)

/-- What the poll of an operation gives. -/
inductive Completion where
  | pending
  | value (v : List UInt8)
  | error (errno : ℕ)

/-- What `advance` returns, or that it raises. -/
inductive Result where
  | nothing
  | connected
  | sent
  | message (m : Message)
  | raised

namespace Channel

def init (challenge : String) : Channel where
  mode := .initial
  data := []
  needed := 0
  after := .initial
  operation := none
  queued_send := none
  challenge := challenge
  retained := false
  issued := []
  taken := []

/-- `send`; `none` stands for an exception, `starts` for whether the system accepts the operation. -/
def send (c : Codec) (ch : Channel) (m : Message) (after : Mode) (starts : Bool) : Option Channel :=
  match ch.operation with
  | some _ =>
    if ch.mode ≠ .header ∨ ch.data ≠ [] ∨ ch.queued_send.isSome then none
    else some { ch with queued_send := some (m, after) }
  | none =>
    if 0 < (c.encode m).length ∧ (c.encode m).length ≤ 65536 ∧ starts then
      some { ch with data := frame (c.encode m), mode := .write, after := after
                     operation := some (.write 0), issued := ch.issued ++ [c.encode m] }
    else none

/-- `receive`. -/
def receive (ch : Channel) (starts : Bool) : Option Channel :=
  if starts then
    some { ch with mode := .header, data := [], needed := 4, operation := some (.read 4) }
  else none

/-- A new operation after an incomplete one. -/
def again (ch : Channel) (op : Op) (starts : Bool) : Channel × Result :=
  if starts then ({ ch with operation := some op }, .nothing) else (ch, .raised)

/-- The part of `advance` after an operation that gave the bytes `v`. -/
def completed (c : Codec) (ch : Channel) (v : List UInt8) (starts : Bool) : Channel × Result :=
  match ch.mode with
  | .connect => (ch, .connected)
  | .write =>
    if v = [] then (ch, .raised)
    else if ch.data.drop v.length ≠ [] then
      { ch with data := ch.data.drop v.length }.again (.write 0) starts
    else ({ ch with data := [], mode := ch.after }, .sent)
  | .header =>
    if v = [] then (ch, .raised)
    else if (ch.data ++ v).length < ch.needed then
      { ch with data := ch.data ++ v }.again (.read (ch.needed - (ch.data ++ v).length)) starts
    else if 0 < unle32 (ch.data ++ v) ∧ unle32 (ch.data ++ v) ≤ 65536 then
      { ch with data := [], mode := .body, needed := unle32 (ch.data ++ v) }.again
        (.read (unle32 (ch.data ++ v))) starts
    else (ch, .raised)
  | _ =>
    if v = [] then (ch, .raised)
    else if (ch.data ++ v).length < ch.needed then
      { ch with data := ch.data ++ v }.again (.read (ch.needed - (ch.data ++ v).length)) starts
    else
      match c.decode (ch.data ++ v) with
      | none => (ch, .raised)
      | some m =>
        ({ ch with data := ch.data ++ v, mode := .received, taken := ch.taken ++ [ch.data ++ v] },
          .message m)

/-- `advance`. A send that was queued behind a read is issued once that read was aborted (995). -/
def advance (c : Codec) (ch : Channel) (r : Completion) (starts : Bool) : Channel × Result :=
  if ch.operation.isNone then (ch, .nothing)
  else
    match r, ch.queued_send with
    | .pending, _ => (ch, .nothing)
    | .value _, some _ => (ch, .raised)
    | .value v, none => { ch with operation := none }.completed c v starts
    | .error errno, some (m, after) =>
      if errno ≠ 995 then (ch, .raised)
      else
        match { ch with operation := none, queued_send := none }.send c m after starts with
        | none => (ch, .raised)
        | some ch' => (ch', .nothing)
    | .error _, none => (ch, .raised)

/-- What the system says of the outstanding operation: a read that is done gave some of the bytes on its
wire, a write that is done took the bytes that have moved. -/
inductive Report where
  | pending
  | error (errno : ℕ)
  | done (count : ℕ)

/-- `_Operation.poll`, with the bytes that stay on the incoming wire. -/
def complete (ch : Channel) (wire : List UInt8) (joined : Bool) : Report → Completion × List UInt8
  | .pending => (.pending, wire)
  | .error errno => (.error errno, wire)
  | .done count =>
    match ch.operation with
    | none => (.pending, wire)
    | some .connect => (if joined then .value [] else .pending, wire)
    | some (.write moved) => (.value (ch.data.take moved), wire)
    | some (.read size) => (.value (wire.take (min count size)), wire.drop (min count size))

/-- `advance` on a wire. An end that raised is not used again, and stays as it was. -/
def poll (c : Codec) (ch : Channel) (wire : List UInt8) (joined : Bool) (report : Report) (starts : Bool) :
    Channel × List UInt8 × Result :=
  match ch.advance c (ch.complete wire joined report).1 starts with
  | (_, .raised) => (ch, wire, .raised)
  | (ch', result) => (ch', (ch.complete wire joined report).2, result)

/-- The system takes more bytes of an outstanding write. -/
def transfer (ch : Channel) (wire : List UInt8) (count : ℕ) : Channel × List UInt8 :=
  match ch.operation with
  | some (.write moved) =>
    ({ ch with operation := some (.write (min ch.data.length (moved + count))) },
      wire ++ (ch.data.drop moved).take count)
  | _ => (ch, wire)

end Channel

end StrixAlloy.Handoff

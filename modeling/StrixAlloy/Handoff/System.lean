import StrixAlloy.Handoff.Pipe

/-!
# The handoff between a parent and its guardian

The parent's `control_request` of a handoff, the guardian's `ControlServer` and `_IpcLifecycle`, the
pipes between them, and other clients. Each event of a run is one step of one of these, or of the system
that moves bytes; the order is free, and so is what the system reports, when a deadline passes and
whether a check of the operating system's holds. An event that its owner's state excludes changes nothing.

The parent is the process that the guardian was launched by: it makes this one request, and no other
client is the process with its identity. `commits` and `written` are history: the slots on whose commit
`handoff.json` was replaced, and whether it was.
-/

namespace StrixAlloy.Handoff

/-- What both sides know: the published record, the parent of the descriptor, `ntpath.normcase`. -/
structure Setting where
  codec : Codec
  run_id : String
  profile_digest : String
  guardian : Identity
  child : Identity
  run : String
  parent : Identity
  normcase : String → String

/-- `_matchIdentity`. -/
def Setting.matchIdentity (x : Setting) (expected actual : Identity) : Bool :=
  expected.pid = actual.pid && expected.creation_time_100ns = actual.creation_time_100ns &&
    expected.user_sid = actual.user_sid && x.normcase expected.executable = x.normcase actual.executable

/-- The process is the parent's: no other has its number and its creation time. -/
def Setting.isParent (x : Setting) (p : Identity) : Bool :=
  p.pid = x.parent.pid && p.creation_time_100ns = x.parent.creation_time_100ns

/-- A message body without fields. -/
def emptyBody : Message where
  schema_version := none
  run_id := none
  profile_digest := none
  challenge := none
  kind := none
  command := none
  client := none
  state := none
  guardian := none
  child := none
  run := none

/-- `_envelope`. -/
def Setting.envelope (x : Setting) (challenge : String) (body : Message) : Message :=
  { body with schema_version := some 1, run_id := some x.run_id, profile_digest := some x.profile_digest
              challenge := some challenge }

/-- `_validateEnvelope`. -/
def Setting.validateEnvelope (x : Setting) (m : Message) (challenge : String) : Bool :=
  m.schema_version = some 1 && m.run_id = some x.run_id && m.profile_digest = some x.profile_digest &&
    m.challenge = some challenge

inductive Client where
  | nobody
  | parent
  | other (p : Identity)
deriving DecidableEq

/-- The guardian's end of a pipe instance, who is at the other end, and the bytes between them. `listed`
holds while the server polls the slot. -/
structure Slot where
  server : Channel
  client : Client
  peer : Option Identity
  listed : Bool
  up : List UInt8
  down : List UInt8

inductive Command where
  | status
  | stop
  | handoff
  | commit
  | disconnect
deriving DecidableEq

/-- The command of a request. -/
def Command.parse (s : String) : Option Command :=
  if s = "status" then some .status
  else if s = "stop" then some .stop
  else if s = "handoff" then some .handoff
  else if s = "commit" then some .commit
  else none

/-- An event of the server's poll. -/
structure Event where
  slot : ℕ
  command : Command
  peer : Option Identity

inductive Status where
  | starting
  | ready
  | running
  | stopping
  | stopped
deriving DecidableEq

def Status.text : Status → String
  | starting => "starting"
  | ready => "ready"
  | running => "running"
  | stopping => "stopping"
  | stopped => "stopped"

/-- Where the parent is in `control_request`. -/
inductive Stage where
  | idle
  | greeting
  | requesting
  | ready
  | committing
  | acknowledging
  | ended
deriving DecidableEq

/-- What `control_request` gives: a definite failure, or a response. -/
inductive Outcome where
  | raised
  | indeterminate
  | committed
deriving DecidableEq

structure Parent where
  stage : Stage
  slot : ℕ
  channel : Channel
  committed : Bool
  outcome : Option Outcome

structure State where
  parent : Parent
  slots : List Slot
  events : List Event
  parent_event : Option ℕ
  status : Status
  committed : Bool
  stopping : Bool
  failed : Bool
  crashed : Bool
  readied : Bool
  written : Bool
  commits : List ℕ

def init : State where
  parent := { stage := .idle, slot := 0, channel := .init "", committed := false, outcome := none }
  slots := []
  events := []
  parent_event := none
  status := .starting
  committed := false
  stopping := false
  failed := false
  crashed := false
  readied := false
  written := false
  commits := []

/-- How a call of `atomic_json` ends: the file is replaced, it is not, or it is and the call raises. -/
inductive Saved where
  | replaced
  | lost
  | interrupted

namespace State

variable (x : Setting)

/-- The slot `k` after a change of it. -/
def modify (s : State) (k : ℕ) (f : Slot → Slot) : State :=
  { s with slots := s.slots.modify k f }

/-! ## The server -/

/-- `_listen`: a new instance, unless one waits for a client already. -/
def listen (s : State) (challenge : String) : State :=
  if s.crashed ∨ s.slots.any (fun c => c.listed && c.server.mode = .connect) ∨
      4 ≤ (s.slots.filter (·.listed)).length then s
  else
    { s with slots := s.slots ++
        [{ server := { Channel.init challenge with mode := .connect, operation := some .connect }
           client := .nobody, peer := none, listed := true, up := [], down := [] }] }

/-- The end of a slot that failed. -/
def disconnect (s : State) (k : ℕ) : State :=
  { s.modify k (fun c => { c with listed := false }) with
    events := s.events ++ [{ slot := k, command := .disconnect, peer := none }] }

/-- What the client's process is. -/
def clientIdentity : Client → Option Identity
  | .nobody => none
  | .parent => some x.parent
  | .other p => some p

/-- The server's poll of the slot `k`. `known` says that the client's process could be opened and belongs
to the guardian's user, or that it is still alive. -/
def slotAdvance (s : State) (k : ℕ) (report : Channel.Report) (known starts : Bool) : State :=
  match s.slots[k]? with
  | none => s
  | some c =>
    if s.crashed ∨ ¬ c.listed then s
    else
      match c.server.poll x.codec c.up (c.client ≠ .nobody) report starts with
      | (_, _, .raised) => s.disconnect k
      | (ch, up, .nothing) => s.modify k (fun c => { c with server := ch, up := up })
      | (ch, up, .connected) =>
        let s := s.modify k (fun c => { c with server := ch, up := up, peer := clientIdentity x c.client })
        if ¬ known then s.disconnect k
        else
          let body := { emptyBody with kind := some "challenge" }
          match ch.send x.codec (x.envelope ch.challenge body) .request starts with
          | none => s.disconnect k
          | some ch => s.modify k (fun c => { c with server := ch })
      | (ch, up, .sent) =>
        let s := s.modify k (fun c => { c with server := ch, up := up })
        if ch.mode = .request ∨ ch.mode = .commit then
          match ch.receive starts with
          | none => s.disconnect k
          | some ch => s.modify k (fun c => { c with server := ch })
        else s.modify k (fun c => { c with listed := false })
      | (ch, up, .message m) =>
        let s := s.modify k (fun c => { c with server := ch, up := up })
        match c.peer, m.client, m.command.bind Command.parse with
        | some peer, some client, some command =>
          if x.validateEnvelope m ch.challenge ∧ x.matchIdentity client peer ∧ known then
            { s with events := s.events ++ [{ slot := k, command := command, peer := some peer }] }
          else s.disconnect k
        | _, _, _ => s.disconnect k

/-- The deadline of a client that is not retained. -/
def slotTimeout (s : State) (k : ℕ) : State :=
  match s.slots[k]? with
  | none => s
  | some c => if s.crashed ∨ ¬ c.listed ∨ c.server.mode = .connect ∨ c.server.retained then s else s.disconnect k

/-- `reply`; when it raises, so does the guardian. -/
def reply (s : State) (k : ℕ) (body : Message) (retain : Bool) (starts : Bool) : State :=
  match s.slots[k]? with
  | none => s
  | some c =>
    match { c.server with retained := retain }.send x.codec (x.envelope c.server.challenge body)
        (if retain then .commit else .close) starts with
    | none => { s with crashed := true }
    | some ch => s.modify k (fun c => { c with server := ch })

/-! ## The lifecycle -/

/-- A reply of one field. -/
def stateBody (text : String) : Message := { emptyBody with state := some text }

/-- A commit that the guardian takes. -/
def commit (s : State) (k : ℕ) (saved : Saved) (starts : Bool) : State :=
  match saved with
  | .lost => { s with crashed := true }
  | .interrupted => { s with crashed := true, written := true, commits := s.commits ++ [k] }
  | .replaced =>
    { s with written := true, commits := s.commits ++ [k], committed := true, status := .running }.reply x k
      (stateBody "committed") false starts

/-- A `handoff` command. -/
def beginHandoff (s : State) (e : Event) (starts : Bool) : State :=
  match s.slots[e.slot]?, e.peer with
  | some c, some peer =>
    if x.matchIdentity x.parent peer ∧ s.parent_event = none ∧ ¬ s.committed then
      let s := { s with parent_event := some e.slot }
      match { c.server with retained := true }.receive starts with
      | none => { s with crashed := true }
      | some ch => s.modify e.slot (fun c => { c with server := ch })
    else s.reply x e.slot (stateBody "refused") false starts
  | _, _ => s

/-- The lifecycle's poll on one event, `authorized` says what `_authorize_event` returns, `snapshot` what
the provider of the status does. -/
def handle (s : State) (authorized : Bool) (saved : Saved) (snapshot : Message) (starts : Bool) : State :=
  match s.events with
  | [] => s
  | e :: events =>
    if s.crashed then s
    else
      let s := { s with events := events }
      let original := s.parent_event = some e.slot
      if e.command ≠ .disconnect ∧ ¬ authorized then s.reply x e.slot (stateBody "refused") false starts
      else
        match e.command with
        | .disconnect => if original ∧ ¬ s.committed then { s with failed := true } else s
        | .handoff =>
          if original ∧ ¬ s.committed then
            { s with failed := true }.reply x e.slot (stateBody "refused") false starts
          else s.beginHandoff x e starts
        | .commit =>
          if ¬ original ∨ s.status ≠ .ready ∨ s.committed ∨ s.stopping ∨ s.failed then
            { s with failed := s.failed || (original && !s.committed) }.reply x e.slot
              (stateBody "refused") false starts
          else s.commit x e.slot saved starts
        | .stop =>
          { s with stopping := true, status := .stopping }.reply x e.slot (stateBody "stopping") false starts
        | .status =>
          if original ∧ ¬ s.committed then
            { s with failed := true }.reply x e.slot (stateBody "refused") false starts
          else
            let body := { snapshot with state := some s.status.text, guardian := some x.guardian
                                        child := some x.child, run := some x.run }
            s.reply x e.slot body false starts

/-- `on_ready`, between two polls; `bound` says that the readiness is the child's. -/
def ready (s : State) (bound starts : Bool) : State :=
  if s.crashed ∨ s.readied ∨ s.events ≠ [] then s
  else
    match s.parent_event with
    | none => { s with crashed := true }
    | some k =>
      if s.failed ∨ s.stopping ∨ ¬ bound then { s with crashed := true }
      else
        let body := { stateBody "ready" with guardian := some x.guardian, child := some x.child
                                             run := some x.run }
        { s with status := .ready, readied := true }.reply x k body true starts

/-- The parent has died or the handoff's deadline has passed. -/
def expire (s : State) : State := if s.crashed ∨ s.committed then s else { s with failed := true }

/-- `on_result`. -/
def result (s : State) : State := { s with status := .stopped }

/-! ## The clients -/

/-- Another process connects to an instance. -/
def clientConnect (s : State) (k : ℕ) (p : Identity) : State :=
  if x.isParent p then s
  else s.modify k (fun c => if c.listed ∧ c.client = .nobody then { c with client := .other p } else c)

/-- Another client writes what it likes. -/
def inject (s : State) (k : ℕ) (bytes : List UInt8) : State :=
  s.modify k fun c =>
    match c.client with
    | .other _ => { c with up := c.up ++ bytes }
    | _ => c

/-- The system takes bytes of a write of the guardian's. -/
def transferDown (s : State) (k count : ℕ) : State :=
  s.modify k fun c =>
    { c with server := (c.server.transfer c.down count).1, down := (c.server.transfer c.down count).2 }

/-- The system takes bytes of a write of the parent's. -/
def transferUp (s : State) (count : ℕ) : State :=
  match s.slots[s.parent.slot]? with
  | none => s
  | some c =>
    if c.client ≠ .parent then s
    else
      { s.modify s.parent.slot (fun c => { c with up := (s.parent.channel.transfer c.up count).2 }) with
        parent := { s.parent with channel := (s.parent.channel.transfer c.up count).1 } }

/-! ## The parent -/

/-- An exception in `control_request`. -/
def parentFail (s : State) : State :=
  if s.parent.stage = .ended then s
  else
    { s with parent := { s.parent with
      stage := .ended, outcome := some (if s.parent.committed then .indeterminate else .raised) } }

/-- `_connect`, up to its first read. -/
def parentConnect (s : State) (k : ℕ) (starts : Bool) : State :=
  match s.slots[k]? with
  | none => s
  | some c =>
    if s.parent.stage ≠ .idle ∨ ¬ c.listed ∨ c.client ≠ .nobody then s
    else
      match (Channel.init "").receive starts with
      | none => s.parentFail
      | some ch =>
        { s.modify k (fun c => { c with client := .parent }) with
          parent := { s.parent with stage := .greeting, slot := k, channel := ch } }

/-- The parent's channel and its stage after a step. -/
def parentAt (s : State) (stage : Stage) (ch : Channel) : State :=
  { s with parent := { s.parent with stage := stage, channel := ch } }

/-- The parent sends a command. -/
def parentSend (s : State) (command : String) (stage : Stage) (starts : Bool) : State :=
  let body := { emptyBody with command := some command, client := some x.parent }
  match s.parent.channel.send x.codec (x.envelope s.parent.channel.challenge body) .request starts with
  | none => s.parentFail
  | some ch => s.parentAt stage ch

/-- The parent's commit: that it was sent is noted once `send` returns. -/
def parentCommit (s : State) (starts : Bool) : State :=
  let s := s.parentSend x "commit" .committing starts
  { s with parent := { s.parent with committed := s.parent.stage = .committing } }

/-- What the parent does with a message. -/
def parentMessage (s : State) (m : Message) (starts : Bool) : State :=
  match s.parent.stage with
  | .greeting =>
    match m.challenge with
    | some challenge =>
      if challenge.length = 64 ∧ m.kind = some "challenge" ∧ x.validateEnvelope m challenge then
        (s.parentAt .greeting { s.parent.channel with challenge := challenge }).parentSend x "handoff"
          .requesting starts
      else s.parentFail
    | none => s.parentFail
  | .ready =>
    if x.validateEnvelope m s.parent.channel.challenge ∧ m.state = some "ready" ∧
        m.guardian = some x.guardian ∧ m.child = some x.child ∧ m.run = some x.run then
      s.parentCommit x starts
    else s.parentFail
  | .acknowledging =>
    if x.validateEnvelope m s.parent.channel.challenge ∧ m.state = some "committed" then
      { s with parent := { s.parent with stage := .ended, outcome := some .committed } }
    else s.parentFail
  | _ => s.parentFail

/-- The parent's poll of its channel. A write that is done is followed by a read. -/
def parentAdvance (s : State) (report : Channel.Report) (starts : Bool) : State :=
  match s.slots[s.parent.slot]? with
  | none => s
  | some c =>
    if s.parent.stage = .idle ∨ s.parent.stage = .ended ∨ c.client ≠ .parent then s
    else
      match s.parent.channel.poll x.codec c.down true report starts with
      | (_, _, .raised) => s.parentFail
      | (ch, down, result) =>
        let s := (s.modify s.parent.slot (fun c => { c with down := down })).parentAt s.parent.stage ch
        match result with
        | .nothing => s
        | .message m => s.parentMessage x m starts
        | _ =>
          match ch.receive starts with
          | none => s.parentFail
          | some ch => s.parentAt (if s.parent.stage = .requesting then .ready else .acknowledging) ch

end State

/-- A step of the guardian's, of the parent's, of another client's or of the system's. -/
inductive Act where
  | listen (challenge : String)
  | slotAdvance (k : ℕ) (report : Channel.Report) (known starts : Bool)
  | slotTimeout (k : ℕ)
  | handle (authorized : Bool) (saved : Saved) (snapshot : Message) (starts : Bool)
  | ready (bound starts : Bool)
  | expire
  | result
  | guardianFail
  | clientConnect (k : ℕ) (p : Identity)
  | inject (k : ℕ) (bytes : List UInt8)
  | transferDown (k count : ℕ)
  | transferUp (count : ℕ)
  | parentConnect (k : ℕ) (starts : Bool)
  | parentAdvance (report : Channel.Report) (starts : Bool)
  | parentFail

/-- One step of a run. -/
def step (x : Setting) (s : State) : Act → State
  | .listen challenge => s.listen challenge
  | .slotAdvance k report known starts => s.slotAdvance x k report known starts
  | .slotTimeout k => s.slotTimeout k
  | .handle authorized saved snapshot starts => s.handle x authorized saved snapshot starts
  | .ready bound starts => s.ready x bound starts
  | .expire => s.expire
  | .result => s.result
  | .guardianFail => { s with crashed := true }
  | .clientConnect k p => s.clientConnect x k p
  | .inject k bytes => s.inject k bytes
  | .transferDown k count => s.transferDown k count
  | .transferUp count => s.transferUp count
  | .parentConnect k starts => s.parentConnect k starts
  | .parentAdvance report starts => s.parentAdvance x report starts
  | .parentFail => s.parentFail

end StrixAlloy.Handoff

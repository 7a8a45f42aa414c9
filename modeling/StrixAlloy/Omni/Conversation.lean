import StrixAlloy.Omni.TextSession

/-!
# The conversation

`OmniConversation` over its `TextSession` and its `_ObservedSocket`, as one step relation: the calls of
its owner, the drains of its invalidations, and what its coroutines do between two awaits, in any order.
The server's events and the values of the clock are arbitrary. `_snapshot` is not modelled: a call comes
with what it returns for the snapshot.
-/

namespace StrixAlloy.Omni

/-! ## Identities -/

/-- The values of `SCOPE`. -/
structure Scope where
  call_id : String
  task_id : String
  task_revision : ℤ
  context_revision : ℤ
  observation_revision : ℤ
deriving DecidableEq

/-- The values of `KEY`. -/
structure Key where
  scope : Scope
  output_epoch : ℤ
  request_id : String
deriving DecidableEq

/-- `ResponseIdentity`. -/
structure Identity where
  key : Key
  socket_instance : Option String
  server_session_id : Option String
  turn_id : ℤ
  generation_id : ℤ
deriving DecidableEq

inductive Failure where
  | unavailable
  | busy
  | invalidInput
  | superseded
deriving DecidableEq

/-- `CandidateReply`. -/
structure Reply where
  text : String
  identity : Option Identity
  authoritative_whisper_text : String
  submitted_at : Option ℚ
  first_valid_text_at : Option ℚ
  done_at : Option ℚ
  terminal_at : Option ℚ
  cancelled : Bool
  failure : Option Failure

namespace Reply

/-- `CandidateReply(failure=failure)`. -/
def failed (failure : Failure) : Reply := ⟨"", none, "", none, none, none, none, false, some failure⟩

end Reply

namespace Scope

/-- `_scope`, for values of the right types. -/
def valid (s : Scope) : Bool :=
  (string 128 false (.str s.call_id)).isSome && (string 128 false (.str s.task_id)).isSome &&
    (integer 0 (.int s.task_revision)).isSome && (integer 0 (.int s.context_revision)).isSome &&
    (integer 0 (.int s.observation_revision)).isSome

/-- The scope may follow the one that is bound. -/
def follows (s bound : Scope) : Bool :=
  s.call_id = bound.call_id && s.task_id = bound.task_id && bound.task_revision ≤ s.task_revision &&
    bound.context_revision ≤ s.context_revision && bound.observation_revision ≤ s.observation_revision

end Scope

/-! ## The state -/

inductive State where
  | new
  | starting
  | ready
  | unavailable
deriving DecidableEq

/-- Where `start` waits: for the first event of the session, with the event, or with an exception of the
socket. -/
inductive Handshake where
  | waiting
  | heard (event : Members)
  | refused

/-- Where `TextSession.turn` is: not started, sending the input, waiting for an event, with an event that
the socket returned, with an exception of the socket, in `on_delta`, or ended. -/
inductive TurnPhase where
  | created
  | sending
  | receiving
  | heard (event : Members)
  | refused
  | delivering
  | raised
  | returned (r : Result)

/-- The task of a turn. -/
structure TurnTask where
  locals : Turn
  phase : TurnPhase

/-- Why `respond` awaits `_abort`: for an exception; or for a cancellation, which is raised again unless it
was the conversation that was interrupted. -/
inductive Aborting where
  | exception
  | cancelled (interrupted : Bool)
deriving DecidableEq

/-- Where `respond` is: in `update_context`, where that has failed, waiting for the turn, or in `_abort`. -/
inductive RespondPhase where
  | updating
  | failing
  | turning
  | aborting (why : Aborting)
deriving DecidableEq

/-- The call of `respond` that has passed its checks. `deltas` is history: the deltas for which `on_delta`
was called. -/
structure Respond where
  key : Key
  raw : String
  submitted : Option ℚ
  on_delta : Bool
  phase : RespondPhase
  deltas : List String

/-- Where `_drain` is: not started, about to cancel the turn, waiting for `response.cancel` to be sent,
where that has failed, waiting for the response to be done, or in `_abort`. -/
inductive Drain where
  | created
  | cancelling
  | sent
  | failing
  | waiting
  | aborting
deriving DecidableEq

/-- What `respond` returned, with the deltas for which its `on_delta` was called, if it had one. -/
structure Returned where
  reply : Reply
  deltas : Option (List String)

/-- The conversation. `invalidating` counts the drains that have not ended, which are in `drains`; a
socket that is to be closed is marked by `closing`. The last three fields are history: the calls of
`on_delta`, what `respond` returned, and whether the server broke the protocol. -/
structure Conversation where
  state : State
  busy : Bool
  invalidating : ℕ
  key : Option Key
  bound_scope : Option Scope
  output_epoch : ℤ
  call_id : Option String
  socket_instance : Option String
  server_session_id : Option String
  socket : Option Observed
  session : Session
  handshake : Option Handshake
  respond : Option Respond
  active_turn : Option TurnTask
  drains : List Drain
  closing : Bool
  calls : List (String × Identity)
  replies : List Returned
  violated : Bool

/-- The calls of the owner, and the steps of the coroutines. A step that ends with `Fails` is an exception
of any kind at an await: a deadline, the transport, or a cancellation. -/
inductive Act where
  | start (call_id : String) (output_epoch : ℤ) (seed_rules : String) (socket_instance : String)
  | startHears (now : Option ℚ) (event : Json)
  | startEnds
  | startFails
  | respond (raw : String) (patch : Option String) (key : Key) (on_delta : Bool) (now : Option ℚ)
  | updateEnds
  | updateFails
  | turnStarts
  | turnSends
  | turnHears (now : Option ℚ) (event : Json)
  | turnTakes
  | turnDelivers
  | turnFails
  | respondEnds
  | respondFails
  | respondCancelled
  | respondReturns
  | invalidate (new_epoch : ℤ) (reason : String)
  | drain (d : Drain) (fails : Bool)
  | close
  | sessionCloses
  | socketCloses

namespace Conversation

def init : Conversation where
  state := .new
  busy := false
  invalidating := 0
  key := none
  bound_scope := none
  output_epoch := 0
  call_id := none
  socket_instance := none
  server_session_id := none
  socket := none
  session := .init
  handshake := none
  respond := none
  active_turn := none
  drains := []
  closing := false
  calls := []
  replies := []
  violated := false

/-! ## Currency -/

/-- The checks that `isCurrent` and `isStreamCurrent` share; `turn` and `generation` are the numbers of
the socket that they compare with. -/
def currentFor (s : Conversation) (turn generation : Observed → Option ℤ) (i : Identity) : Bool :=
  s.state = .ready && s.key = some i.key && s.invalidating = 0 && i.key.output_epoch = s.output_epoch &&
    i.socket_instance = s.socket_instance && i.server_session_id = s.server_session_id &&
    s.socket.any fun o => !o.closed && turn o = some i.turn_id && generation o = some i.generation_id

def isCurrent (s : Conversation) (i : Identity) : Bool :=
  s.currentFor (fun o => some o.last_turn) (fun o => some o.last_generation) i

def isStreamCurrent (s : Conversation) (i : Identity) : Bool :=
  s.currentFor Observed.turn_id Observed.generation_id i

/-- The identity that `_candidate` gives a response. -/
def identity (s : Conversation) (key : Key) : Option Identity :=
  match s.socket.bind Observed.turn_id, s.socket.bind Observed.generation_id with
  | some turn, some generation => some ⟨key, s.socket_instance, s.server_session_id, turn, generation⟩
  | _, _ => none

/-- `_candidate`. -/
def candidate (s : Conversation) (r : Respond) (text : String) (cancelled : Bool)
    (failure : Option Failure) : Reply where
  text := text
  identity := s.identity r.key
  authoritative_whisper_text := r.raw
  submitted_at := r.submitted
  first_valid_text_at := s.socket.bind Observed.first_at
  done_at := s.socket.bind Observed.done_at
  terminal_at := s.socket.bind Observed.terminal_at
  cancelled := cancelled
  failure := failure

/-! ## The coroutines -/

/-- `_abort`, up to its await. A turn that it cancels may fail at any await. -/
def abort (s : Conversation) : Conversation :=
  { s with state := .unavailable, key := none, closing := true }

/-- `_failed` of the session, up to its await. -/
def failed (s : Conversation) : Conversation := { s with session := s.session.failed, closing := true }

/-- The session's `active`. -/
def active (s : Conversation) : Bool :=
  s.active_turn.any fun t =>
    match t.phase with
    | .sending | .receiving | .heard _ | .refused | .delivering => true
    | _ => false

def start (s : Conversation) (call_id : String) (output_epoch : ℤ) (seed_rules socket_instance : String) :
    Conversation :=
  if s.state ≠ .new ∨ (string 128 false (.str call_id)).isNone ∨
      (integer 1 (.int output_epoch)).isNone ∨ (string 10000 false (.str seed_rules)).isNone then s
  else
    { s with
      state := .starting
      call_id := some call_id
      output_epoch := output_epoch
      socket_instance := some socket_instance
      socket := some .init
      handshake := some .waiting }

/-- `start`'s event comes from the socket. -/
def startHears (small : FloatText → Bool) (s : Conversation) (now : Option ℚ) (event : Json) :
    Conversation :=
  match s.socket, s.handshake with
  | some o, some .waiting =>
    match o.receive small now event with
    | .ok (o, some event) => { s with socket := some o, handshake := some (.heard event) }
    | .ok (o, none) => { s with socket := some o }
    | .error o => { s with socket := some o, handshake := some .refused, violated := true }
  | _, _ => s

/-- `start` goes on with what the socket returned or raised. -/
def startEnds (s : Conversation) : Conversation :=
  match s.handshake with
  | none | some .waiting => s
  | some .refused => { s with handshake := none }.failed.abort
  | some (.heard event) =>
    match Turn.text 128 (get event "session_id") with
    | none => { s with handshake := none, violated := true }.failed.abort
    | some session_id =>
      if !isText "session.ready" (get event "type") ∨ !isText "text" (get event "mode") then
        { s with handshake := none, violated := true }.failed.abort
      else if s.state ≠ .starting then
        { s with handshake := none, session := { s.session with ready := true } }.abort
      else
        { s with
          handshake := none
          session := { s.session with ready := true }
          server_session_id := some session_id
          state := .ready }

/-- An exception at an await of `start`. -/
def startFails (s : Conversation) : Conversation :=
  if s.handshake.isSome then { s with handshake := none }.failed.abort else s

/-- What `respond` refuses as invalid, after `_string` of its text. -/
def acceptable (s : Conversation) (key : Key) : Bool :=
  key.scope.valid && (string 128 false (.str key.request_id)).isSome &&
    (integer 1 (.int key.output_epoch)).isSome && s.call_id = some key.scope.call_id &&
    key.output_epoch = s.output_epoch && s.bound_scope.all (fun bound => key.scope.follows bound) &&
    s.key ≠ some key

/-- A call of `respond` that ends at once. -/
def refuse (s : Conversation) (failure : Failure) : Conversation :=
  { s with replies := s.replies ++ [⟨.failed failure, none⟩] }

/-- `respond`, up to the await of `update_context`. -/
def begin (s : Conversation) (raw : String) (patch : Option String) (key : Key) (on_delta : Bool)
    (now : Option ℚ) : Conversation :=
  if s.state ≠ .ready then s.refuse .unavailable
  else if s.busy ∨ s.invalidating ≠ 0 then s.refuse .busy
  else
    match patch with
    | none => s.refuse .invalidInput
    | some patch =>
      if (string 4000 false (.str raw)).isNone ∨ (string 10000 false (.str patch)).isNone ∨
          !s.acceptable key then
        s.refuse .invalidInput
      else
        let s := { s with
          busy := true
          key := some key
          bound_scope := some key.scope
          socket := s.socket.map Observed.beginResponse }
        match now with
        | none => { s.abort with
            respond := some ⟨key, raw, none, on_delta, .aborting .exception, []⟩ }
        | some now => { s with respond := some ⟨key, raw, some now, on_delta, .updating, []⟩ }

/-- The end of `respond`, with what it returns, if it does not raise. -/
def finish (s : Conversation) (r : Respond) (reply : Option Reply) : Conversation :=
  { s with
    active_turn := none
    busy := false
    respond := none
    replies := s.replies ++
      (reply.map fun reply => ⟨reply, if r.on_delta then some r.deltas else none⟩).toList }

/-- `respond` awaits `_abort`. -/
def abortRespond (s : Conversation) (r : Respond) (why : Aborting) : Conversation :=
  { s.abort with respond := some { r with phase := .aborting why } }

/-- `update_context` has sent the patch. -/
def updateEnds (s : Conversation) : Conversation :=
  match s.respond with
  | some r =>
    if r.phase ≠ .updating then s
    else if !s.session.ready ∨ s.session.closed then
      { s.failed with respond := some { r with phase := .failing } }
    else if s.state ≠ .ready ∨ r.key.output_epoch ≠ s.output_epoch then
      s.finish r (some (s.candidate r "" true (some .superseded)))
    else
      { s with
        respond := some { r with phase := .turning }
        active_turn := some ⟨Turn.init r.on_delta, .created⟩ }
  | none => s

def updateFails (s : Conversation) : Conversation :=
  match s.respond with
  | some r =>
    if r.phase ≠ .updating then s else { s.failed with respond := some { r with phase := .failing } }
  | none => s

/-- The task of the turn goes to another await. -/
def goto (s : Conversation) (t : TurnTask) (phase : TurnPhase) : Conversation :=
  { s with active_turn := some { t with phase := phase } }

/-- The turn raises, and the session fails. -/
def raise (s : Conversation) (t : TurnTask) : Conversation := s.failed.goto t .raised

/-- The first step of `turn`, up to the await of `send_json`. Its first checks do not fail the session. -/
def turnStarts (s : Conversation) : Conversation :=
  match s.respond, s.active_turn with
  | some r, some t =>
    match t.phase with
    | .created =>
      if (Turn.text 128 (.str r.key.request_id)).isNone ∨ (Turn.text 4000 (.str r.raw)).isNone ∨
          !s.session.ready ∨ s.session.closed then
        s.goto t .raised
      else { s with session := { s.session with cancel_requested := false } }.goto t .sending
    | _ => s
  | _, _ => s

/-- The input is sent. -/
def turnSends (s : Conversation) : Conversation :=
  match s.active_turn, s.socket with
  | some t, some o =>
    match t.phase with
    | .sending =>
      if o.closed then s.raise t else { s with socket := some o.beginResponse }.goto t .receiving
    | _ => s
  | _, _ => s

/-- An event of the turn comes from the socket. A `receive_json` that was given up may still take one. -/
def turnHears (small : FloatText → Bool) (s : Conversation) (now : Option ℚ) (event : Json) :
    Conversation :=
  match s.active_turn, s.socket with
  | some t, some o =>
    match t.phase with
    | .receiving =>
      match o.receive small now event with
      | .ok (o, some event) => { s with socket := some o }.goto t (.heard event)
      | .ok (o, none) => { s with socket := some o }
      | .error o => { s with socket := some o, violated := true }.goto t .refused
    | .raised =>
      match o.receive small now event with
      | .ok (o, _) => { s with socket := some o }
      | .error o => { s with socket := some o, violated := true }
    | _ => s
  | _, _ => s

/-- The callback that `respond` gives to the turn. -/
def stream (s : Conversation) (r : Respond) (t : TurnTask) (delta : String) : Conversation :=
  match s.identity r.key with
  | some i =>
    if s.isStreamCurrent i then
      { s with
        calls := s.calls ++ [(delta, i)]
        respond := some { r with deltas := r.deltas ++ [delta] } }.goto t .delivering
    else s.goto t .receiving
  | none => s.goto t .receiving

/-- The turn goes on with what the socket returned or raised. -/
def turnTakes (s : Conversation) : Conversation :=
  match s.respond, s.active_turn with
  | some r, some t =>
    match t.phase with
    | .refused => s.raise t
    | .heard event =>
      match t.locals.take s.session event with
      | none => { s with violated := true }.raise t
      | some (.next locals none) => s.goto { t with locals := locals } .receiving
      | some (.next locals (some delta)) => s.stream r { t with locals := locals } delta
      | some (.returned result) =>
        { s with
          session := { s.session with
            last_turn := result.turn_id
            last_generation := result.generation_id } }.goto t (.returned result)
    | _ => s
  | _, _ => s

/-- `on_delta` has returned. -/
def turnDelivers (s : Conversation) : Conversation :=
  match s.active_turn with
  | some t =>
    match t.phase with
    | .delivering => s.goto t .receiving
    | _ => s
  | none => s

/-- An exception at an await of the turn. -/
def turnFails (s : Conversation) : Conversation :=
  match s.active_turn with
  | some t =>
    match t.phase with
    | .raised | .returned _ => s
    | .created => s.goto t .raised
    | _ => s.raise t
  | none => s

/-- The turn has ended, and `respond` goes on. -/
def respondEnds (s : Conversation) : Conversation :=
  match s.respond, s.active_turn with
  | some r, some t =>
    if r.phase ≠ .turning then s
    else
      match t.phase with
      | .raised => s.abortRespond r .exception
      | .returned result =>
        let candidate := s.candidate r result.text result.cancelled none
        if result.cancelled ∨ !candidate.identity.any s.isCurrent then
          s.finish r (some (s.candidate r "" true (some .superseded)))
        else if candidate.done_at = none ∨ candidate.terminal_at = none then s.abortRespond r .exception
        else s.finish r (some candidate)
      | _ => s
  | _, _ => s

/-- The exception of `update_context` reaches `respond`. -/
def respondFails (s : Conversation) : Conversation :=
  match s.respond with
  | some r => if r.phase = .failing then s.abortRespond r .exception else s
  | none => s

/-- A cancellation reaches `respond` at its await. -/
def respondCancelled (s : Conversation) : Conversation :=
  match s.respond with
  | some r =>
    match r.phase with
    | .aborting _ => s
    | _ => s.abortRespond r (.cancelled (s.state ≠ .ready || r.key.output_epoch ≠ s.output_epoch))
  | none => s

/-- `_abort` has ended. -/
def respondReturns (s : Conversation) : Conversation :=
  match s.respond with
  | some r =>
    match r.phase with
    | .aborting .exception => s.finish r
        (some (s.candidate r "" (r.key.output_epoch ≠ s.output_epoch) (some .unavailable)))
    | .aborting (.cancelled true) => s.finish r (some (s.candidate r "" true (some .unavailable)))
    | .aborting (.cancelled false) => s.finish r none
    | _ => s
  | none => s

/-- `invalidate` accepts its arguments. -/
def invalidates (s : Conversation) (new_epoch : ℤ) (reason : String) : Bool :=
  (integer 1 (.int new_epoch)).isSome && s.output_epoch < new_epoch &&
    (string 512 false (.str reason)).isSome

def invalidate (s : Conversation) (new_epoch : ℤ) (reason : String) : Conversation :=
  if s.invalidates new_epoch reason then
    { s with
      output_epoch := new_epoch
      key := none
      invalidating := s.invalidating + 1
      drains := s.drains ++ [.created] }
  else s

/-- The drain `d` goes on to `d'`. -/
def drainGoto (s : Conversation) (d d' : Drain) : Conversation :=
  { s with drains := s.drains.erase d ++ [d'] }

/-- The end of the drain `d`. -/
def drainEnds (s : Conversation) (d : Drain) : Conversation :=
  { s with invalidating := s.invalidating - 1, drains := s.drains.erase d }

/-- A step of one of the drains, at whose await an exception is thrown if `fails`. -/
def drain (s : Conversation) (d : Drain) (fails : Bool) : Conversation :=
  if d ∉ s.drains then s
  else
    match d, fails with
    | .created, _ =>
      if s.state = .ready ∧ s.busy then
        s.drainGoto d (if s.active_turn.isSome then .cancelling else .waiting)
      else s.drainEnds d
    | .cancelling, false =>
      if !s.session.ready ∨ s.session.closed then s.abort.drainGoto d .aborting
      else if s.active then
        { s with session := { s.session with cancel_requested := true } }.drainGoto d .sent
      else s.drainGoto d .waiting
    | .cancelling, true => s.abort.drainGoto d .aborting
    | .sent, false => s.drainGoto d .waiting
    | .sent, true => s.failed.drainGoto d .failing
    | .failing, _ => s.abort.drainGoto d .aborting
    | .waiting, false =>
      if s.busy then s
      else if s.session.closed then s.abort.drainGoto d .aborting
      else s.drainEnds d
    | .waiting, true => s.abort.drainGoto d .aborting
    | .aborting, _ => s.drainEnds d

/-- `close`, up to its first await. -/
def close (s : Conversation) : Conversation :=
  if s.state = .unavailable then s
  else { s with state := .unavailable, key := none, output_epoch := s.output_epoch + 1 }

/-- One step. What an operation refuses changes nothing, and so does what is not possible now. -/
def step (small : FloatText → Bool) (s : Conversation) : Act → Conversation
  | .start call_id output_epoch seed_rules socket_instance =>
    s.start call_id output_epoch seed_rules socket_instance
  | .startHears now event => s.startHears small now event
  | .startEnds => s.startEnds
  | .startFails => s.startFails
  | .respond raw patch key on_delta now => s.begin raw patch key on_delta now
  | .updateEnds => s.updateEnds
  | .updateFails => s.updateFails
  | .turnStarts => s.turnStarts
  | .turnSends => s.turnSends
  | .turnHears now event => s.turnHears small now event
  | .turnTakes => s.turnTakes
  | .turnDelivers => s.turnDelivers
  | .turnFails => s.turnFails
  | .respondEnds => s.respondEnds
  | .respondFails => s.respondFails
  | .respondCancelled => s.respondCancelled
  | .respondReturns => s.respondReturns
  | .invalidate new_epoch reason => s.invalidate new_epoch reason
  | .drain d fails => s.drain d fails
  | .close => s.close
  | .sessionCloses => if s.state = .unavailable then s.failed else s
  | .socketCloses =>
    if s.closing then { s with socket := s.socket.map fun o => { o with closed := true } } else s

end Conversation

end StrixAlloy.Omni

import StrixAlloy.LocalText.Stream

/-!
# The local text socket

`LocalTextSocket` with its queue of 4096 entries, its generation task and the `_cancel` calls that wait
for the task, as one step relation. What a coroutine does between two awaits is one step. The answers
that the task awaits come in any order, late, or as exceptions, and a reader takes entries whenever it
likes.
-/

namespace StrixAlloy.LocalText

/-- The identity that a turn's messages carry, and that its record starts with. -/
structure Binding where
  turn_id : ℕ
  generation_id : ℕ
deriving DecidableEq

/-- The messages of the socket, without the constant `session_id`. -/
inductive Message where
  | ready
  | committed (turn_id : ℕ)
  | created (binding : Binding)
  | textDelta (delta : String) (binding : Binding)
  | textDone (text : String) (binding : Binding)
  | cancelled (binding : Binding)
  | metrics (cancelled : Bool) (binding : Binding)
  | error (code : String)
deriving DecidableEq

/-- A queued message. `turn` is history: the turn that the message was queued for, which an `error` does
not name. -/
structure Entry where
  turn : ℕ
  message : Message
deriving DecidableEq

/-- What the coroutine of a turn can be thrown at an await. -/
inductive Thrown where
  | exception
  | cancelled
deriving DecidableEq

/-- How the body of an `async with` was left: with its result, or by what was thrown. -/
inductive Exit where
  | value (result : String)
  | thrown (e : Thrown)
deriving DecidableEq

/-- Where `_generate` is: not started, at one of its awaits, or ended. While it leaves one of its two
requests it awaits their `__aexit__`. -/
inductive Phase where
  | created
  | getting
  | reading (status : ℕ)
  | leavingModels (exit : Exit)
  | posting (model : String)
  | streaming (st : Stream)
  | leavingStream (exit : Exit)
  | ended
deriving DecidableEq

/-- The generation task of a turn. `cancelling` says that its `cancel` was called. -/
structure Task where
  binding : Binding
  raw : String
  cancelling : Bool
  phase : Phase
deriving DecidableEq

/-- A call of `_cancel` that waits for the task of `turn`; `closing` says that it came from `close`. -/
structure Waiter where
  turn : ℕ
  closing : Bool
deriving DecidableEq

/-- The socket. `terminal` holds the turns whose record is marked as terminal; `read` and `accepted` are
history: the messages that a reader took, and the turns whose `input.text` returned. -/
structure Socket where
  selection_unavailable : Bool
  transient_busy : Bool
  events : List Entry
  closed : Bool
  turn : ℕ
  generation : ℕ
  seed : String
  snapshot : String
  task : Option Task
  record : Option Binding
  terminal : List ℕ
  waiting : List Waiter
  read : List Entry
  accepted : List ℕ
deriving DecidableEq

/-- What does not change while the socket lives: the model that the configuration asks for, the `json`
decoder, and whether `model_messages` accepts a prompt, a snapshot and a text. -/
structure Config where
  expected_model : Option String
  loads : List Char → Option Json
  model_messages : String → String → String → Bool

/-- What the task is given at an await: its first step, with whether `_token` returns a token; the answers
of the two requests; the end of an `__aexit__`; or what is thrown there. -/
inductive Answer where
  | first (token : Bool)
  | models (status : ℕ)
  | payload (payload : Payload)
  | exit
  | response (status : ℕ) (event_stream : Bool)
  | line (line : Line)
  | eof
  | throw (e : Thrown)

/-- The steps of the socket, of its callers and of its task. -/
inductive Event where
  | start (system_prompt : String) (text : Bool)
  | update (system_prompt_patch : String)
  | input (text : String)
  | cancel
  | close
  | resume (w : Waiter)
  | abandon (w : Waiter)
  | cancelTask
  | receive
  | task (a : Answer)

namespace Socket

def init : Socket where
  selection_unavailable := false
  transient_busy := false
  events := []
  closed := false
  turn := 0
  generation := 0
  seed := ""
  snapshot := ""
  task := none
  record := none
  terminal := []
  waiting := []
  read := []
  accepted := []

/-- Everything that was queued so far, in order. -/
def queued (s : Socket) : List Entry := s.read ++ s.events

/-- The task exists and has not ended. -/
def running (s : Socket) : Bool := s.task.any fun task => task.phase ≠ .ended

/-- The generation task of the turn has ended. A task is replaced only after its end. -/
def done (s : Socket) (turn : ℕ) : Bool :=
  s.task.all fun task => task.binding.turn_id ≠ turn || task.phase = .ended

/-- `_emit`; `none` is the exception of a full queue. -/
def emit (s : Socket) (turn : ℕ) (message : Message) : Option Socket :=
  if s.closed then some s
  else if s.events.length < 4096 then some { s with events := s.events ++ [⟨turn, message⟩] }
  else none

/-- `record['terminal'] = True`. -/
def markTerminal (s : Socket) (turn : ℕ) : Socket := { s with terminal := s.terminal ++ [turn] }

/-- The terminal message of `_finish`: with the text of the turn, or for a cancelled turn. -/
def closing (record : Binding) : Option String → Message
  | some text => .textDone text record
  | none => .cancelled record

/-- `_finish`, with the text of the turn, or `none` for a cancelled turn. The second component says that it
returned; otherwise the full queue raised. -/
def finish (s : Socket) (record : Binding) (text : Option String) : Socket × Bool :=
  if record.turn_id ∈ s.terminal then (s, true)
  else
    match (s.markTerminal record.turn_id).emit record.turn_id (closing record text) with
    | none => (s.markTerminal record.turn_id, false)
    | some s =>
      match s.emit record.turn_id (.metrics text.isNone record) with
      | none => (s, false)
      | some s => (s, true)

/-- The code of the `error` message. -/
def code (s : Socket) : String :=
  if s.transient_busy then "controller_busy" else "local_model_unavailable"

/-- The branch of `_generate` for every exception but a cancellation. It does not look at the record
first, and where its own message finds the queue full, the exception ends the task. -/
def fail (s : Socket) (record : Binding) : Socket :=
  ((s.markTerminal record.turn_id).emit record.turn_id (.error s.code)).getD
    (s.markTerminal record.turn_id)

/-- The task goes to the await `phase`. -/
def goto (s : Socket) (task : Task) (phase : Phase) : Socket :=
  { s with task := some { task with phase := phase } }

/-- The end of `_generate`, after both requests were left. -/
def settle (s : Socket) (task : Task) : Exit → Socket
  | .value text =>
    match (s.goto task .ended).finish task.binding (some text) with
    | (s, true) => s
    | (s, false) => s.fail task.binding
  | .thrown .exception => (s.goto task .ended).fail task.binding
  | .thrown .cancelled => ((s.goto task .ended).finish task.binding none).1

/-- What `_generate` goes on with: the same await, another one, or its end. -/
inductive Next where
  | stay
  | goto (phase : Phase)
  | settle (exit : Exit)

/-- What is thrown at an await leaves the request around it first. A coroutine that has not started is
only ended. -/
def unwind (e : Thrown) : Phase → Next
  | .created => if e = .cancelled then .goto .ended else .stay
  | .reading _ => .goto (.leavingModels (.thrown e))
  | .streaming _ => .goto (.leavingStream (.thrown e))
  | .ended => .stay
  | .getting | .leavingModels _ | .posting _ | .leavingStream _ => .settle (.thrown e)

/-- How the loop over the lines ends. -/
def result (st : Stream) : Exit :=
  if st.complete then .value (String.join st.parts) else .thrown .exception

/-- The first step of `_generate`, up to the first request. -/
def begin (c : Config) (s : Socket) (task : Task) (token : Bool) : Next :=
  if !c.model_messages s.seed s.snapshot task.raw || s.selection_unavailable || !token then
    .settle (.thrown .exception)
  else .goto .getting

/-- The control flow of `_generate`: where the answer leads from the await at which the task is. -/
def next (c : Config) (s : Socket) (task : Task) : Answer → Next
  | .first token =>
    match task.phase with
    | .created => if task.cancelling then .stay else begin c s task token
    | _ => .stay
  | .models status =>
    match task.phase with
    | .getting => .goto (.reading status)
    | _ => .stay
  | .payload payload =>
    match task.phase with
    | .reading status =>
      match select c.expected_model status payload with
      | .model model => .goto (.leavingModels (.value model))
      | _ => .goto (.leavingModels (.thrown .exception))
    | _ => .stay
  | .exit =>
    match task.phase with
    | .leavingModels (.value model) => .goto (.posting model)
    | .leavingModels (.thrown e) => .settle (.thrown e)
    | .leavingStream exit => .settle exit
    | _ => .stay
  | .response status event_stream =>
    match task.phase with
    | .posting _ =>
      if status ≠ 200 ∨ !event_stream then .goto (.leavingStream (.thrown .exception))
      else .goto (.streaming .init)
    | _ => .stay
  | .line line =>
    match task.phase with
    | .streaming st =>
      match (st.line c.loads line).next with
      | none => .goto (.leavingStream (.thrown .exception))
      | some st => if st.saw_done then .goto (.leavingStream (result st)) else .goto (.streaming st)
    | _ => .stay
  | .eof =>
    match task.phase with
    | .streaming st => .goto (.leavingStream (result st))
    | _ => .stay
  | .throw e => if e = .cancelled ∧ !task.cancelling then .stay else unwind e task.phase

/-- The flags that an answer sets: a status 429 of either request, and the end of the selection. -/
def note (c : Config) (s : Socket) (task : Task) : Answer → Socket
  | .models status =>
    if task.phase = .getting ∧ status = 429 then { s with transient_busy := true } else s
  | .response status _ =>
    match task.phase with
    | .posting _ => if status = 429 then { s with transient_busy := true } else s
    | _ => s
  | .payload payload =>
    match task.phase with
    | .reading status =>
      match select c.expected_model status payload with
      | .mismatch => { s with selection_unavailable := true }
      | _ => s
    | _ => s
  | _ => s

/-- The text that a line of the stream makes the task emit. -/
def delta (c : Config) (task : Task) : Answer → Option String
  | .line line =>
    match task.phase with
    | .streaming st => (st.line c.loads line).delta
    | _ => none
  | _ => none

def follow (s : Socket) (task : Task) : Next → Socket
  | .stay => s
  | .goto phase => s.goto task phase
  | .settle exit => s.settle task exit

/-- A step of the task. A delta that finds the queue full raises inside the loop. -/
def taskStep (c : Config) (s : Socket) (task : Task) (a : Answer) : Socket :=
  match delta c task a with
  | none => (s.note c task a).follow task (next c s task a)
  | some text =>
    match s.emit task.binding.turn_id (.textDelta text task.binding) with
    | none => s.goto task (.leavingStream (.thrown .exception))
    | some s' => s'.follow task (next c s task a)

/-- `send_json` of an `input.text`. -/
def input (s : Socket) (text : String) : Socket :=
  if s.seed = "" ∨ s.snapshot = "" ∨ s.running then s
  else
    let b : Binding := ⟨s.turn + 1, s.generation + 1⟩
    let s := { s with turn := s.turn + 1, generation := s.generation + 1, transient_busy := false,
                      record := some b }
    match s.emit b.turn_id (.committed b.turn_id) with
    | none => s
    | some s =>
      match s.emit b.turn_id (.created b) with
      | none => s
      | some s => { s with task := some ⟨b, text, false, .created⟩
                           accepted := s.accepted ++ [b.turn_id] }

/-- The rest of `_cancel` after its wait, and of `close` after `_cancel`. -/
def endCancel (s : Socket) (closing : Bool) : Socket :=
  match s.record.map fun record => s.finish record none with
  | none => if closing then { s with closed := true } else s
  | some (s, returned) => if closing && returned then { s with closed := true } else s

/-- `_cancel`, up to its wait where there is one. The wait ends when the task has ended: at its timeout
the task is cancelled once more and is still waited for. -/
def cancel (s : Socket) (closing : Bool) : Socket :=
  match s.task with
  | none => s.endCancel closing
  | some task =>
    if task.phase = .ended then s.endCancel closing
    else { s with task := some { task with cancelling := true }
                  waiting := s.waiting ++ [⟨task.binding.turn_id, closing⟩] }

/-- One step. What an operation refuses changes nothing, and so does what is not possible now. -/
def step (c : Config) (s : Socket) : Event → Socket
  | .start system_prompt text =>
    if s.closed ∨ s.seed ≠ "" ∨ !text then s
    else ({ s with seed := system_prompt }.emit 0 .ready).getD { s with seed := system_prompt }
  | .update system_prompt_patch => if s.closed then s else { s with snapshot := system_prompt_patch }
  | .input text => if s.closed then s else s.input text
  | .cancel => if s.closed then s else s.cancel false
  | .close => if s.closed then s else s.cancel true
  | .resume w =>
    if w ∈ s.waiting ∧ s.done w.turn then { s with waiting := s.waiting.erase w }.endCancel w.closing
    else s
  | .abandon w =>
    if w ∈ s.waiting ∧ s.done w.turn then { s with waiting := s.waiting.erase w } else s
  | .cancelTask =>
    match s.task with
    | none => s
    | some task => { s with task := some { task with cancelling := true } }
  | .receive =>
    if s.closed then s
    else
      match s.events with
      | [] => s
      | e :: es => { s with events := es, read := s.read ++ [e] }
  | .task a =>
    match s.task with
    | none => s
    | some task => s.taskStep c task a

end Socket

end StrixAlloy.LocalText

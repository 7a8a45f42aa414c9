import Mathlib.Data.List.MinMax
import Mathlib.Data.List.Sort
import StrixAlloy.Playback.Buffer

/-!
# The output arbiter

`OutputArbiter`: a bounded queue of outputs, and one worker that speaks them one after another. Every call of an
operation runs to its end; the worker and the task that speaks stop at each `await` and go on with what it gave
(`Answer`), so between two of their steps anything else may happen. An entry is the object that a publication makes;
`entries` holds every entry by the number in which it was made, and the queue is of numbers.

The callbacks are asked anew each time: a step takes the answers `es`, and each of its questions has one of its own.
-/

namespace StrixAlloy.OutputArbiter

inductive Kind
  | localReply
  | backendReply
  | taskState
  | error

structure Event where
  kind : Kind
  task_id : String
  operation_id : String
  utterance_id : String
  context_version : ℕ
  text : String
  priority : ℤ

/-- The bounds that `validateEvent` checks. -/
def validateEvent (event : Event) : Bool :=
  event.text.length ≤ 4000 && event.task_id.length ≤ 128 && event.operation_id.length ≤ 128 &&
    event.utterance_id.length ≤ 128

inductive Disposition
  | transient
  | deferred
  | control
  deriving DecidableEq

/-- `_QueuedOutput`; a guarded entry has a validity, and `completion` says of its future whether it is resolved. -/
structure Entry where
  event : Event
  generation : Option ℤ
  guarded : Bool
  disposition : Disposition
  completion : Option Bool
  started : Bool
  grounded_id : Option String
  invalidated : Bool

/-- `_complete` -/
def Entry.complete (e : Entry) : Entry := { e with completion := e.completion.map fun _ => true }

/-- What the callbacks answer at one moment; one that raises answers `false`. -/
structure Env where
  is_live : Bool
  valid : ℕ → Bool
  input_ready : Bool
  control_ready : Bool

/-- What an `await` gave: it returned, it raised, or it was cancelled. -/
inductive Answer
  | returned
  | chunk (pcm : List UInt8)
  | raised
  | cancelled

/-- How a task ended. -/
inductive Outcome
  | returned
  | raised
  | cancelled

/-- Where `_speak` stands. -/
inductive SpeakPc
  | begin
  | draining
  | transcript
  | synthesis
  | full (pcm : List UInt8)
  | closing
  | last
  | done (o : Outcome)

/-- `_active`, with whether its cancellation was asked for. -/
structure Task where
  entry : ℕ
  pc : SpeakPc
  cancelled : Bool

/-- Where `_run` stands. -/
inductive WorkerPc
  | waiting
  | looping
  | speaking
  | errorTranscript
  | overflowTranscript
  | ended
  deriving DecidableEq

/-- The arbiter; `said` has the entries that were handed to the synthesis. -/
structure State (γ : Type) where
  playback : Playback.State γ
  entries : ℕ → Entry
  next : ℕ
  pending : List ℕ
  wake : Bool
  idle : Bool
  closed : Bool
  versions : String → ℕ
  audio_failed : Bool
  overflow_reported : Bool
  suppressed_count : ℕ
  generated_bytes : ℕ
  sent_bytes : ℕ
  active : Option Task
  active_entry : Option ℕ
  grounded_owner : Option (String × Option ℤ)
  worker : WorkerPc
  worker_cancelled : Bool
  said : List ℕ

variable {γ : Type}

def blank : Entry := ⟨⟨.error, "", "", "", 0, "", 0⟩, none, false, .transient, none, false, none, false⟩

def init (playback : Playback.State γ) : State γ :=
  ⟨playback, fun _ => blank, 0, [], false, true, false, fun _ => 0, false, false, 0, 0, 0, none, none, none, .waiting,
    false, []⟩

namespace State

variable (s : State γ)

def priority (i : ℕ) : ℤ := (s.entries i).event.priority

/-- A change of one entry. -/
def modify (i : ℕ) (f : Entry → Entry) : State γ :=
  { s with entries := fun j => if j = i then f (s.entries j) else s.entries j }

/-- An entry leaves the queue and its future is resolved. -/
def discard (i : ℕ) : State γ := { s.modify i Entry.complete with pending := s.pending.erase i }

def cancelActive : State γ :=
  match s.active with
  | some ⟨i, pc, c⟩ => { s with active := some ⟨i, pc, c || !(pc matches .done _)⟩ }
  | none => s

/-- `_valid` of the validity of an entry. -/
def valid (e : Env) (i : ℕ) : Bool := !(s.entries i).guarded || e.valid i

def eligible (e : Env) (i : ℕ) : Bool :=
  !(s.entries i).invalidated && !s.closed && e.is_live && s.valid e i &&
    ((s.entries i).generation = none || (s.entries i).generation = some s.playback.generation) &&
    s.versions (s.entries i).event.task_id ≤ (s.entries i).event.context_version

def ready (e : Env) (i : ℕ) : Bool :=
  if (s.entries i).disposition = .control then e.control_ready else e.input_ready

/-- The `current` of `_speak`. -/
def current (e : Env) (i : ℕ) : Bool :=
  !(s.entries i).invalidated && !s.closed && e.is_live && (s.entries i).generation = some s.playback.generation &&
    s.versions (s.entries i).event.task_id ≤ (s.entries i).event.context_version && s.valid e i && s.ready e i

/-- The entries that an interruption keeps. -/
def retained (preserve_deferred : Bool) (i : ℕ) : Bool :=
  preserve_deferred && (s.entries i).disposition = .deferred && !(s.entries i).started

/-- `_interrupt` -/
def interrupted (preserve_deferred : Bool) : State γ :=
  let gone := s.pending.filter fun i => !s.retained preserve_deferred i
  let pending := s.pending.filter fun i => s.retained preserve_deferred i
  { ({ s with playback := s.playback.interrupt, grounded_owner := none } : State γ).cancelActive with
    entries := fun i => if i ∈ gone then (s.entries i).complete else s.entries i
    pending
    suppressed_count := s.suppressed_count + gone.length
    wake := true
    idle := s.idle || (pending = [] && s.active.isNone) }

def interrupt : State γ := s.interrupted false

def interruptForInput : State γ := s.interrupted true

/-- `_clearGroundedPcm` -/
def clearGroundedPcm (i : ℕ) : State γ :=
  match (s.entries i).grounded_id with
  | none => s
  | some g =>
    if s.grounded_owner = some (g, (s.entries i).generation) then
      { s with
        playback :=
          if (s.entries i).generation = some s.playback.generation then { s.playback with data := [] } else s.playback
        grounded_owner := none }
    else s

/-- The queued entries of one grounded answer leave the queue, invalid. -/
def dropGrounded (g : String) : State γ :=
  let gone := s.pending.filter fun i => (s.entries i).grounded_id = some g
  { s with
    entries := fun i => if i ∈ gone then { s.entries i with invalidated := true }.complete else s.entries i
    pending := s.pending.filter fun i => ¬ (s.entries i).grounded_id = some g }

def invalidateGrounded (g : String) : State γ :=
  let s := s.dropGrounded g
  let s :=
    match s.active_entry with
    | none => s
    | some i =>
      if (s.entries i).grounded_id = some g then
        ((s.modify i fun e => { e with invalidated := true }).clearGroundedPcm i).cancelActive
      else s
  { s with wake := true }

/-- The first of the queued entries with the largest priority. -/
def worst : Option ℕ :=
  letI : Preorder ℤ := Int.instLinearOrder.toPreorder
  s.pending.argmax s.priority

/-- The entry that a publication makes. -/
def make (event : Event) (guarded : Bool) (disposition : Disposition) (wait : Bool) (grounded_id : Option String) :
    Entry :=
  ⟨event, if disposition = .deferred then none else some s.playback.generation, guarded, disposition,
    if wait then some false else none, false, grounded_id, false⟩

/-- A new entry, which no queue has yet. -/
def add (entry : Entry) : State γ :=
  { s with entries := fun i => if i = s.next then entry else s.entries i, next := s.next + 1 }

/-- The new entry is queued: behind those of its priority. -/
def enqueue (i : ℕ) : State γ :=
  { s with
    pending := (s.pending ++ [i]).insertionSort fun a b => s.priority a ≤ s.priority b
    idle := false
    wake := true }

/-- The check that `publish_guarded` makes of a grounded owner. -/
def ownership (grounded_id : Option String) : Bool := grounded_id.all fun g => g ≠ "" && g.length ≤ 128

/-- The part of `_publish` after the version was noted; `i` is the new entry. -/
def room (i : ℕ) : Bool × State γ :=
  if s.pending.length ≥ 8 then
    let s := { s with suppressed_count := s.suppressed_count + 1, overflow_reported := true }
    match s.worst with
    | none => (true, s.enqueue i)
    | some w =>
      if s.priority i < s.priority w then (true, (s.discard w).enqueue i)
      else (false, { s.modify i Entry.complete with wake := true })
  else (true, s.enqueue i)

/-- The floor that a publication raises. -/
def noted (event : Event) : State γ :=
  { s with
    versions := fun t => if t = event.task_id ∧ event.task_id ≠ "" then event.context_version else s.versions t }

/-- `_publish` of an event that passed `validateEvent`. -/
def publish (e : Env) (event : Event) (guarded : Bool) (disposition : Disposition) (wait : Bool)
    (grounded_id : Option String) : Bool × State γ :=
  let i := s.next
  let s := s.add (s.make event guarded disposition wait grounded_id)
  if s.closed || !e.is_live || !s.valid e i then (false, s.modify i Entry.complete)
  else if event.task_id ≠ "" ∧ event.context_version < s.versions event.task_id then
    (false, { s.modify i Entry.complete with suppressed_count := s.suppressed_count + 1 })
  else (s.noted event).room i

/-! ## The task that speaks -/

def setPc (pc : SpeakPc) : State γ :=
  { s with active := s.active.map fun t => { t with pc := pc, cancelled := false } }

/-- The task ends; one whose cancellation was asked for meanwhile ends as cancelled. -/
def finish (o : Outcome) : State γ :=
  { s with
    active := s.active.map fun t => { t with pc := .done (if t.cancelled then .cancelled else o), cancelled := false } }

/-- The entry leaves the queue to be spoken. -/
def claim (es : ℕ → Env) (i : ℕ) : State γ :=
  let s :=
    { s.modify i (fun e => { e with started := true, generation := e.generation.or (some s.playback.generation) }) with
      pending := s.pending.erase i }
  if s.current (es 0) i then s.setPc .transcript else s.finish .returned

/-- The loop of a grounded answer before its claim. -/
def drain (es : ℕ → Env) (i : ℕ) : State γ :=
  if s.playback.data ≠ [] ∧ s.eligible (es 0) i ∧ s.ready (es 1) i then s.setPc .draining
  else if i ∉ s.pending ∨ !s.eligible (es 2) i ∨ !s.ready (es 3) i then s.finish .returned
  else
    ({ s with grounded_owner := (s.entries i).grounded_id.map fun g => (g, (s.entries i).generation) }).claim
      (fun k => es (k + 4)) i

def begin (es : ℕ → Env) (i : ℕ) : State γ :=
  if i ∉ s.pending then s.finish .returned
  else if !s.eligible (es 0) i then
    ({ s.discard i with suppressed_count := s.suppressed_count + 1 } : State γ).finish .returned
  else if !s.ready (es 1) i then s.finish .returned
  else if (s.entries i).grounded_id.isSome then s.drain (fun k => es (k + 2)) i
  else s.claim (fun k => es (k + 2)) i

/-- After a sleep of the grounded answer: another entry that is ready goes before it. -/
def drained (es : ℕ → Env) (i : ℕ) : State γ :=
  if s.pending.any fun j => j ≠ i && s.priority j < s.priority i && s.eligible (es j) j && s.ready (es j) j then
    s.finish .returned
  else s.drain (fun k => es (s.next + k)) i

/-- A chunk waits while the buffer is full, and is then put into it. -/
def deliver (es : ℕ → Env) (pcm : List UInt8) (i : ℕ) : State γ :=
  if s.playback.data.length > 48000 ∧ s.current (es 0) i then s.setPc (.full pcm)
  else
    match (s.entries i).generation with
    | some g =>
      if s.current (es 1) i ∧ (s.playback.put pcm g none).1 then
        { s.setPc .synthesis with
          playback := (s.playback.put pcm g none).2
          sent_bytes := s.sent_bytes + pcm.length }
      else s.setPc .synthesis
    | none => s.setPc .synthesis

/-- The end of a grounded answer: its PCM drains, or is taken back. -/
def settle (es : ℕ → Env) (i : ℕ) : State γ :=
  match (s.entries i).grounded_id with
  | none => s.finish .returned
  | some g =>
    if s.playback.data ≠ [] ∧ s.current (es 0) i then s.setPc .last
    else if !s.current (es 1) i then (s.invalidateGrounded g).finish .returned
    else s.finish .returned

/-- One step of `_speak`, from one `await` to the next. -/
def speak (es : ℕ → Env) (a : Answer) : State γ :=
  match s.active with
  | none => s
  | some ⟨i, pc, c⟩ =>
    match pc, a with
    | .done _, _ => s
    | .begin, _ => if c then s.setPc (.done .cancelled) else s.begin es i
    | .draining, _ => if c then s.setPc (.done .cancelled) else s.drained es i
    | .full pcm, _ => if c then s.setPc (.done .cancelled) else s.deliver es pcm i
    | .last, _ => if c then s.setPc (.done .cancelled) else s.settle es i
    | _, .cancelled => s.setPc (.done .cancelled)
    | _, .raised => s.setPc (.done .raised)
    | .transcript, _ =>
      if s.current (es 0) i then { s.setPc .synthesis with said := s.said ++ [i] }
      else ({ s with suppressed_count := s.suppressed_count + 1 } : State γ).setPc (.done .returned)
    | .synthesis, .chunk pcm =>
      let s := { s with generated_bytes := s.generated_bytes + pcm.length }
      if s.current (es 0) i then s.deliver (fun k => es (k + 1)) pcm i else s.setPc .closing
    | .synthesis, _ => s.setPc .closing
    | .closing, _ => (s.setPc .closing).settle es i

/-! ## The worker -/

/-- Entries that are not eligible leave the queue, one after another. -/
def prune (s : State γ) (es : ℕ → Env) : List ℕ → State γ
  | [] => s
  | i :: is =>
    if s.eligible (es 0) i then prune s (fun k => es (k + 1)) is
    else prune { s.discard i with suppressed_count := s.suppressed_count + 1 } (fun k => es (k + 1)) is

/-- The worker waits anew, or ends. -/
def pause : State γ :=
  { s with
    idle := s.idle || (s.pending = [] && s.active.isNone)
    worker := if s.closed then .ended else .waiting }

/-- The end of a round: an overflow is reported once the input is ready. -/
def rest (e : Env) : State γ :=
  if s.overflow_reported && e.input_ready then { s with overflow_reported := false, worker := .overflowTranscript }
  else s.pause

/-- The inner loop of `_run` up to its `await`. -/
def loop (es : ℕ → Env) : State γ :=
  if s.pending = [] ∨ s.closed then s.rest (es 0)
  else
    let n := s.pending.length
    let s := s.prune es s.pending
    match s.pending.find? fun i => s.ready (es (n + i)) i with
    | none => s.rest (es (n + s.next))
    | some i => { s with active_entry := some i, active := some ⟨i, .begin, false⟩, worker := .speaking }

/-- The `finally` of the inner loop, after which the worker is at `pc`. -/
def finally_ (i : ℕ) (pc : WorkerPc) : State γ :=
  let s := s.clearGroundedPcm i
  let s := if (s.entries i).started ∨ i ∉ s.pending then s.modify i Entry.complete else s
  { s with active := none, active_entry := none, worker := pc }

/-- What follows on a task that ended. -/
def joined (es : ℕ → Env) (i : ℕ) : Outcome → State γ
  | .returned => s.finally_ i .looping
  | .cancelled => s.finally_ i (if s.closed then .ended else .looping)
  | .raised =>
    if !s.audio_failed && s.eligible (es 0) i && s.ready (es 1) i then
      { s with audio_failed := true, worker := .errorTranscript }
    else s.finally_ i .looping

/-- One step of `_run`, from one `await` to the next. -/
def work (es : ℕ → Env) (a : Answer) : State γ :=
  match s.worker with
  | .waiting =>
    if s.worker_cancelled then { s with worker := .ended }
    else if s.wake then { s with wake := false, worker := .looping }
    else s
  | .looping => s.loop es
  | .speaking =>
    match s.active with
    | some ⟨i, .done o, _⟩ =>
      s.joined es i (if s.worker_cancelled ∧ a matches .cancelled then .cancelled else o)
    | _ => s
  | .errorTranscript =>
    match s.active_entry with
    | some i => s.finally_ i (if a matches .cancelled then .ended else .looping)
    | none => s
  | .overflowTranscript => if a matches .cancelled then { s with worker := .ended } else s.pause
  | .ended => s

/-- `close` up to its `await`. -/
def close : State γ :=
  if s.closed then s else { ({ s with closed := true } : State γ).interrupt with worker_cancelled := true }

end State

/-- What may happen: the calls, the steps of the worker and of the task that speaks, and whatever others do with the
playback buffer. -/
inductive Op (γ : Type)
  | publish (e : Env) (event : Event) (guarded : Bool) (disposition : Disposition) (wait : Bool)
      (grounded_id : Option String)
  | interrupt
  | interruptForInput
  | invalidateGrounded (grounded_id : String)
  | notifyInputChanged
  | close
  | closed
  | work (es : ℕ → Env) (a : Answer)
  | speak (es : ℕ → Env) (a : Answer)
  | playback (op : Playback.Op γ)

def step (s : State γ) : Op γ → State γ
  | .publish e event guarded disposition wait grounded_id =>
    if validateEvent event ∧ State.ownership grounded_id then (s.publish e event guarded disposition wait grounded_id).2 else s
  | .interrupt => s.interrupt
  | .interruptForInput => s.interruptForInput
  | .invalidateGrounded g => s.invalidateGrounded g
  | .notifyInputChanged => { s with wake := true }
  | .close => s.close
  | .closed => if s.closed ∧ s.worker = .ended then { s with idle := true } else s
  | .work es a => s.work es a
  | .speak es a => s.speak es a
  | .playback op => { s with playback := Playback.step s.playback op }

end StrixAlloy.OutputArbiter

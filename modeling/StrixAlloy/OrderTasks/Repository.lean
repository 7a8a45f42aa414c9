import StrixAlloy.Lib.Interleave
import StrixAlloy.Lib.Json

/-!
# The tables of the order tasks

`LocalLLMVoiceRepository` over the five tables of the schema, where every get and every insert is one
atomic step of a request. An insert that repeats a value of a unique column has no effect, and any insert
may fail. The answers of the policy and of the business, the clock and the identifiers come from the
environment. Rows hold what `u_data` holds; the columns beside it are only for lookups.
-/

namespace StrixAlloy.OrderTasks

open Interleave

/-! ## Rows -/

/-- The five fields that bind a row to its owner. -/
structure Binding where
  principal : String
  service : String
  agent : String
  tool : String
  registry_revision : String

/-- What the policy answers. An answer of another shape is no answer. -/
structure Authority where
  binding : Binding
  execute : Bool
  write : Bool
  expires_at : ℚ

/-- A proposal, as the members of its object. -/
abbrev Proposal := List (String × String)

structure Task where
  id : String
  command_id : String
  command_hash : String
  objective : String
  expires_at : ℚ
  binding : Binding

inductive Kind where
  | create
  | amend
  | prepare
  | confirm
  | cancel
  | commit
deriving DecidableEq

/-- A row of the transitions. `checked_at` is history: when the expiry of the head was checked. -/
structure Transition where
  id : String
  task_id : String
  predecessor_slot : String
  predecessor : String
  command_id : String
  command_hash : String
  kind : Kind
  version : ℕ
  context_version : Option ℤ
  binding : Binding
  proposal : Option Proposal
  payload_hash : Option String
  expires_at : Option ℚ
  proposal_id : Option String
  utterance_ref : Option String
  confirmation_id : Option String
  operation_key : Option String
  checked_at : Option ℚ

/-- What the receipt of an operation holds. -/
structure Receipt where
  state : String
  request_ref : String
  execution_ref : Option String
deriving DecidableEq

/-- A row of the operations. `receipt` is set by a lookup only. -/
structure Operation where
  id : String
  operation_key : String
  task_id : String
  binding : Binding
  fence_id : String
  proposal_id : Option String
  confirmation_id : Option String
  payload_hash : Option String
  proposal : Option Proposal
  context_version : Option ℤ
  state : String
  receipt : Option Receipt

/-- A row of the dispatch claims. `thread` is history: the request that stored it. -/
structure Claim where
  id : String
  operation_key : String
  operation_id : String
  task_id : String
  claimed_at : ℚ
  thread : ℕ

/-- A row of the events: one of a transition, or the receipt of an operation. -/
structure Event where
  id : String
  event_id : String
  task_sequence : String
  task_id : String
  sequence : Option ℕ
  operation_id : Option String
  context_version : Option ℤ
  status : Option String
  receipt : Option Receipt

/-! ## The business -/

/-- The argument of `submit`; `confirmed` is the same in every call. -/
structure SubmitInput where
  employee_name : Option String
  start_date : Option String
  delivery_location : Option String
  manager_name : Option String

/-- What `submit` returns: whether `ok` is `true`, and the references as strings, where they are not
empty. -/
structure SubmitResult where
  ok : Bool
  request_id : Option String
  requested_item_id : Option String

/-- A call of `submit`, with the claim that the caller had stored. -/
structure Submission where
  input : SubmitInput
  claim : Claim

/-! ## The state -/

/-- The tables and the clock. `submits` is history: the calls of `submit`. -/
structure Store where
  tasks : List Task
  transitions : List Transition
  operations : List Operation
  claims : List Claim
  events : List Event
  clock : ℚ
  submits : List Submission

def Store.init (clock : ℚ) : Store := ⟨[], [], [], [], [], clock, []⟩

/-- What the environment decides about a step: the answer of the policy, the time, the next identifier,
whether an insert fails, and what `submit` returns, where it does not throw. -/
structure Choice where
  authority : Option Authority
  clock : ℚ
  /-- A GUID, which is never `root`. Nothing else is assumed of it. -/
  guid : String
  guid_ne : guid ≠ "root"
  fails : Bool
  result : Option SubmitResult

/-- The steps of a request. -/
inductive Query where
  | authorize (write : Bool)
  | now
  | id
  | taskById (id : String)
  | taskByCommand (command_id : String)
  | transitionById (id : String)
  | transitionBySlot (predecessor_slot : String)
  | transitionByCommand (command_id : String)
  | operationById (id : String)
  | operationByKey (operation_key : String)
  | eventById (event_id : String)
  | insertTask (row : Task)
  | insertTransition (row : Transition)
  | insertOperation (row : Operation)
  | insertClaim (row : Claim)
  | insertEvent (row : Event)
  | submit (input : SubmitInput) (claim : Claim)

/-- The type of an identifier that is not `root`. -/
abbrev Guid := { s : String // s ≠ "root" }

/-- What a step returns. An insert returns whether the row was stored. -/
abbrev Answer : Query → Type
  | .authorize _ => Option Authority
  | .now => ℚ
  | .id => Guid
  | .taskById _ | .taskByCommand _ => Option Task
  | .transitionById _ | .transitionBySlot _ | .transitionByCommand _ => Option Transition
  | .operationById _ | .operationByKey _ => Option Operation
  | .eventById _ => Option Event
  | .insertTask _ | .insertTransition _ | .insertOperation _ | .insertClaim _ | .insertEvent _ => Bool
  | .submit _ _ => Option SubmitResult

/-! The unique columns. -/

def Task.clash (x y : Task) : Bool := x.id = y.id || x.command_id = y.command_id

def Transition.clash (x y : Transition) : Bool :=
  x.id = y.id || x.command_id = y.command_id || x.predecessor_slot = y.predecessor_slot

def Operation.clash (x y : Operation) : Bool := x.id = y.id || x.operation_key = y.operation_key

def Claim.clash (x y : Claim) : Bool := x.id = y.id || x.operation_key = y.operation_key

def Event.clash (x y : Event) : Bool :=
  x.id = y.id || x.event_id = y.event_id || x.task_sequence = y.task_sequence

/-- Whether the row is stored, which none clashes with, and the rows after that. -/
def insert {α : Type} (c : Choice) (clash : α → α → Bool) (rows : List α) (row : α) : Bool × List α :=
  if c.fails || rows.any (clash row) then (false, rows) else (true, rows ++ [row])

/-- The steps on the tables, for the thread `i`. A get finds the one row with the value, since its column
is unique. -/
def exec (i : ℕ) (c : Choice) (s : Store) : (q : Query) → Answer q × Store
  | .authorize _ => (c.authority, s)
  | .now => (max s.clock c.clock, { s with clock := max s.clock c.clock })
  | .id => (⟨c.guid, c.guid_ne⟩, s)
  | .taskById id => (s.tasks.find? fun r => r.id = id, s)
  | .taskByCommand command_id => (s.tasks.find? fun r => r.command_id = command_id, s)
  | .transitionById id => (s.transitions.find? fun r => r.id = id, s)
  | .transitionBySlot slot => (s.transitions.find? fun r => r.predecessor_slot = slot, s)
  | .transitionByCommand command_id => (s.transitions.find? fun r => r.command_id = command_id, s)
  | .operationById id => (s.operations.find? fun r => r.id = id, s)
  | .operationByKey key => (s.operations.find? fun r => r.operation_key = key, s)
  | .eventById event_id => (s.events.find? fun r => r.event_id = event_id, s)
  | .insertTask row =>
    let r := insert c Task.clash s.tasks row
    (r.1, { s with tasks := r.2 })
  | .insertTransition row =>
    let r := insert c Transition.clash s.transitions row
    (r.1, { s with transitions := r.2 })
  | .insertOperation row =>
    let r := insert c Operation.clash s.operations row
    (r.1, { s with operations := r.2 })
  | .insertClaim row =>
    let r := insert c Claim.clash s.claims { row with thread := i }
    (r.1, { s with claims := r.2 })
  | .insertEvent row =>
    let r := insert c Event.clash s.events row
    (r.1, { s with events := r.2 })
  | .submit input claim =>
    (c.result, { s with submits := s.submits ++ [⟨input, { claim with thread := i }⟩] })

/-- A request, which may throw an error with a code. -/
abbrev Action := Interleave.Action Query Answer String

/-- One step. -/
abbrev step (q : Query) : Action (Answer q) := ask q

/-! ## The methods of the repository that are more than one step -/

/-- `get` of an operation, which looks for its receipt as well. -/
def getOperation (key : String) : Action (Option Operation) := do
  let found ← step (.operationByKey key)
  match found with
  | none => pure none
  | some data => do
    let event ← step (.eventById ("receipt:" ++ data.operation_key))
    match event.bind Event.receipt with
    | none => pure (some data)
    | some receipt => pure (some { data with receipt := some receipt, state := receipt.state })

/-- What an insert of a row with a task looks up first. -/
def requireTask (task_id : String) : Action Unit := do
  let task ← step (.taskById task_id)
  ensure task.isSome "task_reference_unavailable"

/-- `receipt`, for a key and a receipt. -/
def storeReceipt (key : String) (receipt : Receipt) : Action Operation := do
  let op ← getOperation key
  let op ← getSome op "operation_unavailable"
  let eventKey := "receipt:" ++ key
  let existing ← step (.eventById eventKey)
  match existing with
  | some existing => ensure (existing.receipt = some receipt) "receipt_conflict"
  | none => do
    let id ← step .id
    requireTask op.task_id
    let stored ← step (.insertEvent ⟨id.1, eventKey, op.task_id ++ ":receipt:" ++ key, op.task_id, none, none,
      none, none, some receipt⟩)
    if stored then pure ()
    else do
      let existing ← step (.eventById eventKey)
      let existing ← getSome existing "receipt_conflict"
      ensure (existing.receipt = some receipt) "receipt_conflict"
  pure { op with receipt := some receipt, state := receipt.state }

end StrixAlloy.OrderTasks

import StrixAlloy.Lib.Table
import StrixAlloy.TaskStore.Validate

/-!
# The tables of the journal

One structure per table of the SQLite schema, with the columns that a method reads or writes, and
`Journal` with a list of rows for each table, in the order of their insertion. The column
`tasks.parent_task_id` is never written, and `events.fingerprint` is a function of the payload; both
are left out. `events.sequence` counts the events, of which none is ever deleted.
-/

namespace StrixAlloy.TaskStore

open Checked

/-- The values of `tasks.state`. -/
inductive TaskState where
  | queued | running | awaitingInput | cancelRequested | succeeded | failed | cancelled
  | outcomeUnknown
deriving DecidableEq

namespace TaskState

/-- The text of a state in its column. -/
def name : TaskState → String
  | queued => "queued"
  | running => "running"
  | awaitingInput => "awaiting_input"
  | cancelRequested => "cancel_requested"
  | succeeded => "succeeded"
  | failed => "failed"
  | cancelled => "cancelled"
  | outcomeUnknown => "outcome_unknown"

/-- The members of `_TERMINAL_STATES`, which is what `settle` takes for an outcome. -/
def terminalStates : List TaskState :=
  [awaitingInput, succeeded, failed, cancelled, outcomeUnknown]

/-- The states that refuse a cancellation or a settlement: `succeeded`, `failed`, `cancelled` and
`outcome_unknown`. -/
def terminal : TaskState → Bool
  | succeeded | failed | cancelled | outcomeUnknown => true
  | _ => false

/-- The states that refuse an utterance, a question and a dispatch: the terminal ones and
`cancel_requested`. -/
def closed : TaskState → Bool
  | cancelRequested => true
  | s => s.terminal

end TaskState

/-- The values of `operations.dispatch_state`. -/
inductive DispatchState where
  | unsubmitted | submitted | suspended | cancelled | settled | unknown
deriving DecidableEq

/-- The states of an operation whose execution is unresolved. -/
def DispatchState.inFlight : DispatchState → Bool
  | submitted | unknown => true
  | _ => false

/-- The members of `_BUSINESS_KINDS`. -/
inductive BusinessKind where
  | continueTask | amendTask | newTask | cancelTask
deriving DecidableEq

namespace BusinessKind

/-- The text of a kind, which is also the name of the capability that it needs. -/
def name : BusinessKind → String
  | continueTask => "continue_task"
  | amendTask => "amend_task"
  | newTask => "new_task"
  | cancelTask => "cancel_task"

/-- The kind that a text names. -/
def ofName? (s : String) : Option BusinessKind :=
  [continueTask, amendTask, newTask, cancelTask].find? fun kind => kind.name = s

end BusinessKind

/-- Who put a question to the caller. -/
inductive QuestionSource where
  | backend | greeting
deriving DecidableEq

/-- The text of a source in its column. -/
def QuestionSource.name : QuestionSource → String
  | backend => "backend"
  | greeting => "greeting"

/-- Who supplied the payload of an event. -/
inductive EventSource where
  | store | executor | reconciliation

/-- A row of `scopes`. -/
structure ScopeRow where
  scope_id : String
  call_id : String
  call_generation : ℕ
  instance_id : String
  assistant_id : String
  principal_id : String
  attached : Bool
deriving DecidableEq

/-- The columns that a scope must repeat whenever its identifier is used again. -/
def ScopeRow.binding (row : ScopeRow) : String × ℕ × String × String × String :=
  (row.call_id, row.call_generation, row.instance_id, row.assistant_id, row.principal_id)

/-- A row of `tasks`. The JSON column `capabilities` is kept decoded. -/
structure TaskRow where
  task_id : String
  scope_id : String
  agent_alias : String
  agent_id : String
  registry_revision : String
  capabilities : List (String × Bool)
  objective : String
  context_version : ℕ
  state : TaskState
  open_question : Option String
  result_version : ℕ
  created_at : String
  updated_at : String

/-- The object in `operations.receipt`: the five keys that it may have. -/
structure Receipt where
  status : Option String
  task_ref : Option String
  operation_ref : Option String
  request_ref : Option String
  execution_ref : Option String
deriving DecidableEq

/-- A row of `operations`. The JSON columns hold the values that were encoded. -/
structure OperationRow where
  operation_id : String
  task_id : String
  utterance_id : String
  context_version : ℕ
  kind : BusinessKind
  text : String
  voice_context : Json
  immutable_payload : Json
  dispatch_state : DispatchState
  request_ref : Option String
  execution_ref : Option String
  receipt : Option Receipt
  replies : Option Json
  evidence : Option Json
  outcome : Option TaskState
  reason_code : Option String
  created_at : String
  submitted_at : Option String
  settled_at : Option String

/-- Whether the execution of the operation is unresolved. -/
def OperationRow.inFlight (row : OperationRow) : Bool := row.dispatch_state.inFlight

/-- A row of `inbox`. -/
structure InboxRow where
  event_id : String
  operation_id : String
  event_type : String
  payload : Json

/-- A row of `events`. -/
structure EventRow where
  sequence : ℕ
  event_id : String
  task_id : String
  operation_id : Option String
  type : String
  context_version : ℕ
  payload : Json
  source : EventSource

/-- A row of `commands`. -/
structure CommandRow where
  command_id : String
  task_id : String
  scope_id : String
  text : String

/-- A row of `scope_questions`. -/
structure QuestionRow where
  scope_id : String
  task_id : String
  text : String
  source : QuestionSource
  context_version : ℕ
  question_id : String
deriving DecidableEq

/-- A row of `owned_dispatches`. -/
structure OwnedDispatchRow where
  operation_id : String
  task_ref : String
  command : Json
  event_sequence : ℤ

/-- A row of `owned_events`. -/
structure OwnedEventRow where
  operation_id : String
  sequence : ℤ
  event_id : String

/-- The journal. -/
structure Journal where
  scopes : List ScopeRow
  tasks : List TaskRow
  operations : List OperationRow
  inbox : List InboxRow
  events : List EventRow
  commands : List CommandRow
  scope_questions : List QuestionRow
  owned_dispatches : List OwnedDispatchRow
  owned_events : List OwnedEventRow

/-- The journal as the schema creates it. -/
def Journal.empty : Journal := ⟨[], [], [], [], [], [], [], [], []⟩

namespace Journal

variable (j : Journal)

/-! ## Reads by key -/

def scope? (scope_id : String) : Option ScopeRow := Table.lookup ScopeRow.scope_id j.scopes scope_id

def task? (task_id : String) : Option TaskRow := Table.lookup TaskRow.task_id j.tasks task_id

def operation? (operation_id : String) : Option OperationRow :=
  Table.lookup OperationRow.operation_id j.operations operation_id

def utterance? (utterance_id : String) : Option OperationRow :=
  Table.lookup OperationRow.utterance_id j.operations utterance_id

def inbox? (event_id : String) : Option InboxRow := Table.lookup InboxRow.event_id j.inbox event_id

def command? (command_id : String) : Option CommandRow :=
  Table.lookup CommandRow.command_id j.commands command_id

def question? (scope_id : String) : Option QuestionRow :=
  Table.lookup QuestionRow.scope_id j.scope_questions scope_id

def ownedDispatch? (operation_id : String) : Option OwnedDispatchRow :=
  Table.lookup OwnedDispatchRow.operation_id j.owned_dispatches operation_id

/-! ## Writes -/

/-- `INSERT INTO scopes`. -/
@[simps]
def insertScope (row : ScopeRow) : Journal := { j with scopes := j.scopes ++ [row] }

/-- `INSERT INTO tasks`. -/
@[simps]
def insertTask (row : TaskRow) : Journal := { j with tasks := j.tasks ++ [row] }

/-- `INSERT INTO operations`. -/
@[simps]
def insertOperation (row : OperationRow) : Journal := { j with operations := j.operations ++ [row] }

/-- `INSERT INTO commands`. -/
@[simps]
def insertCommand (row : CommandRow) : Journal := { j with commands := j.commands ++ [row] }

/-- `INSERT INTO inbox`. -/
@[simps]
def insertInbox (row : InboxRow) : Journal := { j with inbox := j.inbox ++ [row] }

/-- `INSERT INTO owned_dispatches`. -/
@[simps]
def insertOwnedDispatch (row : OwnedDispatchRow) : Journal := { j with owned_dispatches := j.owned_dispatches ++ [row] }

/-- `INSERT INTO owned_events`. -/
@[simps]
def insertOwnedEvent (row : OwnedEventRow) : Journal := { j with owned_events := j.owned_events ++ [row] }

/-- `UPDATE tasks SET … WHERE task_id=?`. -/
@[simps]
def setTask (task_id : String) (f : TaskRow → TaskRow) : Journal :=
  { j with tasks := Table.update (fun t => t.task_id = task_id) f j.tasks }

/-- `UPDATE operations SET … WHERE operation_id=?`. -/
@[simps]
def setOperation (operation_id : String) (f : OperationRow → OperationRow) : Journal :=
  { j with operations := Table.update (fun o => o.operation_id = operation_id) f j.operations }

/-- `UPDATE scopes SET … WHERE scope_id=?`. -/
@[simps]
def setScope (scope_id : String) (f : ScopeRow → ScopeRow) : Journal :=
  { j with scopes := Table.update (fun s => s.scope_id = scope_id) f j.scopes }

/-- `UPDATE owned_dispatches SET … WHERE operation_id=?`. -/
@[simps]
def setOwnedDispatch (operation_id : String) (f : OwnedDispatchRow → OwnedDispatchRow) : Journal :=
  { j with
    owned_dispatches := Table.update (fun b => b.operation_id = operation_id) f j.owned_dispatches }

/-- `UPDATE operations SET dispatch_state=? WHERE … AND dispatch_state='unsubmitted'`, for the
operations of the tasks that meet `p`. -/
@[simps]
def parkUnsubmitted (p : String → Prop) [DecidablePred p] (state : DispatchState) : Journal :=
  { j with
    operations := Table.update (fun o => p o.task_id ∧ o.dispatch_state = .unsubmitted)
      (fun o => { o with dispatch_state := state }) j.operations }

/-- `DELETE FROM scope_questions WHERE …`. -/
@[simps]
def dropQuestions (p : QuestionRow → Prop) [DecidablePred p] : Journal :=
  { j with scope_questions := j.scope_questions.filter fun q => ¬ p q }

/-- `INSERT OR REPLACE INTO scope_questions`. -/
@[simps]
def putQuestion (row : QuestionRow) : Journal :=
  { j with
    scope_questions := (j.scope_questions.filter fun q => q.scope_id ≠ row.scope_id) ++ [row] }

/-- The event that `_event` inserts. -/
@[simps]
def log (event_id task_id : String) (operation_id : Option String) (type : String)
    (context_version : ℕ) (payload : Json) (source : EventSource) : Journal :=
  { j with
    events := j.events ++
      [⟨j.events.length + 1, event_id, task_id, operation_id, type, context_version, payload, source⟩] }

/-- `_event`: the payload is validated, and the identifier must be new. -/
def event (event_id task_id : String) (operation_id : Option String) (type : String)
    (context_version : ℕ) (payload : Json) (source : EventSource) : Except StoreError Journal := do
  validateJson payload defaultLimit
  require (∀ e ∈ j.events, e.event_id ≠ event_id) (.integrity "events.event_id")
  return j.log event_id task_id operation_id type context_version payload source

/-- An event is inserted with a valid payload under a new identifier. -/
@[simp]
theorem event_eq_ok {j j' : Journal} {event_id task_id type : String} {operation_id : Option String}
    {context_version : ℕ} {payload : Json} {source : EventSource} :
    j.event event_id task_id operation_id type context_version payload source = .ok j' ↔
      validateJson payload defaultLimit = .ok () ∧ (∀ e ∈ j.events, e.event_id ≠ event_id) ∧
        j.log event_id task_id operation_id type context_version payload source = j' := by
  simp [event, Unique.exists_iff]

/-! ## Reads of more than one row -/

/-- The tasks of a scope by creation time and identifier, as `list_tasks` orders them. -/
def listTasks (scope_id : String) : List TaskRow :=
  (j.tasks.filter fun t => t.scope_id = scope_id).insertionSort fun a b =>
    a.created_at < b.created_at ∨ (a.created_at = b.created_at ∧ a.task_id ≤ b.task_id)

/-- The task that an operation belongs to is one of the scope. -/
def inScope (scope_id task_id : String) : Bool :=
  (j.task? task_id).any fun t => t.scope_id = scope_id

/-- The operations of a scope's tasks, in order of acceptance. -/
def scopeOperations (scope_id : String) : List OperationRow :=
  j.operations.filter fun o => j.inScope scope_id o.task_id

end Journal

end StrixAlloy.TaskStore

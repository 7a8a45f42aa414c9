import StrixAlloy.TaskStore.Schema

/-!
# The methods of the journal

Each public method of `TaskStore` is a function from the journal to its result and the journal that
its transaction commits, or to the exception that rolls the transaction back. A read returns its
result only. What a method takes from its surroundings, the clock and the source of identifiers, is
an `Env` for each call.
-/

namespace StrixAlloy.TaskStore

open Checked

/-- The clock and the fresh identifiers that one call reads, each place under an index of its own.
Nothing says that two identifiers differ: an insertion that repeats one is refused by the schema. -/
structure Env where
  now : ℕ → String
  newId : ℕ → String
  /-- An identifier of `uuid4` has 36 printable characters. -/
  valid : ∀ i, isIdentifier (newId i)

/-! ## Snapshots -/

/-- What `_task_snapshot` returns: the row of the task with that of its scope. -/
structure TaskSnapshot where
  row : TaskRow
  scope : ScopeRow

/-- `bool(scope["attached"])`. -/
def TaskSnapshot.attached (snapshot : TaskSnapshot) : Bool := snapshot.scope.attached

/-- `_task_snapshot`. -/
def taskSnapshot (j : Journal) (row : TaskRow) : Except StoreError TaskSnapshot := do
  let scope ← orThrow (j.scope? row.scope_id) .type
  return ⟨row, scope⟩

/-- `_task_row`: the task, if it is one of the scope. -/
def taskRow (j : Journal) (task_id scope_id : String) : Except StoreError TaskRow := do
  let row ← orThrow (j.task? task_id) (.denied "task unavailable")
  require (row.scope_id = scope_id) (.denied "task unavailable")
  return row

/-! ## Reads of a scope -/

/-- The question of an attached scope. -/
def liveQuestion (j : Journal) (scope_id : String) : Option QuestionRow :=
  (j.question? scope_id).filter fun _ => (j.scope? scope_id).any ScopeRow.attached

/-- `question`. -/
def question (j : Journal) (scope_id : String) : Except StoreError (Option QuestionRow) := do
  boundedIdentifier scope_id
  return liveQuestion j scope_id

/-- `pending`: the operations of an attached scope that wait for their dispatch. -/
def pending (j : Journal) (scope_id : String) : Except StoreError (List OperationRow) := do
  boundedIdentifier scope_id
  return (j.scopeOperations scope_id).filter fun o =>
    (j.scope? scope_id).any ScopeRow.attached && o.dispatch_state = .unsubmitted

/-- `has_unresolved`. -/
def hasUnresolved (j : Journal) : Bool := j.operations.any OperationRow.inFlight

/-- What a checkpoint keeps of one task. -/
structure TaskMark where
  task_id : String
  context_version : ℕ
  closed : Bool
  agent_alias : String
  agent_id : String
  registry_revision : String
  capabilities : List (String × Bool)
  open_question : Option String
  /-- The identifier and version of the operation that was accepted last. -/
  latest : Option (String × ℕ)
deriving DecidableEq

/-- The tuple that `routing_checkpoint` returns. -/
structure Checkpoint where
  scope_id : String
  scope : Option ScopeRow
  tasks : List TaskMark
  question : Option QuestionRow
deriving DecidableEq

/-- The mark of a task in a checkpoint. -/
def taskMark (j : Journal) (t : TaskRow) : TaskMark where
  task_id := t.task_id
  context_version := t.context_version
  closed := t.state.closed
  agent_alias := t.agent_alias
  agent_id := t.agent_id
  registry_revision := t.registry_revision
  capabilities := t.capabilities.insertionSort fun a b => a.1 ≤ b.1
  open_question := t.open_question
  latest := ((j.scopeOperations t.scope_id).filter fun o => o.task_id = t.task_id).getLast?.map
    fun o => (o.operation_id, o.context_version)

/-- The checkpoint of a scope. -/
def checkpoint (j : Journal) (scope_id : String) : Checkpoint where
  scope_id := scope_id
  scope := j.scope? scope_id
  tasks := (j.listTasks scope_id).map (taskMark j)
  question := liveQuestion j scope_id

/-- `routing_checkpoint`. -/
def routingCheckpoint (j : Journal) (scope_id : String) : Except StoreError Checkpoint := do
  boundedIdentifier scope_id
  return checkpoint j scope_id

/-- `_check_preconditions`. `authority` is what the coordinator's guard returns when it is called
inside the transaction. -/
def checkPreconditions (j : Journal) (scope_id : String) (preconditions : Option Checkpoint)
    (authority : Option Bool) : Except StoreError Unit := do
  if let some expected := preconditions then
    let current ← routingCheckpoint j scope_id
    require (expected = current) (.conflict "routing checkpoint changed")
  require (authority ≠ some false) (.conflict "routing authority changed")

/-! ## Tasks and utterances -/

/-- The capabilities as the object that the column encodes. -/
def capabilitiesJson (capabilities : List (String × Bool)) : Json :=
  .dict (capabilities.map fun c => (c.1, .bool c.2))

/-- The row that `create_task` inserts for a scope. -/
def newScopeRow (scope : Scope) : ScopeRow where
  scope_id := scope.scope_id
  call_id := scope.call_id
  call_generation := scope.call_generation
  instance_id := scope.instance_id
  assistant_id := scope.assistant_id
  principal_id := scope.principal_id
  attached := true

/-- The scope of a new task: inserted when it is new, and otherwise the same binding, attached. -/
def bindScope (j : Journal) (scope : Scope) : Except StoreError Journal :=
  match j.scope? scope.scope_id with
  | none => .ok (j.insertScope (newScopeRow scope))
  | some existing => do
    require (existing.binding = scope.binding) (.conflict "scope binding conflict")
    require existing.attached (.denied "scope detached")
    return j

/-- The row that `create_task` inserts. -/
def newTaskRow (identifier : String) (scope : Scope) (agent : Agent) (objective now : String) :
    TaskRow where
  task_id := identifier
  scope_id := scope.scope_id
  agent_alias := agent.agent_alias
  agent_id := agent.agent_id
  registry_revision := agent.revision
  capabilities := agent.capabilities
  objective := objective
  context_version := 0
  state := .queued
  open_question := none
  result_version := 0
  created_at := now
  updated_at := now

/-- `create_task`. -/
def createTask (j : Journal) (env : Env) (scope : Scope) (agent : Agent) (objective : String)
    (task_id : Option String) : Except StoreError (TaskSnapshot × Journal) := do
  require (isText objective) (.invalid "invalid objective")
  let identifier := task_id.getD (env.newId 0)
  boundedIdentifier identifier
  validateJson (capabilitiesJson agent.capabilities) 4096
  let j ← bindScope j scope
  require ((j.tasks.countP fun t => t.scope_id = scope.scope_id) < 8)
    (.capacity "task capacity reached")
  require (j.task? identifier = none) (.conflict "task identity conflict")
  let row := newTaskRow identifier scope agent objective (env.now 0)
  let j := j.insertTask row
  let j ← j.event (env.newId 1) identifier none "task_created" 0
    (.dict [("objective", .str objective)]) .store
  let snapshot ← taskSnapshot j row
  return (snapshot, j)

/-- `_VOICE_KEYS`. -/
def voiceKeys : List String := ["language", "assistant_id", "profile"]

/-- The voice context of an utterance: some of three fields, each a text of 1 to 128 characters. -/
def voiceContext (voice_context : Option Json) : Except StoreError (List (String × Json)) :=
  match voice_context with
  | none => .ok []
  | some (.dict members) => do
    require (∀ m ∈ members, m.1 ∈ voiceKeys) (.invalid "invalid voice context")
    require (members.all fun m =>
      match m.2 with
      | .str s => s ≠ "" && s.length ≤ 128
      | _ => false) (.invalid "invalid voice context")
    return members
  | some _ => .error (.invalid "invalid voice context")

/-- The assistant that a voice context names, if it names one, is the bound one. -/
def namesAssistant (members : List (String × Json)) (assistant_id : String) : Bool :=
  match Json.get? members "assistant_id" with
  | none => true
  | some (.str s) => s = assistant_id
  | some _ => false

/-- The question that an utterance answers, as its event records it. -/
def answeredJson : Option QuestionRow → Json
  | none => .null
  | some q => .dict [("scope_id", .str q.scope_id), ("task_id", .str q.task_id),
      ("text", .str q.text), ("source", .str q.source.name),
      ("context_version", .int q.context_version), ("question_id", .str q.question_id)]

/-- The row that `accept` inserts. -/
def acceptedOperation (operation_id task_id utterance_id : String) (version : ℕ)
    (kind : BusinessKind) (text : String) (context payload : Json) (now : String) :
    OperationRow where
  operation_id := operation_id
  task_id := task_id
  utterance_id := utterance_id
  context_version := version
  kind := kind
  text := text
  voice_context := context
  immutable_payload := payload
  dispatch_state := .unsubmitted
  request_ref := none
  execution_ref := none
  receipt := none
  replies := none
  evidence := none
  outcome := none
  reason_code := none
  created_at := now
  submitted_at := none
  settled_at := none

/-- The number of operations of a scope that are neither settled nor cancelled. -/
def openOperations (j : Journal) (scope_id : String) : ℕ :=
  (j.scopeOperations scope_id).countP fun o =>
    o.dispatch_state ∈ [.unsubmitted, .submitted, .suspended, .unknown]

/-- `accept`. -/
def accept (j : Journal) (env : Env) (task_id scope_id utterance_id text kind : String)
    (voice_context : Option Json) (preconditions : Option Checkpoint) (authority : Option Bool) :
    Except StoreError (OperationRow × Journal) := do
  boundedIdentifier utterance_id
  let kind ← orThrow (BusinessKind.ofName? kind) (.invalid "invalid utterance")
  require (isText text) (.invalid "invalid utterance")
  let members ← voiceContext voice_context
  let context : Json := .dict members
  validateJson context 512
  let task ← taskRow j task_id scope_id
  require (j.command? utterance_id = none) (.conflict "utterance identity conflict")
  let scope ← orThrow (j.scope? scope_id) .type
  require (namesAssistant members scope.assistant_id) (.invalid "invalid voice context")
  match j.utterance? utterance_id with
  | some existing =>
    require (existing.task_id = task_id ∧ existing.kind = kind ∧ existing.text = text ∧
        Json.dumps existing.voice_context = Json.dumps context)
      (.conflict "utterance identity conflict")
    return (existing, j)
  | none =>
    checkPreconditions j scope_id preconditions authority
    require (capable task.capabilities kind.name) (.denied "agent capability unavailable")
    require scope.attached (.denied "scope detached")
    require (¬ task.state.closed) (.conflict "task is terminal")
    require (openOperations j scope_id < 32) (.capacity "pending capacity reached")
    let version := task.context_version + 1
    let operation_id := env.newId 2
    let payload : Json := .dict [("kind", .str kind.name), ("text", .str text),
      ("voice_context", context), ("context_version", .int version)]
    validateJson payload defaultLimit
    let now := env.now 1
    let j := j.setTask task_id fun t => { t with context_version := version, updated_at := now }
    let row := acceptedOperation operation_id task_id utterance_id version kind text context payload now
    require (j.operation? operation_id = none) (.integrity "operations.operation_id")
    let j := j.insertOperation row
    let answered ← question j scope_id
    let answered := answered.filter fun q =>
      q.task_id = task_id ∧ q.context_version = version - 1
    let j ← j.event (env.newId 3) task_id (some operation_id) "utterance_accepted" version
      (.dict [("kind", .str kind.name), ("text", .str text),
        ("answered_question", answeredJson answered)]) .store
    let j := j.dropQuestions fun q => q.scope_id = scope_id ∧ q.task_id = task_id
    let j := j.setTask task_id fun t => { t with open_question := none }
    return (row, j)

/-- `accept_new_task`: the replay of an utterance reads its task, and a new one creates it. -/
def acceptNewTask (j : Journal) (env : Env) (scope : Scope) (agent : Agent)
    (utterance_id text : String) (voice_context : Option Json) (preconditions : Option Checkpoint)
    (authority : Option Bool) : Except StoreError (OperationRow × Journal) :=
  match j.utterance? utterance_id with
  | some prior => do
    let task ← taskRow j prior.task_id scope.scope_id
    require ((task.agent_alias, task.agent_id, task.registry_revision) =
      (agent.agent_alias, agent.agent_id, agent.revision)) (.conflict "agent binding conflict")
    accept j env task.task_id scope.scope_id utterance_id text BusinessKind.newTask.name
      voice_context none none
  | none => do
    checkPreconditions j scope.scope_id preconditions authority
    let (task, j) ← createTask j env scope agent text none
    accept j env task.row.task_id scope.scope_id utterance_id text BusinessKind.newTask.name
      voice_context none none

/-- The sources that `note_question` takes. -/
def QuestionSource.ofName? (s : String) : Option QuestionSource :=
  [QuestionSource.backend, .greeting].find? fun source => source.name = s

/-- `note_question`. The result says whether the question was bound. -/
def noteQuestion (j : Journal) (env : Env) (task_id scope_id text source : String)
    (context_version : Option ℤ) : Except StoreError (Bool × Journal) := do
  require (isText text) (.invalid "invalid question")
  let source ← orThrow (QuestionSource.ofName? source) (.invalid "invalid question")
  let task ← taskRow j task_id scope_id
  let snapshot ← taskSnapshot j task
  require snapshot.attached (.denied "scope detached")
  require (¬ task.state.closed) (.conflict "task cannot accept a question")
  if context_version.any fun v => (task.context_version : ℤ) ≠ v then
    return (false, j)
  else
    let question_id := env.newId 0
    let j := j.putQuestion ⟨scope_id, task_id, text, source, task.context_version, question_id⟩
    let j := j.setTask task_id fun t => { t with open_question := some text }
    let j ← j.event question_id task_id none "question_noted" task.context_version
      (.dict [("text", .str text), ("source", .str source.name)]) .store
    return (true, j)

/-- `cancel_pending`. -/
def cancelPending (j : Journal) (env : Env) (task_id scope_id command_id text : String)
    (preconditions : Option Checkpoint) (authority : Option Bool) :
    Except StoreError (TaskSnapshot × Journal) := do
  boundedIdentifier command_id
  require (isText text) (.invalid "invalid command")
  let task ← taskRow j task_id scope_id
  match j.command? command_id with
  | some prior =>
    require ((prior.task_id, prior.scope_id, prior.text) = (task_id, scope_id, text))
      (.conflict "command identity conflict")
    let snapshot ← taskSnapshot j task
    return (snapshot, j)
  | none =>
    checkPreconditions j scope_id preconditions authority
    require (j.utterance? command_id = none) (.conflict "command identity conflict")
    let scope ← orThrow (j.scope? scope_id) .type
    require scope.attached (.denied "scope detached")
    require (¬ task.state.terminal) (.conflict "task is terminal")
    let dispatched := j.operations.any fun o => o.task_id = task_id && o.submitted_at.isSome
    let state : TaskState := if dispatched then .cancelRequested else .cancelled
    let operation_state : DispatchState := if dispatched then .suspended else .cancelled
    let version := task.context_version + 1
    let now := env.now 0
    let j := j.insertCommand ⟨command_id, task_id, scope_id, text⟩
    let j := j.parkUnsubmitted (fun t => t = task_id) operation_state
    let j := j.setTask task_id fun t =>
      { t with state := state, context_version := version, open_question := none, updated_at := now }
    let j := j.dropQuestions fun q => q.scope_id = scope_id ∧ q.task_id = task_id
    let j ← j.event (env.newId 0) task_id none "cancel_pending" version
      (.dict [("command_id", .str command_id), ("text", .str text), ("state", .str state.name)]) .store
    let task ← taskRow j task_id scope_id
    let snapshot ← taskSnapshot j task
    return (snapshot, j)

/-! ## Execution -/

/-- `dispatch`: the one place that claims an operation. -/
def dispatch (j : Journal) (env : Env) (operation_id : String) :
    Except StoreError (OperationRow × Journal) := do
  boundedIdentifier operation_id
  let row ← orThrow (j.operation? operation_id) (.denied "operation unavailable")
  let task ← orThrow (j.task? row.task_id) (.denied "operation unavailable")
  let scope ← orThrow (j.scope? task.scope_id) .type
  require scope.attached (.denied "scope detached")
  require (row.dispatch_state = .unsubmitted) (.conflict "operation already claimed")
  require (¬ task.state.closed) (.conflict "task is terminal")
  require (¬ hasUnresolved j) (.conflict "execution unresolved")
  let now := env.now 0
  let j := j.setOperation operation_id fun o =>
    { o with dispatch_state := .submitted, submitted_at := some now }
  let j := j.setTask row.task_id fun t => { t with state := .running, updated_at := now }
  let j ← j.event (env.newId 0) row.task_id (some operation_id) "operation_submitted"
    row.context_version (.dict [("dispatch_state", .str "submitted")]) .store
  let row ← orThrow (j.operation? operation_id) .type
  return (row, j)

/-- The event types that `observe` does not let a caller use. -/
def reservedTypes : List String :=
  ["task_created", "utterance_accepted", "operation_submitted", "operation_settled",
    "outcome_unknown", "receipt_recorded", "operation_reconciled"]

/-- `observe`. The result says whether the observation is new. -/
def observe (j : Journal) (operation_id event_id event_type : String) (payload : Json) :
    Except StoreError (Bool × Journal) := do
  boundedIdentifier operation_id
  boundedIdentifier event_id
  boundedIdentifier event_type
  require (event_type ∉ reservedTypes) (.invalid "reserved event type")
  validateJson payload defaultLimit
  let operation ← orThrow (j.operation? operation_id) (.denied "operation unavailable")
  match j.inbox? event_id with
  | some prior =>
    require (prior.operation_id = operation_id ∧ prior.event_type = event_type ∧
      Json.dumps prior.payload = Json.dumps payload) (.conflict "callback identity conflict")
    return (false, j)
  | none =>
    let j := j.insertInbox ⟨event_id, operation_id, event_type, payload⟩
    let j ← j.event event_id operation.task_id (some operation_id) event_type
      operation.context_version payload .executor
    return (true, j)

/-- The replies as the list that the column encodes. -/
def repliesJson (replies : List String) : Json := .list (replies.map Json.str)

/-- The outcome that `settle` takes: an authoritative cancellation is never one. -/
def settleOutcome (outcome : String) : Except StoreError TaskState := do
  let outcome ← orThrow (TaskState.terminalStates.find? fun s => s.name = outcome)
    (.invalid "invalid outcome")
  require (outcome ≠ .outcomeUnknown) (.invalid "invalid outcome")
  require (outcome ≠ .cancelled) (.denied "authoritative cancellation unavailable")
  return outcome

/-- The open question of a task that settles: its last reply, unless the question that is bound is
newer or the settlement brought none. -/
def settledQuestion (row : OperationRow) (task : TaskRow) (outcome : TaskState)
    (replies : List String) (binding : Option QuestionRow) : Option String :=
  let question := if outcome = .awaitingInput then replies.getLast? else none
  match binding with
  | none => question
  | some b =>
    if outcome = .awaitingInput ∧ b.task_id = row.task_id ∧
        (b.context_version > row.context_version ∨
          (replies = [] ∧ b.context_version = row.context_version ∧
            row.context_version = task.context_version)) then
      some b.text
    else question

/-- The write of `settle` to the table of questions. -/
def settleQuestions (j : Journal) (row : OperationRow) (task : TaskRow) (outcome state : TaskState)
    (question : Option String) (binding : Option QuestionRow) (settlement_id : String) :
    Except StoreError Journal :=
  if outcome ≠ .awaitingInput then
    .ok (j.dropQuestions fun q => q.task_id = row.task_id)
  else if state = .awaitingInput ∧ row.context_version = task.context_version then do
    let snapshot ← taskSnapshot j task
    if snapshot.attached ∧ ∀ b ∈ binding, b.task_id = row.task_id then
      match question.filter fun text => text ≠ "" with
      | some text =>
        let question_id :=
          ((binding.filter fun b => b.text = text).map QuestionRow.question_id).getD settlement_id
        return j.putQuestion
          ⟨task.scope_id, row.task_id, text, .backend, row.context_version, question_id⟩
      | none => return j.dropQuestions fun q => q.task_id = row.task_id
    else return j
  else .ok j

/-- `settle`. -/
def settle (j : Journal) (env : Env) (operation_id : String) (replies : List String)
    (outcome : String) (evidence : Option Json) : Except StoreError (TaskSnapshot × Journal) := do
  boundedIdentifier operation_id
  let outcome ← settleOutcome outcome
  require (areReplies replies) (.invalid "invalid replies")
  validateJson (repliesJson replies) defaultLimit
  let evidence := evidence.getD (.dict [])
  validateJson evidence defaultLimit
  let row ← orThrow (j.operation? operation_id) (.denied "operation unavailable")
  if row.dispatch_state = .settled then
    require (row.replies.map Json.dumps = some (Json.dumps (repliesJson replies)) ∧
      row.evidence.map Json.dumps = some (Json.dumps evidence) ∧ row.outcome = some outcome)
      (.conflict "settlement conflict")
    let task ← orThrow (j.task? row.task_id) .type
    let snapshot ← taskSnapshot j task
    return (snapshot, j)
  else
    require (row.dispatch_state = .submitted) (.conflict "operation not submitted")
    let task ← orThrow (j.task? row.task_id) .type
    require (¬ task.state.terminal) (.conflict "task is terminal")
    let now := env.now 0
    let j := j.setOperation operation_id fun o =>
      { o with
        dispatch_state := .settled
        replies := some (repliesJson replies)
        evidence := some evidence
        outcome := some outcome
        settled_at := some now }
    let state : TaskState :=
      if task.state = .cancelRequested ∧ outcome = .awaitingInput then .cancelRequested else outcome
    let settlement_id := env.newId 0
    let binding := j.question? task.scope_id
    let question := settledQuestion row task outcome replies binding
    let j := j.setTask row.task_id fun t =>
      { t with
        state := state
        open_question := question
        result_version := t.result_version + 1
        updated_at := now }
    let j ← settleQuestions j row task outcome state question binding settlement_id
    let j ← j.event settlement_id row.task_id (some operation_id) "operation_settled"
      row.context_version
      (.dict [("outcome", .str outcome.name), ("replies", repliesJson replies),
        ("evidence", Json.sortKeys evidence)]) .store
    let task ← orThrow (j.task? row.task_id) .type
    let snapshot ← taskSnapshot j task
    return (snapshot, j)

/-! ## References of the executor -/

/-- `row[key] or value`, for a reference that may be absent or empty. -/
def orText (column : Option String) (value : String) : String :=
  match column with
  | some s => if s = "" then value else s
  | none => value

/-- The values of `status` in a receipt. -/
def receiptStatuses : List String :=
  ["accepted", "queued", "submitted", "succeeded", "failed", "cancelled", "outcome_unknown"]

/-- The receipt without fields. -/
def Receipt.empty : Receipt := ⟨none, none, none, none, none⟩

/-- The fields of a receipt, each with its value. -/
def Receipt.fields (receipt : Receipt) : List (String × Option String) :=
  [("status", receipt.status), ("task_ref", receipt.task_ref),
    ("operation_ref", receipt.operation_ref), ("request_ref", receipt.request_ref),
    ("execution_ref", receipt.execution_ref)]

/-- The receipt as the object that the column encodes. -/
def Receipt.json (receipt : Receipt) : Json :=
  .dict (receipt.fields.filterMap fun f => f.2.map fun value => (f.1, .str value))

/-- `{**previous, **receipt}`. -/
def Receipt.merge (previous receipt : Receipt) : Receipt where
  status := receipt.status.or previous.status
  task_ref := receipt.task_ref.or previous.task_ref
  operation_ref := receipt.operation_ref.or previous.operation_ref
  request_ref := receipt.request_ref.or previous.request_ref
  execution_ref := receipt.execution_ref.or previous.execution_ref

/-- No field of `receipt` has another value in `previous`. -/
def Receipt.agrees (previous receipt : Receipt) : Prop :=
  ∀ f ∈ previous.fields.zip receipt.fields, ∀ p ∈ f.1.2, ∀ r ∈ f.2.2, p = r

instance (previous receipt : Receipt) : Decidable (previous.agrees receipt) := by
  unfold Receipt.agrees
  infer_instance

/-- One member of a receipt, as `record_receipt` checks it. -/
def receiptField (member : String × Json) : Except StoreError String :=
  if member.1 = "status" then
    match member.2 with
    | .str s => do
      require (s ∈ receiptStatuses) (.invalid "invalid receipt status")
      return s
    | _ => .error (.invalid "invalid receipt status")
  else receiptRef member.2

/-- The receipt that a caller gives. -/
def parseReceipt (receipt : Option Json) : Except StoreError Receipt :=
  match receipt with
  | none => .ok .empty
  | some (.dict members) => do
    require (∀ m ∈ members, m.1 ∈ Receipt.empty.fields.map Prod.fst) (.invalid "invalid receipt")
    let values ← members.mapM fun m => do
      let value ← receiptField m
      return (m.1, value)
    let field := fun key => (values.find? fun v => v.1 = key).map Prod.snd
    return ⟨field "status", field "task_ref", field "operation_ref", field "request_ref",
      field "execution_ref"⟩
  | some _ => .error (.invalid "invalid receipt")

/-- `_receipt_ref` with `optional=True`. -/
def optionalReceiptRef (value : String) : Except StoreError Unit :=
  require (value = "" ∨ isReceiptRef value) (.invalid "invalid receipt reference")

/-- `record_receipt`: references are bound once, and only missing ones are added. -/
def recordReceipt (j : Journal) (env : Env) (operation_id request_ref execution_ref : String)
    (receipt : Option Json) : Except StoreError (OperationRow × Journal) := do
  boundedIdentifier operation_id
  optionalReceiptRef request_ref
  optionalReceiptRef execution_ref
  let receipt ← parseReceipt receipt
  let request_ref := if request_ref = "" then receipt.request_ref.getD "" else request_ref
  let execution_ref := if execution_ref = "" then receipt.execution_ref.getD "" else execution_ref
  require (∀ r ∈ receipt.request_ref, r = request_ref) (.conflict "receipt reference conflict")
  require (∀ r ∈ receipt.execution_ref, r = execution_ref) (.conflict "receipt reference conflict")
  let row ← orThrow (j.operation? operation_id) (.denied "operation unavailable")
  require (row.dispatch_state ∈ [.submitted, .unknown, .settled])
    (.conflict "operation not submitted")
  require (orText row.request_ref "" = "" ∨ request_ref = "" ∨ row.request_ref = some request_ref)
    (.conflict "receipt reference conflict")
  require (orText row.execution_ref "" = "" ∨ execution_ref = "" ∨
    row.execution_ref = some execution_ref) (.conflict "receipt reference conflict")
  let previous := row.receipt.getD .empty
  require (previous.agrees receipt) (.conflict "receipt binding conflict")
  let merged := previous.merge receipt
  let request_ref := orText row.request_ref request_ref
  let execution_ref := orText row.execution_ref execution_ref
  validateJson merged.json 2048
  if (orText row.request_ref "", orText row.execution_ref "", previous) =
      (request_ref, execution_ref, merged) then
    return (row, j)
  else
    let j := j.setOperation operation_id fun o =>
      { o with
        request_ref := some request_ref
        execution_ref := some execution_ref
        receipt := some merged }
    let j ← j.event (env.newId 0) row.task_id (some operation_id) "receipt_recorded"
      row.context_version
      (.dict [("request_ref", .str request_ref), ("execution_ref", .str execution_ref),
        ("receipt", merged.json)]) .store
    let row ← orThrow (j.operation? operation_id) .type
    return (row, j)

/-- What `executor_binding` returns. -/
structure Binding where
  operation : OperationRow
  task : TaskSnapshot
  /-- The task reference and the command of the owned dispatch. -/
  owned : Option (String × Json)

/-- `executor_binding`. -/
def executorBinding (j : Journal) (operation_id : String) : Except StoreError Binding := do
  boundedIdentifier operation_id
  let row ← orThrow (j.operation? operation_id) (.denied "operation unavailable")
  let task ← orThrow (j.task? row.task_id) .type
  let snapshot ← taskSnapshot j task
  return ⟨row, snapshot, (j.ownedDispatch? operation_id).map fun b => (b.task_ref, b.command)⟩

/-- `record_owned_dispatch`: the command is written before its transport and never rebound. -/
def recordOwnedDispatch (j : Journal) (operation_id task_ref : String) (command : Json) :
    Except StoreError (Binding × Journal) := do
  require (isReceiptRef task_ref) (.invalid "invalid receipt reference")
  validateJson command 8192
  let binding ← executorBinding j operation_id
  match j.ownedDispatch? operation_id with
  | some prior =>
    require (prior.task_ref = task_ref ∧ Json.dumps prior.command = Json.dumps command)
      (.conflict "owned dispatch binding conflict")
    return (binding, j)
  | none =>
    require (binding.operation.dispatch_state = .unsubmitted)
      (.conflict "operation already claimed")
    let j := j.insertOwnedDispatch ⟨operation_id, task_ref, command, 0⟩
    let binding ← executorBinding j operation_id
    return (binding, j)

/-- What `observe_owned` reads of an event. -/
structure OwnedEvent where
  event_id : String
  sequence : ℤ
  task_id : String
  operation_id : String
  context_version : ℤ

/-- The fields of an owned event. -/
def ownedEventKeys : List String :=
  ["event_id", "sequence", "task_id", "operation_id", "context_version", "status", "text"]

/-- The values of `status` in an owned event. -/
def ownedEventStatuses : List String :=
  ["queued", "submitted", "awaiting_input", "succeeded", "failed", "cancelled", "outcome_unknown"]

/-- The checks that `observe_owned` makes on the event itself. -/
def parseOwnedEvent (event : Json) : Except StoreError OwnedEvent :=
  match event with
  | .dict members =>
    match Json.get? members "event_id", Json.get? members "sequence", Json.get? members "task_id",
      Json.get? members "operation_id", Json.get? members "context_version",
      Json.get? members "status", Json.get? members "text" with
    | some event_id, some (.int sequence), some task_id, some operation_id,
      some (.int context_version), some (.str status), some (.str text) => do
      require (∀ m ∈ members, m.1 ∈ ownedEventKeys) (.invalid "invalid owned event")
      require (1 ≤ sequence ∧ status ∈ ownedEventStatuses ∧ text.length ≤ 4000)
        (.invalid "invalid owned event")
      let event_id ← receiptRef event_id
      let task_id ← receiptRef task_id
      let operation_id ← receiptRef operation_id
      return ⟨event_id, sequence, task_id, operation_id, context_version⟩
    | _, _, _, _, _, _, _ => .error (.invalid "invalid owned event")
  | _ => .error (.invalid "invalid owned event")

/-- `observe_owned`. The result says whether the event is news of the task's current context. -/
def observeOwned (j : Journal) (operation_id : String) (event : Json) :
    Except StoreError (Bool × Journal) := do
  let e ← parseOwnedEvent event
  let binding ← executorBinding j operation_id
  require (binding.owned.map Prod.fst = some e.task_id ∧ e.operation_id = operation_id ∧
    e.context_version = binding.operation.context_version)
    (.conflict "owned event correlation mismatch")
  let prior ← orThrow (j.ownedDispatch? operation_id) .type
  require (e.sequence < 2 ^ 63) .overflow
  require (∀ r ∈ j.owned_events, r.operation_id = operation_id → r.sequence = e.sequence →
    r.event_id = e.event_id) (.conflict "owned event sequence conflict")
  let (new, j) ← observe j operation_id e.event_id "owned_observation" event
  if new = false then
    return (false, j)
  else
    require (∀ r ∈ j.owned_events, r.event_id ≠ e.event_id ∧
      ¬ (r.operation_id = operation_id ∧ r.sequence = e.sequence)) (.integrity "owned_events")
    let j := j.insertOwnedEvent ⟨operation_id, e.sequence, e.event_id⟩
    if e.sequence ≤ prior.event_sequence then
      return (false, j)
    else
      let j := j.setOwnedDispatch operation_id fun b => { b with event_sequence := e.sequence }
      return (binding.task.attached &&
        binding.task.row.context_version = binding.operation.context_version, j)

/-- What `reconcile_unknown` reads of its evidence. -/
structure Evidence where
  task_id : String
  operation_id : String
  context_version : ℤ
  request_ref : Option String
  execution_ref : Option String

/-- The fields that evidence must have. -/
def requiredEvidence : List String :=
  ["source", "observer_ref", "observation_ref", "task_id", "operation_id", "context_version",
    "outcome"]

/-- `_receipt_ref(evidence[key])` where the key is present. -/
def evidenceRef (members : List (String × Json)) (key : String) :
    Except StoreError (Option String) :=
  match Json.get? members key with
  | none => .ok none
  | some value => do
    let ref ← receiptRef value
    return some ref

/-- The text of a field is one of `values`. -/
def fieldIn (members : List (String × Json)) (key : String) (values : List String) : Bool :=
  match Json.get? members key with
  | some (.str s) => s ∈ values
  | _ => false

/-- The checks that `reconcile_unknown` makes on its evidence for an outcome. -/
def parseEvidence (outcome : TaskState) (evidence : Json) : Except StoreError Evidence :=
  match evidence with
  | .dict members =>
    match Json.get? members "context_version" with
    | some (.int context_version) => do
      require (∀ key ∈ requiredEvidence, key ∈ members.map Prod.fst)
        (.invalid "invalid reconciliation evidence")
      require (∀ m ∈ members, m.1 ∈ requiredEvidence ++ ["request_ref", "execution_ref"])
        (.invalid "invalid reconciliation evidence")
      require (fieldIn members "source" ["operator", "authority"] ∧
        fieldIn members "outcome" [outcome.name]) (.invalid "invalid reconciliation evidence")
      let _ ← receiptRef ((Json.get? members "observer_ref").getD .null)
      let _ ← receiptRef ((Json.get? members "observation_ref").getD .null)
      let task_id ← receiptRef ((Json.get? members "task_id").getD .null)
      let operation_id ← receiptRef ((Json.get? members "operation_id").getD .null)
      let request_ref ← evidenceRef members "request_ref"
      let execution_ref ← evidenceRef members "execution_ref"
      return ⟨task_id, operation_id, context_version, request_ref, execution_ref⟩
    | _ => .error (.invalid "invalid reconciliation evidence")
  | _ => .error (.invalid "invalid reconciliation evidence")

/-- The outcomes that evidence may establish. -/
def reconcileOutcome (outcome : String) : Except StoreError TaskState :=
  orThrow ([TaskState.succeeded, .failed, .cancelled].find? fun s => s.name = outcome)
    (.invalid "invalid reconciliation evidence")

/-- The references of the evidence are those of the operation, and there is one. -/
def Evidence.matches (evidence : Evidence) (row : OperationRow) : Prop :=
  (evidence.request_ref.isSome ∨ evidence.execution_ref.isSome) ∧
    (∀ r ∈ evidence.request_ref, r ≠ "" ∧ row.request_ref = some r) ∧
    ∀ r ∈ evidence.execution_ref, r ≠ "" ∧ row.execution_ref = some r

instance (evidence : Evidence) (row : OperationRow) : Decidable (evidence.matches row) := by
  unfold Evidence.matches
  infer_instance

/-- `reconcile_unknown`: evidence settles an operation whose outcome is unknown. -/
def reconcileUnknown (j : Journal) (env : Env) (operation_id outcome : String) (evidence : Json)
    (replies : Option (List String)) : Except StoreError (OperationRow × Journal) := do
  boundedIdentifier operation_id
  let outcome ← reconcileOutcome outcome
  let e ← parseEvidence outcome evidence
  let replies := replies.getD []
  require (areReplies replies) (.invalid "invalid replies")
  validateJson (repliesJson replies) defaultLimit
  validateJson evidence 4096
  let row ← orThrow (j.operation? operation_id) (.denied "operation unavailable")
  require (e.operation_id = operation_id ∧ e.task_id = row.task_id ∧
    e.context_version = row.context_version) (.conflict "reconciliation correlation mismatch")
  require (e.matches row) (.conflict "reconciliation reference mismatch")
  if row.dispatch_state = .settled then
    require (row.outcome = some outcome ∧
      row.evidence.map Json.dumps = some (Json.dumps evidence) ∧
      row.replies.map Json.dumps = some (Json.dumps (repliesJson replies)))
      (.conflict "reconciliation conflict")
    return (row, j)
  else
    require (row.dispatch_state = .unknown) (.conflict "operation is not unknown")
    let now := env.now 0
    let j := j.setOperation operation_id fun o =>
      { o with
        dispatch_state := .settled
        outcome := some outcome
        evidence := some evidence
        replies := some (repliesJson replies)
        settled_at := some now }
    let j := j.setTask row.task_id fun t =>
      { t with
        state := outcome
        open_question := none
        result_version := t.result_version + 1
        updated_at := now }
    let j := j.dropQuestions fun q => q.task_id = row.task_id
    let j := j.parkUnsubmitted (fun t => t = row.task_id) .suspended
    let j ← j.event (env.newId 0) row.task_id (some operation_id) "operation_reconciled"
      row.context_version
      (.dict [("outcome", .str outcome.name), ("evidence", evidence),
        ("replies", repliesJson replies)]) .reconciliation
    let row ← orThrow (j.operation? operation_id) .type
    return (row, j)

/-! ## Loss of the executor -/

/-- The writes by which an operation's outcome becomes unknown. -/
def setUnknown (j : Journal) (event_id now : String) (row : OperationRow) (reason_code : String) :
    Except StoreError Journal :=
  let j := j.setOperation row.operation_id fun o =>
    { o with dispatch_state := .unknown, reason_code := some reason_code }
  let j := j.setTask row.task_id fun t =>
    { t with state := .outcomeUnknown, open_question := none, updated_at := now }
  let j := j.dropQuestions fun q => q.task_id = row.task_id
  j.event event_id row.task_id (some row.operation_id) "outcome_unknown" row.context_version
    (.dict [("reason_code", .str reason_code)]) .store

/-- `mark_unknown`. -/
def markUnknown (j : Journal) (env : Env) (operation_id reason_code : String) :
    Except StoreError Journal := do
  boundedIdentifier operation_id
  boundedIdentifier reason_code
  let row ← orThrow (j.operation? operation_id) (.denied "operation unavailable")
  if row.dispatch_state = .unknown ∧ row.reason_code = some reason_code then
    return j
  else
    require (row.dispatch_state = .submitted) (.conflict "operation not submitted")
    setUnknown j (env.newId 0) (env.now 0) row reason_code

/-- `detach_scope`. -/
def detachScope (j : Journal) (scope_id : String) : Except StoreError Journal := do
  boundedIdentifier scope_id
  let j := j.setScope scope_id fun s => { s with attached := false }
  let j := j.dropQuestions fun q => q.scope_id = scope_id
  return j.parkUnsubmitted (fun t => j.inScope scope_id t) .suspended

/-- The loop of `recover` over the rows that it has read. -/
def recoverRows (env : Env) : Journal → ℕ → List OperationRow → Except StoreError Journal
  | j, _, [] => .ok j
  | j, i, row :: rows => do
    let j ← setUnknown j (env.newId i) (env.now i) row "process_restart"
    recoverRows env j (i + 1) rows

/-- `recover`: the outcome of whatever was submitted is unknown after a restart. The result is the
number of such operations. -/
def recover (j : Journal) (env : Env) : Except StoreError (ℕ × Journal) := do
  let rows := j.operations.filter fun o => o.dispatch_state = .submitted
  let j ← recoverRows env j 0 rows
  return (rows.length, j)

end StrixAlloy.TaskStore

import StrixAlloy.Routing.Proposal
import StrixAlloy.TaskStore.Calls

/-!
# The attachment of a call

`ConversationAttachment` of `task_coordinator.py` shares one event loop among the callers of
`accept_decision` and `note_question` and its own worker `_run`. What runs between two of their awaits
is one step here (`Op`, `step`), so that a run is an interleaving. The lock of the acceptances is held
from the snapshot until the decision of the router, which is any decision or an exception.

Of the output, only the two texts that announce a durable acceptance are kept. The grounded answers
read the journal and are left out, with the routing context, which goes to the router alone.
-/

namespace StrixAlloy.Coordinator

open TaskStore
open Routing (Intent RoutingDecision)

/-- What an attachment is made for: the scope of the call, the agents of the coordinator, and the
digest by which a reply is told from another. -/
structure Config where
  scope : Scope
  agents : List Agent
  sha256 : String → String

/-- What `accept_decision` holds while it awaits the router. -/
structure Acceptance where
  utterance_id : String
  text : String
  voice_context : Option Json
  tasks : List TaskRow
  checkpoint : Checkpoint
  captured_focus : String
  captured_workflow : String

/-- Where the worker stands between two steps. -/
inductive Worker where
  /-- It awaits `_wake`. -/
  | waiting
  /-- It awaits the executor's readiness for an operation it has chosen. -/
  | readying (operation : OperationRow)
  /-- It awaits the executor's turn. -/
  | executing (operation : OperationRow)
  /-- After an exception, it awaits the end of the attachment. -/
  | held
  /-- It closes the executor. -/
  | closing
  | closed

/-- An acceptance as it was announced, with the workflow task at that time. -/
structure Announcement where
  text : String
  operation : OperationRow
  workflow : String

/-- An attachment, with the journal that it writes to. -/
structure St where
  journal : Journal
  attached : Bool
  /-- `coordinator._owner is self`. -/
  owner : Bool
  wake : Bool
  context_task : String
  focus : String
  /-- The holder of `_accept_lock`. -/
  accepting : Option Acceptance
  worker : Worker
  /-- Every acceptance that was announced. -/
  announced : List Announcement

/-- The attachment as `attach` leaves it, over a journal. -/
def St.start (j : Journal) : St where
  journal := j
  attached := true
  owner := true
  wake := false
  context_task := ""
  focus := ""
  accepting := none
  worker := .waiting
  announced := []

/-- The name under which an agent's capabilities list an intent. -/
def capabilityName : Intent → String
  | .clarification => "clarification"
  | .stopSpeaking => "stop_speaking"
  | .statusQuery => "status_query"
  | .groundedAnswer => "grounded_answer"
  | .cancelTask => BusinessKind.cancelTask.name
  | .amendTask => BusinessKind.amendTask.name
  | .continueTask => BusinessKind.continueTask.name
  | .newTask => BusinessKind.newTask.name

/-! ## Acceptance -/

section Acceptance

variable (c : Config) (s : St)

/-- `accept_decision` up to its await: the snapshot of the scope. An utterance that was accepted
before is answered without a decision. -/
def beginAccept (utterance_id text : String) (voice_context : Option Json) : St :=
  if ¬ isIdentifier utterance_id ∨ ¬ isText text ∨ s.accepting.isSome ∨ ¬ s.attached then s
  else if (s.journal.scopeOperations c.scope.scope_id).any fun o => o.utterance_id = utterance_id then s
  else
    { s with
      accepting := some {
        utterance_id, text, voice_context
        tasks := s.journal.listTasks c.scope.scope_id
        checkpoint := checkpoint s.journal c.scope.scope_id
        captured_focus := s.focus
        captured_workflow := s.context_task } }

/-- `binding_valid`: the agent that the route needs is registered as it was, and capable. -/
def bindingValid (a : Acceptance) (route : Routing.Route) : Bool :=
  let bound_task := a.tasks.find? fun t => t.task_id = route.task_id
  let bound := fun agent : Agent =>
    bound_task.any fun t => (t.agent_id, t.registry_revision) = (agent.agent_id, agent.revision)
  match route.intent with
  | .newTask =>
    (c.agents.find? fun agent => agent.agent_alias = route.agent_alias).any fun agent =>
      capable agent.capabilities (capabilityName route.intent)
  | .continueTask | .amendTask | .cancelTask =>
    let agent_alias := (bound_task.map TaskRow.agent_alias).getD ""
    (c.agents.find? fun agent => agent.agent_alias = agent_alias).any fun agent =>
      capable agent.capabilities (capabilityName route.intent) && bound agent
  | .groundedAnswer =>
    (c.agents.find? fun agent => bound_task.any fun t => t.agent_alias = agent.agent_alias).any bound
  | .clarification | .stopSpeaking | .statusQuery => true

/-- `authority()`: nothing that the decision was made on has moved. -/
def authority (a : Acceptance) (route : Routing.Route) : Bool :=
  bindingValid c a route && s.attached && s.owner && decide (s.focus = a.captured_focus) &&
    decide (s.context_task = a.captured_workflow)

/-- The text that announces a durable acceptance. -/
def acceptedText (intent : Intent) (workflow : String) : String :=
  if intent = .newTask ∧ workflow ≠ "" then
    "Angenommen und gespeichert. Neue Aufgaben bleiben im Legacy-Kontext in der Warteschlange, " ++
      "solange eine andere Aufgabe offen ist."
  else "Angenommen und zur Übermittlung vorgemerkt."

/-- A durable acceptance: the focus moves to its task, it is announced, and the worker is woken. -/
def durable (intent : Intent) (task_id : String) (accepted : Except StoreError (OperationRow × Journal)) :
    St :=
  match accepted with
  | .error _ => s
  | .ok (operation, j) =>
    { s with
      journal := j
      focus := task_id
      wake := true
      announced := s.announced ++ [⟨acceptedText intent s.context_task, operation, s.context_task⟩] }

/-- The route of a decision that still has its authority. -/
def follow (env : Env) (a : Acceptance) (route : Routing.Route) : St :=
  match route.intent with
  | .cancelTask =>
    match cancelPending s.journal env route.task_id c.scope.scope_id a.utterance_id a.text
      (some a.checkpoint) (some (authority c s a route)) with
    | .error _ => s
    | .ok (_, j) => { s with journal := j, wake := true }
  | .newTask =>
    match c.agents.find? fun agent => agent.agent_alias = route.agent_alias with
    | none => s
    | some agent =>
      let accepted := acceptNewTask s.journal env c.scope agent a.utterance_id a.text a.voice_context
        (some a.checkpoint) (some (authority c s a route))
      durable s route.intent ((accepted.toOption.map fun r => r.1.task_id).getD "") accepted
  | .amendTask | .continueTask =>
    durable s route.intent route.task_id <|
      accept s.journal env route.task_id c.scope.scope_id a.utterance_id a.text
        (capabilityName route.intent) a.voice_context (some a.checkpoint)
        (some (authority c s a route))
  | .clarification | .stopSpeaking | .statusQuery | .groundedAnswer => s

/-- `accept_decision` after its await: without authority, or on a status that has changed, the decision
becomes a clarification. -/
def decided (env : Env) (decision : Option RoutingDecision) : St :=
  match s.accepting with
  | none => s
  | some a =>
    let s := { s with accepting := none }
    match decision with
    | none => s
    | some d =>
      let changed := decide (a.checkpoint ≠ checkpoint s.journal c.scope.scope_id)
      let status := decide (d.route.intent = .statusQuery ∨ d.route.intent = .groundedAnswer)
      if !authority c s a d.route || (status && changed) || (d.help_source.isSome && changed) then s
      else follow c s env a d.route

end Acceptance

/-! ## Questions -/

section Questions

variable (c : Config) (s : St)

/-- `store.note_question` for a task of the scope. -/
def bindQuestion (env : Env) (task_id text : String) (source : QuestionSource)
    (context_version : Option ℤ) : St :=
  match TaskStore.noteQuestion s.journal env task_id c.scope.scope_id text source.name
    context_version with
  | .error _ => s
  | .ok (_, j) => { s with journal := j }

/-- `note_question`: a greeting without a task is bound to the workflow task, and creates it where
there is none. `env` is for the creation, and `env'` for the question. -/
def noteQuestion (env env' : Env) (text task_id : String) : St :=
  if ¬ isText text ∨ s.accepting.isSome ∨ ¬ s.attached then s
  else if task_id ≠ "" then bindQuestion c s env' task_id text .backend none
  else
    match c.agents with
    | [agent] =>
      if s.context_task ≠ "" then bindQuestion c s env' s.context_task text .greeting none
      else
        match createTask s.journal env c.scope agent "Configured call workflow" none with
        | .error _ => s
        | .ok (task, j) =>
          bindQuestion c { s with journal := j, context_task := task.row.task_id } env'
            task.row.task_id text .greeting none
    | _ => s

end Questions

/-! ## The worker -/

section Worker

variable (c : Config) (s : St)

/-- The operations that wait for their dispatch in the scope. -/
def pendingOperations : List OperationRow :=
  (TaskStore.pending s.journal c.scope.scope_id).toOption.getD []

/-- `eligible`: of the operations that wait, those of the workflow task, or all while there is none. -/
def eligible : List OperationRow :=
  (pendingOperations c s).filter fun o => s.context_task = "" ∨ o.task_id = s.context_task

/-- The head of the inner loop of `_run`: the next eligible operation, or back to the await of
`_wake`. -/
def scan : St :=
  if ¬ s.attached then { s with worker := .closing }
  else
    match eligible c s with
    | [] => { s with worker := .waiting }
    | operation :: _ =>
      if hasUnresolved s.journal then { s with worker := .waiting }
      else { s with worker := .readying operation }

/-- `_wake` is set. -/
def woken : St :=
  match s.worker with
  | .waiting => if s.wake then scan c { s with wake := false } else s
  | _ => s

/-- The exceptions of `dispatch` after which the loop goes on. -/
def StoreError.retried : StoreError → Bool
  | .conflict _ | .denied _ => true
  | _ => false

/-- `_ready` returns: the executor is ready, or its wait raised, or the attachment has ended. A ready
operation is claimed, and its task becomes the workflow task. -/
def readied (env : Env) (ready : Bool) : St :=
  match s.worker with
  | .readying operation =>
    if ¬ s.attached then { s with worker := .closing }
    else if ¬ ready then { s with worker := .held }
    else
      match dispatch s.journal env operation.operation_id with
      | .error e => if StoreError.retried e then scan c s else { s with worker := .held }
      | .ok (operation, j) =>
        { s with journal := j, context_task := operation.task_id, worker := .executing operation }
  | _ => s

/-- `on_reply`: a reply is observed once, and one that asks is the open question of its task. -/
def replied (env : Env) (text : String) : St :=
  match s.worker with
  | .executing operation =>
    if text.length > 4000 then s
    else
      match observe s.journal operation.operation_id (operation.operation_id ++ ":" ++ c.sha256 text)
        "backend_observed" (.dict [("text", .str text)]) with
      | .error _ => s
      | .ok (false, _) => s
      | .ok (true, j) =>
        let s := { s with journal := j }
        match taskRow j operation.task_id c.scope.scope_id with
        | .error _ => s
        | .ok task =>
          if task.context_version = operation.context_version ∧ s.attached ∧ '?' ∈ text.toList then
            bindQuestion c s env operation.task_id text .backend (some operation.context_version)
          else s
  | _ => s

/-- The exception handlers of `_run`: the outcome of the operation is unknown, and the worker goes to
`next` unless that cannot be written. -/
def uncertain (env : Env) (operation : OperationRow) (reason : String) (next : Worker) : St :=
  match markUnknown s.journal env operation.operation_id reason with
  | .error _ => { s with worker := .held }
  | .ok j => { s with journal := j, worker := next }

/-- The worker after a `break` of its inner loop. -/
def idle : Worker := if s.attached then .waiting else .closing

/-- The executor's turn returns replies, which are settled, or raises. `env'` is for the mark that the
outcome is unknown. -/
def turned (env env' : Env) (replies : Option (List String)) : St :=
  match s.worker with
  | .executing operation =>
    match replies with
    | none => uncertain s env' operation "executor_uncertain" (idle s)
    | some replies =>
      match settle s.journal env operation.operation_id replies TaskState.awaitingInput.name none with
      | .error _ => uncertain s env' operation "executor_uncertain" (idle s)
      | .ok (_, j) => scan c { s with journal := j }
  | _ => s

/-- The worker is cancelled at one of its awaits. -/
def cancelled (env : Env) : St :=
  match s.worker with
  | .executing operation => uncertain s env operation "worker_interrupted" .closing
  | .waiting | .readying _ | .held => { s with worker := .closing }
  | .closing | .closed => s

/-- The executor is closed; `acknowledged` says whether without an exception. -/
def closed (acknowledged : Bool) : St :=
  match s.worker with
  | .closing =>
    { s with
      owner := s.owner && !(acknowledged && !hasUnresolved s.journal)
      worker := .closed }
  | _ => s

/-- `detach`. -/
def detach : St :=
  if ¬ s.attached then s
  else
    match detachScope s.journal c.scope.scope_id with
    | .error _ => { s with attached := false }
    | .ok j => { s with journal := j, attached := false, wake := true }

/-- The worker that was held sees the end of the attachment. -/
def released : St :=
  match s.worker with
  | .held => if s.attached then s else { s with worker := .closing }
  | _ => s

end Worker

/-! ## Runs -/

/-- A step of an attachment, or a call of another owner of the journal. -/
inductive Op where
  | accept (utterance_id text : String) (voice_context : Option Json)
  | decided (env : Env) (decision : Option RoutingDecision)
  | noteQuestion (env env' : Env) (text task_id : String)
  | woken
  | readied (env : Env) (ready : Bool)
  | replied (env : Env) (text : String)
  | turned (env env' : Env) (replies : Option (List String))
  | cancelled (env : Env)
  | released
  | closed (acknowledged : Bool)
  | detach
  | store (env : Env) (call : Call)

/-- The attachment after a step. A step that finds its party elsewhere changes nothing. -/
def step (c : Config) (s : St) : Op → St
  | .accept utterance_id text voice_context => beginAccept c s utterance_id text voice_context
  | .decided env decision => decided c s env decision
  | .noteQuestion env env' text task_id => noteQuestion c s env env' text task_id
  | .woken => woken c s
  | .readied env ready => readied c s env ready
  | .replied env text => replied c s env text
  | .turned env env' replies => turned c s env env' replies
  | .cancelled env => cancelled s env
  | .released => released s
  | .closed acknowledged => closed s acknowledged
  | .detach => detach c s
  | .store env call => { s with journal := TaskStore.step s.journal (env, call) }

end StrixAlloy.Coordinator

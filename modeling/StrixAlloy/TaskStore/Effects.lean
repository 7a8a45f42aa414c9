import StrixAlloy.TaskStore.Methods

/-!
# What a transaction can write

`Effect` lists the writes that the methods make to the journal, each with the guards under which it
is made. Every method is one of them, a few of them, or none: the lemmas `…_ok` read a successful
call backwards. Whatever all effects keep, every call keeps, so that no later proof looks at a
method again.
-/

namespace StrixAlloy.TaskStore

open Checked Table

/-- The kinds of write. -/
inductive Write where
  | scopeAdded | created | accepted | noted | cancelled | dispatched | observed | settled | receipted
  | ownedDispatched | ownedObserved | reconciled | markedUnknown | detached
deriving DecidableEq

/-- No event has the identifier yet. -/
def Journal.FreshEvent (j : Journal) (event_id : String) : Prop :=
  ∀ e ∈ j.events, e.event_id ≠ event_id

/-- The state that a cancellation leaves, by whether an operation was ever submitted. -/
def cancelledState (j : Journal) (task_id : String) : TaskState × DispatchState :=
  if j.operations.any fun o => o.task_id = task_id && o.submitted_at.isSome then
    (.cancelRequested, .suspended)
  else (.cancelled, .cancelled)

/-- One write to the journal, with what was checked before it. -/
inductive Effect : Write → Journal → Journal → Prop
  /-- A scope that was not known. -/
  | scopeAdded {j : Journal} (row : ScopeRow) (fresh : j.scope? row.scope_id = none)
      (attached : row.attached) :
      Effect .scopeAdded j (j.insertScope row)
  /-- A task of an attached scope. -/
  | created {j : Journal} (scope : Scope) (agent : Agent) (identifier objective now event_id : String)
      (row : ScopeRow) (payload : Json) (found : j.scope? scope.scope_id = some row)
      (attached : row.attached) (fresh : j.task? identifier = none)
      (event : j.FreshEvent event_id) :
      Effect .created j
        ((j.insertTask (newTaskRow identifier scope agent objective now)).log event_id identifier none
          "task_created" 0 payload .store)
  /-- An utterance to a live task of an attached scope. -/
  | accepted {j : Journal} (task : TaskRow) (scope : ScopeRow)
      (operation_id utterance_id text now event_id : String) (kind : BusinessKind)
      (context payload : Json) (answered : Option QuestionRow)
      (found : j.task? task.task_id = some task) (known : j.scope? task.scope_id = some scope)
      (attached : scope.attached) (live : task.state.closed = false)
      (command : j.command? utterance_id = none) (utterance : j.utterance? utterance_id = none)
      (fresh : j.operation? operation_id = none) (identifier : isIdentifier operation_id)
      (event : j.FreshEvent event_id)
      (answers : answered = (liveQuestion j task.scope_id).filter fun q =>
        q.task_id = task.task_id ∧ q.context_version = task.context_version) :
      Effect .accepted j
        (((((j.setTask task.task_id fun t =>
            { t with context_version := task.context_version + 1, updated_at := now }).insertOperation
          (acceptedOperation operation_id task.task_id utterance_id (task.context_version + 1) kind text
            context payload now)).log event_id task.task_id (some operation_id) "utterance_accepted"
          (task.context_version + 1) (.dict [("kind", .str kind.name), ("text", .str text),
            ("answered_question", answeredJson answered)]) .store).dropQuestions
          fun q => q.scope_id = task.scope_id ∧ q.task_id = task.task_id).setTask task.task_id
          fun t => { t with open_question := none })
  /-- A question of a live task of an attached scope. -/
  | noted {j : Journal} (task : TaskRow) (scope : ScopeRow) (text question_id : String)
      (source : QuestionSource) (found : j.task? task.task_id = some task)
      (known : j.scope? task.scope_id = some scope) (attached : scope.attached)
      (live : task.state.closed = false) (text_ne : text ≠ "") (event : j.FreshEvent question_id) :
      Effect .noted j
        (((j.putQuestion ⟨task.scope_id, task.task_id, text, source, task.context_version,
            question_id⟩).setTask task.task_id fun t => { t with open_question := some text }).log
          question_id task.task_id none "question_noted" task.context_version
          (.dict [("text", .str text), ("source", .str source.name)]) .store)
  /-- A cancellation of a task that is not terminal. -/
  | cancelled {j : Journal} (task : TaskRow) (scope : ScopeRow) (command_id text now event_id : String)
      (payload : Json) (found : j.task? task.task_id = some task)
      (known : j.scope? task.scope_id = some scope) (attached : scope.attached)
      (live : task.state.terminal = false) (utterance : j.utterance? command_id = none)
      (fresh : j.command? command_id = none) (event : j.FreshEvent event_id) :
      Effect .cancelled j
        (((((j.insertCommand ⟨command_id, task.task_id, task.scope_id, text⟩).parkUnsubmitted
          (fun t => t = task.task_id) (cancelledState j task.task_id).2).setTask task.task_id
          fun t => { t with
            state := (cancelledState j task.task_id).1
            context_version := task.context_version + 1
            open_question := none
            updated_at := now }).dropQuestions
          fun q => q.scope_id = task.scope_id ∧ q.task_id = task.task_id).log event_id task.task_id none
          "cancel_pending" (task.context_version + 1) payload .store)
  /-- A claim of an operation, while nothing is in flight. -/
  | dispatched {j : Journal} (row : OperationRow) (task : TaskRow) (scope : ScopeRow)
      (now event_id : String) (payload : Json)
      (operation : j.operation? row.operation_id = some row) (found : j.task? row.task_id = some task)
      (known : j.scope? task.scope_id = some scope) (attached : scope.attached)
      (state : row.dispatch_state = .unsubmitted) (live : task.state.closed = false)
      (idle : hasUnresolved j = false) (event : j.FreshEvent event_id) :
      Effect .dispatched j
        (((j.setOperation row.operation_id fun o =>
            { o with dispatch_state := .submitted, submitted_at := some now }).setTask row.task_id
          fun t => { t with state := .running, updated_at := now }).log event_id row.task_id
          (some row.operation_id) "operation_submitted" row.context_version payload .store)
  /-- An observation of the executor. -/
  | observed {j : Journal} (row : OperationRow) (event_id event_type : String) (payload : Json)
      (operation : j.operation? row.operation_id = some row) (free : event_type ∉ reservedTypes)
      (fresh : j.inbox? event_id = none) (event : j.FreshEvent event_id) :
      Effect .observed j
        ((j.insertInbox ⟨event_id, row.operation_id, event_type, payload⟩).log event_id row.task_id
          (some row.operation_id) event_type row.context_version payload .executor)
  /-- A settlement of a submitted operation. -/
  | settled {j j' : Journal} (row : OperationRow) (task : TaskRow) (outcome state : TaskState)
      (replies : List String) (evidence : Json) (question : Option String) (now settlement_id : String)
      (operation : j.operation? row.operation_id = some row) (found : j.task? row.task_id = some task)
      (submitted : row.dispatch_state = .submitted) (live : task.state.terminal = false)
      (outcomes : outcome = .awaitingInput ∨ outcome = .succeeded ∨ outcome = .failed)
      (stateEq : state = if task.state = .cancelRequested ∧ outcome = .awaitingInput then
        .cancelRequested else outcome)
      (questionEq : question =
        settledQuestion row task outcome replies (j.question? task.scope_id))
      (event : j.FreshEvent settlement_id)
      (questions : settleQuestions
        ((j.setOperation row.operation_id fun o =>
          { o with
            dispatch_state := .settled
            replies := some (repliesJson replies)
            evidence := some evidence
            outcome := some outcome
            settled_at := some now }).setTask row.task_id fun t =>
          { t with
            state := state
            open_question := question
            result_version := t.result_version + 1
            updated_at := now })
        row task outcome state question (j.question? task.scope_id) settlement_id = .ok j') :
      Effect .settled j
        (j'.log settlement_id row.task_id (some row.operation_id) "operation_settled"
          row.context_version
          (.dict [("outcome", .str outcome.name), ("replies", repliesJson replies),
            ("evidence", Json.sortKeys evidence)]) .store)
  /-- References for an operation that was submitted, none of them bound to another value. -/
  | receipted {j : Journal} (row : OperationRow) (request_ref execution_ref event_id : String)
      (receipt : Receipt) (payload : Json) (operation : j.operation? row.operation_id = some row)
      (state : row.dispatch_state ∈ [.submitted, .unknown, .settled])
      (agrees : (row.receipt.getD .empty).agrees receipt) (event : j.FreshEvent event_id) :
      Effect .receipted j
        ((j.setOperation row.operation_id fun o =>
          { o with
            request_ref := some (orText row.request_ref request_ref)
            execution_ref := some (orText row.execution_ref execution_ref)
            receipt := some ((row.receipt.getD .empty).merge receipt) }).log event_id row.task_id
          (some row.operation_id) "receipt_recorded" row.context_version payload .store)
  /-- The command of an operation that is not claimed. -/
  | ownedDispatched {j : Journal} (row : OperationRow) (task_ref : String) (command : Json)
      (operation : j.operation? row.operation_id = some row)
      (state : row.dispatch_state = .unsubmitted) (fresh : j.ownedDispatch? row.operation_id = none) :
      Effect .ownedDispatched j (j.insertOwnedDispatch ⟨row.operation_id, task_ref, command, 0⟩)
  /-- The sequence number of an observation, with the cursor of its operation. -/
  | ownedObserved {j : Journal} (row : OwnedEventRow) (cursor : OwnedDispatchRow → OwnedDispatchRow)
      (keeps : ∀ b, (cursor b).operation_id = b.operation_id ∧ (cursor b).task_ref = b.task_ref ∧
        (cursor b).command = b.command)
      (fresh : ∀ r ∈ j.owned_events, r.event_id ≠ row.event_id ∧
        ¬ (r.operation_id = row.operation_id ∧ r.sequence = row.sequence)) :
      Effect .ownedObserved j
        ((j.insertOwnedEvent row).setOwnedDispatch row.operation_id cursor)
  /-- A settlement of an unknown operation by evidence. -/
  | reconciled {j : Journal} (row : OperationRow) (outcome : TaskState) (evidence replies : Json)
      (now event_id : String) (payload : Json)
      (operation : j.operation? row.operation_id = some row) (unknown : row.dispatch_state = .unknown)
      (outcomes : outcome = .succeeded ∨ outcome = .failed ∨ outcome = .cancelled)
      (event : j.FreshEvent event_id) :
      Effect .reconciled j
        (((((j.setOperation row.operation_id fun o =>
          { o with
            dispatch_state := .settled
            outcome := some outcome
            evidence := some evidence
            replies := some replies
            settled_at := some now }).setTask row.task_id fun t =>
          { t with
            state := outcome
            open_question := none
            result_version := t.result_version + 1
            updated_at := now }).dropQuestions fun q => q.task_id = row.task_id).parkUnsubmitted
          (fun t => t = row.task_id) .suspended).log event_id row.task_id (some row.operation_id)
          "operation_reconciled" row.context_version payload .reconciliation)
  /-- The loss of a submitted operation. -/
  | markedUnknown {j : Journal} (row : OperationRow) (reason_code now event_id : String) (payload : Json)
      (operation : j.operation? row.operation_id = some row)
      (submitted : row.dispatch_state = .submitted) (event : j.FreshEvent event_id) :
      Effect .markedUnknown j
        ((((j.setOperation row.operation_id fun o =>
          { o with dispatch_state := .unknown, reason_code := some reason_code }).setTask row.task_id
          fun t => { t with state := .outcomeUnknown, open_question := none, updated_at := now }).dropQuestions
          fun q => q.task_id = row.task_id).log event_id row.task_id (some row.operation_id)
          "outcome_unknown" row.context_version payload .store)
  /-- The end of a scope. -/
  | detached {j : Journal} (scope_id : String) :
      Effect .detached j
        (((j.setScope scope_id fun s => { s with attached := false }).dropQuestions
          fun q => q.scope_id = scope_id).parkUnsubmitted (fun t => j.inScope scope_id t) .suspended)

/-- The writes of the kinds `ws`, one after another. -/
def Writes (ws : List Write) : Journal → Journal → Prop :=
  Relation.ReflTransGen fun j j' => ∃ w ∈ ws, Effect w j j'

/-- One write of a kind in `ws`. -/
theorem Effect.writes {w : Write} {ws : List Write} {j j' : Journal} (h : Effect w j j')
    (hw : w ∈ ws) : Writes ws j j' := .single ⟨w, hw, h⟩

/-- Writes of some kinds are writes of more kinds. -/
theorem Writes.mono {ws ws' : List Write} {j j' : Journal} (h : Writes ws j j') (hws : ws ⊆ ws') :
    Writes ws' j j' :=
  Relation.ReflTransGen.mono (fun _ _ ⟨w, hw, hab⟩ => ⟨w, hws hw, hab⟩) _ _ h

/-! ## The parts of the methods -/

section Parts

variable {j j' : Journal} {row : TaskRow}

/-- `_task_row` finds a task of the scope. -/
theorem taskRow_eq_ok {task_id scope_id : String} :
    taskRow j task_id scope_id = .ok row ↔ j.task? task_id = some row ∧ row.scope_id = scope_id := by
  simp [taskRow, and_comm]

/-- `_task_snapshot` finds the scope of the task. -/
theorem taskSnapshot_eq_ok {snapshot : TaskSnapshot} :
    taskSnapshot j row = .ok snapshot ↔
      ∃ scope, j.scope? row.scope_id = some scope ∧ ⟨row, scope⟩ = snapshot := by
  simp [taskSnapshot]

/-- `question` reads the question of an attached scope. -/
theorem question_eq_ok {scope_id : String} {q : Option QuestionRow} :
    question j scope_id = .ok q ↔ isIdentifier scope_id ∧ liveQuestion j scope_id = q := by
  simp [question]

/-- Preconditions that passed are the present checkpoint. -/
theorem checkPreconditions_ok {scope_id : String} {c : Checkpoint} {authority : Option Bool} {u : Unit}
    (h : checkPreconditions j scope_id (some c) authority = .ok u) : c = checkpoint j scope_id := by
  simp only [checkPreconditions, routingCheckpoint, bind_eq_ok, pure_eq_ok, require_eq_ok] at h
  obtain ⟨_, ⟨_, -, rfl⟩, _, rfl, -⟩ := h
  rfl

/-- The scope of a new task is attached afterwards, and was known or is added. -/
theorem bindScope_ok {scope : Scope} (h : bindScope j scope = .ok j') :
    (∃ row, j'.scope? scope.scope_id = some row ∧ row.attached) ∧
      (j' = j ∨ Effect .scopeAdded j j') := by
  unfold bindScope at h
  split at h
  · next hnone =>
    obtain rfl := Except.ok.inj h
    refine ⟨⟨newScopeRow scope, ?_, rfl⟩, .inr (.scopeAdded _ hnone rfl)⟩
    unfold Journal.scope? at hnone ⊢
    rw [Journal.insertScope_scopes, lookup_concat, hnone]
    exact if_pos rfl
  · next existing hsome =>
    simp only [bind_eq_ok, require_eq_ok, pure_eq_ok] at h
    obtain ⟨-, -, -, ha, rfl⟩ := h
    exact ⟨⟨existing, hsome, ha⟩, .inl rfl⟩

end Parts

/-! ## The methods -/

section Methods

variable {j j' : Journal} {env : Env}

/-- A task that is created is new, and its scope is attached. -/
theorem createTask_ok {scope : Scope} {agent : Agent} {objective : String} {task_id : Option String}
    {snapshot : TaskSnapshot} (h : createTask j env scope agent objective task_id = .ok (snapshot, j')) :
    Writes [.scopeAdded, .created] j j' ∧ j'.operations = j.operations ∧
      j'.scope_questions = j.scope_questions ∧ snapshot.row.scope_id = scope.scope_id ∧
        j.task? snapshot.row.task_id = none ∧
      j'.task? snapshot.row.task_id = some snapshot.row := by
  simp only [createTask, bind_eq_ok, require_eq_ok, boundedIdentifier_eq_ok, Journal.event_eq_ok,
    taskSnapshot_eq_ok, pure_eq_ok, Prod.mk.injEq] at h
  obtain ⟨-, -, -, -, -, -, j₁, hbind, -, -, -, hnew, _, ⟨-, hev, rfl⟩, _, ⟨_, -, rfl⟩, rfl, rfl⟩ := h
  obtain ⟨⟨srow, hscope, hatt⟩, hj₁⟩ := bindScope_ok hbind
  have hcreated : Effect .created j₁ _ := .created scope agent _ objective (env.now 0) (env.newId 1)
    srow (.dict [("objective", .str objective)]) hscope hatt hnew hev
  have hsame : j₁.tasks = j.tasks ∧ j₁.operations = j.operations ∧
      j₁.scope_questions = j.scope_questions := by
    rcases hj₁ with rfl | hadded
    · exact ⟨rfl, rfl, rfl⟩
    · cases hadded
      exact ⟨rfl, rfl, rfl⟩
  refine ⟨?_, hsame.2.1, hsame.2.2, rfl, ?_, ?_⟩
  · rcases hj₁ with rfl | hadded
    · exact hcreated.writes (by simp)
    · exact (hadded.writes (by simp)).trans (hcreated.writes (by simp))
  · unfold Journal.task? at hnew ⊢
    rwa [hsame.1] at hnew
  · unfold Journal.task? at hnew ⊢
    rw [Journal.log_tasks, Journal.insertTask_tasks, lookup_concat]
    simp [newTaskRow, hnew]

variable {operation_id scope_id task_id text : String} {preconditions : Option Checkpoint} {row : OperationRow}

/-- An utterance that is accepted is known already, or it is written. -/
theorem accept_ok {utterance_id kind : String} {voice_context : Option Json} {authority : Option Bool}
    (h : accept j env task_id scope_id utterance_id text kind voice_context preconditions authority = .ok (row, j')) :
    (j.utterance? utterance_id = some row ∧ j' = j) ∨
      (j.utterance? utterance_id = none ∧ j'.utterance? utterance_id = some row ∧
        Effect .accepted j j' ∧ checkPreconditions j scope_id preconditions authority = .ok () ∧
        ∃ task task', j.task? task_id = some task ∧ task.scope_id = scope_id ∧
          j'.task? task_id = some task' ∧ task'.context_version = task.context_version + 1) := by
  simp only [accept, bind_eq_ok, orThrow_eq_ok, require_eq_ok, boundedIdentifier_eq_ok,
    taskRow_eq_ok] at h
  obtain ⟨-, -, kind', -, -, -, members, -, -, -, task, ⟨htask, rfl⟩, -, hcmd, scope, hscope, -, -, h⟩ := h
  obtain rfl : task.task_id = task_id := (mem_of_lookup htask).2
  split at h
  · next existing hu =>
    simp only [bind_eq_ok, require_eq_ok, pure_eq_ok, Prod.mk.injEq] at h
    obtain ⟨-, -, rfl, rfl⟩ := h
    exact .inl ⟨hu, rfl⟩
  · next hu =>
    simp only [bind_eq_ok, require_eq_ok, pure_eq_ok, Prod.mk.injEq, question_eq_ok,
      Journal.event_eq_ok] at h
    obtain ⟨_, hpre, -, -, -, ha, -, hlive, -, -, -, -, -, hop, _, ⟨-, rfl⟩, _, ⟨-, hev, rfl⟩, rfl,
      rfl⟩ := h
    refine .inr ⟨hu, ?_, ?_, hpre, task, { task with
      context_version := task.context_version + 1
      updated_at := env.now 1
      open_question := none }, htask, rfl, ?_, rfl⟩
    · unfold Journal.utterance? at hu ⊢
      simp only [Journal.setTask_operations, Journal.dropQuestions_operations,
        Journal.log_operations, Journal.insertOperation_operations]
      rw [lookup_concat, hu]
      simp [acceptedOperation]
    swap
    · unfold Journal.task? at htask ⊢
      simp [htask]
    · exact .accepted task scope (env.newId 2) utterance_id text (env.now 1) (env.newId 3) kind'
        (.dict members) _ _ htask hscope ha (by simpa using hlive) hcmd hu hop (env.valid 2) hev rfl

/-- An utterance that is accepted with its task is known already, or both are written. -/
theorem acceptNewTask_ok {scope : Scope} {agent : Agent} {utterance_id : String} {voice_context : Option Json}
    {authority : Option Bool}
    (h : acceptNewTask j env scope agent utterance_id text voice_context preconditions authority = .ok (row, j')) :
    (j.utterance? utterance_id = some row ∧ j' = j) ∨
      (j.utterance? utterance_id = none ∧ j'.utterance? utterance_id = some row ∧
        Writes [.scopeAdded, .created, .accepted] j j' ∧
        checkPreconditions j scope.scope_id preconditions authority = .ok () ∧
        ∃ j₁ snapshot, createTask j env scope agent text none = .ok (snapshot, j₁) ∧
          Effect .accepted j₁ j') := by
  unfold acceptNewTask at h
  split at h
  · next prior hu =>
    simp only [bind_eq_ok, require_eq_ok] at h
    obtain ⟨task, -, -, -, h⟩ := h
    rcases accept_ok h with hknown | ⟨hnone, -⟩
    · exact .inl hknown
    · rw [hu] at hnone
      cases hnone
  · next hu =>
    simp only [bind_eq_ok] at h
    obtain ⟨_, hpre, ⟨snapshot, j₁⟩, hcreate, h⟩ := h
    obtain ⟨hwrites, hops, -⟩ := createTask_ok hcreate
    have hu₁ : j₁.utterance? utterance_id = none := by
      unfold Journal.utterance? at hu ⊢
      rwa [hops]
    rcases accept_ok h with ⟨hsome, -⟩ | ⟨-, hrow, haccepted, -⟩
    · rw [hu₁] at hsome
      cases hsome
    · refine .inr ⟨hu, hrow, ?_, hpre, j₁, snapshot, hcreate, haccepted⟩
      exact (hwrites.mono (by simp)).trans (haccepted.writes (by simp))

/-- A question is bound, or the version that it was asked for is past. -/
theorem noteQuestion_ok {source : String} {context_version : Option ℤ} {bound : Bool}
    (h : noteQuestion j env task_id scope_id text source context_version = .ok (bound, j')) :
    j' = j ∨ Effect .noted j j' := by
  simp only [noteQuestion, bind_eq_ok, orThrow_eq_ok, require_eq_ok, taskRow_eq_ok,
    taskSnapshot_eq_ok] at h
  obtain ⟨-, htext, source', -, task, ⟨htask, rfl⟩, _, ⟨scope, hscope, rfl⟩, -, ha, -, hlive, h⟩ := h
  obtain rfl : task.task_id = task_id := (mem_of_lookup htask).2
  split at h
  · simp only [pure_eq_ok, Prod.mk.injEq] at h
    exact .inl h.2.symm
  · simp only [bind_eq_ok, pure_eq_ok, Prod.mk.injEq, Journal.event_eq_ok] at h
    obtain ⟨_, ⟨-, hev, rfl⟩, -, rfl⟩ := h
    have hne : text ≠ "" := by
      rintro rfl
      simp [isText] at htext
    exact .inr (.noted task scope text (env.newId 0) source' htask hscope ha (by simpa using hlive)
      hne hev)

/-- A cancellation is known already, or it is written. -/
theorem cancelPending_ok {command_id : String} {authority : Option Bool} {snapshot : TaskSnapshot}
    (h : cancelPending j env task_id scope_id command_id text preconditions authority = .ok (snapshot, j')) :
    (j.command? command_id = some ⟨command_id, task_id, scope_id, text⟩ ∧ j' = j) ∨
      (j.command? command_id = none ∧
        j'.command? command_id = some ⟨command_id, task_id, scope_id, text⟩ ∧
        Effect .cancelled j j' ∧ checkPreconditions j scope_id preconditions authority = .ok () ∧
        ∃ task task', j.task? task_id = some task ∧ task.scope_id = scope_id ∧
          j'.task? task_id = some task' ∧ task'.context_version = task.context_version + 1) := by
  simp only [cancelPending, bind_eq_ok, require_eq_ok, boundedIdentifier_eq_ok, taskRow_eq_ok] at h
  obtain ⟨-, -, -, -, task, ⟨htask, rfl⟩, h⟩ := h
  obtain rfl : task.task_id = task_id := (mem_of_lookup htask).2
  split at h
  · next prior hc =>
    simp only [bind_eq_ok, require_eq_ok, pure_eq_ok, Prod.mk.injEq] at h
    obtain ⟨-, ⟨h1, h2, h3⟩, _, -, -, rfl⟩ := h
    have hid := (mem_of_lookup hc).2
    exact .inl ⟨by rw [hc, ← h1, ← h2, ← h3, ← hid], rfl⟩
  · next hc =>
    simp only [bind_eq_ok, orThrow_eq_ok, require_eq_ok, pure_eq_ok, Prod.mk.injEq,
      Journal.event_eq_ok, taskRow_eq_ok] at h
    obtain ⟨_, hpre, -, hu, scope, hscope, -, ha, -, hlive, _, ⟨-, hev, rfl⟩, task', ⟨htask', -⟩, _, -,
      -, rfl⟩ := h
    refine .inr ⟨hc, ?_, ?_, hpre, task, task', htask, rfl, htask', ?_⟩
    · unfold Journal.command? at hc ⊢
      simp only [Journal.log_commands, Journal.dropQuestions_commands, Journal.setTask_commands,
        Journal.parkUnsubmitted_commands, Journal.insertCommand_commands]
      rw [lookup_concat, hc]
      simp
    swap
    · unfold Journal.task? at htask htask'
      simp [htask] at htask'
      rw [← htask']
    · have heffect := Effect.cancelled task scope command_id text (env.now 0) (env.newId 0)
        (.dict [("command_id", .str command_id), ("text", .str text),
          ("state", .str (cancelledState j task.task_id).1.name)])
        htask hscope ha (by simpa using hlive) hu hc hev
      unfold cancelledState at heffect
      split_ifs at heffect ⊢ <;> exact heffect

/-- A claim finds its operation unsubmitted and leaves it submitted. -/
theorem dispatch_ok (h : dispatch j env operation_id = .ok (row, j')) :
    Effect .dispatched j j' ∧ row.operation_id = operation_id ∧
      (∃ o, j.operation? operation_id = some o ∧ o.dispatch_state = .unsubmitted) ∧
      j'.operation? operation_id = some row ∧ row.dispatch_state = .submitted := by
  simp only [dispatch, bind_eq_ok, orThrow_eq_ok, require_eq_ok, boundedIdentifier_eq_ok, pure_eq_ok,
    Prod.mk.injEq, Journal.event_eq_ok] at h
  obtain ⟨-, -, o, ho, task, htask, scope, hscope, -, ha, -, hstate, -, hlive, -, hidle, _,
    ⟨-, hev, rfl⟩, row', hrow', rfl, rfl⟩ := h
  obtain rfl : o.operation_id = operation_id := (mem_of_lookup ho).2
  refine ⟨.dispatched o task scope (env.now 0) (env.newId 0) _ ho htask hscope ha hstate
    (by simpa using hlive) (by simpa using hidle) hev, (mem_of_lookup hrow').2, ⟨o, ho, hstate⟩,
    hrow', ?_⟩
  unfold Journal.operation? at ho hrow'
  simp [ho] at hrow'
  rw [← hrow']

/-- An observation is known already, or it is written with its type. -/
theorem observe_ok {event_id event_type : String} {payload : Json} {new : Bool}
    (h : observe j operation_id event_id event_type payload = .ok (new, j')) :
    (∃ prior, j.inbox? event_id = some prior ∧ prior.operation_id = operation_id ∧
        prior.event_type = event_type ∧ Json.dumps prior.payload = Json.dumps payload ∧
        new = false ∧ j' = j) ∨
      (j.inbox? event_id = none ∧
        j'.inbox? event_id = some ⟨event_id, operation_id, event_type, payload⟩ ∧ new ∧
        Effect .observed j j' ∧
        ∃ e, j'.events = j.events ++ [e] ∧ e.type = event_type ∧ event_type ∉ reservedTypes ∧
          (j.operation? operation_id).isSome) := by
  simp only [observe, bind_eq_ok, orThrow_eq_ok, require_eq_ok, boundedIdentifier_eq_ok] at h
  obtain ⟨-, -, -, -, -, -, -, hfree, -, -, o, ho, h⟩ := h
  obtain rfl : o.operation_id = operation_id := (mem_of_lookup ho).2
  split at h
  · next prior hp =>
    simp only [bind_eq_ok, require_eq_ok, pure_eq_ok, Prod.mk.injEq] at h
    obtain ⟨-, ⟨h1, h2, h3⟩, rfl, rfl⟩ := h
    exact .inl ⟨prior, hp, h1, h2, h3, rfl, rfl⟩
  · next hp =>
    simp only [bind_eq_ok, pure_eq_ok, Prod.mk.injEq, Journal.event_eq_ok] at h
    obtain ⟨_, ⟨-, hev, rfl⟩, rfl, rfl⟩ := h
    refine .inr ⟨hp, ?_, rfl, .observed o event_id event_type payload ho hfree hp hev, _, rfl, rfl,
      hfree, by rw [ho, Option.isSome_some]⟩
    unfold Journal.inbox? at hp ⊢
    rw [Journal.log_inbox, Journal.insertInbox_inbox, lookup_concat, hp]
    simp

/-- The outcomes of a settlement. -/
theorem settleOutcome_ok {s : String} {outcome : TaskState} (h : settleOutcome s = .ok outcome) :
    outcome.name = s ∧ (outcome = .awaitingInput ∨ outcome = .succeeded ∨ outcome = .failed) := by
  simp only [settleOutcome, bind_eq_ok, orThrow_eq_ok, require_eq_ok, pure_eq_ok] at h
  obtain ⟨_, hfind, -, hunknown, -, hcancelled, rfl⟩ := h
  refine ⟨by simpa using List.find?_some hfind, ?_⟩
  have hmem := List.mem_of_find?_eq_some hfind
  simp only [TaskState.terminalStates, List.mem_cons, List.not_mem_nil, or_false] at hmem
  tauto

/-- The write of a settlement to the table of questions: an ended task loses its question, and the
settlement of the current context of a task in an attached scope binds its question or retracts it. -/
theorem settleQuestions_ok {task : TaskRow} {outcome state : TaskState} {question : Option String}
    {binding : Option QuestionRow} {settlement_id : String}
    (h : settleQuestions j row task outcome state question binding settlement_id = .ok j') :
    (outcome ≠ .awaitingInput ∧ j' = j.dropQuestions fun q => q.task_id = row.task_id) ∨
      (outcome = .awaitingInput ∧ state = .awaitingInput ∧
        row.context_version = task.context_version ∧
        (∃ scope, j.scope? task.scope_id = some scope ∧ scope.attached) ∧
        (∀ b ∈ binding, b.task_id = row.task_id) ∧
        ((∃ text, text ≠ "" ∧ question = some text ∧
            j' = j.putQuestion ⟨task.scope_id, row.task_id, text, .backend, row.context_version,
              ((binding.filter fun b => b.text = text).map QuestionRow.question_id).getD
                settlement_id⟩) ∨
          (question.filter (fun text => text ≠ "") = none ∧
            j' = j.dropQuestions fun q => q.task_id = row.task_id))) ∨
      (outcome = .awaitingInput ∧ j' = j ∧
        ¬ (state = .awaitingInput ∧ row.context_version = task.context_version ∧
          (∃ scope, j.scope? task.scope_id = some scope ∧ scope.attached) ∧
          ∀ b ∈ binding, b.task_id = row.task_id)) := by
  simp only [settleQuestions] at h
  split_ifs at h with hout hcur
  · exact .inl ⟨hout, (Except.ok.inj h).symm⟩
  · simp only [bind_eq_ok, taskSnapshot_eq_ok] at h
    obtain ⟨_, ⟨scope, hscope, rfl⟩, h⟩ := h
    split_ifs at h with hatt
    · refine .inr (.inl ⟨not_not.1 hout, hcur.1, hcur.2, ⟨scope, hscope, hatt.1⟩, hatt.2, ?_⟩)
      split at h
      · next text hq =>
        obtain ⟨hq, hne⟩ := Option.filter_eq_some_iff.1 hq
        simp only [pure_eq_ok] at h
        exact .inl ⟨text, by simpa using hne, hq, h.symm⟩
      · next hq =>
        simp only [pure_eq_ok] at h
        exact .inr ⟨hq, h.symm⟩
    · simp only [pure_eq_ok] at h
      refine .inr (.inr ⟨not_not.1 hout, h.symm, ?_⟩)
      rintro ⟨-, -, ⟨scope', hscope', ha⟩, hb⟩
      rw [hscope] at hscope'
      cases hscope'
      exact hatt ⟨ha, hb⟩
  · exact .inr (.inr ⟨not_not.1 hout, (Except.ok.inj h).symm, fun hall => hcur ⟨hall.1, hall.2.1⟩⟩)

/-- `settleQuestions` writes no other table. -/
theorem settleQuestions_frame {task : TaskRow} {outcome state : TaskState} {question : Option String}
    {binding : Option QuestionRow} {settlement_id : String}
    (h : settleQuestions j row task outcome state question binding settlement_id = .ok j') :
    ∃ questions, j' = { j with scope_questions := questions } := by
  rcases settleQuestions_ok h with ⟨-, rfl⟩ | ⟨-, -, -, -, -, ⟨_, -, -, rfl⟩ | ⟨-, rfl⟩⟩ | ⟨-, rfl, -⟩
  all_goals exact ⟨_, rfl⟩

/-- A settlement is known already, or it is written. -/
theorem settle_ok {outcome : String} {replies : List String} {evidence : Option Json} {snapshot : TaskSnapshot}
    (h : settle j env operation_id replies outcome evidence = .ok (snapshot, j')) :
    ∃ o, j.operation? operation_id = some o ∧
      ((o.dispatch_state = .settled ∧ j' = j ∧ o.outcome.map TaskState.name = some outcome ∧
          o.replies.map Json.dumps = some (Json.dumps (repliesJson replies)) ∧
          o.evidence.map Json.dumps = some (Json.dumps (evidence.getD (.dict [])))) ∨
        (o.dispatch_state = .submitted ∧ Effect .settled j j' ∧
          (∃ o', j'.operation? operation_id = some o' ∧ o'.dispatch_state = .settled) ∧
          ∀ t' ∈ j'.tasks, t' ∈ j.tasks ∨ (t'.task_id = o.task_id ∧ (t'.state.name = outcome ∨
            ∃ t, j.task? o.task_id = some t ∧ t.state = .cancelRequested)))) := by
  simp only [settle, bind_eq_ok, orThrow_eq_ok, require_eq_ok, boundedIdentifier_eq_ok] at h
  obtain ⟨-, -, outcome', hout, -, -, -, -, -, -, o, ho, h⟩ := h
  obtain ⟨rfl, houts⟩ := settleOutcome_ok hout
  obtain rfl : o.operation_id = operation_id := (mem_of_lookup ho).2
  refine ⟨o, ho, ?_⟩
  split at h
  · next hs =>
    simp only [bind_eq_ok, orThrow_eq_ok, require_eq_ok, pure_eq_ok, Prod.mk.injEq] at h
    obtain ⟨-, ⟨hr, he, ho'⟩, _, -, _, -, -, rfl⟩ := h
    exact .inl ⟨hs, rfl, by simp [ho'], hr, he⟩
  · simp only [bind_eq_ok, orThrow_eq_ok, require_eq_ok, pure_eq_ok, Prod.mk.injEq,
      Journal.event_eq_ok] at h
    obtain ⟨-, hsub, task, htask, -, hlive, j₁, hq, _, ⟨-, hev, rfl⟩, _, -, _, -, -, rfl⟩ := h
    obtain ⟨questions, rfl⟩ := settleQuestions_frame hq
    refine .inr ⟨hsub, ?_, ?_, ?_⟩
    · exact .settled o task outcome' _ replies (evidence.getD (.dict [])) _ (env.now 0) (env.newId 0)
        ho htask hsub (by simpa using hlive) houts rfl rfl hev hq
    · unfold Journal.operation? at ho ⊢
      simp [ho]
    · simp only [Journal.log_tasks, Journal.setTask_tasks, forall_mem_update]
      intro t ht
      split_ifs with hid hreq
      · exact .inr ⟨hid, .inr ⟨task, htask, hreq.1⟩⟩
      · exact .inr ⟨hid, .inl rfl⟩
      · exact .inl ht

/-- What `record_receipt` was told is in the row already. -/
def OperationRow.Covers (row : OperationRow) (request_ref execution_ref : String)
    (receipt : Receipt) : Prop :=
  orText row.request_ref request_ref = orText row.request_ref "" ∧
    orText row.execution_ref execution_ref = orText row.execution_ref "" ∧
    (row.receipt.getD .empty).merge receipt = row.receipt.getD .empty

/-- A reference that was taken up is not taken up again. -/
theorem orText_orText (column : Option String) (value : String) :
    orText (some (orText column value)) value = orText (some (orText column value)) "" := by
  unfold orText
  cases column <;> grind

/-- A receipt that was merged is not merged again. -/
theorem Receipt.merge_merge (previous receipt : Receipt) :
    (previous.merge receipt).merge receipt = previous.merge receipt := by
  simp [Receipt.merge, ← Option.or_assoc]

/-- The references are recorded afterwards, whether or not that took a write. -/
theorem recordReceipt_ok {request_ref execution_ref : String} {receipt : Option Json}
    (h : recordReceipt j env operation_id request_ref execution_ref receipt = .ok (row, j')) :
    ∃ r, parseReceipt receipt = .ok r ∧ (j' = j ∨ Effect .receipted j j') ∧
      j'.operation? operation_id = some row ∧
      row.Covers (if request_ref = "" then r.request_ref.getD "" else request_ref)
        (if execution_ref = "" then r.execution_ref.getD "" else execution_ref) r := by
  simp only [recordReceipt, bind_eq_ok, orThrow_eq_ok, require_eq_ok, boundedIdentifier_eq_ok] at h
  obtain ⟨-, -, -, -, -, -, r, hr, -, -, -, -, o, ho, -, hstate, -, -, -, -, -, hagrees, -, -, h⟩ := h
  obtain rfl : o.operation_id = operation_id := (mem_of_lookup ho).2
  refine ⟨r, hr, ?_⟩
  revert h
  generalize (if request_ref = "" then r.request_ref.getD "" else request_ref) = q
  generalize (if execution_ref = "" then r.execution_ref.getD "" else execution_ref) = e
  intro h
  split_ifs at h with hsame
  · simp only [pure_eq_ok, Prod.mk.injEq] at h
    obtain ⟨rfl, rfl⟩ := h
    simp only [Prod.mk.injEq] at hsame
    exact ⟨.inl rfl, ho, hsame.1.symm, hsame.2.1.symm, hsame.2.2.symm⟩
  · simp only [bind_eq_ok, orThrow_eq_ok, pure_eq_ok, Prod.mk.injEq, Journal.event_eq_ok] at h
    obtain ⟨_, ⟨-, hev, rfl⟩, row', hrow', rfl, rfl⟩ := h
    refine ⟨.inr (.receipted o q e (env.newId 0) r _ ho hstate hagrees hev), hrow', ?_⟩
    unfold Journal.operation? at ho hrow'
    simp [ho] at hrow'
    subst hrow'
    exact ⟨orText_orText _ _, orText_orText _ _, Receipt.merge_merge _ _⟩

/-- An owned dispatch is known already, or it is written. -/
theorem recordOwnedDispatch_ok {task_ref : String} {command : Json} {binding : Binding}
    (h : recordOwnedDispatch j operation_id task_ref command = .ok (binding, j')) :
    (∃ prior, j.ownedDispatch? operation_id = some prior ∧ prior.task_ref = task_ref ∧
        Json.dumps prior.command = Json.dumps command ∧ j' = j) ∨
      (j.ownedDispatch? operation_id = none ∧ Effect .ownedDispatched j j' ∧
        j'.ownedDispatch? operation_id = some ⟨operation_id, task_ref, command, 0⟩) := by
  simp only [recordOwnedDispatch, executorBinding, bind_eq_ok, orThrow_eq_ok, require_eq_ok,
    boundedIdentifier_eq_ok, pure_eq_ok] at h
  obtain ⟨-, -, -, -, _, ⟨-, -, o, ho, _, -, _, -, rfl⟩, h⟩ := h
  obtain rfl : o.operation_id = operation_id := (mem_of_lookup ho).2
  split at h
  · next prior hp =>
    simp only [bind_eq_ok, require_eq_ok, pure_eq_ok, Prod.mk.injEq] at h
    obtain ⟨-, ⟨h1, h2⟩, -, rfl⟩ := h
    exact .inl ⟨prior, hp, h1, h2, rfl⟩
  · next hp =>
    simp only [bind_eq_ok, require_eq_ok, pure_eq_ok, Prod.mk.injEq] at h
    obtain ⟨-, hstate, _, -, -, rfl⟩ := h
    refine .inr ⟨hp, .ownedDispatched o task_ref command ho hstate hp, ?_⟩
    unfold Journal.ownedDispatch? at hp ⊢
    rw [Journal.insertOwnedDispatch_owned_dispatches, lookup_concat, hp]
    exact if_pos rfl

/-- An owned event is known already, or it is written as an observation and then in order. -/
theorem observeOwned_ok {event : Json} {news : Bool} (h : observeOwned j operation_id event = .ok (news, j')) :
    ∃ e, parseOwnedEvent event = .ok e ∧ ∃ new j₁,
      observe j operation_id e.event_id "owned_observation" event = .ok (new, j₁) ∧
      ((new = false ∧ j' = j₁) ∨ (new ∧ Effect .ownedObserved j₁ j')) := by
  simp only [observeOwned, bind_eq_ok, orThrow_eq_ok, require_eq_ok] at h
  obtain ⟨e, he, binding, -, -, -, prior, -, -, -, -, -, ⟨new, j₁⟩, hobserve, h⟩ := h
  refine ⟨e, he, new, j₁, hobserve, ?_⟩
  cases new with
  | false =>
    simp only [pure_eq_ok, if_pos, Prod.mk.injEq] at h
    exact .inl ⟨rfl, h.2.symm⟩
  | true =>
    refine .inr ⟨rfl, ?_⟩
    simp only [Bool.true_eq_false, if_false, bind_eq_ok, require_eq_ok] at h
    obtain ⟨-, hfresh, h⟩ := h
    split_ifs at h
    · simp only [pure_eq_ok, Prod.mk.injEq] at h
      obtain ⟨-, rfl⟩ := h
      have heffect := Effect.ownedObserved ⟨operation_id, e.sequence, e.event_id⟩ (fun b => b)
        (fun _ => ⟨rfl, rfl, rfl⟩) hfresh
      rwa [Journal.setOwnedDispatch, update_id] at heffect
    · simp only [pure_eq_ok, Prod.mk.injEq] at h
      obtain ⟨-, rfl⟩ := h
      exact .ownedObserved ⟨operation_id, e.sequence, e.event_id⟩
        (fun b => { b with event_sequence := e.sequence }) (fun _ => ⟨rfl, rfl, rfl⟩) hfresh

/-- The outcomes of a reconciliation. -/
theorem reconcileOutcome_ok {s : String} {outcome : TaskState}
    (h : reconcileOutcome s = .ok outcome) :
    outcome.name = s ∧ (outcome = .succeeded ∨ outcome = .failed ∨ outcome = .cancelled) := by
  simp only [reconcileOutcome, orThrow_eq_ok] at h
  refine ⟨by simpa using List.find?_some h, ?_⟩
  simpa using List.mem_of_find?_eq_some h

/-- A reconciliation is known already, or it is written. -/
theorem reconcileUnknown_ok {outcome : String} {evidence : Json} {replies : Option (List String)}
    (h : reconcileUnknown j env operation_id outcome evidence replies = .ok (row, j')) :
    ∃ o, j.operation? operation_id = some o ∧
      ((o.dispatch_state = .settled ∧ j' = j ∧ o.outcome.map TaskState.name = some outcome ∧
          o.replies.map Json.dumps = some (Json.dumps (repliesJson (replies.getD []))) ∧
          o.evidence.map Json.dumps = some (Json.dumps evidence)) ∨
        (o.dispatch_state = .unknown ∧ Effect .reconciled j j' ∧
          ∃ o', j'.operation? operation_id = some o' ∧ o'.dispatch_state = .settled)) := by
  simp only [reconcileUnknown, bind_eq_ok, orThrow_eq_ok, require_eq_ok, boundedIdentifier_eq_ok] at h
  obtain ⟨-, -, outcome', hout, e, -, -, -, -, -, -, -, o, ho, -, -, -, -, h⟩ := h
  obtain ⟨rfl, houts⟩ := reconcileOutcome_ok hout
  obtain rfl : o.operation_id = operation_id := (mem_of_lookup ho).2
  refine ⟨o, ho, ?_⟩
  split at h
  · next hs =>
    simp only [bind_eq_ok, require_eq_ok, pure_eq_ok, Prod.mk.injEq] at h
    obtain ⟨-, ⟨h1, h2, h3⟩, -, rfl⟩ := h
    exact .inl ⟨hs, rfl, by simp [h1], h3, h2⟩
  · simp only [bind_eq_ok, orThrow_eq_ok, require_eq_ok, pure_eq_ok, Prod.mk.injEq,
      Journal.event_eq_ok] at h
    obtain ⟨-, hunknown, _, ⟨-, hev, rfl⟩, row', hrow', -, rfl⟩ := h
    refine .inr ⟨hunknown, ?_, row', hrow', ?_⟩
    · exact .reconciled o outcome' evidence (repliesJson (replies.getD [])) (env.now 0) (env.newId 0) _
        ho hunknown houts hev
    · unfold Journal.operation? at ho hrow'
      simp [ho] at hrow'
      simp [← hrow']

/-- The writes of a loss. -/
theorem setUnknown_ok {event_id now reason_code : String} (h : setUnknown j event_id now row reason_code = .ok j')
    (ho : j.operation? row.operation_id = some row) (hs : row.dispatch_state = .submitted) :
    Effect .markedUnknown j j' := by
  simp only [setUnknown, Journal.event_eq_ok] at h
  obtain ⟨-, hev, rfl⟩ := h
  exact .markedUnknown row reason_code now event_id _ ho hs hev

/-- A loss is known already, or it is written. -/
theorem markUnknown_ok {reason_code : String} (h : markUnknown j env operation_id reason_code = .ok j') :
    j' = j ∨ Effect .markedUnknown j j' := by
  simp only [markUnknown, bind_eq_ok, orThrow_eq_ok, boundedIdentifier_eq_ok] at h
  obtain ⟨-, -, -, -, o, ho, h⟩ := h
  obtain rfl : o.operation_id = operation_id := (mem_of_lookup ho).2
  split at h
  · simp only [pure_eq_ok] at h
    exact .inl h.symm
  · simp only [bind_eq_ok, require_eq_ok] at h
    obtain ⟨-, hs, h⟩ := h
    exact .inr (setUnknown_ok h ho hs)

/-- The end of a scope is always written. -/
theorem detachScope_ok (h : detachScope j scope_id = .ok j') : Effect .detached j j' := by
  simp only [detachScope, bind_eq_ok, boundedIdentifier_eq_ok, pure_eq_ok] at h
  obtain ⟨-, -, rfl⟩ := h
  exact .detached scope_id

/-- The loop of `recover`: the rows that it has read are marked one after another, and each is still
as it was read when its turn comes. -/
theorem recoverRows_ok {rows : List OperationRow} {i : ℕ} (h : recoverRows env j i rows = .ok j')
    (hread : ∀ r ∈ rows, j.operation? r.operation_id = some r ∧ r.dispatch_state = .submitted)
    (hids : (rows.map OperationRow.operation_id).Nodup) : Writes [.markedUnknown] j j' := by
  induction rows generalizing j i with
  | nil =>
    obtain rfl := Except.ok.inj h
    exact .refl
  | cons row rows ih =>
    simp only [recoverRows, bind_eq_ok] at h
    obtain ⟨j₁, hset, h⟩ := h
    obtain ⟨hrow, hrest⟩ := List.forall_mem_cons.1 hread
    obtain ⟨hnew, hids⟩ := List.nodup_cons.1 hids
    have heffect := setUnknown_ok hset hrow.1 hrow.2
    refine (heffect.writes (by simp)).trans (ih h (fun r hr => ⟨?_, (hrest r hr).2⟩) hids)
    have hne : r.operation_id ≠ row.operation_id := fun e => hnew (e ▸ List.mem_map_of_mem hr)
    simp only [setUnknown, Journal.event_eq_ok] at hset
    obtain ⟨-, -, rfl⟩ := hset
    have hr' := (hrest r hr).1
    unfold Journal.operation? at hr' ⊢
    simp [hr', hne]

/-- `recover` marks whatever is submitted. -/
theorem recover_ok {n : ℕ} (hj : Table.Unique OperationRow.operation_id j.operations)
    (h : recover j env = .ok (n, j')) : Writes [.markedUnknown] j j' := by
  simp only [recover, bind_eq_ok, pure_eq_ok, Prod.mk.injEq] at h
  obtain ⟨_, hrows, -, rfl⟩ := h
  refine recoverRows_ok hrows (fun r hr => ?_) (hj.filter _)
  obtain ⟨hmem, hstate⟩ := List.mem_filter.1 hr
  exact ⟨lookup_of_mem hj hmem, by simpa using hstate⟩

end Methods

end StrixAlloy.TaskStore

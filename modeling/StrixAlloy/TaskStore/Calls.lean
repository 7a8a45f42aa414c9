import StrixAlloy.Lib.Runs
import StrixAlloy.TaskStore.Effects

/-!
# Runs of the journal

A `Call` is a public method that writes, with its arguments, and `step` is its transaction: a call
that raises leaves the journal as it was. `reached` is the journal after a list of calls from the
empty one. Whatever every write of `Effect` keeps holds of every journal that is reached
(`reached_of_effect`), where the keys of all tables are known to be unique (`Keyed`).
-/

namespace StrixAlloy.TaskStore

open Checked Table

/-- A public method that writes, with its arguments. -/
inductive Call where
  | createTask (scope : Scope) (agent : Agent) (objective : String) (task_id : Option String)
  | accept (task_id scope_id utterance_id text kind : String) (voice_context : Option Json)
      (preconditions : Option Checkpoint) (authority : Option Bool)
  | acceptNewTask (scope : Scope) (agent : Agent) (utterance_id text : String)
      (voice_context : Option Json) (preconditions : Option Checkpoint) (authority : Option Bool)
  | noteQuestion (task_id scope_id text source : String) (context_version : Option ℤ)
  | cancelPending (task_id scope_id command_id text : String) (preconditions : Option Checkpoint)
      (authority : Option Bool)
  | dispatch (operation_id : String)
  | observe (operation_id event_id event_type : String) (payload : Json)
  | settle (operation_id : String) (replies : List String) (outcome : String) (evidence : Option Json)
  | recordReceipt (operation_id request_ref execution_ref : String) (receipt : Option Json)
  | recordOwnedDispatch (operation_id task_ref : String) (command : Json)
  | observeOwned (operation_id : String) (event : Json)
  | reconcileUnknown (operation_id outcome : String) (evidence : Json)
      (replies : Option (List String))
  | markUnknown (operation_id reason_code : String)
  | detachScope (scope_id : String)
  | recover

namespace Call

/-- The journal that a call commits, or the exception that it raises. -/
def run (j : Journal) (env : Env) : Call → Except StoreError Journal
  | createTask scope agent objective task_id =>
    Prod.snd <$> TaskStore.createTask j env scope agent objective task_id
  | accept task_id scope_id utterance_id text kind voice_context preconditions authority =>
    Prod.snd <$> TaskStore.accept j env task_id scope_id utterance_id text kind voice_context
      preconditions authority
  | acceptNewTask scope agent utterance_id text voice_context preconditions authority =>
    Prod.snd <$> TaskStore.acceptNewTask j env scope agent utterance_id text voice_context
      preconditions authority
  | noteQuestion task_id scope_id text source context_version =>
    Prod.snd <$> TaskStore.noteQuestion j env task_id scope_id text source context_version
  | cancelPending task_id scope_id command_id text preconditions authority =>
    Prod.snd <$> TaskStore.cancelPending j env task_id scope_id command_id text preconditions authority
  | dispatch operation_id => Prod.snd <$> TaskStore.dispatch j env operation_id
  | observe operation_id event_id event_type payload =>
    Prod.snd <$> TaskStore.observe j operation_id event_id event_type payload
  | settle operation_id replies outcome evidence =>
    Prod.snd <$> TaskStore.settle j env operation_id replies outcome evidence
  | recordReceipt operation_id request_ref execution_ref receipt =>
    Prod.snd <$> TaskStore.recordReceipt j env operation_id request_ref execution_ref receipt
  | recordOwnedDispatch operation_id task_ref command =>
    Prod.snd <$> TaskStore.recordOwnedDispatch j operation_id task_ref command
  | observeOwned operation_id event => Prod.snd <$> TaskStore.observeOwned j operation_id event
  | reconcileUnknown operation_id outcome evidence replies =>
    Prod.snd <$> TaskStore.reconcileUnknown j env operation_id outcome evidence replies
  | markUnknown operation_id reason_code => TaskStore.markUnknown j env operation_id reason_code
  | detachScope scope_id => TaskStore.detachScope j scope_id
  | recover => Prod.snd <$> TaskStore.recover j env

/-- The kinds of write that a call can make. -/
def writes : Call → List Write
  | createTask .. => [.scopeAdded, .created]
  | accept .. => [.accepted]
  | acceptNewTask .. => [.scopeAdded, .created, .accepted]
  | noteQuestion .. => [.noted]
  | cancelPending .. => [.cancelled]
  | dispatch .. => [.dispatched]
  | observe .. => [.observed]
  | settle .. => [.settled]
  | recordReceipt .. => [.receipted]
  | recordOwnedDispatch .. => [.ownedDispatched]
  | observeOwned .. => [.observed, .ownedObserved]
  | reconcileUnknown .. => [.reconciled]
  | markUnknown .. | recover => [.markedUnknown]
  | detachScope .. => [.detached]

end Call

/-- The journal after a call: what it commits, or the journal before it when it raises. -/
def step (j : Journal) (call : Env × Call) : Journal :=
  match call.2.run j call.1 with
  | .ok j' => j'
  | .error _ => j

variable {j j' : Journal}

/-- A call that succeeds commits its journal. -/
theorem step_of_ok {call : Env × Call} (h : call.2.run j call.1 = .ok j') : step j call = j' := by
  unfold step
  rw [h]

/-- The journal after a list of calls. -/
def reached (calls : List (Env × Call)) : Journal := Runs.run step .empty calls

/-! ## A call writes what its kind allows -/

/-- A successful call made writes of its kinds, if the operations have unique identifiers. -/
theorem Call.writes_of_run {env : Env} {call : Call} (hj : Table.Unique OperationRow.operation_id j.operations)
    (h : call.run j env = .ok j') : Writes call.writes j j' := by
  have hone : ∀ w, call.writes = [w] → j' = j ∨ Effect w j j' → Writes call.writes j j' := by
    rintro w hw (rfl | heffect)
    · exact .refl
    · exact heffect.writes (by simp [hw])
  cases call with
  | createTask =>
    obtain ⟨_, h⟩ := map_snd_eq_ok.1 h
    exact (createTask_ok h).1
  | accept =>
    obtain ⟨_, h⟩ := map_snd_eq_ok.1 h
    exact hone _ rfl ((accept_ok h).imp And.right fun h => h.2.2.1)
  | acceptNewTask =>
    obtain ⟨_, h⟩ := map_snd_eq_ok.1 h
    rcases acceptNewTask_ok h with ⟨-, rfl⟩ | ⟨-, -, hwrites, -⟩
    · exact .refl
    · exact hwrites
  | noteQuestion =>
    obtain ⟨_, h⟩ := map_snd_eq_ok.1 h
    exact hone _ rfl (noteQuestion_ok h)
  | cancelPending =>
    obtain ⟨_, h⟩ := map_snd_eq_ok.1 h
    exact hone _ rfl ((cancelPending_ok h).imp And.right fun h => h.2.2.1)
  | dispatch =>
    obtain ⟨_, h⟩ := map_snd_eq_ok.1 h
    exact hone _ rfl (Or.inr (dispatch_ok h).1)
  | observe =>
    obtain ⟨_, h⟩ := map_snd_eq_ok.1 h
    rcases observe_ok h with ⟨_, -, -, -, -, -, rfl⟩ | ⟨-, -, -, heffect, -⟩
    · exact .refl
    · exact hone _ rfl (Or.inr heffect)
  | settle =>
    obtain ⟨_, h⟩ := map_snd_eq_ok.1 h
    obtain ⟨_, -, ⟨-, rfl, -⟩ | ⟨-, heffect, -⟩⟩ := settle_ok h
    · exact .refl
    · exact hone _ rfl (Or.inr heffect)
  | recordReceipt =>
    obtain ⟨_, h⟩ := map_snd_eq_ok.1 h
    obtain ⟨_, -, h, -⟩ := recordReceipt_ok h
    exact hone _ rfl h
  | recordOwnedDispatch =>
    obtain ⟨_, h⟩ := map_snd_eq_ok.1 h
    rcases recordOwnedDispatch_ok h with ⟨_, -, -, -, rfl⟩ | ⟨-, heffect, -⟩
    · exact .refl
    · exact hone _ rfl (Or.inr heffect)
  | observeOwned =>
    obtain ⟨_, h⟩ := map_snd_eq_ok.1 h
    obtain ⟨e, -, new, j₁, hobserve, hnews⟩ := observeOwned_ok h
    rcases observe_ok hobserve with ⟨_, -, -, -, -, rfl, rfl⟩ | ⟨-, -, rfl, heffect, -⟩
    · obtain ⟨-, rfl⟩ | ⟨hnew, -⟩ := hnews
      · exact .refl
      · cases hnew
    · obtain ⟨hnew, -⟩ | ⟨-, howned⟩ := hnews
      · cases hnew
      · exact (heffect.writes (by simp [writes])).trans (howned.writes (by simp [writes]))
  | reconcileUnknown =>
    obtain ⟨_, h⟩ := map_snd_eq_ok.1 h
    obtain ⟨_, -, ⟨-, rfl, -⟩ | ⟨-, heffect, -⟩⟩ := reconcileUnknown_ok h
    · exact .refl
    · exact hone _ rfl (Or.inr heffect)
  | markUnknown => exact hone _ rfl (markUnknown_ok h)
  | detachScope => exact hone _ rfl (Or.inr (detachScope_ok h))
  | recover =>
    obtain ⟨_, h⟩ := map_snd_eq_ok.1 h
    exact recover_ok hj h

/-! ## Keys -/

/-- The primary keys and unique columns of the schema, and the foreign keys that reads follow. -/
structure Keyed (j : Journal) : Prop where
  scopes : Table.Unique ScopeRow.scope_id j.scopes
  tasks : Table.Unique TaskRow.task_id j.tasks
  operations : Table.Unique OperationRow.operation_id j.operations
  utterances : Table.Unique OperationRow.utterance_id j.operations
  inbox : Table.Unique InboxRow.event_id j.inbox
  events : Table.Unique EventRow.event_id j.events
  commands : Table.Unique CommandRow.command_id j.commands
  questions : Table.Unique QuestionRow.scope_id j.scope_questions
  owned_dispatches : Table.Unique OwnedDispatchRow.operation_id j.owned_dispatches
  owned_events : Table.Unique OwnedEventRow.event_id j.owned_events
  /-- The identifier of an operation is one that a caller may give. -/
  identifiers : ∀ o ∈ j.operations, isIdentifier o.operation_id
  /-- Every task belongs to a scope. -/
  task_scope : j.tasks.map TaskRow.scope_id ⊆ j.scopes.map ScopeRow.scope_id
  /-- Every operation belongs to a task. -/
  operation_task : j.operations.map OperationRow.task_id ⊆ j.tasks.map TaskRow.task_id
  /-- Every command concerns a task. -/
  command_task : j.commands.map CommandRow.task_id ⊆ j.tasks.map TaskRow.task_id

theorem Keyed.empty : Keyed .empty := by
  constructor <;> simp [Journal.empty, Table.Unique]

/-- A write of tasks keeps the keys. -/
theorem Keyed.setTask (hj : Keyed j) {task_id : String} {f : TaskRow → TaskRow}
    (hf : ∀ t, (f t).task_id = t.task_id ∧ (f t).scope_id = t.scope_id := by exact fun _ => ⟨rfl, rfl⟩) :
    Keyed (j.setTask task_id f) where
  __ := hj
  tasks := (unique_update fun t => (hf t).1).2 hj.tasks
  task_scope := by simpa [fun t => (hf t).2] using hj.task_scope
  operation_task := by simpa [fun t => (hf t).1] using hj.operation_task
  command_task := by simpa [fun t => (hf t).1] using hj.command_task

/-- A write of operations keeps the keys. -/
theorem Keyed.updateOperations (hj : Keyed j) {p : OperationRow → Prop} [DecidablePred p]
    {f : OperationRow → OperationRow}
    (hf : ∀ o, (f o).operation_id = o.operation_id ∧ (f o).utterance_id = o.utterance_id ∧ (f o).task_id = o.task_id
      := by exact fun _ => ⟨rfl, rfl, rfl⟩) :
    Keyed { j with operations := Table.update p f j.operations } where
  __ := hj
  operations := (unique_update fun o => (hf o).1).2 hj.operations
  utterances := (unique_update fun o => (hf o).2.1).2 hj.utterances
  identifiers := by
    rw [forall_mem_update]
    intro o ho
    split_ifs
    · rw [(hf o).1]
      exact hj.identifiers o ho
    · exact hj.identifiers o ho
  operation_task := by simpa [fun o => (hf o).2.2] using hj.operation_task

theorem Keyed.parkUnsubmitted (hj : Keyed j) {p : String → Prop} [DecidablePred p] {state : DispatchState} :
    Keyed (j.parkUnsubmitted p state) :=
  hj.updateOperations (f := fun o => { o with dispatch_state := state })

theorem Keyed.dropQuestions (hj : Keyed j) {p : QuestionRow → Prop} [DecidablePred p] :
    Keyed (j.dropQuestions p) :=
  { hj with questions := hj.questions.filter _ }

/-- A new event keeps the keys. -/
theorem Keyed.log (hj : Keyed j) {event_id task_id type : String} {operation_id : Option String} {version : ℕ}
    {payload : Json} {source : EventSource} (h : j.FreshEvent event_id) :
    Keyed (j.log event_id task_id operation_id type version payload source) :=
  { hj with events := unique_concat.2 ⟨hj.events, lookup_eq_none.2 h⟩ }

/-- A settlement keeps the keys, and at most one question for a scope. -/
theorem settleQuestions_keyed {row : OperationRow} {task : TaskRow} {outcome state : TaskState}
    {question : Option String} {binding : Option QuestionRow} {settlement_id : String}
    (h : settleQuestions j row task outcome state question binding settlement_id = .ok j') (hj : Keyed j) :
    Keyed j' := by
  rcases settleQuestions_ok h with ⟨-, rfl⟩ | ⟨-, -, -, -, -, ⟨_, -, -, rfl⟩ | ⟨-, rfl⟩⟩ | ⟨-, rfl, -⟩
  · exact hj.dropQuestions
  · exact { hj with questions := hj.questions.replace }
  · exact hj.dropQuestions
  · exact hj

/-- Every write keeps the keys. -/
theorem Effect.keyed {w : Write} (h : Effect w j j') (hj : Keyed j) : Keyed j' := by
  cases h with
  | scopeAdded row fresh =>
    refine { hj with scopes := unique_concat.2 ⟨hj.scopes, fresh⟩, task_scope := ?_ }
    simpa using List.subset_append_of_subset_left _ hj.task_scope
  | created scope agent identifier objective now event_id row payload found _ fresh event =>
    have hinsert : Keyed (j.insertTask (newTaskRow identifier scope agent objective now)) := { hj with
      tasks := unique_concat.2 ⟨hj.tasks, fresh⟩
      task_scope := by simpa [hj.task_scope, newTaskRow] using ⟨row, mem_of_lookup found⟩
      operation_task := by simpa using List.subset_append_of_subset_left _ hj.operation_task
      command_task := by simpa using List.subset_append_of_subset_left _ hj.command_task }
    exact hinsert.log event
  | accepted task scope operation_id utterance_id text now event_id kind context payload answered
      found _ _ _ _ utterance fresh identifier event =>
    have hinsert : Keyed (j.insertOperation (acceptedOperation operation_id task.task_id utterance_id
        (task.context_version + 1) kind text context payload now)) := { hj with
      operations := unique_concat.2 ⟨hj.operations, fresh⟩
      utterances := unique_concat.2 ⟨hj.utterances, utterance⟩
      identifiers := List.forall_mem_append.2 ⟨hj.identifiers, List.forall_mem_singleton.2 identifier⟩
      operation_task := by
        have htask := mem_of_lookup found
        simpa [hj.operation_task, acceptedOperation] using ⟨task, htask.1, rfl⟩ }
    exact .setTask (.dropQuestions (.log (.setTask hinsert) event))
  | noted task scope text question_id source _ _ _ _ _ event =>
    have hput : ∀ q, Keyed (j.putQuestion q) := fun _ => { hj with questions := hj.questions.replace }
    exact .log (.setTask (hput _)) event
  | cancelled task scope command_id text now event_id payload found _ _ _ _ fresh event =>
    have htask := mem_of_lookup found
    have hcommand : Keyed (j.insertCommand ⟨command_id, task.task_id, task.scope_id, text⟩) :=
      { hj with
        commands := unique_concat.2 ⟨hj.commands, fresh⟩
        command_task := by simpa [hj.command_task] using ⟨task, htask.1, rfl⟩ }
    exact .log (.dropQuestions (.setTask hcommand.parkUnsubmitted)) event
  | dispatched row task scope now event_id payload _ _ _ _ _ _ _ event =>
    exact .log (.setTask (.updateOperations hj)) event
  | observed row event_id event_type payload _ _ fresh event =>
    have hinsert : Keyed (j.insertInbox ⟨event_id, row.operation_id, event_type, payload⟩) :=
      { hj with inbox := unique_concat.2 ⟨hj.inbox, fresh⟩ }
    exact hinsert.log event
  | settled row task outcome state replies evidence question now settlement_id _ _ _ _ _ _ _ event
      questions =>
    have hset := settleQuestions_keyed questions
    obtain ⟨qs, rfl⟩ := settleQuestions_frame questions
    exact .log (hset (.setTask (.updateOperations hj))) event
  | receipted row request_ref execution_ref event_id receipt payload _ _ _ event =>
    exact .log (.updateOperations hj) event
  | ownedDispatched row task_ref command _ _ fresh =>
    exact { hj with owned_dispatches := unique_concat.2 ⟨hj.owned_dispatches, fresh⟩ }
  | ownedObserved row cursor keeps fresh =>
    refine { hj with
      owned_dispatches := (unique_update fun b => (keeps b).1).2 hj.owned_dispatches
      owned_events := unique_concat.2 ⟨hj.owned_events, ?_⟩ }
    exact lookup_eq_none.2 fun r hr => (fresh r hr).1
  | reconciled row outcome evidence replies now event_id payload _ _ _ event =>
    exact .log (.parkUnsubmitted (.dropQuestions (.setTask (.updateOperations hj)))) event
  | markedUnknown row reason_code now event_id payload _ _ event =>
    exact .log (.dropQuestions (.setTask (.updateOperations hj))) event
  | detached scope_id =>
    have hscope : Keyed (j.setScope scope_id fun s => { s with attached := false }) :=
      { hj with scopes := by simpa using hj.scopes, task_scope := by simpa using hj.task_scope }
    exact hscope.dropQuestions.parkUnsubmitted

/-! ## What holds of every journal that is reached -/

section Reached

variable {P : Journal → Prop} (hP : ∀ w j j', Keyed j → P j → Effect w j j' → P j')
include hP

/-- What every write keeps, a call keeps. -/
theorem step_of_effect {j : Journal} (hj : Keyed j) (h : P j) (call : Env × Call) :
    Keyed (step j call) ∧ P (step j call) := by
  unfold step
  split
  · next j' hrun =>
    have hwrites := Call.writes_of_run hj.operations hrun
    clear hrun
    induction hwrites with
    | refl => exact ⟨hj, h⟩
    | tail _ heffect ih =>
      obtain ⟨w, -, heffect⟩ := heffect
      exact ⟨heffect.keyed ih.1, hP w _ _ ih.1 ih.2 heffect⟩
  · exact ⟨hj, h⟩

/-- What holds of the empty journal and is kept by every write holds of every journal that is
reached. -/
theorem reached_of_effect (h : P .empty) (calls : List (Env × Call)) :
    Keyed (reached calls) ∧ P (reached calls) :=
  Runs.run_invariant (P := fun j => Keyed j ∧ P j)
    (fun _ call hj => step_of_effect hP hj.1 hj.2 call) calls ⟨.empty, h⟩

end Reached

/-- Every call keeps the keys. -/
theorem step_keyed (hj : Keyed j) (call : Env × Call) : Keyed (step j call) :=
  (step_of_effect (fun _ _ _ _ _ _ => trivial) hj trivial call).1

/-- The keys of every journal that is reached are unique. -/
theorem reached_keyed (calls : List (Env × Call)) : Keyed (reached calls) :=
  (reached_of_effect (fun _ _ _ _ _ _ => trivial) trivial calls).1

/-! ## A journal to try a run on -/

/-- The surroundings of a call that reads the given identifiers. -/
def Env.ofList (ids : List String) (valid : ∀ id ∈ ids, isIdentifier id) : Env where
  now _ := "2026-01-01T00:00:00+00:00"
  newId i := ids.getD i "id"
  valid i := by
    rw [List.getD_eq_getElem?_getD]
    cases h : ids[i]? with
    | none => decide
    | some id => exact valid id (List.mem_of_getElem? h)

namespace Sample

def scope : Scope := ⟨"s", "call", 1, "instance", "assistant", "principal", by decide⟩

def agent : Agent where
  agent_alias := "clerk"
  agent_id := "agent-1"
  revision := "r1"
  capabilities := [("continue_task", true), ("new_task", true)]
  name := ""
  description := ""
  supported_intents := []
  routing_aliases := []
  valid := by decide
  described := by decide

/-- The creation of the task `t` in the scope `s`. -/
def create : Env × Call :=
  (.ofList ["t", "e0"] (by decide), .createTask scope agent "Ship the order" (some "t"))

/-- The acceptance of the utterance `u1`, which becomes the operation `o1`. -/
def acceptFirst : Env × Call :=
  (.ofList ["x", "x", "o1", "e1"] (by decide),
    .accept "t" "s" "u1" "Today, please" "continue_task" none none none)

/-- The acceptance of the utterance `u2`, which becomes the operation `o2`. -/
def acceptSecond : Env × Call :=
  (.ofList ["x", "x", "o2", "e2"] (by decide),
    .accept "t" "s" "u2" "By courier" "continue_task" none none none)

/-- The dispatch of `o1`. -/
def dispatchFirst : Env × Call := (.ofList ["e3"] (by decide), .dispatch "o1")

end Sample

end StrixAlloy.TaskStore

import StrixAlloy.Coordinator.Attachment
import StrixAlloy.TaskStore.Operations

/-!
# The workflow task of a call

The worker looks for eligible work under the workflow task of that moment, awaits the executor, and
then makes the task of its operation the workflow task, whatever that has become. So a greeting that
creates the workflow task during the wait loses it again, with every answer that was accepted for it
(`workflow_task_replaced`). In a run where no greeting comes so (`greetedFirst`), the workflow task is
never replaced, and what was accepted for it stays eligible (`workflow_task_kept`).
-/

namespace StrixAlloy.Coordinator

open TaskStore Runs

/-! ## What a step leaves -/

/-- The journal has the operation, with its task. -/
def Recorded (j : Journal) (o : OperationRow) : Prop :=
  ∃ row, j.operation? o.operation_id = some row ∧ row.task_id = o.task_id

/-- The journal `j'` has every operation of `j`, with its identity. -/
structure Extends (j j' : Journal) : Prop where
  keyed : Keyed j'
  operation : ∀ id o, j.operation? id = some o → ∃ o', j'.operation? id = some o' ∧ o'.identity = o.identity

theorem Extends.refl {j : Journal} (hj : Keyed j) : Extends j j := ⟨hj, fun _ o ho => ⟨o, ho, rfl⟩⟩

theorem Extends.trans {j j' j'' : Journal} (h : Extends j j') (h' : Extends j' j'') : Extends j j'' := by
  refine ⟨h'.keyed, fun id o ho => ?_⟩
  obtain ⟨o₁, ho₁, hid₁⟩ := h.operation id o ho
  obtain ⟨o₂, ho₂, hid₂⟩ := h'.operation id o₁ ho₁
  exact ⟨o₂, ho₂, hid₂.trans hid₁⟩

/-- A call extends the journal. -/
theorem extends_step {j : Journal} (hj : Keyed j) (call : Env × Call) :
    Extends j (TaskStore.step j call) := by
  refine ⟨step_keyed hj call, fun id o ho => ?_⟩
  obtain ⟨o', ho', hmoves⟩ := step_operation_moves hj call ho
  exact ⟨o', ho', hmoves.identity⟩

/-- A call that succeeds extends the journal. -/
theorem extends_of_run {j j' : Journal} (hj : Keyed j) {e : Env} {c : Call}
    (h : c.run j e = .ok j') : Extends j j' := by
  have hstep : TaskStore.step j (e, c) = j' := step_of_ok h
  rw [← hstep]
  exact extends_step hj _

/-- What is recorded stays recorded. -/
theorem Recorded.mono {j j' : Journal} {o : OperationRow} (h : Recorded j o) (hext : Extends j j') :
    Recorded j' o := by
  obtain ⟨row, hrow, htask⟩ := h
  obtain ⟨row', hrow', hid⟩ := hext.operation _ row hrow
  simp only [OperationRow.identity, Prod.mk.injEq] at hid
  exact ⟨row', hrow', hid.2.1.trans htask⟩

/-- What holds of an attachment between two steps. -/
structure Inv (s : St) : Prop where
  keyed : Keyed s.journal
  /-- The operation that the worker has chosen may still be dispatched under the workflow task. -/
  readying : ∀ o, s.worker = .readying o →
    (s.context_task = "" ∨ o.task_id = s.context_task) ∧ Recorded s.journal o
  announced : ∀ a ∈ s.announced,
    (a.workflow ≠ "" → s.context_task = a.workflow) ∧ Recorded s.journal a.operation

theorem Inv.start {j : Journal} (hj : Keyed j) : Inv (.start j) where
  keyed := hj
  readying := by simp [St.start]
  announced := by simp [St.start]

/-- What a step from `s` to `s'` leaves. -/
structure Moved (s s' : St) : Prop where
  inv : Inv s'
  extends_ : Extends s.journal s'.journal
  /-- A workflow task is not replaced. -/
  context_task : s.context_task ≠ "" → s'.context_task = s.context_task

theorem Moved.trans {s s' s'' : St} (h : Moved s s') (h' : Moved s' s'') : Moved s s'' where
  inv := h'.inv
  extends_ := h.extends_.trans h'.extends_
  context_task hs := (h'.context_task (by rwa [h.context_task hs])).trans (h.context_task hs)

section Moved

variable {c : Config} {s : St}

section

variable (hs : Inv s)
include hs

/-- A step that announces nothing, chooses no operation and keeps the workflow task. -/
theorem Inv.quiet {s' : St} (hext : Extends s.journal s'.journal) (hctx : s'.context_task = s.context_task)
    (hann : s'.announced = s.announced) (hworker : ∀ o, s'.worker = .readying o → s.worker = .readying o) :
    Moved s s' where
  inv :=
    { keyed := hext.keyed
      readying := fun o ho => by
        obtain ⟨hctx', hrec⟩ := hs.readying o (hworker o ho)
        exact ⟨hctx ▸ hctx', hrec.mono hext⟩
      announced := fun a ha => by
        obtain ⟨hctx', hrec⟩ := hs.announced a (hann ▸ ha)
        exact ⟨hctx ▸ hctx', hrec.mono hext⟩ }
  extends_ := hext
  context_task _ := hctx

theorem Inv.still : Moved s s := hs.quiet (.refl hs.keyed) rfl rfl fun _ h => h

/-- A pending operation is one of the journal. -/
theorem operation_of_pending {o : OperationRow} (ho : o ∈ pendingOperations c s) :
    s.journal.operation? o.operation_id = some o := by
  refine Table.lookup_of_mem hs.keyed.operations ?_
  unfold pendingOperations TaskStore.pending at ho
  rw [boundedIdentifier, Checked.require, if_pos c.scope.valid.1] at ho
  exact (List.mem_filter.1 (List.mem_filter.1 ho).1).1

/-- The head of the loop chooses an eligible operation or none. -/
theorem moved_scan : Moved s (scan c s) := by
  have hquiet : ∀ w : Worker, (∀ o, w ≠ .readying o) → Moved s { s with worker := w } := fun w hw =>
    hs.quiet (.refl hs.keyed) rfl rfl fun o ho => absurd ho (hw o)
  unfold scan
  split
  · exact hquiet _ (by simp)
  · split
    · exact hquiet _ (by simp)
    · next operation rest heligible =>
      split
      · exact hquiet _ (by simp)
      · -- the choice is made under the workflow task of this state
        have hmem : operation ∈ eligible c s := by rw [heligible]; exact List.mem_cons_self
        obtain ⟨hpending, hworkflow⟩ := List.mem_filter.1 hmem
        have hrec : Recorded s.journal operation :=
          ⟨operation, operation_of_pending hs hpending, rfl⟩
        refine ⟨⟨hs.keyed, ?_, hs.announced⟩, .refl hs.keyed, fun _ => rfl⟩
        intro o ho
        obtain rfl : operation = o := by simpa using ho
        exact ⟨of_decide_eq_true hworkflow, hrec⟩

/-- A question changes the journal alone. -/
theorem moved_bindQuestion (env : Env) (task_id text : String) (source : QuestionSource) (context_version : Option ℤ) :
    Moved s (bindQuestion c s env task_id text source context_version) := by
  unfold bindQuestion
  split
  · exact hs.still
  · next b j h =>
    refine hs.quiet (extends_of_run hs.keyed (e := env)
      (c := .noteQuestion task_id c.scope.scope_id text source.name context_version) ?_) rfl rfl fun _ h => h
    exact Checked.map_snd_eq_ok.2 ⟨_, h⟩

/-- A greeting may create the workflow task where there is none and the worker has chosen nothing. -/
theorem moved_noteQuestion {env env' : Env} {text task_id : String}
    (hfirst : task_id = "" → s.context_task = "" → ∀ o, s.worker ≠ .readying o) :
    Moved s (noteQuestion c s env env' text task_id) := by
  unfold noteQuestion
  split
  · exact hs.still
  split
  · exact moved_bindQuestion hs ..
  next htask =>
  split
  · next agent _ =>
    split
    · exact moved_bindQuestion hs ..
    next hnone =>
    split
    · exact hs.still
    next task j hcreate =>
    have hext : Extends s.journal j := by
      refine extends_of_run hs.keyed (e := env)
        (c := .createTask c.scope agent "Configured call workflow" none) ?_
      exact Checked.map_snd_eq_ok.2 ⟨_, hcreate⟩
    have hnone : s.context_task = "" := not_not.1 hnone
    have hcreated : Moved s { s with journal := j, context_task := task.row.task_id } := by
      refine ⟨⟨hext.keyed, ?_, ?_⟩, hext, fun h => absurd hnone h⟩
      · intro o ho
        exact absurd ho (hfirst (not_not.1 htask) hnone o)
      · intro a ha
        obtain ⟨hworkflow, hrec⟩ := hs.announced a ha
        -- whatever was announced so far was announced without a workflow task
        refine ⟨fun h => absurd ?_ h, hrec.mono hext⟩
        rw [← hworkflow h, hnone]
    exact hcreated.trans (moved_bindQuestion hcreated.inv ..)
  · exact hs.still

/-- A durable acceptance is announced with its operation. -/
theorem moved_durable (intent : Routing.Intent) (task_id : String)
    {accepted : Except StoreError (OperationRow × Journal)}
    (h : ∀ operation j, accepted = .ok (operation, j) → Extends s.journal j ∧ Recorded j operation) :
    Moved s (durable s intent task_id accepted) := by
  unfold durable
  split
  · exact hs.still
  · next operation j =>
    obtain ⟨hext, hrec⟩ := h operation j rfl
    have hquiet : Moved s { s with journal := j } := hs.quiet hext rfl rfl fun _ h => h
    refine ⟨⟨hext.keyed, hquiet.inv.readying, ?_⟩, hext, fun _ => rfl⟩
    intro a ha
    rcases List.mem_append.1 ha with ha | ha
    · exact hquiet.inv.announced a ha
    · obtain rfl := List.mem_singleton.1 ha
      exact ⟨fun _ => rfl, hrec⟩

omit hs in
/-- The operation of an utterance is recorded. -/
theorem recorded_of_utterance {j : Journal} (hj : Keyed j) {utterance_id : String} {row : OperationRow}
    (h : j.utterance? utterance_id = some row) : Recorded j row :=
  ⟨row, Table.lookup_of_mem hj.operations (Table.mem_of_lookup h).1, rfl⟩

/-- The route of a decision accepts at most one operation. -/
theorem moved_follow (env : Env) (a : Acceptance) (route : Routing.Route) :
    Moved s (follow c s env a route) := by
  unfold follow
  split
  · split
    · exact hs.still
    · next task j h =>
      refine hs.quiet (extends_of_run hs.keyed (e := env) (c := .cancelPending route.task_id
        c.scope.scope_id a.utterance_id a.text (some a.checkpoint) (some (authority c s a route))) ?_)
        rfl rfl fun _ h => h
      exact Checked.map_snd_eq_ok.2 ⟨_, h⟩
  · split
    · exact hs.still
    · next agent _ =>
      refine moved_durable hs _ _ fun operation j h => ?_
      have hext : Extends s.journal j := by
        refine extends_of_run hs.keyed (e := env) (c := .acceptNewTask c.scope agent a.utterance_id
          a.text a.voice_context (some a.checkpoint) (some (authority c s a route))) ?_
        exact Checked.map_snd_eq_ok.2 ⟨_, h⟩
      rcases acceptNewTask_ok h with ⟨hknown, rfl⟩ | ⟨-, hnew, -⟩
      · exact ⟨hext, recorded_of_utterance hext.keyed hknown⟩
      · exact ⟨hext, recorded_of_utterance hext.keyed hnew⟩
  all_goals first
    | exact hs.still
    | refine moved_durable hs _ _ fun operation j h => ?_
      have hext : Extends s.journal j := by
        refine extends_of_run hs.keyed (e := env) (c := .accept route.task_id c.scope.scope_id
          a.utterance_id a.text (capabilityName route.intent) a.voice_context (some a.checkpoint)
          (some (authority c s a route))) ?_
        exact Checked.map_snd_eq_ok.2 ⟨_, h⟩
      rcases accept_ok h with ⟨hknown, rfl⟩ | ⟨-, hnew, -⟩
      · exact ⟨hext, recorded_of_utterance hext.keyed hknown⟩
      · exact ⟨hext, recorded_of_utterance hext.keyed hnew⟩

theorem moved_decided (env : Env) (decision : Option Routing.RoutingDecision) :
    Moved s (decided c s env decision) := by
  unfold decided
  split
  · exact hs.still
  · have hreleased : Moved s { s with accepting := none } := hs.quiet (.refl hs.keyed) rfl rfl fun _ h => h
    dsimp only
    split
    · exact hreleased
    · split
      · exact hreleased
      · exact hreleased.trans (moved_follow hreleased.inv ..)

/-- A dispatch makes the task of the chosen operation the workflow task, which it may already be. -/
theorem moved_readied (env : Env) (ready : Bool) : Moved s (readied c s env ready) := by
  have hquiet : ∀ w : Worker, (∀ o, w ≠ .readying o) → Moved s { s with worker := w } := fun w hw =>
    hs.quiet (.refl hs.keyed) rfl rfl fun o ho => absurd ho (hw o)
  unfold readied
  split
  · next operation hworker =>
    split
    · exact hquiet _ (by simp)
    split
    · exact hquiet _ (by simp)
    split
    · split
      · exact moved_scan hs
      · exact hquiet _ (by simp)
    next row j h =>
    have hext : Extends s.journal j := by
      refine extends_of_run hs.keyed (e := env) (c := .dispatch operation.operation_id) ?_
      exact Checked.map_snd_eq_ok.2 ⟨_, h⟩
    obtain ⟨hworkflow, hrec⟩ := hs.readying operation hworker
    -- the claimed row is that of the chosen operation
    obtain ⟨-, -, -, hrow, -⟩ := dispatch_ok h
    obtain ⟨row', hrow', htask⟩ := hrec.mono hext
    obtain rfl : row = row' := Option.some.inj (hrow.symm.trans hrow')
    refine ⟨⟨hext.keyed, by simp, ?_⟩, hext, ?_⟩
    · intro a ha
      obtain ⟨hctx, hrec⟩ := hs.announced a ha
      refine ⟨fun hne => ?_, hrec.mono hext⟩
      have hctx := hctx hne
      rw [← hctx] at hne
      exact (htask.trans (hworkflow.resolve_left hne)).trans hctx
    · intro hne
      exact htask.trans (hworkflow.resolve_left hne)
  · exact hs.still

theorem moved_replied (env : Env) (text : String) : Moved s (replied c s env text) := by
  unfold replied
  split
  · next operation _ =>
    split
    · exact hs.still
    split
    · exact hs.still
    · exact hs.still
    next j h =>
    have hobserved : Moved s { s with journal := j } := by
      refine hs.quiet (extends_of_run hs.keyed (e := env) (c := .observe operation.operation_id
        (operation.operation_id ++ ":" ++ c.sha256 text) "backend_observed"
        (.dict [("text", .str text)])) ?_) rfl rfl fun _ h => h
      exact Checked.map_snd_eq_ok.2 ⟨_, h⟩
    dsimp only
    split
    · exact hobserved
    split
    · exact hobserved.trans (moved_bindQuestion hobserved.inv ..)
    · exact hobserved
  · exact hs.still

theorem moved_uncertain (env : Env) (operation : OperationRow) (reason : String) {next : Worker}
    (hnext : ∀ o, next ≠ .readying o) : Moved s (uncertain s env operation reason next) := by
  unfold uncertain
  split
  · exact hs.quiet (.refl hs.keyed) rfl rfl fun o ho => absurd ho (by simp)
  · next j h =>
    exact hs.quiet (extends_of_run hs.keyed
      (c := .markUnknown operation.operation_id reason) h) rfl rfl fun o ho => absurd ho (hnext o)

omit hs in
theorem idle_ne (s : St) (o : OperationRow) : idle s ≠ .readying o := by
  unfold idle
  split <;> simp

theorem moved_turned (env env' : Env) (replies : Option (List String)) :
    Moved s (turned c s env env' replies) := by
  unfold turned
  split
  · next operation _ =>
    split
    · exact moved_uncertain hs _ _ _ (idle_ne s)
    next replies =>
    split
    · exact moved_uncertain hs _ _ _ (idle_ne s)
    next task j h =>
    have hsettled : Moved s { s with journal := j } := by
      refine hs.quiet (extends_of_run hs.keyed (e := env) (c := .settle operation.operation_id
        replies TaskState.awaitingInput.name none) ?_) rfl rfl fun _ h => h
      exact Checked.map_snd_eq_ok.2 ⟨_, h⟩
    exact hsettled.trans (moved_scan hsettled.inv)
  · exact hs.still

theorem moved_detach : Moved s (detach c s) := by
  unfold detach
  split
  · exact hs.still
  split
  · exact hs.quiet (.refl hs.keyed) rfl rfl fun _ h => h
  · next j h =>
    exact hs.quiet (extends_of_run hs.keyed (e := ⟨fun _ => "", fun _ => "id", fun _ => by decide⟩)
      (c := .detachScope c.scope.scope_id) h) rfl rfl fun _ h => h

end

end Moved

/-! ## Runs -/

/-- The worker has chosen an operation and awaits the executor. -/
def Worker.readies : Worker → Bool
  | .readying _ => true
  | _ => false

/-- The step creates no workflow task while the worker awaits the executor for an operation that it
chose without one. -/
def greetedFirst (s : St) : Op → Bool
  | .noteQuestion _ _ _ task_id => !(task_id = "" && s.context_task = "" && s.worker.readies)
  | _ => true

/-- What a step leaves, if it creates no workflow task too late. -/
theorem moved_step {c : Config} {s : St} (hs : Inv s) {op : Op} (hop : greetedFirst s op) :
    Moved s (step c s op) := by
  have hclosing : ∀ s' : St, s'.journal = s.journal → s'.context_task = s.context_task →
      s'.announced = s.announced → (∀ o, s'.worker ≠ .readying o) → Moved s s' := by
    intro s' hj hctx hann hw
    refine hs.quiet ?_ hctx hann fun o ho => absurd ho (hw o)
    rw [hj]
    exact .refl hs.keyed
  cases op with
  | accept =>
    simp only [step, beginAccept]
    split_ifs
    · exact hs.still
    · exact hs.still
    · exact hs.quiet (.refl hs.keyed) rfl rfl fun _ h => h
  | decided => exact moved_decided hs ..
  | noteQuestion =>
    refine moved_noteQuestion hs fun htask hctx o ho => ?_
    simp [greetedFirst, htask, hctx, ho, Worker.readies] at hop
  | woken =>
    simp only [step, woken]
    split
    · split_ifs
      · have hcleared : Moved s { s with wake := false } :=
          hs.quiet (.refl hs.keyed) rfl rfl fun _ h => h
        exact hcleared.trans (moved_scan hcleared.inv)
      · exact hs.still
    · exact hs.still
  | readied => exact moved_readied hs ..
  | replied => exact moved_replied hs ..
  | turned => exact moved_turned hs ..
  | cancelled =>
    simp only [step, cancelled]
    split
    · exact moved_uncertain hs _ _ _ (by simp)
    · exact hclosing _ rfl rfl rfl (by simp)
    · exact hclosing _ rfl rfl rfl (by simp)
    · exact hclosing _ rfl rfl rfl (by simp)
    · exact hs.still
    · exact hs.still
  | released =>
    simp only [step, released]
    split
    · split_ifs
      · exact hs.still
      · exact hclosing _ rfl rfl rfl (by simp)
    · exact hs.still
  | closed =>
    simp only [step, closed]
    split
    · exact hclosing _ rfl rfl rfl (by simp)
    · exact hs.still
  | detach => exact moved_detach hs
  | store => exact hs.quiet (extends_step hs.keyed _) rfl rfl fun _ h => h

/-- A workflow task of `s` is the one of the later state `s'`. -/
def WorkflowKept (s s' : St) : Prop := s.context_task ≠ "" → s'.context_task = s.context_task

/-- What was accepted until `s` as an answer or amendment to the workflow task of that time, and still
waits in the later state `s'`, is eligible there. -/
def AnswersEligible (c : Config) (s s' : St) : Prop :=
  ∀ a ∈ s.announced, a.operation.kind ∈ [.continueTask, .amendTask] → a.workflow ≠ "" →
    a.operation.task_id = a.workflow →
      ∀ o ∈ pendingOperations c s', o.operation_id = a.operation.operation_id → o ∈ eligible c s'

/-- In a run without a late greeting the workflow task is never replaced, and the answers and amendments
to it stay eligible. -/
theorem workflow_task_kept (c : Config) (calls : List (Env × Call)) (pre post : List Op)
    (h : Runs.Admits (step c) (fun s op => greetedFirst s op) (.start (reached calls)) (pre ++ post)) :
    WorkflowKept (run (step c) (.start (reached calls)) pre)
        (run (step c) (.start (reached calls)) (pre ++ post)) ∧
      AnswersEligible c (run (step c) (.start (reached calls)) pre)
        (run (step c) (.start (reached calls)) (pre ++ post)) := by
  have hstart : Inv (.start (reached calls)) := .start (reached_keyed calls)
  rw [run_append]
  obtain ⟨hpre, hpost⟩ := admits_append.1 h
  have hinv : Inv (run (step c) (.start (reached calls)) pre) :=
    run_invariant_of (P := Inv) (fun s op hs hop => (moved_step hs hop).inv) hstart hpre
  set s := run (step c) (.start (reached calls)) pre
  have hmoved : Moved s (run (step c) s post) :=
    run_invariant_of (fun s' op hs' hop => hs'.trans (moved_step hs'.inv hop))
      hinv.still hpost
  refine ⟨hmoved.context_task, ?_⟩
  intro a ha _ hworkflow htask o ho hid
  obtain ⟨hctx, hrec⟩ := hinv.announced a ha
  have hnow := hmoved.context_task (by rwa [hctx hworkflow])
  obtain ⟨row, hrow, hrowtask⟩ := hrec.mono hmoved.extends_
  have hread := operation_of_pending hmoved.inv ho
  rw [hid, hrow] at hread
  cases hread
  refine List.mem_filter.2 ⟨ho, decide_eq_true (.inr ?_)⟩
  rw [hnow, hctx hworkflow, hrowtask, htask]

/-! ## An early and a late greeting -/

namespace Sample

def agent : Agent := { TaskStore.Sample.agent with supported_intents := ["new_task"], described := by decide }

def config : Config := ⟨TaskStore.Sample.scope, [agent], id⟩

/-- A decision of the router. -/
def decision (intent : Routing.Intent) (task_id agent_alias : String) : Routing.RoutingDecision :=
  ⟨⟨intent, task_id, agent_alias, ""⟩, .decision, .acceptedModel, none⟩

/-- The caller's first utterance becomes the operation `o1` of the new task `order`, and the worker
awaits the executor with it. -/
def order : List Op :=
  [.accept "u1" "A monitor, please" none,
    .decided (.ofList ["order", "e1", "o1", "e2"] (by decide)) (some (decision .newTask "" "clerk")),
    .woken]

/-- The greeting creates the task `greeting`, and the caller's answer to it becomes the operation
`o2`. -/
def answer : List Op :=
  [.noteQuestion (.ofList ["greeting", "e3"] (by decide)) (.ofList ["e4"] (by decide))
      "What is your name?" "",
    .accept "u2" "Ada" none,
    .decided (.ofList ["x", "x", "o2", "e5"] (by decide)) (some (decision .continueTask "greeting" ""))]

/-- The executor is ready. -/
def ready : List Op := [.readied (.ofList ["e6"] (by decide)) true]

/-- The attachment after some steps, over an empty journal. -/
def after (ops : List Op) : St := run (step config) (.start (reached [])) ops

end Sample

/-- The theorem at a run in which the greeting comes before the worker is woken. -/
theorem workflow_task_kept_sample :
    WorkflowKept (Sample.after Sample.answer) (Sample.after (Sample.answer ++ .woken :: Sample.ready)) ∧
      AnswersEligible Sample.config (Sample.after Sample.answer)
        (Sample.after (Sample.answer ++ .woken :: Sample.ready)) :=
  workflow_task_kept Sample.config [] Sample.answer (.woken :: Sample.ready)
    (admits_of_check (by decide +kernel))

/-- A greeting during the worker's wait creates the workflow task `greeting`. Its answer is announced,
and is no longer eligible once the worker has made `order` the workflow task. -/
theorem workflow_task_replaced :
    ¬ WorkflowKept (Sample.after (Sample.order ++ Sample.answer))
        (Sample.after (Sample.order ++ Sample.answer ++ Sample.ready)) ∧
      ¬ AnswersEligible Sample.config (Sample.after (Sample.order ++ Sample.answer))
        (Sample.after (Sample.order ++ Sample.answer ++ Sample.ready)) := by
  have hrun : (Sample.after (Sample.order ++ Sample.answer)).context_task = "greeting" ∧
      (Sample.after (Sample.order ++ Sample.answer ++ Sample.ready)).context_task = "order" ∧
      (eligible Sample.config
        (Sample.after (Sample.order ++ Sample.answer ++ Sample.ready))).isEmpty ∧
      ∃ a ∈ (Sample.after (Sample.order ++ Sample.answer)).announced,
        a.operation.kind ∈ [.continueTask, .amendTask] ∧ a.workflow ≠ "" ∧
          a.operation.task_id = a.workflow ∧
            ∃ o ∈ pendingOperations Sample.config
                (Sample.after (Sample.order ++ Sample.answer ++ Sample.ready)),
              o.operation_id = a.operation.operation_id := by
    decide +kernel
  obtain ⟨hbefore, hafter, hnone, hanswer⟩ := hrun
  constructor
  · intro h
    have hkept := h (by rw [hbefore]; decide)
    rw [hbefore, hafter] at hkept
    exact absurd hkept (by decide)
  · intro h
    obtain ⟨a, ha, hkind, hne, htask, o, ho, hid⟩ := hanswer
    have hmem := h a ha hkind hne htask o ho hid
    rw [List.isEmpty_iff.1 hnone] at hmem
    exact absurd hmem List.not_mem_nil

end StrixAlloy.Coordinator

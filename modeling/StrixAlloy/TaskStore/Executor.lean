import StrixAlloy.TaskStore.Coupling
import StrixAlloy.TaskStore.Owned

/-!
# The owned executor

`OwnedTaskExecutor.prepare` claims its operation in the journal, posts the command, and settles the operation by the
answer. Its one await is that of the request: the part before it (`outset`) and the part after it (`conclude`) are each
a few commits in a row, between which nothing else runs.
-/

namespace StrixAlloy.TaskStore

open Checked List Table

namespace Executor

/-! ## `prepare` -/

/-- `_identifier`. -/
def ownedIdentifier (value : Json) : Except StoreError String :=
  match value with
  | .str s => do
    require (isReceiptRef s) (.invalid "invalid owned identifier")
    return s
  | _ => .error (.invalid "invalid owned identifier")

/-- `set(members) == set(keys)`. -/
def hasKeys (members : List (String × Json)) (keys : List String) : Bool :=
  (members.all fun m => m.1 ∈ keys) && keys.all fun key => key ∈ members.map Prod.fst

/-- A text of 1 to 100 characters. -/
def isProposalText : Json → Bool
  | .str s => s ≠ "" && s.length ≤ 100
  | _ => false

/-- The checks of `prepare` on its arguments. -/
def checkPreparation (j : Journal) (operation_id task_ref : String) (command : Json) : Except StoreError Unit := do
  let _ ← ownedIdentifier (.str operation_id)
  let _ ← ownedIdentifier (.str task_ref)
  match command with
  | .dict members =>
    require (hasKeys members ["command_id", "expected_revision", "kind", "proposal", "context_version"] ∧
      fieldIn members "command_id" [operation_id] ∧ fieldIn members "kind" ["prepare"])
      (.invalid "invalid owned preparation")
    match Json.get? members "context_version" with
    | some (.int version) =>
      let bound ← executorBinding j operation_id
      require (version = bound.operation.context_version) (.invalid "invalid owned context version")
      let _ ← ownedIdentifier ((Json.get? members "expected_revision").getD .null)
      match Json.get? members "proposal" with
      | some (.dict proposal) =>
        require (hasKeys proposal ["employee_name", "start_date", "delivery_location", "manager_name"] ∧
          proposal.all fun m => isProposalText m.2) (.invalid "invalid bounded proposal")
      | _ => .error (.invalid "invalid bounded proposal")
    | _ => .error (.invalid "invalid owned context version")
  | _ => .error (.invalid "invalid owned preparation")

/-- `prepare` up to its request. Without a result the request is next. -/
def outset (j : Journal) (env : Env) (operation_id task_ref : String) (command : Json) :
    Option (Except StoreError OperationRow) × Journal :=
  match checkPreparation j operation_id task_ref command with
  | .error e => (some (.error e), j)
  | .ok () =>
    match recordOwnedDispatch j operation_id task_ref command with
    | .error e => (some (.error e), j)
    | .ok (bound, j) =>
      if bound.operation.dispatch_state ≠ .unsubmitted then (some (.ok bound.operation), j)
      else
        match dispatch j env operation_id with
        | .error e => (some (.error e), j)
        | .ok (_, j) => (none, j)

/-- What the request comes to: a value, or an exception. A cancellation, an interrupt and an exit pass through
`prepare`. -/
inductive Answer where
  | returned (result : Json)
  | raised (passes : Bool)

/-- The exception passes through `prepare`. -/
def Answer.passes : Answer → Bool
  | returned _ => false
  | raised passes => passes

/-- The revision of a response that names the task, the command and its kind. -/
def correlate (operation_id task_ref : String) (result : Json) : Option String :=
  match result with
  | .dict members =>
    if fieldIn members "task_id" [task_ref] ∧ fieldIn members "command_id" [operation_id] ∧
        fieldIn members "kind" ["prepare"] then
      match Json.get? members "revision" with
      | some (.str revision) => if isReceiptRef revision then some revision else none
      | _ => none
    else none
  | _ => none

/-- The receipt of a response. -/
def receipt (task_ref revision : String) : Json :=
  .dict [("task_ref", .str task_ref), ("operation_ref", .str revision), ("status", .str "accepted")]

/-- The evidence of the settlement. -/
def evidence : Json := .dict [("source", .str "owned_prepare")]

/-- The `try` block after its request; whether it ends without an exception. -/
def acknowledge (j : Journal) (receipts settlement : Env) (operation_id task_ref : String) : Answer → Bool × Journal
  | .raised _ => (false, j)
  | .returned result =>
    match correlate operation_id task_ref result with
    | none => (false, j)
    | some revision =>
      match recordReceipt j receipts operation_id "" "" (some (receipt task_ref revision)) with
      | .error _ => (false, j)
      | .ok (_, j) =>
        match settle j settlement operation_id [] "awaiting_input" (some evidence) with
        | .error _ => (false, j)
        | .ok (_, j) => (true, j)

/-- How a call of `prepare` ends. -/
inductive Result where
  | operation (row : OperationRow)
  | error (e : StoreError)
  | raised

/-- The operation that `prepare` returns at its end. -/
def readOperation (j : Journal) (operation_id : String) : Result :=
  match executorBinding j operation_id with
  | .ok bound => .operation bound.operation
  | .error e => .error e

/-- `prepare` from the answer to its request on. -/
def conclude (j : Journal) (receipts settlement loss : Env) (operation_id task_ref : String) (answer : Answer) :
    Result × Journal :=
  let (ok, j) := acknowledge j receipts settlement operation_id task_ref answer
  if ok then (readOperation j operation_id, j)
  else
    match markUnknown j loss operation_id "owned_transport_uncertain" with
    | .error e => (.error e, j)
    | .ok j => (if answer.passes then .raised else readOperation j operation_id, j)

/-! ## The calls for one operation -/

/-- The response matches, and the journal accepts its receipt. -/
def accepted (j : Journal) (receipts : Env) (operation_id task_ref : String) : Answer → Bool
  | .raised _ => false
  | .returned result => (correlate operation_id task_ref result).any fun revision =>
      (recordReceipt j receipts operation_id "" "" (some (receipt task_ref revision))).isOk

/-- The end of a call that dispatched the operation: whether a response was accepted, its result, and the row of the
operation. -/
structure Ending where
  accepted : Bool
  result : Result
  operation : Option OperationRow

/-- The journal, the task references of the calls that await their request, the requests that were posted, and the ends
of the calls that dispatched the operation. -/
structure System where
  journal : Journal
  waiting : List String
  posts : List (String × Json)
  endings : List Ending

inductive Tick where
  /-- A call up to its await, or to its end. With `failure` an exception ends the request before it is posted. -/
  | prepare (task_ref : String) (command : Json) (failure : Option Bool) (claim loss : Env)
  /-- The answer to the request of a call that awaits it. -/
  | answer (i : ℕ) (answer : Answer) (receipts settlement loss : Env)
  /-- A call of anybody else to the journal. -/
  | other (call : Env × Call)

variable (id : String)

/-- A call for the operation ends. -/
def finish (s : System) (accepted : Bool) (end_ : Result × Journal) : System :=
  { s with journal := end_.2, endings := s.endings ++ [⟨accepted, end_.1, end_.2.operation? id⟩] }

def step (s : System) : Tick → System
  | .prepare task_ref command failure claim loss =>
    match outset s.journal claim id task_ref command with
    | (some _, j) => { s with journal := j }
    | (none, j) =>
      match failure with
      | none => { s with
          journal := j, waiting := s.waiting ++ [task_ref], posts := s.posts ++ [(task_ref, command)] }
      | some passes => finish id s false (conclude j claim claim loss id task_ref (.raised passes))
  | .answer i answer receipts settlement loss =>
    match s.waiting[i]? with
    | none => s
    | some task_ref => finish id { s with waiting := s.waiting.eraseIdx i }
        (accepted s.journal receipts id task_ref answer)
        (conclude s.journal receipts settlement loss id task_ref answer)
  | .other call => { s with journal := TaskStore.step s.journal call }

/-- Nobody else changes the operation, and the fresh identifiers that the calls read are new. -/
def Undisturbed (s : System) : Tick → Prop
  | .prepare _ _ _ claim loss => s.journal.FreshEvent (loss.newId 0) ∧ claim.newId 0 ≠ loss.newId 0
  | .answer _ _ receipts settlement loss => s.journal.FreshEvent (settlement.newId 0) ∧
      s.journal.FreshEvent (loss.newId 0) ∧ receipts.newId 0 ≠ settlement.newId 0
  | .other call => ∀ o, s.journal.operation? id = some o → (TaskStore.step s.journal call).operation? id = some o

/-- Before any of the calls. -/
def start (j : Journal) : System := ⟨j, [], [], []⟩

/-! ## What the commits leave -/

section Commits

variable {id} {j j' : Journal} {env : Env} {o : OperationRow} {task_ref : String} {command : Json}

/-- The command of the operation is recorded. -/
def Bound (j : Journal) (id task_ref : String) (command : Json) : Prop :=
  ∃ b, j.ownedDispatch? id = some b ∧ b.task_ref = task_ref ∧ Json.dumps b.command = Json.dumps command

/-- A command that is recorded is never rebound. -/
theorem Bound.effect {w : Write} (h : Bound j id task_ref command) (heffect : Effect w j j') :
    Bound j' id task_ref command := by
  obtain ⟨b, hb, href, hcommand⟩ := h
  by_cases hw : w = .ownedDispatched ∨ w = .ownedObserved
  · cases heffect with
    | ownedDispatched =>
      refine ⟨b, ?_, href, hcommand⟩
      unfold Journal.ownedDispatch? at hb ⊢
      rw [Journal.insertOwnedDispatch_owned_dispatches, lookup_concat, hb]
      rfl
    | ownedObserved row cursor hkeeps =>
      unfold Journal.ownedDispatch? at hb
      have hread := lookup_update (p := fun b : OwnedDispatchRow => b.operation_id = row.operation_id)
        (fun b => (hkeeps b).1) j.owned_dispatches id
      rw [hb, Option.map_some] at hread
      refine ⟨_, hread, ?_⟩
      split_ifs
      · exact ⟨(hkeeps b).2.1.trans href, (hkeeps b).2.2 ▸ hcommand⟩
      · exact ⟨href, hcommand⟩
    | _ => simp at hw
  · rw [not_or] at hw
    refine ⟨b, ?_, href, hcommand⟩
    unfold Journal.ownedDispatch? at hb ⊢
    rw [(heffect.owned_frame hw).2, hb]

theorem Bound.writes {ws : List Write} (h : Bound j id task_ref command) (hwrites : Writes ws j j') :
    Bound j' id task_ref command := by
  induction hwrites with
  | refl => exact h
  | tail _ heffect ih =>
    obtain ⟨w, -, heffect⟩ := heffect
    exact ih.effect heffect

theorem Bound.step (hj : Sound j) (h : Bound j id task_ref command) (call : Env × Call) :
    Bound (TaskStore.step j call) id task_ref command := by
  unfold TaskStore.step
  split
  · next hrun => exact h.writes (Call.writes_of_run hj.keyed.operations hrun)
  · exact h

/-- A call of anybody keeps the journal sound. -/
theorem step_sound (hj : Sound j) (call : Env × Call) : Sound (TaskStore.step j call) :=
  (step_of_effect (fun _ _ _ _ h heffect => heffect.sound h) hj.keyed hj call).2

/-- The task of an operation, and its scope. -/
theorem task_of_operation (hj : Keyed j) (ho : j.operation? id = some o) :
    ∃ t s, j.task? o.task_id = some t ∧ j.scope? t.scope_id = some s := by
  obtain ⟨t, s, ht, hs, -⟩ := executorBinding_eq hj ho
  exact ⟨t, s, ht, hs⟩

/-- A task whose operation is submitted can settle. -/
theorem live_of_submitted (hj : Sound j) (ho : j.operation? id = some o) (hs : o.dispatch_state = .submitted)
    {t : TaskRow} (ht : j.task? o.task_id = some t) : t.state.terminal = false := by
  obtain ⟨hmem, hid⟩ := mem_of_lookup ht
  obtain h | h := (hj.coupled.tasks t hmem).submitted o (mem_of_lookup ho).1 hid.symm hs
  · rw [h]
    rfl
  · rw [h]
    rfl

/-- The identifier of an operation can be given. -/
theorem identifier_of_operation (hj : Keyed j) (ho : j.operation? id = some o) : isIdentifier id := by
  obtain ⟨hmem, rfl⟩ := mem_of_lookup ho
  exact hj.identifiers o hmem

/-- A submitted operation whose outcome is to become unknown. -/
theorem markUnknown_submitted (hj : Sound j) (ho : j.operation? id = some o) (hs : o.dispatch_state = .submitted)
    (hfresh : j.FreshEvent (env.newId 0)) :
    ∃ j', markUnknown j env id "owned_transport_uncertain" = .ok j' ∧ Effect .markedUnknown j j' ∧
      ∃ o', j'.operation? id = some o' ∧ o'.dispatch_state = .unknown := by
  obtain rfl : o.operation_id = id := (mem_of_lookup ho).2
  have hunknown : ¬ (o.dispatch_state = .unknown ∧ o.reason_code = some "owned_transport_uncertain") := by
    rw [hs]
    exact fun h => nomatch h.1
  have hset : ∃ j', setUnknown j (env.newId 0) (env.now 0) o "owned_transport_uncertain" = .ok j' := by
    simp only [setUnknown, Journal.event_eq_ok]
    exact ⟨_, by decide +kernel, hfresh, rfl⟩
  obtain ⟨j', hset⟩ := hset
  refine ⟨j', ?_, setUnknown_ok hset ho hs, ?_⟩
  · simp only [markUnknown, bind_eq_ok, boundedIdentifier_eq_ok, orThrow_eq_ok]
    refine ⟨(), identifier_of_operation hj.keyed ho, (), by decide, o, ho, ?_⟩
    rw [if_neg hunknown]
    simp only [bind_eq_ok, require_eq_ok]
    exact ⟨(), hs, hset⟩
  · simp only [setUnknown, Journal.event_eq_ok] at hset
    obtain ⟨-, -, rfl⟩ := hset
    unfold Journal.operation? at ho ⊢
    simp [ho]

/-- The questions of a settlement are written when the scope of its task is known. -/
theorem settleQuestions_total {row : OperationRow} {task : TaskRow} {outcome state : TaskState}
    {question : Option String} {binding : Option QuestionRow} {settlement_id : String} {s : ScopeRow}
    (hs : j.scope? task.scope_id = some s) :
    ∃ j', settleQuestions j row task outcome state question binding settlement_id = .ok j' := by
  have hsnapshot : taskSnapshot j task = .ok ⟨task, s⟩ := taskSnapshot_eq_ok.2 ⟨s, hs, rfl⟩
  unfold settleQuestions
  split_ifs
  · exact ⟨_, rfl⟩
  · simp only [bind_eq_ok, hsnapshot]
    by_cases hbind : (⟨task, s⟩ : TaskSnapshot).attached = true ∧ ∀ b ∈ binding, b.task_id = row.task_id
    · cases hq : question.filter fun text => text ≠ "" with
      | none => exact ⟨_, ⟨task, s⟩, rfl, by rw [if_pos hbind]; rfl⟩
      | some => exact ⟨_, ⟨task, s⟩, rfl, by rw [if_pos hbind]; rfl⟩
    · exact ⟨_, ⟨task, s⟩, rfl, if_neg hbind⟩
  · exact ⟨_, rfl⟩

/-- A submitted operation that is to wait for input. -/
theorem settle_submitted (hj : Sound j) (ho : j.operation? id = some o) (hs : o.dispatch_state = .submitted)
    (hfresh : j.FreshEvent (env.newId 0)) :
    ∃ snapshot j', settle j env id [] "awaiting_input" (some evidence) = .ok (snapshot, j') ∧ Effect .settled j j' ∧
      ∃ o', j'.operation? id = some o' ∧ o'.dispatch_state = .settled ∧ o'.outcome = some .awaitingInput := by
  obtain rfl : o.operation_id = id := (mem_of_lookup ho).2
  obtain ⟨t, s, ht, hscope⟩ := task_of_operation hj.keyed ho
  have hlive := live_of_submitted hj ho hs ht
  set state : TaskState := if t.state = .cancelRequested ∧ TaskState.awaitingInput = .awaitingInput then
    .cancelRequested else .awaitingInput
  set question := settledQuestion o t .awaitingInput [] (j.question? t.scope_id)
  set j₁ := (j.setOperation o.operation_id fun o =>
      { o with
        dispatch_state := .settled
        replies := some (repliesJson [])
        evidence := some evidence
        outcome := some .awaitingInput
        settled_at := some (env.now 0) }).setTask o.task_id fun t =>
      { t with
        state := state
        open_question := question
        result_version := t.result_version + 1
        updated_at := env.now 0 }
  obtain ⟨j₂, hj₂⟩ : ∃ j₂, settleQuestions j₁ o t .awaitingInput state question (j.question? t.scope_id)
      (env.newId 0) = .ok j₂ := settleQuestions_total hscope
  obtain ⟨questions, rfl⟩ := settleQuestions_frame hj₂
  have hsettle : ∃ snapshot, settle j env o.operation_id [] "awaiting_input" (some evidence) = .ok (snapshot,
      ({ j₁ with scope_questions := questions } : Journal).log (env.newId 0) o.task_id (some o.operation_id)
        "operation_settled" o.context_version (.dict [("outcome", .str TaskState.awaitingInput.name),
          ("replies", repliesJson []), ("evidence", Json.sortKeys evidence)]) .store) := by
    let t₁ : TaskRow := { t with
      state := state
      open_question := question
      result_version := t.result_version + 1
      updated_at := env.now 0 }
    have ht₁ : j₁.task? o.task_id = some t₁ := by
      obtain ⟨-, hid⟩ := mem_of_lookup ht
      unfold Journal.task? at ht ⊢
      simp [j₁, t₁, ht, hid]
    simp only [settle, bind_eq_ok, boundedIdentifier_eq_ok, orThrow_eq_ok, require_eq_ok]
    refine ⟨⟨t₁, s⟩, (), identifier_of_operation hj.keyed ho, .awaitingInput, rfl, (), by decide, (), by decide +kernel,
      (), by decide +kernel, o, ho, ?_⟩
    rw [if_neg (by rw [hs]; decide)]
    exact bind_eq_ok.2 ⟨(), require_eq_ok.2 hs, bind_eq_ok.2 ⟨t, orThrow_eq_ok.2 ht, bind_eq_ok.2 ⟨(),
      require_eq_ok.2 (by simpa using hlive), bind_eq_ok.2 ⟨_, hj₂, bind_eq_ok.2 ⟨_,
        Journal.event_eq_ok.2 ⟨by decide +kernel, hfresh, rfl⟩, bind_eq_ok.2 ⟨t₁, orThrow_eq_ok.2 ht₁,
          bind_eq_ok.2 ⟨⟨t₁, s⟩, taskSnapshot_eq_ok.2 ⟨s, hscope, rfl⟩, rfl⟩⟩⟩⟩⟩⟩⟩
  obtain ⟨snapshot, hsettle⟩ := hsettle
  refine ⟨snapshot, _, hsettle, ?_, ?_⟩
  · obtain ⟨o', ho', ⟨hs', -⟩ | ⟨-, heffect, -⟩⟩ := settle_ok hsettle
    · cases ho.symm.trans ho'
      rw [hs] at hs'
      cases hs'
    · exact heffect
  · unfold Journal.operation? at ho ⊢
    simp [j₁, ho]

/-- An identifier that a claim does not use stays new. -/
theorem dispatch_fresh {row : OperationRow} {event_id : String} (h : dispatch j env id = .ok (row, j'))
    (hfresh : j.FreshEvent event_id) (hne : env.newId 0 ≠ event_id) : j'.FreshEvent event_id := by
  simp only [dispatch, bind_eq_ok, orThrow_eq_ok, require_eq_ok, pure_eq_ok, Prod.mk.injEq, Journal.event_eq_ok] at h
  obtain ⟨-, -, o, -, task, -, scope, -, -, -, -, -, -, -, -, -, _, ⟨-, -, rfl⟩, row', -, -, rfl⟩ := h
  exact forall_mem_append.2 ⟨hfresh, forall_mem_singleton.2 hne⟩

/-- An identifier that a receipt does not use stays new. -/
theorem recordReceipt_fresh {request_ref execution_ref event_id : String} {given : Option Json} {row : OperationRow}
    (h : recordReceipt j env id request_ref execution_ref given = .ok (row, j')) (hfresh : j.FreshEvent event_id)
    (hne : env.newId 0 ≠ event_id) : j'.FreshEvent event_id := by
  simp only [recordReceipt, bind_eq_ok, orThrow_eq_ok, require_eq_ok] at h
  obtain ⟨-, -, -, -, -, -, r, -, -, -, -, -, o, -, -, -, -, -, -, -, -, -, -, -, h⟩ := h
  revert h
  generalize (if request_ref = "" then r.request_ref.getD "" else request_ref) = q
  generalize (if execution_ref = "" then r.execution_ref.getD "" else execution_ref) = e
  intro h
  split_ifs at h with hsame
  · obtain ⟨-, rfl⟩ := Prod.mk.inj (Except.ok.inj h)
    exact hfresh
  · simp only [bind_eq_ok, orThrow_eq_ok, pure_eq_ok, Prod.mk.injEq, Journal.event_eq_ok] at h
    obtain ⟨_, ⟨-, -, rfl⟩, row', -, -, rfl⟩ := h
    exact forall_mem_append.2 ⟨hfresh, forall_mem_singleton.2 hne⟩

/-- A receipt leaves its operation submitted. -/
theorem recordReceipt_submitted {given : Option Json} {row : OperationRow} (hj : Sound j)
    (h : recordReceipt j env id "" "" given = .ok (row, j')) (ho : j.operation? id = some o)
    (hs : o.dispatch_state = .submitted) :
    Sound j' ∧ (∀ task_ref command, Bound j id task_ref command → Bound j' id task_ref command) ∧
      ∃ o', j'.operation? id = some o' ∧ o'.dispatch_state = .submitted := by
  obtain ⟨r, -, rfl | heffect, -⟩ := recordReceipt_ok h
  · exact ⟨hj, fun _ _ h => h, o, ho, hs⟩
  · obtain ⟨o', ho', hmoves⟩ := heffect.operation_moves ho
    refine ⟨heffect.sound hj, fun _ _ hb => hb.effect heffect, o', ho', ?_⟩
    obtain hstate | ⟨w, hw, hmove⟩ := hmoves.state
    · exact hstate.trans hs
    · obtain rfl := mem_singleton.1 hw
      cases hmove

end Commits

/-! ## The two parts of a call -/

section Parts

variable {id} {j j' : Journal} {o : OperationRow} {task_ref : String} {command : Json}

/-- A call that ends before its request changes neither the operation nor a command that is recorded. -/
structure Aloof (id : String) (j j' : Journal) : Prop where
  sound : Sound j'
  operation : j'.operation? id = j.operation? id
  bound : ∀ task_ref command, Bound j id task_ref command → Bound j' id task_ref command

/-- The operation is claimed, and its command recorded. -/
structure Claimed (id : String) (j j' : Journal) (task_ref : String) (command : Json) : Prop where
  sound : Sound j'
  unsubmitted : ∃ o, j.operation? id = some o ∧ o.dispatch_state = .unsubmitted
  submitted : ∃ o, j'.operation? id = some o ∧ o.dispatch_state = .submitted
  bound : Bound j' id task_ref command

theorem recordOwnedDispatch_aloof (hj : Sound j) {bound : Binding}
    (h : recordOwnedDispatch j id task_ref command = .ok (bound, j')) :
    Aloof id j j' ∧ Bound j' id task_ref command ∧ j'.events = j.events := by
  obtain ⟨prior, hprior, href, hcommand, rfl⟩ | ⟨-, heffect, hread⟩ := recordOwnedDispatch_ok h
  · exact ⟨⟨hj, rfl, fun _ _ => fun h => h⟩, ⟨prior, hprior, href, hcommand⟩, rfl⟩
  · refine ⟨⟨heffect.sound hj, ?_, fun _ _ hb => hb.effect heffect⟩, ⟨_, hread, rfl, rfl⟩, ?_⟩
    · cases heffect
      rfl
    · cases heffect
      rfl

variable (id) in
/-- `prepare` up to its request: it ends, or it has claimed the operation. -/
theorem outset_spec (hj : Sound j) (env : Env) (task_ref : String) (command : Json) :
    ((outset j env id task_ref command).1.isSome ∧ Aloof id j (outset j env id task_ref command).2) ∨
      ((outset j env id task_ref command).1 = none ∧
        Claimed id j (outset j env id task_ref command).2 task_ref command ∧
        ∀ event_id, j.FreshEvent event_id → env.newId 0 ≠ event_id →
          (outset j env id task_ref command).2.FreshEvent event_id) := by
  have hrefl : Aloof id j j := ⟨hj, rfl, fun _ _ => fun h => h⟩
  unfold outset
  cases checkPreparation j id task_ref command with
  | error => exact .inl ⟨rfl, hrefl⟩
  | ok =>
    cases hrecord : recordOwnedDispatch j id task_ref command with
    | error => exact .inl ⟨rfl, hrefl⟩
    | ok r =>
      obtain ⟨bound, j₁⟩ := r
      obtain ⟨haloof, hbound, hevents⟩ := recordOwnedDispatch_aloof hj hrecord
      dsimp only
      split_ifs with hstate
      · exact .inl ⟨rfl, haloof⟩
      · cases hdispatch : dispatch j₁ env id with
        | error => exact .inl ⟨rfl, haloof⟩
        | ok r =>
          obtain ⟨row, j₂⟩ := r
          obtain ⟨heffect, -, ⟨o, ho, hs⟩, ho', hs'⟩ := dispatch_ok hdispatch
          rw [haloof.operation] at ho
          refine .inr ⟨rfl, ⟨heffect.sound haloof.sound, ⟨o, ho, hs⟩, ⟨row, ho', hs'⟩, hbound.effect heffect⟩,
            fun event_id hfresh hne => dispatch_fresh hdispatch ?_ hne⟩
          unfold Journal.FreshEvent
          rw [hevents]
          exact hfresh

/-- The row of an operation whose call has ended is as the answer says. -/
def Settles (accepted : Bool) (o : OperationRow) : Prop :=
  if accepted then o.dispatch_state = .settled ∧ o.outcome = some .awaitingInput else o.dispatch_state = .unknown

/-- The end of a call keeps the journal sound and the recorded commands, and decides the operation. -/
structure Concluded (id : String) (j j' : Journal) (accepted : Bool) : Prop where
  sound : Sound j'
  bound : ∀ task_ref command, Bound j id task_ref command → Bound j' id task_ref command
  settles : ∃ o, j'.operation? id = some o ∧ Settles accepted o

/-- An exception before the settlement leaves the operation unknown. -/
theorem lost (hj : Sound j) (ho : j.operation? id = some o) (hs : o.dispatch_state = .submitted) {loss : Env}
    (hfresh : j.FreshEvent (loss.newId 0)) :
    ∃ j', markUnknown j loss id "owned_transport_uncertain" = .ok j' ∧ Concluded id j j' false := by
  obtain ⟨j', hmark, heffect, o', ho', hs'⟩ := markUnknown_submitted hj ho hs hfresh
  exact ⟨j', hmark, heffect.sound hj, fun _ _ hb => hb.effect heffect, o', ho', hs'⟩

/-- `prepare` from the answer to its request on: a response that is accepted settles the operation, and otherwise its
outcome is unknown. -/
theorem conclude_spec (hj : Sound j) (ho : j.operation? id = some o) (hs : o.dispatch_state = .submitted)
    {receipts settlement loss : Env} (hsettlement : j.FreshEvent (settlement.newId 0))
    (hloss : j.FreshEvent (loss.newId 0)) (hne : receipts.newId 0 ≠ settlement.newId 0) (task_ref : String)
    (answer : Answer) :
    Concluded id j (conclude j receipts settlement loss id task_ref answer).2
      (accepted j receipts id task_ref answer) := by
  -- without an accepted receipt nothing was written before the loss
  have hlost : acknowledge j receipts settlement id task_ref answer = (false, j) →
      accepted j receipts id task_ref answer = false → Concluded id j
        (conclude j receipts settlement loss id task_ref answer).2 (accepted j receipts id task_ref answer) := by
    intro hack hacc
    obtain ⟨j', hmark, hconcluded⟩ := lost hj ho hs hloss
    unfold conclude
    rw [hack, hacc]
    dsimp only
    rw [if_neg Bool.false_ne_true, hmark]
    exact hconcluded
  cases answer with
  | raised => exact hlost rfl rfl
  | returned result =>
    cases hcorrelate : correlate id task_ref result with
    | none =>
      refine hlost ?_ ?_
      · simp only [acknowledge, hcorrelate]
      · simp only [accepted, hcorrelate, Option.any_none]
    | some revision =>
      cases hreceipt : recordReceipt j receipts id "" "" (some (receipt task_ref revision)) with
      | error =>
        refine hlost ?_ ?_
        · simp only [acknowledge, hcorrelate, hreceipt]
        · simp only [accepted, hcorrelate, Option.any_some, hreceipt]
          rfl
      | ok r =>
        obtain ⟨row, j₁⟩ := r
        obtain ⟨hj₁, hbound, o₁, ho₁, hs₁⟩ := recordReceipt_submitted hj hreceipt ho hs
        obtain ⟨snapshot, j₂, hsettle, heffect, o₂, ho₂, hs₂⟩ :=
          settle_submitted hj₁ ho₁ hs₁ (recordReceipt_fresh hreceipt hsettlement hne)
        have hack : acknowledge j receipts settlement id task_ref (.returned result) = (true, j₂) := by
          simp only [acknowledge, hcorrelate, hreceipt, hsettle]
        have hacc : accepted j receipts id task_ref (.returned result) := by
          simp only [accepted, hcorrelate, Option.any_some, hreceipt]
          rfl
        unfold conclude
        rw [hack, hacc]
        dsimp only
        rw [if_pos rfl]
        exact ⟨heffect.sound hj₁, fun _ _ hb => (hbound _ _ hb).effect heffect, o₂, ho₂, hs₂⟩

end Parts

/-! ## Every run -/

section Runs

variable {id} {s : System}

/-- The requests that were posted: none, or the recorded one. -/
def Posted (id : String) (j : Journal) (posts : List (String × Json)) : Prop :=
  posts = [] ∨ ∃ task_ref command, posts = [(task_ref, command)] ∧ Bound j id task_ref command

/-- The stages of the operation: no call has dispatched it, one awaits its request, or that one has ended. -/
inductive Stage (id : String) : System → Prop
  | idle {s : System} (waiting : s.waiting = []) (posts : s.posts = []) (endings : s.endings = []) : Stage id s
  | sent {s : System} {task_ref : String} {command : Json} {o : OperationRow} (waiting : s.waiting = [task_ref])
      (posts : s.posts = [(task_ref, command)]) (endings : s.endings = [])
      (bound : Bound s.journal id task_ref command) (operation : s.journal.operation? id = some o)
      (submitted : o.dispatch_state = .submitted) : Stage id s
  | ended {s : System} {ending : Ending} {o : OperationRow} (waiting : s.waiting = [])
      (posts : Posted id s.journal s.posts) (endings : s.endings = [ending])
      (row : ending.operation = some o) (operation : s.journal.operation? id = some o)
      (settles : Settles ending.accepted o) : Stage id s

theorem Posted.mono {j j' : Journal} {posts : List (String × Json)} (h : Posted id j posts)
    (hbound : ∀ task_ref command, Bound j id task_ref command → Bound j' id task_ref command) :
    Posted id j' posts := by
  obtain hnil | ⟨task_ref, command, hone, hb⟩ := h
  · exact .inl hnil
  · exact .inr ⟨task_ref, command, hone, hbound _ _ hb⟩

/-- A change of the journal that leaves the operation alone. -/
theorem Stage.aloof (h : Stage id s) {j : Journal}
    (hoperation : ∀ o, s.journal.operation? id = some o → j.operation? id = some o)
    (hbound : ∀ task_ref command, Bound s.journal id task_ref command → Bound j id task_ref command) :
    Stage id { s with journal := j } := by
  cases h with
  | idle hwaiting hposts hendings => exact .idle hwaiting hposts hendings
  | sent hwaiting hposts hendings hb ho hs => exact .sent hwaiting hposts hendings (hbound _ _ hb) (hoperation _ ho) hs
  | ended hwaiting hposts hendings hrow ho hs =>
    exact .ended hwaiting (hposts.mono hbound) hendings hrow (hoperation _ ho) hs

/-- The one call that dispatched the operation ends. -/
theorem Stage.finish {j : Journal} (hwaiting : s.waiting = []) (hposts : Posted id j s.posts)
    (hendings : s.endings = []) {accepted : Bool} {end_ : Result × Journal}
    (h : Concluded id j end_.2 accepted) : Stage id (finish id s accepted end_) := by
  obtain ⟨o, ho, hs⟩ := h.settles
  have hone : (Executor.finish id s accepted end_).endings = [⟨accepted, end_.1, end_.2.operation? id⟩] := by
    unfold Executor.finish
    rw [hendings, nil_append]
  exact .ended hwaiting (hposts.mono h.bound) hone ho ho hs

/-- An operation that can be claimed has not been dispatched. -/
theorem Stage.eq_idle (h : Stage id s) {o : OperationRow} (ho : s.journal.operation? id = some o)
    (hs : o.dispatch_state = .unsubmitted) : s.waiting = [] ∧ s.posts = [] ∧ s.endings = [] := by
  cases h with
  | idle hwaiting hposts hendings => exact ⟨hwaiting, hposts, hendings⟩
  | sent _ _ _ _ ho' hs' =>
    cases ho.symm.trans ho'
    rw [hs] at hs'
    cases hs'
  | ended _ _ _ _ ho' hs' =>
    cases ho.symm.trans ho'
    unfold Settles at hs'
    rw [hs] at hs'
    split_ifs at hs'
    · cases hs'.1

theorem step_stage (hj : Sound s.journal) (h : Stage id s) (tick : Tick) (hok : Undisturbed id s tick) :
    Sound (step id s tick).journal ∧ Stage id (step id s tick) := by
  cases tick with
  | other call =>
    exact ⟨step_sound hj call, h.aloof hok fun _ _ hb => hb.step hj call⟩
  | prepare task_ref command failure claim loss =>
    obtain ⟨hloss, hne⟩ := hok
    have hspec := outset_spec id hj claim task_ref command
    rcases hout : outset s.journal claim id task_ref command with ⟨result, j⟩
    rw [hout] at hspec
    obtain ⟨hsome, haloof⟩ | ⟨rfl, hclaimed, hfresh⟩ := hspec
    · obtain ⟨result, rfl⟩ := Option.isSome_iff_exists.1 hsome
      simp only [step, hout]
      exact ⟨haloof.sound, h.aloof (fun o ho => haloof.operation.trans ho) haloof.bound⟩
    · obtain ⟨o, ho, hunsubmitted⟩ := hclaimed.unsubmitted
      obtain ⟨hwaiting, hposts, hendings⟩ := h.eq_idle ho hunsubmitted
      obtain ⟨o', ho', hsubmitted⟩ := hclaimed.submitted
      cases failure with
      | none =>
        simp only [step, hout]
        refine ⟨hclaimed.sound, .sent ?_ ?_ hendings hclaimed.bound ho' hsubmitted⟩
        · rw [hwaiting, nil_append]
        · rw [hposts, nil_append]
      | some passes =>
        obtain ⟨j', hmark, hconcluded⟩ := lost hclaimed.sound ho' hsubmitted (hfresh _ hloss hne)
        have hend : (conclude j claim claim loss id task_ref (.raised passes)).2 = j' := by
          unfold conclude acknowledge
          dsimp only
          rw [if_neg Bool.false_ne_true, hmark]
        rw [← hend] at hconcluded
        simp only [step, hout]
        exact ⟨hconcluded.sound, .finish hwaiting (.inl hposts) hendings hconcluded⟩
  | answer i answer =>
    obtain ⟨hsettlement, hloss, hne⟩ := hok
    cases hi : s.waiting[i]? with
    | none =>
      simp only [step, hi]
      exact ⟨hj, h⟩
    | some task_ref =>
      cases h with
      | idle hwaiting => simp [hwaiting] at hi
      | ended hwaiting => simp [hwaiting] at hi
      | @sent task_ref' command o hwaiting hposts hendings hb ho hs =>
        obtain ⟨rfl, rfl⟩ : i = 0 ∧ task_ref' = task_ref := by
          rw [hwaiting] at hi
          simpa [List.getElem?_singleton] using hi
        have hconcluded := conclude_spec hj ho hs hsettlement hloss hne task_ref' answer
        simp only [step, hi]
        have hnone : s.waiting.eraseIdx 0 = [] := by
          rw [hwaiting]
          rfl
        refine ⟨hconcluded.sound, Stage.finish (s := { s with waiting := s.waiting.eraseIdx 0 }) hnone
          (.inr ⟨_, command, hposts, hb⟩) hendings hconcluded⟩

/-- What the stages say of the requests and of the call that has ended. -/
theorem Stage.facts (h : Stage id s) :
    s.posts.length ≤ 1 ∧ (∀ post ∈ s.posts, Bound s.journal id post.1 post.2) ∧
      s.endings.length ≤ 1 ∧ ∀ ending ∈ s.endings, s.waiting = [] ∧ ∃ o, ending.operation = some o ∧
        s.journal.operation? id = some o ∧ Settles ending.accepted o := by
  cases h with
  | idle hwaiting hposts hendings =>
    simp [hposts, hendings]
  | @sent task_ref command _ hwaiting hposts hendings hb =>
    rw [hposts, hendings]
    refine ⟨le_rfl, fun post hpost => ?_, Nat.zero_le _, by simp⟩
    rw [mem_singleton.1 hpost]
    exact hb
  | ended hwaiting hposts hendings hrow ho hs =>
    rw [hendings]
    refine ⟨?_, ?_, le_rfl, fun e he => ?_⟩
    · obtain hnil | ⟨_, _, hone, -⟩ := hposts
      · rw [hnil]
        exact Nat.zero_le _
      · rw [hone]
        exact le_rfl
    · obtain hnil | ⟨_, _, hone, hb⟩ := hposts
      · simp [hnil]
      · rw [hone]
        intro post hpost
        rw [mem_singleton.1 hpost]
        exact hb
    · obtain rfl := mem_singleton.1 he
      exact ⟨hwaiting, _, hrow, ho, hs⟩

theorem settles_iff {accepted : Bool} {o : OperationRow} (h : Settles accepted o) :
    (accepted → o.outcome = some .awaitingInput) ∧ (o.dispatch_state = .settled ↔ accepted) ∧
      (o.dispatch_state = .unknown ↔ accepted = false) := by
  unfold Settles at h
  cases accepted with
  | true =>
    rw [if_pos rfl] at h
    simp [h]
  | false =>
    rw [if_neg Bool.false_ne_true] at h
    simp [h]

end Runs

/-- Calls of `prepare` for one operation, after any calls to the journal and among any others that leave the operation
alone, with any arguments, answers and cancellations. At most one request is posted, and it is the one that
`record_owned_dispatch` has written. At most one call dispatches the operation; when it has ended, and from then on, the
row of the operation is the one that it left: settled and waiting for input if a matching response came whose receipt
was accepted, and otherwise unknown. -/
theorem prepare_at_most_once (calls : List (Env × Call)) (id : String) (ticks : List Tick)
    (hok : Runs.Admits (step id) (Undisturbed id) (start (reached calls)) ticks) :
    let s := Runs.run (step id) (start (reached calls)) ticks
    s.posts.length ≤ 1 ∧ (∀ post ∈ s.posts, Bound s.journal id post.1 post.2) ∧
      s.endings.length ≤ 1 ∧ ∀ ending ∈ s.endings, s.waiting = [] ∧ ∃ o, ending.operation = some o ∧
        s.journal.operation? id = some o ∧ (ending.accepted → o.outcome = some .awaitingInput) ∧
        (o.dispatch_state = .settled ↔ ending.accepted) ∧
        (o.dispatch_state = .unknown ↔ ending.accepted = false) := by
  intro s
  have h : Sound s.journal ∧ Stage id s :=
    Runs.run_invariant_of (P := fun s : System => Sound s.journal ∧ Stage id s)
      (fun _ tick hs hok => step_stage hs.1 hs.2 tick hok) ⟨reached_sound calls, .idle rfl rfl rfl⟩ hok
  obtain ⟨hone, hposts, hends, hsettles⟩ := h.2.facts
  refine ⟨hone, hposts, hends, fun ending hmem => ?_⟩
  obtain ⟨hwaiting, o, hrow, ho, hs⟩ := hsettles ending hmem
  exact ⟨hwaiting, o, hrow, ho, settles_iff hs⟩

namespace Sample

open TaskStore.Sample

/-- The preparation of `o1`. -/
def command : Json := .dict [("command_id", .str "o1"), ("expected_revision", .str "r0"), ("kind", .str "prepare"),
  ("proposal", .dict [("employee_name", .str "A"), ("start_date", .str "B"), ("delivery_location", .str "C"),
    ("manager_name", .str "D")]), ("context_version", .int 1)]

def fresh (event_id : String) (h : isIdentifier event_id) : Env := .ofList [event_id] (by simpa using h)

def claim : Env := fresh "x1" (by decide)

def loss : Env := fresh "x2" (by decide)

/-- A call that is cancelled at its request. -/
def calls : List Tick := [.prepare "ref" command none claim loss, .answer 0 (.raised true) claim loss loss]

theorem outset_command : (∀ e ∈ (reached [create, acceptFirst]).events, e.event_id ≠ "x2") ∧
    (outset (reached [create, acceptFirst]) claim "o1" "ref" command).1.isNone := by
  decide +kernel

/-- The calls on a journal in which `o1` can be claimed. -/
theorem calls_of_outset {j : Journal} (hj : Sound j) (hfresh : ∀ e ∈ j.events, e.event_id ≠ "x2")
    (hnone : (outset j claim "o1" "ref" command).1.isNone) :
    Runs.Admits (step "o1") (Undisturbed "o1") (start j) calls ∧
      ∃ ending ∈ (Runs.run (step "o1") (start j) calls).endings, ending.accepted = false := by
  obtain ⟨hsome, -⟩ | ⟨h, -, hkeeps⟩ := outset_spec "o1" hj claim "ref" command
  · rw [Option.isNone_iff_eq_none.1 hnone] at hsome
    cases hsome
  · have hprepare : step "o1" (start j) (.prepare "ref" command none claim loss) =
        ⟨(outset j claim "o1" "ref" command).2, ["ref"], [("ref", command)], []⟩ := by
      have hpair : outset j claim "o1" "ref" command = (none, (outset j claim "o1" "ref" command).2) := Prod.ext h rfl
      simp only [step, start]
      rw [hpair]
      rfl
    have hkept := hkeeps "x2" hfresh (by decide)
    generalize (outset j claim "o1" "ref" command).2 = j₁ at hprepare hkept
    refine ⟨Runs.admits_cons.2 ⟨⟨hfresh, by decide⟩, ?_⟩, ?_⟩
    · rw [hprepare]
      exact Runs.admits_cons.2 ⟨⟨hkept, hkept, by decide⟩, Runs.admits_nil⟩
    · show ∃ ending ∈ (step "o1" (step "o1" (start j) (.prepare "ref" command none claim loss))
        (.answer 0 (.raised true) claim loss loss)).endings, ending.accepted = false
      rw [hprepare]
      exact ⟨_, mem_singleton_self _, rfl⟩

end Sample

theorem prepare_at_most_once_sample :
    let s := Runs.run (step "o1") (start (reached [TaskStore.Sample.create, TaskStore.Sample.acceptFirst])) Sample.calls
    s.posts.length ≤ 1 ∧ ∃ o, s.journal.operation? "o1" = some o ∧ o.dispatch_state = .unknown := by
  obtain ⟨hok, ending, hmem, hacc⟩ := Sample.calls_of_outset (reached_sound _) Sample.outset_command.1
    Sample.outset_command.2
  obtain ⟨hposts, -, -, hall⟩ := prepare_at_most_once _ "o1" Sample.calls hok
  obtain ⟨-, o, -, ho, -, -, hunknown⟩ := hall ending hmem
  exact ⟨hposts, o, ho, hunknown.2 hacc⟩

end Executor

end StrixAlloy.TaskStore

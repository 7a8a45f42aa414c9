import StrixAlloy.TaskStore.Coupling

/-!
# Operations that wait

`pending` lists the operations of a scope that wait for their dispatch, and `dispatch` refuses those
whose task is closed. A cancellation, a reconciliation and a detachment park what waits, but a
settlement that ends its task does not (`Strands`). In a run without such a settlement every
operation that waits can be claimed once nothing is in flight.
-/

namespace StrixAlloy.TaskStore

open Checked List Table

/-- Every operation that waits belongs to a task that is open, or whose outcome is unknown. -/
def Servable (j : Journal) : Prop :=
  ∀ o ∈ j.operations, o.dispatch_state = .unsubmitted → ∀ t ∈ j.tasks, t.task_id = o.task_id →
    t.state.closed = false ∨ t.state = .outcomeUnknown

/-- The arguments of a settlement that ends its task pass the checks of `settle`. -/
structure Ends (j : Journal) (env : Env) (replies : List String) (outcome : String)
    (evidence : Option Json) : Prop where
  outcome_mem : outcome ∈ ["succeeded", "failed"]
  replies_ok : areReplies replies
  replies_valid : validateJson (repliesJson replies) defaultLimit = .ok ()
  evidence_valid : validateJson (evidence.getD (.dict [])) defaultLimit = .ok ()
  payload_valid : validateJson (.dict [("outcome", .str outcome), ("replies", repliesJson replies),
    ("evidence", Json.sortKeys (evidence.getD (.dict [])))]) defaultLimit = .ok ()
  event : j.FreshEvent (env.newId 0)

/-- The call settles a submitted operation so that its task ends, while another operation of the
task waits. -/
def Strands (j : Journal) (call : Env × Call) : Prop :=
  match call.2 with
  | .settle operation_id replies outcome evidence =>
    Ends j call.1 replies outcome evidence ∧
      ∃ row, j.operation? operation_id = some row ∧ row.dispatch_state = .submitted ∧
        ∃ o ∈ j.operations, o.task_id = row.task_id ∧ o.dispatch_state = .unsubmitted
  | _ => False

theorem Servable.empty : Servable .empty := by
  intro o ho
  cases ho

/-! ## Writes -/

variable {j j' : Journal}

/-- No write makes an operation wait again: one that waits is new, or it waited before. -/
theorem Effect.waited {w : Write} (h : Effect w j j') (hj : Keyed j) {o' : OperationRow} (ho' : o' ∈ j'.operations)
    (hwaits : o'.dispatch_state = .unsubmitted) :
    w = .accepted ∨ ∃ o ∈ j.operations, o.task_id = o'.task_id ∧ o.dispatch_state = .unsubmitted := by
  have hread := lookup_of_mem (h.keyed hj).operations ho'
  cases hold : j.operation? o'.operation_id with
  | none => exact .inl (h.operation_new hold hread).1
  | some o =>
    obtain ⟨o₁, ho₁, hmoves⟩ := h.operation_moves hold
    obtain rfl : o₁ = o' := Option.some.inj (ho₁.symm.trans hread)
    have htask : o.task_id = o₁.task_id := (congrArg (fun x => x.2.1) hmoves.identity).symm
    refine .inr ⟨o, (mem_of_lookup hold).1, htask, ?_⟩
    rcases hmoves.state with e | ⟨w', -, hmove⟩
    · rw [← e, hwaits]
    · have hnext := w'.moves_subset _ hmove
      rw [hwaits] at hnext
      generalize o.dispatch_state = s at hnext
      revert hnext
      cases s <;> decide

/-- Parking leaves none of the operations that it concerns waiting. -/
theorem not_waiting_of_park {p : String → Prop} [DecidablePred p] {state : DispatchState}
    (hstate : state ≠ .unsubmitted) {o : OperationRow} (ho : o ∈ (j.parkUnsubmitted p state).operations)
    (hwaits : o.dispatch_state = .unsubmitted) : ¬ p o.task_id := by
  rw [Journal.parkUnsubmitted_operations] at ho
  obtain ⟨x, -, rfl⟩ := mem_update.1 ho
  split_ifs at hwaits with hp
  · exact absurd hwaits hstate
  · rw [if_neg hp]
    exact fun hx => hp ⟨hx, hwaits⟩

/-- A write that leaves the tasks alone and accepts nothing keeps the operations servable. -/
theorem Servable.of_tasks {w : Write} (hs : Servable j) (h : Effect w j j') (hj : Keyed j) (hw : w ≠ .accepted)
    (htasks : j'.tasks = j.tasks) : Servable j' := by
  intro o' ho' hwaits t ht hid
  rw [htasks] at ht
  obtain ⟨o, ho, htask, hwaited⟩ := (h.waited hj ho' hwaits).resolve_left hw
  exact hs o ho hwaited t ht (hid.trans htask.symm)

/-- A write that changes one task keeps the operations servable, if that task is open or unknown
afterwards, as long as an operation of it waits. -/
theorem Servable.of_setTask {w : Write} (hs : Servable j) (h : Effect w j j') (hj : Keyed j) (hw : w ≠ .accepted)
    {task_id : String} {f : TaskRow → TaskRow} (htasks : j'.tasks = (j.setTask task_id f).tasks)
    (hid : ∀ t, (f t).task_id = t.task_id)
    (hf : ∀ t ∈ j.tasks, t.task_id = task_id → (f t).state.closed = false ∨ (f t).state = .outcomeUnknown ∨
      ∀ o ∈ j'.operations, o.dispatch_state = .unsubmitted → o.task_id ≠ task_id) :
    Servable j' := by
  intro o' ho' hwaits t' ht' ht'id
  rw [htasks, Journal.setTask_tasks] at ht'
  obtain ⟨t, ht, rfl⟩ := mem_update.1 ht'
  split_ifs at ht'id ⊢ with hp
  · rw [hid] at ht'id
    rcases hf t ht hp with hopen | hunknown | hnone
    · exact .inl hopen
    · exact .inr hunknown
    · exact absurd (ht'id.symm.trans hp) (hnone o' ho' hwaits)
  · obtain ⟨o, ho, htask, hwaited⟩ := (h.waited hj ho' hwaits).resolve_left hw
    exact hs o ho hwaited t ht (ht'id.trans htask.symm)

/-- Every write but a settlement keeps the operations servable. -/
theorem Effect.servable {w : Write} (h : Effect w j j') (hj : Keyed j) (hw : w ≠ .settled) (hs : Servable j) :
    Servable j' := by
  have heffect := h
  cases h with
  | settled => exact absurd rfl hw
  | scopeAdded | observed | receipted | ownedDispatched | ownedObserved | detached =>
    exact hs.of_tasks heffect hj (by decide) rfl
  | created =>
    intro o' ho' hwaits t' ht' ht'id
    obtain ⟨o, ho, htask, hwaited⟩ := (heffect.waited hj ho' hwaits).resolve_left (by decide)
    rcases mem_append.1 ht' with ht | hnew
    · exact hs o ho hwaited t' ht (ht'id.trans htask.symm)
    · rw [mem_singleton.1 hnew]
      exact .inl rfl
  | accepted task scope operation_id utterance_id text now event_id kind context payload answered
      found _ _ live =>
    intro o' ho' hwaits t' ht' ht'id
    simp only [Journal.setTask_tasks, Journal.dropQuestions_tasks, Journal.log_tasks,
      Journal.insertOperation_tasks] at ht'
    obtain ⟨t₁, ht₁, rfl⟩ := mem_update.1 ht'
    obtain ⟨t, ht, rfl⟩ := mem_update.1 ht₁
    -- neither update changes the state of the task, which is open
    have hopen : t.task_id = task.task_id → t.state.closed = false := by
      intro e
      rw [hj.tasks.eq_of_key_eq ht (mem_of_lookup found).1 e]
      exact live
    by_cases hp : t.task_id = task.task_id
    · rw [if_pos hp, if_pos hp]
      exact .inl (hopen hp)
    · rw [if_neg hp, if_neg hp] at ht'id ⊢
      rcases mem_append.1 ho' with ho | hnew
      · exact hs o' ho hwaits t ht ht'id
      · rw [mem_singleton.1 hnew] at ht'id
        exact absurd ht'id hp
  | noted task scope text question_id source found _ _ live =>
    refine hs.of_setTask heffect hj (by decide) rfl (fun _ => rfl) fun t ht e => .inl ?_
    rw [hj.tasks.eq_of_key_eq ht (mem_of_lookup found).1 e]
    exact live
  | cancelled task =>
    refine hs.of_setTask heffect hj (by decide) rfl (fun _ => rfl) fun t ht e => ?_
    refine .inr (.inr fun o ho hwaits => ?_)
    have hstate : (cancelledState j task.task_id).2 ≠ .unsubmitted := by
      unfold cancelledState
      split_ifs <;> decide
    exact not_waiting_of_park (p := fun t => t = task.task_id) hstate ho hwaits
  | dispatched =>
    exact hs.of_setTask heffect hj (by decide) rfl (fun _ => rfl) fun t ht e => .inl rfl
  | reconciled row =>
    refine hs.of_setTask heffect hj (by decide) rfl (fun _ => rfl) fun t ht e => ?_
    refine .inr (.inr fun o ho hwaits => ?_)
    have hstate : DispatchState.suspended ≠ .unsubmitted := by decide
    exact not_waiting_of_park (p := fun t => t = row.task_id) hstate ho hwaits
  | markedUnknown =>
    exact hs.of_setTask heffect hj (by decide) rfl (fun _ => rfl) fun t ht e => .inr (.inl rfl)

/-! ## Settlements -/

section Settle

variable {j j' : Journal} {env : Env} {operation_id outcome : String} {replies : List String}
  {evidence : Option Json} {row : OperationRow}

/-- The outcomes under which a settlement succeeds. -/
theorem settle_outcome {snapshot : TaskSnapshot}
    (h : settle j env operation_id replies outcome evidence = .ok (snapshot, j')) :
    outcome ∈ ["awaiting_input", "succeeded", "failed"] := by
  simp only [settle, bind_eq_ok] at h
  obtain ⟨-, -, outcome', hout, -⟩ := h
  obtain ⟨rfl, rfl | rfl | rfl⟩ := settleOutcome_ok hout <;> decide

/-- A settlement that was written and ended its task passed the checks. -/
theorem ends_of_settle {snapshot : TaskSnapshot}
    (h : settle j env operation_id replies outcome evidence = .ok (snapshot, j'))
    (hrow : j.operation? operation_id = some row) (hsubmitted : row.dispatch_state = .submitted)
    (hout : outcome ∈ ["succeeded", "failed"]) : Ends j env replies outcome evidence := by
  simp only [settle, bind_eq_ok, orThrow_eq_ok, require_eq_ok, boundedIdentifier_eq_ok] at h
  obtain ⟨-, -, outcome', hout', -, hreplies, _, hvalid, _, hevidence, o, ho, h⟩ := h
  obtain ⟨rfl, -⟩ := settleOutcome_ok hout'
  obtain rfl : row = o := Option.some.inj (hrow.symm.trans ho)
  rw [if_neg (by rw [hsubmitted]; decide)] at h
  simp only [bind_eq_ok, orThrow_eq_ok, require_eq_ok, Journal.event_eq_ok] at h
  obtain ⟨-, -, task, -, -, -, j₁, hq, _, ⟨hpayload, hev, -⟩, -⟩ := h
  obtain ⟨questions, rfl⟩ := settleQuestions_frame hq
  exact ⟨hout, hreplies, hvalid, hevidence, hpayload, hev⟩

/-- The row of a task that ends. -/
def endedTask (outcome : TaskState) (now : String) (t : TaskRow) : TaskRow :=
  { t with
    state := outcome
    open_question := none
    result_version := t.result_version + 1
    updated_at := now }

/-- The journal that a settlement commits when it ends the task. -/
def endedJournal (j : Journal) (env : Env) (row : OperationRow) (outcome : TaskState)
    (replies : List String) (evidence : Json) : Journal :=
  (((j.setOperation row.operation_id fun o =>
      { o with
        dispatch_state := .settled
        replies := some (repliesJson replies)
        evidence := some evidence
        outcome := some outcome
        settled_at := some (env.now 0) }).setTask row.task_id
    (endedTask outcome (env.now 0))).dropQuestions fun q => q.task_id = row.task_id).log (env.newId 0)
    row.task_id (some row.operation_id) "operation_settled" row.context_version
    (.dict [("outcome", .str outcome.name), ("replies", repliesJson replies),
      ("evidence", Json.sortKeys evidence)]) .store

/-- A settlement that ends its task leaves no question open. -/
theorem settledQuestion_eq_none {task : TaskRow} {outcome : TaskState}
    (h : outcome ≠ .awaitingInput) (binding : Option QuestionRow) :
    settledQuestion row task outcome replies binding = none := by
  unfold settledQuestion
  rw [if_neg h]
  cases binding with
  | none => rfl
  | some => exact if_neg fun hb => h hb.1

/-- A settlement that passes the checks is written. -/
theorem Ends.settle {outcome : TaskState} (h : Ends j env replies outcome.name evidence)
    (hout : outcome = .succeeded ∨ outcome = .failed) (hj : Sound j)
    (hrow : j.operation? row.operation_id = some row) (hsubmitted : row.dispatch_state = .submitted) :
    ∃ snapshot, TaskStore.settle j env row.operation_id replies outcome.name evidence =
      .ok (snapshot, endedJournal j env row outcome replies (evidence.getD (.dict []))) := by
  obtain ⟨hmem, -⟩ := mem_of_lookup hrow
  obtain ⟨task, htask⟩ := hj.keyed.task_of_operation hmem
  obtain ⟨hmemt, hidt⟩ := mem_of_lookup htask
  obtain ⟨scope, hscopes, hscope⟩ := mem_map.1
    (hj.keyed.task_scope (mem_map_of_mem hmemt))
  have hknown : j.scope? task.scope_id = some scope :=
    hscope ▸ lookup_of_mem hj.keyed.scopes hscopes
  have hlive : task.state.terminal = false := by
    have hstate := (hj.coupled.tasks task hmemt).submitted row hmem hidt.symm hsubmitted
    rcases hstate with e | e <;> rw [e] <;> rfl
  have houtcome : settleOutcome outcome.name = .ok outcome := by
    rcases hout with rfl | rfl <;> rfl
  have hne : outcome ≠ .awaitingInput := by
    rcases hout with rfl | rfl <;> decide
  have htask' : (endedJournal j env row outcome replies (evidence.getD (.dict []))).task? row.task_id =
      some (endedTask outcome (env.now 0) task) := by
    unfold Journal.task? at htask ⊢
    unfold endedJournal
    rw [Journal.log_tasks, Journal.dropQuestions_tasks, Journal.setTask_tasks,
      lookup_update (f := endedTask outcome (env.now 0)) fun _ => rfl, Journal.setOperation_tasks, htask,
        Option.map_some,
      if_pos hidt]
  refine ⟨⟨endedTask outcome (env.now 0) task, scope⟩, ?_⟩
  simp only [TaskStore.settle, bind_eq_ok, orThrow_eq_ok, require_eq_ok, boundedIdentifier_eq_ok]
  refine ⟨(), hj.keyed.identifiers row hmem, outcome, houtcome, (), h.replies_ok, (), h.replies_valid,
    (), h.evidence_valid, row, hrow, ?_⟩
  rw [if_neg (by rw [hsubmitted]; decide)]
  simp only [bind_eq_ok, orThrow_eq_ok, require_eq_ok, Journal.event_eq_ok, pure_eq_ok,
    taskSnapshot_eq_ok, settledQuestion_eq_none hne, hne, and_false, if_false]
  refine ⟨(), hsubmitted, task, htask, (), by simp [hlive], _, if_pos hne, _,
    ⟨h.payload_valid, h.event, rfl⟩, _, htask', _, ⟨scope, hknown, rfl⟩, rfl⟩

/-- A settlement that strands an operation breaks what was true of the operations that wait. -/
theorem Strands.not_servable {call : Env × Call} (hj : Sound j) (h : Strands j call) :
    ¬ Servable (step j call) := by
  obtain ⟨env, call⟩ := call
  unfold Strands at h
  split at h
  swap
  · exact absurd h id
  next operation_id replies outcome evidence hcall =>
  obtain ⟨hends, row, hrow, hsubmitted, o, ho, htask, hwaits⟩ := h
  obtain rfl : row.operation_id = operation_id := (mem_of_lookup hrow).2
  obtain ⟨outcome, rfl, hout⟩ : ∃ s : TaskState, s.name = outcome ∧ (s = .succeeded ∨ s = .failed) := by
    rcases mem_pair.1 hends.outcome_mem with rfl | rfl
    · exact ⟨.succeeded, rfl, .inl rfl⟩
    · exact ⟨.failed, rfl, .inr rfl⟩
  obtain ⟨snapshot, hrun⟩ := hends.settle hout hj hrow hsubmitted
  have hstep : step j (env, call) =
      endedJournal j env row outcome replies (evidence.getD (.dict [])) := by
    refine step_of_ok ?_
    rw [hcall, Call.run, hrun]
    rfl
  rw [hstep]
  intro hservable
  obtain ⟨task, hlookup⟩ := hj.keyed.task_of_operation (mem_of_lookup hrow).1
  obtain ⟨hmem, hid⟩ := mem_of_lookup hlookup
  have hstill : o ∈ (endedJournal j env row outcome replies (evidence.getD (.dict []))).operations := by
    refine mem_update_of_not ho fun e => ?_
    rw [hj.keyed.operations.eq_of_key_eq ho (mem_of_lookup hrow).1 e, hsubmitted] at hwaits
    cases hwaits
  have hended : endedTask outcome (env.now 0) task ∈
      (endedJournal j env row outcome replies (evidence.getD (.dict []))).tasks :=
    mem_update_of_pos hmem hid
  rcases hservable o hstill hwaits _ hended (hid.trans htask.symm) with hopen | hunknown
  · rcases hout with rfl | rfl <;> cases hopen
  · rcases hout with rfl | rfl <;> cases hunknown

end Settle

/-! ## Calls -/

/-- What waits stays servable over a settlement that strands nothing. -/
theorem settle_servable {env : Env} {operation_id outcome : String} {replies : List String} {evidence : Option Json}
    {snapshot : TaskSnapshot} (hj : Sound j) (hs : Servable j)
    (h : settle j env operation_id replies outcome evidence = .ok (snapshot, j'))
    (hstrands : ¬ Strands j (env, .settle operation_id replies outcome evidence)) : Servable j' := by
  obtain ⟨row, hrow, ⟨-, rfl, -⟩ | ⟨hsubmitted, heffect, -, htasks⟩⟩ := settle_ok h
  · exact hs
  obtain ⟨hmem, hid⟩ := mem_of_lookup hrow
  intro o' ho' hwaits t' ht' ht'id
  obtain ⟨o, ho, htask, hwaited⟩ := (heffect.waited hj.keyed ho' hwaits).resolve_left (by decide)
  rcases htasks t' ht' with ht | ⟨hrowtask, hstate⟩
  · exact hs o ho hwaited t' ht (ht'id.trans htask.symm)
  -- the task of the settled operation has another one that waits, so that it was open before
  have hsame : o.task_id = row.task_id := by rw [htask, ← ht'id, hrowtask]
  rcases hstate with hname | ⟨t, hlookup, hrequested⟩
  · have hkeeps : outcome ∉ ["succeeded", "failed"] := by
      intro hmem
      exact hstrands ⟨ends_of_settle h hrow hsubmitted hmem, row, hrow, hsubmitted, o, ho, hsame, hwaited⟩
    have houtcome := settle_outcome h
    rw [← hname] at hkeeps houtcome
    left
    revert hkeeps houtcome
    cases t'.state <;> decide
  · obtain ⟨hmemt, hidt⟩ := mem_of_lookup hlookup
    rcases hs o ho hwaited t hmemt (hidt.trans hsame.symm) with hopen | hunknown
    · rw [hrequested] at hopen
      cases hopen
    · rw [hrequested] at hunknown
      cases hunknown

/-- A call keeps what waits servable exactly when it strands nothing. -/
theorem step_servable_iff (hj : Sound j) (hs : Servable j) (call : Env × Call) :
    Servable (step j call) ↔ ¬ Strands j call := by
  refine ⟨fun h hstrands => hstrands.not_servable hj h, fun hstrands => ?_⟩
  obtain ⟨env, call⟩ := call
  unfold step
  split
  swap
  · exact hs
  next j' hrun =>
  by_cases hsettled : Write.settled ∈ call.writes
  · cases call with
    | settle =>
      obtain ⟨snapshot, hrun⟩ := map_snd_eq_ok.1 hrun
      exact settle_servable hj hs hrun hstrands
    | _ => simp [Call.writes] at hsettled
  · have hwrites := Call.writes_of_run hj.keyed.operations hrun
    clear hrun hstrands
    suffices h : Keyed j' ∧ Servable j' from h.2
    induction hwrites with
    | refl => exact ⟨hj.keyed, hs⟩
    | tail _ heffect ih =>
      obtain ⟨w, hw, heffect⟩ := heffect
      have hne : w ≠ .settled := by
        rintro rfl
        exact hsettled hw
      exact ⟨heffect.keyed ih.1, heffect.servable ih.1 hne ih.2⟩

/-- Every call keeps the journal sound. -/
theorem step_sound (hj : Sound j) (call : Env × Call) : Sound (step j call) :=
  (step_of_effect (fun _ _ _ _ hj h => h.sound hj) hj.keyed hj call).2

/-- What waits is servable after every run that strands nothing. -/
theorem reached_servable (calls : List (Env × Call))
    (hcalls : Runs.Admits step (fun j call => ¬ Strands j call) .empty calls) :
    Servable (reached calls) := by
  have hrun : Sound (reached calls) ∧ Servable (reached calls) := Runs.run_invariant_of
    (P := fun j => Sound j ∧ Servable j)
    (fun j call hj hcall => ⟨step_sound hj.1 call, (step_servable_iff hj.1 hj.2 call).2 hcall⟩)
    ⟨Sound.empty, Servable.empty⟩ hcalls
  exact hrun.2

/-- An operation that waits under an open task of an attached scope is claimed, if nothing is in
flight. -/
theorem dispatch_succeeds (hj : Sound j) {o : OperationRow} {t : TaskRow} {s : ScopeRow} (ho : o ∈ j.operations)
    (hwaits : o.dispatch_state = .unsubmitted) (ht : j.task? o.task_id = some t) (hopen : t.state.closed = false)
    (hs : j.scope? t.scope_id = some s) (hattached : s.attached) (hidle : hasUnresolved j = false) {env : Env}
    (hev : j.FreshEvent (env.newId 0)) :
    ∃ row j', dispatch j env o.operation_id = .ok (row, j') ∧ row.identity = o.identity ∧
      row.dispatch_state = .submitted := by
  have hrow : j.operation? o.operation_id = some o := lookup_of_mem hj.keyed.operations ho
  have hvalid : validateJson (.dict [("dispatch_state", .str "submitted")]) defaultLimit = .ok () := by
    decide +kernel
  have hrun : ∃ j', dispatch j env o.operation_id =
      .ok ({ o with dispatch_state := .submitted, submitted_at := some (env.now 0) }, j') := by
    simp only [dispatch, bind_eq_ok, orThrow_eq_ok, require_eq_ok, boundedIdentifier_eq_ok,
      pure_eq_ok, Journal.event_eq_ok]
    refine ⟨_, (), hj.keyed.identifiers o ho, o, hrow, t, ht, s, hs, (), hattached, (), hwaits, (),
      by simp [hopen], (), by simp [hidle], _, ⟨hvalid, hev, rfl⟩, _, ?_, rfl⟩
    unfold Journal.operation? at hrow ⊢
    simp [hrow]
  obtain ⟨j', hrun⟩ := hrun
  exact ⟨_, j', hrun, rfl, rfl⟩

/-- The operations that wait after a run that strands nothing, once nothing is in flight: their tasks
are open, and each that `pending` lists is claimed by a dispatch. -/
theorem pending_dispatchable (calls : List (Env × Call))
    (hcalls : Runs.Admits step (fun j call => ¬ Strands j call) .empty calls)
    (hidle : hasUnresolved (reached calls) = false) :
    (∀ o ∈ (reached calls).operations, o.dispatch_state = .unsubmitted →
        ∀ t ∈ (reached calls).tasks, t.task_id = o.task_id → t.state.closed = false) ∧
      ∀ scope_id rows, pending (reached calls) scope_id = .ok rows → ∀ o ∈ rows, ∀ env,
        (reached calls).FreshEvent (env.newId 0) →
          ∃ row j', dispatch (reached calls) env o.operation_id = .ok (row, j') ∧
            row.identity = o.identity ∧ row.dispatch_state = .submitted := by
  have hj := reached_sound calls
  have hs := reached_servable calls hcalls
  generalize reached calls = j at hj hs hidle
  have hopen : ∀ o ∈ j.operations, o.dispatch_state = .unsubmitted →
      ∀ t ∈ j.tasks, t.task_id = o.task_id → t.state.closed = false := by
    intro o ho hwaits t ht hid
    refine (hs o ho hwaits t ht hid).resolve_right fun hunknown => ?_
    obtain ⟨u, hu, -, hstate⟩ := (hj.coupled.tasks t ht).unknown.1 hunknown
    have hnone := any_eq_false.1 hidle u hu
    rw [OperationRow.inFlight, hstate] at hnone
    exact hnone rfl
  refine ⟨hopen, fun scope_id rows hrows o ho env hev => ?_⟩
  simp only [pending, bind_eq_ok, boundedIdentifier_eq_ok, pure_eq_ok] at hrows
  obtain ⟨-, -, rfl⟩ := hrows
  obtain ⟨hscoped, hlisted⟩ := mem_filter.1 ho
  obtain ⟨hmem, hscope⟩ := mem_filter.1 hscoped
  rw [Bool.and_eq_true, Option.any_eq_true] at hlisted
  obtain ⟨⟨s, hs, hattached⟩, hwaits⟩ := hlisted
  obtain ⟨t, ht, htscope⟩ := (Option.any_eq_true _ _).1 hscope
  obtain ⟨htmem, hid⟩ := mem_of_lookup ht
  have hwaits := of_decide_eq_true hwaits
  rw [← of_decide_eq_true htscope] at hs
  exact dispatch_succeeds hj hmem hwaits ht (hopen o hmem hwaits t htmem hid) hs hattached hidle hev

theorem Sample.identifier_e4 : ∀ id ∈ ["e4"], isIdentifier id := by decide

/-- A settlement of `o1` without replies. -/
def Sample.settle (outcome : String) : Env × Call :=
  (.ofList ["e4"] identifier_e4, .settle "o1" [] outcome none)

/-- The operations `o1` and `o2` of one task, of which the first is dispatched and settled. -/
def Sample.settled (outcome : String) : List (Env × Call) :=
  [create, acceptFirst, acceptSecond, dispatchFirst, settle outcome]

/-- The theorem at a run whose settlement asks for input. -/
theorem pending_dispatchable_settled :
    (∀ o ∈ (reached (Sample.settled "awaiting_input")).operations, o.dispatch_state = .unsubmitted →
        ∀ t ∈ (reached (Sample.settled "awaiting_input")).tasks, t.task_id = o.task_id →
          t.state.closed = false) ∧
      ∀ scope_id rows, pending (reached (Sample.settled "awaiting_input")) scope_id = .ok rows →
        ∀ o ∈ rows, ∀ env, (reached (Sample.settled "awaiting_input")).FreshEvent (env.newId 0) →
          ∃ row j', dispatch (reached (Sample.settled "awaiting_input")) env o.operation_id =
            .ok (row, j') ∧ row.identity = o.identity ∧ row.dispatch_state = .submitted := by
  refine pending_dispatchable _ ?_ (by decide +kernel)
  unfold Sample.settled
  rw [Runs.admits_cons, Runs.admits_cons, Runs.admits_cons, Runs.admits_cons, Runs.admits_cons]
  refine ⟨id, id, id, id, ?_, Runs.admits_nil⟩
  rintro ⟨hends, -⟩
  exact absurd hends.outcome_mem (by decide)

/-- After a settlement that ends the task, `pending` lists an operation that no dispatch claims. -/
theorem pending_stranded :
    ¬ ∀ calls, hasUnresolved (reached calls) = false →
      ∀ scope_id rows, pending (reached calls) scope_id = .ok rows → ∀ o ∈ rows, ∀ env,
        (reached calls).FreshEvent (env.newId 0) →
          ∃ row j', dispatch (reached calls) env o.operation_id = .ok (row, j') := by
  intro h
  let env := Env.ofList ["e5"] (by decide)
  have hrun : hasUnresolved (reached (Sample.settled "succeeded")) = false ∧
      (pending (reached (Sample.settled "succeeded")) "s").toOption.map
        (fun rows => rows.map OperationRow.operation_id) = some ["o2"] ∧
      (∀ e ∈ (reached (Sample.settled "succeeded")).events, e.event_id ≠ "e5") ∧
      (dispatch (reached (Sample.settled "succeeded")) env "o2").toOption.isSome = false := by
    decide +kernel
  obtain ⟨hidle, hids, hfresh, hrefused⟩ := hrun
  obtain ⟨rows, hrows, hmap⟩ := Option.map_eq_some_iff.1 hids
  obtain ⟨o, ho, hid⟩ := mem_map.1 (by rw [hmap]; exact mem_singleton_self "o2")
  obtain ⟨row, j', hrun⟩ := h _ hidle "s" rows (ok_of_toOption hrows) o ho env hfresh
  rw [hid] at hrun
  rw [hrun] at hrefused
  cases hrefused

end StrixAlloy.TaskStore

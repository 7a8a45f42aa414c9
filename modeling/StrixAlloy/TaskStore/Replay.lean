import StrixAlloy.TaskStore.Operations

/-!
# Replays

A method that carries an identifier of its caller's recognises a call that it has seen, by a row that
the first one left. `Known` says that the row is there: no write removes it, and a call that is known
changes nothing. `Used` says that the identifier is taken and `Same` for what: a call that differs
raises, where for `record_receipt` only a contradiction is a difference.
-/

namespace StrixAlloy.TaskStore

open Checked Option Table

/-! ## Known calls -/

/-- The calls that carry an identifier under which they are recognised. -/
def Call.carriesId : Call → Bool
  | accept .. | acceptNewTask .. | cancelPending .. | observe .. | settle .. | recordReceipt ..
  | recordOwnedDispatch .. | observeOwned .. | reconcileUnknown .. => true
  | _ => false

/-- The reference that `record_receipt` works with: its argument, or else that of the receipt. -/
def givenRef (argument : String) (field : Option String) : String :=
  if argument = "" then field.getD "" else argument

/-- The row by which a call is recognised is there. -/
def Known (j : Journal) : Call → Prop
  | .accept _ _ utterance_id _ _ _ _ _ => (j.utterance? utterance_id).isSome
  | .acceptNewTask _ _ utterance_id _ _ _ _ => (j.utterance? utterance_id).isSome
  | .cancelPending _ _ command_id _ _ _ => (j.command? command_id).isSome
  | .observe _ event_id _ _ => (j.inbox? event_id).isSome
  | .settle operation_id _ _ _ | .reconcileUnknown operation_id _ _ _ =>
    ∃ o, j.operation? operation_id = some o ∧ o.dispatch_state = .settled
  | .recordReceipt operation_id request_ref execution_ref receipt =>
    ∃ r o, parseReceipt receipt = .ok r ∧ j.operation? operation_id = some o ∧
      o.Covers (givenRef request_ref r.request_ref) (givenRef execution_ref r.execution_ref) r
  | .recordOwnedDispatch operation_id _ _ => (j.ownedDispatch? operation_id).isSome
  | .observeOwned _ event => ∃ e, parseOwnedEvent event = .ok e ∧ (j.inbox? e.event_id).isSome
  | _ => False

variable {j j' : Journal} {env : Env}

/-- A call that succeeds is known from then on. -/
theorem known_of_run {call : Call} (hcall : call.carriesId = true) (hrun : call.run j env = .ok j') :
    Known j' call := by
  cases call with
  | accept =>
    obtain ⟨_, hrun⟩ := map_snd_eq_ok.1 hrun
    rcases accept_ok hrun with ⟨hknown, rfl⟩ | ⟨-, hknown, -⟩ <;> exact isSome_of_eq_some hknown
  | acceptNewTask =>
    obtain ⟨_, hrun⟩ := map_snd_eq_ok.1 hrun
    rcases acceptNewTask_ok hrun with ⟨hknown, rfl⟩ | ⟨-, hknown, -⟩ <;>
      exact isSome_of_eq_some hknown
  | cancelPending =>
    obtain ⟨_, hrun⟩ := map_snd_eq_ok.1 hrun
    rcases cancelPending_ok hrun with ⟨hknown, rfl⟩ | ⟨-, hknown, -⟩ <;>
      exact isSome_of_eq_some hknown
  | observe =>
    obtain ⟨_, hrun⟩ := map_snd_eq_ok.1 hrun
    rcases observe_ok hrun with ⟨_, hknown, -, -, -, -, rfl⟩ | ⟨-, hknown, -⟩ <;>
      exact isSome_of_eq_some hknown
  | settle =>
    obtain ⟨_, hrun⟩ := map_snd_eq_ok.1 hrun
    obtain ⟨o, ho, ⟨hsettled, rfl, -⟩ | ⟨-, -, hsettled, -⟩⟩ := settle_ok hrun
    · exact ⟨o, ho, hsettled⟩
    · exact hsettled
  | recordReceipt =>
    obtain ⟨row, hrun⟩ := map_snd_eq_ok.1 hrun
    obtain ⟨r, hr, -, hrow, hcovers⟩ := recordReceipt_ok hrun
    exact ⟨r, row, hr, hrow, hcovers⟩
  | recordOwnedDispatch =>
    obtain ⟨_, hrun⟩ := map_snd_eq_ok.1 hrun
    rcases recordOwnedDispatch_ok hrun with ⟨_, hknown, -, -, rfl⟩ | ⟨-, -, hknown⟩ <;>
      exact isSome_of_eq_some hknown
  | observeOwned =>
    obtain ⟨_, hrun⟩ := map_snd_eq_ok.1 hrun
    obtain ⟨e, he, new, j₁, hobserve, hnews⟩ := observeOwned_ok hrun
    have hknown : (j₁.inbox? e.event_id).isSome := by
      rcases observe_ok hobserve with ⟨_, hknown, -, -, -, -, rfl⟩ | ⟨-, hknown, -⟩ <;>
        exact isSome_of_eq_some hknown
    refine ⟨e, he, ?_⟩
    rcases hnews with ⟨-, rfl⟩ | ⟨-, heffect⟩
    · exact hknown
    · cases heffect
      exact hknown
  | reconcileUnknown =>
    obtain ⟨_, hrun⟩ := map_snd_eq_ok.1 hrun
    obtain ⟨o, ho, ⟨hsettled, rfl, -⟩ | ⟨-, -, hsettled⟩⟩ := reconcileUnknown_ok hrun
    · exact ⟨o, ho, hsettled⟩
    · exact hsettled
  | _ => cases hcall

/-- A receipt whose references are recorded changes nothing. -/
theorem recordReceipt_covered {operation_id request_ref execution_ref : String} {receipt : Option Json}
    {row o : OperationRow} {r : Receipt}
    (hrun : recordReceipt j env operation_id request_ref execution_ref receipt = .ok (row, j'))
    (hr : parseReceipt receipt = .ok r) (ho : j.operation? operation_id = some o)
    (hcovers : o.Covers (givenRef request_ref r.request_ref) (givenRef execution_ref r.execution_ref) r) :
    j' = j := by
  simp only [recordReceipt, bind_eq_ok, orThrow_eq_ok, require_eq_ok, boundedIdentifier_eq_ok] at hrun
  obtain ⟨-, -, -, -, -, -, r', hr', -, -, -, -, o', ho', -, -, -, -, -, -, -, -, -, -, hrun⟩ := hrun
  obtain rfl := Except.ok.inj (hr.symm.trans hr')
  cases ho.symm.trans ho'
  obtain ⟨hrequest, hexecution, hmerge⟩ := hcovers
  unfold givenRef at hrequest hexecution
  rw [if_pos] at hrun
  · simp only [pure_eq_ok, Prod.mk.injEq] at hrun
    exact hrun.2.symm
  · rw [hrequest, hexecution, hmerge]

/-- A call that is known changes nothing. -/
theorem Known.unchanged {call : Call} (h : Known j call) (hrun : call.run j env = .ok j') : j' = j := by
  cases call with
  | accept =>
    obtain ⟨_, hrun⟩ := map_snd_eq_ok.1 hrun
    rcases accept_ok hrun with ⟨-, rfl⟩ | ⟨hnone, -⟩
    · rfl
    · exact absurd (isSome_iff_ne_none.1 h) (not_not.2 hnone)
  | acceptNewTask =>
    obtain ⟨_, hrun⟩ := map_snd_eq_ok.1 hrun
    rcases acceptNewTask_ok hrun with ⟨-, rfl⟩ | ⟨hnone, -⟩
    · rfl
    · exact absurd (isSome_iff_ne_none.1 h) (not_not.2 hnone)
  | cancelPending =>
    obtain ⟨_, hrun⟩ := map_snd_eq_ok.1 hrun
    rcases cancelPending_ok hrun with ⟨-, rfl⟩ | ⟨hnone, -⟩
    · rfl
    · exact absurd (isSome_iff_ne_none.1 h) (not_not.2 hnone)
  | observe =>
    obtain ⟨_, hrun⟩ := map_snd_eq_ok.1 hrun
    rcases observe_ok hrun with ⟨_, -, -, -, -, -, rfl⟩ | ⟨hnone, -⟩
    · rfl
    · exact absurd (isSome_iff_ne_none.1 h) (not_not.2 hnone)
  | settle =>
    obtain ⟨_, hrun⟩ := map_snd_eq_ok.1 hrun
    obtain ⟨o, ho, hsettled⟩ := h
    obtain ⟨o', ho', ⟨-, rfl, -⟩ | ⟨hsubmitted, -⟩⟩ := settle_ok hrun
    · rfl
    · cases ho.symm.trans ho'
      rw [hsettled] at hsubmitted
      cases hsubmitted
  | recordReceipt =>
    obtain ⟨_, hrun⟩ := map_snd_eq_ok.1 hrun
    obtain ⟨r, o, hr, ho, hcovers⟩ := h
    exact recordReceipt_covered hrun hr ho hcovers
  | recordOwnedDispatch =>
    obtain ⟨_, hrun⟩ := map_snd_eq_ok.1 hrun
    rcases recordOwnedDispatch_ok hrun with ⟨_, -, -, -, rfl⟩ | ⟨hnone, -⟩
    · rfl
    · exact absurd (isSome_iff_ne_none.1 h) (not_not.2 hnone)
  | observeOwned =>
    obtain ⟨_, hrun⟩ := map_snd_eq_ok.1 hrun
    obtain ⟨e, he, hknown⟩ := h
    obtain ⟨e', he', new, j₁, hobserve, hnews⟩ := observeOwned_ok hrun
    obtain rfl := Except.ok.inj (he.symm.trans he')
    rcases observe_ok hobserve with ⟨_, -, -, -, -, rfl, rfl⟩ | ⟨hnone, -⟩
    · rcases hnews with ⟨-, rfl⟩ | ⟨hnew, -⟩
      · rfl
      · cases hnew
    · exact absurd (isSome_iff_ne_none.1 hknown) (not_not.2 hnone)
  | reconcileUnknown =>
    obtain ⟨_, hrun⟩ := map_snd_eq_ok.1 hrun
    obtain ⟨o, ho, hsettled⟩ := h
    obtain ⟨o', ho', ⟨-, rfl, -⟩ | ⟨hunknown, -⟩⟩ := reconcileUnknown_ok hrun
    · rfl
    · cases ho.symm.trans ho'
      rw [hsettled] at hunknown
      cases hunknown
  | _ => exact absurd h id

/-! ## No write forgets -/

/-- An utterance that was accepted stays accepted. -/
theorem Effect.utterance_isSome {w : Write} (h : Effect w j j') (hj : Keyed j) {id : String}
    (hid : (j.utterance? id).isSome) : (j'.utterance? id).isSome := by
  unfold Journal.utterance? at hid ⊢
  rw [isSome_lookup] at hid ⊢
  obtain ⟨o, ho, rfl⟩ := hid
  obtain ⟨o', ho', hmoves⟩ := h.operation_moves (lookup_of_mem hj.operations ho)
  exact ⟨o', (mem_of_lookup ho').1, congrArg (fun x => x.2.2.1) hmoves.identity⟩

/-- Commands and observations are only added, and an owned dispatch keeps its operation. -/
theorem Effect.rows_kept {w : Write} (h : Effect w j j') : j.commands ⊆ j'.commands ∧ j.inbox ⊆ j'.inbox ∧
      j.owned_dispatches.map OwnedDispatchRow.operation_id ⊆
        j'.owned_dispatches.map OwnedDispatchRow.operation_id := by
  have hsame : j.commands ⊆ j.commands ∧ j.inbox ⊆ j.inbox ∧
      j.owned_dispatches.map OwnedDispatchRow.operation_id ⊆
        j.owned_dispatches.map OwnedDispatchRow.operation_id :=
    ⟨List.Subset.refl _, List.Subset.refl _, List.Subset.refl _⟩
  cases h with
  | cancelled => exact ⟨List.subset_append_left _ _, hsame.2⟩
  | observed => exact ⟨hsame.1, List.subset_append_left _ _, hsame.2.2⟩
  | ownedDispatched =>
    refine ⟨hsame.1, hsame.2.1, ?_⟩
    rw [Journal.insertOwnedDispatch_owned_dispatches, List.map_append]
    exact List.subset_append_left _ _
  | ownedObserved row cursor keeps =>
    refine ⟨hsame.1, hsame.2.1, ?_⟩
    rw [Journal.setOwnedDispatch_owned_dispatches, map_key_update fun b => (keeps b).1]
    exact hsame.2.2
  | settled row task outcome state replies evidence question now id _ _ _ _ _ _ _ _ hq =>
    obtain ⟨questions, rfl⟩ := settleQuestions_frame hq
    exact hsame
  | _ => exact hsame

/-- A call that is known stays known. -/
theorem Effect.known {w : Write} (h : Effect w j j') (hj : Keyed j) {call : Call} (hknown : Known j call) :
    Known j' call := by
  obtain ⟨hcommands, hinbox, howned⟩ := h.rows_kept
  have hcommand : ∀ id, (j.command? id).isSome → (j'.command? id).isSome := by
    intro id hid
    obtain ⟨c, hc, e⟩ := isSome_lookup.1 hid
    exact isSome_lookup.2 ⟨c, hcommands hc, e⟩
  have hobserved : ∀ id, (j.inbox? id).isSome → (j'.inbox? id).isSome := by
    intro id hid
    obtain ⟨r, hr, e⟩ := isSome_lookup.1 hid
    exact isSome_lookup.2 ⟨r, hinbox hr, e⟩
  have hsettled : ∀ id, (∃ o, j.operation? id = some o ∧ o.dispatch_state = .settled) →
      ∃ o, j'.operation? id = some o ∧ o.dispatch_state = .settled := by
    rintro id ⟨o, ho, hstate⟩
    obtain ⟨o', ho', hmoves⟩ := h.operation_moves ho
    refine ⟨o', ho', ?_⟩
    rcases hmoves.state with e | ⟨w', -, hmove⟩
    · rw [e, hstate]
    · have hnext := w'.moves_subset _ hmove
      rw [hstate] at hnext
      cases hnext
  cases call with
  | accept | acceptNewTask => exact h.utterance_isSome hj hknown
  | cancelPending => exact hcommand _ hknown
  | observe => exact hobserved _ hknown
  | settle | reconcileUnknown => exact hsettled _ hknown
  | recordReceipt =>
    obtain ⟨r, o, hr, ho, hcovers⟩ := hknown
    obtain ⟨o', ho', hmoves⟩ := h.operation_moves ho
    exact ⟨r, o', hr, ho', hmoves.covers _ _ _ hcovers⟩
  | recordOwnedDispatch =>
    obtain ⟨b, hb, e⟩ := isSome_lookup.1 hknown
    obtain ⟨b', hb', e'⟩ := List.mem_map.1 (howned (List.mem_map_of_mem hb))
    exact isSome_lookup.2 ⟨b', hb', e'.trans e⟩
  | observeOwned =>
    obtain ⟨e, he, hid⟩ := hknown
    exact ⟨e, he, hobserved _ hid⟩
  | _ => exact absurd hknown id

/-- A call that is known before other calls is known after them. -/
theorem known_run (hj : Keyed j) {call : Call} (h : Known j call) (calls : List (Env × Call)) :
    Known (Runs.run step j calls) call := by
  have hrun : Keyed (Runs.run step j calls) ∧ Known (Runs.run step j calls) call :=
    Runs.run_invariant (P := fun j => Keyed j ∧ Known j call)
      (fun _ next hj => step_of_effect (fun _ _ _ hj hknown h => h.known hj hknown) hj.1 hj.2 next)
      calls ⟨hj, h⟩
  exact hrun.2

/-! ## Identifiers with another content -/

/-- The voice context of a call as the object that is stored. -/
def contextJson : Option Json → Json
  | none => .dict []
  | some context => context

/-- The identifier of the call is taken. -/
def Used (j : Journal) : Call → Prop
  | .accept _ _ utterance_id _ _ _ _ _ | .acceptNewTask _ _ utterance_id _ _ _ _ =>
    (j.utterance? utterance_id).isSome ∨ (j.command? utterance_id).isSome
  | .cancelPending _ _ command_id _ _ _ =>
    (j.command? command_id).isSome ∨ (j.utterance? command_id).isSome
  | .observe _ event_id _ _ => (j.inbox? event_id).isSome
  | .settle operation_id _ _ _ | .reconcileUnknown operation_id _ _ _ =>
    ∃ o, j.operation? operation_id = some o ∧ o.dispatch_state = .settled
  | .recordReceipt operation_id _ _ _ => (j.operation? operation_id).isSome
  | .recordOwnedDispatch operation_id _ _ => (j.ownedDispatch? operation_id).isSome
  | .observeOwned _ event => ∃ e, parseOwnedEvent event = .ok e ∧ (j.inbox? e.event_id).isSome
  | _ => False

/-- What is stored of an utterance is what the call says. -/
def OperationRow.Says (o : OperationRow) (kind text : String) (voice_context : Option Json) : Prop :=
  o.kind.name = kind ∧ o.text = text ∧
    Json.dumps o.voice_context = Json.dumps (contextJson voice_context)

/-- What is stored of a settlement is what the call says. -/
def OperationRow.SettledAs (o : OperationRow) (outcome : String) (replies : List String)
    (evidence : Json) : Prop :=
  o.outcome.map TaskState.name = some outcome ∧
    o.replies.map Json.dumps = some (Json.dumps (repliesJson replies)) ∧
    o.evidence.map Json.dumps = some (Json.dumps evidence)

/-- The references of a call contradict none that is recorded. -/
def OperationRow.Agrees (o : OperationRow) (request_ref execution_ref : String) (receipt : Receipt) :
    Prop :=
  (orText o.request_ref "" = "" ∨ request_ref = "" ∨ o.request_ref = some request_ref) ∧
    (orText o.execution_ref "" = "" ∨ execution_ref = "" ∨ o.execution_ref = some execution_ref) ∧
    (o.receipt.getD .empty).agrees receipt

/-- The identifier of the call is taken for the same content. -/
def Same (j : Journal) : Call → Prop
  | .accept task_id scope_id utterance_id text kind voice_context _ _ =>
    (∃ t, j.task? task_id = some t ∧ t.scope_id = scope_id) ∧ j.command? utterance_id = none ∧
      ∀ o, j.utterance? utterance_id = some o → o.task_id = task_id ∧ o.Says kind text voice_context
  | .acceptNewTask scope agent utterance_id text voice_context _ _ =>
    j.command? utterance_id = none ∧ ∀ o, j.utterance? utterance_id = some o →
      o.Says BusinessKind.newTask.name text voice_context ∧
        ∃ t, j.task? o.task_id = some t ∧ t.scope_id = scope.scope_id ∧
          (t.agent_alias, t.agent_id, t.registry_revision) =
            (agent.agent_alias, agent.agent_id, agent.revision)
  | .cancelPending task_id scope_id command_id text _ _ =>
    j.command? command_id = some ⟨command_id, task_id, scope_id, text⟩
  | .observe operation_id event_id event_type payload =>
    ∃ p, j.inbox? event_id = some p ∧ p.operation_id = operation_id ∧ p.event_type = event_type ∧
      Json.dumps p.payload = Json.dumps payload
  | .settle operation_id replies outcome evidence =>
    ∃ o, j.operation? operation_id = some o ∧ o.SettledAs outcome replies (evidence.getD (.dict []))
  | .recordReceipt operation_id request_ref execution_ref receipt =>
    ∃ r o, parseReceipt receipt = .ok r ∧ j.operation? operation_id = some o ∧
      o.Agrees (givenRef request_ref r.request_ref) (givenRef execution_ref r.execution_ref) r
  | .recordOwnedDispatch operation_id task_ref command =>
    ∃ p, j.ownedDispatch? operation_id = some p ∧ p.task_ref = task_ref ∧
      Json.dumps p.command = Json.dumps command
  | .observeOwned operation_id event =>
    ∃ e p, parseOwnedEvent event = .ok e ∧ j.inbox? e.event_id = some p ∧
      p.operation_id = operation_id ∧ p.event_type = "owned_observation" ∧
        Json.dumps p.payload = Json.dumps event
  | .reconcileUnknown operation_id outcome evidence replies =>
    ∃ o, j.operation? operation_id = some o ∧ o.SettledAs outcome (replies.getD []) evidence
  | _ => True

variable {preconditions : Option Checkpoint}

/-- An acceptance that succeeds has no command's identifier, and an utterance's only with the same
content, and its task is one of the scope. -/
theorem accept_same {task_id scope_id utterance_id text kind : String} {voice_context : Option Json}
    {authority : Option Bool} {row : OperationRow}
    (h : accept j env task_id scope_id utterance_id text kind voice_context preconditions authority = .ok (row, j')) :
    (∃ t, j.task? task_id = some t ∧ t.scope_id = scope_id) ∧ j.command? utterance_id = none ∧
      ∀ o, j.utterance? utterance_id = some o →
      o.task_id = task_id ∧ o.Says kind text voice_context := by
  simp only [accept, bind_eq_ok, orThrow_eq_ok, require_eq_ok, boundedIdentifier_eq_ok, taskRow_eq_ok] at h
  obtain ⟨-, -, kind', hkind, -, -, members, hmembers, -, -, task, htask, -, hcommand, scope, -, -, -, h⟩ := h
  refine ⟨⟨task, htask⟩, hcommand, fun o ho => ?_⟩
  rw [ho] at h
  simp only [bind_eq_ok, require_eq_ok] at h
  obtain ⟨-, ⟨htask, hkind', htext, hcontext⟩, -⟩ := h
  have hname : kind'.name = kind := by simpa using List.find?_some hkind
  have hstored : Json.dict members = contextJson voice_context := by
    unfold voiceContext at hmembers
    split at hmembers
    · obtain rfl := Except.ok.inj hmembers
      rfl
    · simp only [bind_eq_ok, pure_eq_ok] at hmembers
      obtain ⟨-, -, -, -, rfl⟩ := hmembers
      rfl
    · cases hmembers
  exact ⟨htask, hkind' ▸ hname, htext, hstored ▸ hcontext⟩

/-- An acceptance with its task that succeeds has no command's identifier, and an utterance's only with
the same content and for the same agent and scope. -/
theorem acceptNewTask_same {scope : Scope} {agent : Agent} {utterance_id text : String} {voice_context : Option Json}
    {authority : Option Bool} {row : OperationRow}
    (h : acceptNewTask j env scope agent utterance_id text voice_context preconditions authority = .ok (row, j')) :
    Same j (.acceptNewTask scope agent utterance_id text voice_context preconditions authority) := by
  unfold acceptNewTask at h
  split at h
  · next prior hprior =>
    simp only [bind_eq_ok, require_eq_ok, taskRow_eq_ok] at h
    obtain ⟨task, ⟨htask, hscope⟩, -, hagent, h⟩ := h
    obtain ⟨-, hcommand, hcontent⟩ := accept_same h
    refine ⟨hcommand, fun o ho => ⟨(hcontent o ho).2, ?_⟩⟩
    cases hprior.symm.trans ho
    exact ⟨task, htask, hscope, hagent⟩
  · next hnone =>
    simp only [bind_eq_ok] at h
    obtain ⟨-, -, ⟨snapshot, j₁⟩, hcreate, h⟩ := h
    obtain ⟨-, hcommand, -⟩ := accept_same h
    refine ⟨?_, fun o ho => ?_⟩
    · -- the creation of the task keeps every command
      have hkept : ∀ c ∈ j.commands, c ∈ j₁.commands := by
        have hwrites := (createTask_ok hcreate).1
        clear hcreate h hcommand
        induction hwrites with
        | refl => exact fun c hc => hc
        | tail _ heffect ih =>
          obtain ⟨w, -, heffect⟩ := heffect
          exact fun c hc => heffect.rows_kept.1 (ih c hc)
      refine lookup_eq_none.2 fun c hc => ?_
      exact lookup_eq_none.1 hcommand c (hkept c hc)
    · rw [hnone] at ho
      cases ho

/-- A cancellation that succeeds has no utterance's identifier, unless it is a replay. -/
theorem cancelPending_same {task_id scope_id command_id text : String} {authority : Option Bool}
    {snapshot : TaskSnapshot}
    (h : cancelPending j env task_id scope_id command_id text preconditions authority = .ok (snapshot, j')) :
    j.command? command_id = some ⟨command_id, task_id, scope_id, text⟩ ∨
      (j.command? command_id = none ∧ j.utterance? command_id = none) := by
  rcases cancelPending_ok h with ⟨hknown, -⟩ | ⟨hnone, -⟩
  · exact .inl hknown
  · refine .inr ⟨hnone, ?_⟩
    simp only [cancelPending, bind_eq_ok, require_eq_ok] at h
    obtain ⟨-, -, -, -, task, -, h⟩ := h
    rw [hnone] at h
    simp only [bind_eq_ok, require_eq_ok] at h
    obtain ⟨-, -, -, hutterance, -⟩ := h
    exact hutterance

/-- A receipt that is recorded contradicts nothing. -/
theorem recordReceipt_same {operation_id request_ref execution_ref : String} {receipt : Option Json}
    {row : OperationRow} (h : recordReceipt j env operation_id request_ref execution_ref receipt = .ok (row, j')) :
    Same j (.recordReceipt operation_id request_ref execution_ref receipt) := by
  simp only [recordReceipt, bind_eq_ok, orThrow_eq_ok, require_eq_ok, boundedIdentifier_eq_ok] at h
  obtain ⟨-, -, -, -, -, -, r, hr, -, -, -, -, o, ho, -, -, -, hrequest, -, hexecution, -, hagrees, -⟩ := h
  exact ⟨r, o, hr, ho, hrequest, hexecution, hagrees⟩

/-- A call whose identifier is taken succeeds only with the same content. -/
theorem same_of_run {call : Call} (hused : Used j call) (hrun : call.run j env = .ok j') : Same j call := by
  cases call with
  | accept =>
    obtain ⟨_, hrun⟩ := map_snd_eq_ok.1 hrun
    exact accept_same hrun
  | acceptNewTask =>
    obtain ⟨_, hrun⟩ := map_snd_eq_ok.1 hrun
    exact acceptNewTask_same hrun
  | cancelPending =>
    obtain ⟨_, hrun⟩ := map_snd_eq_ok.1 hrun
    rcases cancelPending_same hrun with hsame | ⟨hcommand, hutterance⟩
    · exact hsame
    · rcases hused with h | h
      · rw [hcommand] at h
        cases h
      · rw [hutterance] at h
        cases h
  | observe =>
    obtain ⟨_, hrun⟩ := map_snd_eq_ok.1 hrun
    rcases observe_ok hrun with ⟨p, hp, hop, htype, hpayload, -⟩ | ⟨hnone, -⟩
    · exact ⟨p, hp, hop, htype, hpayload⟩
    · exact absurd (isSome_iff_ne_none.1 hused) (not_not.2 hnone)
  | settle =>
    obtain ⟨_, hrun⟩ := map_snd_eq_ok.1 hrun
    obtain ⟨o, ho, hsettled⟩ := hused
    obtain ⟨o', ho', ⟨-, -, hsame⟩ | ⟨hsubmitted, -⟩⟩ := settle_ok hrun
    · exact ⟨o', ho', hsame⟩
    · cases ho.symm.trans ho'
      rw [hsettled] at hsubmitted
      cases hsubmitted
  | recordReceipt =>
    obtain ⟨_, hrun⟩ := map_snd_eq_ok.1 hrun
    exact recordReceipt_same hrun
  | recordOwnedDispatch =>
    obtain ⟨_, hrun⟩ := map_snd_eq_ok.1 hrun
    rcases recordOwnedDispatch_ok hrun with ⟨p, hp, href, hcommand, -⟩ | ⟨hnone, -⟩
    · exact ⟨p, hp, href, hcommand⟩
    · exact absurd (isSome_iff_ne_none.1 hused) (not_not.2 hnone)
  | observeOwned =>
    obtain ⟨_, hrun⟩ := map_snd_eq_ok.1 hrun
    obtain ⟨e, he, hknown⟩ := hused
    obtain ⟨e', he', new, j₁, hobserve, -⟩ := observeOwned_ok hrun
    obtain rfl := Except.ok.inj (he.symm.trans he')
    rcases observe_ok hobserve with ⟨p, hp, hop, htype, hpayload, -⟩ | ⟨hnone, -⟩
    · exact ⟨e, p, he, hp, hop, htype, hpayload⟩
    · exact absurd (isSome_iff_ne_none.1 hknown) (not_not.2 hnone)
  | reconcileUnknown =>
    obtain ⟨_, hrun⟩ := map_snd_eq_ok.1 hrun
    obtain ⟨o, ho, hsettled⟩ := hused
    obtain ⟨o', ho', ⟨-, -, hsame⟩ | ⟨hunknown, -⟩⟩ := reconcileUnknown_ok hrun
    · exact ⟨o', ho', hsame⟩
    · cases ho.symm.trans ho'
      rw [hsettled] at hunknown
      cases hunknown
  | _ => exact trivial

/-- A call that raises leaves the journal as it was. -/
theorem step_of_error {call : Env × Call} {e : StoreError} (h : call.2.run j call.1 = .error e) : step j call = j := by
  unfold step
  rw [h]

/-- Replays of the journal after any calls: a call that succeeded earlier in the run changes nothing
when it is issued again, and a call whose identifier is taken for another content raises and changes
nothing. -/
theorem replay_safe (pre post : List (Env × Call)) (env env' : Env) (call : Call) :
    (call.carriesId → (∃ j', call.run (reached pre) env = .ok j') →
        step (reached (pre ++ (env, call) :: post)) (env', call) =
          reached (pre ++ (env, call) :: post)) ∧
      (Used (reached pre) call → ¬ Same (reached pre) call →
        (∃ e, call.run (reached pre) env = .error e) ∧
          step (reached pre) (env, call) = reached pre) := by
  refine ⟨fun hcall hfirst => ?_, fun hused hdiffers => ?_⟩
  · obtain ⟨j', hfirst⟩ := hfirst
    have hstep : step (reached pre) (env, call) = j' := step_of_ok hfirst
    have hreached : reached (pre ++ (env, call) :: post) = Runs.run step j' post := by
      unfold reached
      rw [Runs.run_append, Runs.run_cons, ← hstep]
      rfl
    have hkeyed : Keyed j' := hstep ▸ step_keyed (reached_keyed pre) (env, call)
    have hknown := known_run hkeyed (known_of_run hcall hfirst) post
    rw [hreached]
    unfold step
    split
    · next j'' hagain => exact hknown.unchanged hagain
    · rfl
  · cases hrun : call.run (reached pre) env with
    | ok => exact absurd (same_of_run hused hrun) hdiffers
    | error e => exact ⟨⟨e, rfl⟩, step_of_error hrun⟩

/-- A second receipt of an operation may bring a reference that the first did not: the call succeeds
although its content differs. -/
theorem receipt_extended :
    ¬ ∀ pre operation_id request_ref execution_ref request_ref' execution_ref' env env' j₁,
      (Call.recordReceipt operation_id request_ref execution_ref none).run (reached pre) env = .ok j₁ →
        (request_ref, execution_ref) ≠ (request_ref', execution_ref') →
          ∃ e, (Call.recordReceipt operation_id request_ref' execution_ref' none).run j₁ env' =
            .error e := by
  intro h
  let j := reached [Sample.create, Sample.acceptFirst, Sample.dispatchFirst]
  let env := Env.ofList ["e7"] (by decide)
  let env' := Env.ofList ["e8"] (by decide)
  have hruns : (((Call.recordReceipt "o1" "r1" "" none).run j env).toOption.bind fun j₁ =>
      ((Call.recordReceipt "o1" "" "x1" none).run j₁ env').toOption).isSome = true := by
    decide +kernel
  obtain ⟨j₂, hruns⟩ := isSome_iff_exists.1 hruns
  obtain ⟨j₁, hfirst, hsecond⟩ := bind_eq_some_iff.1 hruns
  obtain ⟨e, hrefused⟩ := h _ "o1" "r1" "" "" "x1" env env' j₁ (ok_of_toOption hfirst) (by decide)
  rw [ok_of_toOption hsecond] at hrefused
  cases hrefused

end StrixAlloy.TaskStore

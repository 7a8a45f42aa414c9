import StrixAlloy.TaskStore.Coupling
import StrixAlloy.TaskStore.Events

/-!
# The question of a scope

A row of `scope_questions` repeats facts of its scope and its task (`QuestionRow.Live`). Every write
that changes one of these facts for a task also drops or replaces the question that is bound to it,
and the scope of a question is the scope of its task, so that no other question is concerned.
-/

namespace StrixAlloy.TaskStore

open Checked List Table

/-- The event put the question: it noted the text, or its settlement ends with the text. -/
def EventRow.Asks (e : EventRow) (text : String) : Prop :=
  ∃ members, e.payload = .dict members ∧
    ((e.type = "question_noted" ∧ Json.get? members "text" = some (.str text)) ∨
      (e.type = "operation_settled" ∧ ∃ replies, Json.get? members "replies" = some (.list replies) ∧
        replies.getLast? = some (.str text)))

/-- What a question says is so: its task is a live one of its attached scope, in the version and with
the open question of the row, and an event of the task put that question. -/
structure QuestionRow.Live (q : QuestionRow) (j : Journal) (t : TaskRow) (s : ScopeRow) : Prop where
  task : j.task? q.task_id = some t
  scope : j.scope? q.scope_id = some s
  belongs : t.scope_id = q.scope_id
  attached : s.attached
  live : t.state.closed = false
  open_question : t.open_question = some q.text
  context_version : t.context_version = q.context_version
  event : ∃ e ∈ j.events, e.event_id = q.question_id ∧ e.task_id = q.task_id ∧ e.Asks q.text

/-- Every question of the journal is live. -/
def Asking (j : Journal) : Prop := ∀ q ∈ j.scope_questions, ∃ t s, q.Live j t s

theorem Asking.empty : Asking .empty := by
  intro q hq
  cases hq

/-- A question stays live while its task and scope stay and no event is lost. -/
theorem QuestionRow.Live.frame {q : QuestionRow} {j j' : Journal} {t : TaskRow} {s : ScopeRow}
    (h : q.Live j t s) (htask : j'.task? q.task_id = some t) (hscope : j'.scope? q.scope_id = some s)
    (hevents : j.events ⊆ j'.events) : q.Live j' t s := by
  obtain ⟨e, he, hevent⟩ := h.event
  exact { h with task := htask, scope := hscope, event := ⟨e, hevents he, hevent⟩ }

/-- A task that is updated in other columns than its own identity is read updated. -/
theorem task?_setTask {j : Journal} {id task_id : String} {f : TaskRow → TaskRow}
    (hf : ∀ t, (f t).task_id = t.task_id) :
    (j.setTask task_id f).task? id = (j.task? id).map fun t => if t.task_id = task_id then f t else t :=
  lookup_update hf _ _

/-- The update of the task that is read. -/
theorem task?_setTask_self {j : Journal} {id : String} {f : TaskRow → TaskRow} {t : TaskRow}
    (h : j.task? id = some t) (hf : ∀ t, (f t).task_id = t.task_id) :
    (j.setTask id f).task? id = some (f t) := by
  rw [task?_setTask hf, h, Option.map_some, if_pos (mem_of_lookup h).2]

/-- The update of another task. -/
theorem task?_setTask_of_ne {j : Journal} {id task_id : String} {f : TaskRow → TaskRow}
    (hf : ∀ t, (f t).task_id = t.task_id) (hne : id ≠ task_id) :
    (j.setTask task_id f).task? id = j.task? id := by
  rw [task?_setTask hf]
  cases h : j.task? id with
  | none => rfl
  | some =>
    have hid := (mem_of_lookup h).2
    simp [hid, hne]

/-- A question that does not concern a task stays live when that task is updated. -/
theorem QuestionRow.Live.setTask {q : QuestionRow} {j j' : Journal} {t : TaskRow} {s : ScopeRow}
    {task_id : String} {f : TaskRow → TaskRow} (h : q.Live j t s) (hne : q.task_id ≠ task_id)
    (htasks : j'.tasks = (j.setTask task_id f).tasks) (hscopes : j'.scopes = j.scopes)
    (hevents : j.events ⊆ j'.events)
    (hf : ∀ t, (f t).task_id = t.task_id) : q.Live j' t s := by
  refine h.frame ?_ ?_ hevents
  · have htask := task?_setTask_of_ne (j := j) hf hne
    rw [h.task] at htask
    unfold Journal.task? at htask ⊢
    rw [htasks, htask]
  · rw [← h.scope]
    unfold Journal.scope?
    rw [hscopes]

/-- A question that outlives the removal of a task's question concerns another task: the scope of a
question is the scope of its task. -/
theorem QuestionRow.Live.task_ne {q : QuestionRow} {j : Journal} {t task : TaskRow} {s : ScopeRow}
    (h : q.Live j t s) (hfound : j.task? task.task_id = some task)
    (hkept : ¬ (q.scope_id = task.scope_id ∧ q.task_id = task.task_id)) :
    q.task_id ≠ task.task_id := by
  intro e
  have htask := h.task
  rw [e, hfound] at htask
  cases htask
  exact hkept ⟨h.belongs.symm, e⟩

/-- The questions of other scopes concern other tasks. -/
theorem QuestionRow.Live.task_ne_of_scope {q : QuestionRow} {j : Journal} {t task : TaskRow}
    {s : ScopeRow} (h : q.Live j t s) (hfound : j.task? task.task_id = some task)
    (hscope : q.scope_id ≠ task.scope_id) : q.task_id ≠ task.task_id :=
  h.task_ne hfound fun hboth => hscope hboth.1

/-- The open question of a settlement that is not the bound one is the last reply. -/
theorem settledQuestion_eq_getLast {row : OperationRow} {task : TaskRow} {outcome : TaskState}
    {replies : List String} {binding : Option QuestionRow} {text : String}
    (h : settledQuestion row task outcome replies binding = some text)
    (hbinding : binding.filter (fun b => b.text = text) = none) : replies.getLast? = some text := by
  have hlast : (if outcome = .awaitingInput then replies.getLast? else none) = some text →
      replies.getLast? = some text := by
    split_ifs
    · exact id
    · exact fun h => by cases h
  unfold settledQuestion at h
  cases binding with
  | none => exact hlast h
  | some =>
    dsimp only at h
    split_ifs at h
    · simp [Option.some.inj h] at hbinding
    · exact hlast (by rwa [if_pos ‹_›])

/-- The writes of a settlement keep the questions live. -/
theorem asking_settled {j j' : Journal} {row : OperationRow} {task : TaskRow}
    {outcome state : TaskState} {replies : List String} {evidence : Json} {question : Option String}
    {now settlement_id : String} (hj : Sound j) (hq : Asking j)
    (hrow : j.operation? row.operation_id = some row) (htask : j.task? row.task_id = some task)
    (hstate : state = if task.state = .cancelRequested ∧ outcome = .awaitingInput then
      .cancelRequested else outcome)
    (hquestion : question = settledQuestion row task outcome replies (j.question? task.scope_id))
    (h : settleQuestions
      ((j.setOperation row.operation_id fun o =>
        { o with
          dispatch_state := .settled
          replies := some (repliesJson replies)
          evidence := some evidence
          outcome := some outcome
          settled_at := some now }).setTask row.task_id fun t =>
        { t with
          state := state
          open_question := question
          result_version := t.result_version + 1
          updated_at := now })
      row task outcome state question (j.question? task.scope_id) settlement_id = .ok j') :
    Asking (j'.log settlement_id row.task_id (some row.operation_id) "operation_settled"
      row.context_version
      (.dict [("outcome", .str outcome.name), ("replies", repliesJson replies),
        ("evidence", Json.sortKeys evidence)]) .store) := by
  have hid := (mem_of_lookup htask).2
  have hevents : ∀ e, j.events ⊆ j.events ++ [e] := fun e => subset_append_left _ _
  -- what the task is afterwards
  have hself : ∀ {j₂ : Journal}, j₂.tasks = (j.setTask row.task_id fun t =>
      { t with
        state := state
        open_question := question
        result_version := t.result_version + 1
        updated_at := now }).tasks →
      j₂.task? row.task_id = some { task with
        state := state
        open_question := question
        result_version := task.result_version + 1
        updated_at := now } := by
    intro j₂ htasks
    have hset := task?_setTask_self (f := fun t =>
      { t with
        state := state
        open_question := question
        result_version := t.result_version + 1
        updated_at := now }) htask fun _ => rfl
    unfold Journal.task? at hset ⊢
    rw [htasks, hset]
  rcases settleQuestions_ok h with ⟨-, rfl⟩ |
    ⟨hawaits, hstate', hcurrent, ⟨scope, hscope, hattached⟩, hbinding, hput⟩ |
    ⟨hawaits, rfl, hkept⟩
  · intro q hmem
    obtain ⟨hmem, hkept⟩ := mem_filter.1 hmem
    obtain ⟨t, s, hlive⟩ := hq q hmem
    exact ⟨t, s, hlive.setTask (by simpa using hkept) rfl rfl (hevents _) fun _ => rfl⟩
  · rcases hput with ⟨text, hne, htext, rfl⟩ | ⟨-, rfl⟩
    · intro q hmem
      rcases mem_append.1 hmem with hmem | hmem
      · obtain ⟨hmem, hkept⟩ := mem_filter.1 hmem
        obtain ⟨t, s, hlive⟩ := hq q hmem
        have hne := hlive.task_ne_of_scope (hid.symm ▸ htask) (by simpa using hkept)
        exact ⟨t, s, hlive.setTask (hid ▸ hne) rfl rfl (hevents _) fun _ => rfl⟩
      · obtain rfl := mem_singleton.1 hmem
        refine ⟨_, scope, hself rfl, hscope, rfl, hattached, ?_, htext, hcurrent.symm, ?_⟩
        · rw [hstate']
          rfl
        · cases hb : (j.question? task.scope_id).filter fun b => b.text = text with
          | some b =>
            -- the question was bound already, and the event that put it stays
            obtain ⟨hb, htext'⟩ := Option.filter_eq_some_iff.1 hb
            obtain ⟨t, s, hlive⟩ := hq b (mem_of_lookup hb).1
            obtain ⟨e, he, heid, hetask, hasks⟩ := hlive.event
            refine ⟨e, mem_append_left _ he, heid, hetask.trans (hbinding b hb), ?_⟩
            rwa [of_decide_eq_true htext'] at hasks
          | none =>
            have hlast := settledQuestion_eq_getLast (hquestion.symm.trans htext) hb
            refine ⟨_, mem_append_right _ (mem_singleton_self _), rfl, rfl, _, rfl,
              .inr ⟨rfl, _, rfl, ?_⟩⟩
            rw [List.getLast?_map, hlast, Option.map_some]
    · intro q hmem
      obtain ⟨hmem, hkept⟩ := mem_filter.1 hmem
      obtain ⟨t, s, hlive⟩ := hq q hmem
      exact ⟨t, s, hlive.setTask (by simpa using hkept) rfl rfl (hevents _) fun _ => rfl⟩
  · intro q hmem
    obtain ⟨t, s, hlive⟩ := hq q hmem
    by_cases hne : q.task_id = row.task_id
    · -- the settlement is of an older version than the question, which stays
      have ht : t = task := by
        have := hlive.task
        rw [hne, htask] at this
        exact (Option.some.inj this).symm
      subst ht
      have hbound : j.question? t.scope_id = some q := by
        rw [hlive.belongs]
        exact lookup_of_mem hj.keyed.questions hmem
      have hawaiting : state = .awaitingInput := by
        rw [hstate, if_neg, hawaits]
        rintro ⟨hrequested, -⟩
        have := hlive.live
        rw [hrequested] at this
        cases this
      have hle := (hj.coupled.tasks t (mem_of_lookup htask).1).bounded row
        (mem_of_lookup hrow).1 hid.symm
      have hlt : q.context_version > row.context_version := by
        rw [← hlive.context_version]
        refine lt_of_le_of_ne hle fun e => hkept ⟨hawaiting, e, ⟨s, ?_, hlive.attached⟩, ?_⟩
        · exact hlive.belongs ▸ hlive.scope
        · rintro b hb
          cases hbound.symm.trans hb
          exact hne
      obtain ⟨e, he, hevent⟩ := hlive.event
      refine ⟨{ t with
        state := state
        open_question := question
        result_version := t.result_version + 1
        updated_at := now }, s, ?_, hlive.scope, hlive.belongs, hlive.attached, ?_, ?_,
        hlive.context_version, e, hevents _ he, hevent⟩
      · rw [hne]
        exact hself rfl
      · rw [hawaiting]
        rfl
      · rw [hquestion, hbound, settledQuestion]
        exact if_pos ⟨hawaits, hne, .inl hlt⟩
    · exact ⟨t, s, hlive.setTask hne rfl rfl (hevents _) fun _ => rfl⟩

/-- Every write keeps the questions live. -/
theorem Effect.asking {w : Write} {j j' : Journal} (h : Effect w j j') (hj : Sound j)
    (hq : Asking j) : Asking j' := by
  have hevents : ∀ e, j.events ⊆ j.events ++ [e] := fun e => subset_append_left _ _
  cases h with
  | scopeAdded =>
    intro q hmem
    obtain ⟨t, s, hlive⟩ := hq q hmem
    refine ⟨t, s, hlive.frame hlive.task ?_ (List.Subset.refl _)⟩
    have hscope := hlive.scope
    unfold Journal.scope? at hscope ⊢
    simp [hscope]
  | created scope =>
    intro q hmem
    obtain ⟨t, s, hlive⟩ := hq q hmem
    refine ⟨t, s, hlive.frame ?_ hlive.scope (hevents _)⟩
    have htask := hlive.task
    unfold Journal.task? at htask ⊢
    simp [htask]
  | observed | receipted =>
    intro q hmem
    obtain ⟨t, s, hlive⟩ := hq q hmem
    exact ⟨t, s, hlive.frame hlive.task hlive.scope (hevents _)⟩
  | ownedDispatched | ownedObserved =>
    intro q hmem
    obtain ⟨t, s, hlive⟩ := hq q hmem
    exact ⟨t, s, hlive.frame hlive.task hlive.scope (List.Subset.refl _)⟩
  | accepted task scope operation_id utterance_id text now event_id kind context payload answered
      found =>
    intro q hmem
    obtain ⟨hmem, hkept⟩ := mem_filter.1 hmem
    obtain ⟨t, s, hlive⟩ := hq q hmem
    have hne := hlive.task_ne found fun hboth => by simp [hboth] at hkept
    -- the two updates of the task, one after the other
    have hfirst : q.Live (j.setTask task.task_id fun t =>
        { t with context_version := task.context_version + 1, updated_at := now }) t s :=
      hlive.setTask hne rfl rfl (List.Subset.refl _) fun _ => rfl
    exact ⟨t, s, hfirst.setTask hne rfl rfl (hevents _) fun _ => rfl⟩
  | noted task scope text question_id source found known attached live =>
    intro q hmem
    rcases mem_append.1 hmem with hmem | hmem
    · obtain ⟨hmem, hkept⟩ := mem_filter.1 hmem
      obtain ⟨t, s, hlive⟩ := hq q hmem
      have hne := hlive.task_ne_of_scope found (by simpa using hkept)
      exact ⟨t, s, hlive.setTask hne rfl rfl (hevents _) fun _ => rfl⟩
    · obtain rfl := mem_singleton.1 hmem
      refine ⟨{ task with open_question := some text }, scope, ?_, known, rfl, attached, live, rfl, rfl,
        _, mem_append_right _ (mem_singleton_self _), rfl, rfl, _, rfl, .inl ⟨rfl, rfl⟩⟩
      unfold Journal.task? at found ⊢
      simp [found]
  | cancelled task scope command_id text now event_id payload found =>
    intro q hmem
    obtain ⟨hmem, hkept⟩ := mem_filter.1 hmem
    obtain ⟨t, s, hlive⟩ := hq q hmem
    have hne := hlive.task_ne found fun hboth => by simp [hboth] at hkept
    exact ⟨t, s, hlive.setTask hne rfl rfl (hevents _) fun _ => rfl⟩
  | dispatched row task scope now =>
    intro q hmem
    obtain ⟨t, s, hlive⟩ := hq q hmem
    by_cases hne : q.task_id = row.task_id
    · -- the task of the question starts to run, which is a live state
      refine ⟨{ t with state := .running, updated_at := now }, s, ?_, hlive.scope, hlive.belongs,
        hlive.attached, rfl, hlive.open_question, hlive.context_version, ?_⟩
      · have ht := hlive.task
        rw [hne] at ht ⊢
        exact task?_setTask_self ht fun _ => rfl
      · obtain ⟨e, he, hevent⟩ := hlive.event
        exact ⟨e, hevents _ he, hevent⟩
    · exact ⟨t, s, hlive.setTask hne rfl rfl (hevents _) fun _ => rfl⟩
  | settled row task outcome state replies evidence question now id hrow htask _ _ _ hstate hquestion
      _ hsettle =>
    exact asking_settled hj hq hrow htask hstate hquestion hsettle
  | reconciled row | markedUnknown row =>
    intro q hmem
    obtain ⟨hmem, hkept⟩ := mem_filter.1 hmem
    obtain ⟨t, s, hlive⟩ := hq q hmem
    exact ⟨t, s, hlive.setTask (by simpa using hkept) rfl rfl (hevents _) fun _ => rfl⟩
  | detached scope_id =>
    intro q hmem
    obtain ⟨hmem, hkept⟩ := mem_filter.1 hmem
    obtain ⟨t, s, hlive⟩ := hq q hmem
    refine ⟨t, s, hlive.frame hlive.task ?_ (List.Subset.refl _)⟩
    have hscope := hlive.scope
    have hid := (mem_of_lookup hscope).2
    have hne : q.scope_id ≠ scope_id := by simpa using hkept
    unfold Journal.scope? at hscope ⊢
    simp [hscope, hid, hne]

/-- Every journal that is reached is sound, and its questions are live. -/
theorem reached_asking (calls : List (Env × Call)) :
    Sound (reached calls) ∧ Asking (reached calls) :=
  (reached_of_effect (P := fun j => Sound j ∧ Asking j)
    (fun _ _ _ _ hj h => ⟨h.sound hj.1, h.asking hj.1 hj.2⟩) ⟨.empty, .empty⟩ calls).2

/-! ## Answers -/

/-- The event is the acceptance of an utterance that answers the question. -/
def EventRow.Answers (e : EventRow) (q : QuestionRow) : Prop :=
  e.type = "utterance_accepted" ∧ ∃ members, e.payload = .dict members ∧
    Json.get? members "answered_question" = some (answeredJson (some q))

/-- The record of an answer determines the question. -/
theorem answeredJson_eq {answered : Option QuestionRow} {q : QuestionRow}
    (h : answeredJson answered = answeredJson (some q)) : answered = some q := by
  cases answered with
  | none => cases h
  | some p =>
    obtain ⟨s, t, text, source, version, id⟩ := p
    obtain ⟨s', t', text', source', version', id'⟩ := q
    simp only [answeredJson, Json.dict.injEq, List.cons.injEq, Prod.mk.injEq, Json.str.injEq,
      Json.int.injEq, true_and, and_true, Nat.cast_inj] at h
    obtain ⟨rfl, rfl, rfl, hsource, rfl, rfl⟩ := h
    have : source = source' := by
      cases source <;> cases source' <;> first | rfl | exact absurd hsource (by decide)
    rw [this]

/-- An acceptance answers the question that is bound to its task in the version before it. -/
theorem Effect.answers {j j' : Journal} (h : Effect .accepted j j') {e : EventRow} {q : QuestionRow}
    (hnew : e ∉ j.events) (he : e ∈ j'.events) (hq : e.Answers q) :
    q ∈ j.scope_questions ∧ e.task_id = q.task_id ∧ e.context_version = q.context_version + 1 := by
  cases h with
  | accepted task scope operation_id utterance_id text now event_id kind context payload answered
      _ _ _ _ _ _ _ _ _ answers =>
    obtain rfl := mem_singleton.1 ((mem_append.1 he).resolve_left hnew)
    obtain ⟨-, members, hpayload, hanswered⟩ := hq
    obtain rfl := Json.dict.inj hpayload
    have hsome : answered = some q := answeredJson_eq (Option.some.inj hanswered)
    rw [hsome, eq_comm, Option.filter_eq_some_iff] at answers
    obtain ⟨hlive, hcond⟩ := answers
    obtain ⟨htask, hversion⟩ := of_decide_eq_true hcond
    exact ⟨(mem_of_lookup (Option.filter_eq_some_iff.1 hlive).1).1, htask.symm,
      congrArg (· + 1) hversion.symm⟩

/-- The answer that a call records is to a question of the journal before it. -/
theorem step_answers {j : Journal} (hj : Keyed j) {call : Env × Call} {e : EventRow} {q : QuestionRow}
    (hnew : e ∉ j.events) (he : e ∈ (step j call).events) (hq : e.Answers q) :
    q ∈ j.scope_questions ∧ e.task_id = q.task_id ∧ e.context_version = q.context_version + 1 := by
  have htype := hq.1
  rcases step_event_cases hj hnew he with hwrote | howned | ⟨hfree, -⟩
  swap
  · exact absurd (htype.symm.trans howned) (by decide)
  swap
  · exact absurd (by rw [htype]; decide) hfree
  rw [htype] at hwrote
  unfold step at he
  split at he
  swap
  · exact absurd he hnew
  next j' hrun =>
  obtain ⟨env, call⟩ := call
  cases call with
  | accept =>
    obtain ⟨_, haccept⟩ := map_snd_eq_ok.1 hrun
    rcases accept_ok haccept with ⟨-, rfl⟩ | ⟨-, -, heffect, -⟩
    · exact absurd he hnew
    · exact heffect.answers hnew he hq
  | acceptNewTask =>
    obtain ⟨_, haccept⟩ := map_snd_eq_ok.1 hrun
    rcases acceptNewTask_ok haccept with ⟨-, rfl⟩ | ⟨-, -, -, -, j₁, snapshot, hcreate, heffect⟩
    · exact absurd he hnew
    · obtain ⟨hwrites, -, hquestions, -⟩ := createTask_ok hcreate
      obtain ⟨es, hes, htypes⟩ := hwrites.events
      rw [← hquestions]
      refine heffect.answers (fun he₁ => ?_) he hq
      rw [hes] at he₁
      have hcreated := htypes (by decide) e ((mem_append.1 he₁).resolve_left hnew)
      rw [htype] at hcreated
      exact absurd hcreated (by decide)
  | _ => exact absurd hwrote (by simp [Call.eventTypes, Call.writes, Write.eventType?])

/-- The question of a scope in the journal after any calls: what its row says is so, and the answer
that the next call records is to such a question, in the version that the question was put in. -/
theorem question_binding_live (calls : List (Env × Call)) :
    let j := reached calls
    (∀ q ∈ j.scope_questions, ∃ t s, j.task? q.task_id = some t ∧ j.scope? q.scope_id = some s ∧
      t.scope_id = q.scope_id ∧ s.attached ∧
      t.state ∈ [.queued, .running, .awaitingInput] ∧ t.open_question = some q.text ∧
      t.context_version = q.context_version ∧
      ∃ e ∈ j.events, e.event_id = q.question_id ∧ e.task_id = q.task_id ∧ e.Asks q.text) ∧
    ∀ call, ∀ e ∈ (step j call).events, e ∉ j.events → ∀ q, e.Answers q →
      ∃ t s, j.task? e.task_id = some t ∧ j.scope? t.scope_id = some s ∧ s.attached ∧
        t.state ∈ [.queued, .running, .awaitingInput] ∧ t.open_question = some q.text ∧
        t.context_version = q.context_version ∧ e.context_version = q.context_version + 1 := by
  intro j
  obtain ⟨hj, hq⟩ := reached_asking calls
  have hasks : ∀ state : TaskState, state.closed = false →
      state ∈ [TaskState.queued, .running, .awaitingInput] := by
    intro state
    cases state <;> decide
  refine ⟨fun q hmem => ?_, fun call e he hnew q hanswers => ?_⟩
  · obtain ⟨t, s, hlive⟩ := hq q hmem
    exact ⟨t, s, hlive.task, hlive.scope, hlive.belongs, hlive.attached, hasks _ hlive.live,
      hlive.open_question, hlive.context_version, hlive.event⟩
  · obtain ⟨hmem, htask, hversion⟩ := step_answers hj.keyed hnew he hanswers
    obtain ⟨t, s, hlive⟩ := hq q hmem
    exact ⟨t, s, htask ▸ hlive.task, hlive.belongs ▸ hlive.scope, hlive.attached, hasks _ hlive.live,
      hlive.open_question, hlive.context_version, hversion⟩

end StrixAlloy.TaskStore

import StrixAlloy.TaskStore.Operations

/-!
# The routing fence

A caller reads a checkpoint of its scope, decides, and has its decision committed only if the
checkpoint is still the same. The level of a scope is a part of the checkpoint that no write lowers:
for each task the version of its context and whether it is closed, and whether the scope is detached.
Whatever raises the level can therefore not hide between two equal checkpoints.
-/

namespace StrixAlloy.TaskStore

open Checked List Table

/-! ## The level of a scope -/

/-- For each task the version of its context with whether it is closed, and whether the scope is
detached, where what is absent is lowest. -/
abbrev Level : Type := (String → WithBot (ℕ × Bool)) × WithBot Bool

/-- The level of a scope in a journal. -/
def Journal.level (j : Journal) (scope_id : String) : Level where
  fst task_id := ((j.task? task_id).filter fun t => t.scope_id = scope_id).elim ⊥ fun t =>
    WithBot.some (t.context_version, t.state.closed)
  snd := (j.scope? scope_id).elim ⊥ fun s => WithBot.some !s.attached

/-- The level that a checkpoint shows. -/
def Checkpoint.level (c : Checkpoint) : Level where
  fst task_id := (Table.lookup TaskMark.task_id c.tasks task_id).elim ⊥ fun m =>
    WithBot.some (m.context_version, m.closed)
  snd := c.scope.elim ⊥ fun s => WithBot.some !s.attached

variable {j j' : Journal}

/-- A checkpoint shows the level of its scope. -/
theorem level_checkpoint (hj : Keyed j) (scope_id : String) :
    (checkpoint j scope_id).level = j.level scope_id := by
  refine Prod.ext (funext fun task_id => ?_) rfl
  have hperm := perm_insertionSort (fun a b : TaskRow => a.created_at < b.created_at ∨
    (a.created_at = b.created_at ∧ a.task_id ≤ b.task_id)) (j.tasks.filter fun t => t.scope_id = scope_id)
  have hlookup : Table.lookup TaskRow.task_id (j.listTasks scope_id) task_id =
      (j.task? task_id).filter fun t => t.scope_id = scope_id := by
    rw [Journal.listTasks, lookup_perm (hj.tasks.filter _) hperm, lookup_filter hj.tasks]
    rfl
  have hmarks : Table.lookup TaskMark.task_id ((j.listTasks scope_id).map (taskMark j)) task_id =
      (Table.lookup TaskRow.task_id (j.listTasks scope_id) task_id).map (taskMark j) :=
    lookup_map (fun _ => rfl) _ _
  unfold Checkpoint.level Journal.level checkpoint
  dsimp only
  rw [hmarks, hlookup]
  cases (j.task? task_id).filter fun t => t.scope_id = scope_id <;> rfl

/-! ## No write lowers the level -/

/-- How a write may change a task. -/
structure TaskRow.Advances (t t' : TaskRow) : Prop where
  scope_id : t'.scope_id = t.scope_id
  version : t.context_version ≤ t'.context_version
  /-- A closed task stays closed. -/
  closed : t.state.closed → t'.state.closed

/-- A task that a write does not concern. -/
theorem TaskRow.Advances.refl (t : TaskRow) : t.Advances t := ⟨rfl, le_rfl, id⟩

variable {t t' : TaskRow}

/-- Two changes are one. -/
theorem TaskRow.Advances.trans {t'' : TaskRow} (h : t.Advances t') (h' : t'.Advances t'') : t.Advances t'' :=
  ⟨h'.scope_id.trans h.scope_id, h.version.trans h'.version, fun hc => h'.closed (h.closed hc)⟩

variable {id scope_id task_id : String}

/-- The update of one task. -/
theorem advances_of_setTask {f : TaskRow → TaskRow} (htasks : j'.tasks = (j.setTask task_id f).tasks)
    (hf : ∀ t, j.task? task_id = some t → t.Advances (f t)) (ht : j.task? id = some t)
    (hid : ∀ t, (f t).task_id = t.task_id) : ∃ t', j'.task? id = some t' ∧ t.Advances t' := by
  have hkey := (mem_of_lookup ht).2
  have hread := ht
  unfold Journal.task? at ht ⊢
  rw [htasks, Journal.setTask_tasks, lookup_update hid, ht]
  refine ⟨_, rfl, ?_⟩
  dsimp only
  split_ifs with hp
  · rw [← hkey, hp] at hread
    exact hf t hread
  · exact .refl t

/-- The update of a task that was read. -/
theorem advances_of_found {f : TaskRow → TaskRow} {task : TaskRow} (htasks : j'.tasks = (j.setTask task_id f).tasks)
    (found : j.task? task_id = some task) (hf : task.Advances (f task)) (ht : j.task? id = some t)
    (hid : ∀ t, (f t).task_id = t.task_id) : ∃ t', j'.task? id = some t' ∧ t.Advances t' := by
  refine advances_of_setTask htasks (fun t ht => ?_) ht hid
  rw [found] at ht
  cases ht
  exact hf

/-- Every write changes a task by an advance. -/
theorem Effect.task_advances {w : Write} (h : Effect w j j') (ht : j.task? id = some t) :
    ∃ t', j'.task? id = some t' ∧ t.Advances t' := by
  cases h with
  | scopeAdded | observed | receipted | ownedDispatched | ownedObserved | detached =>
    exact ⟨t, ht, .refl t⟩
  | created =>
    refine ⟨t, ?_, .refl t⟩
    unfold Journal.task? at ht ⊢
    simp [ht]
  | accepted task scope operation_id utterance_id text now event_id kind context payload answered
      found =>
    -- the version is raised first, and the question is cleared in a second update
    let raise : TaskRow → TaskRow := fun t =>
      { t with context_version := task.context_version + 1, updated_at := now }
    obtain ⟨t₁, ht₁, hadvances₁⟩ : ∃ t₁, (j.setTask task.task_id raise).task? id = some t₁ ∧
        t.Advances t₁ := advances_of_found rfl found ⟨rfl, Nat.le_succ _, fun hc => hc⟩ ht
          fun _ => rfl
    obtain ⟨t₂, ht₂, hadvances₂⟩ : ∃ t₂, ((j.setTask task.task_id raise).setTask task.task_id
        fun t => { t with open_question := none }).task? id = some t₂ ∧ t₁.Advances t₂ :=
      advances_of_setTask rfl (fun t _ => ⟨rfl, le_rfl, fun hc => hc⟩) ht₁ fun _ => rfl
    exact ⟨t₂, ht₂, hadvances₁.trans hadvances₂⟩
  | noted task scope text question_id source found =>
    exact advances_of_found rfl found ⟨rfl, le_rfl, fun hc => hc⟩ ht fun _ => rfl
  | cancelled task scope command_id text now event_id payload found =>
    refine advances_of_found rfl found ?_ ht fun _ => rfl
    refine ⟨rfl, Nat.le_succ _, fun _ => ?_⟩
    unfold cancelledState
    split_ifs <;> rfl
  | dispatched row task scope now event_id payload _ found _ _ _ live =>
    refine advances_of_found rfl found ?_ ht fun _ => rfl
    refine ⟨rfl, le_rfl, fun hc => ?_⟩
    rw [live] at hc
    cases hc
  | settled row task outcome state replies evidence question now id _ found _ live outs stateEq _ _ hq =>
    obtain ⟨questions, rfl⟩ := settleQuestions_frame hq
    refine advances_of_found rfl found ?_ ht fun _ => rfl
    refine ⟨rfl, le_rfl, fun hc => ?_⟩
    -- a closed task that is not terminal has its cancellation requested
    have hrequested : task.state = .cancelRequested := by
      revert hc live
      cases task.state <;> decide
    rw [stateEq, hrequested]
    rcases outs with rfl | rfl | rfl <;> rfl
  | reconciled row outcome evidence replies now event_id payload _ _ outs =>
    refine advances_of_setTask rfl (fun t _ => ⟨rfl, le_rfl, fun _ => ?_⟩) ht fun _ => rfl
    rcases outs with rfl | rfl | rfl <;> rfl
  | markedUnknown =>
    exact advances_of_setTask rfl (fun t _ => ⟨rfl, le_rfl, fun _ => rfl⟩) ht fun _ => rfl

/-- Every write keeps a scope, and attaches none that was detached. -/
theorem Effect.scope_advances {w : Write} (h : Effect w j j') {s : ScopeRow} (hs : j.scope? id = some s) :
    ∃ s', j'.scope? id = some s' ∧ (s'.attached → s.attached) := by
  cases h with
  | scopeAdded =>
    refine ⟨s, ?_, fun h => h⟩
    unfold Journal.scope? at hs ⊢
    simp [hs]
  | settled row task outcome state replies evidence question now id _ _ _ _ _ _ _ _ hq =>
    obtain ⟨questions, rfl⟩ := settleQuestions_frame hq
    exact ⟨s, hs, fun h => h⟩
  | detached scope_id =>
    unfold Journal.scope? at hs ⊢
    refine ⟨if s.scope_id = scope_id then { s with attached := false } else s, ?_, ?_⟩
    · simp [hs]
    · split_ifs
      · exact fun h => by cases h
      · exact fun h => h
  | _ => exact ⟨s, hs, fun h => h⟩

/-- No write lowers the level of a scope. -/
theorem Effect.level_le {w : Write} (h : Effect w j j') (scope_id : String) :
    j.level scope_id ≤ j'.level scope_id := by
  refine Prod.le_def.2 ⟨fun task_id => ?_, ?_⟩
  · unfold Journal.level
    dsimp only
    cases ht : (j.task? task_id).filter fun t => t.scope_id = scope_id with
    | none => exact bot_le
    | some =>
      obtain ⟨hread, hscope⟩ := Option.filter_eq_some_iff.1 ht
      obtain ⟨t', hread', hadvances⟩ := h.task_advances hread
      have hscope' : decide (t'.scope_id = scope_id) = true := by
        rw [hadvances.scope_id]
        exact hscope
      rw [hread', Option.filter_some, if_pos hscope']
      exact WithBot.coe_le_coe.2 (Prod.mk_le_mk.2 ⟨hadvances.version, hadvances.closed⟩)
  · unfold Journal.level
    cases hs : j.scope? scope_id with
    | none => exact bot_le
    | some s =>
      obtain ⟨s', hs', hattached⟩ := h.scope_advances hs
      rw [hs']
      refine WithBot.coe_le_coe.2 ?_
      revert hattached
      cases s.attached <;> cases s'.attached <;> decide

/-- No call lowers the level of a scope. -/
theorem step_level_le (hj : Keyed j) (scope_id : String) (call : Env × Call) :
    j.level scope_id ≤ (step j call).level scope_id :=
  (step_of_effect (P := fun j' => j.level scope_id ≤ j'.level scope_id)
    (fun _ _ _ _ hle h => hle.trans (h.level_le scope_id)) hj le_rfl call).2

/-! ## Changes raise the level -/

/-- A call in the journal `j` that changes what a scope's decisions rest on: an acceptance or a
cancellation that is not a replay, a new task, the detachment of an attached scope, and whatever
closes one of its tasks. -/
inductive Changes (scope_id : String) (j : Journal) : Env × Call → Prop
  | accept {env : Env} {task_id utterance_id text kind : String} {voice_context : Option Json}
      {preconditions : Option Checkpoint} {authority : Option Bool} {j' : Journal}
      (new : j.utterance? utterance_id = none)
      (run : (Call.accept task_id scope_id utterance_id text kind voice_context preconditions
        authority).run j env = .ok j') :
      Changes scope_id j (env, .accept task_id scope_id utterance_id text kind voice_context
        preconditions authority)
  | acceptNewTask {env : Env} {scope : Scope} {agent : Agent} {utterance_id text : String}
      {voice_context : Option Json} {preconditions : Option Checkpoint} {authority : Option Bool}
      {j' : Journal} (bound : scope.scope_id = scope_id) (new : j.utterance? utterance_id = none)
      (run : (Call.acceptNewTask scope agent utterance_id text voice_context preconditions
        authority).run j env = .ok j') :
      Changes scope_id j (env, .acceptNewTask scope agent utterance_id text voice_context
        preconditions authority)
  | cancelPending {env : Env} {task_id command_id text : String} {preconditions : Option Checkpoint}
      {authority : Option Bool} {j' : Journal} (new : j.command? command_id = none)
      (run : (Call.cancelPending task_id scope_id command_id text preconditions authority).run j env =
        .ok j') :
      Changes scope_id j (env, .cancelPending task_id scope_id command_id text preconditions authority)
  | createTask {env : Env} {scope : Scope} {agent : Agent} {objective : String}
      {task_id : Option String} {j' : Journal} (bound : scope.scope_id = scope_id)
      (run : (Call.createTask scope agent objective task_id).run j env = .ok j') :
      Changes scope_id j (env, .createTask scope agent objective task_id)
  | detachScope {env : Env} {row : ScopeRow} {j' : Journal} (known : j.scope? scope_id = some row)
      (attached : row.attached) (run : (Call.detachScope scope_id).run j env = .ok j') :
      Changes scope_id j (env, .detachScope scope_id)
  | closed {call : Env × Call} {task_id : String} {t t' : TaskRow} (found : j.task? task_id = some t)
      (bound : t.scope_id = scope_id) (live : t.state.closed = false)
      (found' : (step j call).task? task_id = some t') (closed : t'.state.closed) :
      Changes scope_id j call

/-- The level of a task that was read. -/
theorem level_of_task (ht : j.task? task_id = some t) (hscope : t.scope_id = scope_id) :
    (j.level scope_id).1 task_id = WithBot.some (t.context_version, t.state.closed) := by
  unfold Journal.level
  dsimp only
  rw [ht, Option.filter_some, if_pos (decide_eq_true hscope)]
  rfl

/-- The level of a task that is not there. -/
theorem level_of_no_task (ht : j.task? task_id = none) : (j.level scope_id).1 task_id = ⊥ := by
  unfold Journal.level
  dsimp only
  rw [ht]
  rfl

/-- The version of a task is part of the level. -/
theorem level_ne_of_version (ht : j.task? task_id = some t) (hscope : t.scope_id = scope_id)
    (ht' : j'.task? task_id = some t') (hscope' : t'.scope_id = scope_id)
    (hversion : t'.context_version = t.context_version + 1) : j'.level scope_id ≠ j.level scope_id := by
  intro h
  have hlevel : (j'.level scope_id).1 task_id = (j.level scope_id).1 task_id := by rw [h]
  rw [level_of_task ht' hscope', level_of_task ht hscope] at hlevel
  have hsame := (Prod.mk.inj (WithBot.coe_injective hlevel)).1
  omega

/-- A new task is part of the level. -/
theorem level_ne_of_new (ht : j.task? task_id = none) (ht' : j'.task? task_id = some t')
    (hscope' : t'.scope_id = scope_id) : j'.level scope_id ≠ j.level scope_id := by
  intro h
  have hlevel : (j'.level scope_id).1 task_id = (j.level scope_id).1 task_id := by rw [h]
  rw [level_of_task ht' hscope', level_of_no_task ht] at hlevel
  exact WithBot.coe_ne_bot hlevel

/-- A call changes a task by an advance. -/
theorem step_task_advances (hj : Keyed j) (ht : j.task? task_id = some t) (call : Env × Call) :
    ∃ t', (step j call).task? task_id = some t' ∧ t.Advances t' := by
  refine (step_of_effect (P := fun j' => ∃ t', j'.task? task_id = some t' ∧ t.Advances t') ?_ hj
    ⟨t, ht, .refl t⟩ call).2
  rintro w j₁ j₂ - ⟨t₁, ht₁, hadvances₁⟩ heffect
  obtain ⟨t₂, ht₂, hadvances₂⟩ := heffect.task_advances ht₁
  exact ⟨t₂, ht₂, hadvances₁.trans hadvances₂⟩

/-- A change raises the level of its scope. -/
theorem Changes.level_ne (hj : Keyed j) {call : Env × Call} (h : Changes scope_id j call) :
    (step j call).level scope_id ≠ j.level scope_id := by
  cases h with
  | accept new run =>
    rw [step_of_ok run]
    obtain ⟨_, run⟩ := map_snd_eq_ok.1 run
    rcases accept_ok run with ⟨hknown, -⟩ | ⟨-, -, heffect, -, t, t', ht, hscope, ht', hversion⟩
    · rw [new] at hknown
      cases hknown
    · obtain ⟨t₁, ht₁, hadvances⟩ := heffect.task_advances ht
      cases ht₁.symm.trans ht'
      exact level_ne_of_version ht hscope ht' (hadvances.scope_id.trans hscope) hversion
  | acceptNewTask bound new run =>
    rw [step_of_ok run]
    obtain ⟨_, run⟩ := map_snd_eq_ok.1 run
    rcases acceptNewTask_ok run with ⟨hknown, -⟩ | ⟨-, -, -, -, j₁, snapshot, hcreate, heffect⟩
    · rw [new] at hknown
      cases hknown
    · obtain ⟨-, -, -, hscope, hnone, hsome⟩ := createTask_ok hcreate
      obtain ⟨t', ht', hadvances⟩ := heffect.task_advances hsome
      exact level_ne_of_new hnone ht' ((hadvances.scope_id.trans hscope).trans bound)
  | cancelPending new run =>
    rw [step_of_ok run]
    obtain ⟨_, run⟩ := map_snd_eq_ok.1 run
    rcases cancelPending_ok run with ⟨hknown, -⟩ | ⟨-, -, heffect, -, t, t', ht, hscope, ht', hversion⟩
    · rw [new] at hknown
      cases hknown
    · obtain ⟨t₁, ht₁, hadvances⟩ := heffect.task_advances ht
      cases ht₁.symm.trans ht'
      exact level_ne_of_version ht hscope ht' (hadvances.scope_id.trans hscope) hversion
  | createTask bound run =>
    rw [step_of_ok run]
    obtain ⟨_, run⟩ := map_snd_eq_ok.1 run
    obtain ⟨-, -, -, hscope, hnone, hsome⟩ := createTask_ok run
    exact level_ne_of_new hnone hsome (hscope.trans bound)
  | @detachScope env row j' known attached run =>
    rw [step_of_ok run]
    simp only [Call.run, TaskStore.detachScope, bind_eq_ok, boundedIdentifier_eq_ok, pure_eq_ok] at run
    obtain ⟨-, -, rfl⟩ := run
    have hid := (mem_of_lookup known).2
    intro h
    have hlevel := congrArg Prod.snd h
    unfold Journal.level at hlevel
    unfold Journal.scope? at known hlevel
    simp [known, hid, attached] at hlevel
  | @closed call task_id t t' found bound live found' closed =>
    obtain ⟨t₁, ht₁, hadvances⟩ := step_task_advances hj found call
    cases ht₁.symm.trans found'
    intro h
    have hlevel : ((step j call).level scope_id).1 task_id = (j.level scope_id).1 task_id := by rw [h]
    rw [level_of_task found' (hadvances.scope_id.trans bound), level_of_task found bound] at hlevel
    have hsame := (Prod.mk.inj (WithBot.coe_injective hlevel)).2
    rw [closed, live] at hsame
    cases hsame

/-! ## What a checkpoint does not see -/

/-- The writes that no checkpoint sees: those of an execution before it ends. -/
def Write.unseen : Write → Bool
  | dispatched | observed | receipted | ownedDispatched | ownedObserved => true
  | _ => false

/-- A checkpoint reads the scopes and questions as they are, the identity of the operations, and of
the tasks everything but the time of an update and which state of its kind a task is in. -/
theorem checkpoint_congr {f : TaskRow → TaskRow} {g : OperationRow → OperationRow} (hscopes : j'.scopes = j.scopes)
    (hquestions : j'.scope_questions = j.scope_questions) (htasks : j'.tasks = j.tasks.map f)
    (hoperations : j'.operations = j.operations.map g)
    (hf : ∀ t, ∃ state now, f t = { t with state := state, updated_at := now })
    (hclosed : ∀ t ∈ j.tasks, (f t).state.closed = t.state.closed) (hg : ∀ o, (g o).identity = o.identity) :
    checkpoint j' scope_id = checkpoint j scope_id := by
  have hcolumns : ∀ t, (f t).task_id = t.task_id ∧ (f t).scope_id = t.scope_id ∧
      (f t).created_at = t.created_at := by
    intro t
    obtain ⟨state, now, e⟩ := hf t
    rw [e]
    exact ⟨rfl, rfl, rfl⟩
  have hidentity : ∀ o, (g o).task_id = o.task_id ∧ (g o).operation_id = o.operation_id ∧
      (g o).context_version = o.context_version := by
    intro o
    have := hg o
    simp only [OperationRow.identity, Prod.mk.injEq] at this
    exact ⟨this.2.1, this.1, this.2.2.2.1⟩
  have hinScope : ∀ s task_id, j'.inScope s task_id = j.inScope s task_id := by
    intro s task_id
    unfold Journal.inScope Journal.task?
    rw [htasks, lookup_map fun t => (hcolumns t).1, Option.any_map]
    congr 1
    funext t
    simp only [(hcolumns t).2.1]
  have hoperations' : ∀ s, j'.scopeOperations s = (j.scopeOperations s).map g := by
    intro s
    unfold Journal.scopeOperations
    rw [hoperations, filter_map]
    congr 1
    refine filter_congr fun o _ => ?_
    simp only [Function.comp_apply, hinScope, (hidentity o).1]
  have hlist : ∀ s, j'.listTasks s = (j.listTasks s).map f := by
    intro s
    have hchosen : j'.tasks.filter (fun t => t.scope_id = s) =
        (j.tasks.filter fun t => t.scope_id = s).map f := by
      rw [htasks, filter_map]
      congr 1
      refine filter_congr fun t _ => ?_
      simp only [Function.comp_apply, (hcolumns t).2.1]
    unfold Journal.listTasks
    rw [hchosen]
    refine (map_insertionSort _ _ f _ fun a _ b _ => ?_).symm
    simp only [(hcolumns a).1, (hcolumns a).2.2, (hcolumns b).1, (hcolumns b).2.2]
  have hmark : ∀ t ∈ j.tasks, taskMark j' (f t) = taskMark j t := by
    intro t ht
    have hlatest : ((j'.scopeOperations t.scope_id).filter fun o => o.task_id = t.task_id).getLast?.map
        (fun o => (o.operation_id, o.context_version)) =
        ((j.scopeOperations t.scope_id).filter fun o => o.task_id = t.task_id).getLast?.map
          fun o => (o.operation_id, o.context_version) := by
      rw [hoperations', filter_map, List.getLast?_map, Option.map_map]
      simp only [Function.comp_def, (hidentity _).1, (hidentity _).2.1, (hidentity _).2.2]
    have hstate := hclosed t ht
    obtain ⟨state, now, e⟩ := hf t
    rw [e] at hstate ⊢
    unfold taskMark
    simp only [hlatest]
    exact congrArg (fun c => TaskMark.mk t.task_id t.context_version c t.agent_alias t.agent_id
      t.registry_revision _ t.open_question _) hstate
  have htaskMarks : (j'.listTasks scope_id).map (taskMark j') =
      (j.listTasks scope_id).map (taskMark j) := by
    rw [hlist, map_map]
    refine map_congr_left fun t ht => hmark t ?_
    unfold Journal.listTasks at ht
    rw [mem_insertionSort] at ht
    exact (mem_filter.1 ht).1
  unfold checkpoint liveQuestion Journal.scope? Journal.question?
  rw [htaskMarks, hscopes, hquestions]

/-- No checkpoint sees the writes of an execution before it ends. -/
theorem Effect.checkpoint_eq {w : Write} (h : Effect w j j') (hj : Keyed j) (hw : w.unseen) (scope_id : String) :
    checkpoint j' scope_id = checkpoint j scope_id := by
  have hsame : ∀ t : TaskRow, ∃ state now, t = { t with state := state, updated_at := now } :=
    fun t => ⟨t.state, t.updated_at, rfl⟩
  cases h with
  | observed | ownedDispatched | ownedObserved =>
    exact checkpoint_congr rfl rfl (map_id' _).symm
      (map_id' _).symm hsame (fun _ _ => rfl) (fun _ => rfl)
  | receipted =>
    refine checkpoint_congr rfl rfl (map_id' _).symm rfl hsame
      (fun _ _ => rfl) (fun o => ?_)
    split_ifs <;> rfl
  | dispatched row task scope now event_id payload _ found _ _ _ live =>
    refine checkpoint_congr rfl rfl rfl rfl (fun t => ?_) (fun t ht => ?_) (fun o => ?_)
    · split_ifs
      · exact ⟨.running, now, rfl⟩
      · exact hsame t
    · split_ifs with hid
      · rw [hj.tasks.eq_of_key_eq ht (mem_of_lookup found).1
          (hid.trans (mem_of_lookup found).2.symm), live]
        rfl
      · rfl
    · split_ifs <;> rfl
  | _ => cases hw

/-- The calls that report on an execution: `observe`, `record_receipt`, `record_owned_dispatch`,
`observe_owned` and `dispatch`. -/
def Call.unseen : Call → Bool
  | observe .. | recordReceipt .. | recordOwnedDispatch .. | observeOwned .. | dispatch .. => true
  | _ => false

/-- A call that reports on an execution changes no checkpoint. -/
theorem step_checkpoint_eq (hj : Keyed j) {call : Env × Call} (hcall : call.2.unseen = true) (scope_id : String) :
    checkpoint (step j call) scope_id = checkpoint j scope_id := by
  have hwrites : ∀ w ∈ call.2.writes, w.unseen = true := by
    obtain ⟨env, call⟩ := call
    cases call with
    | observe | recordReceipt | recordOwnedDispatch | observeOwned | dispatch =>
      simp [Call.writes, Write.unseen]
    | _ => cases hcall
  unfold step
  split
  · next j' hrun =>
    have hwritten := Call.writes_of_run hj.operations hrun
    clear hrun
    suffices h : Keyed j' ∧ checkpoint j' scope_id = checkpoint j scope_id from h.2
    induction hwritten with
    | refl => exact ⟨hj, rfl⟩
    | tail _ heffect ih =>
      obtain ⟨w, hw, heffect⟩ := heffect
      exact ⟨heffect.keyed ih.1, (heffect.checkpoint_eq ih.1 (hwrites w hw) scope_id).trans ih.2⟩
  · rfl

/-! ## Runs -/

/-- A checkpoint that was read is the checkpoint of the scope. -/
theorem routingCheckpoint_eq_ok {c : Checkpoint} :
    routingCheckpoint j scope_id = .ok c ↔ isIdentifier scope_id ∧ checkpoint j scope_id = c := by
  simp [routingCheckpoint]

/-- Nothing changes between two points with one checkpoint. -/
theorem not_changes_of_checkpoint_eq {pre mid : List (Env × Call)}
    (h : checkpoint (reached (pre ++ mid)) scope_id = checkpoint (reached pre) scope_id)
    {mid₁ mid₂ : List (Env × Call)} {call : Env × Call} (hmid : mid = mid₁ ++ call :: mid₂) :
    ¬ Changes scope_id (reached (pre ++ mid₁)) call := by
  intro hchanges
  have hlevel : (reached (pre ++ mid)).level scope_id = (reached pre).level scope_id := by
    rw [← level_checkpoint (reached_keyed _), ← level_checkpoint (reached_keyed _), h]
  have hrun : ∀ calls, reached (pre ++ calls) = Runs.run step (reached pre) calls :=
    fun calls => Runs.run_append step .empty pre calls
  rw [hmid, hrun] at hlevel
  have hstep := Runs.measure_eq_of_eq (P := Keyed) (μ := fun j => j.level scope_id)
    (fun _ call hj => step_keyed hj call)
    (fun _ call hj => step_level_le hj scope_id call) (reached_keyed pre) hlevel
  rw [← hrun] at hstep
  exact hchanges.level_ne (reached_keyed _) hstep

/-- The call is a decision that carries a checkpoint of the scope, is no replay, and is committed. -/
def Commits (scope_id : String) (c : Checkpoint) (j : Journal) (call : Env × Call) : Prop :=
  (∃ j', call.2.run j call.1 = .ok j') ∧
    match call.2 with
    | .accept _ scope utterance_id _ _ _ preconditions _ =>
      scope = scope_id ∧ preconditions = some c ∧ j.utterance? utterance_id = none
    | .acceptNewTask scope _ utterance_id _ _ preconditions _ =>
      scope.scope_id = scope_id ∧ preconditions = some c ∧ j.utterance? utterance_id = none
    | .cancelPending _ scope command_id _ preconditions _ =>
      scope = scope_id ∧ preconditions = some c ∧ j.command? command_id = none
    | _ => False

/-- A decision that is committed carries the present checkpoint. -/
theorem Commits.eq_checkpoint {c : Checkpoint} {call : Env × Call} (h : Commits scope_id c j call) :
    c = checkpoint j scope_id := by
  obtain ⟨env, call⟩ := call
  obtain ⟨⟨j', hrun⟩, hcall⟩ := h
  cases call with
  | accept =>
    obtain ⟨rfl, rfl, hnew⟩ := hcall
    obtain ⟨_, hrun⟩ := map_snd_eq_ok.1 hrun
    rcases accept_ok hrun with ⟨hknown, -⟩ | ⟨-, -, -, hpre, -⟩
    · rw [hnew] at hknown
      cases hknown
    · exact checkPreconditions_ok hpre
  | acceptNewTask =>
    obtain ⟨rfl, rfl, hnew⟩ := hcall
    obtain ⟨_, hrun⟩ := map_snd_eq_ok.1 hrun
    rcases acceptNewTask_ok hrun with ⟨hknown, -⟩ | ⟨-, -, -, hpre, -⟩
    · rw [hnew] at hknown
      cases hknown
    · exact checkPreconditions_ok hpre
  | cancelPending =>
    obtain ⟨rfl, rfl, hnew⟩ := hcall
    obtain ⟨_, hrun⟩ := map_snd_eq_ok.1 hrun
    rcases cancelPending_ok hrun with ⟨hknown, -⟩ | ⟨-, -, -, hpre, -⟩
    · rw [hnew] at hknown
      cases hknown
    · exact checkPreconditions_ok hpre
  | _ => exact absurd hcall id

/-- The routing fence: between two points of a run with one checkpoint of a scope nothing changes
what its decisions rest on; a call that reports on an execution changes no checkpoint; and a decision
that carries a checkpoint is committed only if nothing has changed since the checkpoint was read. -/
theorem routing_fence (pre mid : List (Env × Call)) (scope_id : String) (c : Checkpoint) :
    (routingCheckpoint (reached pre) scope_id = .ok c →
        routingCheckpoint (reached (pre ++ mid)) scope_id = .ok c →
        ∀ mid₁ call mid₂, mid = mid₁ ++ call :: mid₂ →
          ¬ Changes scope_id (reached (pre ++ mid₁)) call) ∧
      (∀ call : Env × Call, call.2.unseen = true →
        ∀ s, checkpoint (step (reached pre) call) s = checkpoint (reached pre) s) ∧
      (routingCheckpoint (reached pre) scope_id = .ok c →
        ∀ decision, Commits scope_id c (reached (pre ++ mid)) decision →
          ∀ mid₁ call mid₂, mid = mid₁ ++ call :: mid₂ →
            ¬ Changes scope_id (reached (pre ++ mid₁)) call) := by
  refine ⟨fun h h' mid₁ call mid₂ hmid => ?_, fun call hcall s => ?_,
    fun h decision hdecision mid₁ call mid₂ hmid => ?_⟩
  · rw [routingCheckpoint_eq_ok] at h h'
    exact not_changes_of_checkpoint_eq (h'.2.trans h.2.symm) hmid
  · exact step_checkpoint_eq (reached_keyed pre) hcall s
  · rw [routingCheckpoint_eq_ok] at h
    exact not_changes_of_checkpoint_eq (hdecision.eq_checkpoint.symm.trans h.2.symm) hmid

theorem Sample.identifier_e6 : ∀ id ∈ ["e6"], isIdentifier id := by decide

/-- A cancellation of the task `t`. -/
def Sample.cancel : Env × Call :=
  (.ofList ["e6"] identifier_e6, .cancelPending "t" "s" "c1" "Stop" none none)

/-- The checkpoint does not tell a task whose cancellation is requested from one that has ended: a
settlement ends the task between two equal checkpoints. -/
theorem ended_between_checkpoints :
    ¬ ∀ pre call scope_id c, routingCheckpoint (reached pre) scope_id = .ok c →
      routingCheckpoint (reached (pre ++ [call])) scope_id = .ok c →
        ∀ t ∈ (reached pre).tasks, t.scope_id = scope_id → t.state.terminal = false →
          ∀ t' ∈ (reached (pre ++ [call])).tasks, t'.task_id = t.task_id →
            t'.state.terminal = false := by
  intro h
  let pre := [Sample.create, Sample.acceptFirst, Sample.dispatchFirst, Sample.cancel]
  let settle : Env × Call := (.ofList ["e4"] (by decide), .settle "o1" [] "succeeded" none)
  have hrun : checkpoint (reached (pre ++ [settle])) "s" = checkpoint (reached pre) "s" ∧
      (∃ t ∈ (reached pre).tasks, t.task_id = "t" ∧ t.scope_id = "s" ∧ t.state.terminal = false) ∧
      ∃ t' ∈ (reached (pre ++ [settle])).tasks, t'.task_id = "t" ∧ t'.state.terminal = true := by
    decide +kernel
  obtain ⟨hsame, ⟨t, ht, hid, hscope, hlive⟩, t', ht', hid', hended⟩ := hrun
  have hread : ∀ j, checkpoint j "s" = checkpoint (reached pre) "s" →
      routingCheckpoint j "s" = .ok (checkpoint (reached pre) "s") :=
    fun j hj => routingCheckpoint_eq_ok.2 ⟨by decide, hj⟩
  have hterminal := h pre settle "s" _ (hread _ rfl) (hread _ hsame) t ht hscope hlive t' ht'
    (hid'.trans hid.symm)
  rw [hended] at hterminal
  cases hterminal

end StrixAlloy.TaskStore

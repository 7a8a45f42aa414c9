import StrixAlloy.TaskStore.Operations

/-!
# Tasks and their operations

A task row repeats what its operations and commands say: its state, the number of its results and
the version of its context. `TaskRow.Coupled` is that agreement for one task. A write concerns the
operations of one task at most, apart from parking, which no field of the agreement sees.
-/

namespace StrixAlloy.TaskStore

open Checked List Table

/-- The operation was settled as cancelled, and an event records the evidence. -/
def OperationRow.ReconciledAs (o : OperationRow) (outcome : TaskState) (events : List EventRow) :
    Prop :=
  o.dispatch_state = .settled ∧ o.outcome = some outcome ∧
    ∃ e ∈ events, e.type = "operation_reconciled" ∧ e.operation_id = some o.operation_id

/-- The agreement of a task with its operations and commands. -/
structure TaskRow.Coupled (t : TaskRow) (operations : List OperationRow) (commands : List CommandRow)
    (events : List EventRow) : Prop where
  submitted : ∀ o ∈ operations, o.task_id = t.task_id → o.dispatch_state = .submitted →
    t.state = .running ∨ t.state = .cancelRequested
  running : t.state = .running →
    ∃ o ∈ operations, o.task_id = t.task_id ∧ o.dispatch_state = .submitted
  unknown : t.state = .outcomeUnknown ↔
    ∃ o ∈ operations, o.task_id = t.task_id ∧ o.dispatch_state = .unknown
  results : t.result_version =
    operations.countP fun o => o.task_id = t.task_id ∧ o.dispatch_state = .settled
  versions : t.context_version = (operations.countP fun o => o.task_id = t.task_id) +
    commands.countP fun c => c.task_id = t.task_id
  bounded : ∀ o ∈ operations, o.task_id = t.task_id → o.context_version ≤ t.context_version
  cancelled : t.state = .cancelled →
    (∀ o ∈ operations, o.task_id = t.task_id → o.submitted_at = none) ∨
      ∃ o ∈ operations, o.task_id = t.task_id ∧ o.ReconciledAs .cancelled events

/-- The agreement of the tables of a journal. -/
structure Coupled (j : Journal) : Prop where
  tasks : ∀ t ∈ j.tasks, t.Coupled j.operations j.commands j.events
  /-- The versions of a task's operations increase in order of acceptance. -/
  ordered : j.operations.Pairwise fun a b =>
    a.task_id = b.task_id → a.context_version < b.context_version
  /-- No command has the identifier of an utterance. -/
  commands : ∀ c ∈ j.commands, ∀ o ∈ j.operations, c.command_id ≠ o.utterance_id

theorem Coupled.empty : Coupled .empty := by
  constructor <;> simp [Journal.empty]

/-! ## Changes that the agreement does not see -/

/-- The operations differ in nothing that the agreement reads. -/
structure OperationRow.Quiet (o o' : OperationRow) : Prop where
  operation_id : o'.operation_id = o.operation_id
  context_version : o'.context_version = o.context_version
  submitted_at : o'.submitted_at = o.submitted_at
  outcome : o'.outcome = o.outcome
  state : ∀ s ∈ [DispatchState.submitted, .unknown, .settled],
    o'.dispatch_state = s ↔ o.dispatch_state = s

/-- Parking is quiet. -/
theorem OperationRow.Quiet.park {o : OperationRow} {state : DispatchState}
    (h : o.dispatch_state = .unsubmitted)
    (hstate : state ∉ [DispatchState.submitted, .unknown, .settled]) :
    o.Quiet { o with dispatch_state := state } := by
  refine ⟨rfl, rfl, rfl, rfl, fun s hs => ?_⟩
  rw [h]
  constructor
  · rintro rfl
    exact absurd hs hstate
  · rintro rfl
    exact absurd hs (by decide)

section Task

variable {t : TaskRow} {operations : List OperationRow} {commands : List CommandRow}
  {events events' : List EventRow}

section

variable (h : t.Coupled operations commands events)
include h

/-- The agreement reads four columns of the task. -/
theorem TaskRow.Coupled.of_eq {t' : TaskRow} (hid : t'.task_id = t.task_id) (hstate : t'.state = t.state)
    (hresults : t'.result_version = t.result_version) (hversion : t'.context_version = t.context_version) :
    t'.Coupled operations commands events := by
  constructor <;> simp only [hid, hstate, hresults, hversion]
  exacts [h.submitted, h.running, h.unknown, h.results, h.versions, h.bounded, h.cancelled]

/-- More events keep the agreement. -/
theorem TaskRow.Coupled.mono (hevents : events ⊆ events') :
    t.Coupled operations commands events' := by
  refine { h with cancelled := fun hs => (h.cancelled hs).imp_right ?_ }
  rintro ⟨o, ho, ht, hsettled, hout, e, he, hevent⟩
  exact ⟨o, ho, ht, hsettled, hout, e, hevents he, hevent⟩

omit h in
/-- A new task agrees with having no operations and no commands. -/
theorem TaskRow.Coupled.of_new (ht : t.state = .queued ∧ t.result_version = 0 ∧ t.context_version = 0)
    (hoperations : ∀ o ∈ operations, o.task_id ≠ t.task_id)
    (hcommands : ∀ c ∈ commands, c.task_id ≠ t.task_id) : t.Coupled operations commands events := by
  obtain ⟨hstate, hresults, hversion⟩ := ht
  constructor <;> simp only [hstate, hresults, hversion]
  · exact fun o ho hto => absurd hto (hoperations o ho)
  · exact fun hs => by cases hs
  · exact iff_of_false (by simp) fun ⟨o, ho, hto, _⟩ => hoperations o ho hto
  · rw [eq_comm, countP_eq_zero]
    exact fun o ho hto => hoperations o ho (by simpa using (of_decide_eq_true hto).1)
  · rw [eq_comm, Nat.add_eq_zero_iff, countP_eq_zero, countP_eq_zero]
    exact ⟨fun o ho hto => hoperations o ho (of_decide_eq_true hto),
      fun c hc htc => hcommands c hc (of_decide_eq_true htc)⟩
  · exact fun o ho hto => absurd hto (hoperations o ho)
  · exact fun hs => by cases hs

/-- An update that is quiet on the operations of the task keeps the agreement. -/
theorem TaskRow.Coupled.update {p : OperationRow → Prop} [DecidablePred p] {f : OperationRow → OperationRow}
    (hevents : events ⊆ events') (htask : ∀ o, (f o).task_id = o.task_id)
    (hquiet : ∀ o ∈ operations, p o → o.task_id = t.task_id → o.Quiet (f o)) :
    t.Coupled (Table.update p f operations) commands events' := by
  have hstate : ∀ o ∈ operations, p o → o.task_id = t.task_id →
      ∀ s ∈ [DispatchState.submitted, .unknown, .settled],
        (f o).dispatch_state = s ↔ o.dispatch_state = s :=
    fun o ho hp ht => (hquiet o ho hp ht).state
  have hexists : ∀ s ∈ [DispatchState.submitted, .unknown, .settled],
      (∃ o ∈ Table.update p f operations, o.task_id = t.task_id ∧ o.dispatch_state = s) ↔
        ∃ o ∈ operations, o.task_id = t.task_id ∧ o.dispatch_state = s := by
    intro s hs
    simp only [mem_update]
    constructor
    · rintro ⟨_, ⟨o, ho, rfl⟩, ht, hos⟩
      split_ifs at ht hos with hp
      · rw [htask] at ht
        exact ⟨o, ho, ht, (hstate o ho hp ht s hs).1 hos⟩
      · exact ⟨o, ho, ht, hos⟩
    · rintro ⟨o, ho, ht, hos⟩
      refine ⟨_, ⟨o, ho, rfl⟩, ?_⟩
      split_ifs with hp
      · exact ⟨(htask o).trans ht, (hstate o ho hp ht s hs).2 hos⟩
      · exact ⟨ht, hos⟩
  constructor
  · intro o' ho' ht hs
    obtain ⟨o, ho, ht, hs⟩ := (hexists _ (by decide)).1 ⟨o', ho', ht, hs⟩
    exact h.submitted o ho ht hs
  · exact fun hs => (hexists _ (by decide)).2 (h.running hs)
  · exact h.unknown.trans (hexists _ (by decide)).symm
  · rw [h.results, countP_update]
    intro o ho hp
    by_cases ht : o.task_id = t.task_id
    · simp [htask, ht, hstate o ho hp ht .settled (by decide)]
    · simp [htask, ht]
  · rw [h.versions, countP_update]
    exact fun o _ _ => by rw [htask]
  · rw [forall_mem_update]
    intro o ho
    split_ifs with hp
    · intro ht
      rw [htask] at ht
      rw [(hquiet o ho hp ht).context_version]
      exact h.bounded o ho ht
    · exact h.bounded o ho
  · intro hs
    refine (h.cancelled hs).imp (fun hnone => ?_) ?_
    · rw [forall_mem_update]
      intro o ho
      split_ifs with hp
      · intro ht
        rw [htask] at ht
        rw [(hquiet o ho hp ht).submitted_at]
        exact hnone o ho ht
      · exact hnone o ho
    · rintro ⟨o, ho, ht, hsettled, hout, e, he, htype, hop⟩
      refine ⟨_, mem_update.2 ⟨o, ho, rfl⟩, ?_⟩
      split_ifs with hp
      · have hq := hquiet o ho hp ht
        exact ⟨(htask o).trans ht, (hq.state _ (by decide)).2 hsettled, hq.outcome.trans hout, e,
          hevents he, htype, hop.trans (by rw [hq.operation_id])⟩
      · exact ⟨ht, hsettled, hout, e, hevents he, htype, hop⟩

/-- An operation that moves between the states that the agreement reads, while none else of its task
is in flight, takes its task with it. -/
theorem TaskRow.Coupled.transition {row : OperationRow} {t' : TaskRow} {f : OperationRow → OperationRow}
    (hunique : Table.Unique OperationRow.operation_id operations) (hrow : row ∈ operations)
    (ht : row.task_id = t.task_id) (halone : ∀ o ∈ operations, o.inFlight → o = row)
    (hf : (f row).task_id = row.task_id ∧ (f row).context_version = row.context_version)
    (hid : t'.task_id = t.task_id) (hversion : t'.context_version = t.context_version)
    (hold : row.dispatch_state ≠ .settled)
    (hsubmitted : (f row).dispatch_state = .submitted → t'.state = .running ∨ t'.state = .cancelRequested)
    (hrunning : t'.state = .running → (f row).dispatch_state = .submitted)
    (hunknown : t'.state = .outcomeUnknown ↔ (f row).dispatch_state = .unknown)
    (hresults : t'.result_version = t.result_version + if (f row).dispatch_state = .settled then 1 else 0)
    (hcancelled : t'.state = .cancelled → (f row).ReconciledAs .cancelled events') :
    t'.Coupled (Table.update (fun o => o.operation_id = row.operation_id) f operations) commands
      events' := by
  have heq : ∀ o ∈ operations, o.operation_id = row.operation_id → o = row :=
    fun o ho e => hunique.eq_of_key_eq ho hrow e
  have hnew : f row ∈ Table.update (fun o => o.operation_id = row.operation_id) f operations :=
    mem_update_of_pos hrow rfl
  have hmem : ∀ o ∈ Table.update (fun o => o.operation_id = row.operation_id) f operations,
      o = f row ∨ (o ∈ operations ∧ o.inFlight = false) := by
    rw [forall_mem_update]
    intro o ho
    split_ifs with hp
    · exact .inl (congrArg f (heq o ho hp))
    · refine .inr ⟨ho, ?_⟩
      by_contra hflight
      exact hp (congrArg _ (halone o ho (by simpa using hflight)))
  have htask : (f row).task_id = t'.task_id := by rw [hf.1, ht, hid]
  constructor
  · intro o ho _ hs
    rcases hmem o ho with rfl | ⟨-, hflight⟩
    · exact hsubmitted hs
    · simp [OperationRow.inFlight, hs, DispatchState.inFlight] at hflight
  · exact fun hs => ⟨f row, hnew, htask, hrunning hs⟩
  · refine hunknown.trans ⟨fun hs => ⟨f row, hnew, htask, hs⟩, ?_⟩
    rintro ⟨o, ho, -, hs⟩
    rcases hmem o ho with rfl | ⟨-, hflight⟩
    · exact hs
    · simp [OperationRow.inFlight, hs, DispatchState.inFlight] at hflight
  · have hcount := countP_update_at (f := f) hunique hrow
      fun o => decide (o.task_id = t'.task_id ∧ o.dispatch_state = .settled)
    simp only [htask, hold, and_false, true_and, decide_false, decide_eq_true_eq] at hcount
    rw [hresults, h.results, ← hid]
    simpa using hcount.symm
  · rw [hversion, h.versions, ← hid, countP_update]
    intro o ho hp
    rw [heq o ho hp, hf.1]
  · intro o ho hto
    rw [hversion]
    rcases hmem o ho with rfl | ⟨ho, -⟩
    · rw [hf.2]
      exact h.bounded row hrow ht
    · exact h.bounded o ho (hto.trans hid)
  · exact fun hs => .inr ⟨f row, hnew, htask, hcancelled hs⟩

/-- The acceptance of an operation of another task keeps the agreement. -/
theorem TaskRow.Coupled.accept_other {row : OperationRow} (hevents : events ⊆ events') (ht : row.task_id ≠ t.task_id) :
    t.Coupled (operations ++ [row]) commands events' := by
  have hmem : ∀ o ∈ operations ++ [row], o.task_id = t.task_id → o ∈ operations := by
    intro o ho hto
    rcases mem_append.1 ho with ho | ho
    · exact ho
    · obtain rfl := mem_singleton.1 ho
      exact absurd hto ht
  have hexists : ∀ s, (∃ o ∈ operations ++ [row], o.task_id = t.task_id ∧ o.dispatch_state = s) ↔
      ∃ o ∈ operations, o.task_id = t.task_id ∧ o.dispatch_state = s := by
    intro s
    constructor
    · rintro ⟨o, ho, hto, hs⟩
      exact ⟨o, hmem o ho hto, hto, hs⟩
    · rintro ⟨o, ho, hto, hs⟩
      exact ⟨o, mem_append_left _ ho, hto, hs⟩
  constructor
  · exact fun o ho hto hs => h.submitted o (hmem o ho hto) hto hs
  · exact fun hs => (hexists _).2 (h.running hs)
  · exact h.unknown.trans (hexists _).symm
  · simpa [ht] using h.results
  · simpa [ht] using h.versions
  · exact fun o ho hto => h.bounded o (hmem o ho hto) hto
  · refine fun hs => (h.cancelled hs).imp (fun hnone o ho hto => hnone o (hmem o ho hto) hto) ?_
    rintro ⟨o, ho, hto, hsettled, hout, e, he, hevent⟩
    exact ⟨o, mem_append_left _ ho, hto, hsettled, hout, e, hevents he, hevent⟩

/-- The acceptance of an operation of a live task raises the version of its context. -/
theorem TaskRow.Coupled.accept {t' : TaskRow} {row : OperationRow} (ht : row.task_id = t.task_id)
    (hwaits : row.dispatch_state = .unsubmitted) (hrow : row.context_version = t.context_version + 1)
    (hid : t'.task_id = t.task_id) (hstate : t'.state = t.state) (hlive : t.state.closed = false)
    (hresults : t'.result_version = t.result_version) (hversion : t'.context_version = t.context_version + 1) :
    t'.Coupled (operations ++ [row]) commands events' := by
  have hexists : ∀ s ≠ DispatchState.unsubmitted,
      (∃ o ∈ operations ++ [row], o.task_id = t.task_id ∧ o.dispatch_state = s) ↔
        ∃ o ∈ operations, o.task_id = t.task_id ∧ o.dispatch_state = s := by
    intro s hne
    constructor
    · rintro ⟨o, ho, hto, hs⟩
      rcases mem_append.1 ho with ho | ho
      · exact ⟨o, ho, hto, hs⟩
      · obtain rfl := mem_singleton.1 ho
        exact absurd (hs.symm.trans hwaits) hne
    · rintro ⟨o, ho, hto, hs⟩
      exact ⟨o, mem_append_left _ ho, hto, hs⟩
  constructor <;> simp only [hid, hstate, hresults, hversion]
  · intro o ho hto hs
    obtain ⟨o, ho, hto, hs⟩ := (hexists _ (by decide)).1 ⟨o, ho, hto, hs⟩
    exact h.submitted o ho hto hs
  · exact fun hs => (hexists _ (by decide)).2 (h.running hs)
  · exact h.unknown.trans (hexists _ (by decide)).symm
  · simpa [hwaits] using h.results
  · rw [h.versions]
    simp [ht]
    omega
  · intro o ho hto
    rcases mem_append.1 ho with ho | ho
    · exact (h.bounded o ho hto).trans (Nat.le_succ _)
    · obtain rfl := mem_singleton.1 ho
      exact hrow.le
  · intro hs
    rw [hs] at hlive
    cases hlive

/-- A command for another task keeps the agreement. -/
theorem TaskRow.Coupled.command_other {c : CommandRow} (hc : c.task_id ≠ t.task_id) :
    t.Coupled operations (commands ++ [c]) events :=
  { h with versions := by simpa [hc] using h.versions }

/-- A cancellation of a task that is not terminal raises the version of its context. -/
theorem TaskRow.Coupled.cancel {t' : TaskRow} {c : CommandRow} (hc : c.task_id = t.task_id)
    (hid : t'.task_id = t.task_id) (hlive : t.state.terminal = false)
    (hresults : t'.result_version = t.result_version) (hversion : t'.context_version = t.context_version + 1)
    (hstamped : ∀ o ∈ operations, o.Stamped)
    (hstate : t'.state = .cancelRequested ∨
      (t'.state = .cancelled ∧ ∀ o ∈ operations, o.task_id = t.task_id → o.submitted_at = none)) :
    t'.Coupled operations (commands ++ [c]) events := by
  constructor <;> simp only [hid, hresults, hversion]
  · intro o ho hto hs
    rcases hstate with hstate | ⟨-, hnone⟩
    · exact .inr hstate
    · have := (hstamped o ho).2 (by simp [hs])
      rw [hnone o ho hto] at this
      cases this
  · intro hs
    rcases hstate with hstate | ⟨hstate, -⟩ <;> rw [hstate] at hs <;> cases hs
  · refine iff_of_false (fun hs => ?_) fun hs => ?_
    · rcases hstate with hstate | ⟨hstate, -⟩ <;> rw [hstate] at hs <;> cases hs
    · have hunknown := h.unknown.2 hs
      rw [hunknown] at hlive
      cases hlive
  · exact h.results
  · rw [h.versions]
    simp [hc]
    omega
  · exact fun o ho hto => (h.bounded o ho hto).trans (Nat.le_succ _)
  · intro hs
    rcases hstate with hstate | ⟨-, hnone⟩
    · rw [hstate] at hs
      cases hs
    · exact .inl hnone

end

end Task

variable {j : Journal}

/-- Nothing but `row` is in flight when it is. -/
theorem SingleFlight.alone (hs : SingleFlight j) {row o : OperationRow} (hrow : row ∈ j.operations)
    (hflight : row.inFlight) (ho : o ∈ j.operations) (hother : o.inFlight) : o = row := by
  have hlength := hs.single
  rw [countP_eq_length_filter] at hlength
  have h1 : row ∈ j.operations.filter OperationRow.inFlight := mem_filter.2 ⟨hrow, hflight⟩
  have h2 : o ∈ j.operations.filter OperationRow.inFlight := mem_filter.2 ⟨ho, hother⟩
  obtain ⟨x, hx⟩ := length_eq_one_iff.1 (le_antisymm hlength (length_pos_of_mem h1))
  rw [hx] at h1 h2
  rw [mem_singleton.1 h1, mem_singleton.1 h2]

/-! ## Writes -/

variable {f : OperationRow → OperationRow}

/-- An update of the operations that keeps their tasks and versions keeps their order. -/
theorem ordered_update {operations : List OperationRow} {p : OperationRow → Prop} [DecidablePred p]
    (h : operations.Pairwise fun a b => a.task_id = b.task_id → a.context_version < b.context_version)
    (hf : ∀ o, (f o).task_id = o.task_id ∧ (f o).context_version = o.context_version) :
    (Table.update p f operations).Pairwise fun a b =>
      a.task_id = b.task_id → a.context_version < b.context_version := by
  have hrow : ∀ o, (if p o then f o else o).task_id = o.task_id ∧
      (if p o then f o else o).context_version = o.context_version := by
    intro o
    split_ifs
    · exact hf o
    · exact ⟨rfl, rfl⟩
  refine pairwise_update h fun a b hab => ?_
  rw [(hrow a).1, (hrow a).2, (hrow b).1, (hrow b).2]
  exact hab

/-- An update of the operations that keeps their utterances keeps these apart from the commands. -/
theorem apart_update {operations : List OperationRow} {commands : List CommandRow} {p : OperationRow → Prop}
    [DecidablePred p] (h : ∀ c ∈ commands, ∀ o ∈ operations, c.command_id ≠ o.utterance_id)
    (hf : ∀ o, (f o).utterance_id = o.utterance_id) :
    ∀ c ∈ commands, ∀ o ∈ Table.update p f operations, c.command_id ≠ o.utterance_id := by
  intro c hc
  rw [forall_mem_update]
  intro o ho
  split_ifs
  · rw [hf]
    exact h c hc o ho
  · exact h c hc o ho

/-- The update of one task: what is proved of that task and of the others holds of all. -/
theorem forall_mem_setTask (hj : Keyed j) {task : TaskRow} {f : TaskRow → TaskRow}
    (htask : j.task? task.task_id = some task) {P : TaskRow → Prop} (hown : P (f task))
    (hothers : ∀ t ∈ j.tasks, t.task_id ≠ task.task_id → P t) :
    ∀ t ∈ (j.setTask task.task_id f).tasks, P t := by
  rw [Journal.setTask_tasks, forall_mem_update]
  intro t ht
  split_ifs with h
  · rwa [hj.tasks.eq_of_key_eq ht (mem_of_lookup htask).1 h]
  · exact hothers t ht h

/-- A task that is not there has no operations and no commands. -/
theorem Keyed.of_fresh_task (hj : Keyed j) {id : String} (h : j.task? id = none) :
    (∀ o ∈ j.operations, o.task_id ≠ id) ∧ ∀ c ∈ j.commands, c.task_id ≠ id := by
  have hnone := lookup_eq_none.1 h
  constructor
  · intro o ho e
    obtain ⟨t, ht, hid⟩ := mem_map.1 (hj.operation_task (mem_map_of_mem ho))
    exact hnone t ht (hid.trans e)
  · intro c hc e
    obtain ⟨t, ht, hid⟩ := mem_map.1 (hj.command_task (mem_map_of_mem hc))
    exact hnone t ht (hid.trans e)

/-- The task of an operation is there. -/
theorem Keyed.task_of_operation (hj : Keyed j) {o : OperationRow} (ho : o ∈ j.operations) :
    ∃ t, j.task? o.task_id = some t := by
  obtain ⟨t, ht, hid⟩ := mem_map.1 (hj.operation_task (mem_map_of_mem ho))
  exact ⟨t, hid ▸ lookup_of_mem hj.tasks ht⟩

/-- An operation that moves while nothing else is in flight takes its task with it, and the tables
agree again. -/
theorem Coupled.transition (hj : Keyed j) (hc : Coupled j) {row : OperationRow} {task : TaskRow}
    {g : TaskRow → TaskRow} {event : EventRow} (hrow : j.operation? row.operation_id = some row)
    (htask : j.task? row.task_id = some task) (halone : ∀ o ∈ j.operations, o.inFlight → o = row)
    (hf : ∀ o, (f o).identity = o.identity)
    (hg : (g task).task_id = task.task_id ∧ (g task).context_version = task.context_version)
    (hold : row.dispatch_state ≠ .settled)
    (hsubmitted : (f row).dispatch_state = .submitted → (g task).state = .running ∨ (g task).state = .cancelRequested)
    (hrunning : (g task).state = .running → (f row).dispatch_state = .submitted)
    (hunknown : (g task).state = .outcomeUnknown ↔ (f row).dispatch_state = .unknown)
    (hresults : (g task).result_version = task.result_version + if (f row).dispatch_state = .settled then 1 else 0)
    (hcancelled : (g task).state = .cancelled → (f row).ReconciledAs .cancelled (j.events ++ [event])) :
    Coupled { (j.setOperation row.operation_id f).setTask row.task_id g with
      events := j.events ++ [event] } := by
  have hfields : ∀ o, (f o).task_id = o.task_id ∧ (f o).utterance_id = o.utterance_id ∧
      (f o).context_version = o.context_version := by
    intro o
    have := hf o
    simp only [OperationRow.identity, Prod.mk.injEq] at this
    exact ⟨this.2.1, this.2.2.1, this.2.2.2.1⟩
  have hmem := (mem_of_lookup hrow).1
  have hid := (mem_of_lookup htask).2
  have hevents : j.events ⊆ j.events ++ [event] := subset_append_left _ _
  refine ⟨?_, ordered_update hc.ordered fun o => ⟨(hfields o).1, (hfields o).2.2⟩,
    apart_update hc.commands fun o => (hfields o).2.1⟩
  rw [← hid] at htask ⊢
  refine forall_mem_setTask hj htask ?_ fun t ht hne => ?_
  · have hagrees := (hc.tasks task (mem_of_lookup htask).1).mono hevents
    exact hagrees.transition hj.operations hmem hid.symm halone
      ⟨(hfields row).1, (hfields row).2.2⟩ hg.1 hg.2 hold hsubmitted hrunning hunknown hresults
      hcancelled
  · refine (hc.tasks t ht).update hevents (fun o => (hfields o).1) fun o ho hp hto => ?_
    rw [hj.operations.eq_of_key_eq ho hmem hp] at hto
    exact absurd (hto.symm.trans hid.symm) hne

/-- Parking keeps the agreement of the tables. -/
theorem Coupled.park (hc : Coupled j) (p : String → Prop) [DecidablePred p] {state : DispatchState}
    (hstate : state ∉ [DispatchState.submitted, .unknown, .settled]) : Coupled (j.parkUnsubmitted p state) :=
  ⟨fun t ht => (hc.tasks t ht).update (List.Subset.refl _) (fun _ => rfl)
      fun _ _ hp _ => .park hp.2 hstate,
    ordered_update hc.ordered fun _ => ⟨rfl, rfl⟩, apart_update hc.commands fun _ => rfl⟩

/-- Every write keeps the agreement of the tables. -/
theorem Effect.coupled {w : Write} {j' : Journal} (h : Effect w j j') (hj : Keyed j) (hs : SingleFlight j)
    (hc : Coupled j) : Coupled j' := by
  have hevents : ∀ e, j.events ⊆ j.events ++ [e] := fun e => subset_append_left _ _
  cases h with
  | scopeAdded | ownedDispatched | ownedObserved => exact { hc with }
  | observed =>
    exact { hc with tasks := fun t ht => (hc.tasks t ht).mono (hevents _) }
  | created scope agent identifier objective now event_id row payload _ _ fresh =>
    refine { hc with tasks := fun t ht => ?_ }
    rcases mem_append.1 ht with ht | ht
    · exact (hc.tasks t ht).mono (hevents _)
    · obtain rfl := mem_singleton.1 ht
      obtain ⟨hoperations, hcommands⟩ := hj.of_fresh_task fresh
      exact .of_new ⟨rfl, rfl, rfl⟩ hoperations hcommands
  | accepted task scope operation_id utterance_id text now event_id kind context payload answered
      found _ _ live command =>
    have htask := (mem_of_lookup found).1
    refine ⟨?_, ?_, ?_⟩
    · -- the version is raised first, and the question is cleared in a second update
      have hversion := forall_mem_setTask hj found
        (f := fun t => { t with context_version := task.context_version + 1, updated_at := now })
        (P := fun t => t.Coupled (j.operations ++ [acceptedOperation operation_id task.task_id
          utterance_id (task.context_version + 1) kind text context payload now]) j.commands
          (j.events ++ [⟨j.events.length + 1, event_id, task.task_id, some operation_id,
            "utterance_accepted", task.context_version + 1, .dict [("kind", .str kind.name),
              ("text", .str text), ("answered_question", answeredJson answered)], .store⟩]))
        ((hc.tasks task htask).accept rfl rfl rfl rfl rfl live rfl rfl)
        fun t ht hne => (hc.tasks t ht).accept_other (hevents _) (Ne.symm hne)
      intro t' ht'
      obtain ⟨t, ht, rfl⟩ := mem_update.1 ht'
      split_ifs
      · exact (hversion t ht).of_eq rfl rfl rfl rfl
      · exact hversion t ht
    · simp only [Journal.setTask_operations, Journal.dropQuestions_operations,
        Journal.log_operations, Journal.insertOperation_operations, pairwise_append]
      refine ⟨hc.ordered, pairwise_singleton _ _, fun a ha b hb hab => ?_⟩
      obtain rfl := mem_singleton.1 hb
      exact Nat.lt_succ_of_le ((hc.tasks task htask).bounded a ha hab)
    · intro c hmem o ho
      rcases mem_append.1 ho with ho | ho
      · exact hc.commands c hmem o ho
      · obtain rfl := mem_singleton.1 ho
        exact lookup_eq_none.1 command c hmem
  | noted task scope text question_id source found =>
    refine { hc with tasks := ?_ }
    refine forall_mem_setTask hj found ?_ fun t ht _ => (hc.tasks t ht).mono (hevents _)
    exact ((hc.tasks task (mem_of_lookup found).1).mono (hevents _)).of_eq rfl rfl rfl rfl
  | cancelled task scope command_id text now event_id payload found _ _ live utterance =>
    have hstate : (cancelledState j task.task_id).2 ∉
        [DispatchState.submitted, .unknown, .settled] := by
      unfold cancelledState
      split_ifs <;> decide
    have hpark := hc.park (fun t => t = task.task_id) hstate
    refine ⟨forall_mem_setTask hj found ?_ fun t ht hne => ?_, hpark.ordered, ?_⟩
    · refine TaskRow.Coupled.mono ?_ (hevents _)
      refine (hpark.tasks task (mem_of_lookup found).1).cancel rfl rfl live rfl rfl ?_ ?_
      · rw [Journal.parkUnsubmitted_operations, forall_mem_update]
        intro o ho
        split_ifs with hp
        · exact (moves_parked (w := .cancelled) hp.2 (by
            unfold cancelledState
            split_ifs <;> decide) hstate).stamped (hs.stamped o ho)
        · exact hs.stamped o ho
      · unfold cancelledState
        split_ifs with hany
        · exact .inl rfl
        · refine .inr ⟨rfl, ?_⟩
          rw [Journal.parkUnsubmitted_operations, forall_mem_update]
          intro o ho
          have hnone : o.task_id = task.task_id → o.submitted_at = none := by
            intro hto
            by_contra hsome
            exact hany (any_eq_true.2 ⟨o, ho, by simp [hto, Option.isSome_iff_ne_none, hsome]⟩)
          split_ifs <;> exact hnone
    · exact ((hpark.tasks t ht).command_other (Ne.symm hne)).mono (hevents _)
    · intro c hmem o ho
      rcases mem_append.1 hmem with hmem | hmem
      · exact hpark.commands c hmem o ho
      · obtain rfl := mem_singleton.1 hmem
        obtain ⟨x, hx, rfl⟩ := mem_update.1 ho
        have hne := lookup_eq_none.1 utterance x hx
        split_ifs <;> exact Ne.symm hne
  | dispatched row task scope now event_id payload hrow htask _ _ hstate _ hidle =>
    refine hc.transition hj hrow htask (fun o ho hflight => ?_) (fun _ => rfl) ⟨rfl, rfl⟩
      (by rw [hstate]; decide) (fun _ => .inl rfl) (fun _ => rfl) (by simp) rfl
      fun hcancelled => by cases hcancelled
    have hnone := any_eq_false.1 hidle o ho
    exact absurd hflight hnone
  | settled row task outcome state replies evidence question now id hrow htask hstate hlive houts
      hstateEq _ _ hq =>
    obtain ⟨questions, rfl⟩ := settleQuestions_frame hq
    have hmem := (mem_of_lookup hrow).1
    have hflight : row.inFlight := by
      rw [OperationRow.inFlight, hstate]
      rfl
    have hended : state ≠ .running ∧ state ≠ .outcomeUnknown ∧ state ≠ .cancelled := by
      rw [hstateEq]
      split_ifs
      · decide
      · rcases houts with rfl | rfl | rfl <;> decide
    exact { hc.transition hj hrow htask (fun o ho => hs.alone hmem hflight ho)
      (f := fun o =>
        { o with
          dispatch_state := .settled
          replies := some (repliesJson replies)
          evidence := some evidence
          outcome := some outcome
          settled_at := some now })
      (g := fun t =>
        { t with
          state := state
          open_question := question
          result_version := t.result_version + 1
          updated_at := now })
      (fun _ => rfl) ⟨rfl, rfl⟩ (by rw [hstate]; decide) (fun h => by cases h)
      (fun h => absurd h hended.1) (iff_of_false hended.2.1 fun h => by cases h) rfl
      (fun h => absurd h hended.2.2) with }
  | receipted =>
    refine ⟨fun t ht => ?_, ordered_update hc.ordered fun _ => ⟨rfl, rfl⟩,
      apart_update hc.commands fun _ => rfl⟩
    refine (hc.tasks t ht).update (hevents _) (fun _ => rfl) fun o _ _ _ => ?_
    exact ⟨rfl, rfl, rfl, rfl, fun _ _ => Iff.rfl⟩
  | reconciled row outcome evidence replies now event_id payload hrow hstate houts =>
    have hmem := (mem_of_lookup hrow).1
    have hflight : row.inFlight := by
      rw [OperationRow.inFlight, hstate]
      rfl
    obtain ⟨task, htask⟩ := hj.task_of_operation hmem
    have hended : outcome ≠ .running ∧ outcome ≠ .outcomeUnknown := by
      rcases houts with rfl | rfl | rfl <;> decide
    have hsettled := hc.transition hj hrow htask (fun o ho => hs.alone hmem hflight ho)
      (f := fun o =>
        { o with
          dispatch_state := .settled
          outcome := some outcome
          evidence := some evidence
          replies := some replies
          settled_at := some now })
      (g := fun t =>
        { t with
          state := outcome
          open_question := none
          result_version := t.result_version + 1
          updated_at := now })
      (fun _ => rfl) ⟨rfl, rfl⟩ (by rw [hstate]; decide) (fun h => by cases h)
      (fun h => absurd h hended.1) (iff_of_false hended.2 fun h => by cases h) rfl fun h =>
        ⟨rfl, congrArg some h, _, mem_append_right _ (mem_singleton_self
          (⟨j.events.length + 1, event_id, row.task_id, some row.operation_id,
            "operation_reconciled", row.context_version, payload, .reconciliation⟩ : EventRow)),
          rfl, rfl⟩
    exact { hsettled.park (fun t => t = row.task_id) (by decide : DispatchState.suspended ∉ _) with }
  | markedUnknown row reason_code now event_id payload hrow hstate =>
    have hmem := (mem_of_lookup hrow).1
    have hflight : row.inFlight := by
      rw [OperationRow.inFlight, hstate]
      rfl
    obtain ⟨task, htask⟩ := hj.task_of_operation hmem
    exact { hc.transition hj hrow htask (fun o ho => hs.alone hmem hflight ho)
      (f := fun o => { o with dispatch_state := .unknown, reason_code := some reason_code })
      (g := fun t => { t with state := .outcomeUnknown, open_question := none, updated_at := now })
      (fun _ => rfl) ⟨rfl, rfl⟩ (by rw [hstate]; decide) (fun h => by cases h) (fun h => by cases h)
      (by simp) rfl (fun h => by cases h) with }
  | detached scope_id =>
    exact { hc.park (fun t => j.inScope scope_id t) (by decide : DispatchState.suspended ∉ _) with }

/-- What is known of every journal that is reached. -/
structure Sound (j : Journal) : Prop where
  keyed : Keyed j
  flight : SingleFlight j
  coupled : Coupled j

/-- Every write keeps what is known. -/
theorem Effect.sound {w : Write} {j' : Journal} (h : Effect w j j') (hj : Sound j) : Sound j' :=
  ⟨h.keyed hj.keyed, h.singleFlight hj.keyed hj.flight, h.coupled hj.keyed hj.flight hj.coupled⟩

theorem Sound.empty : Sound .empty := ⟨.empty, .empty, .empty⟩

/-- Every journal that is reached is sound. -/
theorem reached_sound (calls : List (Env × Call)) : Sound (reached calls) :=
  (reached_of_effect (fun _ _ _ _ hj h => h.sound hj) .empty calls).2

/-- The rows of tasks and operations agree in the journal after any calls. -/
theorem reached_coupled (calls : List (Env × Call)) :
    let j := reached calls
    (∀ o ∈ j.operations, o.dispatch_state = .submitted → ∃ t ∈ j.tasks, t.task_id = o.task_id ∧
        (t.state = .running ∨ t.state = .cancelRequested)) ∧
      (∀ t ∈ j.tasks, t.state = .running →
        ∃ o ∈ j.operations, o.task_id = t.task_id ∧ o.dispatch_state = .submitted) ∧
      (∀ t ∈ j.tasks, t.state = .outcomeUnknown ↔
        ∃ o ∈ j.operations, o.task_id = t.task_id ∧ o.dispatch_state = .unknown) ∧
      (∀ t ∈ j.tasks, t.result_version =
        (j.operations.filter fun o => o.task_id = t.task_id ∧ o.dispatch_state = .settled).length) ∧
      (∀ t ∈ j.tasks, t.context_version =
        (j.operations.filter fun o => o.task_id = t.task_id).length +
          (j.commands.filter fun c => c.task_id = t.task_id).length) ∧
      (j.operations.Pairwise fun a b =>
        a.task_id = b.task_id → a.context_version < b.context_version) ∧
      (∀ t ∈ j.tasks, t.state = .cancelled →
        (∀ o ∈ j.operations, o.task_id = t.task_id → o.submitted_at = none) ∨
          ∃ o ∈ j.operations, o.task_id = t.task_id ∧ o.ReconciledAs .cancelled j.events) ∧
      ∀ c ∈ j.commands, ∀ o ∈ j.operations, c.command_id ≠ o.utterance_id := by
  intro j
  obtain ⟨hj, -, hc⟩ := reached_sound calls
  refine ⟨fun o ho hs => ?_, fun t ht => (hc.tasks t ht).running, fun t ht => (hc.tasks t ht).unknown,
    fun t ht => ?_, fun t ht => ?_, hc.ordered, fun t ht => (hc.tasks t ht).cancelled, hc.commands⟩
  · obtain ⟨t, ht⟩ := hj.task_of_operation ho
    obtain ⟨hmem, hid⟩ := mem_of_lookup ht
    exact ⟨t, hmem, hid, (hc.tasks t hmem).submitted o ho hid.symm hs⟩
  · rw [← countP_eq_length_filter]
    exact (hc.tasks t ht).results
  · rw [← countP_eq_length_filter, ← countP_eq_length_filter]
    exact (hc.tasks t ht).versions

end StrixAlloy.TaskStore

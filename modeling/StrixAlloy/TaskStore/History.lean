import StrixAlloy.TaskStore.Coupling

/-!
# What stays in the journal

The events of the journal are numbered in the order in which they were written, so a reader that asks `events` for
what follows the last number that it got misses no event and gets none twice (`polled_all`). The row of a task that
succeeded, failed or was cancelled is not written any more (`final_kept`).
-/

namespace StrixAlloy.TaskStore

open Checked List

/-! ## The events -/

/-- The rows that `events` selects; they stand in the order of their numbers. -/
def eventRows (j : Journal) (task_id : String) (after : ℕ) : List EventRow :=
  j.events.filter fun e => e.task_id = task_id ∧ after < e.sequence

/-- `events` -/
def events (j : Journal) (task_id scope_id : String) (after : ℤ) : Except StoreError (List EventRow) := do
  require (0 ≤ after) (.invalid "invalid event cursor")
  let _ ← taskRow j task_id scope_id
  return eventRows j task_id after.toNat

/-- A reader of the events of a task, with its cursor and what it got so far. -/
structure Reader where
  after : ℕ
  got : List EventRow

/-- The reader asks for what follows its cursor, and goes on from the last number of the answer. -/
def Reader.poll (j : Journal) (task_id scope_id : String) (r : Reader) : Reader :=
  match events j task_id scope_id r.after with
  | .ok rows => ⟨(rows.getLast?.map EventRow.sequence).getD r.after, r.got ++ rows⟩
  | .error _ => r

/-- A call of the store, or a poll. -/
def follow (task_id scope_id : String) (s : Journal × Reader) : (Env × Call) ⊕ Unit → Journal × Reader
  | .inl call => (step s.1 call, s.2)
  | .inr () => (s.1, s.2.poll s.1 task_id scope_id)

variable {j j' : Journal} {w : Write}

/-- A write leaves the events, or appends one with the next number. -/
theorem Effect.events_concat (h : Effect w j j') :
    j'.events = j.events ∨ ∃ e, j'.events = j.events ++ [e] ∧ e.sequence = j.events.length + 1 := by
  cases h with
  | scopeAdded | ownedDispatched | ownedObserved | detached => exact .inl rfl
  | settled row task outcome state replies evidence question now id _ _ _ _ _ _ _ _ hq =>
    obtain ⟨questions, rfl⟩ := settleQuestions_frame hq
    exact .inr ⟨_, rfl, rfl⟩
  | created | accepted | noted | cancelled | dispatched | observed | receipted | reconciled | markedUnknown =>
    exact .inr ⟨_, rfl, rfl⟩

/-- The events are numbered in order, and none has a number greater than how many there are. -/
structure Numbered (j : Journal) : Prop where
  ordered : j.events.Pairwise fun a b => a.sequence < b.sequence
  bounded : ∀ e ∈ j.events, 0 < e.sequence ∧ e.sequence ≤ j.events.length

/-- A call appends events, whose numbers follow those before. -/
theorem step_events (hj : Keyed j) (hn : Numbered j) (call : Env × Call) :
    Numbered (step j call) ∧ ∃ es, (step j call).events = j.events ++ es ∧ ∀ e ∈ es, j.events.length < e.sequence := by
  refine (step_of_effect (P := fun j' => Numbered j' ∧ ∃ es, j'.events = j.events ++ es ∧
    ∀ e ∈ es, j.events.length < e.sequence) ?_ hj ⟨hn, [], by simp⟩ call).2
  rintro w j₁ j₂ - ⟨hn, es, hes, hlt⟩ h
  rcases h.events_concat with heq | ⟨e, heq, hseq⟩
  · refine ⟨⟨heq ▸ hn.ordered, ?_⟩, es, heq.trans hes, hlt⟩
    rw [heq]
    exact hn.bounded
  · have hlen : j.events.length ≤ j₁.events.length := by
      rw [hes, length_append]
      exact Nat.le_add_right ..
    refine ⟨⟨?_, fun a ha => ?_⟩, es ++ [e], by rw [heq, hes, append_assoc], fun a ha => ?_⟩
    · rw [heq]
      refine pairwise_append.2 ⟨hn.ordered, pairwise_singleton .., fun a ha b hb => ?_⟩
      have := (hn.bounded a ha).2
      rw [mem_singleton.1 hb]
      omega
    · rw [heq] at ha ⊢
      rw [length_append, length_singleton]
      rcases mem_append.1 ha with ha | ha
      · have := hn.bounded a ha
        omega
      · rw [mem_singleton.1 ha]
        omega
    · rcases mem_append.1 ha with ha | ha
      · exact hlt a ha
      · rw [mem_singleton.1 ha]
        omega

/-- What a cursor cuts off and what follows it are all rows. -/
theorem filter_cursor {l : List EventRow} (hl : l.Pairwise fun a b => a.sequence < b.sequence) (task_id : String)
    (n : ℕ) : (l.filter fun e => e.task_id = task_id ∧ e.sequence ≤ n) ++
      (l.filter fun e => e.task_id = task_id ∧ n < e.sequence) = l.filter fun e => e.task_id = task_id := by
  induction l with
  | nil => rfl
  | cons e l ih =>
    obtain ⟨he, hl⟩ := pairwise_cons.1 hl
    have ih := ih hl
    by_cases hn : e.sequence ≤ n
    · have hlt : ¬ n < e.sequence := Nat.not_lt.2 hn
      by_cases ht : e.task_id = task_id
      · simpa [hn, hlt, ht] using ih
      · simpa [ht] using ih
    · have hnone : (l.filter fun e => e.task_id = task_id ∧ e.sequence ≤ n) = [] := by
        refine filter_eq_nil_iff.2 fun a ha => ?_
        have := he a ha
        simp only [Bool.decide_and, Bool.and_eq_true, decide_eq_true_eq, not_and]
        omega
      rw [hnone, nil_append] at ih
      have hlt : n < e.sequence := Nat.lt_of_not_le hn
      simp only [Bool.decide_and] at hnone ih
      simp [filter_cons, hn, hlt, hnone, ih]

/-- The reader got what is up to its cursor. -/
structure Following (task_id : String) (j : Journal) (r : Reader) : Prop where
  keyed : Keyed j
  numbered : Numbered j
  cursor : r.after ≤ j.events.length
  got : r.got = j.events.filter fun e => e.task_id = task_id ∧ e.sequence ≤ r.after

variable {task_id : String} {r : Reader}

/-- What the next call of `events` returns completes what the reader got. -/
theorem Following.answer (h : Following task_id j r) (scope_id : String) :
    (events j task_id scope_id r.after).map (r.got ++ ·) =
      (taskRow j task_id scope_id).map fun _ => j.events.filter fun e => e.task_id = task_id := by
  unfold events eventRows
  rw [require, if_pos (Int.natCast_nonneg r.after), Int.toNat_natCast]
  cases taskRow j task_id scope_id with
  | error => rfl
  | ok =>
    refine congrArg Except.ok ?_
    rw [h.got]
    exact filter_cursor h.numbered.ordered task_id r.after

theorem Following.call (h : Following task_id j r) (call : Env × Call) : Following task_id (step j call) r := by
  obtain ⟨hn, es, hes, hlt⟩ := step_events h.keyed h.numbered call
  refine ⟨step_keyed h.keyed call, hn, ?_, ?_⟩
  · rw [hes, length_append]
    exact h.cursor.trans (Nat.le_add_right ..)
  · have hnone : (es.filter fun e => e.task_id = task_id ∧ e.sequence ≤ r.after) = [] := by
      refine filter_eq_nil_iff.2 fun e he => ?_
      have := hlt e he
      have := h.cursor
      simp only [Bool.decide_and, Bool.and_eq_true, decide_eq_true_eq, not_and]
      omega
    rw [hes, filter_append, hnone, append_nil]
    exact h.got

/-- An answer ends with the last of all rows. -/
theorem Following.le_last {rows : List EventRow} {e : EventRow} (h : Following task_id j r)
    (hall : r.got ++ (rows ++ [e]) = j.events.filter fun e => e.task_id = task_id) {a : EventRow} (ha : a ∈ j.events)
    (ht : a.task_id = task_id) : a.sequence ≤ e.sequence := by
  have hord : (r.got ++ (rows ++ [e])).Pairwise fun a b => a.sequence < b.sequence :=
    hall ▸ h.numbered.ordered.filter _
  have hin : a ∈ r.got ++ (rows ++ [e]) := hall ▸ mem_filter.2 ⟨ha, by simpa using ht⟩
  rw [← append_assoc] at hord hin
  rcases mem_append.1 hin with hin | hin
  · exact ((pairwise_append.1 hord).2.2 a hin e mem_cons_self).le
  · rw [mem_singleton.1 hin]

theorem Following.poll (h : Following task_id j r) (scope_id : String) :
    Following task_id j (r.poll j task_id scope_id) := by
  unfold Reader.poll
  cases hr : events j task_id scope_id r.after with
  | error => exact h
  | ok rows =>
    have hall : r.got ++ rows = j.events.filter fun e => e.task_id = task_id := by
      have h := h.answer scope_id
      rw [hr] at h
      cases htask : taskRow j task_id scope_id with
      | error =>
        rw [htask] at h
        cases h
      | ok =>
        rw [htask] at h
        exact Except.ok.inj h
    dsimp only
    rcases eq_nil_or_concat rows with rfl | ⟨init, e, rfl⟩
    · refine ⟨h.keyed, h.numbered, h.cursor, ?_⟩
      rw [append_nil]
      exact h.got
    rw [concat_eq_append] at hall ⊢
    have hmem : e ∈ r.got ++ (init ++ [e]) := by simp
    replace hmem := mem_of_mem_filter (hall ▸ hmem)
    rw [List.getLast?_concat, Option.map_some, Option.getD_some]
    refine ⟨h.keyed, h.numbered, (h.numbered.bounded e hmem).2, hall.trans (filter_congr fun a ha => ?_)⟩
    have := h.le_last hall ha
    simp only [Bool.decide_and]
    by_cases ht : a.task_id = task_id
    · simp [ht, this ht]
    · simp [ht]

/-- A reader that polls between any calls: its next call of `events` succeeds where the task is one of the scope, and
what it got and what the call returns are all events of the task, once and in order. -/
theorem polled_all (task_id scope_id : String) (is : List ((Env × Call) ⊕ Unit)) :
    let s := Runs.run (follow task_id scope_id) (.empty, ⟨0, []⟩) is
    (events s.1 task_id scope_id s.2.after).map (s.2.got ++ ·) =
      ((taskRow s.1 task_id scope_id).map fun _ => s.1.events.filter fun e => e.task_id = task_id) ∧
      (s.1.events.map EventRow.sequence).Pairwise (· < ·) := by
  intro s
  have h : Following task_id s.1 s.2 := by
    refine Runs.run_invariant (P := fun s : Journal × Reader => Following task_id s.1 s.2) ?_ is
      ⟨.empty, ⟨.nil, forall_mem_nil _⟩, Nat.le_refl _, rfl⟩
    rintro ⟨j, r⟩ (call | ⟨⟩) h
    · exact h.call call
    · exact h.poll scope_id
  exact ⟨h.answer scope_id, pairwise_map.2 h.numbered.ordered⟩

/-! ## The final tasks -/

/-- The states that a task does not leave. -/
def TaskState.final : TaskState → Bool
  | succeeded | failed | cancelled => true
  | _ => false

theorem final_terminal : ∀ {s : TaskState}, s.final → s.terminal ∧ s.closed ∧ s ≠ .running ∧
    s ≠ .cancelRequested ∧ s ≠ .outcomeUnknown := by
  intro s
  cases s <;> decide

theorem mem_setTask {t : TaskRow} (ht : t ∈ j.tasks) {id : String} (hne : t.task_id ≠ id) (f : TaskRow → TaskRow) :
    t ∈ (j.setTask id f).tasks := Table.mem_update_of_not ht hne

/-- No write changes a final task. -/
theorem Effect.final (h : Effect w j j') (hj : Keyed j) (hc : Coupled j) {t : TaskRow} (ht : t ∈ j.tasks)
    (hf : t.state.final) : t ∈ j'.tasks := by
  obtain ⟨hterminal, hclosed, hrunning, hrequested, hunknown⟩ := final_terminal hf
  have hother : ∀ {id task}, j.task? id = some task → task.state ≠ t.state → t.task_id ≠ id := by
    rintro id task htask hne rfl
    obtain ⟨hmem, hid⟩ := Table.mem_of_lookup htask
    exact hne (congrArg TaskRow.state (hj.tasks.eq_of_key_eq hmem ht hid))
  have hopen : ∀ {id task}, j.task? id = some task → task.state.terminal = false ∨ task.state.closed = false →
      t.task_id ≠ id := by
    refine fun htask hlive => hother htask fun e => ?_
    rw [e, hterminal, hclosed] at hlive
    simp at hlive
  cases h with
  | scopeAdded | observed | receipted | ownedDispatched | ownedObserved | detached => exact ht
  | created => exact mem_append_left _ ht
  | accepted task scope _ _ _ _ _ _ _ _ _ found _ _ live =>
    have hne := hopen found (.inr live)
    exact mem_setTask (mem_setTask ht hne _) hne _
  | noted task scope _ _ _ found _ _ live => exact mem_setTask ht (hopen found (.inr live)) _
  | cancelled task scope _ _ _ _ _ found _ _ live => exact mem_setTask ht (hopen found (.inl live)) _
  | dispatched row task scope _ _ _ _ found _ _ _ live => exact mem_setTask ht (hopen found (.inr live)) _
  | settled row task outcome state replies evidence question now id _ found _ live _ _ _ _ hq =>
    obtain ⟨questions, rfl⟩ := settleQuestions_frame hq
    exact mem_setTask ht (hopen found (.inl live)) _
  | reconciled row _ _ _ _ _ _ operation unknown =>
    obtain ⟨hmem, -⟩ := Table.mem_of_lookup operation
    refine mem_setTask ht (fun e => hunknown ?_) _
    exact (hc.tasks t ht).unknown.2 ⟨row, hmem, e.symm, unknown⟩
  | markedUnknown row _ _ _ _ operation submitted =>
    obtain ⟨hmem, -⟩ := Table.mem_of_lookup operation
    refine mem_setTask ht (fun e => ?_) _
    exact ((hc.tasks t ht).submitted row hmem e.symm submitted).elim hrunning hrequested

/-- A task that succeeded, failed or was cancelled keeps its row, whatever is called later. -/
theorem final_kept (pre post : List (Env × Call)) :
    ((reached pre).tasks.filter fun t => t.state.final) ⊆ (reached (pre ++ post)).tasks := by
  intro t ht
  obtain ⟨hmem, hf⟩ := mem_filter.1 ht
  unfold reached
  rw [Runs.run_append]
  refine (Runs.run_invariant (P := fun j => Sound j ∧ t ∈ j.tasks) (fun j call h => ?_) post
    ⟨reached_sound pre, hmem⟩).2
  exact (step_of_effect (P := fun j => Sound j ∧ t ∈ j.tasks)
    (fun _ _ _ hj h he => ⟨he.sound h.1, he.final hj h.1.coupled h.2 hf⟩) h.1.keyed h call).2

end StrixAlloy.TaskStore

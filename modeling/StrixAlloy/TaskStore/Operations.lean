import StrixAlloy.TaskStore.Calls

/-!
# The life of an operation

An operation keeps what it was accepted with, and its `dispatch_state` moves along `next` only. At
most one operation of the journal is in flight, which is what `dispatch` checks before it claims
another, so that an operation is submitted once.
-/

namespace StrixAlloy.TaskStore

open Checked List Table

/-! ## Moves -/

/-- The states to which an operation may move. -/
def DispatchState.next : DispatchState → List DispatchState
  | unsubmitted => [submitted, suspended, cancelled]
  | submitted => [settled, unknown]
  | unknown => [settled]
  | _ => []

/-- The moves that a kind of write makes. -/
def Write.moves : Write → DispatchState → List DispatchState
  | .dispatched, .unsubmitted => [.submitted]
  | .cancelled, .unsubmitted => [.suspended, .cancelled]
  | .settled, .submitted => [.settled]
  | .reconciled, .unknown => [.settled]
  | .reconciled, .unsubmitted => [.suspended]
  | .markedUnknown, .submitted => [.unknown]
  | .detached, .unsubmitted => [.suspended]
  | _, _ => []

/-- Every write moves along `next`. -/
theorem Write.moves_subset (w : Write) (s : DispatchState) : w.moves s ⊆ s.next := by
  cases w <;> cases s <;> decide

/-- No write of the kinds `ws` moves an operation on that one of them has moved. -/
def Once (ws : List Write) : Prop :=
  ∀ w ∈ ws, ∀ w' ∈ ws, ∀ s, ∀ s' ∈ w.moves s, w'.moves s' = []

/-- No write moves an operation twice. -/
theorem once_singleton (w : Write) : Once [w] := by
  intro w₁ h₁ w₂ h₂ s
  obtain rfl := mem_singleton.1 h₁
  obtain rfl := mem_singleton.1 h₂
  cases w₂ <;> cases s <;> decide

/-- No call moves an operation twice. -/
theorem Call.once (call : Call) : Once call.writes := by
  have hstill : Once [.scopeAdded, .created, .accepted] ∧ Once [.scopeAdded, .created] ∧
      Once [.observed, .ownedObserved] := by
    refine ⟨?_, ?_, ?_⟩ <;> intro w hw w' hw' s s' hs <;>
      simp only [mem_cons, not_mem_nil, or_false] at hw <;>
      rcases hw with rfl | rfl | rfl <;> cases s <;> exact absurd hs not_mem_nil
  cases call with
  | createTask => exact hstill.2.1
  | acceptNewTask => exact hstill.1
  | observeOwned => exact hstill.2.2
  | _ => exact once_singleton _

/-! ## What a write does to an operation -/

/-- What an operation is accepted with. -/
def OperationRow.identity (row : OperationRow) :
    String × String × String × ℕ × BusinessKind × String × Json :=
  (row.operation_id, row.task_id, row.utterance_id, row.context_version, row.kind, row.text,
    row.voice_context)

/-- What a settlement records. -/
def OperationRow.settlement (row : OperationRow) :
    Option TaskState × Option Json × Option Json :=
  (row.outcome, row.evidence, row.replies)

/-- The time of the submission is known exactly when the operation was submitted. -/
def OperationRow.Stamped (row : OperationRow) : Prop :=
  row.submitted_at.isSome ↔ row.dispatch_state ∈ [.submitted, .unknown, .settled]

/-- How writes of the kinds `ws` may change an operation. -/
structure OperationRow.Moves (ws : List Write) (o o' : OperationRow) : Prop where
  identity : o'.identity = o.identity
  state : o'.dispatch_state = o.dispatch_state ∨
    ∃ w ∈ ws, o'.dispatch_state ∈ w.moves o.dispatch_state
  /-- A settlement is final. -/
  settled : o.dispatch_state = .settled → o'.settlement = o.settlement
  /-- References that were recorded stay recorded. -/
  covers : ∀ q e r, o.Covers q e r → o'.Covers q e r
  stamped : o.Stamped → o'.Stamped

/-- An operation that a write does not concern. -/
theorem OperationRow.Moves.refl (ws : List Write) (o : OperationRow) : o.Moves ws o :=
  ⟨rfl, .inl rfl, fun _ => rfl, fun _ _ _ h => h, fun h => h⟩

/-- An operation that a write of the kind `w` moves from the state `s`. -/
theorem OperationRow.Moves.of_state {w : Write} {o o' : OperationRow} {s : DispatchState}
    (hs : o.dispatch_state = s) (hw : o'.dispatch_state ∈ w.moves s) (hne : s ≠ .settled)
      (hid : o'.identity = o.identity)
    (hrefs : o'.request_ref = o.request_ref ∧ o'.execution_ref = o.execution_ref ∧
      o'.receipt = o.receipt) (hstamp : o.Stamped → o'.Stamped) : o.Moves [w] o' := by
  refine ⟨hid, .inr ⟨w, mem_singleton_self w, by rwa [hs]⟩,
    fun h => absurd (hs.symm.trans h) hne, fun q e r h => ?_, hstamp⟩
  unfold OperationRow.Covers at h ⊢
  rwa [hrefs.1, hrefs.2.1, hrefs.2.2]

/-- Moves of some kinds are moves of more kinds. -/
theorem OperationRow.Moves.mono {ws ws' : List Write} {o o' : OperationRow} (h : o.Moves ws o')
    (hws : ws ⊆ ws') : o.Moves ws' o' :=
  { h with state := h.state.imp_right fun ⟨w, hw, hs⟩ => ⟨w, hws hw, hs⟩ }

/-- Where none moves twice, two changes are one. -/
theorem OperationRow.Moves.trans {ws : List Write} (hws : Once ws) {o o' o'' : OperationRow}
    (h : o.Moves ws o') (h' : o'.Moves ws o'') : o.Moves ws o'' := by
  refine ⟨h'.identity.trans h.identity, ?_, fun hs => ?_, fun q e r hc => h'.covers q e r
    (h.covers q e r hc), fun hs => h'.stamped (h.stamped hs)⟩
  · rcases h.state with e | ⟨w, hw, hmove⟩
    · rw [← e]
      exact h'.state
    · rcases h'.state with e | ⟨w', hw', hmove'⟩
      · rw [e]
        exact .inr ⟨w, hw, hmove⟩
      · rw [hws w hw w' hw' _ _ hmove] at hmove'
        cases hmove'
  · have hs' : o'.dispatch_state = .settled := by
      rcases h.state with e | ⟨w, -, hmove⟩
      · rw [e, hs]
      · have := w.moves_subset _ hmove
        rw [hs] at this
        cases this
    rw [h'.settled hs', h.settled hs]

/-- A reference that is in its column stays there. -/
theorem orText_covers {column : Option String} {q value : String}
    (h : orText column q = orText column "") :
    orText (some (orText column value)) q = orText (some (orText column value)) "" := by
  unfold orText at h ⊢
  cases column <;> grind

/-- The fields of a receipt stay when fields are merged that do not contradict it. -/
theorem Receipt.merge_covers {previous receipt r : Receipt} (hr : previous.merge r = previous)
    (hagrees : previous.agrees receipt) :
    (previous.merge receipt).merge r = previous.merge receipt := by
  have hfield : ∀ x y p : Option String, x.or p = p → (∀ a ∈ p, ∀ b ∈ y, a = b) →
      x.or (y.or p) = y.or p := by
    intro x y p hx hy
    cases x <;> cases y <;> cases p <;> simp_all
  have h1 := congrArg Receipt.status hr
  have h2 := congrArg Receipt.task_ref hr
  have h3 := congrArg Receipt.operation_ref hr
  have h4 := congrArg Receipt.request_ref hr
  have h5 := congrArg Receipt.execution_ref hr
  simp only [Receipt.agrees, Receipt.fields, zip_cons_cons, zip_nil_right,
    forall_mem_cons] at hagrees
  obtain ⟨a1, a2, a3, a4, a5, -⟩ := hagrees
  simp only [Receipt.merge, hfield _ _ _ h1 a1, hfield _ _ _ h2 a2, hfield _ _ _ h3 a3,
    hfield _ _ _ h4 a4, hfield _ _ _ h5 a5]

/-- An operation that waits is parked. -/
theorem moves_parked {w : Write} {o : OperationRow} {state : DispatchState}
    (h : o.dispatch_state = .unsubmitted) (hw : state ∈ w.moves .unsubmitted)
    (hstate : state ∉ [DispatchState.submitted, .unknown, .settled]) :
    o.Moves [w] { o with dispatch_state := state } := by
  refine .of_state h hw (by decide) rfl ⟨rfl, rfl, rfl⟩ fun hs => ?_
  unfold OperationRow.Stamped at hs ⊢
  rw [h] at hs
  rw [hs]
  exact iff_of_false (by decide) hstate

section Update

variable {j j' : Journal} {ws : List Write} {f : OperationRow → OperationRow} {id : String}
  {o : OperationRow}

/-- An update that changes each operation by a move changes the operation that is read by one. -/
theorem moves_of_update {p : OperationRow → Prop} [DecidablePred p]
    (hops : j'.operations = Table.update p f j.operations)
    (hmoves : ∀ o, j.operation? o.operation_id = some o → p o → o.Moves ws (f o))
    (ho : j.operation? id = some o)
    (hid : ∀ o, (f o).operation_id = o.operation_id) :
    ∃ o', j'.operation? id = some o' ∧ o.Moves ws o' := by
  have hkey := (mem_of_lookup ho).2
  have hread := ho
  unfold Journal.operation? at ho ⊢
  rw [hops, lookup_update hid, ho]
  refine ⟨_, rfl, ?_⟩
  dsimp only
  split_ifs with hp
  · exact hmoves o (hkey ▸ hread) hp
  · exact .refl ws o

/-- The update of one operation. -/
theorem moves_of_setOperation {row : OperationRow}
    (hops : j'.operations = (j.setOperation row.operation_id f).operations)
    (hrow : j.operation? row.operation_id = some row) (hmoves : row.Moves ws (f row))
    (ho : j.operation? id = some o)
    (hid : ∀ o, (f o).operation_id = o.operation_id) :
    ∃ o', j'.operation? id = some o' ∧ o.Moves ws o' := by
  refine moves_of_update hops (fun o ho hp => ?_) ho hid
  rw [hp, hrow] at ho
  cases ho
  exact hmoves

end Update

/-- Every write changes an operation by a move of its kind. -/
theorem Effect.operation_moves {w : Write} {j j' : Journal} (h : Effect w j j') {id : String}
    {o : OperationRow} (ho : j.operation? id = some o) :
    ∃ o', j'.operation? id = some o' ∧ o.Moves [w] o' := by
  cases h with
  | scopeAdded | created | noted | observed | ownedDispatched | ownedObserved =>
    exact ⟨o, ho, .refl _ o⟩
  | accepted =>
    refine ⟨o, ?_, .refl _ o⟩
    unfold Journal.operation? at ho ⊢
    simp [ho]
  | cancelled =>
    refine moves_of_update rfl (fun o _ hp => ?_) ho fun _ => rfl
    unfold cancelledState
    split_ifs <;> exact moves_parked hp.2 (by decide) (by decide)
  | dispatched row task scope now event_id payload hrow _ _ _ hstate =>
    refine moves_of_setOperation rfl hrow ?_ ho fun _ => rfl
    exact .of_state hstate mem_cons_self (by decide) rfl ⟨rfl, rfl, rfl⟩
      fun _ => by simp [OperationRow.Stamped]
  | settled row task outcome state replies evidence question now id hrow _ hstate _ _ _ _ _ hq =>
    obtain ⟨questions, rfl⟩ := settleQuestions_frame hq
    refine moves_of_setOperation rfl hrow ?_ ho fun _ => rfl
    refine .of_state hstate mem_cons_self (by decide) rfl ⟨rfl, rfl, rfl⟩ fun hs => ?_
    unfold OperationRow.Stamped at hs ⊢
    simp [hs, hstate]
  | receipted row request_ref execution_ref event_id receipt payload hrow _ hagrees =>
    refine moves_of_setOperation rfl hrow ?_ ho fun _ => rfl
    refine ⟨rfl, .inl rfl, fun _ => rfl, ?_, fun hs => hs⟩
    rintro q e r ⟨hq, he, hr⟩
    exact ⟨orText_covers hq, orText_covers he, Receipt.merge_covers hr hagrees⟩
  | reconciled row outcome evidence replies now event_id payload hrow hstate =>
    -- the operation is settled first, and then what waits is parked
    let settle : OperationRow → OperationRow := fun o =>
      { o with
        dispatch_state := .settled
        outcome := some outcome
        evidence := some evidence
        replies := some replies
        settled_at := some now }
    have hsettle : row.Moves [.reconciled] (settle row) := by
      refine .of_state hstate mem_cons_self (by decide) rfl ⟨rfl, rfl, rfl⟩ fun hs => ?_
      unfold OperationRow.Stamped at hs ⊢
      simp [hs, hstate, settle]
    obtain ⟨o₁, ho₁, hmoves₁⟩ : ∃ o₁, (j.setOperation row.operation_id settle).operation? id =
        some o₁ ∧ o.Moves [.reconciled] o₁ := moves_of_setOperation rfl hrow hsettle ho fun _ => rfl
    obtain ⟨o₂, ho₂, hmoves₂⟩ : ∃ o₂, ((j.setOperation row.operation_id settle).parkUnsubmitted
        (fun t => t = row.task_id) .suspended).operation? id = some o₂ ∧
          o₁.Moves [.reconciled] o₂ :=
      moves_of_update rfl (fun o _ hp => moves_parked hp.2 mem_cons_self (by decide)) ho₁ fun _ => rfl
    exact ⟨o₂, ho₂, hmoves₁.trans (once_singleton _) hmoves₂⟩
  | markedUnknown row reason_code now event_id payload hrow hstate =>
    refine moves_of_setOperation rfl hrow ?_ ho fun _ => rfl
    refine .of_state hstate mem_cons_self (by decide) rfl ⟨rfl, rfl, rfl⟩ fun hs => ?_
    unfold OperationRow.Stamped at hs ⊢
    simp [hs, hstate]
  | detached =>
    exact moves_of_update rfl (fun o _ hp => moves_parked hp.2 (by decide) (by decide)) ho fun _ => rfl

/-- An operation that a write adds waits for its dispatch. -/
theorem Effect.operation_new {w : Write} {j j' : Journal} (h : Effect w j j') {id : String}
    {o : OperationRow} (hnone : j.operation? id = none) (ho : j'.operation? id = some o) :
    w = .accepted ∧ o.dispatch_state = .unsubmitted ∧ o.Stamped := by
  cases h with
  | scopeAdded | created | noted | observed | ownedDispatched | ownedObserved =>
    rw [show j.operation? id = some o from ho] at hnone
    cases hnone
  | accepted =>
    unfold Journal.operation? at hnone ho
    simp [hnone] at ho
    obtain ⟨-, rfl⟩ := ho
    exact ⟨rfl, rfl, by simp [OperationRow.Stamped, acceptedOperation]⟩
  | settled row task outcome state replies evidence question now id _ _ _ _ _ _ _ _ hq =>
    obtain ⟨questions, rfl⟩ := settleQuestions_frame hq
    unfold Journal.operation? at hnone ho
    simp [hnone] at ho
  | cancelled | dispatched | receipted | reconciled | markedUnknown | detached =>
    unfold Journal.operation? at hnone ho
    simp [hnone] at ho

/-- An operation after a write is new and waits, or it was there and moved. -/
theorem Effect.operation_cases {w : Write} {j j' : Journal} (h : Effect w j j') (hj : Keyed j)
    {o' : OperationRow} (ho' : o' ∈ j'.operations) :
    (j.operation? o'.operation_id = none ∧ o'.dispatch_state = .unsubmitted ∧ o'.Stamped) ∨
      ∃ o ∈ j.operations, o.Moves [w] o' := by
  have hread := lookup_of_mem (h.keyed hj).operations ho'
  cases hold : j.operation? o'.operation_id with
  | none => exact .inl ⟨rfl, (h.operation_new hold hread).2⟩
  | some o =>
    obtain ⟨o₁, ho₁, hmoves⟩ := h.operation_moves hold
    have heq : o₁ = o' := Option.some.inj (ho₁.symm.trans hread)
    exact .inr ⟨o, (mem_of_lookup hold).1, heq ▸ hmoves⟩

/-! ## One operation in flight -/

/-- The times of submission agree with the states, and at most one operation is in flight. -/
structure SingleFlight (j : Journal) : Prop where
  stamped : ∀ o ∈ j.operations, o.Stamped
  single : j.operations.countP OperationRow.inFlight ≤ 1

theorem SingleFlight.empty : SingleFlight .empty := ⟨by simp [Journal.empty], by simp [Journal.empty]⟩

/-- Nothing is in flight when `has_unresolved` says so. -/
theorem countP_inFlight_eq_zero {j : Journal} (h : hasUnresolved j = false) :
    j.operations.countP OperationRow.inFlight = 0 := by
  rw [countP_eq_zero]
  simpa [hasUnresolved] using h

/-- Parking changes nothing that is in flight. -/
theorem countP_inFlight_park {rows : List OperationRow} (p : String → Prop) [DecidablePred p]
    {state : DispatchState} (hstate : state.inFlight = false) :
    (Table.update (fun o => p o.task_id ∧ o.dispatch_state = .unsubmitted)
        (fun o => { o with dispatch_state := state }) rows).countP OperationRow.inFlight =
      rows.countP OperationRow.inFlight := by
  refine countP_update fun o _ hp => ?_
  simp only [OperationRow.inFlight, hp.2, hstate]
  rfl

/-- The update of one operation changes the number of those in flight by that operation. -/
theorem countP_inFlight_set {j : Journal} (hj : Keyed j) {row : OperationRow}
    (hrow : j.operation? row.operation_id = some row) (f : OperationRow → OperationRow) :
    (j.setOperation row.operation_id f).operations.countP OperationRow.inFlight +
        (if row.inFlight then 1 else 0) =
      j.operations.countP OperationRow.inFlight + (if (f row).inFlight then 1 else 0) :=
  countP_update_at hj.operations (mem_of_lookup hrow).1 _

/-- Every write keeps the flight single: only a claim raises the number of operations in flight, and
it is made when that number is zero. -/
theorem Effect.countP_inFlight {w : Write} {j j' : Journal} (h : Effect w j j') (hj : Keyed j)
    (hs : j.operations.countP OperationRow.inFlight ≤ 1) :
    j'.operations.countP OperationRow.inFlight ≤ 1 := by
  cases h with
  | scopeAdded | created | noted | observed | ownedDispatched | ownedObserved => exact hs
  | accepted =>
    simp only [Journal.setTask_operations, Journal.dropQuestions_operations, Journal.log_operations,
      Journal.insertOperation_operations, countP_append]
    simpa [acceptedOperation, OperationRow.inFlight, DispatchState.inFlight] using hs
  | cancelled task =>
    refine (countP_inFlight_park (fun t => t = task.task_id) ?_).le.trans hs
    unfold cancelledState
    split_ifs <;> rfl
  | dispatched row task scope now event_id payload hrow _ _ _ hstate _ hidle =>
    have hcount := countP_inFlight_set hj hrow fun o =>
      { o with dispatch_state := .submitted, submitted_at := some now }
    rw [countP_inFlight_eq_zero hidle] at hcount
    simp only [OperationRow.inFlight, hstate, DispatchState.inFlight] at hcount
    exact hcount.le
  | settled row task outcome state replies evidence question now id hrow _ hstate _ _ _ _ _ hq =>
    obtain ⟨questions, rfl⟩ := settleQuestions_frame hq
    have hcount := countP_inFlight_set hj hrow fun o =>
      { o with
        dispatch_state := .settled
        replies := some (repliesJson replies)
        evidence := some evidence
        outcome := some outcome
        settled_at := some now }
    simp only [OperationRow.inFlight, hstate, DispatchState.inFlight] at hcount
    exact (Nat.le_of_succ_le hcount.le).trans hs
  | receipted =>
    refine (countP_update ?_).le.trans hs
    exact fun _ _ _ => rfl
  | reconciled row outcome evidence replies now event_id payload hrow hstate =>
    have hcount := countP_inFlight_set hj hrow fun o =>
      { o with
        dispatch_state := .settled
        outcome := some outcome
        evidence := some evidence
        replies := some replies
        settled_at := some now }
    simp only [OperationRow.inFlight, hstate, DispatchState.inFlight] at hcount
    refine (countP_inFlight_park (fun t => t = row.task_id) ?_).le.trans ?_
    · rfl
    exact (Nat.le_of_succ_le hcount.le).trans hs
  | markedUnknown row reason_code now event_id payload hrow hstate =>
    have hcount := countP_inFlight_set hj hrow fun o =>
      { o with dispatch_state := .unknown, reason_code := some reason_code }
    simp only [OperationRow.inFlight, hstate, DispatchState.inFlight] at hcount
    exact (Nat.succ_le_succ_iff.1 hcount.le).trans hs
  | detached scope_id =>
    refine (countP_inFlight_park (fun t => j.inScope scope_id t) ?_).le.trans hs
    rfl

/-- Every write keeps the flight single and the times of submission. -/
theorem Effect.singleFlight {w : Write} {j j' : Journal} (h : Effect w j j') (hj : Keyed j)
    (hs : SingleFlight j) : SingleFlight j' := by
  refine ⟨fun o' ho' => ?_, h.countP_inFlight hj hs.single⟩
  rcases h.operation_cases hj ho' with ⟨-, -, hstamped⟩ | ⟨o, ho, hmoves⟩
  · exact hstamped
  · exact hmoves.stamped (hs.stamped o ho)

/-- Every journal that is reached has at most one operation in flight. -/
theorem reached_singleFlight (calls : List (Env × Call)) :
    Keyed (reached calls) ∧ SingleFlight (reached calls) :=
  reached_of_effect (fun _ _ _ hj hs h => h.singleFlight hj hs) .empty calls

/-! ## Calls -/

/-- A call changes an operation by at most one move. -/
theorem step_operation_moves {j : Journal} (hj : Keyed j) (call : Env × Call) {id : String}
    {o : OperationRow} (ho : j.operation? id = some o) :
    ∃ o', (step j call).operation? id = some o' ∧ o.Moves call.2.writes o' := by
  unfold step
  split
  · next j' hrun =>
    have hwrites := Call.writes_of_run hj.operations hrun
    clear hrun
    induction hwrites with
    | refl => exact ⟨o, ho, .refl _ o⟩
    | tail _ heffect ih =>
      obtain ⟨o₁, ho₁, hmoves₁⟩ := ih
      obtain ⟨w, hw, heffect⟩ := heffect
      obtain ⟨o₂, ho₂, hmoves₂⟩ := heffect.operation_moves ho₁
      have hsub := cons_subset.2 ⟨hw, nil_subset _⟩
      exact ⟨o₂, ho₂, hmoves₁.trans call.2.once (hmoves₂.mono hsub)⟩
  · exact ⟨o, ho, .refl _ o⟩

/-- A call that accepts an utterance moves no operation. -/
theorem Call.moves_of_accepted {call : Call} (h : Write.accepted ∈ call.writes) {w : Write}
    (hw : w ∈ call.writes) (s : DispatchState) : w.moves s = [] := by
  cases call with
  | accept | acceptNewTask =>
    simp only [writes, mem_cons, not_mem_nil, or_false] at hw
    rcases hw with rfl | rfl | rfl <;> cases s <;> rfl
  | _ => simp [writes] at h

/-- An operation that a call adds waits for its dispatch. -/
theorem step_operation_new {j : Journal} (hj : Keyed j) (call : Env × Call) {id : String}
    {o : OperationRow} (hnone : j.operation? id = none) (ho : (step j call).operation? id = some o) :
    o.dispatch_state = .unsubmitted := by
  unfold step at ho
  split at ho
  · next j' hrun =>
    -- once the operation is there, the call has accepted it, so that it moves nothing
    suffices h : ∀ o, j'.operation? id = some o →
        o.dispatch_state = .unsubmitted ∧ Write.accepted ∈ call.2.writes from (h o ho).1
    have hwrites := Call.writes_of_run hj.operations hrun
    clear hrun ho o
    induction hwrites with
    | refl =>
      intro o ho
      rw [hnone] at ho
      cases ho
    | @tail j₁ j₂ _ heffect ih =>
      intro o₂ ho₂
      obtain ⟨w, hw, heffect⟩ := heffect
      cases ho₁ : j₁.operation? id with
      | none =>
        obtain ⟨rfl, hstate, -⟩ := heffect.operation_new ho₁ ho₂
        exact ⟨hstate, hw⟩
      | some o₁ =>
        obtain ⟨hstate, haccepted⟩ := ih o₁ ho₁
        obtain ⟨o, ho, hmoves⟩ := heffect.operation_moves ho₁
        cases ho.symm.trans ho₂
        refine ⟨?_, haccepted⟩
        rcases hmoves.state with e | ⟨w', hw', hmove⟩
        · rw [e, hstate]
        · obtain rfl := mem_singleton.1 hw'
          rw [Call.moves_of_accepted haccepted hw] at hmove
          cases hmove
  · rw [hnone] at ho
    cases ho

/-! ## Submissions -/

/-- The identifier that a successful dispatch returns. -/
def submitted (j : Journal) (call : Env × Call) : List String :=
  match call.2 with
  | .dispatch operation_id =>
    match dispatch j call.1 operation_id with
    | .ok (row, _) => [row.operation_id]
    | .error _ => []
  | _ => []

/-- The identifiers that the successful dispatches of a run return, in order. -/
def submissions : Journal → List (Env × Call) → List String
  | _, [] => []
  | j, call :: calls => submitted j call ++ submissions (step j call) calls

/-- A call submits at most one operation. -/
theorem nodup_submitted (j : Journal) (call : Env × Call) : (submitted j call).Nodup := by
  unfold submitted
  split
  · split <;> simp
  · exact nodup_nil

/-- An operation that is submitted was waiting, and does not wait afterwards. -/
theorem of_mem_submitted {j : Journal} {call : Env × Call} {id : String}
    (h : id ∈ submitted j call) :
    (∃ o, j.operation? id = some o ∧ o.dispatch_state = .unsubmitted) ∧
      ∃ o', (step j call).operation? id = some o' ∧ o'.dispatch_state ≠ .unsubmitted := by
  unfold submitted at h
  split at h
  · next operation_id hcall =>
    split at h
    · next row j' hrun =>
      obtain rfl := mem_singleton.1 h
      obtain ⟨-, rfl, hbefore, hafter, hstate⟩ := dispatch_ok hrun
      have hstep : step j call = j' := step_of_ok (by
        rw [hcall, Call.run, hrun]
        rfl)
      rw [hstep]
      exact ⟨hbefore, row, hafter, by rw [hstate]; decide⟩
    · cases h
  · cases h

/-- An operation that no longer waits is submitted by no later call. -/
theorem not_mem_submissions {j : Journal} (hj : Keyed j) {id : String} {o : OperationRow}
    (ho : j.operation? id = some o) (hstate : o.dispatch_state ≠ .unsubmitted)
    (calls : List (Env × Call)) : id ∉ submissions j calls := by
  induction calls generalizing j o with
  | nil => exact not_mem_nil
  | cons call calls ih =>
    rw [submissions, mem_append]
    rintro (h | h)
    · obtain ⟨⟨o₁, ho₁, hwaits⟩, -⟩ := of_mem_submitted h
      rw [ho] at ho₁
      cases ho₁
      exact hstate hwaits
    · obtain ⟨o', ho', hmoves⟩ := step_operation_moves hj call ho
      refine ih (step_keyed hj call) ho' ?_ h
      rcases hmoves.state with e | ⟨w, -, hmove⟩
      · rwa [e]
      · intro hs
        have := w.moves_subset _ hmove
        rw [hs] at this
        cases ho'' : o.dispatch_state <;> rw [ho''] at this <;> simp [DispatchState.next] at this

/-- No run submits an operation twice. -/
theorem nodup_submissions {j : Journal} (hj : Keyed j) (calls : List (Env × Call)) :
    (submissions j calls).Nodup := by
  induction calls generalizing j with
  | nil => exact nodup_nil
  | cons call calls ih =>
    rw [submissions, nodup_append]
    refine ⟨nodup_submitted j call, ih (step_keyed hj call), ?_⟩
    rintro id hid _ hlater rfl
    obtain ⟨-, o', ho', hstate⟩ := of_mem_submitted hid
    exact not_mem_submissions (step_keyed hj call) ho' hstate calls hlater

/-- The life of an operation in the journal after any calls: at most one operation is in flight,
the next call moves an operation along `next` or leaves its state, what it adds waits, the time of
submission is known exactly from the submission on, and no operation was submitted twice. -/
theorem dispatch_at_most_once (calls : List (Env × Call)) :
    ((reached calls).operations.filter OperationRow.inFlight).length ≤ 1 ∧
      (∀ call id o, (reached calls).operation? id = some o →
        ∃ o', (step (reached calls) call).operation? id = some o' ∧
          (o'.dispatch_state = o.dispatch_state ∨ o'.dispatch_state ∈ o.dispatch_state.next)) ∧
      (∀ call id o, (reached calls).operation? id = none →
        (step (reached calls) call).operation? id = some o → o.dispatch_state = .unsubmitted) ∧
      (∀ o ∈ (reached calls).operations, o.submitted_at.isSome ↔
        o.dispatch_state ∈ [.submitted, .unknown, .settled]) ∧
      (submissions .empty calls).Nodup := by
  obtain ⟨hj, hs⟩ := reached_singleFlight calls
  refine ⟨?_, fun call id o ho => ?_, fun call id o hnone ho => step_operation_new hj call hnone ho,
    hs.stamped, nodup_submissions .empty calls⟩
  · rw [← countP_eq_length_filter]
    exact hs.single
  · obtain ⟨o', ho', hmoves⟩ := step_operation_moves hj call ho
    refine ⟨o', ho', hmoves.state.imp_right ?_⟩
    rintro ⟨w, -, hmove⟩
    exact w.moves_subset _ hmove

end StrixAlloy.TaskStore

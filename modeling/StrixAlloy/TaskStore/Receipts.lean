import StrixAlloy.TaskStore.Operations

/-!
# The receipts of an operation

The references of an operation are written by `record_receipt` alone. It adds what is missing, so what is recorded
stays (`OperationRow.Extends`), and a reference in the receipt is the one in its column (`OperationRow.Bound`).
-/

namespace StrixAlloy.TaskStore

open Checked

/-- The columns of an operation that `record_receipt` writes. -/
def OperationRow.refs (o : OperationRow) : Option String × Option String × Option Receipt :=
  (o.request_ref, o.execution_ref, o.receipt)

/-- What one receipt records, another records with the same value. -/
def Receipt.Within (r r' : Receipt) : Prop := ∀ f ∈ r.fields.zip r'.fields, ∀ v ∈ f.1.2, f.2.2 = some v

/-- What an operation records stays recorded with its value. -/
structure OperationRow.Extends (o o' : OperationRow) : Prop where
  request : ∀ q ∈ o.request_ref, q ≠ "" → o'.request_ref = some q
  execution : ∀ e ∈ o.execution_ref, e ≠ "" → o'.execution_ref = some e
  receipt : ∀ r ∈ o.receipt, ∃ r', o'.receipt = some r' ∧ r.Within r'

/-- The references in the receipt are those in the columns, and only an operation that was submitted has any. -/
structure OperationRow.Bound (o : OperationRow) : Prop where
  request : ∀ r ∈ o.receipt, ∀ q ∈ r.request_ref, q ≠ "" ∧ o.request_ref = some q
  execution : ∀ r ∈ o.receipt, ∀ e ∈ r.execution_ref, e ≠ "" ∧ o.execution_ref = some e
  state : o.refs ≠ (none, none, none) → o.dispatch_state ∈ [.submitted, .unknown, .settled]

theorem Receipt.within_iff {r r' : Receipt} : r.Within r' ↔ (∀ v ∈ r.status, r'.status = some v) ∧
    (∀ v ∈ r.task_ref, r'.task_ref = some v) ∧ (∀ v ∈ r.operation_ref, r'.operation_ref = some v) ∧
    (∀ v ∈ r.request_ref, r'.request_ref = some v) ∧ ∀ v ∈ r.execution_ref, r'.execution_ref = some v := by
  simp [Receipt.Within, Receipt.fields]

theorem Receipt.Within.refl (r : Receipt) : r.Within r :=
  Receipt.within_iff.2 ⟨fun _ h => h, fun _ h => h, fun _ h => h, fun _ h => h, fun _ h => h⟩

theorem Receipt.Within.trans {r r' r'' : Receipt} (h : r.Within r') (h' : r'.Within r'') : r.Within r'' := by
  obtain ⟨a1, a2, a3, a4, a5⟩ := Receipt.within_iff.1 h
  obtain ⟨b1, b2, b3, b4, b5⟩ := Receipt.within_iff.1 h'
  exact Receipt.within_iff.2 ⟨fun v hv => b1 v (a1 v hv), fun v hv => b2 v (a2 v hv), fun v hv => b3 v (a3 v hv),
    fun v hv => b4 v (a4 v hv), fun v hv => b5 v (a5 v hv)⟩

/-- Merging what does not contradict a receipt keeps its fields. -/
theorem Receipt.within_merge {r r' : Receipt} (h : r.agrees r') : r.Within (r.merge r') := by
  have hfield : ∀ p x : Option String, (∀ a ∈ p, ∀ b ∈ x, a = b) → ∀ v ∈ p, x.or p = some v := by
    intro p x hx v hv
    cases x with
    | none => exact hv
    | some b => exact congrArg some (hx v hv b rfl).symm
  simp only [Receipt.agrees, Receipt.fields, List.zip_cons_cons, List.zip_nil_right, List.forall_mem_cons] at h
  obtain ⟨h1, h2, h3, h4, h5, -⟩ := h
  exact Receipt.within_iff.2 ⟨hfield _ _ h1, hfield _ _ h2, hfield _ _ h3, hfield _ _ h4, hfield _ _ h5⟩

namespace OperationRow

variable {o o' o'' : OperationRow}

theorem Extends.of_refs (h : o'.refs = o.refs) : o.Extends o' := by
  obtain ⟨hq, h⟩ := Prod.mk.inj h
  obtain ⟨he, hr⟩ := Prod.mk.inj h
  exact ⟨fun q hm _ => hq.trans hm, fun e hm _ => he.trans hm, fun r hm => ⟨r, hr.trans hm, .refl r⟩⟩

theorem Extends.trans (h : o.Extends o') (h' : o'.Extends o'') : o.Extends o'' := by
  refine ⟨fun q hm hne => h'.request q (h.request q hm hne) hne,
    fun e hm hne => h'.execution e (h.execution e hm hne) hne, fun r hm => ?_⟩
  obtain ⟨r', hr', hw⟩ := h.receipt r hm
  obtain ⟨r'', hr'', hw'⟩ := h'.receipt r' hr'
  exact ⟨r'', hr'', hw.trans hw'⟩

/-- An operation that moves with its references. -/
theorem Bound.of_refs {ws : List Write} (h : o.Bound) (hm : o.Moves ws o') (hr : o'.refs = o.refs) : o'.Bound := by
  have hrefs := hr
  obtain ⟨hq, hr⟩ := Prod.mk.inj hr
  obtain ⟨he, hr⟩ := Prod.mk.inj hr
  refine ⟨fun r hmem q hin => ?_, fun r hmem e hin => ?_, fun hne => ?_⟩
  · rw [hq]
    exact h.request r (hr.symm.trans hmem) q hin
  · rw [he]
    exact h.execution r (hr.symm.trans hmem) e hin
  · rw [hrefs] at hne
    have hs := h.state hne
    obtain heq | ⟨w, -, hmove⟩ := hm.state
    · rwa [heq]
    · have hnext := w.moves_subset _ hmove
      cases hd : o.dispatch_state <;> rw [hd] at hs hnext <;> revert hs hnext <;> cases o'.dispatch_state <;> decide

theorem bound_none (h : o.refs = (none, none, none)) : o.Bound := by
  obtain ⟨-, h'⟩ := Prod.mk.inj h
  obtain ⟨-, hr⟩ := Prod.mk.inj h'
  refine ⟨fun r hm => ?_, fun r hm => ?_, fun hne => absurd h hne⟩
  · rw [hr] at hm
    cases hm
  · rw [hr] at hm
    cases hm

end OperationRow

/-! ## The other writes -/

section Update

variable {j j' : Journal} {f : OperationRow → OperationRow} {id : String} {o : OperationRow}

/-- An update of the operations relates each to what is read after it. -/
theorem read_update {R : OperationRow → OperationRow → Prop} {p : OperationRow → Prop} [DecidablePred p]
    (hops : j'.operations = Table.update p f j.operations) (hid : ∀ o, (f o).operation_id = o.operation_id)
    (hR : ∀ o, j.operation? o.operation_id = some o → R o (if p o then f o else o)) (ho : j.operation? id = some o) :
    ∃ o', j'.operation? id = some o' ∧ R o o' := by
  have hkey := (Table.mem_of_lookup ho).2
  have hread := hR o (by rw [hkey]; exact ho)
  unfold Journal.operation? at ho ⊢
  rw [hops, Table.lookup_update hid, ho]
  exact ⟨_, rfl, hread⟩

theorem refs_of_update (j' : Journal) {p : OperationRow → Prop} [DecidablePred p]
    (hops : j'.operations = Table.update p f j.operations) (hrefs : ∀ o, (f o).refs = o.refs)
    (hid : ∀ o, (f o).operation_id = o.operation_id) (ho : j.operation? id = some o) :
    ∃ o', j'.operation? id = some o' ∧ o'.refs = o.refs := by
  refine read_update (R := fun o o' => o'.refs = o.refs) hops hid (fun o _ => ?_) ho
  split_ifs
  · exact hrefs o
  · rfl

end Update

variable {j j' : Journal}

/-- A write other than that of a receipt keeps the references. -/
theorem Effect.refs {w : Write} (h : Effect w j j') (hw : w ≠ .receipted) {id : String} {o : OperationRow}
    (ho : j.operation? id = some o) : ∃ o', j'.operation? id = some o' ∧ o'.refs = o.refs := by
  cases h with
  | scopeAdded | created | noted | observed | ownedDispatched | ownedObserved => exact ⟨o, ho, rfl⟩
  | accepted =>
    refine ⟨o, ?_, rfl⟩
    unfold Journal.operation? at ho ⊢
    simp [ho]
  | cancelled => exact refs_of_update _ rfl (fun _ => rfl) (fun _ => rfl) ho
  | dispatched => exact refs_of_update _ rfl (fun _ => rfl) (fun _ => rfl) ho
  | settled row task outcome state replies evidence question now id _ _ _ _ _ _ _ _ hq =>
    obtain ⟨questions, rfl⟩ := settleQuestions_frame hq
    exact refs_of_update _ rfl (fun _ => rfl) (fun _ => rfl) ho
  | receipted => exact absurd rfl hw
  | reconciled row outcome evidence replies now =>
    obtain ⟨o₁, ho₁, h₁⟩ := refs_of_update (j.setOperation row.operation_id fun o =>
      { o with
        dispatch_state := .settled
        outcome := some outcome
        evidence := some evidence
        replies := some replies
        settled_at := some now }) rfl (fun _ => rfl) (fun _ => rfl) ho
    obtain ⟨o₂, ho₂, h₂⟩ := refs_of_update ((j.setOperation row.operation_id fun o =>
      { o with
        dispatch_state := .settled
        outcome := some outcome
        evidence := some evidence
        replies := some replies
        settled_at := some now }).parkUnsubmitted (fun t => t = row.task_id) .suspended) rfl (fun _ => rfl)
      (fun _ => rfl) ho₁
    exact ⟨o₂, ho₂, h₂.trans h₁⟩
  | markedUnknown => exact refs_of_update _ rfl (fun _ => rfl) (fun _ => rfl) ho
  | detached => exact refs_of_update _ rfl (fun _ => rfl) (fun _ => rfl) ho

/-- An operation that a write adds has no references. -/
theorem Effect.refs_new {w : Write} (h : Effect w j j') {id : String} {o : OperationRow}
    (hnone : j.operation? id = none) (ho : j'.operation? id = some o) : o.refs = (none, none, none) := by
  obtain ⟨rfl, -⟩ := h.operation_new hnone ho
  cases h with
  | accepted =>
    unfold Journal.operation? at hnone ho
    simp [hnone] at ho
    obtain ⟨-, rfl⟩ := ho
    rfl

/-- Every write keeps what is recorded. -/
theorem Effect.extends {w : Write} (h : Effect w j j') {id : String} {o : OperationRow}
    (ho : j.operation? id = some o) : ∃ o', j'.operation? id = some o' ∧ o.Extends o' := by
  by_cases hw : w = .receipted
  · subst hw
    cases h with
    | receipted row request_ref execution_ref event_id receipt payload hrow _ hagrees =>
      refine read_update rfl (fun _ => rfl) (fun o hread => ?_) ho
      split_ifs with hp
      · rw [hp, hrow] at hread
        cases hread
        refine ⟨fun q hm hne => ?_, fun e hm hne => ?_, fun r hm => ⟨_, rfl, ?_⟩⟩
        · rw [show row.request_ref = some q from hm, orText, if_neg hne]
        · rw [show row.execution_ref = some e from hm, orText, if_neg hne]
        · rw [show row.receipt = some r from hm] at hagrees ⊢
          exact Receipt.within_merge hagrees
      · exact .of_refs rfl
  · obtain ⟨o', ho', hrefs⟩ := h.refs hw ho
    exact ⟨o', ho', .of_refs hrefs⟩

/-- A write other than that of a receipt keeps the references bound. -/
theorem Effect.bound {w : Write} (h : Effect w j j') (hj : Keyed j) (hw : w ≠ .receipted)
    (hb : ∀ o ∈ j.operations, o.Bound) : ∀ o ∈ j'.operations, o.Bound := by
  intro o' ho'
  have hread := Table.lookup_of_mem (h.keyed hj).operations ho'
  cases hold : j.operation? o'.operation_id with
  | none => exact OperationRow.bound_none (h.refs_new hold hread)
  | some o =>
    obtain ⟨o₁, ho₁, hmoves⟩ := h.operation_moves hold
    obtain ⟨o₂, ho₂, hrefs⟩ := h.refs hw hold
    obtain rfl : o₁ = o' := Option.some.inj (ho₁.symm.trans hread)
    obtain rfl : o₂ = o₁ := Option.some.inj (ho₂.symm.trans ho₁)
    exact (hb o (Table.mem_of_lookup hold).1).of_refs hmoves hrefs

/-! ## The write of a receipt -/

/-- Each result of a checked map is that of one of the values. -/
theorem mem_of_mapM {α β : Type} {f : α → Except StoreError β} {l : List α} {r : List β} (h : l.mapM f = .ok r) :
    ∀ y ∈ r, ∃ x ∈ l, f x = .ok y := by
  induction l generalizing r with
  | nil =>
    rw [List.mapM_nil, pure_eq_ok] at h
    rw [← h]
    exact nofun
  | cons x l ih =>
    simp only [List.mapM_cons, bind_eq_ok, pure_eq_ok] at h
    obtain ⟨y, hy, ys, hys, rfl⟩ := h
    refine List.forall_mem_cons.2 ⟨⟨x, List.mem_cons_self .., hy⟩, fun z hz => ?_⟩
    obtain ⟨x', hx', hf⟩ := ih hys z hz
    exact ⟨x', List.mem_cons_of_mem _ hx', hf⟩

theorem receiptRef_ne {value : Json} {s : String} (h : receiptRef value = .ok s) : s ≠ "" := by
  rintro rfl
  exact absurd (isReceiptRef_of_receiptRef h) (by decide)

/-- The references in a receipt that a caller gives are not empty. -/
theorem parseReceipt_ok {receipt : Option Json} {r : Receipt} (h : parseReceipt receipt = .ok r) :
    (∀ q ∈ r.request_ref, q ≠ "") ∧ ∀ e ∈ r.execution_ref, e ≠ "" := by
  unfold parseReceipt at h
  split at h
  · obtain rfl := Except.ok.inj h
    exact ⟨nofun, nofun⟩
  · rename_i members
    simp only [bind_eq_ok, require_eq_ok, pure_eq_ok] at h
    obtain ⟨-, -, values, hvalues, rfl⟩ := h
    have hfield : ∀ key ≠ "status", ∀ v ∈ (values.find? fun v => v.1 = key).map Prod.snd, v ≠ "" := by
      intro key hkey v hv
      obtain ⟨⟨k, w⟩, hfind, rfl⟩ := Option.map_eq_some_iff.1 hv
      obtain rfl : k = key := by simpa using List.find?_some hfind
      obtain ⟨m, -, hm⟩ := mem_of_mapM hvalues _ (List.mem_of_find?_eq_some hfind)
      simp only [bind_eq_ok, pure_eq_ok, Prod.mk.injEq] at hm
      obtain ⟨_, hm, rfl, rfl⟩ := hm
      unfold receiptField at hm
      rw [if_neg hkey] at hm
      exact receiptRef_ne hm
    exact ⟨hfield _ (by decide), hfield _ (by decide)⟩
  · cases h

/-- A reference of the merged receipt is the one of its column. -/
theorem merged_ref {column previous given : Option String} {value : String}
    (hgiven : ∀ r ∈ given, r ≠ "" ∧ r = value) (hprevious : ∀ q ∈ previous, q ≠ "" ∧ column = some q)
    (hvalue : orText column "" = "" ∨ value = "" ∨ column = some value) :
    ∀ q ∈ given.or previous, q ≠ "" ∧ some (orText column value) = some q := by
  intro q hq
  cases given with
  | some r =>
    obtain rfl : r = q := Option.some.inj hq
    obtain ⟨hne, rfl⟩ := hgiven r rfl
    refine ⟨hne, ?_⟩
    obtain h | h | rfl := hvalue
    · unfold orText at h ⊢
      cases column with
      | none => rfl
      | some =>
        simp only at h ⊢
        split_ifs with hc
        · rfl
        · rw [if_neg hc] at h
          exact absurd h hc
    · exact absurd h hne
    · unfold orText
      simp [hne]
  | none =>
    obtain ⟨hne, rfl⟩ := hprevious q hq
    refine ⟨hne, ?_⟩
    unfold orText
    simp [hne]

/-- A field of the receipt that was stored, where a missing receipt is an empty one. -/
theorem mem_stored {f : Receipt → Option String} {stored : Option Receipt} {q : String} (hnone : f .empty = none)
    (h : q ∈ f (stored.getD .empty)) : ∃ p ∈ stored, q ∈ f p := by
  cases stored with
  | none =>
    rw [Option.getD_none, hnone] at h
    cases h
  | some p => exact ⟨p, rfl, h⟩

/-- `record_receipt` binds the references of its operation. -/
theorem recordReceipt_bound {env : Env} {operation_id request_ref execution_ref : String} {receipt : Option Json}
    {row : OperationRow} (hj : Keyed j)
    (h : recordReceipt j env operation_id request_ref execution_ref receipt = .ok (row, j'))
    (hb : ∀ o ∈ j.operations, o.Bound) : ∀ o ∈ j'.operations, o.Bound := by
  simp only [recordReceipt, bind_eq_ok, orThrow_eq_ok, require_eq_ok, boundedIdentifier_eq_ok] at h
  obtain ⟨-, -, -, -, -, -, r, hr, -, hq, -, he, o, ho, -, hstate, -, hcq, -, hce, -, hagrees, -, -, h⟩ := h
  obtain ⟨hneq, hnee⟩ := parseReceipt_ok hr
  obtain ⟨homem, hoid⟩ := Table.mem_of_lookup ho
  revert h hq he hcq hce
  generalize (if request_ref = "" then r.request_ref.getD "" else request_ref) = q
  generalize (if execution_ref = "" then r.execution_ref.getD "" else execution_ref) = e
  intro hq he hcq hce h
  split_ifs at h with hsame
  · simp only [pure_eq_ok, Prod.mk.injEq] at h
    obtain ⟨rfl, rfl⟩ := h
    exact hb
  · simp only [bind_eq_ok, orThrow_eq_ok, pure_eq_ok, Prod.mk.injEq, Journal.event_eq_ok] at h
    obtain ⟨_, ⟨-, -, rfl⟩, row', -, rfl, rfl⟩ := h
    rw [Journal.log_operations, Journal.setOperation_operations, Table.forall_mem_update]
    intro o' ho'
    split_ifs with hp
    · refine ⟨?_, ?_, fun _ => ?_⟩
      · rintro m ⟨⟩
        refine merged_ref (fun a ha => ⟨hneq a ha, hq a ha⟩) (fun q hm => ?_) hcq
        obtain ⟨p, hp, hm⟩ := mem_stored rfl hm
        exact (hb o homem).request p hp q hm
      · rintro m ⟨⟩
        refine merged_ref (fun a ha => ⟨hnee a ha, he a ha⟩) (fun q hm => ?_) hce
        obtain ⟨p, hp, hm⟩ := mem_stored rfl hm
        exact (hb o homem).execution p hp q hm
      · have heq : o' = o := hj.operations.eq_of_key_eq ho' homem (hp.trans hoid.symm)
        rw [heq]
        exact hstate
    · exact hb o' ho'

/-! ## Runs -/

/-- A call other than `record_receipt` writes no receipt. -/
theorem Call.receipted_not_mem {call : Call}
    (h : ∀ id request_ref execution_ref receipt, call ≠ .recordReceipt id request_ref execution_ref receipt) :
    .receipted ∉ call.writes := by
  cases call with
  | recordReceipt id request_ref execution_ref receipt => exact absurd rfl (h id request_ref execution_ref receipt)
  | _ => simp [Call.writes]

/-- Every call keeps the references bound. -/
theorem step_bound (hj : Keyed j) (hb : ∀ o ∈ j.operations, o.Bound) (call : Env × Call) :
    ∀ o ∈ (step j call).operations, o.Bound := by
  unfold step
  split
  · next j' hrun =>
    by_cases hcall : ∃ id request_ref execution_ref receipt,
        call.2 = .recordReceipt id request_ref execution_ref receipt
    · obtain ⟨id, request_ref, execution_ref, receipt, hcall⟩ := hcall
      rw [hcall] at hrun
      obtain ⟨row, hrow⟩ := map_snd_eq_ok.1 hrun
      exact recordReceipt_bound hj hrow hb
    · have hnot : .receipted ∉ call.2.writes := Call.receipted_not_mem fun id q e r heq => hcall ⟨id, q, e, r, heq⟩
      have hwrites := Call.writes_of_run hj.operations hrun
      clear hrun
      have hboth : Keyed j' ∧ ∀ o ∈ j'.operations, o.Bound := by
        induction hwrites with
        | refl => exact ⟨hj, hb⟩
        | tail _ heffect ih =>
          obtain ⟨w, hw, heffect⟩ := heffect
          exact ⟨heffect.keyed ih.1, heffect.bound ih.1 (fun h => hnot (h ▸ hw)) ih.2⟩
      exact hboth.2
  · exact hb

/-- The references of every journal that is reached are bound. -/
theorem reached_bound (calls : List (Env × Call)) : ∀ o ∈ (reached calls).operations, o.Bound := by
  have hempty : ∀ o ∈ Journal.empty.operations, o.Bound := fun o ho => absurd ho List.not_mem_nil
  exact (Runs.run_invariant (P := fun j => Keyed j ∧ ∀ o ∈ j.operations, o.Bound)
    (fun _ call h => ⟨step_keyed h.1 call, step_bound h.1 h.2 call⟩) calls ⟨.empty, hempty⟩).2

/-- What an operation records stays recorded through every run. -/
theorem run_extends (hj : Keyed j) {id : String} {o : OperationRow} (ho : j.operation? id = some o)
    (calls : List (Env × Call)) : ∃ o', (Runs.run step j calls).operation? id = some o' ∧ o.Extends o' := by
  have heffect : ∀ w j j', Keyed j → (∃ o', j.operation? id = some o' ∧ o.Extends o') → Effect w j j' →
      ∃ o', j'.operation? id = some o' ∧ o.Extends o' := by
    rintro w j j' - ⟨o₁, ho₁, hext⟩ heffect
    obtain ⟨o₂, ho₂, hext'⟩ := heffect.extends ho₁
    exact ⟨o₂, ho₂, hext.trans hext'⟩
  exact (Runs.run_invariant (P := fun j => Keyed j ∧ ∃ o', j.operation? id = some o' ∧ o.Extends o')
    (fun _ call h => step_of_effect heffect h.1 h.2 call) calls ⟨hj, o, ho, .of_refs rfl⟩).2

/-- The receipts of an operation are bound once. -/
theorem receipts_bind_once (calls more : List (Env × Call)) :
    (∀ o ∈ (reached calls).operations, o.Bound) ∧
      ∀ id o, (reached calls).operation? id = some o →
        ∃ o', (reached (calls ++ more)).operation? id = some o' ∧ o.Extends o' := by
  refine ⟨reached_bound calls, fun id o ho => ?_⟩
  rw [reached, Runs.run_append]
  exact run_extends (reached_keyed calls) ho more

end StrixAlloy.TaskStore

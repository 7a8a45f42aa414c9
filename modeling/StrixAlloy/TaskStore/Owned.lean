import StrixAlloy.TaskStore.Calls
import StrixAlloy.Lib.Joins

/-!
# The owned events of an operation

`observe_owned` binds every sequence number of an operation to one event and keeps the cursor of its owner at the
largest (`Owned`). Events whose contents do not conflict are stored alike whatever the order of their deliveries and
however often they repeat: a delivery joins one event to what is stored (`deliver_joins`).
-/

namespace StrixAlloy.TaskStore

open Checked List Table

/-! ## One delivery -/

section Delivery

variable (j : Journal) (operation_id : String)

/-- `observe_owned` accepts the event as such: it is well formed, a column holds its number, and it names the operation
with the version and the task reference that are recorded. -/
structure Admitted (v : Json) (e : OwnedEvent) : Prop where
  parsed : parseOwnedEvent v = .ok e
  payload : validateJson v defaultLimit = .ok ()
  sequence : e.sequence < 2 ^ 63
  operation : e.operation_id = operation_id
  version : ∃ o, j.operation? operation_id = some o ∧ e.context_version = o.context_version
  owner : ∃ b, j.ownedDispatch? operation_id = some b ∧ b.task_ref = e.task_id

/-- Neither the identifier of an event nor its number is taken. -/
structure Unseen (e : OwnedEvent) : Prop where
  inbox : j.inbox? e.event_id = none
  event : j.FreshEvent e.event_id
  row : ∀ r ∈ j.owned_events, r.event_id ≠ e.event_id ∧ ¬ (r.operation_id = operation_id ∧ r.sequence = e.sequence)

/-- The row of an event in `owned_events`. -/
def OwnedEvent.row (e : OwnedEvent) : OwnedEventRow := ⟨operation_id, e.sequence, e.event_id⟩

/-- The columns of a row of `inbox`, with the text of its payload. -/
def InboxRow.columns (r : InboxRow) : String × String × String × List Char :=
  (r.event_id, r.operation_id, r.event_type, Json.dumps r.payload)

/-- The columns of a row of `events` other than its number, with the text of its payload. -/
def EventRow.columns (r : EventRow) : String × String × Option String × String × ℕ × List Char × EventSource :=
  (r.event_id, r.task_id, r.operation_id, r.type, r.context_version, Json.dumps r.payload, r.source)

/-- What a delivery of an event writes: its row, its payload and its entry in the log. -/
structure Stored (o : OperationRow) (v : Json) (e : OwnedEvent) : Prop where
  row : e.row operation_id ∈ j.owned_events
  inbox : (e.event_id, operation_id, "owned_observation", Json.dumps v) ∈ j.inbox.map InboxRow.columns
  event : (e.event_id, o.task_id, some operation_id, "owned_observation", o.context_version, Json.dumps v,
    EventSource.executor) ∈ j.events.map EventRow.columns

/-- The rows that a delivery inserts when its event is new. -/
def insertOwned (o : OperationRow) (v : Json) (e : OwnedEvent) : Journal :=
  ((j.insertInbox ⟨e.event_id, operation_id, "owned_observation", v⟩).log e.event_id o.task_id (some operation_id)
    "owned_observation" o.context_version v .executor).insertOwnedEvent (e.row operation_id)

/-- The cursor at a number, unless it is further. -/
def OwnedDispatchRow.advance (n : ℤ) (b : OwnedDispatchRow) : OwnedDispatchRow :=
  { b with event_sequence := max b.event_sequence n }

/-- The writes of a delivery whose event is new: its rows, and the cursor. -/
def recordOwned (o : OperationRow) (v : Json) (e : OwnedEvent) : Journal :=
  (insertOwned j operation_id o v e).setOwnedDispatch operation_id (OwnedDispatchRow.advance e.sequence)

/-- The scope of an operation is attached, and its task has no later version. -/
def isCurrent (o : OperationRow) : Bool :=
  (j.task? o.task_id).any fun t => (j.scope? t.scope_id).any fun s => s.attached && t.context_version = o.context_version

end Delivery

/-- A reference is an identifier. -/
theorem isIdentifier_of_isReceiptRef {s : String} (h : isReceiptRef s) : isIdentifier s := by
  have hchar : ∀ c : Char, c.isAlphanum ∨ c ∈ ['_', '.', ':', '-'] → 32 ≤ c.toNat ∧ c.toNat ≠ 127 := by
    rintro c (hc | hc)
    · change (decide (c.val ≥ 'A'.val ∧ c.val ≤ 'Z'.val) || (decide (c.val ≥ 'a'.val) && decide (c.val ≤ 'z'.val)) ||
        (decide (c.val ≥ '0'.val) && decide (c.val ≤ '9'.val))) = true at hc
      simp only [Bool.or_eq_true, Bool.and_eq_true, decide_eq_true_eq, UInt32.le_iff_toNat_le] at hc
      simp at hc
      omega
    · revert hc
      simp only [mem_cons, not_mem_nil, or_false]
      rintro (rfl | rfl | rfl | rfl) <;> decide
  unfold isReceiptRef at h
  split at h
  · cases h
  · rename_i c cs hcs
    simp only [Bool.and_eq_true, decide_eq_true_eq, all_eq_true, Bool.or_eq_true] at h
    obtain ⟨⟨hc, hlen⟩, hall⟩ := h
    have hne : s ≠ "" := by
      rintro rfl
      cases hcs
    have hl : s.length = cs.length + 1 := by
      rw [← String.length_toList, hcs, length_cons]
    have hcontrol : noControl s := by
      unfold noControl
      rw [hcs, all_eq_true]
      intro d hd
      simp only [Bool.and_eq_true, decide_eq_true_eq]
      obtain rfl | hd := mem_cons.1 hd
      · exact hchar d (.inl hc)
      · exact hchar d (hall d hd)
    simp only [isIdentifier, isOptionalIdentifier, hcontrol, Bool.and_true, Bool.and_eq_true, decide_eq_true_eq]
    exact ⟨hne, by omega⟩

/-- The identifier of an event that is well formed is a reference. -/
theorem parseOwnedEvent_event_id {v : Json} {e : OwnedEvent} (h : parseOwnedEvent v = .ok e) :
    isReceiptRef e.event_id := by
  unfold parseOwnedEvent at h
  split at h
  · split at h
    · simp only [bind_eq_ok, require_eq_ok, pure_eq_ok] at h
      obtain ⟨-, -, -, -, event_id, hid, _, -, _, -, rfl⟩ := h
      exact isReceiptRef_of_receiptRef hid
    · cases h
  · cases h

section Delivery

variable {j j' : Journal} {operation_id : String} {v : Json} {e : OwnedEvent} {o : OperationRow} {b : OwnedDispatchRow}

section

variable (hj : Keyed j)
include hj

/-- The binding of an operation is read from its rows. -/
theorem executorBinding_eq (ho : j.operation? operation_id = some o) :
    ∃ t s, j.task? o.task_id = some t ∧ j.scope? t.scope_id = some s ∧ executorBinding j operation_id =
      .ok ⟨o, ⟨t, s⟩, (j.ownedDispatch? operation_id).map fun b => (b.task_ref, b.command)⟩ := by
  obtain ⟨hmem, hid⟩ := mem_of_lookup ho
  obtain ⟨t, ht, htid⟩ := mem_map.1 (hj.operation_task (mem_map_of_mem hmem))
  have htask : j.task? o.task_id = some t := htid ▸ lookup_of_mem hj.tasks ht
  obtain ⟨s, hs, hsid⟩ := mem_map.1 (hj.task_scope (mem_map_of_mem ht))
  have hscope : j.scope? t.scope_id = some s := hsid ▸ lookup_of_mem hj.scopes hs
  refine ⟨t, s, htask, hscope, ?_⟩
  simp only [executorBinding, taskSnapshot, bind_eq_ok, boundedIdentifier_eq_ok, orThrow_eq_ok, pure_eq_ok]
  exact ⟨(), hid ▸ hj.identifiers o hmem, o, ho, t, htask, ⟨t, s⟩, ⟨s, hscope, rfl⟩, rfl⟩

/-- The cursor of an operation advances as its one row does. -/
theorem setOwnedDispatch_eq (hb : j.ownedDispatch? operation_id = some b) (j' : Journal)
    (hj' : j'.owned_dispatches = j.owned_dispatches) {f : OwnedDispatchRow → OwnedDispatchRow}
    (hf : f b = b.advance e.sequence) :
    j'.setOwnedDispatch operation_id f = j'.setOwnedDispatch operation_id (OwnedDispatchRow.advance e.sequence) := by
  obtain ⟨hmem, hid⟩ := mem_of_lookup hb
  unfold Journal.setOwnedDispatch
  congr 1
  refine map_congr_left fun r hr => ?_
  rw [hj'] at hr
  split_ifs with hp
  · rw [hj.owned_dispatches.eq_of_key_eq hr hmem (hp.trans hid.symm), hf]
  · rfl

/-- A delivery that succeeds is of an event that is admitted. It finds the event in the inbox and changes nothing, or
it writes the event. -/
theorem observeOwned_cases {news : Bool} (h : observeOwned j operation_id v = .ok (news, j')) :
    ∃ e o b, Admitted j operation_id v e ∧ j.operation? operation_id = some o ∧
      j.ownedDispatch? operation_id = some b ∧
        ((j.inbox? e.event_id ≠ none ∧ news = false ∧ j' = j) ∨
          (Unseen j operation_id e ∧ news = (decide (b.event_sequence < e.sequence) && isCurrent j o) ∧
            j' = recordOwned j operation_id o v e)) := by
  simp only [observeOwned, bind_eq_ok, orThrow_eq_ok, require_eq_ok] at h
  obtain ⟨e, he, binding, hbinding, -, ⟨howner, hop, hversion⟩, b, hb, -, hseq, -, -, ⟨new, j₁⟩, hobserve, h⟩ := h
  have hrow := hbinding
  simp only [executorBinding, bind_eq_ok, boundedIdentifier_eq_ok, orThrow_eq_ok, pure_eq_ok] at hrow
  obtain ⟨-, -, o, ho, -⟩ := hrow
  obtain ⟨t, s, ht, hs, heq⟩ := executorBinding_eq hj ho
  obtain rfl := Except.ok.inj (heq.symm.trans hbinding)
  simp only [hb, Option.map_some, Option.some.injEq] at howner
  simp only [observe, bind_eq_ok, orThrow_eq_ok, require_eq_ok, boundedIdentifier_eq_ok] at hobserve
  obtain ⟨-, -, -, -, -, -, -, -, _, hpayload, o', ho', hobserve⟩ := hobserve
  cases ho.symm.trans ho'
  refine ⟨e, o, b, ⟨he, hpayload, hseq, hop, ⟨o, ho, hversion⟩, b, hb, howner⟩, ho, hb, ?_⟩
  split at hobserve
  · next p hp =>
    simp only [bind_eq_ok, require_eq_ok, pure_eq_ok, Prod.mk.injEq] at hobserve
    obtain ⟨-, -, rfl, rfl⟩ := hobserve
    simp only [if_pos, pure_eq_ok, Prod.mk.injEq] at h
    obtain ⟨rfl, rfl⟩ := h
    exact .inl ⟨by simp [hp], rfl, rfl⟩
  · next hp =>
    simp only [bind_eq_ok, pure_eq_ok, Prod.mk.injEq, Journal.event_eq_ok] at hobserve
    obtain ⟨_, ⟨-, hfresh, rfl⟩, rfl, rfl⟩ := hobserve
    simp only [Bool.true_eq_false, if_false, bind_eq_ok, require_eq_ok] at h
    obtain ⟨-, hrow, h⟩ := h
    refine .inr ⟨⟨hp, hfresh, hrow⟩, ?_⟩
    have hcurrent : isCurrent j o = (s.attached && decide (t.context_version = o.context_version)) := by
      simp [isCurrent, ht, hs]
    rw [hcurrent]
    split_ifs at h with hle
    · cases Except.ok.inj h
      refine ⟨by simp [not_lt.2 hle], ?_⟩
      have hstay := setOwnedDispatch_eq hj hb (insertOwned j operation_id o v e) rfl
        (by rw [OwnedDispatchRow.advance, max_eq_left hle])
      rw [recordOwned, ← hstay, Journal.setOwnedDispatch, update_id]
      rfl
    · cases Except.ok.inj h
      have hlt := not_le.1 hle
      refine ⟨by simp [hlt, TaskSnapshot.attached], ?_⟩
      exact setOwnedDispatch_eq hj hb (insertOwned j operation_id o v e) rfl
        (by rw [OwnedDispatchRow.advance, max_eq_right hlt.le])

/-- The checks before the inbox is read. -/
theorem Admitted.observeOwned_eq (h : Admitted j operation_id v e) (hb : j.ownedDispatch? operation_id = some b)
    (hnumber : ∀ r ∈ j.owned_events, r.operation_id = operation_id → r.sequence = e.sequence → r.event_id = e.event_id)
    {new : Bool} (hobserve : observe j operation_id e.event_id "owned_observation" v = .ok (new, j'))
    (hrow : new → ∀ r ∈ j'.owned_events, r.event_id ≠ e.event_id ∧
      ¬ (r.operation_id = operation_id ∧ r.sequence = e.sequence)) :
    ∃ r, observeOwned j operation_id v = .ok r := by
  obtain ⟨o, ho, hversion⟩ := h.version
  obtain ⟨t, s, -, -, hbinding⟩ := executorBinding_eq hj ho
  obtain ⟨b', hb', howner⟩ := h.owner
  have hcorrelates : (Option.map Prod.fst ((j.ownedDispatch? operation_id).map fun b => (b.task_ref, b.command))) =
      some e.task_id := by
    rw [hb', Option.map_some, Option.map_some, howner]
  simp only [observeOwned, bind_eq_ok, orThrow_eq_ok, require_eq_ok]
  cases new with
  | false =>
    exact ⟨_, e, h.parsed, _, hbinding, (), ⟨hcorrelates, h.operation, hversion⟩, b, hb, (), h.sequence, (), hnumber, _,
      hobserve, rfl⟩
  | true =>
    by_cases hle : e.sequence ≤ b.event_sequence
    · refine ⟨(false, j'.insertOwnedEvent (e.row operation_id)), e, h.parsed, _, hbinding, (),
        ⟨hcorrelates, h.operation, hversion⟩, b, hb, (), h.sequence, (), hnumber,
        _, hobserve, ?_⟩
      simp only [Bool.true_eq_false, if_false, bind_eq_ok, require_eq_ok, if_pos hle]
      exact ⟨(), hrow rfl, rfl⟩
    · refine ⟨(s.attached && decide (t.context_version = o.context_version),
        (j'.insertOwnedEvent (e.row operation_id)).setOwnedDispatch operation_id fun b =>
          { b with event_sequence := e.sequence }), e, h.parsed, _, hbinding, (),
          ⟨hcorrelates, h.operation, hversion⟩, b, hb, (), h.sequence, (), hnumber,
        _, hobserve, ?_⟩
      simp only [Bool.true_eq_false, if_false, bind_eq_ok, require_eq_ok, if_neg hle]
      exact ⟨(), hrow rfl, rfl⟩

/-- A delivery of an event that is stored changes nothing. -/
theorem observeOwned_stored (hnumbers : Table.Unique (fun r => (r.operation_id, r.sequence)) j.owned_events)
    (h : Admitted j operation_id v e) (hs : Stored j operation_id o v e) :
    observeOwned j operation_id v = .ok (false, j) := by
  obtain ⟨o, ho, -⟩ := h.version
  obtain ⟨b, hb, -⟩ := h.owner
  obtain ⟨p, hp, hcolumns⟩ := mem_map.1 hs.inbox
  simp only [InboxRow.columns, Prod.mk.injEq] at hcolumns
  obtain ⟨hid, hop, htype, hpayload⟩ := hcolumns
  have hread : j.inbox? e.event_id = some p := hid ▸ lookup_of_mem hj.inbox hp
  have hobserve : observe j operation_id e.event_id "owned_observation" v = .ok (false, j) := by
    simp only [observe, bind_eq_ok, orThrow_eq_ok, require_eq_ok, boundedIdentifier_eq_ok]
    obtain ⟨hmem, rfl⟩ := mem_of_lookup ho
    refine ⟨(), hj.identifiers o hmem, (), isIdentifier_of_isReceiptRef (parseOwnedEvent_event_id h.parsed), (),
      by decide, (), by decide, (), h.payload, o, ho, ?_⟩
    rw [hread]
    simp only [bind_eq_ok, require_eq_ok]
    exact ⟨(), ⟨hop, htype, hpayload⟩, rfl⟩
  have hnumber : ∀ r ∈ j.owned_events, r.operation_id = operation_id → r.sequence = e.sequence →
      r.event_id = e.event_id := by
    intro r hr hop hseq
    rw [hnumbers.eq_of_key_eq hr hs.row (Prod.ext hop hseq)]
    rfl
  obtain ⟨⟨news, j'⟩, hr⟩ := h.observeOwned_eq hj hb hnumber hobserve fun e => by cases e
  obtain ⟨e', o', b', h', -, -, ⟨-, rfl, rfl⟩ | ⟨hunseen, -, -⟩⟩ := observeOwned_cases hj hr
  · exact hr
  · obtain rfl := Except.ok.inj (h.parsed.symm.trans h'.parsed)
    exact absurd hunseen.inbox (by simp [hread])

/-- A delivery of an event that is not seen yet writes it. -/
theorem observeOwned_unseen (h : Admitted j operation_id v e) (ho : j.operation? operation_id = some o)
    (hb : j.ownedDispatch? operation_id = some b) (hn : Unseen j operation_id e) : observeOwned j operation_id v =
      .ok (decide (b.event_sequence < e.sequence) && isCurrent j o, recordOwned j operation_id o v e) := by
  have hobserve : observe j operation_id e.event_id "owned_observation" v =
      .ok (true, (j.insertInbox ⟨e.event_id, operation_id, "owned_observation", v⟩).log e.event_id o.task_id
        (some operation_id) "owned_observation" o.context_version v .executor) := by
    simp only [observe, bind_eq_ok, orThrow_eq_ok, require_eq_ok, boundedIdentifier_eq_ok]
    obtain ⟨hmem, rfl⟩ := mem_of_lookup ho
    refine ⟨(), hj.identifiers o hmem, (), isIdentifier_of_isReceiptRef (parseOwnedEvent_event_id h.parsed), (),
      by decide, (), by decide, (), h.payload, o, ho, ?_⟩
    rw [hn.inbox]
    simp only [bind_eq_ok, Journal.event_eq_ok]
    exact ⟨_, ⟨h.payload, hn.event, rfl⟩, rfl⟩
  obtain ⟨⟨news, j'⟩, hr⟩ := h.observeOwned_eq hj hb
    (fun r hr hop hseq => absurd ⟨hop, hseq⟩ (hn.row r hr).2) hobserve fun _ => hn.row
  obtain ⟨e', o', b', h', ho', hb', ⟨hread, -, -⟩ | ⟨-, rfl, rfl⟩⟩ := observeOwned_cases hj hr
  · obtain rfl := Except.ok.inj (h.parsed.symm.trans h'.parsed)
    exact absurd hn.inbox hread
  · obtain rfl := Except.ok.inj (h.parsed.symm.trans h'.parsed)
    cases ho.symm.trans ho'
    cases hb.symm.trans hb'
    exact hr

end

end Delivery

/-! ## Numbers and cursors -/

/-- A number of an operation is bound to one event, and the cursor of its owner is the largest number. -/
structure Owned (j : Journal) : Prop where
  numbers : Table.Unique (fun r => (r.operation_id, r.sequence)) j.owned_events
  owner : j.owned_events.map OwnedEventRow.operation_id ⊆ j.owned_dispatches.map OwnedDispatchRow.operation_id
  cursor : ∀ b ∈ j.owned_dispatches, IsGreatest
    (insert 0 {n | ∃ r ∈ j.owned_events, r.operation_id = b.operation_id ∧ r.sequence = n}) b.event_sequence

section Owned

variable {j j' : Journal} {operation_id : String} {v : Json} {e : OwnedEvent} {o : OperationRow} {b : OwnedDispatchRow}

/-- A new event keeps the numbers and the cursors. -/
theorem Owned.recordOwned (h : Owned j) (hn : Unseen j operation_id e) (hb : j.ownedDispatch? operation_id = some b) :
    Owned (recordOwned j operation_id o v e) := by
  obtain ⟨hmem, hid⟩ := mem_of_lookup hb
  have hevents : (TaskStore.recordOwned j operation_id o v e).owned_events = j.owned_events ++ [e.row operation_id] :=
    rfl
  have hdispatches : (TaskStore.recordOwned j operation_id o v e).owned_dispatches =
      Table.update (fun b => b.operation_id = operation_id) (OwnedDispatchRow.advance e.sequence)
        j.owned_dispatches := rfl
  refine ⟨?_, ?_, ?_⟩
  · rw [hevents]
    refine unique_concat.2 ⟨h.numbers, lookup_eq_none.2 fun r hr heq => ?_⟩
    exact (hn.row r hr).2 (Prod.mk.inj heq)
  · have hkeys : (TaskStore.recordOwned j operation_id o v e).owned_dispatches.map OwnedDispatchRow.operation_id =
        j.owned_dispatches.map OwnedDispatchRow.operation_id :=
      map_key_update (f := OwnedDispatchRow.advance e.sequence) (fun _ => rfl) _
    rw [hevents, hkeys, map_append]
    refine append_subset.2 ⟨h.owner, ?_⟩
    rintro id hrow
    obtain rfl := mem_singleton.1 hrow
    exact mem_map.2 ⟨b, hmem, hid⟩
  · rw [hevents, hdispatches, forall_mem_update]
    intro b' hb'
    have hold := h.cursor b' hb'
    split_ifs with hp
    · refine ⟨?_, ?_⟩
      · obtain hmax | hmax := max_choice b'.event_sequence e.sequence
        · show max b'.event_sequence e.sequence ∈ _
          rw [hmax]
          obtain h0 | ⟨r, hr, hro, hrs⟩ := hold.1
          · exact .inl h0
          · exact .inr ⟨r, mem_append_left _ hr, hro, hrs⟩
        · show max b'.event_sequence e.sequence ∈ _
          rw [hmax]
          exact .inr ⟨e.row operation_id, by simp, hp.symm, rfl⟩
      · rintro n (rfl | ⟨r, hr, hro, rfl⟩)
        · exact (hold.2 (Set.mem_insert _ _)).trans (le_max_left _ _)
        · obtain hr | hr := mem_append.1 hr
          · exact (hold.2 (.inr ⟨r, hr, hro, rfl⟩)).trans (le_max_left _ _)
          · obtain rfl := mem_singleton.1 hr
            exact le_max_right _ _
    · refine ⟨?_, ?_⟩
      · obtain h0 | ⟨r, hr, hro, hrs⟩ := hold.1
        · exact .inl h0
        · exact .inr ⟨r, mem_append_left _ hr, hro, hrs⟩
      · rintro n (rfl | ⟨r, hr, hro, rfl⟩)
        · exact hold.2 (Set.mem_insert _ _)
        · obtain hr | hr := mem_append.1 hr
          · exact hold.2 (.inr ⟨r, hr, hro, rfl⟩)
          · obtain rfl := mem_singleton.1 hr
            exact absurd hro.symm hp

/-- An owner that is new has no events, and its cursor is zero. -/
theorem Owned.insertOwnedDispatch (h : Owned j) (hnone : j.ownedDispatch? operation_id = none) (task_ref : String)
    (command : Json) : Owned (j.insertOwnedDispatch ⟨operation_id, task_ref, command, 0⟩) := by
  have hfree := lookup_eq_none.1 hnone
  refine ⟨h.numbers, fun id hid => ?_, ?_⟩
  · rw [Journal.insertOwnedDispatch_owned_dispatches, map_append]
    exact mem_append_left _ (h.owner hid)
  · rw [Journal.insertOwnedDispatch_owned_dispatches, forall_mem_append]
    refine ⟨h.cursor, forall_mem_singleton.2 ⟨Set.mem_insert _ _, ?_⟩⟩
    rintro n (rfl | ⟨r, hr, hro, rfl⟩)
    · exact le_rfl
    · obtain ⟨b, hb, hbo⟩ := mem_map.1 (h.owner (mem_map_of_mem hr))
      exact absurd (hbo.trans hro) (hfree b hb)

/-- A write of another kind touches neither events nor owners. -/
theorem Effect.owned_frame {w : Write} (h : Effect w j j') (hw : w ≠ .ownedDispatched ∧ w ≠ .ownedObserved) :
    j'.owned_events = j.owned_events ∧ j'.owned_dispatches = j.owned_dispatches := by
  cases h with
  | settled row task outcome state replies evidence question now id _ _ _ _ _ _ _ _ hq =>
    obtain ⟨questions, rfl⟩ := settleQuestions_frame hq
    exact ⟨rfl, rfl⟩
  | ownedDispatched => exact absurd rfl hw.1
  | ownedObserved => exact absurd rfl hw.2
  | _ => exact ⟨rfl, rfl⟩

theorem Owned.of_eq (h : Owned j)
    (hframe : j'.owned_events = j.owned_events ∧ j'.owned_dispatches = j.owned_dispatches) :
    Owned j' := by
  obtain ⟨he, hd⟩ := hframe
  exact ⟨he ▸ h.numbers, by rw [he, hd]; exact h.owner, by rw [he, hd]; exact h.cursor⟩

/-- Writes of other kinds keep the numbers and the cursors. -/
theorem Writes.owned {ws : List Write} (h : Writes ws j j') (hw : .ownedDispatched ∉ ws ∧ .ownedObserved ∉ ws)
    (ho : Owned j) : Owned j' := by
  induction h with
  | refl => exact ho
  | tail _ heffect ih =>
    obtain ⟨w, hmem, heffect⟩ := heffect
    exact ih.of_eq (heffect.owned_frame ⟨fun h => hw.1 (h ▸ hmem), fun h => hw.2 (h ▸ hmem)⟩)

/-- Every call keeps the numbers and the cursors. -/
theorem step_owned (hj : Keyed j) (ho : Owned j) (call : Env × Call) : Owned (step j call) := by
  unfold step
  split
  · next j' hrun =>
    have hwrites := Call.writes_of_run hj.operations hrun
    obtain ⟨env, call⟩ := call
    cases call with
    | recordOwnedDispatch operation_id task_ref command =>
      obtain ⟨binding, h⟩ := map_snd_eq_ok.1 hrun
      obtain ⟨_, -, -, -, rfl⟩ | ⟨-, heffect, -⟩ := recordOwnedDispatch_ok h
      · exact ho
      · cases heffect with
        | ownedDispatched row task_ref command _ _ hfresh => exact ho.insertOwnedDispatch hfresh task_ref command
    | observeOwned =>
      obtain ⟨news, h⟩ := map_snd_eq_ok.1 hrun
      obtain ⟨e, o, b, -, -, hb, ⟨-, -, rfl⟩ | ⟨hn, -, rfl⟩⟩ := observeOwned_cases hj h
      · exact ho
      · exact ho.recordOwned hn hb
    | _ => exact hwrites.owned (by simp [Call.writes]) ho
  · exact ho

/-- Numbers and cursors of every journal that is reached. -/
theorem reached_owned (calls : List (Env × Call)) : Owned (reached calls) := by
  have hempty : Owned .empty := ⟨nodup_nil, nil_subset _, fun b hb => absurd hb not_mem_nil⟩
  exact (Runs.run_invariant (P := fun j => Keyed j ∧ Owned j)
    (fun _ call h => ⟨step_keyed h.1 call, step_owned h.1 h.2 call⟩) calls ⟨.empty, hempty⟩).2

end Owned

/-! ## Deliveries -/

/-- The journal after a delivery to an operation. -/
def deliver (operation_id : String) (j : Journal) (v : Json) : Journal :=
  match observeOwned j operation_id v with
  | .ok (_, j') => j'
  | .error _ => j

/-- A delivery is the call. -/
theorem step_observeOwned (j : Journal) (env : Env) (operation_id : String) (v : Json) :
    step j (env, .observeOwned operation_id v) = deliver operation_id j v := by
  have hrun : Call.run j env (.observeOwned operation_id v) = Prod.snd <$> observeOwned j operation_id v := rfl
  unfold step deliver
  rw [hrun]
  cases observeOwned j operation_id v <;> rfl

/-- The journal after some deliveries. -/
def delivered (j : Journal) (operation_id : String) (deliveries : List Json) : Journal :=
  Runs.run (deliver operation_id) j deliveries

/-- Events whose contents do not conflict: those that share their identifier or their number are one event, and each is
either new to the journal or stored in it. -/
structure Consistent (j : Journal) (operation_id : String) (events : List Json) : Prop where
  same : ∀ v ∈ events, ∀ w ∈ events, ∀ e f, Admitted j operation_id v e → Admitted j operation_id w f →
    e.event_id = f.event_id ∨ e.sequence = f.sequence → e = f ∧ Json.dumps v = Json.dumps w
  known : ∀ v ∈ events, ∀ e o, Admitted j operation_id v e → j.operation? operation_id = some o →
    Unseen j operation_id e ∨ Stored j operation_id o v e

/-- The rows, the payloads and the entries of the log. -/
def Journal.record (j : Journal) : Set OwnedEventRow × Set (String × String × String × List Char) ×
    Set (String × String × Option String × String × ℕ × List Char × EventSource) :=
  ({r | r ∈ j.owned_events}, {t | t ∈ j.inbox.map InboxRow.columns}, {t | t ∈ j.events.map EventRow.columns})

/-- What a delivery adds to the record. -/
def contribution (j : Journal) (operation_id : String) (v : Json) :
    Set OwnedEventRow × Set (String × String × String × List Char) ×
      Set (String × String × Option String × String × ℕ × List Char × EventSource) :=
  ({r | ∃ e, Admitted j operation_id v e ∧ r = e.row operation_id},
    {t | ∃ e, Admitted j operation_id v e ∧ t = (e.event_id, operation_id, "owned_observation", Json.dumps v)},
    {t | ∃ e o, Admitted j operation_id v e ∧ j.operation? operation_id = some o ∧
      t = (e.event_id, o.task_id, some operation_id, "owned_observation", o.context_version, Json.dumps v,
        EventSource.executor)})

/-- The columns of an owner other than its cursor. -/
def OwnedDispatchRow.binding (b : OwnedDispatchRow) : String × String × Json := (b.operation_id, b.task_ref, b.command)

/-- What deliveries to an operation leave of a journal: everything but the record and the cursor of the operation. -/
structure Aside (operation_id : String) (j j' : Journal) : Prop where
  rest : j' = { j with
    inbox := j'.inbox, events := j'.events, owned_dispatches := j'.owned_dispatches, owned_events := j'.owned_events }
  owners : j'.owned_dispatches.map OwnedDispatchRow.binding = j.owned_dispatches.map OwnedDispatchRow.binding
  others : ∀ id ≠ operation_id, j'.ownedDispatch? id = j.ownedDispatch? id

section Deliveries

variable {j s : Journal} {operation_id : String} {events : List Json} {v w : Json} {e f : OwnedEvent} {o : OperationRow}

theorem Aside.refl (operation_id : String) (j : Journal) : Aside operation_id j j := ⟨rfl, rfl, fun _ _ => rfl⟩

section

variable (h : Aside operation_id j s)
include h

theorem Aside.operation? (id : String) : s.operation? id = j.operation? id := by
  unfold Journal.operation?
  rw [h.rest]

theorem Aside.binding (id : String) :
    (s.ownedDispatch? id).map OwnedDispatchRow.binding = (j.ownedDispatch? id).map OwnedDispatchRow.binding := by
  have hlookup : ∀ rows, (Table.lookup OwnedDispatchRow.operation_id rows id).map OwnedDispatchRow.binding =
      Table.lookup Prod.fst (rows.map OwnedDispatchRow.binding) id := by
    intro rows
    rw [lookup_map (fun _ => rfl)]
    rfl
  unfold Journal.ownedDispatch?
  rw [hlookup, hlookup, h.owners]

/-- What is admitted does not change. -/
theorem Aside.admitted : Admitted s operation_id v e ↔ Admitted j operation_id v e := by
  have howner : ∀ j : Journal, (∃ b, j.ownedDispatch? operation_id = some b ∧ b.task_ref = e.task_id) ↔
      ((j.ownedDispatch? operation_id).map OwnedDispatchRow.binding).map (fun b => b.2.1) = some e.task_id := by
    intro j
    rw [Option.map_map, Option.map_eq_some_iff]
    rfl
  constructor
  · rintro ⟨h1, h2, h3, h4, h5, h6⟩
    rw [h.operation?] at h5
    rw [howner, h.binding, ← howner] at h6
    exact ⟨h1, h2, h3, h4, h5, h6⟩
  · rintro ⟨h1, h2, h3, h4, h5, h6⟩
    rw [← h.operation?] at h5
    rw [howner, ← h.binding, ← howner] at h6
    exact ⟨h1, h2, h3, h4, h5, h6⟩

theorem Aside.recordOwned : Aside operation_id j (recordOwned s operation_id o v e) := by
  refine ⟨?_, ?_, fun id hid => ?_⟩
  · have hrest := h.rest
    rw [hrest]
    rfl
  · refine Eq.trans ?_ h.owners
    exact map_update fun b _ _ => rfl
  · refine Eq.trans ?_ (h.others id hid)
    unfold Journal.ownedDispatch?
    show Table.lookup OwnedDispatchRow.operation_id (Table.update _ (OwnedDispatchRow.advance e.sequence)
      s.owned_dispatches) id = _
    rw [lookup_update (f := OwnedDispatchRow.advance e.sequence) (fun _ => rfl)]
    cases hb : Table.lookup OwnedDispatchRow.operation_id s.owned_dispatches id with
    | none => rfl
    | some =>
      obtain ⟨-, rfl⟩ := mem_of_lookup hb
      rw [Option.map_some, if_neg hid]

end

/-- What an event that is new writes. -/
theorem stored_recordOwned : Stored (recordOwned j operation_id o v e) operation_id o v e :=
  ⟨mem_append_right _ (mem_singleton_self _),
    mem_map.2 ⟨_, mem_append_right _ (mem_singleton_self _), rfl⟩,
    mem_map.2 ⟨_, mem_append_right _ (mem_singleton_self _), rfl⟩⟩

/-- What is stored stays. -/
theorem Stored.recordOwned {p : OperationRow} (h : Stored j operation_id p w f) :
    Stored (recordOwned j operation_id o v e) operation_id p w f := by
  refine ⟨mem_append_left _ h.row, ?_, ?_⟩
  · obtain ⟨r, hr, heq⟩ := mem_map.1 h.inbox
    exact mem_map.2 ⟨r, mem_append_left _ hr, heq⟩
  · obtain ⟨r, hr, heq⟩ := mem_map.1 h.event
    exact mem_map.2 ⟨r, mem_append_left _ hr, heq⟩

/-- An event with another identifier and another number stays new. -/
theorem Unseen.recordOwned (h : Unseen j operation_id f) (hid : e.event_id ≠ f.event_id)
    (hnumber : e.sequence ≠ f.sequence) : Unseen (recordOwned j operation_id o v e) operation_id f := by
  refine ⟨?_, ?_, ?_⟩
  · have hnone := h.inbox
    unfold Journal.inbox? at hnone ⊢
    show Table.lookup InboxRow.event_id (j.inbox ++ [_]) f.event_id = none
    rw [lookup_concat, hnone, if_neg hid]
    rfl
  · refine forall_mem_append.2 ⟨h.event, forall_mem_singleton.2 hid⟩
  · refine forall_mem_append.2 ⟨h.row, forall_mem_singleton.2 ⟨hid, fun heq => hnumber heq.2⟩⟩

/-- What holds of the journal while events are delivered. -/
structure Ingesting (j : Journal) (operation_id : String) (events : List Json) (s : Journal) : Prop where
  keyed : Keyed s
  owned : Owned s
  aside : Aside operation_id j s
  known : ∀ v ∈ events, ∀ e o, Admitted j operation_id v e → j.operation? operation_id = some o →
    Unseen s operation_id e ∨ Stored s operation_id o v e

/-- What an admitted event contributes. -/
theorem Admitted.contribution_eq (h : Admitted j operation_id v e) (ho : j.operation? operation_id = some o) :
    contribution j operation_id v = ({e.row operation_id},
      {(e.event_id, operation_id, "owned_observation", Json.dumps v)},
      {(e.event_id, o.task_id, some operation_id, "owned_observation", o.context_version, Json.dumps v,
        EventSource.executor)}) := by
  have hunique : ∀ e', Admitted j operation_id v e' ↔ e' = e :=
    fun e' => ⟨fun h' => Except.ok.inj (h'.parsed.symm.trans h.parsed), fun heq => heq ▸ h⟩
  simp [contribution, hunique, ho]

/-- What is not admitted contributes nothing. -/
theorem contribution_eq_bot (h : ∀ e, ¬ Admitted j operation_id v e) : contribution j operation_id v = ⊥ := by
  simp only [contribution, h, false_and, exists_false]
  rfl

/-- The record after the writes of an event. -/
theorem record_recordOwned : (recordOwned s operation_id o v e).record = s.record ⊔ ({e.row operation_id},
    {(e.event_id, operation_id, "owned_observation", Json.dumps v)},
    {(e.event_id, o.task_id, some operation_id, "owned_observation", o.context_version, Json.dumps v,
      EventSource.executor)}) := by
  refine Prod.ext ?_ (Prod.ext ?_ ?_)
  · ext r
    show r ∈ s.owned_events ++ [e.row operation_id] ↔ r ∈ s.owned_events ∨ r = _
    rw [mem_append, mem_singleton]
  · ext t
    show t ∈ (s.inbox ++ [_]).map InboxRow.columns ↔ t ∈ s.inbox.map InboxRow.columns ∨ t = _
    rw [map_append, mem_append, map_singleton, mem_singleton]
    rfl
  · ext t
    show t ∈ (s.events ++ [_]).map EventRow.columns ↔ t ∈ s.events.map EventRow.columns ∨ t = _
    rw [map_append, mem_append, map_singleton, mem_singleton]
    rfl

/-- What is stored is in the record. -/
theorem Stored.le_record (h : Stored s operation_id o v e) : ({e.row operation_id},
    {(e.event_id, operation_id, "owned_observation", Json.dumps v)},
    {(e.event_id, o.task_id, some operation_id, "owned_observation", o.context_version, Json.dumps v,
      EventSource.executor)}) ≤ s.record :=
  ⟨Set.singleton_subset_iff.2 h.row, Set.singleton_subset_iff.2 h.inbox, Set.singleton_subset_iff.2 h.event⟩

/-- A delivery joins its event to the record. -/
theorem deliver_joins (hc : Consistent j operation_id events) (hv : v ∈ events)
    (h : Ingesting j operation_id events s) :
    Ingesting j operation_id events (deliver operation_id s v) ∧
      (deliver operation_id s v).record = s.record ⊔ contribution j operation_id v := by
  by_cases hadmitted : ∃ e, Admitted j operation_id v e
  · obtain ⟨e, he⟩ := hadmitted
    have he' := h.aside.admitted.2 he
    obtain ⟨o, ho, -⟩ := he.version
    obtain ⟨b, hb, -⟩ := he'.owner
    have ho' : s.operation? operation_id = some o := (h.aside.operation? operation_id).trans ho
    rw [he.contribution_eq ho]
    obtain hn | hs := h.known v hv e o he ho
    · have hok := observeOwned_unseen h.keyed he' ho' hb hn
      have hdeliver : deliver operation_id s v = recordOwned s operation_id o v e := by
        unfold deliver
        rw [hok]
      have hkeyed := step_keyed h.keyed (Env.ofList [] (by decide), .observeOwned operation_id v)
      rw [step_observeOwned] at hkeyed
      rw [hdeliver] at hkeyed ⊢
      refine ⟨⟨hkeyed, h.owned.recordOwned hn hb, h.aside.recordOwned, ?_⟩, record_recordOwned⟩
      intro w hw f p hf hp
      cases ho.symm.trans hp
      obtain hnew | hold := h.known w hw f o hf hp
      · by_cases hsame : e.event_id = f.event_id ∨ e.sequence = f.sequence
        · obtain ⟨rfl, htext⟩ := hc.same v hv w hw e f he hf hsame
          have hstored : Stored (recordOwned s operation_id o v e) operation_id o v e := stored_recordOwned
          exact .inr ⟨hstored.row, htext ▸ hstored.inbox, htext ▸ hstored.event⟩
        · rw [not_or] at hsame
          exact .inl (hnew.recordOwned hsame.1 hsame.2)
      · exact .inr hold.recordOwned
    · have hdeliver : deliver operation_id s v = s := by
        unfold deliver
        rw [observeOwned_stored h.keyed h.owned.numbers he' hs]
      rw [hdeliver]
      exact ⟨h, (sup_eq_left.2 hs.le_record).symm⟩
  · have hnone : ∀ e, ¬ Admitted j operation_id v e := fun e he => hadmitted ⟨e, he⟩
    have hdeliver : deliver operation_id s v = s := by
      unfold deliver
      cases hok : observeOwned s operation_id v with
      | error => rfl
      | ok =>
        obtain ⟨e, -, -, he, -⟩ := observeOwned_cases h.keyed hok
        exact absurd (h.aside.admitted.1 he) (hnone e)
    rw [hdeliver, contribution_eq_bot hnone]
    exact ⟨h, (sup_bot_eq _).symm⟩

/-- What deliveries from a set of events leave: the record is the least upper bound of the record before and of what the
events contribute. -/
theorem delivered_joins (hj : Keyed j) (ho : Owned j) (hc : Consistent j operation_id events) {deliveries : List Json}
    (hd : ∀ v ∈ deliveries, v ∈ events) : Ingesting j operation_id events (delivered j operation_id deliveries) ∧
      IsLUB (insert j.record {a | ∃ v ∈ deliveries, contribution j operation_id v = a})
        (delivered j operation_id deliveries).record := by
  have hstep : ∀ s, ∀ v ∈ {v | v ∈ events}, Ingesting j operation_id events s →
      Ingesting j operation_id events (deliver operation_id s v) ∧
        (deliver operation_id s v).record = s.record ⊔ contribution j operation_id v :=
    fun _ _ hv h => deliver_joins hc hv h
  exact Joins.isLUB_run hstep ⟨hj, ho, .refl operation_id j, hc.known⟩ hd

/-- A delivered event is stored. -/
theorem delivered_stored (hj : Keyed j) (ho : Owned j) (hc : Consistent j operation_id events) {deliveries : List Json}
    (hd : ∀ v ∈ deliveries, v ∈ events) (hv : v ∈ deliveries) (he : Admitted j operation_id v e)
    (hop : j.operation? operation_id = some o) : Stored (delivered j operation_id deliveries) operation_id o v e := by
  have hle := (delivered_joins hj ho hc hd).2.1 (Set.mem_insert_of_mem _ ⟨v, hv, rfl⟩)
  rw [he.contribution_eq hop] at hle
  exact ⟨hle.1 rfl, hle.2.1 rfl, hle.2.2 rfl⟩

/-- Every row after some deliveries is an older one or that of an event. -/
theorem delivered_rows (hj : Keyed j) (ho : Owned j) (hc : Consistent j operation_id events) {deliveries : List Json}
    (hd : ∀ v ∈ deliveries, v ∈ events) : ∀ r ∈ (delivered j operation_id deliveries).owned_events,
      r ∈ j.owned_events ∨ ∃ v ∈ deliveries, ∃ e, Admitted j operation_id v e ∧ r = e.row operation_id := by
  have hbound : (delivered j operation_id deliveries).record ≤
      ({r | r ∈ j.owned_events ∨ ∃ v ∈ deliveries, ∃ e, Admitted j operation_id v e ∧ r = e.row operation_id}, ⊤,
        ⊤) := by
    refine (delivered_joins hj ho hc hd).2.2 ?_
    rintro a (rfl | ⟨v, hv, rfl⟩)
    · exact ⟨fun r hr => .inl hr, le_top, le_top⟩
    · exact ⟨fun r ⟨e, he, hr⟩ => .inr ⟨v, hv, e, he, hr⟩, le_top, le_top⟩
  exact hbound.1

/-- Two journals hold the same rows, payloads, log entries and owners, each once. -/
structure SameRecord (s t : Journal) : Prop where
  rows : s.owned_events.Perm t.owned_events
  payloads : (s.inbox.map InboxRow.columns).Perm (t.inbox.map InboxRow.columns)
  log : (s.events.map EventRow.columns).Perm (t.events.map EventRow.columns)
  owners : ∀ id, s.ownedDispatch? id = t.ownedDispatch? id

/-- The rows of a table with unique keys do not repeat, nor do their columns. -/
theorem nodup_columns {α β κ : Type} {key : α → κ} {c : α → β} (g : β → κ) (hg : ∀ a, g (c a) = key a) {l : List α}
    (h : Table.Unique key l) : (l.map c).Nodup := by
  refine List.Nodup.of_map g ?_
  rw [map_map]
  have hcomp : g ∘ c = key := funext hg
  rwa [hcomp]

/-- The owner of an operation is its binding and its cursor. -/
theorem ownedDispatch?_eq {t : Journal} (hs : Ingesting j operation_id events s)
    (ht : Ingesting j operation_id events t) (hrows : ∀ r, r ∈ s.owned_events ↔ r ∈ t.owned_events) (id : String) :
    s.ownedDispatch? id = t.ownedDispatch? id := by
  by_cases hid : id = operation_id
  · subst hid
    have hbinding := (hs.aside.binding id).trans (ht.aside.binding id).symm
    cases hb : s.ownedDispatch? id with
    | none =>
      rw [hb, Option.map_none] at hbinding
      exact (Option.map_eq_none_iff.1 hbinding.symm).symm
    | some b =>
      rw [hb, Option.map_some] at hbinding
      obtain ⟨b', hb', heq⟩ := Option.map_eq_some_iff.1 hbinding.symm
      have hcursor := hs.owned.cursor b (mem_of_lookup hb).1
      have hcursor' := ht.owned.cursor b' (mem_of_lookup hb').1
      obtain ⟨id, task_ref, command, n⟩ := b
      obtain ⟨id', task_ref', command', n'⟩ := b'
      obtain ⟨rfl, rfl, rfl⟩ : id' = id ∧ task_ref' = task_ref ∧ command' = command := by
        simpa [OwnedDispatchRow.binding] using heq
      simp only [hrows] at hcursor
      obtain rfl : n = n' := hcursor.unique hcursor'
      exact hb'.symm
  · rw [hs.aside.others id hid, ht.aside.others id hid]

/-- Journals with one record that only deliveries have changed hold the same. -/
theorem sameRecord_of_record_eq {t : Journal} (hs : Ingesting j operation_id events s)
    (ht : Ingesting j operation_id events t) (heq : s.record = t.record) : SameRecord s t := by
  obtain ⟨hrows, heq⟩ := Prod.mk.inj heq
  obtain ⟨hinbox, hlog⟩ := Prod.mk.inj heq
  have hnodup : ∀ {t : Journal}, Keyed t → t.owned_events.Nodup := fun h => List.Nodup.of_map _ h.owned_events
  refine ⟨?_, ?_, ?_, ownedDispatch?_eq hs ht (Set.ext_iff.1 hrows)⟩
  · exact (perm_ext_iff_of_nodup (hnodup hs.keyed) (hnodup ht.keyed)).2 (Set.ext_iff.1 hrows)
  · exact (perm_ext_iff_of_nodup (nodup_columns Prod.fst (fun _ => rfl) hs.keyed.inbox)
      (nodup_columns Prod.fst (fun _ => rfl) ht.keyed.inbox)).2 (Set.ext_iff.1 hinbox)
  · exact (perm_ext_iff_of_nodup (nodup_columns Prod.fst (fun _ => rfl) hs.keyed.events)
      (nodup_columns Prod.fst (fun _ => rfl) ht.keyed.events)).2 (Set.ext_iff.1 hlog)

/-- A delivery that brings news is the first of its event, which is beyond the cursor of its operation, in an attached
scope and of the current version of its task. -/
structure News (j s : Journal) (operation_id : String) (pre : List Json) (v : Json) (e : OwnedEvent) : Prop where
  admitted : Admitted j operation_id v e
  first : ∀ w ∈ pre, ∀ f, Admitted j operation_id w f → f.event_id ≠ e.event_id
  beyond : ∃ b, s.ownedDispatch? operation_id = some b ∧ b.event_sequence < e.sequence
  current : ∃ o, j.operation? operation_id = some o ∧ isCurrent s o

/-- A delivery that returns `True` brings news. -/
theorem news_of_true (hj : Keyed j) (ho : Owned j) (hc : Consistent j operation_id events) {pre : List Json}
    (hd : ∀ v ∈ pre, v ∈ events) {t : Journal}
    (h : observeOwned (delivered j operation_id pre) operation_id v = .ok (true, t)) :
    ∃ e, News j (delivered j operation_id pre) operation_id pre v e := by
  have hs := (delivered_joins hj ho hc hd).1
  obtain ⟨e, o, b, he, hop, hb, ⟨-, hfalse, -⟩ | ⟨hn, hnews, -⟩⟩ := observeOwned_cases hs.keyed h
  · cases hfalse
  · obtain ⟨hbeyond, hcurrent⟩ := Bool.and_eq_true_iff.1 hnews.symm
    have hop' := (hs.aside.operation? operation_id).symm.trans hop
    refine ⟨e, hs.aside.admitted.1 he, fun w hw f hf heq => ?_, ⟨b, hb, of_decide_eq_true hbeyond⟩, o, hop', hcurrent⟩
    -- an event that was delivered is in the inbox
    obtain ⟨r, hr, hcolumns⟩ := mem_map.1 (delivered_stored hj ho hc hd hw hf hop').inbox
    exact lookup_eq_none.1 hn.inbox r hr ((Prod.mk.inj hcolumns).1.trans heq)

end Deliveries

/-- The order and the number of deliveries of events that do not conflict do not matter: the rows, payloads and cursors
are the same, every event is stored, once and with the only event of its number, the cursor of the operation is the
largest number, and only the first delivery of an event brings news. -/
theorem owned_events_converge (calls : List (Env × Call)) (operation_id : String) (events deliveries : List Json)
    (hc : Consistent (reached calls) operation_id events) (hd : ∀ v, v ∈ deliveries ↔ v ∈ events) :
    (∀ others, (∀ v, v ∈ others ↔ v ∈ events) →
        SameRecord (delivered (reached calls) operation_id deliveries)
          (delivered (reached calls) operation_id others)) ∧
      (∀ v ∈ events, ∀ e o, Admitted (reached calls) operation_id v e →
        (reached calls).operation? operation_id = some o →
          Stored (delivered (reached calls) operation_id deliveries) operation_id o v e) ∧
      (∀ r ∈ (delivered (reached calls) operation_id deliveries).owned_events, r ∈ (reached calls).owned_events ∨
        ∃ v ∈ events, ∃ e, Admitted (reached calls) operation_id v e ∧ r = e.row operation_id) ∧
      Keyed (delivered (reached calls) operation_id deliveries) ∧
      Owned (delivered (reached calls) operation_id deliveries) ∧
      ∀ pre v post t, deliveries = pre ++ v :: post →
        observeOwned (delivered (reached calls) operation_id pre) operation_id v = .ok (true, t) →
          ∃ e, News (reached calls) (delivered (reached calls) operation_id pre) operation_id pre v e := by
  have hj := reached_keyed calls
  have ho := reached_owned calls
  have hsub : ∀ {l : List Json}, (∀ v, v ∈ l ↔ v ∈ events) → ∀ v ∈ l, v ∈ events := fun h v => (h v).1
  obtain ⟨hs, -⟩ := delivered_joins hj ho hc (hsub hd)
  refine ⟨fun others hothers => ?_, fun v hv e o he hop => ?_, fun r hr => ?_, hs.keyed, hs.owned, ?_⟩
  · have hstep : ∀ s, ∀ v ∈ {v | v ∈ events}, Ingesting (reached calls) operation_id events s →
        Ingesting (reached calls) operation_id events (deliver operation_id s v) ∧
          (deliver operation_id s v).record = s.record ⊔ contribution (reached calls) operation_id v :=
      fun _ _ hv h => deliver_joins hc hv h
    refine sameRecord_of_record_eq hs (delivered_joins hj ho hc (hsub hothers)).1 ?_
    exact Joins.measure_run_eq hstep ⟨hj, ho, .refl operation_id _, hc.known⟩ (hsub hd)
      fun v => (hd v).trans (hothers v).symm
  · exact delivered_stored hj ho hc (hsub hd) ((hd v).2 hv) he hop
  · obtain hold | ⟨v, hv, h⟩ := delivered_rows hj ho hc (hsub hd) r hr
    · exact .inl hold
    · exact .inr ⟨v, (hd v).1 hv, h⟩
  · rintro pre v post t rfl h
    exact news_of_true hj ho hc (fun w hw => (hd w).1 (mem_append_left _ hw)) h

namespace Sample

theorem identifier_none : ∀ id ∈ ([] : List String), isIdentifier id := by decide

/-- The record of the owner of `o1`. -/
def recordOwner : Env × Call := (.ofList [] identifier_none, .recordOwnedDispatch "o1" "ref" (.dict []))

/-- An owned event of `o1`. -/
def ownedEvent (event_id : String) (sequence : ℤ) : Json :=
  .dict [("event_id", .str event_id), ("sequence", .int sequence), ("task_id", .str "ref"),
    ("operation_id", .str "o1"), ("context_version", .int 1), ("status", .str "queued"), ("text", .str "")]

/-- The calls before the events. -/
def owner : List (Env × Call) := [create, acceptFirst, recordOwner]

/-- What the calls leave. -/
theorem reached_owner : (reached owner).inbox.length = 0 ∧ (reached owner).owned_events.length = 0 ∧
    (∀ r ∈ (reached owner).events, r.event_id ≠ "x1" ∧ r.event_id ≠ "x2") ∧
    ((reached owner).operation? "o1").map OperationRow.context_version = some 1 ∧
    ((reached owner).ownedDispatch? "o1").map OwnedDispatchRow.task_ref = some "ref" := by decide +kernel

theorem parse_x1 : parseOwnedEvent (ownedEvent "x1" 1) = .ok ⟨"x1", 1, "ref", "o1", 1⟩ := rfl

theorem parse_x2 : parseOwnedEvent (ownedEvent "x2" 2) = .ok ⟨"x2", 2, "ref", "o1", 1⟩ := rfl

theorem consistent_owner : Consistent (reached owner) "o1" [ownedEvent "x1" 1, ownedEvent "x2" 2] := by
  obtain ⟨hinbox, hrows, hlog, -⟩ := reached_owner
  have hunseen : ∀ id n, id = "x1" ∨ id = "x2" → Unseen (reached owner) "o1" ⟨id, n, "ref", "o1", 1⟩ := by
    intro id n hid
    refine ⟨?_, fun r hr => ?_, ?_⟩
    · rw [Journal.inbox?, eq_nil_of_length_eq_zero hinbox]
      rfl
    · obtain rfl | rfl := hid
      · exact (hlog r hr).1
      · exact (hlog r hr).2
    · rw [eq_nil_of_length_eq_zero hrows]
      exact fun r hr => absurd hr not_mem_nil
  constructor
  · simp only [mem_cons, not_mem_nil, or_false]
    rintro v (rfl | rfl) w (rfl | rfl) e f he hf hsame
    · exact ⟨Except.ok.inj (he.parsed.symm.trans hf.parsed), rfl⟩
    · obtain rfl := Except.ok.inj (parse_x1.symm.trans he.parsed)
      obtain rfl := Except.ok.inj (parse_x2.symm.trans hf.parsed)
      exact absurd hsame (by decide)
    · obtain rfl := Except.ok.inj (parse_x2.symm.trans he.parsed)
      obtain rfl := Except.ok.inj (parse_x1.symm.trans hf.parsed)
      exact absurd hsame (by decide)
    · exact ⟨Except.ok.inj (he.parsed.symm.trans hf.parsed), rfl⟩
  · simp only [mem_cons, not_mem_nil, or_false]
    rintro v (rfl | rfl) e o he -
    · obtain rfl := Except.ok.inj (parse_x1.symm.trans he.parsed)
      exact .inl (hunseen _ _ (.inl rfl))
    · obtain rfl := Except.ok.inj (parse_x2.symm.trans he.parsed)
      exact .inl (hunseen _ _ (.inr rfl))

theorem admitted_x2 : Admitted (reached owner) "o1" (ownedEvent "x2" 2) ⟨"x2", 2, "ref", "o1", 1⟩ := by
  obtain ⟨-, -, -, hversion, howner⟩ := reached_owner
  obtain ⟨o, ho, hversion⟩ := Option.map_eq_some_iff.1 hversion
  refine ⟨parse_x2, by decide +kernel, by decide, rfl, ⟨o, ho, ?_⟩, Option.map_eq_some_iff.1 howner⟩
  rw [hversion]
  rfl

end Sample

theorem owned_events_sample : (⟨"o1", 2, "x2"⟩ : OwnedEventRow) ∈ (delivered (reached Sample.owner) "o1"
      [Sample.ownedEvent "x2" 2, Sample.ownedEvent "x1" 1, Sample.ownedEvent "x2" 2]).owned_events ∧
    SameRecord (delivered (reached Sample.owner) "o1"
        [Sample.ownedEvent "x2" 2, Sample.ownedEvent "x1" 1, Sample.ownedEvent "x2" 2])
      (delivered (reached Sample.owner) "o1" [Sample.ownedEvent "x1" 1, Sample.ownedEvent "x2" 2]) := by
  have hd : ∀ v, v ∈ [Sample.ownedEvent "x2" 2, Sample.ownedEvent "x1" 1, Sample.ownedEvent "x2" 2] ↔
      v ∈ [Sample.ownedEvent "x1" 1, Sample.ownedEvent "x2" 2] := by
    intro v
    simp only [mem_cons, not_mem_nil, or_false]
    tauto
  obtain ⟨o, ho, -⟩ := Sample.admitted_x2.version
  have hall := owned_events_converge Sample.owner "o1" _ _ Sample.consistent_owner hd
  exact ⟨(hall.2.1 _ (by simp) _ o Sample.admitted_x2 ho).row, hall.1 _ fun _ => Iff.rfl⟩

end StrixAlloy.TaskStore

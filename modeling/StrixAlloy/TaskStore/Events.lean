import StrixAlloy.TaskStore.Calls

/-!
# Who wrote an event

The types of the events that the store itself writes, by the call that writes them. `observe` lets a
caller choose any type that is not among `reservedTypes`, and two of the store's own are not: an
observation of such a type is a forgery (`Forges`). In a run without forgeries every event of the
store's types was written by the call whose method writes that type.
-/

namespace StrixAlloy.TaskStore

open Checked

/-- The type of the event that a write of the store's own records. -/
def Write.eventType? : Write → Option String
  | .created => some "task_created"
  | .accepted => some "utterance_accepted"
  | .noted => some "question_noted"
  | .cancelled => some "cancel_pending"
  | .dispatched => some "operation_submitted"
  | .settled => some "operation_settled"
  | .receipted => some "receipt_recorded"
  | .reconciled => some "operation_reconciled"
  | .markedUnknown => some "outcome_unknown"
  | .scopeAdded | .observed | .ownedDispatched | .ownedObserved | .detached => none

/-- The types of the events that a call writes as the store. -/
def Call.eventTypes (call : Call) : List String := call.writes.filterMap Write.eventType?

/-- The types of the events that the store itself writes. -/
def storeTypes : List String :=
  ["task_created", "utterance_accepted", "question_noted", "cancel_pending", "operation_submitted",
    "operation_settled", "outcome_unknown", "receipt_recorded", "operation_reconciled"]

/-- What `observe` demands of its other arguments. -/
def Observable (operation_id event_id : String) (payload : Json) : Prop :=
  isIdentifier operation_id ∧ isIdentifier event_id ∧ validateJson payload defaultLimit = .ok ()

/-- An observation of a new callback of a known operation, under a type of the store's own that
`observe` does not reserve. -/
def Forges (j : Journal) (call : Env × Call) : Prop :=
  match call.2 with
  | .observe operation_id event_id event_type payload =>
    event_type ∈ ["question_noted", "cancel_pending"] ∧ Observable operation_id event_id payload ∧
      (j.operation? operation_id).isSome ∧ j.inbox? event_id = none
  | _ => False

/-- Events are only appended, and each write appends events of its own type. -/
theorem Effect.events {w : Write} {j j' : Journal} (h : Effect w j j') :
    ∃ es, j'.events = j.events ++ es ∧ ∀ e ∈ es, w = .observed ∨ w.eventType? = some e.type := by
  cases h with
  | scopeAdded | ownedDispatched | ownedObserved | detached => exact ⟨[], by simp⟩
  | observed => exact ⟨_, rfl, fun _ _ => .inl rfl⟩
  | settled row task outcome state replies evidence question now id _ _ _ _ _ _ _ _ hq =>
    obtain ⟨questions, rfl⟩ := settleQuestions_frame hq
    exact ⟨_, rfl, by simp [Write.eventType?]⟩
  | created | accepted | noted | cancelled | dispatched | receipted | reconciled | markedUnknown =>
    exact ⟨_, rfl, by simp [Write.eventType?]⟩

/-- Events are only appended by writes, and writes other than observations append events of their
own types. -/
theorem Writes.events {ws : List Write} {j j' : Journal} (h : Writes ws j j') :
    ∃ es, j'.events = j.events ++ es ∧
      (Write.observed ∉ ws → ∀ e ∈ es, e.type ∈ ws.filterMap Write.eventType?) := by
  induction h with
  | refl => exact ⟨[], by simp⟩
  | tail _ heffect ih =>
    obtain ⟨es, hes, htypes⟩ := ih
    obtain ⟨w, hw, heffect⟩ := heffect
    obtain ⟨es', hes', htypes'⟩ := heffect.events
    refine ⟨es ++ es', by rw [hes', hes, List.append_assoc], fun hws e he => ?_⟩
    rcases List.mem_append.1 he with he | he
    · exact htypes hws e he
    · rcases htypes' e he with rfl | htype
      · exact absurd hw hws
      · exact List.mem_filterMap.2 ⟨w, hw, htype⟩

/-- The type of an event that a call adds is one that its method writes, or one that an observer chose
and that is not reserved. -/
theorem step_event_cases {j : Journal} (hj : Keyed j) {call : Env × Call} {e : EventRow}
    (hnew : e ∉ j.events) (he : e ∈ (step j call).events) :
    e.type ∈ call.2.eventTypes ∨ e.type = "owned_observation" ∨
      (e.type ∉ reservedTypes ∧ ∃ operation_id event_id payload,
        call.2 = .observe operation_id event_id e.type payload ∧ Observable operation_id event_id payload ∧
          (j.operation? operation_id).isSome ∧ j.inbox? event_id = none) := by
  unfold step at he
  split at he
  swap
  · exact absurd he hnew
  next j' hrun =>
  obtain ⟨es, hes, htypes⟩ := (Call.writes_of_run hj.operations hrun).events
  obtain ⟨env, call⟩ := call
  have hadded : e ∈ es := by
    rw [hes] at he
    exact (List.mem_append.1 he).resolve_left hnew
  have hobserved : ∀ {operation_id event_id event_type payload new j₁},
      observe j operation_id event_id event_type payload = .ok (new, j₁) → e ∈ j₁.events →
        e.type = event_type ∧ event_type ∉ reservedTypes ∧ j.inbox? event_id = none ∧
          (j.operation? operation_id).isSome := by
    intro operation_id event_id event_type payload new j₁ hobserve he₁
    rcases observe_ok hobserve with ⟨_, -, -, -, -, -, rfl⟩ | ⟨hnone, -, -, -, e', he', rfl, hfree, hop⟩
    · exact absurd he₁ hnew
    · rw [he'] at he₁
      obtain rfl := List.mem_singleton.1 ((List.mem_append.1 he₁).resolve_left hnew)
      exact ⟨rfl, hfree, hnone, hop⟩
  cases call with
  | observe =>
    obtain ⟨_, hobserve⟩ := map_snd_eq_ok.1 hrun
    obtain ⟨rfl, hfree, hnone, hop⟩ := hobserved hobserve he
    simp only [observe, bind_eq_ok, boundedIdentifier_eq_ok] at hobserve
    obtain ⟨_, hid, _, hevent, -, -, -, -, _, hpayload, -⟩ := hobserve
    exact .inr (.inr ⟨hfree, _, _, _, rfl, ⟨hid, hevent, hpayload⟩, hop, hnone⟩)
  | observeOwned =>
    obtain ⟨_, howned⟩ := map_snd_eq_ok.1 hrun
    obtain ⟨owned, -, new, j₁, hobserve, hnews⟩ := observeOwned_ok howned
    have he₁ : e ∈ j₁.events := by
      obtain ⟨-, rfl⟩ | ⟨-, hwrite⟩ := hnews
      · exact he
      · cases hwrite
        exact he
    exact .inr (.inl (hobserved hobserve he₁).1)
  | _ => exact .inl (htypes (by simp [Call.writes]) e hadded)

/-- An event that a call adds under a type of the store's own was written by the store, unless the
call is a forgery. -/
theorem step_event {j : Journal} (hj : Keyed j) {call : Env × Call} (hcall : ¬ Forges j call)
    {e : EventRow} (hnew : e ∉ j.events) (he : e ∈ (step j call).events) (htype : e.type ∈ storeTypes) :
    e.type ∈ call.2.eventTypes := by
  rcases step_event_cases hj hnew he with hwrote | howned | ⟨hfree, _, _, _, hobserve, hargs, hop, hnone⟩
  · exact hwrote
  · rw [howned] at htype
    exact absurd htype (by decide)
  · refine absurd ?_ hcall
    rw [Forges, hobserve]
    refine ⟨?_, hargs, hop, hnone⟩
    simp only [storeTypes, reservedTypes, List.mem_cons, List.not_mem_nil, or_false] at htype hfree ⊢
    tauto

/-- An observation of the operation `o1` under a type, with a question for its payload. -/
def Sample.observe (event_type : String) : Env × Call :=
  (.ofList [] (by decide), .observe "o1" "c1" event_type
    (.dict [("text", .str "May I pay?"), ("source", .str "backend")]))

/-- In a run without forgeries, every event under a type of the store's own was written by a call
whose method writes that type. -/
theorem event_written_by_store (calls : List (Env × Call))
    (hcalls : Runs.Admits step (fun j call => ¬ Forges j call) .empty calls) :
    ∀ e ∈ (reached calls).events, e.type ∈ storeTypes → ∃ pre call post,
      calls = pre ++ call :: post ∧ e ∉ (reached pre).events ∧
        e ∈ (step (reached pre) call).events ∧ e.type ∈ call.2.eventTypes := by
  intro e he htype
  have hempty : e ∉ Journal.empty.events := List.not_mem_nil
  have hreached : e ∈ (Runs.run step .empty calls).events := he
  obtain ⟨pre, call, post, rfl, hnew, hadded⟩ :=
    Runs.exists_step (P := fun j : Journal => e ∈ j.events) hempty hreached
  exact ⟨pre, call, post, rfl, hnew, hadded,
    step_event (reached_keyed pre) (hcalls pre call post rfl) hnew hadded htype⟩

/-- The theorem at a run with an observation. -/
theorem event_written_by_store_observed :
    let calls := [Sample.create, Sample.acceptFirst, Sample.observe "backend_observed"]
    ∀ e ∈ (reached calls).events, e.type ∈ storeTypes → ∃ pre call post,
      calls = pre ++ call :: post ∧ e ∉ (reached pre).events ∧
        e ∈ (step (reached pre) call).events ∧ e.type ∈ call.2.eventTypes := by
  refine event_written_by_store _ ?_
  rw [Runs.admits_cons, Runs.admits_cons, Runs.admits_cons]
  refine ⟨id, id, ?_, Runs.admits_nil⟩
  rintro ⟨htype, -⟩
  exact absurd htype (by decide)

/-- An observation under the type `question_noted` leaves an event that no method for it wrote. -/
theorem event_forged :
    ¬ ∀ calls, ∀ e ∈ (reached calls).events, e.type ∈ storeTypes → ∃ pre call post,
      calls = pre ++ call :: post ∧ e ∉ (reached pre).events ∧
        e ∈ (step (reached pre) call).events ∧ e.type ∈ call.2.eventTypes := by
  intro h
  have hforged : ∃ e ∈ (reached [Sample.create, Sample.acceptFirst,
      Sample.observe "question_noted"]).events, e.type = "question_noted" := by decide +kernel
  obtain ⟨e, he, htype⟩ := hforged
  obtain ⟨pre, call, post, hcalls, -, -, hwrote⟩ := h _ e he (by rw [htype]; decide)
  have hmem : call ∈ [Sample.create, Sample.acceptFirst, Sample.observe "question_noted"] := by
    rw [hcalls]
    exact List.mem_append_right _ List.mem_cons_self
  rw [htype] at hwrote
  have hnone : ∀ call ∈ [Sample.create, Sample.acceptFirst, Sample.observe "question_noted"],
      "question_noted" ∉ call.2.eventTypes := by decide
  exact hnone call hmem hwrote

end StrixAlloy.TaskStore

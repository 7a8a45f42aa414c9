import StrixAlloy.OrderTasks.Answers

/-!
# Whose operations an answer shows

An operation in an answer of `operation` or `command` is one of the task that the caller owns. `status` shows
the operation that is stored under the key of the task's commit, and does not compare its task. The key is
checked before the commit is stored and bound to a task only in `dispatch`, so that commits of two tasks may
carry one key (`Reused`), and the operation of the one is then shown for the other (`foreign_operation_shown`).
-/

namespace StrixAlloy.OrderTasks

open Interleave

/-- The operation in an answer, the caller, and the task that was asked about. -/
def shown : Request → Response → Option (Authority × String × Operation)
  | .status id, .status r a => r.operation.map fun op => (a, id, op)
  | .operation _, .operation op a => some (a, op.task_id, op)
  | .command id _, .command r a => r.operation.map fun op => (a, id, op)
  | _, _ => none

/-- The answers with an operation that the server has given. -/
def Server.shown (p : Server) : List (Authority × String × Operation) :=
  p.threads.filterMap fun t =>
    match t.2 with
    | .done (.ok a) => OrderTasks.shown t.1 a
    | _ => none

theorem mem_shown {p : Server} {x : Authority × String × Operation} (h : x ∈ p.shown) :
    ∃ r a, Gives p r a ∧ shown r a = some x := by
  obtain ⟨⟨r, y⟩, hmem, hx⟩ := List.mem_filterMap.1 h
  rcases y with (_ | a) | ⟨q, next⟩
  · cases hx
  · exact ⟨r, a, hmem, hx⟩
  · cases hx

instance (s : Store) : Decidable (Reused s) := inferInstanceAs
  (Decidable (∃ x ∈ s.transitions, ∃ y ∈ s.transitions, x.kind = .commit ∧ y.kind = .commit ∧
    x.task_id ≠ y.task_id ∧ x.operation_key = y.operation_key))

/-- In every run, an operation in an answer is the one of the task that was asked about, and the caller owns
the task; for `status`, where commits of different tasks carry different keys. -/
theorem operation_visible (hash : List Char → String) (clock : ℚ) (as : List (Act Choice Request))
    {r : Request} {a : Response} (hgives : Gives (serve hash clock as) r a)
    (hkeys : (∀ id, r ≠ .status id) ∨ ¬Reused (serve hash clock as).state)
    {b : Authority} {t : String} {op : Operation} (hshown : shown r a = some (b, t, op)) :
    Visible (serve hash clock as).state b.binding t op := by
  have h := (serve_ok hash clock as).2 r a hgives
  unfold shown at hshown
  split at hshown
  · obtain ⟨-, howns, hop⟩ := h
    obtain ⟨op', hop', heq⟩ := Option.map_eq_some_iff.1 hshown
    obtain ⟨rfl, rfl, rfl⟩ := heq
    have hreused := hkeys.resolve_left fun hne => hne _ rfl
    exact ⟨(hop _ hop').1, (hop _ hop').2 hreused, howns⟩
  · obtain ⟨rfl, rfl, rfl⟩ := Option.some.inj hshown
    exact h.1
  · obtain ⟨op', hop', heq⟩ := Option.map_eq_some_iff.1 hshown
    obtain ⟨rfl, rfl, rfl⟩ := heq
    exact h.2.2.2 _ hop'
  · cases hshown

/-! ## Two tasks with one key -/

/-- What the policy answers to a caller, and one identifier. -/
def caller (principal guid : String) (h : guid ≠ "root") : Choice where
  authority := some ⟨⟨principal, "service", "agent", "tool", "revision"⟩, true, true, 3600000⟩
  clock := 0
  guid := guid
  guid_ne := h
  fails := false
  result := none

/-- The request of the thread `i`, with up to `n` steps of it. -/
def ask (i n : ℕ) (r : Request) (c : Choice) : List (Act Choice Request) :=
  .start r :: List.replicate n (.go i c)

def createInput (command_id : String) : Json :=
  .dict [("command_id", .str command_id), ("objective", .str "order"), ("context_version", .int 1)]

def commandInput (command_id revision kind : String) (fields : Members) : Json :=
  .dict (("command_id", .str command_id) :: ("expected_revision", .str revision) :: ("kind", .str kind) ::
    ("context_version", .int 1) :: fields)

/-- A proposal after the root, its confirmation, and the commit of both with the key `key`. -/
def prepareInput (command_id : String) : Json :=
  commandInput command_id "root" "prepare" [("proposal", .dict [("employee_name", .str "Ada"),
    ("start_date", .str "2030-01-01"), ("delivery_location", .str "Here"), ("manager_name", .str "Bo")])]

def confirmInput (command_id proposal_id : String) : Json :=
  commandInput command_id proposal_id "confirm" [("proposal_id", .str proposal_id),
    ("utterance_ref", .str "yes")]

def commitInput (command_id proposal_id confirmation_id : String) : Json :=
  commandInput command_id confirmation_id "commit" [("proposal_id", .str proposal_id),
    ("confirmation_id", .str confirmation_id), ("operation_key", .str "key")]

/-- The task `A` of the caller `p`, up to its commit. -/
def orderA : List (Act Choice Request) :=
  ask 0 20 (.create (createInput "a")) (caller "p" "A" (by decide)) ++
  ask 1 20 (.command "A" (prepareInput "a1")) (caller "p" "A1" (by decide)) ++
  ask 2 20 (.command "A" (confirmInput "a2" "A1")) (caller "p" "A2" (by decide)) ++
  ask 3 15 (.command "A" (commitInput "a3" "A1" "A2")) (caller "p" "A3" (by decide))

/-- The task `B` of the caller `q`, with the same key, and its order, in the threads from `i`. -/
def orderB (i : ℕ) : List (Act Choice Request) :=
  ask i 20 (.create (createInput "b")) (caller "q" "B" (by decide)) ++
  ask (i + 1) 20 (.command "B" (prepareInput "b1")) (caller "q" "B1" (by decide)) ++
  ask (i + 2) 20 (.command "B" (confirmInput "b2" "B1")) (caller "q" "B2" (by decide)) ++
  ask (i + 3) 60 (.command "B" (commitInput "b3" "B1" "B2")) (caller "q" "B3" (by decide))

/-- The commit of `A` has stopped before its operation was stored; then its status is asked for. -/
def orders : List (Act Choice Request) :=
  orderA ++ orderB 4 ++ ask 8 20 (.status "A") (caller "p" "A4" (by decide))

theorem shown_orders : (serve String.ofList 0 orders).shown.map
    (fun x => (x.1.binding.principal, x.2.1, x.2.2.task_id, x.2.2.binding.principal)) =
      [("q", "B", "B", "q"), ("p", "A", "B", "q")] := by decide +kernel

/-- The caller `p` is shown the operation of the task `B`, which `q` owns, for the task `A`. -/
theorem foreign_operation_shown : ∃ r a b t op, Gives (serve String.ofList 0 orders) r a ∧
    shown r a = some (b, t, op) ∧ op.task_id ≠ t ∧ op.binding.principal ≠ b.binding.principal := by
  have hmem : ("p", "A", "B", "q") ∈ (serve String.ofList 0 orders).shown.map
      (fun x => (x.1.binding.principal, x.2.1, x.2.2.task_id, x.2.2.binding.principal)) := by
    rw [shown_orders]
    exact List.mem_cons_of_mem _ List.mem_cons_self
  obtain ⟨⟨b, t, op⟩, hx, heq⟩ := List.mem_map.1 hmem
  obtain ⟨r, a, hgives, hshown⟩ := mem_shown hx
  obtain ⟨hb, ht, htask, hop⟩ : b.binding.principal = "p" ∧ t = "A" ∧ op.task_id = "B" ∧
      op.binding.principal = "q" := by simpa using heq
  refine ⟨r, a, b, t, op, hgives, hshown, ?_, ?_⟩
  · rw [htask, ht]
    decide
  · rw [hop, hb]
    decide

/-- The order of `B` alone, whose answer shows its operation. -/
theorem operation_visible_orderB : ∃ r a b t op, Gives (serve String.ofList 0 (orderB 0)) r a ∧
    shown r a = some (b, t, op) ∧ Visible (serve String.ofList 0 (orderB 0)).state b.binding t op := by
  have hrun : 0 < (serve String.ofList 0 (orderB 0)).shown.length ∧
      ¬Reused (serve String.ofList 0 (orderB 0)).state := by decide +kernel
  obtain ⟨x, hx⟩ := List.exists_mem_of_length_pos hrun.1
  obtain ⟨r, a, hgives, hshown⟩ := mem_shown hx
  exact ⟨r, a, x.1, x.2.1, x.2.2, hgives, hshown,
    operation_visible String.ofList 0 (orderB 0) hgives (.inr hrun.2) hshown⟩

end StrixAlloy.OrderTasks

import Mathlib.Data.Int.Notation
import Mathlib.Tactic.Common

/-!
# Admission requests

`AdmissionRequest` with the facts of its receipt that decide something. Each method runs under the
lock of the request and is one function here; `now` is what the monotonic clock reads in it.
-/

namespace StrixAlloy.Admission

/-- The members of `ROLES`, each with its slot. -/
inductive Role where
  | classifier | planner
deriving DecidableEq

/-- `AdmissionBudget`. -/
structure AdmissionBudget where
  input_tokens : ℕ
  completion_tokens : ℕ
  /-- The checks of `__post_init__`. -/
  valid : 0 < input_tokens ∧ 0 < completion_tokens ∧ input_tokens + completion_tokens ≤ 4096

/-- `ROUTE_BUDGET` and `PLANNER_BUDGET`. -/
def Role.budget : Role → AdmissionBudget
  | .classifier => ⟨3584, 24, by decide⟩
  | .planner => ⟨3072, 128, by decide⟩

/-- The values of `unresolved_reason`. -/
inductive Unresolved where
  | none | unexpectedTask | targetBusy | noTerminalOrActiveWitness | observerUnavailable | releaseUnproved
deriving DecidableEq

/-- The values of `release_basis`. -/
inductive Basis where
  | none | sealedZeroInference | fullTerminalThenIdle | activeThenIdle

/-- What a request sends. -/
inductive Phase where
  | count | inference
deriving DecidableEq

/-- The kinds of a slot probe of a request. -/
inductive Kind where
  | cleanup | witness
deriving DecidableEq

/-- How a transaction ends by an exception. -/
inductive Failure where
  | timeout | invalidCount | contextBudget | proposal | unavailable
deriving DecidableEq

/-- `AdmissionRequest` with its receipt. Its budget is that of `role`, and `acquire` admits no other
role; `leased` says that it has a `lease_id` and a `slot_owner`. -/
structure Request where
  role : Role
  deadline : ℕ
  cancelled : Bool
  sealed : Bool
  leased : Bool
  count_attempts : ℕ
  inference_attempts : ℕ
  count_valid : Option Bool
  input_tokens : Option ℕ
  worker_outstanding : Bool
  full_terminal_at : Option ℕ
  active_task : Option ℤ
  active_observed_at : Option ℕ
  unresolved_reason : Unresolved
  release_basis : Basis
  released_at : Option ℕ
  cancelled_at : Option ℕ
  cleanup_get_attempts : ℕ
  witness_get_attempts : ℕ
  cleanup_started : Bool
  witness_started : Bool

namespace Request

/-- The request as it is constructed. -/
def fresh (role : Role) (deadline : ℕ) : Request where
  role := role
  deadline := deadline
  cancelled := false
  sealed := false
  leased := false
  count_attempts := 0
  inference_attempts := 0
  count_valid := none
  input_tokens := none
  worker_outstanding := true
  full_terminal_at := none
  active_task := none
  active_observed_at := none
  unresolved_reason := .none
  release_basis := .none
  released_at := none
  cancelled_at := none
  cleanup_get_attempts := 0
  witness_get_attempts := 0
  cleanup_started := false
  witness_started := false

variable (now : ℕ) (q : Request)

/-- `check()` passes. -/
def live : Bool := !q.cancelled && now < q.deadline

/-- `update(unresolved_reason=…)`: an unexpected task is never overwritten. -/
@[simps]
def note (reason : Unresolved) : Request :=
  { q with unresolved_reason := if q.unresolved_reason = .unexpectedTask then .unexpectedTask else reason }

/-- `retire`. -/
@[simps]
def retire : Request :=
  { q with
    sealed := true
    cancelled := true
    cancelled_at := q.cancelled_at.orElse fun _ => some now }

/-- `revoke_for_drain`: a planner that has sent its inference may still read the answer. -/
def revokeForDrain : Request :=
  if q.role = .planner ∧ q.inference_attempts = 1 ∧ ¬ q.cancelled ∧ now < q.deadline then
    { q with sealed := true }
  else q.retire now

/-- `_release_locked`. -/
def release (basis : Basis) : Request :=
  if q.released_at.isSome then q
  else
    { q with
      sealed := true
      release_basis := basis
      released_at := some now
      unresolved_reason := .none }

/-- The number of attempts of a phase. -/
def attempts : Phase → ℕ
  | .count => q.count_attempts
  | .inference => q.inference_attempts

/-- The checks of `dispatch` under the locks. -/
def mayDispatch (invalid : Bool) (phase : Phase) : Bool :=
  q.live now && !q.sealed && q.attempts phase = 0 && !invalid &&
    (phase ≠ .inference || q.count_valid = some true &&
      q.input_tokens.any fun n => n ≤ q.role.budget.input_tokens)

/-- The marks of `dispatch`. -/
@[simps]
def dispatched (phase : Phase) : Request :=
  { q with
    count_attempts := if phase = .count then 1 else q.count_attempts
    inference_attempts := if phase = .inference then 1 else q.inference_attempts }

/-- The answer to the count is valid and says `n`. -/
def answered (n : ℕ) : Request := { q with input_tokens := some n, count_valid := some true }

/-- The answer to the inference is complete and decoded, and its worker ends. -/
def completed : Request := { q with full_terminal_at := some now, worker_outstanding := false }

/-- The worker ends by an exception: only the errors of the transport and of the clock retire the
request. -/
def failed (failure : Failure) : Request :=
  let q := if failure = .invalidCount then { q with count_valid := some false } else q
  let q := if failure = .contextBudget ∨ failure = .proposal then q else q.retire now
  { q with worker_outstanding := false }

/-- `finish` of a request that has sent its inference: it stays unresolved, and is observed once it is
cancelled. -/
def unresolve : Request :=
  let q := if q.unresolved_reason = .none then q.note .releaseUnproved else q
  if q.cancelled_at.isNone ∨ q.cleanup_started then q else { q with cleanup_started := true }

/-- The slot of the request is seen at its work. -/
def observedBusy (task : Option ℤ) : Request :=
  { q.note .targetBusy with
    active_task := task
    active_observed_at := q.active_observed_at.orElse fun _ => some now }

/-- A call of `observe_active` is marked, since there may be one only. -/
@[simps]
def called (kind : Kind) : Request := { q with witness_started := q.witness_started || kind = .witness }

/-- The checks of a probe under the locks, before it is sent. -/
def mayProbe : Kind → Bool
  | .cleanup => q.cleanup_get_attempts < if q.cancelled_at.isSome then 2 else 1
  | .witness => q.witness_get_attempts < 1 && q.full_terminal_at.isNone && q.cancelled_at.isNone &&
      q.released_at.isNone

/-- The marks of a probe that is sent. -/
@[simps]
def probed (kind : Kind) : Request :=
  { q with
    cleanup_get_attempts := q.cleanup_get_attempts + if kind = .cleanup then 1 else 0
    witness_get_attempts := q.witness_get_attempts + if kind = .witness then 1 else 0 }

/-- A task that the slot of the request must not run. -/
def unexpected (last_task : Option ℤ) (task : Option ℤ) : Bool :=
  q.inference_attempts ≠ 1 || task = last_task || (q.active_task.isSome && q.active_task ≠ task)

/-- An idle slot was observed by a probe that was sent after a witness of the inference. -/
def proved (sent_at : ℕ) : Bool :=
  (q.full_terminal_at.any fun at_ => at_ ≤ sent_at) || q.active_observed_at.any fun at_ => at_ ≤ sent_at

end Request

end StrixAlloy.Admission

import StrixAlloy.Admission.Request
import StrixAlloy.Lib.Runs

/-!
# The owner of the shared slots

`SharedSlotOwner` with the requests, the calls of `acquire`, the transactions and the slot probes that
are on their way, as one step relation. What runs under the lock of the owner or of a request is one
step, and so is what a coroutine does between two awaits; everything else may come in any order, late,
or never. A probe is on its way from the moment it is marked as sent to the moment its answer is
applied, so that several answers may be applied in any order; the code keeps one probe a role on its
way, and does less.
-/

namespace StrixAlloy.Admission

open Function

/-- What `_parse_slots` reads about one slot. -/
structure Slot where
  busy : Bool
  task : Option ℤ
  valid : busy → ∃ t, task = some t ∧ 0 ≤ t

/-- A call of `acquire` that has passed its first checks, with its local variables. -/
structure Acquire where
  request : ℕ
  guarded : Bool
  waiting : Bool

/-- Where `_chat_transaction` is: its payload is prepared, its count is on its way, the count is valid
and within the budget, or its inference is on its way. -/
inductive Stage where
  | prepared | counting | counted | inferring
deriving DecidableEq

/-- A worker with a transaction. -/
structure Transaction where
  request : ℕ
  stage : Stage

/-- A probe on its way: of a request, or the one of the startup. -/
structure Probe where
  request : Option ℕ
  sent_at : ℕ

/-- The owner and everything that is on its way. `wire` is history: what was dispatched, in order. -/
structure State where
  now : ℕ
  invalid : Bool
  initialized : Bool
  startup_attempted : Bool
  roles : Role → Option ℕ
  waiters : Role → Bool
  last_task : Role → Option ℤ
  request : ℕ → Request
  acquiring : List Acquire
  transactions : List Transaction
  probes : List Probe
  wire : List (ℕ × Phase)

/-- An owner before its startup, with requests to come: each has the budget of a role and a
deadline. -/
def State.init (role : ℕ → Role) (deadline : ℕ → ℕ) : State where
  now := 1
  invalid := false
  initialized := false
  startup_attempted := false
  roles _ := none
  waiters _ := false
  last_task _ := some (-1)
  request r := .fresh (role r) (deadline r)
  acquiring := []
  transactions := []
  probes := []
  wire := []

namespace State

variable (s : State)

/-- A request is changed under its lock. -/
@[simps]
def modify (r : ℕ) (f : Request → Request) : State :=
  { s with request := update s.request r (f (s.request r)) }

/-! ## acquire -/

/-- The first checks of `acquire`. -/
def enter (r : ℕ) (role : Role) : State :=
  if (s.request r).role = role ∧ ¬ (s.request r).leased then
    { s with acquiring := s.acquiring ++ [⟨r, true, false⟩] }
  else s

/-- `acquire` raises: its waiter is removed, and `run_admitted_chat` ends without a worker. -/
def leave (i : ℕ) (a : Acquire) : State :=
  let role := (s.request a.request).role
  { s.modify a.request fun q => { q with worker_outstanding := false } with
    waiters := if a.waiting then update s.waiters role false else s.waiters
    acquiring := s.acquiring.eraseIdx i }

/-- `acquire` returns with the lease, and its worker starts. -/
def take (i : ℕ) (a : Acquire) : State :=
  let role := (s.request a.request).role
  { s.modify a.request fun q => { q with leased := true } with
    roles := update s.roles role (some a.request)
    waiters := if a.waiting then update s.waiters role false else s.waiters
    acquiring := s.acquiring.eraseIdx i
    transactions := s.transactions ++ [⟨a.request, .prepared⟩] }

/-- One round of the loop of `acquire`. -/
def attempt (i : ℕ) (a : Acquire) : State :=
  let role := (s.request a.request).role
  let previous := (s.roles role).map s.request
  if ¬ (s.request a.request).live s.now ∨ s.invalid ∨ ¬ s.initialized then s.leave i a
  else if previous.all fun q => q.released_at.isSome then
    if a.guarded then s.take i a
    else { s with acquiring := s.acquiring.set i { a with guarded := true } }
  else if previous.any fun q => q.sealed || !q.worker_outstanding then s.leave i a
  else if ¬ a.waiting ∧ s.waiters role then s.leave i a
  else
    { s with
      acquiring := s.acquiring.set i { a with guarded := false, waiting := true }
      waiters := update s.waiters role true }

/-! ## The transaction -/

/-- `dispatch`, which refuses with `none`. -/
def dispatch (r : ℕ) (phase : Phase) : Option State :=
  if (s.request r).mayDispatch s.now s.invalid phase then
    some { s.modify r fun q => q.dispatched phase with wire := s.wire ++ [(r, phase)] }
  else none

/-- The transaction ends by an exception. -/
def fail (i : ℕ) (t : Transaction) (failure : Failure) : State :=
  { s.modify t.request fun q => q.failed s.now failure with transactions := s.transactions.eraseIdx i }

/-- The transaction sends its count or its inference. -/
def send (i : ℕ) (t : Transaction) (phase : Phase) (next : Stage) : State :=
  match s.dispatch t.request phase with
  | some s' => { s' with transactions := s'.transactions.set i { t with stage := next } }
  | none => s.fail i t .unavailable

/-- The answer to the count is valid and says `n`; `closing` says that the connection ends with it. -/
def counted (i : ℕ) (t : Transaction) (n : ℕ) (closing : Bool) : State :=
  let s := s.modify t.request fun q => q.answered n
  let budget := (s.request t.request).role.budget
  if ¬ (s.request t.request).live s.now then s.fail i t .timeout
  else if budget.input_tokens < n ∨ 4096 < n + budget.completion_tokens then s.fail i t .contextBudget
  else if closing then s.fail i t .unavailable
  else { s with transactions := s.transactions.set i { t with stage := .counted } }

/-- The answer to the inference is complete and decoded. -/
def completed (i : ℕ) (t : Transaction) : State :=
  if ¬ (s.request t.request).live s.now then s.fail i t .timeout
  else
    { s.modify t.request fun q => q.completed s.now with
      transactions := s.transactions.eraseIdx i }

/-! ## Release -/

/-- `finish`. A request without an inference is sealed and released. -/
def finish (r : ℕ) : State :=
  let q := s.request r
  if ¬ q.leased ∨ q.released_at.isSome then s
  else if q.inference_attempts = 0 then s.modify r fun q => q.release s.now .sealedZeroInference
  else s.modify r fun q => q.unresolve

/-- A slot is probed for a request: by `completed` after the terminal, by `_cancel_observe` until the
release, or by `observe_active` after its checks. -/
def calls (r : ℕ) (kind : Kind) : Bool :=
  let q := s.request r
  match kind with
  | .cleanup => q.full_terminal_at.isSome || q.cleanup_started && q.released_at.isNone && !s.invalid
  | .witness => !s.invalid && s.initialized && s.roles .planner = some r && q.role = .planner &&
      q.inference_attempts = 1 && q.full_terminal_at.isNone && q.released_at.isNone && !q.cancelled &&
      !q.witness_started

/-- A probe of a request. It is sent if `guard`, its own deadline and the checks under the locks
pass. -/
def probe (r : ℕ) (kind : Kind) (guarded : Bool) : State :=
  if ¬ s.calls r kind then s
  else if guarded ∧ ((s.request r).called kind).mayProbe kind then
    { s.modify r fun q => (q.called kind).probed kind with probes := s.probes ++ [⟨some r, s.now⟩] }
  else s.modify r fun q => (q.called kind).note .observerUnavailable

/-- The probe of the startup is sent. -/
def startup : State :=
  if s.startup_attempted then s
  else { s with startup_attempted := true, probes := s.probes ++ [⟨none, s.now⟩] }

/-- `_apply_slots` for a request, whose slot is `slot`. -/
def applySlots (r : ℕ) (slot : Slot) (sent_at : ℕ) : State :=
  let q := s.request r
  if s.invalid then s.modify r fun q => q.note .observerUnavailable
  else if s.roles q.role ≠ some r ∨ q.released_at.isSome then s
  else if q.unresolved_reason = .unexpectedTask then s
  else if slot.busy then
    if q.unexpected (s.last_task q.role) slot.task then s.modify r fun q => q.note .unexpectedTask
    else s.modify r fun q => q.observedBusy s.now slot.task
  else if q.active_task.isSome ∧ slot.task ∉ [none, some (-1), q.active_task] then
    s.modify r fun q => q.note .unexpectedTask
  else if q.proved sent_at then
    { s.modify r fun q =>
        q.release s.now (if q.full_terminal_at.isSome then .fullTerminalThenIdle else .activeThenIdle) with
      last_task := update s.last_task q.role slot.task }
  else s.modify r fun q => q.note .noTerminalOrActiveWitness

/-- `_apply_slots`, for the states of the two slots. -/
def apply (p : Probe) (slots : Role → Slot) : State :=
  match p.request with
  | some r => s.applySlots r (slots (s.request r).role) p.sent_at
  | none =>
    if s.invalid ∨ (slots .classifier).busy ∨ (slots .planner).busy then s
    else { s with initialized := true, last_task := fun role => (slots role).task }

/-- The answer to a probe is applied, and the probe ends. -/
def observe (i : ℕ) (p : Probe) (slots : Role → Slot) : State :=
  let s := s.apply p slots
  { s with probes := s.probes.eraseIdx i }

/-- A probe ends without an answer. -/
def lose (i : ℕ) (p : Probe) : State :=
  let s := match p.request with
    | some r => s.modify r fun q => q.note .observerUnavailable
    | none => s
  { s with probes := s.probes.eraseIdx i }

end State

/-! ## Steps -/

/-- The steps of all parties. A number is the place of what goes on in its list. -/
inductive Event where
  | tick (n : ℕ)
  /-- `guard` finds that the owner has changed. -/
  | invalidate
  | startup
  | enter (r : ℕ) (role : Role)
  | attempt (i : ℕ)
  | leave (i : ℕ)
  | dispatchCount (i : ℕ)
  | counted (i n : ℕ) (closing : Bool)
  | dispatchInference (i : ℕ)
  | completed (i : ℕ)
  | fail (i : ℕ) (failure : Failure)
  | retire (r : ℕ)
  | revokeForDrain (r : ℕ)
  | finish (r : ℕ)
  | probe (r : ℕ) (kind : Kind) (guarded : Bool)
  | observe (i : ℕ) (slots : Role → Slot)
  | lose (i : ℕ)

/-- What is done with the transaction at a place, if it is in the stage. -/
def State.inStage (s : State) (i : ℕ) (stage : Stage) (f : Transaction → State) : State :=
  match s.transactions[i]? with
  | some t => if t.stage = stage then f t else s
  | none => s

/-- One step. What is not there does nothing. -/
def step (s : State) : Event → State
  | .tick n => { s with now := s.now + n }
  | .invalidate => { s with invalid := true }
  | .startup => s.startup
  | .enter r role => s.enter r role
  | .attempt i => (s.acquiring[i]?).elim s (s.attempt i)
  | .leave i => (s.acquiring[i]?).elim s (s.leave i)
  | .dispatchCount i => s.inStage i .prepared fun t => s.send i t .count .counting
  | .counted i n closing => s.inStage i .counting fun t => s.counted i t n closing
  | .dispatchInference i => s.inStage i .counted fun t => s.send i t .inference .inferring
  | .completed i => s.inStage i .inferring fun t => s.completed i t
  | .fail i failure => (s.transactions[i]?).elim s fun t =>
      if failure = .invalidCount ∧ t.stage ≠ .counting then s else s.fail i t failure
  | .retire r => s.modify r fun q => q.retire s.now
  | .revokeForDrain r => s.modify r fun q => q.revokeForDrain s.now
  | .finish r => s.finish r
  | .probe r kind guarded => s.probe r kind guarded
  | .observe i slots => (s.probes[i]?).elim s fun p => s.observe i p slots
  | .lose i => (s.probes[i]?).elim s (s.lose i)

/-- The state after some steps. -/
def after (role : ℕ → Role) (deadline : ℕ → ℕ) (events : List Event) : State :=
  Runs.run step (.init role deadline) events

end StrixAlloy.Admission

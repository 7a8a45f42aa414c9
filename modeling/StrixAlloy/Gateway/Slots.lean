import Mathlib.Data.Finset.Card
import Mathlib.Tactic.Ring
import StrixAlloy.Lib.Runs

/-!
# The slots of the gateway

`Gateway.acquire_slot`, `release_slot` and the setter of `draining` as one step relation. The code
runs on an event loop, so that what happens between two awaits is one step: a request enters
`acquire_slot`; it resumes from its wait with the result of its future, with a timeout or with a
cancellation, which may land after the grant; it leaves `inference`, whose `finally` releases the slot
that it acquired. A request has a number from its call of `acquire_slot` on, in the order of the calls.
`inference` has two such calls, before its checks for the consumer of a controller and after them
otherwise; the second is made only `if not acquired`, so that each request calls once.
-/

namespace StrixAlloy.Gateway

open Function

/-- The states of the future that a request waits for. -/
inductive Waiter where
  | pending | granted | refused | cancelled
deriving DecidableEq

/-- `waiter.done()`. -/
def Waiter.done (w : Waiter) : Bool := w ≠ .pending

/-- Where a request is: it has not called `acquire_slot`, waits in it, has acquired its slot, or holds
none and never will. -/
inductive Phase where
  | absent | waiting | holding | ended
deriving DecidableEq

/-- The limits of a gateway. -/
structure Limits where
  concurrency : ℕ
  queue_limit : ℕ

/-- The attributes of the gateway that admit requests, with the requests themselves. `granted` and
`released` are history: the requests that a slot was reserved for, and those whose slot was given
back, in order. -/
structure State where
  active : ℤ
  draining : Bool
  waiters : List ℕ
  waiter : ℕ → Waiter
  phase : ℕ → Phase
  /-- The number of calls of `acquire_slot` so far. -/
  arrived : ℕ
  granted : List ℕ
  released : List ℕ

/-- The gateway as it is constructed. -/
def State.init : State where
  active := 0
  draining := false
  waiters := []
  waiter _ := .pending
  phase _ := .absent
  arrived := 0
  granted := []
  released := []

variable (limits : Limits)

/-- The loop of `release_slot` over the waiters: the oldest are granted while there is room. -/
def handOff : List ℕ → State → State
  | [], s => { s with waiters := [] }
  | w :: ws, s =>
    if ¬ s.draining ∧ s.active < limits.concurrency then
      if (s.waiter w).done then handOff ws s
      else
        handOff ws { s with
          active := s.active + 1
          waiter := update s.waiter w .granted
          granted := s.granted ++ [w] }
    else { s with waiters := w :: ws }

/-- `release_slot`, called for the slot of the request `r`. -/
def releaseSlot (s : State) (r : ℕ) : State :=
  handOff limits s.waiters { s with active := s.active - 1, released := s.released ++ [r] }

/-- The loop of the setter of `draining`: every waiter is refused. -/
def refuseAll : List ℕ → State → State
  | [], s => { s with waiters := [] }
  | w :: ws, s =>
    if (s.waiter w).done then refuseAll ws s
    else refuseAll ws { s with waiter := update s.waiter w .refused }

/-- The setter of `draining`. -/
def setDraining (s : State) (value : Bool) : State :=
  let s := { s with draining := value }
  if value then refuseAll s.waiters s else s

/-- `acquire_slot` up to its first await, for the request `r`: the phase in which it goes on. -/
def acquireSlot (s : State) (r : ℕ) : State × Phase :=
  if s.draining then (s, .ended)
  else if s.active < limits.concurrency ∧ s.waiters = [] then
    ({ s with active := s.active + 1, granted := s.granted ++ [r] }, .holding)
  else if limits.queue_limit ≤ s.waiters.length then (s, .ended)
  else
    ({ s with
        waiter := update s.waiter r .pending
        waiters := s.waiters ++ [r] }, .waiting)

/-- How a waiting request resumes: its future is done, or `wait_for` raises. -/
inductive Wake where
  | result | timeout | cancelled
deriving DecidableEq

/-- `acquire_slot` from its await on, for the request `r`. A grant that races with an exception gives
its slot back, and so does one that meets the drain. -/
def resumeSlot (s : State) (r : ℕ) : Wake → State × Phase
  | .result =>
    if s.waiter r = .granted then
      if s.draining then (releaseSlot limits s r, .ended) else (s, .holding)
    else (s, .ended)
  | .timeout | .cancelled =>
    if s.waiter r = .granted then (releaseSlot limits s r, .ended)
    else
      ({ s with
          waiter := if (s.waiter r).done then s.waiter else update s.waiter r .cancelled
          waiters := s.waiters.erase r }, .ended)

/-- The request `r` goes on in a phase. -/
def enter (r : ℕ) (next : State × Phase) : State :=
  { next.1 with phase := update next.1.phase r next.2 }

/-- The steps of the event loop. -/
inductive Event where
  /-- A request calls `acquire_slot`. -/
  | arrive
  /-- The request `r` resumes. -/
  | resume (r : ℕ) (wake : Wake)
  /-- The request `r`, which has its slot, leaves `inference` by a return or an exception. -/
  | finish (r : ℕ)
  | drain (value : Bool)

/-- One step. A step that cannot happen changes nothing: a request that does not wait does not resume,
and a future that is not done has no result. -/
def step (s : State) : Event → State
  | .arrive => enter s.arrived (acquireSlot limits { s with arrived := s.arrived + 1 } s.arrived)
  | .resume r wake =>
    if s.phase r = .waiting ∧ (wake = .result → (s.waiter r).done) then enter r (resumeSlot limits s r wake)
    else s
  | .finish r =>
    if s.phase r = .holding then enter r (releaseSlot limits s r, .ended) else s
  | .drain value => setDraining s value

/-- The gateway after some steps. -/
def after (events : List Event) : State := Runs.run (step limits) State.init events

end StrixAlloy.Gateway

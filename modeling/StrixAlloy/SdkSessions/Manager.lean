import StrixAlloy.SdkSessions.Session

/-!
# The session manager

`SDKSessionManager` with its sessions, the calls of `create` that await a preparation, and the set of
holders of the call capacity, which it shares with the browser's transport. The requests of all clients
and the steps of their handlers come in any order.
-/

namespace StrixAlloy.SdkSessions

/-- The members of the set `active`: the reservation of a `create`, the call of a session, or a call of the
browser. -/
inductive Holder where
  | reservation (operation : ℕ)
  | call (session : ℕ)
  | browser
deriving DecidableEq

/-- The await of a `create` that holds a reservation: `prepare_context`, or the servers of the managed
relay. -/
inductive CreateStage where
  | preparing
  | bootstrapping
deriving DecidableEq

/-- How `create` ends once it makes its call: that fails, what follows it fails, or the session is
open. -/
inductive Made where
  | failed
  | unbound
  | opened

/-- What is configured: whether a `create` prepares its context, whether it asks the managed relay, and the
parser of a candidate. -/
structure Config (C : Type) where
  prepares : Bool
  managed : Bool
  ice_candidate : CandidateBody → Option C

structure Manager (C : Type) where
  active : List Holder
  creating : List (ℕ × CreateStage)
  operations : ℕ
  stopping : Bool
  sessions : List (Session C)

/-- The requests and what handlers and tasks do between two awaits. `enabled` is whether the policy still
matches the configuration, `running` whether the relay runs. -/
inductive Event where
  | create (enabled running : Bool) (made : Made)
  | prepared (operation : ℕ) (passed enabled : Bool) (made : Made)
  | bootstrapped (operation : ℕ) (passed enabled : Bool) (made : Made)
  | cancelCreate (operation : ℕ)
  | offer (session : ℕ) (body : List (String × Json))
  | candidate (session : ℕ) (body : List (String × Json))
  | proceed (session : ℕ) (checked : Checked)
  | fail (session : ℕ)
  | cancelled (session : ℕ)
  | close (session : ℕ)
  | closeStep (session : ℕ)
  | closeFail (session : ℕ)
  | closeComplete (session : ℕ)
  | stop
  | shutdownSessions
  | browserEnter
  | browserLeave

namespace Manager

variable {C : Type}

def init : Manager C where
  active := []
  creating := []
  operations := 0
  stopping := false
  sessions := []

/-- `create` gives up its reservation. -/
def release (m : Manager C) (operation : ℕ) : Manager C :=
  { m with active := m.active.erase (.reservation operation)
           creating := m.creating.filter fun o => o.1 ≠ operation }

/-- A new session whose call holds the capacity. -/
def add (m : Manager C) (s : Session C) : Manager C :=
  { m with active := m.active ++ [.call m.sessions.length], sessions := m.sessions ++ [s] }

/-- The rest of `create` from the making of the call: the reservation is given up in the same step, and a
call that cannot be bound is closed. -/
def make (m : Manager C) (operation : ℕ) : Made → Manager C
  | .failed => m.release operation
  | .unbound => (m.add Session.init.beginClose).release operation
  | .opened => (m.add Session.init).release operation

/-- `_allocate_call` after the preparation. -/
def allocate (c : Config C) (m : Manager C) (operation : ℕ) (enabled : Bool) (made : Made) : Manager C :=
  if m.stopping ∨ !enabled then m.release operation
  else if c.managed then
    { m with creating := m.creating.filter (fun o => o.1 ≠ operation) ++ [(operation, .bootstrapping)] }
  else m.make operation made

/-- `create`, from the check of the capacity to its first await. -/
def create (c : Config C) (m : Manager C) (enabled running : Bool) (made : Made) : Manager C :=
  if m.stopping ∨ !enabled ∨ m.active ≠ [] ∨ !running then m
  else
    let m' := { m with active := m.active ++ [.reservation m.operations]
                       creating := m.creating ++ [(m.operations, .preparing)]
                       operations := m.operations + 1 }
    if c.prepares then m' else m'.allocate c m.operations enabled made

/-- A step of one session. -/
def modify (m : Manager C) (session : ℕ) (f : Session C → Session C) : Manager C :=
  { m with sessions := m.sessions.modify session f }

/-- The handler of an offer with its body: it is refused, waits for the lock, or goes on. -/
def offerRequest (body : List (String × Json)) (s : Session C) : Session C :=
  match offerBody body with
  | none => s.answer .offer 400
  | some sdp => if s.holding.isSome then s else s.offer sdp

/-- The handler of a candidate with its body. -/
def candidateRequest (c : Config C) (body : List (String × Json)) (s : Session C) : Session C :=
  match (candidateBody body).bind c.ice_candidate with
  | none => s.answer .candidate 400
  | some candidate => if s.holding.isSome then s else s.candidate candidate

/-- The call of a session that is closed leaves the set. -/
def discard (m : Manager C) (session : ℕ) : Manager C :=
  if m.sessions[session]?.any Session.closed then { m with active := m.active.erase (.call session) }
  else m

/-- One step. What is not possible now changes nothing. -/
def step (c : Config C) (m : Manager C) : Event → Manager C
  | .create enabled running made => m.create c enabled running made
  | .prepared operation passed enabled made =>
    if (operation, .preparing) ∈ m.creating then
      if passed then m.allocate c operation enabled made else m.release operation
    else m
  | .bootstrapped operation passed enabled made =>
    if (operation, .bootstrapping) ∈ m.creating then
      if passed ∧ !m.stopping ∧ enabled then m.make operation made else m.release operation
    else m
  | .cancelCreate operation => m.release operation
  | .offer session body => m.modify session (offerRequest body)
  | .candidate session body => m.modify session (candidateRequest c body)
  | .proceed session checked => m.modify session fun s => s.proceed checked
  | .fail session => m.modify session Session.fail
  | .cancelled session => m.modify session Session.cancelled
  | .close session => m.modify session Session.beginClose
  | .closeStep session => (m.modify session Session.closeStep).discard session
  | .closeFail session => (m.modify session Session.closeFail).discard session
  | .closeComplete session => m.modify session fun s => { s with close_complete := true }
  | .stop => { m with stopping := true }
  | .shutdownSessions => { m with sessions := m.sessions.map Session.beginClose }
  | .browserEnter => if m.active = [] then { m with active := [.browser] } else m
  | .browserLeave => { m with active := m.active.erase .browser }

end Manager

end StrixAlloy.SdkSessions

import StrixAlloy.Lib.Runs
import StrixAlloy.PresentationHistory.Event

/-!
# The lane of a session

`presentation_history`, its attestation and its retirement in `bridge.py`, for one session. A step goes from one
`await` to the next; what a request or a task waits for may also be cut off there. Time is in milliseconds.
`attempts` records the POSTs to the store, each with whether its receipt was valid.
-/

namespace StrixAlloy.PresentationHistory

open Value Function

/-- How a request ends. -/
inductive Answer where
  | unavailable
  | stored (receipt : Value CodePoint)
  | conflict
  | badRequest
  | raised

/-- Where a request waits. -/
inductive Phase where
  | absent
  | body
  | lock (data : Value CodePoint)
  /-- for the attestation, with the lock -/
  | grant (data : Value CodePoint)
  /-- for the store, with the lock -/
  | store (event : Event CodePoint) (requestId conversationId : PyStr)
  | over (answer : Answer)

structure Request where
  /-- `publication_deadline`. -/
  deadline : ℕ
  phase : Phase

/-- Where an attestation task waits. -/
inductive Attest (ι : Type) where
  | absent
  | queued (identity : ι)
  | waiting (identity : ι) (started deadline : ℕ)
  | over

structure Attempt where
  owner : PyStr
  sequence : ℕ
  request : ℕ
  /-- Whether the receipt was valid, once this is known. -/
  valid : Option Bool

/-- What a session has besides its lane, in any representation. -/
structure Rest (ρ β κ τ : Type) where
  requests : ρ
  busy : β
  controls : κ
  transcript : τ

/-- A session. `owned` is the part of the conditions that settings, binding and identities decide, `created`
whether the one CREATE was sent, and `rest` everything else of the session. -/
structure Session (ι α : Type) where
  now : ℕ
  started : Bool
  ending : Bool
  ended : Bool
  failed : Bool
  stopping : Bool
  listed : Bool
  owned : Bool
  created : Bool
  identity : ι
  conversationId : PyStr
  owner : PyStr
  sequence : ℕ
  disabled : Bool
  lease : Option ℕ
  task : Option ℕ
  nonce : PyStr
  provider : PyStr
  presentationIdentity : Option ι
  deadline : ℕ
  attests : ℕ → Attest ι
  spawned : ℕ
  requests : ℕ → Request
  holder : Option ℕ
  attempts : List Attempt
  rest : α

/-! ## The answer of the store -/

/-- The truth value of what `get` returns. -/
def truthy : Option (Value CodePoint) → Bool
  | none => false
  | some .null => false
  | some (.bool b) => b
  | some (.int n) => n ≠ 0
  | some (.float x) => x ≠ 0
  | some (.str s) => s ≠ []
  | some (.list l) => !l.isEmpty
  | some (.dict l) => !l.isEmpty

/-- The checks of a response, whose body may not be readable. -/
def corroborated (status : ℕ) (decoded : Option (Value CodePoint)) (event : Event CodePoint)
    (conversationId requestId : PyStr) : Option (Value CodePoint) :=
  match decoded with
  | some (.dict ack) =>
    if status ≠ 200 || truthy (get? ack (py "error")) ||
        !((get? ack (py "status")).all fun v => v matches .str _) ||
        !((str? ack (py "status")).all (· = py "success")) then none
    else
      let receipt := (get? ack (py "result")).getD (.dict ack)
      if validReceipt receipt event conversationId (some requestId) then some receipt else none
  | _ => none

/-- `voice-[0-9a-f]{32}`. -/
def isProvider (s : PyStr) : Bool := s.take 6 = py "voice-" && isDigest 32 (s.drop 6)

namespace Session

variable {ι α : Type} [DecidableEq ι]

/-! ## The turns of a request -/

/-- The session does not end. -/
def alive (s : Session ι α) : Bool := s.listed && !s.stopping && !s.ending && !s.ended && !s.failed

/-- `retire_presentation`. -/
def retire (s : Session ι α) : Session ι α :=
  { s with
    nonce := []
    provider := []
    presentationIdentity := none
    deadline := 0
    disabled := true
    lease := none
    task := none }

/-- A request waits elsewhere. -/
def move (s : Session ι α) (h : ℕ) (p : Phase) : Session ι α :=
  { s with requests := update s.requests h { s.requests h with phase := p } }

/-- A request ends and leaves the lock. -/
def reply (s : Session ι α) (h : ℕ) (a : Answer) : Session ι α :=
  { s.move h (.over a) with holder := if s.holder = some h then none else s.holder }

/-- The event is claimed before the POST. -/
def claim (s : Session ι α) (h : ℕ) (e : Event CodePoint) (requestId : PyStr) : Session ι α :=
  let s := { s with owner := e.owner_id, sequence := e.sequence }
  if (s.requests h).deadline ≤ s.now then s.retire.reply h .unavailable
  else { s.move h (.store e requestId s.conversationId) with
    attempts := s.attempts ++ [⟨e.owner_id, e.sequence, h, none⟩] }

/-- From the wait for the grant to the POST. -/
def publish (sha256 : Sha256) (s : Session ι α) (h : ℕ) (data : Value CodePoint) (requestId : PyStr) :
    Session ι α :=
  if s.disabled || s.nonce = [] || !isProvider s.provider || s.deadline ≤ s.now || !s.alive ||
      s.presentationIdentity ≠ some s.identity then
    if s.nonce ≠ [] then s.retire.reply h .unavailable else s.reply h .unavailable
  else
    match validateEvent sha256 data with
    | some e =>
      if e.sequence ≠ s.sequence + 1 ∨ s.owner ≠ [] ∧ e.owner_id ≠ s.owner then s.reply h .badRequest
      else s.claim h e requestId
    | none => s.reply h .badRequest

/-- A request has got the lock. -/
def enter (sha256 : Sha256) (s : Session ι α) (h : ℕ) (data : Value CodePoint) (requestId : PyStr) :
    Session ι α :=
  let s := { s with holder := some h }
  if s.disabled then s.reply h .unavailable
  else if !s.owned || !s.started || !s.alive then s.reply h .conflict
  else if s.task.isSome && s.nonce = [] then s.move h (.grant data)
  else s.publish sha256 h data requestId

/-- What is known of the attempts of a request. -/
def settle (s : Session ι α) (h : ℕ) (valid : Bool) : Session ι α :=
  { s with attempts := s.attempts.map fun a =>
      if a.request = h ∧ a.valid = none then { a with valid := some valid } else a }

/-! ## The attestation -/

/-- `presentation_owner_alive`. -/
def ownerAlive (s : Session ι α) (identity : ι) : Bool :=
  s.started && s.alive && !s.disabled && s.identity = identity

/-- The end of an attestation task. -/
def finish (s : Session ι α) (t : ℕ) (accepted : Bool) : Session ι α :=
  let s := { s with
    attests := update s.attests t .over
    lease := none
    task := if s.task = some t then none else s.task }
  if accepted then s else s.retire

/-- `queue_presentation_attestation`. -/
def queue (s : Session ι α) (identity : ι) : Session ι α :=
  if s.lease = none ∨ s.task ≠ none then s
  else if !s.ownerAlive identity then s.retire
  else { s with
    attests := update s.attests s.spawned (.queued identity)
    task := some s.spawned
    spawned := s.spawned + 1 }

/-- `run_presentation_attestation`, to the POST of the grant. -/
def attest (s : Session ι α) (t : ℕ) (identity : ι) : Session ι α :=
  match s.lease with
  | none => s.finish t false
  | some original =>
    if !s.ownerAlive identity || original ≤ s.now then s.finish t false
    else
      let waiting : Attest ι := .waiting identity s.now (min original (s.now + 2000))
      { s with attests := update s.attests t waiting }

/-- The answer to it: the provider of a valid receipt. -/
def attested (s : Session ι α) (t : ℕ) (identity : ι) (started deadline maxAge : ℕ) (provider : Option PyStr)
    (nonce : PyStr) : Session ι α :=
  match provider with
  | some provider =>
    if deadline ≤ s.now ∨ s.lease = none ∨ s.task ≠ some t ∨ !s.ownerAlive identity then s.finish t false
    else finish { s with
      provider := provider
      nonce := nonce
      presentationIdentity := some identity
      deadline := started + 1000 * maxAge } t true
  | none => s.finish t false

end Session

/-! ## What happens -/

/-- How the session goes on outside the lane. -/
inductive Life (ι α : Type) where
  | start
  | ending
  | ended
  | failed
  | stop
  | unlist
  | own (owned : Bool)
  | identify (identity : ι)
  | bind (conversationId : PyStr)
  | other (rest : α)

/-- How the awaited attestation task of a request ends. -/
inductive TaskEnd where
  | done
  | failed
  | cancelled

/-- The events of the lane, and those around it: time, the CREATE with its lease, and the session's life. -/
inductive LaneEvent (ι α : Type) where
  | request (h : ℕ)
  | body (h : ℕ) (data : Option (Value CodePoint))
  | acquire (h : ℕ) (requestId : PyStr)
  | granted (h : ℕ) (requestId : PyStr) (how : TaskEnd)
  | stored (h : ℕ) (status : ℕ) (decoded : Option (Value CodePoint))
  /-- A cancellation, or the end of the budget. -/
  | interrupt (h : ℕ) (timeout : Bool)
  | queue (identity : ι)
  | attest (t : ℕ)
  | attested (t : ℕ) (provider : Option PyStr) (nonce : PyStr)
  | attestCancelled (t : ℕ)
  | retire
  | tick (d : ℕ)
  | create (lease : Option ℕ)
  | life (l : Life ι α)

/-- Whether an event is one of the lane. -/
def LaneEvent.ofLane {ι α : Type} : LaneEvent ι α → Bool
  | .life _ => false
  | _ => true

namespace Session

variable {ι α : Type} [DecidableEq ι]

def live (s : Session ι α) : Life ι α → Session ι α
  | .start => { s with started := true }
  | .ending => { s with ending := true }
  | .ended => { s with ended := true }
  | .failed => { s with failed := true }
  | .stop => { s with stopping := true }
  | .unlist => { s with listed := false }
  | .own owned => { s with owned := owned }
  | .identify identity => { s with identity := identity }
  | .bind conversationId => { s with conversationId := conversationId }
  | .other rest => { s with rest := rest }

/-- A step of the session, where `maxAge` is `session_seconds`. -/
def step (sha256 : Sha256) (maxAge : ℕ) (s : Session ι α) : LaneEvent ι α → Session ι α
  | .request h =>
    match (s.requests h).phase with
    | .absent => { s with requests := update s.requests h ⟨s.now + 2000, .body⟩ }
    | _ => s
  | .body h data =>
    match (s.requests h).phase, data with
    | .body, some data => s.move h (.lock data)
    | .body, none => s.reply h .raised
    | _, _ => s
  | .acquire h requestId =>
    match (s.requests h).phase with
    | .lock data => if s.holder = none then s.enter sha256 h data requestId else s
    | _ => s
  | .granted h requestId how =>
    match (s.requests h).phase, how with
    | .grant data, .done => s.publish sha256 h data requestId
    | .grant data, .failed => s.retire.publish sha256 h data requestId
    | .grant _, .cancelled => s.retire.reply h .raised
    | _, _ => s
  | .stored h status decoded =>
    match (s.requests h).phase with
    | .store e requestId conversationId =>
      match corroborated status decoded e conversationId requestId with
      | some receipt => (s.settle h true).reply h (.stored receipt)
      | none => (s.settle h false).retire.reply h .unavailable
    | _ => s
  | .interrupt h timeout =>
    match (s.requests h).phase with
    | .absent => s
    | .over _ => s
    | _ => (s.settle h false).retire.reply h (if timeout then .unavailable else .raised)
  | .queue identity => s.queue identity
  | .attest t =>
    match s.attests t with
    | .queued identity => s.attest t identity
    | _ => s
  | .attested t provider nonce =>
    match s.attests t with
    | .waiting identity started deadline => s.attested t identity started deadline maxAge provider nonce
    | _ => s
  | .attestCancelled t =>
    match s.attests t with
    | .queued _ => { s with attests := update s.attests t .over }
    | .waiting _ _ _ => s.finish t false
    | _ => s
  | .retire => s.retire
  | .tick d => { s with now := s.now + d }
  | .create lease =>
    if s.created then s
    else
      match lease with
      | some deadline => { s with created := true, lease := some deadline }
      | none => { s with created := true, disabled := true }
  | .life l => s.live l

/-- A session before anything happened. -/
def init (identity : ι) (rest : α) : Session ι α where
  now := 0
  started := false
  ending := false
  ended := false
  failed := false
  stopping := false
  listed := true
  owned := false
  created := false
  identity := identity
  conversationId := []
  owner := []
  sequence := 0
  disabled := false
  lease := none
  task := none
  nonce := []
  provider := []
  presentationIdentity := none
  deadline := 0
  attests _ := .absent
  spawned := 0
  requests _ := ⟨0, .absent⟩
  holder := none
  attempts := []
  rest := rest

end Session

end StrixAlloy.PresentationHistory

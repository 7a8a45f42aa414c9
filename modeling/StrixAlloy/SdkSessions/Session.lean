import StrixAlloy.Lib.Json

/-!
# One voice session

A `_Session` with its peer, the handlers of `offer` and `candidate`, and the task `_finish_close`. What a
handler does between two awaits is one function. A handler is in here from the moment it holds the
session's lock; before that it reads its body and touches nothing, so that a handler that waits for the
lock is one that has not come yet.
-/

namespace StrixAlloy.SdkSessions

/-! ## The bodies of the requests -/

/-- `set(body) == keys`. -/
def hasKeys (body : List (String × Json)) (keys : List String) : Bool :=
  body.all (fun m => m.1 ∈ keys) && keys.all fun k => body.any fun m => m.1 = k

/-- The description of an offer, if the body is one. -/
def offerBody (body : List (String × Json)) : Option String :=
  match Json.get? body "type", Json.get? body "sdp" with
  | some (.str kind), some (.str sdp) =>
    if hasKeys body ["type", "sdp"] && kind = "offer" && "v=0\r\n".toList.isPrefixOf sdp.toList &&
        !sdp.toList.contains '\x00' && sdp.utf8ByteSize ≤ 128 * 1024 then some sdp
    else none
  | _, _ => none

/-- The fields of a candidate. -/
structure CandidateBody where
  candidate : String
  sdpMid : String
  sdpMLineIndex : ℤ

/-- The candidate of a body, if it is one. -/
def candidateBody (body : List (String × Json)) : Option CandidateBody :=
  match Json.get? body "candidate", Json.get? body "sdpMid", Json.get? body "sdpMLineIndex" with
  | some (.str value), some (.str mid), some (.int line) =>
    if hasKeys body ["candidate", "sdpMid", "sdpMLineIndex"] &&
        "candidate:".toList.isPrefixOf value.toList && value.length ≤ 4096 &&
        value.toList.all (fun c => 32 ≤ c.toNat && c.toNat ≤ 126) &&
        1 ≤ mid.length && mid.length ≤ 64 &&
        mid.toList.all (fun c => 33 ≤ c.toNat && c.toNat ≤ 126) &&
        0 ≤ line && line ≤ 255 then some ⟨value, mid, line⟩
    else none
  | _, _, _ => none

/-! ## The session -/

/-- The await at which the handler that holds the lock is: `setRemoteDescription`, `addIceCandidate` for a
candidate of the backlog, `createAnswer`, `setLocalDescription`, the observation of the answer, or
`addIceCandidate` in the handler of the candidate itself. -/
inductive Holding (C : Type) where
  | describing
  | flushing
  | answering
  | localizing
  | observing
  | adding (c : C)

/-- Where `_finish_close` is: not started, waiting for the operation that it cancelled, for the watchers,
for `call.close()`, for `close_complete`, or at its end. -/
inductive CloseStage where
  | created
  | operation
  | watchers
  | closing
  | waiting
  | ended

inductive Operation where
  | offer
  | candidate

/-- What the check of the local description gives: it passes, it fails, or the relay is not available. -/
inductive Checked where
  | passed
  | failed
  | relayUnavailable

/-- A session with its call. `close_complete` belongs to the call. The last four fields are history: the
offers given to `setRemoteDescription`, the candidates given to `addIceCandidate`, the candidates that
were answered with success, and the statuses of all answers. -/
structure Session (C : Type) where
  offered : Bool
  closing : Bool
  closed : Bool
  pending : List C
  candidate_count : ℕ
  holding : Option (Holding C)
  close_task : Option CloseStage
  close_complete : Bool
  described : List String
  added : List C
  accepted : List C
  answers : List (Operation × ℕ)

namespace Session

variable {C : Type}

def init : Session C where
  offered := false
  closing := false
  closed := false
  pending := []
  candidate_count := 0
  holding := none
  close_task := none
  close_complete := false
  described := []
  added := []
  accepted := []
  answers := []

/-- `_begin_close`. -/
def beginClose (s : Session C) : Session C :=
  if s.close_task.isNone then { s with closing := true, close_task := some .created } else s

def answer (s : Session C) (op : Operation) (status : ℕ) : Session C :=
  { s with answers := s.answers ++ [(op, status)] }

/-- The handler leaves the lock with an answer. -/
def leave (s : Session C) (op : Operation) (status : ℕ) : Session C :=
  { s.answer op status with holding := none }

/-- `offer`, from the lock to its first await. -/
def offer (s : Session C) (sdp : String) : Session C :=
  if s.closing then s.answer .offer 410
  else if s.offered then s.answer .offer 409
  else { s with holding := some .describing, described := s.described ++ [sdp] }

/-- The head of the loop over the backlog. -/
def flush (s : Session C) : Session C :=
  match s.pending with
  | c :: cs => { s with pending := cs, added := s.added ++ [c], holding := some .flushing }
  | [] => { s with holding := some .answering }

/-- `candidate`, from the lock to its answer or its await. -/
def candidate (s : Session C) (c : C) : Session C :=
  if s.closing then s.answer .candidate 410
  else if 128 ≤ s.candidate_count ∨ (!s.offered ∧ 32 ≤ s.pending.length) then s.answer .candidate 429
  else if !s.offered then
    { s with candidate_count := s.candidate_count + 1, pending := s.pending ++ [c]
             accepted := s.accepted ++ [c] }.answer .candidate 200
  else
    { s with candidate_count := s.candidate_count + 1, added := s.added ++ [c]
             holding := some (.adding c) }

/-- What the handler that holds the lock does when its await has returned. -/
def proceed (s : Session C) (checked : Checked) : Session C :=
  match s.holding with
  | none => s
  | some .describing => if s.closing then s.leave .offer 410 else s.flush
  | some .flushing => if s.closing then s.leave .offer 410 else s.flush
  | some .answering => if s.closing then s.leave .offer 410 else { s with holding := some .localizing }
  | some .localizing =>
    if s.closing then s.leave .offer 410
    else
      match checked with
      | .passed => { s with offered := true, holding := some .observing }
      | .failed => s.beginClose.leave .offer 400
      | .relayUnavailable => s.beginClose.leave .offer 503
  | some .observing => s.leave .offer 200
  | some (.adding c) =>
    if s.closing then s.leave .candidate 410
    else { s with accepted := s.accepted ++ [c] }.leave .candidate 200

/-- An exception or a timeout at the await of the handler that holds the lock. -/
def fail (s : Session C) : Session C :=
  match s.holding with
  | none => s
  | some (.adding _) => s.beginClose.leave .candidate 400
  | some _ => s.beginClose.leave .offer 400

/-- A cancellation at the await of the handler that holds the lock. -/
def cancelled (s : Session C) : Session C :=
  if s.holding.isNone then s else { s.beginClose with holding := none }

/-- The last block of `_finish_close`. -/
def finish (s : Session C) : Session C :=
  if s.close_complete then { s with close_task := some .ended, pending := [], closed := true }
  else { s with close_task := some .ended }

/-- `_finish_close` goes on when its await has returned. -/
def closeStep (s : Session C) : Session C :=
  match s.close_task with
  | some .created =>
    { s with close_task := some (if s.holding.isSome then .operation else .watchers) }
  | some .operation => if s.holding.isSome then s else { s with close_task := some .watchers }
  | some .watchers => { s with close_task := some .closing }
  | some .closing => { s with close_task := some .waiting }
  | some .waiting => if s.close_complete then s.finish else s
  | _ => s

/-- `call.close()` raises. -/
def closeFail (s : Session C) : Session C :=
  match s.close_task with
  | some .closing => s.finish
  | _ => s

end Session

end StrixAlloy.SdkSessions

import StrixAlloy.Pld.Wire
import Mathlib.Data.List.DropRight

/-!
# Proposer transactions

`TransactionCoordinator`: a committed window, one pending proposal, and an engine that consumes raw ids. The engine is
the function `raw` from the ids consumed since its context was cleared to the logits it returns, and `context` are the
ids it has consumed. An argument of another type than the expected one is `none`.
-/

namespace StrixAlloy.Pld.Transaction

open Checked

def SHARED_ID_COUNT : ℕ := 248070

def MAX_HEAD_ROWS : ℕ := 248320

/-- `math.isfinite` and `>` of the logits. -/
structure Floats (V : Type) where
  isfinite : V → Bool
  gt : V → V → Bool

structure CommittedState (V : Type) where
  binding : ProposalBinding
  ids : List ℤ
  logits : List V

structure PendingProposal (V : Type) where
  binding : ProposalBinding
  ids : List ℤ
  packet : Bytes
  logits : List V

structure AuthoritativeOutcome where
  binding : ProposalBinding
  accepted_ids : List ℤ
  correction_or_bonus : Option ℤ

/-- The accepted ids and what follows them. -/
def AuthoritativeOutcome.outputs (o : AuthoritativeOutcome) : List ℤ := o.accepted_ids ++ o.correction_or_bonus.toList

structure TransactionCoordinator (V : Type) where
  enabled : Bool := false
  append_when_authoritative : Bool := false
  model_binding : Bytes
  tokenizer_binding : Bytes
  key_id : Bytes
  integrity_key : Bytes
  state : Option (CommittedState V) := none
  pending : Option (PendingProposal V) := none
  nonces : List Bytes := []
  rounds : List Bytes := []
  context : List ℤ := []

/-- A new coordinator. -/
def create {V : Type} (enabled append_when_authoritative : Bool)
    (model_binding tokenizer_binding key_id integrity_key : Bytes) : Except String (TransactionCoordinator V) := do
  require ([(model_binding, 32), (tokenizer_binding, 32), (key_id, 16), (integrity_key, 32)].all fun field =>
    field.1.length = field.2 && nonzero field.1) "exact nonzero immutable binding/key bytes required"
  pure
    { enabled := enabled, append_when_authoritative := append_when_authoritative, model_binding := model_binding,
      tokenizer_binding := tokenizer_binding, key_id := key_id, integrity_key := integrity_key }

/-- What a call returns. -/
inductive Result (V : Type)
  | answer (done : Bool)
  | proposal (p : Option (PendingProposal V))

section Engine

variable {V : Type} (F : Floats V) (raw : List ℤ → List V)

/-- `_owned_logits`. -/
def ownedLogits (logits : List V) : Except String (List V) := do
  require (SHARED_ID_COUNT ≤ logits.length ∧ logits.length ≤ MAX_HEAD_ROWS)
    "raw logits do not cover the bounded shared vocabulary"
  require ((logits.take SHARED_ID_COUNT).all F.isfinite) "nonfinite raw logits"
  pure (logits.take SHARED_ID_COUNT)

/-- One logit is larger than another. -/
def larger (logits : List V) (i j : ℕ) : Bool :=
  match logits[i]?, logits[j]? with
  | some x, some y => F.gt x y
  | _, _ => false

/-- `max(range(SHARED_ID_COUNT), key=logits.__getitem__)`: the first of the largest. -/
def bestToken (logits : List V) : ℕ :=
  (List.range SHARED_ID_COUNT).foldl (fun best i => if larger F logits i best then i else best) 0

/-- The loop of `propose`: the drafts with the logits before the last, or the first refusal, and the context. -/
def draft : ℕ → List V → List ℤ → List ℤ × Except String (List ℤ × List V)
  | 0, logits, context => (context, .ok ([], logits))
  | 1, logits, context => (context, .ok ([(bestToken F logits : ℤ)], logits))
  | n + 2, logits, context =>
    let token : ℤ := bestToken F logits
    match ownedLogits F (raw (context ++ [token])) with
    | .error e => (context ++ [token], .error e)
    | .ok logits =>
      let r := draft (n + 1) logits (context ++ [token])
      (r.1, r.2.map fun d => (token :: d.1, d.2))

/-- The loop of `apply`. -/
def feed : List ℤ → List V → List ℤ → List ℤ × Except String (List V)
  | [], logits, context => (context, .ok logits)
  | token :: tokens, _, context =>
    match ownedLogits F (raw (context ++ [token])) with
    | .error e => (context ++ [token], .error e)
    | .ok logits => feed tokens logits (context ++ [token])

end Engine

namespace TransactionCoordinator

variable {V : Type} (F : Floats V) (raw : List ℤ → List V) (h : Hmac) (c : TransactionCoordinator V)

/-- `_binding`. -/
def trusted : Option ProposalBinding → Except String ProposalBinding
  | none => .error "untrusted proposal binding"
  | some b =>
    if b.model_binding = c.model_binding ∧ b.tokenizer_binding = c.tokenizer_binding then .ok b
    else .error "untrusted proposal binding"

/-- `_window`, after the binding. -/
def window (b : ProposalBinding) : Option (List ℤ) → Except String (List ℤ)
  | none => .error "committed window differs from its binding/current ID"
  | some ids => do
    require (1 ≤ ids.length ∧ ids.length ≤ MAX_WINDOW_TOKENS ∧
      (ids.length : ℤ) = b.committed_prefix_length - b.window_origin ∧ ids.getLast? = some b.current_token)
      "committed window differs from its binding/current ID"
    require (∀ token ∈ ids, 0 ≤ token ∧ token < SHARED_ID_COUNT) "unsupported raw token ID"
    pure ids

/-- `_retire`. -/
def retire : TransactionCoordinator V := { c with state := none, pending := none }

/-- `_rebuild`. -/
def rebuild (b : ProposalBinding) (ids : List ℤ) : TransactionCoordinator V × Except String (Result V) :=
  match ownedLogits F (raw ids) with
  | .error e => ({ c.retire with context := ids }, .error e)
  | .ok logits => ({ c.retire with context := ids, state := some ⟨b, ids, logits⟩ }, .ok (.answer true))

def reset (binding : Option ProposalBinding) (committed_ids : Option (List ℤ)) :
    TransactionCoordinator V × Except String (Result V) :=
  if !c.enabled then (c, .ok (.answer false))
  else
    match c.trusted binding with
    | .error e => (c.retire, .error e)
    | .ok b =>
      if b.request_nonce ∈ c.nonces ∨ MAX_SUCCESSFUL_ROUNDS ≤ c.nonces.length then
        (c.retire, .error "fresh request nonce / finite request budget required")
      else
        let c := { c.retire with nonces := b.request_nonce :: c.nonces, rounds := [] }
        match window b committed_ids with
        | .error e => (c, .error e)
        | .ok ids => c.rebuild F raw b ids

def invalidate : TransactionCoordinator V × Except String (Result V) := (c.retire, .ok (.answer false))

/-- The checks of `propose`. -/
def proposable (st : CommittedState V) (binding : Option ProposalBinding) (max_drafts : Option ℤ) :
    Except String (ProposalBinding × ℕ) := do
  let b ← c.trusted binding
  require (c.pending.isNone ∧ { b with round_id := st.binding.round_id } = st.binding)
    "pending round or stale committed binding"
  let drafts ← orThrow (max_drafts.filter fun n : ℤ => 1 ≤ n ∧ n ≤ MAX_IDS) "one to three draft IDs required"
  require (b.round_id ∉ c.rounds ∧ c.rounds.length < MAX_SUCCESSFUL_ROUNDS)
    "round replay / finite round budget exhausted"
  pure (b, drafts.toNat)

/-- `propose`, after its checks. -/
def predict (st : CommittedState V) (b : ProposalBinding) (drafts : ℕ) :
    TransactionCoordinator V × Except String (Result V) :=
  let r := draft F raw drafts st.logits c.context
  let c := { c with rounds := b.round_id :: c.rounds, context := r.1 }
  match r.2 with
  | .error e => (c.retire, .error e)
  | .ok d =>
    match encodeProposal h b d.1 c.key_id c.integrity_key with
    | .error e => (c.retire, .error e)
    | .ok packet =>
      ({ c with pending := some ⟨b, d.1, packet, d.2⟩ }, .ok (.proposal (some ⟨b, d.1, packet, d.2⟩)))

def propose (binding : Option ProposalBinding) (max_drafts : Option ℤ) :
    TransactionCoordinator V × Except String (Result V) :=
  match c.state with
  | none => (c, .ok (.proposal none))
  | some st =>
    if !c.enabled then (c, .ok (.proposal none))
    else
      match c.proposable st binding max_drafts with
      | .error e => (c, .error e)
      | .ok (b, drafts) => c.predict F raw h st b drafts

/-- The next binding is that of the window after the outputs. -/
def advances (st : CommittedState V) (next : ProposalBinding) (outputs ids : List ℤ) : Bool :=
  let previous := st.binding
  let length := previous.committed_prefix_length + outputs.length
  next.request_nonce = previous.request_nonce && next.round_id ∉ c.rounds && next.committed_prefix_length = length &&
    next.window_origin = length - ids.length && next.target_position = previous.target_position + outputs.length &&
    ids.getLast? = some next.current_token &&
    (outputs ≠ [] || next.committed_prefix_fingerprint = previous.committed_prefix_fingerprint)

/-- What the checks of `apply` come to. -/
inductive Judgement (V : Type)
  | refuse (error : String)
  | decline
  | unsupported
  | advance (p : PendingProposal V) (outcome : AuthoritativeOutcome) (next : ProposalBinding) (ids : List ℤ)

/-- The checks of `apply`. The authority is absent, raises or answers. -/
def judge (st : CommittedState V) (outcome : Option AuthoritativeOutcome) (next_binding : Option ProposalBinding)
    (authority : Option (Option Bool)) : Judgement V :=
  match outcome, c.pending with
  | some outcome, some p =>
    if outcome.binding ≠ p.binding then .refuse "no matching pending authoritative outcome"
    else
      match c.trusted next_binding with
      | .error e => .refuse e
      | .ok next =>
        if outcome.accepted_ids ≠ p.ids.take outcome.accepted_ids.length then
          .refuse "accepted IDs differ from the proposed prefix"
        else if authority ≠ some (some true) then .decline
        else if outcome.outputs.any fun token => SHARED_ID_COUNT ≤ token then .unsupported
        else
          let ids := (st.ids ++ outcome.outputs).rtake MAX_WINDOW_TOKENS
          if !c.advances st next outcome.outputs ids then
            .refuse "next binding differs from authoritative advancement"
          else
            match window next (some ids) with
            | .error e => .refuse e
            | .ok ids => .advance p outcome next ids
  | _, _ => .refuse "no matching pending authoritative outcome"

/-- Every draft that was fed is accepted, and the window keeps its origin. -/
def appends (st : CommittedState V) (p : PendingProposal V) (outcome : AuthoritativeOutcome) (next : ProposalBinding) :
    Bool :=
  c.append_when_authoritative && p.ids.length - 1 ≤ outcome.accepted_ids.length &&
    next.window_origin = st.binding.window_origin

/-- `apply`, after its checks. -/
def synchronize (st : CommittedState V) (p : PendingProposal V) (outcome : AuthoritativeOutcome)
    (next : ProposalBinding) (ids : List ℤ) : TransactionCoordinator V × Except String (Result V) :=
  if c.appends st p outcome next then
    let r := feed F raw (outcome.outputs.drop (p.ids.length - 1)) p.logits c.context
    match r.2 with
    | .error e => ({ c.retire with context := r.1 }, .error e)
    | .ok logits => ({ c.retire with context := r.1, state := some ⟨next, ids, logits⟩ }, .ok (.answer true))
  else c.rebuild F raw next ids

def apply (outcome : Option AuthoritativeOutcome) (next_binding : Option ProposalBinding)
    (authority : Option (Option Bool)) : TransactionCoordinator V × Except String (Result V) :=
  match c.state with
  | none => (c, .ok (.answer false))
  | some st =>
    if !c.enabled then (c, .ok (.answer false))
    else
      match c.judge st outcome next_binding authority with
      | .refuse e => (c, .error e)
      | .decline => (c, .ok (.answer false))
      | .unsupported => (c.retire, .ok (.answer false))
      | .advance p outcome next ids => c.synchronize F raw st p outcome next ids

end TransactionCoordinator

/-- A call. -/
inductive Call
  | reset (binding : Option ProposalBinding) (committed_ids : Option (List ℤ))
  | propose (binding : Option ProposalBinding) (max_drafts : Option ℤ)
  | apply (outcome : Option AuthoritativeOutcome) (next_binding : Option ProposalBinding)
      (authority : Option (Option Bool))
  | invalidate

variable {V : Type} (F : Floats V) (raw : List ℤ → List V) (h : Hmac)

def TransactionCoordinator.call (c : TransactionCoordinator V) :
    Call → TransactionCoordinator V × Except String (Result V)
  | .reset binding committed_ids => c.reset F raw binding committed_ids
  | .propose binding max_drafts => c.propose F raw h binding max_drafts
  | .apply outcome next_binding authority => c.apply F raw outcome next_binding authority
  | .invalidate => c.invalidate

/-- The state after a call. -/
def TransactionCoordinator.step (c : TransactionCoordinator V) (call : Call) : TransactionCoordinator V :=
  (c.call F raw h call).1

/-- What the calls of a run return, without the texts of their errors. -/
def answers : TransactionCoordinator V → List Call → List (Option (Result V))
  | _, [] => []
  | c, call :: calls => (c.call F raw h call).2.toOption :: answers (c.step F raw h call) calls

end StrixAlloy.Pld.Transaction

import StrixAlloy.Pld.Seam

/-!
# The outcome handoff

`NativeOutcomeHandoff`: a frontier is sealed, adopted for a round, looked at from the seam at most once, previewed and
sealed again. The arrays of identities are functions, of which `reservation_used` entries are in use. The state carries
beside the fields the seed reservation and the events that were popped.
-/

namespace StrixAlloy.Pld

open Packing Function

def kMaxOutputs : ℕ := 4

def kEventBudget : ℕ := 64

/-- `std::numeric_limits<std::uint64_t>::max()`. -/
def maxWord : ℕ := 2 ^ 64 - 1

structure OwnerIdentity where
  seed_id : Bytes := []
  birth_nonce : Bytes := []
  key_id : Bytes := []
  model : Bytes := []
  tokenizer : Bytes := []
  native_epoch : ℕ := 0
  owner_generation : ℕ := 0
  model_slot_generation : ℕ := 0
deriving DecidableEq

structure Frontier where
  owner : OwnerIdentity := {}
  frontier_id : Bytes := []
  window_id : Bytes := []
  prefix_length : ℕ := 0
  target_position : ℕ := 0
  current_id : ℤ := 0
  window_origin : ℕ := 0
  window_count : ℕ := 0
  window_ids : List ℤ := []
  full_prefix_fingerprint : Bytes := []
deriving DecidableEq

structure RoundReservation where
  frontier : Frontier := {}
  round_id : Bytes := []
  generation : ℕ := 0
deriving DecidableEq

structure Qualification where
  native_capture : Bool := false
  reset_excluded : Bool := false
  serial_owner : Bool := false
  lifetime_held : Bool := false
  token_definitions : Bool := false
  exact_full_prefix_verified : Bool := false

structure SeedCopy where
  canonical : Frontier
  first_round_id : Bytes
  tokens : TokenDefinitions
  qualification : Qualification

/-- `ExternalUse`, with the values that its type has beside the named ones. -/
inductive ExternalUse
  | none | openingRejected | verified | other
deriving DecidableEq

inductive Route
  | outerPld | nestedController | scalar
deriving DecidableEq

structure OutcomeCopy where
  source : RoundReservation := {}
  outcome_sequence : ℕ := 0
  next_round_id : Bytes := []
  target_position_after : ℕ := 0
  count : ℕ := 0
  native_matched_count : ℕ := 0
  output_ids : List ℤ := []
  external_use : ExternalUse := .none
  qualification : Qualification := {}

inductive SealDisposition
  | continue | retire
deriving DecidableEq

structure SealCopy where
  source : RoundReservation
  outcome_sequence : ℕ
  actual_next : Frontier
  emitted_count : ℕ
  disposition : SealDisposition
  qualification : Qualification

structure RecordedExternalProposal where
  selected : Bool := false
  count : ℕ := 0
  ids : List ℤ := []

structure AuthoritativeOutcome where
  source : RoundReservation
  next : RoundReservation
  route : Route
  outcome_sequence : ℕ
  count : ℕ
  native_matched_count : ℕ
  output_ids : List ℤ
  external_use : ExternalUse
  external : RecordedExternalProposal

structure PreviewEvent where
  source : RoundReservation := {}
  next_round_id : Bytes := []
  reserved_generation : ℕ := 0
  route : Route := .outerPld
  outcome_sequence : ℕ := 0
  target_position_after : ℕ := 0
  count : ℕ := 0
  native_matched_count : ℕ := 0
  output_ids : List ℤ := []
  external_use : ExternalUse := .none
  external : RecordedExternalProposal := {}

structure RetirementNotice where
  last_sealed : RoundReservation := {}
  provisional_revoked : Bool := false
  revoked_outcome_sequence : ℕ := 0
  revoked_next_round_id : Bytes := []
  revoked_generation : ℕ := 0

structure PreparedPacket where
  reservation : RoundReservation
  authenticated : TrustedAuthenticatedFrame

structure SeamCapture where
  actual_current : Frontier
  qualification : Qualification
  request_rbp : ℕ
  original_outer_rsp : ℕ
  positive_pld_policy : Bool
  no_sampler : Bool
  no_suppression : Bool
  positive_width : Bool
  sufficient_context : Bool
  no_constraints : Bool
  opening_gate_eligible : Bool
  native_allowance : ℤ

inductive Status
  | disabled | sealed | active | preview | retired
deriving DecidableEq

structure NativeOutcomeHandoff where
  status : Status := .disabled
  initialized : Bool := false
  seam_seen : Bool := false
  current : RoundReservation := {}
  tokens : TokenDefinitions := {}
  pending : OutcomeCopy := {}
  pending_route : Route := .outerPld
  external : RecordedExternalProposal := {}
  preview_event : PreviewEvent := {}
  preview_unread : Bool := false
  retirement : RetirementNotice := {}
  retirement_unread : Bool := false
  next_sequence : ℕ := 1
  reserved_ids : ℕ → Bytes := fun _ => []
  reservation_used : ℕ := 0
  frontier_ids : ℕ → Bytes := fun _ => []
  window_ids : ℕ → Bytes := fun _ => []
  /-- The first `event_used` events. -/
  events : List AuthoritativeOutcome := []
  event_read : ℕ := 0
  ledger : OneShotLedger := {}
  seed : RoundReservation := {}
  popped : List AuthoritativeOutcome := []

/-! ## Checks -/

def Qualification.qualified (q : Qualification) : Bool :=
  q.native_capture && q.reset_excluded && q.serial_owner && q.lifetime_held && q.token_definitions &&
    q.exact_full_prefix_verified

/-- `defined` of the handoff. -/
def TokenDefinitions.has (tokens : TokenDefinitions) (id : ℤ) : Bool :=
  if id < 0 || tokens.id_limit = 0 || kMaxTokenIds < tokens.id_limit || tokens.id_limit ≤ id.toNat then false
  else (tokens.defined_bits (id.toNat / 8)).toNat.testBit (id.toNat % 8)

def OwnerIdentity.valid (o : OwnerIdentity) : Bool :=
  nonzero o.seed_id && nonzero o.birth_nonce && nonzero o.key_id && nonzero o.model && nonzero o.tokenizer &&
    o.native_epoch ≠ 0 && o.owner_generation ≠ 0 && o.model_slot_generation ≠ 0

/-- The ids of a window. -/
def Frontier.window (f : Frontier) : List ℤ := (List.range f.window_count).map fun i => f.window_ids.getD i 0

def Frontier.valid (f : Frontier) (tokens : TokenDefinitions) : Bool :=
  f.owner.valid && nonzero f.frontier_id && nonzero f.window_id && nonzero f.full_prefix_fingerprint &&
    f.prefix_length ≠ 0 && f.target_position ≠ 0 && f.window_count ≠ 0 && f.window_count ≤ kMaxWindowTokens &&
    f.window_origin < f.prefix_length && f.prefix_length - f.window_origin = f.window_count &&
    tokens.has f.current_id && f.window_ids.getD (f.window_count - 1) 0 = f.current_id &&
    f.window.all tokens.has &&
    (List.range (kMaxWindowTokens - f.window_count)).all fun i => f.window_ids.getD (f.window_count + i) 0 = 0

/-- `binding`. -/
def RoundReservation.binding (r : RoundReservation) : SeamBinding where
  key_id := r.frontier.owner.key_id
  model := r.frontier.owner.model
  tokenizer := r.frontier.owner.tokenizer
  birth_nonce := r.frontier.owner.birth_nonce
  round_id := r.round_id
  prefix_fingerprint := r.frontier.full_prefix_fingerprint
  prefix_length := r.frontier.prefix_length
  target_position := r.frontier.target_position
  current_id := r.frontier.current_id
  window_origin := r.frontier.window_origin

namespace NativeOutcomeHandoff

variable (s : NativeOutcomeHandoff)

/-! ## Calls -/

def retire : NativeOutcomeHandoff :=
  if s.status = .retired then s
  else
    { s with
      retirement := ⟨s.current, s.status = .preview, s.pending.outcome_sequence, s.pending.next_round_id,
        if s.status = .preview then (s.current.generation + 1) % 2 ^ 64 else s.current.generation⟩
      retirement_unread := true, status := .retired, seam_seen := true, preview_unread := false, pending := {},
      external := {} }

def initialize_ (enabled : Bool) (seed : SeedCopy) : NativeOutcomeHandoff × Bool :=
  if !enabled then (s, false)
  else if s.initialized || s.status = .retired then (s.retire, false)
  else
    let s := { s with initialized := true }
    if !seed.qualification.qualified || !seed.canonical.valid seed.tokens || !nonzero seed.first_round_id then
      (s.retire, false)
    else
      ({ s with
          current := ⟨seed.canonical, seed.first_round_id, 1⟩, tokens := seed.tokens,
          reserved_ids := update s.reserved_ids 0 seed.first_round_id,
          frontier_ids := update s.frontier_ids 0 seed.canonical.frontier_id,
          window_ids := update s.window_ids 0 seed.canonical.window_id, reservation_used := 1,
          status := .sealed, seed := ⟨seed.canonical, seed.first_round_id, 1⟩ }, true)

/-- No event, or no reservation, is left. -/
def exhausted : Bool := kEventBudget ≤ s.events.length || kMaxRounds + 1 ≤ s.reservation_used

def adoptRound (actual : Frontier) (q : Qualification) : NativeOutcomeHandoff × Bool :=
  if s.status ≠ .sealed || !q.qualified || actual ≠ s.current.frontier || s.exhausted || s.preview_unread then
    (s.retire, false)
  else ({ s with seam_seen := false, external := {}, status := .active }, true)

/-- The use of an external proposal that a route allows. -/
def allowsUse (route : Route) : ExternalUse → Bool
  | .none => true
  | .openingRejected => s.external.selected && route ≠ .outerPld
  | .verified => s.external.selected && route = .outerPld
  | .other => false

/-- The first outputs of the copy are those of the external proposal. -/
def matchesExternal (copy : OutcomeCopy) : Bool :=
  copy.native_matched_count ≤ s.external.count && (List.range copy.native_matched_count).all fun i =>
    copy.output_ids.getD i 0 = s.external.ids.getD i 0

def previewable (copy : OutcomeCopy) (route : Route) : Bool :=
  s.status = .active && !s.preview_unread && copy.source = s.current && copy.qualification.qualified &&
    copy.outcome_sequence = s.next_sequence && copy.count ≠ 0 && copy.count ≤ kMaxOutputs &&
    copy.native_matched_count = copy.count - 1 && nonzero copy.next_round_id && !s.exhausted &&
    s.current.frontier.prefix_length ≤ maxWord - copy.count &&
    s.current.frontier.target_position ≤ maxWord - copy.count &&
    copy.target_position_after = s.current.frontier.target_position + copy.count &&
    (route ≠ .scalar || copy.count = 1 && copy.native_matched_count = 0) && s.allowsUse route copy.external_use &&
    (List.range s.reservation_used).all (fun i => copy.next_round_id ≠ s.reserved_ids i) &&
    (List.range copy.count).all (fun i => s.tokens.has (copy.output_ids.getD i 0)) &&
    (copy.external_use ≠ .verified || s.matchesExternal copy)

/-- `preview_impl`. -/
def preview (copy : OutcomeCopy) (route : Route) : NativeOutcomeHandoff × Bool :=
  if !s.previewable copy route then (s.retire, false)
  else
    ({ s with
        pending := copy, pending_route := route,
        preview_event := ⟨s.current, copy.next_round_id, (s.current.generation + 1) % 2 ^ 64, route,
          copy.outcome_sequence, copy.target_position_after, copy.count, copy.native_matched_count, copy.output_ids,
          copy.external_use, s.external⟩,
        preview_unread := true,
        reserved_ids := update s.reserved_ids s.reservation_used copy.next_round_id,
        reservation_used := s.reservation_used + 1, status := .preview }, true)

/-- The ids that the window of the next frontier must have. -/
def expected (count : ℕ) : List ℤ :=
  let combined := s.current.frontier.window_count + s.pending.count
  (List.range count).map fun i =>
    let index := i + (combined - count)
    if index < s.current.frontier.window_count then s.current.frontier.window_ids.getD index 0
    else s.pending.output_ids.getD (index - s.current.frontier.window_count) 0

def sealable (copy : SealCopy) : Bool :=
  let next := copy.actual_next
  let count := min (s.current.frontier.window_count + s.pending.count) kMaxWindowTokens
  s.status = .preview && copy.disposition = .continue && copy.qualification.qualified && copy.source = s.current &&
    copy.outcome_sequence = s.pending.outcome_sequence && copy.emitted_count = s.pending.count &&
    next.valid s.tokens && next.owner = s.current.frontier.owner &&
    next.prefix_length = (s.current.frontier.prefix_length + s.pending.count) % 2 ^ 64 &&
    next.target_position = s.pending.target_position_after &&
    next.current_id = s.pending.output_ids.getD (s.pending.count - 1) 0 &&
    (List.range (s.reservation_used - 1)).all
      (fun i => next.frontier_id ≠ s.frontier_ids i && next.window_id ≠ s.window_ids i) &&
    next.window_count = count && next.window_origin = next.prefix_length - count && next.window = s.expected count

/-- `seal`. -/
def sealOutcome (copy : SealCopy) : NativeOutcomeHandoff × Bool :=
  if !s.sealable copy then (s.retire, false)
  else
    let next : RoundReservation := ⟨copy.actual_next, s.pending.next_round_id, (s.current.generation + 1) % 2 ^ 64⟩
    ({ s with
        events := s.events ++ [⟨s.current, next, s.pending_route, s.pending.outcome_sequence, s.pending.count,
          s.pending.native_matched_count, s.pending.output_ids, s.pending.external_use, s.external⟩],
        frontier_ids := update s.frontier_ids (s.reservation_used - 1) copy.actual_next.frontier_id,
        window_ids := update s.window_ids (s.reservation_used - 1) copy.actual_next.window_id,
        current := next, next_sequence := (s.next_sequence + 1) % 2 ^ 64, seam_seen := false, external := {},
        pending := {}, status := .sealed }, true)

def popAuthoritative : NativeOutcomeHandoff × Option AuthoritativeOutcome :=
  match s.events[s.event_read]? with
  | none => (s, none)
  | some out => ({ s with event_read := s.event_read + 1, popped := s.popped ++ [out] }, some out)

def popPreview : NativeOutcomeHandoff × Option PreviewEvent :=
  if !s.preview_unread then (s, none) else ({ s with preview_unread := false }, some s.preview_event)

def popRetirement : NativeOutcomeHandoff × Option RetirementNotice :=
  if !s.retirement_unread then (s, none) else ({ s with retirement_unread := false }, some s.retirement)

/-! ## The seam -/

/-- The capture is of the frontier that is sealed. -/
def captured (capture : SeamCapture) (frame : SavedFrame) : Bool :=
  !s.exhausted && !s.preview_unread && capture.qualification.qualified &&
    capture.actual_current = s.current.frontier && capture.request_rbp ≠ 0 && capture.original_outer_rsp ≠ 0 &&
    capture.request_rbp = frame.gpr .rbp && capture.original_outer_rsp = frame.gpr .rsp

/-- What a sealed frontier says of an eligible capture. -/
def seamTruth (capture : SeamCapture) : CallerTruth where
  enabled := s.initialized
  ownership_qualified := true
  birth_reset_qualified := true
  context_current := true
  positive_pld_policy := capture.positive_pld_policy
  no_sampler := capture.no_sampler
  no_suppression := capture.no_suppression
  positive_width := capture.positive_width
  sufficient_context := capture.sufficient_context
  no_constraints := capture.no_constraints
  native_allowance := capture.native_allowance
  context_epoch := s.current.frontier.owner.native_epoch
  request_rbp := capture.request_rbp
  original_outer_rsp := capture.original_outer_rsp
  binding := s.current.binding
  tokens := s.tokens

/-- The state, the truth and the publication that `consume` gets. -/
def atSeam (capture : SeamCapture) (packet : Option PreparedPacket) (frame : SavedFrame) :
    NativeOutcomeHandoff × CallerTruth × Option TrustedAuthenticatedFrame :=
  if s.status ≠ .active || s.seam_seen then (s, { enabled := s.initialized }, none)
  else
    let t := { s with seam_seen := true }
    if !s.captured capture frame then (t.retire, { enabled := s.initialized }, none)
    else if !capture.opening_gate_eligible then (t, { enabled := s.initialized }, none)
    else
      (t, s.seamTruth capture,
        (packet.filter fun packet => packet.reservation = s.current).map PreparedPacket.authenticated)

def consumeAtSeam (capture : SeamCapture) (packet : Option PreparedPacket) (frame : SavedFrame) :
    NativeOutcomeHandoff × Decision × SavedFrame :=
  let r := s.atSeam capture packet frame
  let result := consume r.2.1 r.2.2 r.1.ledger frame
  let t := { r.1 with ledger := result.ledger }
  match r.2.2 with
  | none => (t, result.decision, result.frame)
  | some publication =>
    if !result.decision.selected then (t, result.decision, result.frame)
    else
      ({ t with
          external := ⟨true, result.decision.count,
            (idsOf publication.bytes result.decision.count).map (signed 4)⟩ }, result.decision, result.frame)

end NativeOutcomeHandoff

/-- A call. -/
inductive HandoffOp
  | initialize_ (enabled : Bool) (seed : SeedCopy)
  | adoptRound (actual : Frontier) (q : Qualification)
  | consumeAtSeam (capture : SeamCapture) (packet : Option PreparedPacket) (frame : SavedFrame)
  | preview (copy : OutcomeCopy) (route : Route)
  | sealOutcome (copy : SealCopy)
  | retire
  | popAuthoritative
  | popPreview
  | popRetirement

namespace NativeOutcomeHandoff

def step (s : NativeOutcomeHandoff) : HandoffOp → NativeOutcomeHandoff
  | .initialize_ enabled seed => (s.initialize_ enabled seed).1
  | .adoptRound actual q => (s.adoptRound actual q).1
  | .consumeAtSeam capture packet frame => (s.consumeAtSeam capture packet frame).1
  | .preview copy route => (s.preview copy route).1
  | .sealOutcome copy => (s.sealOutcome copy).1
  | .retire => s.retire
  | .popAuthoritative => s.popAuthoritative.1
  | .popPreview => s.popPreview.1
  | .popRetirement => s.popRetirement.1

end NativeOutcomeHandoff

end StrixAlloy.Pld

import StrixAlloy.Lib.Runs
import StrixAlloy.Pld.Wire
import Mathlib.Data.List.GetD
import Mathlib.Data.List.Nodup

/-!
# The seam

`consume` at the no-hit seam: a packet that an upstream authenticated is read at its offsets, checked against what the
caller knows, and written to the saved frame. The rounds of the ledger are the used part of its array.
-/

namespace StrixAlloy.Pld

open Packing Runs List

def kHeaderBytes : ℕ := 192

def kDigestBytes : ℕ := 32

def kMaxIds : ℕ := 3

def kMaxPacketBytes : ℕ := 236

def kMaxRounds : ℕ := 64

def kMaxWindowTokens : ℕ := 512

def kMaxTokenIds : ℕ := 248070

def kProposalOffset : ℕ := 0x360

def kStockResumeRva : ℕ := 0x172d3c4

def kProposalJoinRva : ℕ := 0x172e95f

inductive Register
  | rax | rbx | rcx | rdx | rsi | rdi | rbp | rsp | r8 | r9 | r10 | r11 | r12 | r13 | r14 | r15
deriving DecidableEq

structure SavedFrame where
  gpr : Register → ℕ := fun _ => 0
  rflags : ℕ := 0
  outer_stack : ℕ → UInt8 := fun _ => 0
  opaque_extended_state : ℕ → UInt8 := fun _ => 0

/-- `Binding` of the seam. -/
structure SeamBinding where
  key_id : Bytes := []
  model : Bytes := []
  tokenizer : Bytes := []
  birth_nonce : Bytes := []
  round_id : Bytes := []
  prefix_fingerprint : Bytes := []
  prefix_length : ℕ := 0
  target_position : ℕ := 0
  current_id : ℤ := 0
  window_origin : ℕ := 0

structure TokenDefinitions where
  id_limit : ℕ := 0
  defined_bits : ℕ → UInt8 := fun _ => 0

structure CallerTruth where
  enabled : Bool := false
  ownership_qualified : Bool := false
  birth_reset_qualified : Bool := false
  context_current : Bool := false
  positive_pld_policy : Bool := false
  no_sampler : Bool := false
  no_suppression : Bool := false
  positive_width : Bool := false
  sufficient_context : Bool := false
  no_constraints : Bool := false
  native_allowance : ℤ := 0
  context_epoch : ℕ := 0
  request_rbp : ℕ := 0
  original_outer_rsp : ℕ := 0
  binding : SeamBinding := {}
  tokens : TokenDefinitions := {}

structure TrustedAuthenticatedFrame where
  bytes : Bytes := []
  length : ℕ := 0
  context_epoch : ℕ := 0
  ready : Bool := false
  authentication_qualified : Bool := false
  immutable_owned : Bool := false

structure UsedRound where
  birth_nonce : Bytes
  context_epoch : ℕ
  round_id : Bytes
deriving DecidableEq

structure OneShotLedger where
  rounds : List UsedRound := []

inductive Reason
  | selected | disabled | absent | callerTruthUnavailable | nativeGateDeclined | publicationUnqualified | staleEpoch
  | malformedPacket | bindingMismatch | undefinedToken | countExceedsAllowance | roundUsed | ledgerExhausted

structure Decision where
  resume_rva : ℕ
  reason : Reason
  count : ℕ
  selected : Bool

def SeamBinding.valid (b : SeamBinding) : Bool :=
  nonzero b.key_id && nonzero b.model && nonzero b.tokenizer && nonzero b.birth_nonce && nonzero b.round_id &&
    nonzero b.prefix_fingerprint && 0 < b.prefix_length && 0 < b.target_position && 0 ≤ b.current_id &&
    b.window_origin < b.prefix_length && b.prefix_length - b.window_origin ≤ kMaxWindowTokens

def TokenDefinitions.defined (tokens : TokenDefinitions) (id : ℕ) : Bool :=
  id < tokens.id_limit && (tokens.defined_bits (id / 8)).toNat.testBit (id % 8)

/-- `read32` and `read64` at an offset. -/
def read (packet : Bytes) (offset size : ℕ) : ℕ := value (slice packet offset size)

/-- An address, as the machine adds to it. -/
def SavedFrame.lea (frame : SavedFrame) : SavedFrame :=
  { frame with gpr := Function.update frame.gpr .rax ((frame.gpr .rbp + 0x1e8) % 2 ^ 64) }

/-- What a call leaves. -/
structure Consumed where
  decision : Decision
  ledger : OneShotLedger
  frame : SavedFrame

def decline (ledger : OneShotLedger) (frame : SavedFrame) (reason : Reason) : Consumed :=
  ⟨⟨kStockResumeRva, reason, 0, false⟩, ledger, frame.lea⟩

/-- The stack with the ids, and their count in its register. -/
def SavedFrame.propose (frame : SavedFrame) (ids : List ℕ) : SavedFrame :=
  let words := (ids.map (le 4)).flatten
  { frame with
    gpr := Function.update frame.gpr .rbx ids.length
    outer_stack := fun a =>
      if kProposalOffset ≤ a ∧ a < kProposalOffset + words.length then words.getD (a - kProposalOffset) 0
      else frame.outer_stack a }

def CallerTruth.available (t : CallerTruth) (frame : SavedFrame) : Bool :=
  t.ownership_qualified && t.birth_reset_qualified && t.context_current && t.context_epoch ≠ 0 && t.request_rbp ≠ 0 &&
    t.original_outer_rsp ≠ 0 && t.request_rbp = frame.gpr .rbp && t.original_outer_rsp = frame.gpr .rsp &&
    t.binding.valid && t.tokens.id_limit ≠ 0 && t.tokens.id_limit ≤ kMaxTokenIds

def CallerTruth.gates (t : CallerTruth) : Bool :=
  t.positive_pld_policy && t.no_sampler && t.no_suppression && t.positive_width && t.sufficient_context &&
    t.no_constraints && 0 < t.native_allowance

/-- The header's binding. -/
def SeamBinding.inPacket (b : SeamBinding) (packet : Bytes) : Bool :=
  slice packet 16 16 = b.key_id && slice packet 32 32 = b.model && slice packet 64 32 = b.tokenizer &&
    slice packet 96 16 = b.birth_nonce && slice packet 112 16 = b.round_id &&
    slice packet 128 32 = b.prefix_fingerprint && read packet 160 8 = b.prefix_length &&
    read packet 168 8 = b.target_position && read packet 176 4 = (b.current_id % 2 ^ 32).toNat &&
    read packet 180 8 = b.window_origin

def CallerTruth.round (t : CallerTruth) : UsedRound := ⟨t.binding.birth_nonce, t.context_epoch, t.binding.round_id⟩

def idsOf (packet : Bytes) (count : ℕ) : List ℕ := (List.range count).map fun i => read packet (kHeaderBytes + 4 * i) 4

/-- The first check of `consume` that a packet does not pass. -/
def refusal (current : CallerTruth) (packet : TrustedAuthenticatedFrame) (ledger : OneShotLedger)
    (frame : SavedFrame) : Option Reason :=
  let count := read packet.bytes 12 4
  let b := current.binding
  if !current.available frame then some .callerTruthUnavailable
  else if !current.gates then some .nativeGateDeclined
  else if !packet.ready || !packet.authentication_qualified || !packet.immutable_owned then
    some .publicationUnqualified
  else if packet.context_epoch ≠ current.context_epoch then some .staleEpoch
  else if packet.length < kHeaderBytes + 4 + kDigestBytes || kMaxPacketBytes < packet.length then
    some .malformedPacket
  else if slice packet.bytes 0 8 ≠ MAGIC || read packet.bytes 8 4 ≠ 1 || count = 0 || kMaxIds < count ||
      packet.length ≠ kHeaderBytes + 4 * count + kDigestBytes then some .malformedPacket
  else if !b.inPacket packet.bytes then some .bindingMismatch
  else if read packet.bytes 188 4 ≠ b.prefix_length - b.window_origin then some .malformedPacket
  else if !current.tokens.defined b.current_id.toNat then some .undefinedToken
  else if !(idsOf packet.bytes count).all current.tokens.defined then some .undefinedToken
  else if min current.native_allowance.toNat kMaxIds < count then some .countExceedsAllowance
  else if kMaxRounds < ledger.rounds.length then some .ledgerExhausted
  else if current.round ∈ ledger.rounds then some .roundUsed
  else if ledger.rounds.length = kMaxRounds then some .ledgerExhausted
  else none

def consume (current : CallerTruth) (packet : Option TrustedAuthenticatedFrame) (ledger : OneShotLedger)
    (frame : SavedFrame) : Consumed :=
  if !current.enabled then decline ledger frame .disabled
  else
    match packet with
    | none => decline ledger frame .absent
    | some packet =>
      match refusal current packet ledger frame with
      | some reason => decline ledger frame reason
      | none =>
        let count := read packet.bytes 12 4
        ⟨⟨kProposalJoinRva, .selected, count, true⟩, ⟨ledger.rounds ++ [current.round]⟩,
          frame.propose (idsOf packet.bytes count)⟩

theorem refuse_none {p : Prop} [Decidable p] {reason : Reason} {rest : Option Reason} :
    (if p then some reason else rest) = none ↔ ¬ p ∧ rest = none := by
  split
  · rename_i hp
    exact ⟨nofun, fun h => absurd hp h.1⟩
  · rename_i hp
    exact ⟨fun h => ⟨hp, h⟩, And.right⟩

/-- What a packet that is not refused has passed. -/
structure Passed (t : CallerTruth) (p : TrustedAuthenticatedFrame) (l : OneShotLedger) (frame : SavedFrame) : Prop where
  available : t.available frame
  gates : t.gates
  publication : p.ready ∧ p.authentication_qualified ∧ p.immutable_owned
  epoch : p.context_epoch = t.context_epoch
  bounds : kHeaderBytes + 4 + kDigestBytes ≤ p.length ∧ p.length ≤ kMaxPacketBytes
  magic : slice p.bytes 0 8 = MAGIC
  version : read p.bytes 8 4 = 1
  count : read p.bytes 12 4 ≠ 0 ∧ read p.bytes 12 4 ≤ kMaxIds
  length : p.length = kHeaderBytes + 4 * read p.bytes 12 4 + kDigestBytes
  binding : t.binding.inPacket p.bytes
  window : read p.bytes 188 4 = t.binding.prefix_length - t.binding.window_origin
  token : t.tokens.defined t.binding.current_id.toNat
  ids : (idsOf p.bytes (read p.bytes 12 4)).all t.tokens.defined
  allowance : read p.bytes 12 4 ≤ min t.native_allowance.toNat kMaxIds
  fresh : t.round ∉ l.rounds
  room : l.rounds.length < kMaxRounds

theorem refusal_none {t : CallerTruth} {p : TrustedAuthenticatedFrame} {l : OneShotLedger} {frame : SavedFrame} :
    refusal t p l frame = none ↔ Passed t p l frame := by
  unfold refusal
  simp only [refuse_none, Bool.not_eq_true', Bool.not_eq_false, Bool.or_eq_true, decide_eq_true_eq, not_or, not_not,
    Nat.not_lt, and_true, ne_eq]
  constructor
  · rintro ⟨h1, h2, ⟨⟨h3, h4⟩, h5⟩, h6, h7, ⟨⟨⟨⟨h8, h9⟩, h10⟩, h11⟩, h12⟩, h13, h14, h15, h16, h17, h18, h19, h20⟩
    exact ⟨h1, h2, ⟨h3, h4, h5⟩, h6, h7, h8, h9, ⟨h10, h11⟩, h12, h13, h14, h15, h16, h17, h19,
      Nat.lt_of_le_of_ne h18 h20⟩
  · rintro ⟨h1, h2, ⟨h3, h4, h5⟩, h6, h7, h8, h9, ⟨h10, h11⟩, h12, h13, h14, h15, h16, h17, h19, h20⟩
    exact ⟨h1, h2, ⟨⟨h3, h4⟩, h5⟩, h6, h7, ⟨⟨⟨⟨h8, h9⟩, h10⟩, h11⟩, h12⟩, h13, h14, h15, h16, h17,
      Nat.le_of_lt h20, h19,
      Nat.ne_of_lt h20⟩

/-! ## The stack -/

/-- The word of the stack in which the seam's code finds the `i`th id. -/
def SavedFrame.word (frame : SavedFrame) (i : ℕ) : ℕ :=
  value ((List.range 4).map fun k => frame.outer_stack (kProposalOffset + (4 * i + k)))

theorem getD_words (ids : List ℕ) (i k : ℕ) (hi : i < ids.length) (hk : k < 4) :
    (ids.map (le 4)).flatten.getD (4 * i + k) 0 = (le 4 ids[i]).getD k 0 := by
  induction ids generalizing i with
  | nil => cases hi
  | cons id ids ih =>
    rw [map_cons, flatten_cons]
    cases i with
    | zero =>
      rw [getD_append _ _ _ _ (by rw [length_le]; omega), Nat.mul_zero, Nat.zero_add]
      rfl
    | succ i =>
      rw [getD_append_right _ _ _ _ (by rw [length_le]; omega), length_le]
      have hidx : 4 * (i + 1) + k - 4 = 4 * i + k := by omega
      rw [hidx, ih i (Nat.lt_of_succ_lt_succ hi)]
      rfl

theorem length_words_le (ids : List ℕ) : (ids.map (le 4)).flatten.length = 4 * ids.length := by
  induction ids with
  | nil => rfl
  | cons id ids ih =>
    rw [map_cons, flatten_cons, length_append, length_le, ih, length_cons]
    omega

/-- The ids are found where they were put. -/
theorem propose_word (frame : SavedFrame) {ids : List ℕ} {i : ℕ} (hi : i < ids.length) (hlt : ids[i] < 2 ^ 32) :
    (frame.propose ids).word i = ids[i] := by
  have hword : (List.range 4).map (fun k => (frame.propose ids).outer_stack (kProposalOffset + (4 * i + k))) =
      le 4 ids[i] := by
    have hbyte : ∀ k < 4, (frame.propose ids).outer_stack (kProposalOffset + (4 * i + k)) = (le 4 ids[i]).getD k 0 := by
      intro k hk
      unfold SavedFrame.propose
      dsimp only
      rw [if_pos, Nat.add_sub_cancel_left, getD_words ids i k hi hk]
      rw [length_words_le]
      omega
    rw [map_congr_left fun k hk => hbyte k (mem_range.1 hk)]
    rfl
  unfold SavedFrame.word
  rw [hword, value_le (by omega)]

/-! ## One shot -/

/-- A call selects, under a round that is new, or declines and does nothing but the displaced `lea`. -/
theorem consume_cases (t : CallerTruth) (p : Option TrustedAuthenticatedFrame) (l : OneShotLedger)
    (frame : SavedFrame) :
    (∃ reason, consume t p l frame = decline l frame reason) ∨
      ∃ q, p = some q ∧ Passed t q l frame ∧ consume t p l frame =
        ⟨⟨kProposalJoinRva, .selected, read q.bytes 12 4, true⟩, ⟨l.rounds ++ [t.round]⟩,
          frame.propose (idsOf q.bytes (read q.bytes 12 4))⟩ := by
  unfold consume
  cases t.enabled with
  | false => exact .inl ⟨_, rfl⟩
  | true =>
    cases p with
    | none => exact .inl ⟨_, rfl⟩
    | some q =>
      rw [Bool.not_true, if_neg Bool.false_ne_true]
      dsimp only
      cases hr : refusal t q l frame with
      | some reason => exact Or.inl ⟨reason, rfl⟩
      | none => exact Or.inr ⟨q, rfl, refusal_none.1 hr, rfl⟩

/-- A ledger, and the rounds under which it selected. -/
structure Seam where
  ledger : OneShotLedger := {}
  selected : List UsedRound := []

/-- A call with what the caller knows, the publication and the frame. -/
def Seam.step (s : Seam) (i : CallerTruth × Option TrustedAuthenticatedFrame × SavedFrame) : Seam :=
  let c := consume i.1 i.2.1 s.ledger i.2.2
  { ledger := c.ledger, selected := if c.decision.selected then s.selected ++ [i.1.round] else s.selected }

/-- No round is selected twice. -/
theorem selected_nodup (is : List (CallerTruth × Option TrustedAuthenticatedFrame × SavedFrame)) :
    (run Seam.step {} is).selected.Nodup := by
  have hinv : (run Seam.step {} is).ledger.rounds = (run Seam.step {} is).selected ∧
      (run Seam.step {} is).selected.Nodup := by
    refine run_invariant (P := fun s : Seam => s.ledger.rounds = s.selected ∧ s.selected.Nodup) ?_ is
      ⟨rfl, nodup_nil⟩
    rintro s ⟨t, p, frame⟩ ⟨heq, hnodup⟩
    unfold Seam.step
    rcases consume_cases t p s.ledger frame with ⟨reason, hc⟩ | ⟨q, -, hp, hc⟩
    · rw [hc]
      exact ⟨heq, hnodup⟩
    · have hfresh := hp.fresh
      rw [heq] at hfresh
      rw [hc]
      refine ⟨congrArg (· ++ [t.round]) heq, ?_⟩
      exact nodup_append.2 ⟨hnodup, nodup_singleton _, fun a ha b hb => by
        rw [mem_singleton.1 hb]
        rintro rfl
        exact hfresh ha⟩
  exact hinv.2

end StrixAlloy.Pld

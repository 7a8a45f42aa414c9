import StrixAlloy.Pld.Seam

/-!
# The selector and the seam

`ProposalSelector.select`, and that the seam selects the same packets. A callback that raises has no answer.
-/

namespace StrixAlloy.Pld

open Checked Packing Runs List

/-- `SelectionContext.__post_init__`. -/
def validateContext (b : ProposalBinding) (stock_ids : List ℤ) (native_allowance : ℤ) : Except String Unit := do
  validateBinding b
  require (∀ token ∈ stock_ids, 0 ≤ token ∧ token ≤ INT32_MAX) "stock token ID is outside the bounded integer contract"
  integer native_allowance 0 INT32_MAX "native allowance"

structure SelectionContext where
  binding : ProposalBinding
  stock_ids : List ℤ
  native_allowance : ℤ
  constraints_present : Bool := false
  valid : validateContext binding stock_ids native_allowance = .ok ()

structure Selection where
  ids : List ℤ
  used_proposal : Bool
  reason : String

/-- The checks of the constructor of a selector. -/
def validateSelector (model tokenizer : Bytes) (keys : List (Bytes × Bytes)) (token_id_limit : ℤ) (max_rounds : ℕ) :
    Except String Unit := do
  bytes model 32 "trusted model binding"
  bytes tokenizer 32 "trusted tokenizer binding"
  integer token_id_limit 1 (INT32_MAX + 1) "token ID limit"
  integer max_rounds 1 MAX_SUCCESSFUL_ROUNDS "successful round limit"
  require (1 ≤ keys.length ∧ keys.length ≤ MAX_SUCCESSFUL_ROUNDS) "one to 64 trusted integrity keys required"
  require (∀ k ∈ keys, k.1.length = 16 ∧ nonzero k.1)
    "trusted integrity key ID requires exact nonzero immutable bytes"
  require (∀ k ∈ keys, k.2.length = 32 ∧ nonzero k.2) "trusted integrity key requires exact nonzero immutable bytes"

structure ProposalSelector where
  model : Bytes
  tokenizer : Bytes
  keys : List (Bytes × Bytes)
  token_id_limit : ℤ
  token_is_defined : Option (ℤ → Option Bool) := none
  enabled : Bool := false
  max_rounds : ℕ := 4
  /-- The rounds that were used, by nonce and round. -/
  consumed : List (Bytes × Bytes) := []
  valid : validateSelector model tokenizer keys token_id_limit max_rounds = .ok ()

namespace ProposalSelector

variable (s : ProposalSelector)

def trusted (key_id : Bytes) : Option Bytes := s.keys.lookup key_id

/-- Whether every id is defined, as far as the predicate is asked. -/
def allDefined (token_is_defined : ℤ → Option Bool) : List ℤ → Option Bool
  | [] => some true
  | id :: ids => do if ← token_is_defined id then allDefined token_is_defined ids else some false

/-- What the caller knows of the ids and of the context: a reason against the proposal. -/
def callerTruth (token_is_defined : ℤ → Option Bool) (context_is_current : SelectionContext → Option Bool)
    (current : SelectionContext) (ids : List ℤ) : Option (Option String) := do
  let known ← if s.token_id_limit ≤ current.binding.current_token then some false
    else allDefined token_is_defined (current.binding.current_token :: ids)
  if !known then some (some "undefined-token-ID")
  else if !(← context_is_current current) then some (some "caller-context-stale")
  else some none

def select (h : Hmac) (packet : Bytes) (current : SelectionContext)
    (context_is_current : Option (SelectionContext → Option Bool)) : ProposalSelector × Selection :=
  let fallback := fun reason => (s, (⟨current.stock_ids, false, reason⟩ : Selection))
  let cap := min (min (current.stock_ids.length : ℤ) MAX_IDS) current.native_allowance
  if !s.enabled then fallback "disabled"
  else if current.constraints_present then fallback "constraints-present"
  else if cap ≤ 0 then fallback "no-native-hit-allowance"
  else if current.binding.model_binding ≠ s.model || current.binding.tokenizer_binding ≠ s.tokenizer then
    fallback "untrusted-current-bindings"
  else
    match decodeProposal h packet s.trusted s.token_id_limit with
    | .error error => fallback error
    | .ok proposal =>
      if proposal.binding ≠ current.binding then fallback "stale-or-mismatched-binding"
      else if cap < proposal.ids.length then fallback "proposal-exceeds-native-stock-cap"
      else
        match s.token_is_defined, context_is_current with
        | some token_is_defined, some context_is_current =>
          match s.callerTruth token_is_defined context_is_current current proposal.ids with
          | none => fallback "caller-truth-unavailable"
          | some (some reason) => fallback reason
          | some none =>
            let round := (current.binding.request_nonce, current.binding.round_id)
            if round ∈ s.consumed then fallback "round-already-used"
            else if s.max_rounds ≤ s.consumed.length then fallback "finite-round-budget-exhausted"
            else ({ s with consumed := round :: s.consumed }, ⟨proposal.ids, true, "proposal-selected"⟩)
        | _, _ => fallback "caller-truth-unavailable"

end ProposalSelector

/-! ## The same context -/

/-- The binding of the seam, on the wire. -/
def SeamBinding.proposal (b : SeamBinding) : ProposalBinding :=
  ⟨b.model, b.tokenizer, b.birth_nonce, b.round_id, b.prefix_fingerprint, b.prefix_length, b.target_position,
    b.current_id, b.window_origin⟩

/-- The digest of a packet is that of the key it names. -/
def ProposalSelector.authenticates (s : ProposalSelector) (h : Hmac) (packet : Bytes) : Bool :=
  match s.trusted (slice packet 16 16) with
  | some key => h.digest key (packet.take (packet.length - DIGEST_BYTES)) = packet.drop (packet.length - DIGEST_BYTES)
  | none => false

/-- A call of the selector and a call at the seam. -/
structure Calls where
  h : Hmac
  selector : ProposalSelector
  current : SelectionContext
  context_is_current : SelectionContext → Option Bool
  packet : Bytes
  truth : CallerTruth
  publication : TrustedAuthenticatedFrame
  ledger : OneShotLedger
  frame : SavedFrame

namespace Calls

variable (c : Calls)

def selection : Selection := (c.selector.select c.h c.packet c.current (some c.context_is_current)).2

def consumed : Consumed := consume c.truth (some c.publication) c.ledger c.frame

/-- The two are about the same binding, token map, allowance and packet, the gates are open, the authentication is
right, and the round is new. -/
structure Same : Prop where
  binding : c.current.binding = c.truth.binding.proposal
  pins : c.selector.model = c.truth.binding.model ∧ c.selector.tokenizer = c.truth.binding.tokenizer
  key : (c.selector.trusted c.truth.binding.key_id).isSome
  limit : c.selector.token_id_limit = c.truth.tokens.id_limit
  defined : ∃ token_is_defined, c.selector.token_is_defined = some token_is_defined ∧
    ∀ id < c.truth.tokens.id_limit, token_is_defined id = some (c.truth.tokens.defined id)
  allowance : c.current.native_allowance = c.truth.native_allowance
  stock : c.truth.native_allowance ≤ c.current.stock_ids.length
  open_selector : c.selector.enabled ∧ c.current.constraints_present = false ∧
    c.context_is_current c.current = some true
  owned : c.truth.enabled ∧ c.truth.ownership_qualified ∧ c.truth.birth_reset_qualified ∧
    c.truth.context_current ∧ c.truth.context_epoch ≠ 0
  saved : c.truth.request_rbp ≠ 0 ∧ c.truth.original_outer_rsp ≠ 0 ∧ c.truth.request_rbp = c.frame.gpr .rbp ∧
    c.truth.original_outer_rsp = c.frame.gpr .rsp
  policy : c.truth.positive_pld_policy ∧ c.truth.no_sampler ∧ c.truth.no_suppression ∧
    c.truth.positive_width ∧ c.truth.sufficient_context ∧ c.truth.no_constraints
  published : c.publication.ready ∧ c.publication.immutable_owned ∧
    c.publication.context_epoch = c.truth.context_epoch
  authentication : c.publication.authentication_qualified = c.selector.authenticates c.h c.packet
  carried : c.publication.length = c.packet.length ∧
    (c.packet.length ≤ kMaxPacketBytes → c.publication.bytes.take c.packet.length = c.packet)
  fresh : (c.current.binding.request_nonce, c.current.binding.round_id) ∉ c.selector.consumed ∧
    c.truth.round ∉ c.ledger.rounds

/-- What the two bound differently: both have a round left or neither has, the seam takes the token map, and the packet
names no key that the selector alone trusts. -/
structure Bounded : Prop where
  room : c.selector.consumed.length < c.selector.max_rounds ↔ c.ledger.rounds.length < kMaxRounds
  limit : c.truth.tokens.id_limit ≤ kMaxTokenIds
  key : (c.selector.trusted (slice c.packet 16 16)).isSome → slice c.packet 16 16 = c.truth.binding.key_id

end Calls

/-! ## The fields of a packet -/

theorem read_eq {packet : Bytes} {offset k n : ℕ} (hl : offset + k ≤ packet.length) (hn : n < 256 ^ k) :
    read packet offset k = n ↔ slice packet offset k = le k n := by
  have hlen := length_slice hl
  unfold read
  constructor
  · intro h
    exact (le_of_value hlen h).symm
  · intro h
    rw [h, value_le hn]

theorem idsOf_eq (packet : Bytes) (count : ℕ) :
    idsOf packet count = (cut (List.replicate count 4) (packet.drop HEADER_BYTES)).map value := by
  rw [cut_drop, slices_replicate, map_map]
  rfl

theorem unpackIds_eq (packet : Bytes) (count : ℕ) :
    unpackIds count (packet.drop HEADER_BYTES) = (idsOf packet count).map (signed 4) := by
  rw [idsOf_eq, map_map]
  rfl

theorem cut_header_eq (packet : Bytes) : cut HEADER packet =
    [slice packet 0 8, slice packet 8 4, slice packet 12 4, slice packet 16 16, slice packet 32 32, slice packet 64 32,
      slice packet 96 16, slice packet 112 16, slice packet 128 32, slice packet 160 8, slice packet 168 8,
      slice packet 176 4, slice packet 180 8, slice packet 188 4] := by
  have h := cut_drop HEADER packet 0
  rw [drop_zero] at h
  rw [h]
  rfl

/-- The header of a packet is that of a binding, as the seam reads it. -/
theorem header_iff {packet : Bytes} {b : SeamBinding} {count : ℕ} (hb : b.proposal.Valid)
    (hl : HEADER_BYTES ≤ packet.length) (hc : count < 2 ^ 32) :
    cut HEADER packet = header b.proposal count b.key_id ↔
      slice packet 0 8 = MAGIC ∧ read packet 8 4 = 1 ∧ read packet 12 4 = count ∧ b.inPacket packet = true ∧
        read packet 188 4 = b.prefix_length - b.window_origin := by
  have hhead : HEADER_BYTES = 192 := rfl
  have h1 := hb.prefix_length
  have h2 := hb.position
  have h3 := hb.token
  have h4 := hb.origin
  have h5 := hb.window
  simp only [SeamBinding.proposal, UINT64_MAX, INT32_MAX, MAX_WINDOW_TOKENS] at h1 h2 h3 h4 h5
  have hcur : (b.current_id % 2 ^ 32).toNat = b.current_id.toNat := by omega
  have hwin : ((b.prefix_length : ℤ) - b.window_origin).toNat = b.prefix_length - b.window_origin := by omega
  rw [cut_header_eq, header]
  unfold SeamBinding.inPacket
  simp only [List.cons.injEq, and_true, Bool.and_eq_true, decide_eq_true_eq, SeamBinding.proposal, VERSION,
    Int.toNat_natCast, hcur, hwin]
  rw [read_eq (by omega) (by omega), read_eq (by omega) (by omega), read_eq (by omega) (by omega),
    read_eq (by omega) (by omega), read_eq (by omega) (by omega), read_eq (by omega) (by omega),
    read_eq (by omega) (by omega)]
  constructor
  · rintro ⟨h0, h1, h2, h3, h4, h5, h6, h7, h8, h9, h10, h11, h12, h13⟩
    exact ⟨h0, h1, h2, ⟨⟨⟨⟨⟨⟨⟨⟨⟨h3, h4⟩, h5⟩, h6⟩, h7⟩, h8⟩, h9⟩, h10⟩, h11⟩, h12⟩, h13⟩
  · rintro ⟨h0, h1, h2, ⟨⟨⟨⟨⟨⟨⟨⟨⟨h3, h4⟩, h5⟩, h6⟩, h7⟩, h8⟩, h9⟩, h10⟩, h11⟩, h12⟩, h13⟩
    exact ⟨h0, h1, h2, h3, h4, h5, h6, h7, h8, h9, h10, h11, h12, h13⟩

/-! ## What both accept -/

namespace Calls

variable {c : Calls}

/-- A proposal that is decoded, of the same binding, within the allowance, and of ids that are defined. -/
structure Accepted (c : Calls) (p : Proposal) : Prop where
  decoded : decodeProposal c.h c.packet c.selector.trusted c.selector.token_id_limit = .ok p
  binding : p.binding = c.truth.binding.proposal
  positive : 0 < c.truth.native_allowance
  cap : p.ids.length ≤ min c.truth.native_allowance.toNat MAX_IDS
  token : c.truth.tokens.defined c.truth.binding.current_id.toNat
  ids : ∀ id ∈ p.ids, c.truth.tokens.defined id.toNat

theorem context_valid (c : Calls) : c.current.binding.Valid ∧ 0 ≤ c.current.native_allowance := by
  have h := c.current.valid
  unfold validateContext integer at h
  simp only [bind_eq_ok, require_eq_ok, exists_and_left, exists_const] at h
  obtain ⟨⟨⟩, h1, -, h2⟩ := h
  exact ⟨validateBinding_ok.1 h1, h2.1⟩

theorem selector_valid (c : Calls) : (1 ≤ c.selector.token_id_limit ∧ c.selector.token_id_limit ≤ INT32_MAX + 1) ∧
    ∀ key_id key, c.selector.trusted key_id = some key → (key_id.length = 16 ∧ nonzero key_id) ∧
      (key.length = 32 ∧ nonzero key) := by
  have h := c.selector.valid
  unfold validateSelector bytes integer at h
  simp only [bind_eq_ok, require_eq_ok, exists_and_left, exists_const] at h
  obtain ⟨-, -, hlimit, -, -, hids, hkeys⟩ := h
  refine ⟨hlimit, fun key_id key hk => ?_⟩
  have hmem : (key_id, key) ∈ c.selector.keys := by
    obtain ⟨front, rest, heq, -⟩ := lookup_eq_some_iff.1 hk
    rw [heq]
    exact mem_append_right _ mem_cons_self
  exact ⟨hids _ hmem, hkeys _ hmem⟩

theorem binding_valid (hs : c.Same) : c.truth.binding.proposal.Valid := hs.binding ▸ c.context_valid.1

/-- The predicate of the selector says what the seam's bits say. -/
theorem allDefined_eq {tokens : TokenDefinitions} {token_is_defined : ℤ → Option Bool}
    (hd : ∀ id < tokens.id_limit, token_is_defined id = some (tokens.defined id)) {ids : List ℤ}
    (hids : ∀ id ∈ ids, 0 ≤ id ∧ id < tokens.id_limit) :
    ProposalSelector.allDefined token_is_defined ids = some (ids.all fun id => tokens.defined id.toNat) := by
  induction ids with
  | nil => rfl
  | cons id ids ih =>
    obtain ⟨⟨h0, hlt⟩, hrest⟩ := forall_mem_cons.1 hids
    obtain ⟨n, rfl⟩ := Int.eq_ofNat_of_zero_le h0
    rw [ProposalSelector.allDefined, hd n (by omega), ih hrest]
    rw [all_cons, Int.toNat_natCast]
    cases tokens.defined n <;> rfl

/-- The selector selects what is accepted, and its ids, while it has a round left. -/
theorem selection_spec (hs : c.Same) :
    (∃ p, c.Accepted p ∧ c.selector.consumed.length < c.selector.max_rounds ∧
        c.selection = ⟨p.ids, true, "proposal-selected"⟩) ∨
      (c.selector.consumed.length < c.selector.max_rounds → ¬ ∃ p, c.Accepted p) ∧
        c.selection.used_proposal = false := by
  obtain ⟨hen, hcon, hcur⟩ := hs.open_selector
  obtain ⟨token_is_defined, htd, hdef⟩ := hs.defined
  have hallow := hs.allowance
  have hstock := hs.stock
  have h0 := c.context_valid.2
  have hcap : min (min (c.current.stock_ids.length : ℤ) MAX_IDS) c.current.native_allowance =
      min (c.truth.native_allowance.toNat : ℤ) MAX_IDS := by
    have hthree : MAX_IDS = 3 := rfl
    omega
  have hpins : c.current.binding.model_binding = c.selector.model ∧
      c.current.binding.tokenizer_binding = c.selector.tokenizer := by
    rw [hs.binding, hs.pins.1, hs.pins.2]
    exact ⟨rfl, rfl⟩
  unfold selection ProposalSelector.select
  simp only [hen, hcon, hcap, hpins.1, hpins.2, htd, Bool.not_true, Bool.false_eq_true, if_false, ne_eq,
    not_true_eq_false, decide_false, Bool.or_self]
  have hno : ∀ {q : ProposalSelector × Selection}, q.2.used_proposal = false → (¬ ∃ p, c.Accepted p) →
      (∃ p, c.Accepted p ∧ c.selector.consumed.length < c.selector.max_rounds ∧
          q.2 = ⟨p.ids, true, "proposal-selected"⟩) ∨
        (c.selector.consumed.length < c.selector.max_rounds → ¬ ∃ p, c.Accepted p) ∧ q.2.used_proposal = false :=
    fun hq hn => .inr ⟨fun _ => hn, hq⟩
  split
  · rename_i hle
    refine hno rfl ?_
    rintro ⟨p, hp⟩
    have := hp.positive
    have hthree : MAX_IDS = 3 := rfl
    omega
  rename_i hpos
  have hpos : 0 < c.truth.native_allowance := by omega
  split
  · rename_i error hd
    refine hno rfl ?_
    rintro ⟨p, hp⟩
    rw [hp.decoded] at hd
    cases hd
  rename_i p hd
  have honly : ∀ {q : Proposal}, c.Accepted q → q = p := by
    intro q hq
    have heq := hq.decoded
    rw [hd] at heq
    exact (Except.ok.inj heq).symm
  split
  · rename_i hne
    refine hno rfl ?_
    rintro ⟨q, hq⟩
    rw [honly hq] at hq
    exact hne (hq.binding.trans hs.binding.symm)
  rename_i hbind
  split
  · rename_i hlt
    refine hno rfl ?_
    rintro ⟨q, hq⟩
    have hcapq := hq.cap
    rw [honly hq] at hcapq
    omega
  rename_i hle
  obtain ⟨-, hids, -, -⟩ := trusted_of_decode hd
  obtain ⟨-, hrange⟩ := checkIds_ok.1 hids
  have htoken := c.context_valid.1.token.1
  have hcurrent : c.current.binding.current_token = c.truth.binding.current_id := by
    rw [hs.binding]
    rfl
  have hlimit := hs.limit
  by_cases hk : c.selector.token_id_limit ≤ c.current.binding.current_token
  · have htruth : c.selector.callerTruth token_is_defined c.context_is_current c.current p.ids =
        some (some "undefined-token-ID") := by
      simp [ProposalSelector.callerTruth, hk]
    rw [htruth]
    refine hno rfl ?_
    rintro ⟨q, hq⟩
    have hdefined := hq.token
    unfold TokenDefinitions.defined at hdefined
    simp only [Bool.and_eq_true, decide_eq_true_eq] at hdefined
    omega
  have hbounds : ∀ id ∈ c.current.binding.current_token :: p.ids, 0 ≤ id ∧ id < c.truth.tokens.id_limit := by
    refine forall_mem_cons.2 ⟨⟨htoken, by omega⟩, fun id hid => ?_⟩
    obtain ⟨h1, h2⟩ := hrange id hid
    exact ⟨h1, by omega⟩
  have hall := allDefined_eq hdef hbounds
  have htruth : c.selector.callerTruth token_is_defined c.context_is_current c.current p.ids =
      some (if (c.current.binding.current_token :: p.ids).all (fun id => c.truth.tokens.defined id.toNat) then none
        else some "undefined-token-ID") := by
    unfold ProposalSelector.callerTruth
    rw [if_neg hk, hall]
    cases (c.current.binding.current_token :: p.ids).all fun id => c.truth.tokens.defined id.toNat with
    | false => rfl
    | true => simp [hcur]
  rw [htruth]
  split
  · rename_i hmatch
    cases hmatch
  · rename_i reason hmatch
    refine hno rfl ?_
    rintro ⟨q, hq⟩
    rw [honly hq] at hq
    rw [if_pos] at hmatch
    · cases hmatch
    · rw [all_cons, hcurrent, hq.token, Bool.true_and, all_eq_true]
      exact hq.ids
  · rename_i hmatch
    have hgood : (c.current.binding.current_token :: p.ids).all (fun id => c.truth.tokens.defined id.toNat) = true := by
      by_contra hbad
      rw [if_neg hbad] at hmatch
      cases hmatch
    rw [all_cons, hcurrent, Bool.and_eq_true, all_eq_true] at hgood
    rw [if_neg hs.fresh.1]
    split
    · next hfull => exact .inr ⟨fun hroom => absurd hroom hfull.not_gt, rfl⟩
    · next hroom =>
      refine .inl ⟨p, ⟨hd, ?_, hpos, by omega, hgood.1, hgood.2⟩, not_le.1 hroom, rfl⟩
      exact (not_not.1 hbind).trans hs.binding

/-- The publication has the bytes of the packet. -/
theorem bytes_slice (hs : c.Same) (hl : c.packet.length ≤ kMaxPacketBytes) {offset size : ℕ}
    (h : offset + size ≤ c.packet.length) : slice c.publication.bytes offset size = slice c.packet offset size := by
  rw [← slice_take h, hs.carried.2 hl]

theorem read_bytes (hs : c.Same) (hl : c.packet.length ≤ kMaxPacketBytes) {offset size : ℕ}
    (h : offset + size ≤ c.packet.length) : read c.publication.bytes offset size = read c.packet offset size := by
  unfold read
  rw [c.bytes_slice hs hl h]

theorem idsOf_bytes (hs : c.Same) (hl : c.packet.length ≤ kMaxPacketBytes) {count : ℕ}
    (h : kHeaderBytes + 4 * count ≤ c.packet.length) : idsOf c.publication.bytes count = idsOf c.packet count := by
  unfold idsOf
  refine map_congr_left fun i hi => ?_
  rw [mem_range] at hi
  exact read_bytes hs hl (by omega)

theorem inPacket_bytes (hs : c.Same) (hl : c.packet.length ≤ kMaxPacketBytes) (h : kHeaderBytes ≤ c.packet.length)
    (b : SeamBinding) : b.inPacket c.publication.bytes = b.inPacket c.packet := by
  have h192 : kHeaderBytes = 192 := rfl
  unfold SeamBinding.inPacket
  rw [bytes_slice hs hl (by omega), bytes_slice hs hl (by omega), bytes_slice hs hl (by omega),
    bytes_slice hs hl (by omega), bytes_slice hs hl (by omega), bytes_slice hs hl (by omega),
    read_bytes hs hl (by omega), read_bytes hs hl (by omega), read_bytes hs hl (by omega),
    read_bytes hs hl (by omega)]

/-- An id that the seam finds defined is one that the wire can say. -/
theorem defined_lt {tokens : TokenDefinitions} {id : ℕ} (hl : tokens.id_limit ≤ kMaxTokenIds)
    (h : tokens.defined id) : id < 2 ^ 31 ∧ id < tokens.id_limit := by
  unfold TokenDefinitions.defined at h
  rw [Bool.and_eq_true, decide_eq_true_eq] at h
  have hmax : kMaxTokenIds = 248070 := rfl
  have hlt := h.1
  exact ⟨by omega, hlt⟩

/-- What the seam accepts, the selector accepts. -/
theorem accepted_of_passed (hs : c.Same) (hb : c.Bounded) (hp : Passed c.truth c.publication c.ledger c.frame) :
    ∃ p, c.Accepted p ∧ p.ids.map Int.toNat = idsOf c.publication.bytes (read c.publication.bytes 12 4) := by
  have hbounds := hp.bounds
  have hlength := hp.length
  rw [hs.carried.1] at hbounds hlength
  obtain ⟨hmin, hmax⟩ := hbounds
  have hhead : kHeaderBytes = 192 := rfl
  have hheader : HEADER_BYTES = 192 := rfl
  have hdigest : kDigestBytes = 32 ∧ DIGEST_BYTES = 32 := ⟨rfl, rfl⟩
  have hvalid := binding_valid hs
  obtain ⟨hlim, hkeys⟩ := c.selector_valid
  set count := read c.publication.bytes 12 4 with hcount
  obtain ⟨hc0, hc3⟩ := hp.count
  have hthree : kMaxIds = 3 ∧ MAX_IDS = 3 := ⟨rfl, rfl⟩
  -- The header is that of the binding.
  have hpacket : cut HEADER c.packet = header c.truth.binding.proposal count c.truth.binding.key_id := by
    rw [header_iff hvalid (by omega) (by omega)]
    have h0 := hp.magic
    have h1 := hp.version
    have h2 := hp.binding
    have h3 := hp.window
    rw [bytes_slice hs hmax (by omega)] at h0
    rw [read_bytes hs hmax (by omega)] at h1 h3 hcount
    rw [inPacket_bytes hs hmax (by omega)] at h2
    exact ⟨h0, h1, hcount.symm, h2, h3⟩
  have hids : idsOf c.publication.bytes count = idsOf c.packet count := idsOf_bytes hs hmax (by omega)
  have hdefined := hp.ids
  rw [hids, all_eq_true] at hdefined
  have hunpack : unpackIds count (c.packet.drop HEADER_BYTES) = (idsOf c.packet count).map fun id : ℕ => (id : ℤ) := by
    rw [unpackIds_eq]
    refine map_congr_left fun id hid => signed_of_lt ?_
    have := (defined_lt hb.limit (hdefined id hid)).1
    omega
  have hlenids : (unpackIds count (c.packet.drop HEADER_BYTES)).length = count := by
    rw [hunpack, length_map, idsOf, length_map, length_range]
  have hrange : ∀ id ∈ unpackIds count (c.packet.drop HEADER_BYTES), 0 ≤ id ∧ id ≤ c.selector.token_id_limit - 1 := by
    intro id hid
    rw [hunpack] at hid
    obtain ⟨n, hn, rfl⟩ := mem_map.1 hid
    have := (defined_lt hb.limit (hdefined n hn)).2
    have := hs.limit
    omega
  have hframe := frame_of_fields (by omega) hpacket fun id hid => (hrange id hid).1
  -- The key is the one that the seam is bound to, and the digest is right under it.
  obtain ⟨key, hkey⟩ := Option.isSome_iff_exists.1 hs.key
  obtain ⟨hkid, hkvalid⟩ := hkeys _ key hkey
  have hauth := hp.publication.2.1
  have hslice : slice c.packet 16 16 = c.truth.binding.key_id := by
    have h := hpacket
    rw [cut_header_eq, header] at h
    simp only [List.cons.injEq] at h
    exact h.2.2.2.1
  rw [hs.authentication, ProposalSelector.authenticates, hslice, hkey] at hauth
  simp only [decide_eq_true_eq] at hauth
  have hsplit := split_at hframe (n := c.packet.length - DIGEST_BYTES) (by
    rw [length_frame hvalid hkid.1, hlenids]
    omega)
  have htrusted : Trusted c.h c.selector.trusted
      ⟨c.truth.binding.proposal, unpackIds count (c.packet.drop HEADER_BYTES), c.truth.binding.key_id⟩ c.packet := by
    refine ⟨hvalid, checkIds_ok.2 ⟨?_, fun id hid => ?_⟩, hkid, key, hkey, hkvalid, ?_⟩
    · rw [hlenids]
      omega
    · obtain ⟨h0, hle⟩ := hrange id hid
      have := hlim.2
      exact ⟨h0, by omega⟩
    · rw [hsplit.1, hsplit.2] at hauth
      rw [hauth]
      exact hframe.symm
  have hchecked : checkIds (unpackIds count (c.packet.drop HEADER_BYTES)) c.selector.token_id_limit = .ok () :=
    checkIds_ok.2 ⟨by rw [hlenids]; omega, hrange⟩
  have hdecode := decode_of_trusted htrusted hchecked hlim.1 hlim.2
  have hgates := hp.gates
  unfold CallerTruth.gates at hgates
  simp only [Bool.and_eq_true, decide_eq_true_eq] at hgates
  have hallow := hp.allowance
  refine ⟨_, ⟨hdecode, rfl, hgates.2, ?_, hp.token, fun id hid => ?_⟩, ?_⟩
  · rw [hlenids]
    omega
  · rw [hunpack] at hid
    obtain ⟨n, hn, rfl⟩ := mem_map.1 hid
    exact hdefined n hn
  · rw [hunpack, hids, map_map]
    exact map_id' _

/-- The binding of a context that was constructed is valid at the seam. -/
theorem binding_seam (hs : c.Same) : c.truth.binding.valid := by
  have hv := binding_valid hs
  obtain ⟨key, hkey⟩ := Option.isSome_iff_exists.1 hs.key
  have hkid := (c.selector_valid.2 _ key hkey).1.2
  have h1 := hv.prefix_length
  have h2 := hv.position
  have h3 := hv.token
  have h4 := hv.origin
  have h5 := hv.window
  have h512 : MAX_WINDOW_TOKENS = 512 ∧ kMaxWindowTokens = 512 := ⟨rfl, rfl⟩
  simp only [SeamBinding.proposal] at h1 h2 h3 h4 h5
  unfold SeamBinding.valid
  simp only [Bool.and_eq_true, decide_eq_true_eq]
  refine ⟨⟨⟨⟨⟨⟨⟨⟨⟨⟨hkid, hv.model.2⟩, hv.tokenizer.2⟩, hv.nonce.2⟩, hv.round.2⟩, hv.fingerprint.2⟩, ?_⟩, ?_⟩, ?_⟩, ?_⟩,
    ?_⟩
  all_goals omega

/-- What the selector accepts, the seam accepts. -/
theorem passed_of_accepted (hs : c.Same) (hb : c.Bounded) {p : Proposal} (hp : c.Accepted p)
    (hroom : c.selector.consumed.length < c.selector.max_rounds) : Passed c.truth c.publication c.ledger c.frame := by
  have hvalid := binding_valid hs
  obtain ⟨⟨-, hall, hkid, key, hkey, hkvalid, hpacket⟩, hids, hlim⟩ := trusted_of_decode hp.decoded
  obtain ⟨⟨hmin, hmax⟩, hrange⟩ := checkIds_ok.1 hall
  rw [hp.binding] at hpacket
  have hhead : kHeaderBytes = 192 ∧ HEADER_BYTES = 192 := ⟨rfl, rfl⟩
  have hdigest : kDigestBytes = 32 ∧ DIGEST_BYTES = 32 := ⟨rfl, rfl⟩
  have hthree : kMaxIds = 3 ∧ MAX_IDS = 3 ∧ kMaxPacketBytes = 236 := ⟨rfl, rfl, rfl⟩
  have hlen : c.packet.length = HEADER_BYTES + p.ids.length * 4 + DIGEST_BYTES := by
    conv => lhs; rw [hpacket]
    rw [length_append, length_frame hvalid hkid.1, c.h.length_digest]
  have hfields : (header c.truth.binding.proposal p.ids.length p.key_id).flatten ++
      ((p.ids.map fun id => le 4 id.toNat).flatten ++ c.h.digest key (Pld.frame c.truth.binding.proposal p.ids p.key_id)) =
        c.packet := by
    rw [← append_assoc]
    exact hpacket.symm
  have hcut : cut HEADER c.packet = header c.truth.binding.proposal p.ids.length p.key_id := by
    rw [← header_widths hvalid p.ids.length hkid.1, ← hfields, cut_flatten]
  have hslice : slice c.packet 16 16 = p.key_id := by
    have h := hcut
    rw [cut_header_eq, header] at h
    simp only [List.cons.injEq] at h
    exact h.2.2.2.1
  rw [← hslice, hb.key (by rw [hslice, hkey]; rfl)] at hcut
  obtain ⟨hmagic, hversion, hcount, hbind, hwindow⟩ := (header_iff hvalid (by omega) (by omega)).1 hcut
  have hpl : c.packet.length ≤ kMaxPacketBytes := by omega
  have hbcount : read c.publication.bytes 12 4 = p.ids.length := (read_bytes hs hpl (by omega)).trans hcount
  -- The ids that the seam reads are those of the proposal.
  have hwords : (idsOf c.packet p.ids.length).map (signed 4) = p.ids := by
    rw [← unpackIds_eq, (split_at hfields (length_header hvalid p.ids.length hkid.1)).2]
    exact unpackIds_words (fun id hid => by
      obtain ⟨h0, hle⟩ := hrange id hid
      exact ⟨h0, by omega⟩) _
  have hdefined : ∀ id ∈ idsOf c.packet p.ids.length, c.truth.tokens.defined id := by
    intro id hid
    have hmem : signed 4 id ∈ p.ids := hwords ▸ mem_map_of_mem hid
    have hlt : id < 256 ^ 4 := by
      obtain ⟨i, hi, rfl⟩ := mem_map.1 hid
      rw [mem_range] at hi
      have hl := value_lt (slice c.packet (kHeaderBytes + 4 * i) 4)
      rwa [length_slice (by omega)] at hl
    have hval := (lt_of_signed hlt (hrange _ hmem).1).2
    have hdef := hp.ids _ hmem
    rwa [hval, Int.toNat_natCast] at hdef
  have hauth : c.selector.authenticates c.h c.packet := by
    have hsplit := split_at hpacket.symm (n := c.packet.length - DIGEST_BYTES) (by
      rw [length_frame hvalid hkid.1]
      omega)
    rw [ProposalSelector.authenticates, hslice, hkey]
    simp only [decide_eq_true_eq]
    rw [hsplit.1, hsplit.2]
  have hlimit := hs.limit
  obtain ⟨howned, hown⟩ := hs.owned
  obtain ⟨hready, himm, hepoch⟩ := hs.published
  have hcap := hp.cap
  constructor
  · obtain ⟨h1, h2, h3, h4⟩ := hown
    obtain ⟨h5, h6, h7, h8⟩ := hs.saved
    unfold CallerTruth.available
    simp only [Bool.and_eq_true, decide_eq_true_eq]
    refine ⟨⟨⟨⟨⟨⟨⟨⟨⟨⟨h1, h2⟩, h3⟩, h4⟩, h5⟩, h6⟩, h7⟩, h8⟩, binding_seam hs⟩, ?_⟩, hb.limit⟩
    have := hlim.1
    omega
  · obtain ⟨h1, h2, h3, h4, h5, h6⟩ := hs.policy
    unfold CallerTruth.gates
    simp only [Bool.and_eq_true, decide_eq_true_eq]
    exact ⟨⟨⟨⟨⟨⟨h1, h2⟩, h3⟩, h4⟩, h5⟩, h6⟩, hp.positive⟩
  · exact ⟨hready, hs.authentication.trans hauth, himm⟩
  · exact hepoch
  · rw [hs.carried.1]
    omega
  · exact (bytes_slice hs hpl (by omega)).trans hmagic
  · exact (read_bytes hs hpl (by omega)).trans hversion
  · rw [hbcount]
    omega
  · rw [hs.carried.1, hbcount]
    omega
  · rw [inPacket_bytes hs hpl (by omega)]
    exact hbind
  · exact (read_bytes hs hpl (by omega)).trans hwindow
  · exact hp.token
  · rw [hbcount, idsOf_bytes hs hpl (by omega), all_eq_true]
    exact hdefined
  · rw [hbcount]
    omega
  · exact hs.fresh.2
  · exact hb.room.1 hroom

/-- What the two calls leave, where the selector selected and where it did not. -/
structure Agree (c : Calls) : Prop where
  selected : c.consumed.decision.selected = c.selection.used_proposal
  ids : c.selection.used_proposal → c.consumed.decision.count = c.selection.ids.length ∧
    c.consumed.ledger.rounds = c.ledger.rounds ++ [c.truth.round] ∧
      c.consumed.frame = c.frame.propose (c.selection.ids.map Int.toNat) ∧
        ∀ i (hi : i < c.selection.ids.length), (c.consumed.frame.word i : ℤ) = c.selection.ids[i]
  stock : c.selection.used_proposal = false → c.consumed.ledger = c.ledger ∧ c.consumed.frame = c.frame.lea

theorem agree (hs : c.Same) (hb : c.Bounded) : c.Agree := by
  have henabled := hs.owned.1
  rcases selection_spec hs with ⟨p, hp, hroom, hsel⟩ | ⟨hno, hsel⟩
  · have hpassed := passed_of_accepted hs hb hp hroom
    obtain ⟨q, hq, hwords⟩ := accepted_of_passed hs hb hpassed
    obtain rfl : q = p := by
      have heq := hq.decoded
      rw [hp.decoded] at heq
      exact (Except.ok.inj heq).symm
    have hcount : read c.publication.bytes 12 4 = q.ids.length := by
      have hl := congrArg List.length hwords
      rw [length_map, idsOf, length_map, length_range] at hl
      exact hl.symm
    have hc : c.consumed = ⟨⟨kProposalJoinRva, .selected, q.ids.length, true⟩, ⟨c.ledger.rounds ++ [c.truth.round]⟩,
        c.frame.propose (q.ids.map Int.toNat)⟩ := by
      unfold consumed consume
      rw [henabled, Bool.not_true, if_neg Bool.false_ne_true]
      dsimp only
      rw [refusal_none.2 hpassed]
      rw [hwords, hcount]
    obtain ⟨-, hids, -, hlim⟩ := trusted_of_decode hp.decoded
    obtain ⟨-, hrange⟩ := checkIds_ok.1 hids
    refine ⟨by rw [hc, hsel], fun _ => ?_, fun hf => ?_⟩
    · rw [hc, hsel]
      refine ⟨rfl, rfl, rfl, fun i hi => ?_⟩
      obtain ⟨h0, hle⟩ := hrange q.ids[i] (getElem_mem hi)
      have hi' : i < (q.ids.map Int.toNat).length := by rwa [length_map]
      have hget : (q.ids.map Int.toNat)[i] = q.ids[i].toNat := getElem_map _
      have hlt : (q.ids.map Int.toNat)[i] < 2 ^ 32 := by
        rw [hget]
        unfold INT32_MAX at hlim
        omega
      dsimp only
      rw [propose_word _ hi' hlt, hget]
      omega
    · rw [hsel] at hf
      cases hf
  · have hdeclined : ∃ reason, c.consumed = decline c.ledger c.frame reason := by
      rcases consume_cases c.truth (some c.publication) c.ledger c.frame with hd | ⟨q, hq, hpassed, -⟩
      · exact hd
      · cases hq
        obtain ⟨p, hp, -⟩ := accepted_of_passed hs hb hpassed
        exact absurd ⟨p, hp⟩ (hno (hb.room.2 hpassed.room))
    obtain ⟨reason, hc⟩ := hdeclined
    refine ⟨by rw [hc, hsel]; rfl, fun ht => ?_, fun _ => ?_⟩
    · rw [hsel] at ht
      cases ht
    · rw [hc]
      exact ⟨rfl, rfl⟩

end Calls

/-! ## Runs of the selector -/

/-- A call of a selector. -/
structure SelectCall where
  h : Hmac
  packet : Bytes
  current : SelectionContext
  context_is_current : Option (SelectionContext → Option Bool)

/-- A selector, and the nonces and rounds under which it selected. -/
structure Selecting where
  selector : ProposalSelector
  selected : List (Bytes × Bytes) := []

def Selecting.step (s : Selecting) (i : SelectCall) : Selecting :=
  let r := s.selector.select i.h i.packet i.current i.context_is_current
  { selector := r.1
    selected := if r.2.used_proposal then
        (i.current.binding.request_nonce, i.current.binding.round_id) :: s.selected
      else s.selected }

theorem select_cases (s : ProposalSelector) (i : SelectCall) :
    (∃ reason, s.select i.h i.packet i.current i.context_is_current = (s, ⟨i.current.stock_ids, false, reason⟩)) ∨
      ∃ ids, s.select i.h i.packet i.current i.context_is_current =
          ({ s with consumed := (i.current.binding.request_nonce, i.current.binding.round_id) :: s.consumed },
            ⟨ids, true, "proposal-selected"⟩) ∧
        (i.current.binding.request_nonce, i.current.binding.round_id) ∉ s.consumed := by
  generalize hr : s.select i.h i.packet i.current i.context_is_current = r
  unfold ProposalSelector.select at hr
  iterate 4
    rcases ite_eq_iff.1 hr with ⟨-, hr⟩ | ⟨-, hr⟩
    · exact .inl ⟨_, hr.symm⟩
  cases hd : decodeProposal i.h i.packet s.trusted s.token_id_limit with
  | error =>
    rw [hd] at hr
    exact .inl ⟨_, hr.symm⟩
  | ok =>
    rw [hd] at hr
    iterate 2
      rcases ite_eq_iff.1 hr with ⟨-, hr⟩ | ⟨-, hr⟩
      · exact .inl ⟨_, hr.symm⟩
    split at hr
    · split at hr
      · exact .inl ⟨_, hr.symm⟩
      · exact .inl ⟨_, hr.symm⟩
      rcases ite_eq_iff.1 hr with ⟨-, hr⟩ | ⟨hnew, hr⟩
      · exact .inl ⟨_, hr.symm⟩
      rcases ite_eq_iff.1 hr with ⟨-, hr⟩ | ⟨-, hr⟩
      · exact .inl ⟨_, hr.symm⟩
      · exact .inr ⟨_, hr.symm, hnew⟩
    · exact .inl ⟨_, hr.symm⟩

/-- No nonce and round are selected twice. -/
theorem selecting_nodup (s : ProposalSelector) (hs : s.consumed = []) (is : List SelectCall) :
    (run Selecting.step ⟨s, []⟩ is).selected.Nodup := by
  have hinv : (run Selecting.step ⟨s, []⟩ is).selector.consumed = (run Selecting.step ⟨s, []⟩ is).selected ∧
      (run Selecting.step ⟨s, []⟩ is).selected.Nodup := by
    refine run_invariant (P := fun s : Selecting => s.selector.consumed = s.selected ∧ s.selected.Nodup) ?_ is
      ⟨hs, nodup_nil⟩
    rintro s i ⟨heq, hnodup⟩
    unfold Selecting.step
    rcases select_cases s.selector i with ⟨reason, hc⟩ | ⟨ids, hc, hnew⟩
    · rw [hc]
      exact ⟨heq, hnodup⟩
    · rw [hc]
      refine ⟨congrArg (List.cons _) heq, ?_⟩
      rw [heq] at hnew
      exact nodup_cons.2 ⟨hnew, hnodup⟩
  exact hinv.2

/-! ## Proposals -/

/-- The wire is a round trip; a selector and a seam that are about the same context, with rounds left or
without, a token map that the seam takes and no other key that a packet names, select the same packets; and no round is
selected twice. -/
theorem proposals_agree :
    (∀ (h : Hmac) (b : ProposalBinding) (ids : List ℤ) (key_id key : Bytes) (trusted_keys : Bytes → Option Bytes)
      (limit : ℤ), b.Valid → checkIds ids limit = .ok () → 1 ≤ limit → limit ≤ INT32_MAX + 1 →
        (key_id.length = 16 ∧ nonzero key_id) → (key.length = 32 ∧ nonzero key) → trusted_keys key_id = some key →
          ∃ packet, encodeProposal h b ids key_id key = .ok packet ∧
            decodeProposal h packet trusted_keys limit = .ok ⟨b, ids, key_id⟩) ∧
    (∀ (h : Hmac) (packet : Bytes) (trusted_keys : Bytes → Option Bytes) (limit : ℤ) (p : Proposal),
      decodeProposal h packet trusted_keys limit = .ok p →
        ∃ key, trusted_keys p.key_id = some key ∧ encodeProposal h p.binding p.ids p.key_id key = .ok packet) ∧
    (∀ c : Calls, c.Same → c.Bounded → c.Agree) ∧
    (∀ is, (run Seam.step {} is).selected.Nodup) ∧
    ∀ s : ProposalSelector, s.consumed = [] → ∀ is, (run Selecting.step ⟨s, []⟩ is).selected.Nodup := by
  refine ⟨?_, ?_, fun c hs hb => c.agree hs hb, selected_nodup, selecting_nodup⟩
  · intro h b ids key_id key trusted_keys limit hb hids h1 h2 hkid hkey htrust
    obtain ⟨hlen, hrange⟩ := checkIds_ok.1 hids
    have hall : checkIds ids (INT32_MAX + 1) = .ok () :=
      checkIds_ok.2 ⟨hlen, fun id hid => ⟨(hrange id hid).1, by have := (hrange id hid).2; omega⟩⟩
    refine ⟨_, encodeProposal_ok.2 ⟨hb, hall, hkid, hkey, rfl⟩, ?_⟩
    exact decode_of_trusted ⟨hb, hall, hkid, key, htrust, hkey, rfl⟩ hids h1 h2
  · intro h packet trusted_keys limit p hd
    obtain ⟨⟨hb, hall, hkid, key, htrust, hkey, hpacket⟩, -⟩ := trusted_of_decode hd
    exact ⟨key, htrust, encodeProposal_ok.2 ⟨hb, hall, hkid, hkey, hpacket.symm⟩⟩

/-! ## A sample -/

def sampleHmac : Hmac := ⟨fun _ _ => List.replicate 32 0, fun _ _ => rfl⟩

def sampleBinding : SeamBinding :=
  ⟨List.replicate 16 1, List.replicate 32 1, List.replicate 32 1, List.replicate 16 1, List.replicate 16 1,
    List.replicate 32 1, 1, 1, 0, 0⟩

/-- The packet of one id under a key. -/
def samplePacket (key_id : Bytes) : Bytes := frame sampleBinding.proposal [1] key_id ++ List.replicate 32 0

def sampleSelector : ProposalSelector where
  model := List.replicate 32 1
  tokenizer := List.replicate 32 1
  keys := [(List.replicate 16 1, List.replicate 32 1)]
  token_id_limit := 2
  token_is_defined := some fun _ => some true
  enabled := true
  valid := rfl

def sampleContext : SelectionContext where
  binding := sampleBinding.proposal
  stock_ids := [5]
  native_allowance := 1
  valid := rfl

def sampleTruth : CallerTruth :=
  ⟨true, true, true, true, true, true, true, true, true, true, 1, 1, 1, 1, sampleBinding, ⟨2, fun _ => 255⟩⟩

def sampleFrame : SavedFrame := { gpr := fun _ => 1 }

def sampleCalls : Calls where
  h := sampleHmac
  selector := sampleSelector
  current := sampleContext
  context_is_current := fun _ => some true
  packet := samplePacket (List.replicate 16 1)
  truth := sampleTruth
  publication := ⟨samplePacket (List.replicate 16 1), 228, 1, true, true, true⟩
  ledger := {}
  frame := sampleFrame

theorem sample_defined {tokens : TokenDefinitions} (hall : tokens.defined_bits = fun _ => 255) (id : ℕ)
    (h : id < tokens.id_limit) : some true = some (tokens.defined id) := by
  have hbit : ∀ k < 8, (255 : ℕ).testBit k = true := by decide
  unfold TokenDefinitions.defined
  rw [decide_eq_true h, Bool.true_and, hall]
  exact congrArg some (hbit _ (Nat.mod_lt _ (by decide))).symm

theorem sample_same : sampleCalls.Same where
  binding := rfl
  pins := ⟨rfl, rfl⟩
  key := by decide +kernel
  limit := rfl
  defined := ⟨_, rfl, sample_defined rfl⟩
  allowance := rfl
  stock := by decide +kernel
  open_selector := ⟨rfl, rfl, rfl⟩
  owned := by decide +kernel
  saved := by decide +kernel
  policy := by decide +kernel
  published := by decide +kernel
  authentication := by decide +kernel
  carried := by decide +kernel
  fresh := by decide +kernel

theorem sample_bounded : sampleCalls.Bounded where
  room := by decide +kernel
  limit := by decide +kernel
  key := by decide +kernel

/-- The sample is selected on both sides. -/
theorem sample_agree : sampleCalls.Agree ∧ sampleCalls.consumed.decision.selected :=
  ⟨proposals_agree.2.2.1 sampleCalls sample_same sample_bounded, by decide +kernel⟩

/-- A selector that may select once, and has. -/
def spentCalls : Calls :=
  { sampleCalls with
    selector := { sampleSelector with
      max_rounds := 1, consumed := [(List.replicate 16 1, List.replicate 16 2)], valid := rfl } }

/-- A token map beyond what the seam takes. -/
def wideCalls : Calls :=
  { sampleCalls with
    selector := { sampleSelector with token_id_limit := 248071, valid := rfl }
    truth := { sampleTruth with tokens := ⟨248071, fun _ => 255⟩ } }

/-- A packet under a second key that the selector trusts. -/
def foreignCalls : Calls :=
  { sampleCalls with
    selector := { sampleSelector with
      keys := [(List.replicate 16 1, List.replicate 32 1), (List.replicate 16 2, List.replicate 32 1)], valid := rfl }
    packet := samplePacket (List.replicate 16 2)
    publication := ⟨samplePacket (List.replicate 16 2), 228, 1, true, true, true⟩ }

/-- The seam selects what a selector without rounds left does not; it declines what a selector with a larger token
map, or with a second key, selects. -/
theorem selections_differ :
    (∃ c : Calls, c.Same ∧ c.consumed.decision.selected ∧ c.selection.used_proposal = false) ∧
    (∃ c : Calls, c.Same ∧ kMaxTokenIds < c.truth.tokens.id_limit ∧ c.consumed.decision.selected = false ∧
      c.selection.used_proposal) ∧
    ∃ c : Calls, c.Same ∧ slice c.packet 16 16 ≠ c.truth.binding.key_id ∧ c.consumed.decision.selected = false ∧
      c.selection.used_proposal := by
  refine ⟨⟨spentCalls, ?_, ?_⟩, ⟨wideCalls, ?_, ?_⟩, ⟨foreignCalls, ?_, ?_⟩⟩
  · exact { sample_same with
      key := by decide +kernel
      authentication := by decide +kernel
      fresh := by decide +kernel }
  · decide +kernel
  · exact { sample_same with
      key := by decide +kernel
      limit := rfl
      defined := ⟨_, rfl, sample_defined rfl⟩
      authentication := by decide +kernel }
  · decide +kernel
  · exact { sample_same with
      key := by decide +kernel
      published := by decide +kernel
      authentication := by decide +kernel
      carried := by decide +kernel }
  · decide +kernel

end StrixAlloy.Pld

import StrixAlloy.Lib.Checked
import StrixAlloy.Lib.Packing
import Mathlib.Tactic.Linarith

/-!
# The proposal wire

The offline codec of proposals: a binding, up to three ids and a digest over both. The integers of a binding are what
the caller gives; whoever constructs a binding or a proposal checks them. `hmac` is a parameter, with the length of its
digest.
-/

namespace StrixAlloy.Pld

open Checked Packing List

abbrev Bytes := List UInt8

/-- `HGNPLDP1`. -/
def MAGIC : Bytes := [0x48, 0x47, 0x4e, 0x50, 0x4c, 0x44, 0x50, 0x31]

def VERSION : ℕ := 1

/-- The widths of the fields of the header. -/
def HEADER : List ℕ := [8, 4, 4, 16, 32, 32, 16, 16, 32, 8, 8, 4, 8, 4]

def HEADER_BYTES : ℕ := 192

def DIGEST_BYTES : ℕ := 32

def MAX_IDS : ℕ := 3

def MAX_WINDOW_TOKENS : ℕ := 512

def MAX_SUCCESSFUL_ROUNDS : ℕ := 64

def INT32_MAX : ℤ := 2 ^ 31 - 1

def UINT64_MAX : ℤ := 2 ^ 64 - 1

def MIN_PACKET_BYTES : ℕ := HEADER_BYTES + 4 + DIGEST_BYTES

def MAX_PACKET_BYTES : ℕ := HEADER_BYTES + 4 * MAX_IDS + DIGEST_BYTES

example : HEADER.sum = HEADER_BYTES := by decide

/-- `hmac.new(key, frame, hashlib.sha256).digest()`. -/
structure Hmac where
  digest : Bytes → Bytes → Bytes
  length_digest : ∀ key frame, (digest key frame).length = DIGEST_BYTES

/-- `any`. -/
def nonzero (value : Bytes) : Bool := value.any (· ≠ 0)

/-- `_bytes`. -/
def bytes (value : Bytes) (size : ℕ) (name : String) : Except String Unit :=
  require (value.length = size ∧ nonzero value) (name ++ " requires exact nonzero immutable bytes")

/-- `_integer`. -/
def integer (value minimum maximum : ℤ) (name : String) : Except String Unit :=
  require (minimum ≤ value ∧ value ≤ maximum) (name ++ " is outside the bounded integer contract")

structure ProposalBinding where
  model_binding : Bytes
  tokenizer_binding : Bytes
  request_nonce : Bytes
  round_id : Bytes
  committed_prefix_fingerprint : Bytes
  committed_prefix_length : ℤ
  target_position : ℤ
  current_token : ℤ
  window_origin : ℤ
deriving DecidableEq

/-- `_validateBinding`. -/
def validateBinding (b : ProposalBinding) : Except String Unit := do
  bytes b.model_binding 32 "model_binding"
  bytes b.tokenizer_binding 32 "tokenizer_binding"
  bytes b.committed_prefix_fingerprint 32 "committed_prefix_fingerprint"
  bytes b.request_nonce 16 "request_nonce"
  bytes b.round_id 16 "round_id"
  integer b.committed_prefix_length 1 UINT64_MAX "committed prefix length"
  integer b.target_position 1 UINT64_MAX "target position"
  integer b.current_token 0 INT32_MAX "current token"
  integer b.window_origin 0 (b.committed_prefix_length - 1) "window origin"
  integer (b.committed_prefix_length - b.window_origin) 1 MAX_WINDOW_TOKENS "committed context window length"

/-- The binding can be constructed. -/
structure ProposalBinding.Valid (b : ProposalBinding) : Prop where
  model : b.model_binding.length = 32 ∧ nonzero b.model_binding
  tokenizer : b.tokenizer_binding.length = 32 ∧ nonzero b.tokenizer_binding
  fingerprint : b.committed_prefix_fingerprint.length = 32 ∧ nonzero b.committed_prefix_fingerprint
  nonce : b.request_nonce.length = 16 ∧ nonzero b.request_nonce
  round : b.round_id.length = 16 ∧ nonzero b.round_id
  prefix_length : 1 ≤ b.committed_prefix_length ∧ b.committed_prefix_length ≤ UINT64_MAX
  position : 1 ≤ b.target_position ∧ b.target_position ≤ UINT64_MAX
  token : 0 ≤ b.current_token ∧ b.current_token ≤ INT32_MAX
  origin : 0 ≤ b.window_origin ∧ b.window_origin ≤ b.committed_prefix_length - 1
  window : 1 ≤ b.committed_prefix_length - b.window_origin ∧
    b.committed_prefix_length - b.window_origin ≤ MAX_WINDOW_TOKENS

theorem validateBinding_ok {b : ProposalBinding} : validateBinding b = .ok () ↔ b.Valid := by
  unfold validateBinding bytes integer
  simp only [bind_eq_ok, require_eq_ok, exists_and_left, exists_const]
  constructor
  · rintro ⟨h1, h2, h3, h4, h5, h6, h7, h8, h9, h10⟩
    exact ⟨h1, h2, h3, h4, h5, h6, h7, h8, h9, h10⟩
  · rintro ⟨h1, h2, h3, h4, h5, h6, h7, h8, h9, h10⟩
    exact ⟨h1, h2, h3, h4, h5, h6, h7, h8, h9, h10⟩

instance (b : ProposalBinding) : Decidable b.Valid := decidable_of_iff _ validateBinding_ok

/-- `_ids`. The refusal of every id is the same. -/
def checkIds (ids : List ℤ) (limit : ℤ) : Except String Unit := do
  require (1 ≤ ids.length ∧ ids.length ≤ MAX_IDS) "proposal requires one to three immutable int32 IDs"
  require (∀ token ∈ ids, 0 ≤ token ∧ token ≤ limit - 1) "proposal token ID is outside the bounded integer contract"

theorem checkIds_ok {ids : List ℤ} {limit : ℤ} : checkIds ids limit = .ok () ↔
    (1 ≤ ids.length ∧ ids.length ≤ MAX_IDS) ∧ ∀ id ∈ ids, 0 ≤ id ∧ id ≤ limit - 1 := by
  unfold checkIds
  simp only [bind_eq_ok, require_eq_ok, exists_and_left, exists_const]

structure Proposal where
  binding : ProposalBinding
  ids : List ℤ
  key_id : Bytes

/-- The fields of the header. -/
def header (b : ProposalBinding) (count : ℕ) (key_id : Bytes) : List Bytes :=
  [MAGIC, le 4 VERSION, le 4 count, key_id, b.model_binding, b.tokenizer_binding, b.request_nonce, b.round_id,
    b.committed_prefix_fingerprint, le 8 b.committed_prefix_length.toNat, le 8 b.target_position.toNat,
    le 4 b.current_token.toNat, le 8 b.window_origin.toNat,
    le 4 (b.committed_prefix_length - b.window_origin).toNat]

/-- The header and the ids. -/
def frame (b : ProposalBinding) (ids : List ℤ) (key_id : Bytes) : Bytes :=
  (header b ids.length key_id).flatten ++ (ids.map fun id => le 4 id.toNat).flatten

def encodeProposal (h : Hmac) (b : ProposalBinding) (ids : List ℤ) (key_id integrity_key : Bytes) :
    Except String Bytes := do
  validateBinding b
  checkIds ids (INT32_MAX + 1)
  bytes key_id 16 "integrity key ID"
  bytes integrity_key 32 "integrity key"
  pure (frame b ids key_id ++ h.digest integrity_key (frame b ids key_id))

/-- `struct.iter_unpack("<i", …)`, of whole words. -/
def unpackIds (count : ℕ) (payload : Bytes) : List ℤ :=
  (cut (List.replicate count 4) payload).map fun word => signed 4 (value word)

def decodeProposal (h : Hmac) (packet : Bytes) (trusted_keys : Bytes → Option Bytes) (token_id_limit : ℤ) :
    Except String Proposal := do
  integer token_id_limit 1 (INT32_MAX + 1) "token ID limit"
  require (MIN_PACKET_BYTES ≤ packet.length ∧ packet.length ≤ MAX_PACKET_BYTES) "malformed bounded proposal frame"
  match cut HEADER packet with
  | [magic, version, count, key_id, model, tokenizer, nonce, round_id, fingerprint, prefix_length, position, token,
      origin, window_count] =>
    let count := value count
    require (magic = MAGIC ∧ value version = VERSION ∧ 1 ≤ count ∧ count ≤ MAX_IDS)
      "proposal header/count differs from contract"
    require (packet.length = HEADER_BYTES + count * 4 + DIGEST_BYTES) "proposal frame length differs from count"
    let key ← orThrow (trusted_keys key_id) "unknown integrity key ID"
    bytes key_id 16 "integrity key ID"
    bytes key 32 "trusted integrity key"
    require (h.digest key (packet.take (packet.length - DIGEST_BYTES)) =
      packet.drop (packet.length - DIGEST_BYTES)) "proposal integrity mismatch"
    let b : ProposalBinding := ⟨model, tokenizer, nonce, round_id, fingerprint, value prefix_length, value position,
      signed 4 (value token), value origin⟩
    validateBinding b
    require ((value window_count : ℤ) = value prefix_length - value origin)
      "proposal window count differs from committed binding"
    let ids := unpackIds count (packet.drop HEADER_BYTES)
    checkIds ids token_id_limit
    pure ⟨b, ids, key_id⟩
  | _ => throw "malformed bounded proposal frame"

/-! ## Round trips -/

variable {h : Hmac} {b : ProposalBinding} {ids : List ℤ} {key_id key : Bytes}

variable {packet : Bytes}

theorem encodeProposal_ok : encodeProposal h b ids key_id key = .ok packet ↔
    b.Valid ∧ checkIds ids (INT32_MAX + 1) = .ok () ∧ (key_id.length = 16 ∧ nonzero key_id) ∧
      (key.length = 32 ∧ nonzero key) ∧ frame b ids key_id ++ h.digest key (frame b ids key_id) = packet := by
  unfold encodeProposal bytes
  simp only [bind_eq_ok, require_eq_ok, exists_and_left, exists_const, pure_eq_ok]
  constructor
  · rintro ⟨⟨⟩, h1, ⟨⟩, h2, h3, h4, h5⟩
    exact ⟨validateBinding_ok.1 h1, h2, h3, h4, h5⟩
  · rintro ⟨h1, h2, h3, h4, h5⟩
    exact ⟨(), validateBinding_ok.2 h1, (), h2, h3, h4, h5⟩

/-- The widths of a header. -/
theorem header_widths (hb : b.Valid) (count : ℕ) (hk : key_id.length = 16) :
    (header b count key_id).map List.length = HEADER := by
  simp [header, HEADER, hb.model.1, hb.tokenizer.1, hb.fingerprint.1, hb.nonce.1, hb.round.1, hk, MAGIC]

theorem length_header (hb : b.Valid) (count : ℕ) (hk : key_id.length = 16) :
    (header b count key_id).flatten.length = HEADER_BYTES := by
  rw [length_flatten, header_widths hb count hk]
  rfl

theorem length_words (ids : List ℤ) : (ids.map fun id => le 4 id.toNat).flatten.length = ids.length * 4 := by
  rw [length_flatten, map_map]
  induction ids with
  | nil => rfl
  | cons id ids ih =>
    rw [map_cons, sum_cons, ih, Function.comp, length_le, length_cons]
    omega

/-- An id that is packed is read back. -/
theorem signed_le {z : ℤ} (h0 : 0 ≤ z) (hz : z ≤ INT32_MAX) : signed 4 (value (le 4 z.toNat)) = z := by
  have hn : z.toNat < 2 ^ 31 := by
    unfold INT32_MAX at hz
    omega
  rw [value_le (by omega), signed_of_lt (by omega)]
  omega

theorem unpackIds_words (hids : ∀ id ∈ ids, 0 ≤ id ∧ id ≤ INT32_MAX) (rest : Bytes) :
    unpackIds ids.length ((ids.map fun id => le 4 id.toNat).flatten ++ rest) = ids := by
  have hw : List.replicate ids.length 4 = (ids.map fun id => le 4 id.toNat).map List.length := by
    rw [map_map]
    exact (eq_replicate_iff.2 ⟨by simp, by simp⟩).symm
  unfold unpackIds
  rw [hw, cut_flatten, map_map]
  conv => rhs; rw [← map_id ids]
  refine map_congr_left fun id hid => ?_
  exact signed_le (hids id hid).1 (hids id hid).2

/-- The words that ids were read from. -/
theorem words_unpackIds {count : ℕ} {payload : Bytes} (hl : count * 4 ≤ payload.length)
    (h0 : ∀ id ∈ unpackIds count payload, 0 ≤ id) :
    ((unpackIds count payload).map fun id => le 4 id.toNat).flatten ++ payload.drop (count * 4) = payload := by
  have hsum : (List.replicate count 4).sum = count * 4 := by simp
  have hle : (List.replicate count 4).sum ≤ payload.length := hsum.symm ▸ hl
  have hcut := flatten_cut hle
  have hwidths := map_length_cut hle
  have hwords : (unpackIds count payload).map (fun id => le 4 id.toNat) = cut (List.replicate count 4) payload := by
    unfold unpackIds at h0 ⊢
    rw [map_map]
    conv => rhs; rw [← map_id (cut (List.replicate count 4) payload)]
    refine map_congr_left fun word hword => ?_
    have hlen : word.length = 4 := by
      have hmem := mem_map_of_mem (f := List.length) hword
      rw [hwidths] at hmem
      exact eq_of_mem_replicate hmem
    have hlt : value word < 256 ^ 4 := hlen ▸ value_lt word
    obtain ⟨-, hval⟩ := lt_of_signed hlt (h0 _ (mem_map_of_mem hword))
    change le 4 (signed 4 (value word)).toNat = word
    rw [hval, Int.toNat_natCast]
    conv => rhs; rw [← le_value word, hlen]
  rw [hwords, ← hsum]
  exact hcut

/-- A packet whose key the caller trusts. -/
structure Trusted (h : Hmac) (trusted_keys : Bytes → Option Bytes) (p : Proposal) (packet : Bytes) : Prop where
  valid : p.binding.Valid
  ids : checkIds p.ids (INT32_MAX + 1) = .ok ()
  key_id : p.key_id.length = 16 ∧ nonzero p.key_id
  encoded : ∃ key, trusted_keys p.key_id = some key ∧ (key.length = 32 ∧ nonzero key) ∧
    packet = frame p.binding p.ids p.key_id ++ h.digest key (frame p.binding p.ids p.key_id)

theorem length_frame (hb : b.Valid) (hk : key_id.length = 16) :
    (frame b ids key_id).length = HEADER_BYTES + ids.length * 4 := by
  rw [frame, length_append, length_header hb _ hk, length_words]

theorem cut_header (hl : HEADER.sum ≤ packet.length) :
    ∃ magic version count key_id model tokenizer nonce round_id fingerprint prefix_length position token origin
      window_count, cut HEADER packet = [magic, version, count, key_id, model, tokenizer, nonce, round_id, fingerprint,
        prefix_length, position, token, origin, window_count] ∧
      [magic, version, count, key_id, model, tokenizer, nonce, round_id, fingerprint, prefix_length, position, token,
        origin, window_count].map List.length = HEADER := by
  have hw := map_length_cut hl
  generalize cut HEADER packet = fields at hw
  have hlen : fields.length = 14 := by
    have := congrArg List.length hw
    rwa [length_map] at this
  match fields, hlen with
  | [f0, f1, f2, f3, f4, f5, f6, f7, f8, f9, f10, f11, f12, f13], _ =>
    exact ⟨f0, f1, f2, f3, f4, f5, f6, f7, f8, f9, f10, f11, f12, f13, rfl, hw⟩

/-- A word that is read is the word that is packed. -/
theorem le_of_value {word : Bytes} {k n : ℕ} (hl : word.length = k) (hv : value word = n) : le k n = word := by
  rw [← hv, ← hl, le_value]

theorem split_at {front tail : Bytes} {n : ℕ} (hp : front ++ tail = packet) (hl : front.length = n) :
    packet.take n = front ∧ packet.drop n = tail := by
  subst hp
  exact ⟨take_left' hl, drop_left' hl⟩

/-- A packet with the fields of a binding and ids without a sign begins with their frame. -/
theorem frame_of_fields {count : ℕ} (hl : HEADER_BYTES + count * 4 ≤ packet.length)
    (hh : cut HEADER packet = header b count key_id) (h0 : ∀ id ∈ unpackIds count (packet.drop HEADER_BYTES), 0 ≤ id) :
    frame b (unpackIds count (packet.drop HEADER_BYTES)) key_id ++ packet.drop (HEADER_BYTES + count * 4) = packet := by
  have hlength : (unpackIds count (packet.drop HEADER_BYTES)).length = count := by
    rw [unpackIds, length_map, length_cut, length_replicate]
  have hrest : count * 4 ≤ (packet.drop HEADER_BYTES).length := by
    rw [length_drop]
    omega
  have hwords := words_unpackIds hrest h0
  rw [drop_drop] at hwords
  rw [frame, hlength, ← hh, append_assoc, hwords]
  have hle : HEADER.sum ≤ packet.length := Nat.le_trans (Nat.le_add_right _ _) hl
  exact flatten_cut hle

/-- What is accepted is the encoding of what is returned, under a trusted key. -/
theorem trusted_of_decode {trusted_keys : Bytes → Option Bytes} {limit : ℤ} {p : Proposal}
    (hd : decodeProposal h packet trusted_keys limit = .ok p) :
    Trusted h trusted_keys p packet ∧ checkIds p.ids limit = .ok () ∧ 1 ≤ limit ∧ limit ≤ INT32_MAX + 1 := by
  unfold decodeProposal bytes integer at hd
  rw [bind_eq_ok] at hd
  obtain ⟨⟨⟩, hlimit, hd⟩ := hd
  rw [bind_eq_ok] at hd
  obtain ⟨⟨⟩, hlen, hd⟩ := hd
  rw [require_eq_ok] at hlimit hlen
  have hmin : HEADER.sum ≤ packet.length := Nat.le_trans (by decide) hlen.1
  obtain ⟨magic, version, count, key_id, model, tokenizer, nonce, round_id, fingerprint, prefix_length, position, token,
    origin, window_count, hcut, hw⟩ := cut_header hmin
  rw [hcut] at hd
  simp only [bind_eq_ok, require_eq_ok, orThrow_eq_ok, pure_eq_ok, exists_and_left, exists_const] at hd
  obtain ⟨⟨hmagic, hversion, -, hcount⟩, htotal, key, htrust, hkid, hkey, hdigest, ⟨⟩, hvalid, hwindow, ⟨⟩, hids,
    rfl⟩ :=
    hd
  have hvalid := validateBinding_ok.1 hvalid
  simp only [map_cons, map_nil, HEADER, List.cons.injEq, and_true] at hw
  obtain ⟨-, hl1, hl2, -, -, -, -, -, -, hl9, hl10, hl11, hl12, hl13⟩ := hw
  obtain ⟨-, hrange⟩ := checkIds_ok.1 hids
  set ids := unpackIds (value count) (packet.drop HEADER_BYTES) with hunpack
  have hlength : ids.length = value count := by
    rw [hunpack, unpackIds, length_map, length_cut, length_replicate]
  -- Every field of the header is the one that is packed again.
  have htoken := lt_of_signed (hl11 ▸ value_lt token) hvalid.token.1
  have hheader : header ⟨model, tokenizer, nonce, round_id, fingerprint, value prefix_length, value position,
      signed 4 (value token), value origin⟩ ids.length key_id = cut HEADER packet := by
    rw [hcut, header, hmagic, le_of_value hl1 hversion, hlength, le_of_value hl2 rfl]
    rw [Int.toNat_natCast, Int.toNat_natCast, Int.toNat_natCast, htoken.2, Int.toNat_natCast, ← hwindow,
      Int.toNat_natCast, le_of_value hl9 rfl, le_of_value hl10 rfl, le_of_value hl11 rfl, le_of_value hl12 rfl,
      le_of_value hl13 rfl]
  have hcut' : cut HEADER packet = header ⟨model, tokenizer, nonce, round_id, fingerprint, value prefix_length,
      value position, signed 4 (value token), value origin⟩ (value count) key_id := hlength ▸ hheader.symm
  have hpacket := frame_of_fields (by omega) hcut' fun id hid => (hrange id hid).1
  have hsplit := split_at hpacket (n := packet.length - DIGEST_BYTES) (by
    rw [length_frame hvalid hkid.1, hlength]
    omega)
  refine ⟨⟨hvalid, checkIds_ok.2 ⟨(checkIds_ok.1 hids).1, fun id hid => ?_⟩, hkid, key, htrust, hkey, ?_⟩, hids, hlimit⟩
  · obtain ⟨h0, hle⟩ := hrange id hid
    have := hlimit.2
    exact ⟨h0, by omega⟩
  · rw [hsplit.1, hsplit.2] at hdigest
    rw [hdigest]
    exact hpacket.symm

/-- The encoding under a trusted key is accepted, and gives back what was encoded. -/
theorem decode_of_trusted {trusted_keys : Bytes → Option Bytes} {limit : ℤ} {p : Proposal}
    (ht : Trusted h trusted_keys p packet) (hids : checkIds p.ids limit = .ok ()) (h1 : 1 ≤ limit)
    (h2 : limit ≤ INT32_MAX + 1) : decodeProposal h packet trusted_keys limit = .ok p := by
  obtain ⟨hvalid, hall, hkid, key, htrust, hkey, hpacket⟩ := ht
  obtain ⟨⟨hmin, hmax⟩, hrange⟩ := checkIds_ok.1 hall
  have hlen : packet.length = HEADER_BYTES + p.ids.length * 4 + DIGEST_BYTES := by
    rw [hpacket, length_append, length_frame hvalid hkid.1, h.length_digest]
  have hsplit := split_at (n := packet.length - DIGEST_BYTES) hpacket.symm (by
    rw [length_frame hvalid hkid.1]
    omega)
  have hfields : (header p.binding p.ids.length p.key_id).flatten ++ ((p.ids.map fun id => le 4 id.toNat).flatten ++
      h.digest key (frame p.binding p.ids p.key_id)) = packet := by
    rw [← append_assoc]
    exact hpacket.symm
  have hheader := split_at hfields (length_header hvalid p.ids.length hkid.1)
  have hcut : cut HEADER packet = header p.binding p.ids.length p.key_id := by
    rw [← header_widths hvalid p.ids.length hkid.1, ← hfields, cut_flatten]
  have hunpack : unpackIds p.ids.length (packet.drop HEADER_BYTES) = p.ids := by
    rw [hheader.2]
    refine unpackIds_words (fun id hid => ?_) _
    obtain ⟨h0, hle⟩ := hrange id hid
    exact ⟨h0, by omega⟩
  have hword : ∀ {z : ℤ}, 0 ≤ z → z ≤ UINT64_MAX → (value (le 8 z.toNat) : ℤ) = z := by
    intro z h0 hz
    unfold UINT64_MAX at hz
    rw [value_le (by omega)]
    omega
  have hmaxids : MAX_IDS = 3 := rfl
  have hcount : value (le 4 p.ids.length) = p.ids.length := value_le (by omega)
  have hlengths : MIN_PACKET_BYTES ≤ packet.length ∧ packet.length ≤ MAX_PACKET_BYTES := by
    unfold MIN_PACKET_BYTES MAX_PACKET_BYTES
    omega
  have hp1 := hvalid.prefix_length
  have ho1 := hvalid.origin
  have hw1 := hvalid.window
  have hprefix := hword (by omega) hp1.2
  have hposition := hword (by have := hvalid.position; omega) hvalid.position.2
  have horigin := hword ho1.1 (by omega)
  have hwindow : (value (le 4 (p.binding.committed_prefix_length - p.binding.window_origin).toNat) : ℤ) =
      p.binding.committed_prefix_length - p.binding.window_origin := by
    unfold MAX_WINDOW_TOKENS at hw1
    rw [value_le (by omega)]
    omega
  have hbinding : (⟨p.binding.model_binding, p.binding.tokenizer_binding, p.binding.request_nonce, p.binding.round_id,
      p.binding.committed_prefix_fingerprint, p.binding.committed_prefix_length, p.binding.target_position,
      p.binding.current_token, p.binding.window_origin⟩ : ProposalBinding) = p.binding := rfl
  unfold decodeProposal bytes integer
  rw [hcut, header]
  simp only [bind_eq_ok, require_eq_ok, orThrow_eq_ok, pure_eq_ok, exists_and_left, exists_const, hcount, hprefix,
    hposition, horigin, hwindow, signed_le hvalid.token.1 hvalid.token.2, hunpack, hbinding, hsplit.1, hsplit.2]
  exact ⟨⟨h1, h2⟩, hlengths, ⟨trivial, rfl, hmin, hmax⟩, hlen, key, htrust, hkid, hkey, rfl, (),
    validateBinding_ok.2 hvalid, trivial, (), hids, trivial⟩

end StrixAlloy.Pld

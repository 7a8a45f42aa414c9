import Mathlib.Tactic.Linarith
import StrixAlloy.Lib.Checked
import StrixAlloy.MobileRelay.Relay

/-!
# The reader accepts what the writer publishes

Every string that is published consists of plain characters (`Plain`), so its bytes are its characters
and the sizes of the texts add up (`size`): 128 sessions of 32 peers fit the reader's limit. The decoder
inverts the writer's objects, and the writer's checks imply the reader's.
-/

namespace StrixAlloy.MobileRelay

open List

/-! ## Sizes -/

/-- The number of bytes of a text. -/
def size (cs : List Char) : ℕ := (utf8 cs).length

@[simp]
theorem size_nil : size [] = 0 := rfl

@[simp]
theorem size_cons (c : Char) (cs : List Char) : size (c :: cs) = (String.utf8EncodeChar c).length + size cs :=
  length_append

@[simp]
theorem size_append (cs ds : List Char) : size (cs ++ ds) = size cs + size ds := by
  unfold size utf8
  rw [flatMap_append, length_append]

theorem encode_ascii {c : Char} (h : c.toNat < 128) : String.utf8EncodeChar c = [UInt8.ofNat c.toNat] :=
  if_pos (Nat.le_of_lt_succ h)

theorem utf8_ascii {cs : List Char} (h : ∀ c ∈ cs, c.toNat < 128) :
    utf8 cs = cs.map fun c => UInt8.ofNat c.toNat := by
  induction cs with
  | nil => rfl
  | cons c cs ih =>
    have hrest := ih (fun d hd => h d (mem_cons_of_mem _ hd))
    show String.utf8EncodeChar c ++ utf8 cs = _
    rw [encode_ascii (h c mem_cons_self), hrest]
    rfl

theorem size_ascii {cs : List Char} (h : ∀ c ∈ cs, c.toNat < 128) : size cs = cs.length := by
  rw [size, utf8_ascii h, length_map]

/-- The characters of the strings that are published: no colon, and nothing that is escaped. -/
def plain (c : Char) : Bool := 33 ≤ c.toNat && c.toNat ≤ 126 && c ≠ '"' && c ≠ '\\' && c ≠ ':'

def Plain (s : String) : Prop := ∀ c ∈ s.toList, plain c

theorem plain_range {c : Char} (h : plain c) : 33 ≤ c.toNat ∧ c.toNat ≤ 126 ∧ c ≠ '"' ∧ c ≠ '\\' ∧ c ≠ ':' := by
  simp only [plain, Bool.and_eq_true, decide_eq_true_eq] at h
  exact ⟨h.1.1.1.1, h.1.1.1.2, h.1.1.2, h.1.2, h.2⟩

theorem size_plain {s : String} (h : Plain s) : size s.toList = s.toList.length := by
  apply size_ascii
  intro c hc
  have hrange := plain_range (h c hc)
  omega

theorem escapeChar_plain {c : Char} (h : plain c) : Json.escapeChar c = [c] := by
  obtain ⟨hlow, -, hquote, hslash, -⟩ := plain_range h
  have hcontrol : ∀ d : Char, d.toNat < 33 → c ≠ d := by
    rintro d hd rfl
    omega
  unfold Json.escapeChar
  rw [if_neg hquote, if_neg hslash, if_neg (hcontrol _ (by decide)), if_neg (hcontrol _ (by decide)),
    if_neg (hcontrol _ (by decide)), if_neg (hcontrol _ (by decide)), if_neg (hcontrol _ (by decide)),
    if_neg (by omega)]

theorem size_quote {s : String} (h : Plain s) : size (Json.quote s) = s.toList.length + 2 := by
  have hbody : s.toList.flatMap Json.escapeChar = s.toList := by
    calc s.toList.flatMap Json.escapeChar = s.toList.flatMap fun c => [c] := by
          apply flatMap_congr
          intro c hc
          exact escapeChar_plain (h c hc)
      _ = s.toList := flatMap_singleton' _
  have hone : (String.utf8EncodeChar '"').length = 1 := by decide
  rw [Json.quote, hbody, size_cons, size_append, size_plain h, size_cons, size_nil, hone]
  omega

/-- The size of a list of values of at most `n` bytes. -/
theorem size_items {n : ℕ} : ∀ {items : List Json}, (∀ v ∈ items, size v.text ≤ n) →
    size (Json.itemsText items) ≤ 1 + items.length * (n + 1)
  | [], _ => by
    have hone : (String.utf8EncodeChar ']').length = 1 := by decide
    rw [Json.itemsText, size_cons, size_nil, hone]
    omega
  | v :: vs, h => by
    have hone : (String.utf8EncodeChar ',').length = 1 := by decide
    have hv := h v mem_cons_self
    have hvs := size_items (fun w hw => h w (mem_cons_of_mem _ hw))
    have hlen : (v :: vs).length * (n + 1) = vs.length * (n + 1) + (n + 1) := by
      rw [length_cons, Nat.add_mul, Nat.one_mul]
    rw [Json.itemsText, size_cons, size_append, hone, hlen]
    omega

theorem size_list {n : ℕ} {items : List Json} (h : ∀ v ∈ items, size v.text ≤ n) :
    size (Json.list items).text ≤ 2 + items.length * (n + 1) := by
  have hone : (String.utf8EncodeChar '[').length = 1 := by decide
  cases items with
  | nil =>
    have htwo : size (Json.list []).text = 2 := by decide
    omega
  | cons v vs =>
    have hv := h v mem_cons_self
    have hvs := size_items (fun w hw => h w (mem_cons_of_mem _ hw))
    have hlen : (v :: vs).length * (n + 1) = vs.length * (n + 1) + (n + 1) := by
      rw [length_cons, Nat.add_mul, Nat.one_mul]
    rw [Json.text, size_cons, size_append, hone, hlen]
    omega

/-! ## The strings -/

theorem isDigit_range {c : Char} (h : isDigit c) : 48 ≤ c.toNat ∧ c.toNat ≤ 57 := by
  simpa only [isDigit, Bool.and_eq_true, decide_eq_true_eq] using h

/-- A character in one of the ranges of digits and lower-case letters. -/
theorem plain_of_range {c : Char} (h : 48 ≤ c.toNat ∧ c.toNat ≤ 57 ∨ 97 ≤ c.toNat ∧ c.toNat ≤ 122) : plain c := by
  have hne : ∀ d : Char, d.toNat < 48 ∨ 57 < d.toNat ∧ d.toNat < 97 → c ≠ d := by
    rintro d hd rfl
    omega
  simp only [plain, Bool.and_eq_true, decide_eq_true_eq]
  exact ⟨⟨⟨⟨by omega, by omega⟩, hne _ (by decide)⟩, hne _ (by decide)⟩, hne _ (by decide)⟩

theorem plain_of_hex {c : Char} (h : isHex c) : plain c := by
  simp only [isHex, isDigit, Bool.or_eq_true, Bool.and_eq_true, decide_eq_true_eq] at h
  apply plain_of_range
  omega

theorem plain_hex {s : String} (h : s.toList.all isHex) : Plain s := by
  intro c hc
  exact plain_of_hex (all_eq_true.1 h c hc)

theorem plain_label {s : String} (h : isLabel s) : Plain s ∧ 0 < s.toList.length ∧ s.toList.length ≤ 63 := by
  simp only [isLabel, Bool.and_eq_true, decide_eq_true_eq] at h
  obtain ⟨⟨⟨hlen, hall⟩, hhead⟩, -⟩ := h
  refine ⟨fun c hc => ?_, ?_, hlen⟩
  · have hchar := all_eq_true.1 hall c hc
    simp only [Bool.or_eq_true, decide_eq_true_eq, isAlnum, isLower, isDigit, Bool.and_eq_true] at hchar
    rcases hchar with hchar | rfl
    · apply plain_of_range
      omega
    · decide
  · by_contra hzero
    have hnil : s.toList = [] := length_eq_zero_iff.1 (by omega)
    rw [hnil] at hhead
    cases hhead

theorem octet_eq_some {cs : List Char} {n : ℕ} (h : octet cs = some n) :
    (∀ c ∈ cs, isDigit c) ∧ cs.length ≤ 3 ∧ n ≤ 255 := by
  unfold octet at h
  split_ifs at h with hguard
  cases h
  exact ⟨all_eq_true.1 hguard.2.1, hguard.2.2.1, hguard.2.2.2.2⟩

/-- A dotted address has at most fifteen characters, digits and points, and its octets are bytes. -/
theorem dotted_plain {s : String} {octets : List ℕ} (h : dotted s = some octets) :
    Plain s ∧ s.toList.length ≤ 15 := by
  have hs : ['.'].intercalate (s.toList.splitOn '.') = s.toList := intercalate_splitOn '.'
  unfold dotted at h
  split at h
  case h_2 => cases h
  rename_i a b c d hmap
  have hparts := Checked.forall₂_of_mapM hmap
  generalize s.toList.splitOn '.' = parts at hs hparts
  cases hparts with | cons ha hparts =>
  cases hparts with | cons hb hparts =>
  cases hparts with | cons hc hparts =>
  cases hparts with | cons hd hparts =>
  cases hparts
  rename_i pa pb pc pd
  obtain ⟨hda, hla, -⟩ := octet_eq_some ha
  obtain ⟨hdb, hlb, -⟩ := octet_eq_some hb
  obtain ⟨hdc, hlc, -⟩ := octet_eq_some hc
  obtain ⟨hdd, hld, -⟩ := octet_eq_some hd
  have htext : s.toList = pa ++ '.' :: (pb ++ '.' :: (pc ++ '.' :: pd)) := by
    rw [← hs]
    simp [List.intercalate, List.intersperse]
  have hdigit : ∀ e : Char, isDigit e → plain e := by
    intro e he
    have hrange := isDigit_range he
    exact plain_of_range (.inl hrange)
  constructor
  · intro e he
    rw [htext] at he
    simp only [mem_append, mem_cons] at he
    rcases he with he | rfl | he | rfl | he | rfl | he
    · exact hdigit e (hda e he)
    · decide
    · exact hdigit e (hdb e he)
    · decide
    · exact hdigit e (hdc e he)
    · decide
    · exact hdigit e (hdd e he)
  · rw [htext]
    simp only [length_append, length_cons]
    omega

/-- What the writer's check of an address leaves. -/
theorem validIpv4_dotted {s : String} (h : validIpv4 s) :
    ∃ a b c d, dotted s = some [a, b, c, d] ∧ [a, b, c, d] ≠ [0, 0, 0, 0] ∧ a / 16 ≠ 14 := by
  unfold validIpv4 at h
  split at h
  case h_2 => cases h
  rename_i a b c d hdotted
  simp only [Bool.and_eq_true, decide_eq_true_eq, Bool.not_eq_true'] at h
  refine ⟨a, b, c, d, hdotted, h.1.1.1.1, ?_⟩
  have hrange : ¬ (224 ≤ a ∧ a ≤ 239) := by simpa using h.1.1.2
  omega

/-! ## The size of the file -/

theorem digit_lt {c : Char} (h : c.isDigit) : c.toNat < 128 := by
  have hle := (Char.isDigit_iff_toNat.1 h).2
  have hnine : '9'.toNat = 57 := rfl
  omega

theorem length_port {n : ℤ} (h : 1024 ≤ n ∧ n ≤ 65535) : (Nat.toDigits 10 n.natAbs).length ≤ 5 :=
  (Nat.length_toDigits_le_iff (by omega) (by omega)).2 (by omega)

theorem size_port {n : ℤ} (h : 1024 ≤ n ∧ n ≤ 65535) : size (Json.intText n) ≤ 5 := by
  obtain ⟨k, rfl⟩ := Int.eq_ofNat_of_zero_le (by omega : 0 ≤ n)
  have hascii : ∀ c ∈ Json.intText k, c.toNat < 128 := by
    intro c hc
    rcases Json.mem_intText hc with hdigit | rfl
    · exact digit_lt hdigit
    · decide
  rw [size_ascii hascii]
  exact length_port h

theorem size_float (f : FloatText) : size f.text = f.text.length := by
  apply size_ascii
  intro c hc
  rcases f.chars c hc with hdigit | hsign
  · exact digit_lt hdigit
  · simp only [mem_cons, not_mem_nil, or_false] at hsign
    rcases hsign with rfl | rfl | rfl | rfl <;> decide

/-- The characters between the parts of an object are one byte each. -/
theorem length_marks : (String.utf8EncodeChar '\x7b').length = 1 ∧ (String.utf8EncodeChar '\x7d').length = 1 ∧
    (String.utf8EncodeChar ':').length = 1 ∧ (String.utf8EncodeChar ',').length = 1 := by
  decide

theorem size_peer {p : Peer} (h : PeerOk p) : size (peerJson p).text ≤ 37 := by
  obtain ⟨a, b, c, d, hdotted, -⟩ := validIpv4_dotted h.ip
  obtain ⟨hplain, hlen⟩ := dotted_plain hdotted
  have hip := size_quote hplain
  have hport := size_port h.port
  have hkeys : size (Json.quote "ip") = 4 ∧ size (Json.quote "port") = 6 := by decide
  simp only [peerJson, Json.text, Json.membersText, size_cons, size_append, size_nil, hip, hkeys, length_marks]
  omega

section Agree

variable {F : Type} [LinearOrder F] {x : Float64 F} {lib : Library F} {now : F} {sessions : List (Session F)}

omit [LinearOrder F] in
theorem decodePeer_peerJson {p : Peer} (h : PeerOk p) : decodePeer lib (peerJson p) = some p := by
  have hport := h.port
  have hint : decodeInt 0 (.int p.port) = some p.port := if_pos (by omega)
  simp [decodePeer, peerJson, decodeStruct, decodeMembers, fieldOf, setPeer, decodeString, hint]

theorem isId_length {s : String} (h : isId s) : Plain s ∧ s.toList.length = 32 := by
  simp only [isId, Bool.and_eq_true, decide_eq_true_eq] at h
  exact ⟨plain_hex h.2, h.1⟩

theorem isHash_length {s : String} (h : isHash s) : Plain s ∧ s.toList.length = 64 := by
  simp only [isHash, Bool.and_eq_true, decide_eq_true_eq] at h
  exact ⟨plain_hex h.2, h.1⟩

theorem size_session {s : Session F} (h : SessionOk x now s) : size (sessionJson x s).text ≤ 1520 := by
  obtain ⟨hid, hidlen⟩ := isId_length h.id
  obtain ⟨hinst, -, hinstlen⟩ := plain_label h.instance_
  obtain ⟨hservice, hservicelen⟩ := isId_length h.service_id
  obtain ⟨hhash, hhashlen⟩ := isHash_length h.token_sha256
  have hfloat := x.repr_length s.expires_at
  have hpeers : size (Json.list (s.peers.map peerJson)).text ≤ 2 + (s.peers.map peerJson).length * (37 + 1) := by
    apply size_list
    intro v hv
    obtain ⟨p, hp, rfl⟩ := mem_map.1 hv
    exact size_peer (h.peers.2 p hp)
  rw [length_map] at hpeers
  have hcount := h.peers.1
  have hkeys : size (Json.quote "id") = 4 ∧ size (Json.quote "instance") = 10 ∧
      size (Json.quote "service_id") = 12 ∧ size (Json.quote "token_sha256") = 14 ∧
      size (Json.quote "expires_at") = 12 ∧ size (Json.quote "peers") = 7 := by decide +kernel
  simp only [sessionJson, Json.text, Json.membersText, size_cons, size_append, size_nil, size_quote hid,
    size_quote hinst, size_quote hservice, size_quote hhash, size_float, hkeys, length_marks]
  rw [hidlen, hservicelen, hhashlen]
  linarith

/-- A table that may be published fits the reader's limit. -/
theorem length_encoded (h : TableOk x now sessions) : (encoded x sessions).length ≤ 262144 := by
  have hlist : size (Json.list (sessions.map (sessionJson x))).text ≤
      2 + (sessions.map (sessionJson x)).length * (1520 + 1) := by
    apply size_list
    intro v hv
    obtain ⟨s, hs, rfl⟩ := mem_map.1 hv
    exact size_session (h.entries s hs)
  rw [length_map] at hlist
  have hcount := h.length
  have hkeys : size (Json.quote "version") = 9 ∧ size (Json.quote "sessions") = 10 ∧ size (Json.intText 1) = 1 := by
    decide +kernel
  show size (fileJson x sessions).text ≤ 262144
  simp only [fileJson, Json.text, Json.membersText, size_cons, size_append, size_nil, hkeys, length_marks]
  omega

/-! ## Decoding -/

theorem encodable_items {items : List Json} (h : ∀ v ∈ items, v.encodable) : Json.encodableItems items := by
  induction items with
  | nil => rfl
  | cons v vs ih =>
    rw [Json.encodableItems, Bool.and_eq_true]
    exact ⟨h v mem_cons_self, ih (fun w hw => h w (mem_cons_of_mem _ hw))⟩

theorem encodable_file (h : TableOk x now sessions) : (fileJson x sessions).encodable := by
  have hpeer : ∀ p, PeerOk p → (peerJson p).encodable := by
    intro p hp
    have hport := length_port hp.port
    simp only [peerJson, Json.encodable, Json.encodableMembers, Bool.and_true, Bool.true_and, decide_eq_true_eq]
    omega
  have hsession : ∀ v ∈ sessions.map (sessionJson x), v.encodable := by
    intro v hv
    obtain ⟨s, hs, rfl⟩ := mem_map.1 hv
    have hpeers : Json.encodableItems (s.peers.map peerJson) := encodable_items (fun w hw => by
      obtain ⟨p, hp, rfl⟩ := mem_map.1 hw
      exact hpeer p ((h.entries s hs).peers.2 p hp))
    simp only [sessionJson, Json.encodable, Json.encodableMembers, Bool.and_true, Bool.true_and]
    exact hpeers
  have hone : (Nat.toDigits 10 (1 : ℤ).natAbs).length ≤ 4300 := by decide
  simp only [fileJson, Json.encodable, Json.encodableMembers, Bool.and_true, encodable_items hsession, hone,
    decide_true]

theorem strict_items {depth : ℕ} {items : List Json} (h : ∀ v ∈ items, strictValue depth v) :
    strictItems depth items := by
  induction items with
  | nil => rfl
  | cons v vs ih =>
    rw [strictItems, Bool.and_eq_true]
    exact ⟨h v mem_cons_self, ih (fun w hw => h w (mem_cons_of_mem _ hw))⟩

/-- Six levels of nesting, without a key that occurs twice. -/
theorem strict_file (sessions : List (Session F)) : strictValue 0 (fileJson x sessions) := by
  have hpeer : ∀ p : Peer, strictValue 4 (peerJson p) := by
    intro p
    simp [peerJson, strictValue, strictMembers]
  have hpeers : ∀ ps : List Peer, strictItems 4 (ps.map peerJson) := by
    intro ps
    apply strict_items
    intro v hv
    obtain ⟨p, -, rfl⟩ := mem_map.1 hv
    exact hpeer p
  have hsession : ∀ s, strictValue 2 (sessionJson x s) := by
    intro s
    simp [sessionJson, strictValue, strictMembers, hpeers]
  have hsessions : strictItems 2 (sessions.map (sessionJson x)) := by
    apply strict_items
    intro v hv
    obtain ⟨s, -, rfl⟩ := mem_map.1 hv
    exact hsession s
  simp [fileJson, strictValue, strictMembers, hsessions]

theorem mapM_of_inverse {α : Type} {f : α → Json} {g : Json → Option α} {l : List α}
    (h : ∀ a ∈ l, g (f a) = some a) : (l.map f).mapM g = some l := by
  induction l with
  | nil => rfl
  | cons a l ih =>
    rw [map_cons, mapM_cons, h a mem_cons_self,
      ih (fun b hb => h b (mem_cons_of_mem _ hb))]
    rfl

theorem decodeSession_sessionJson {s : Session F} (h : SessionOk x now s) :
    decodeSession x lib (sessionJson x s) = some s := by
  have hpeers : decodeList (decodePeer lib) (.list (s.peers.map peerJson)) = some s.peers :=
    mapM_of_inverse (fun p hp => decodePeer_peerJson (h.peers.2 p hp))
  have hfloat : decodeFloat x lib x.zero (.float (x.repr s.expires_at)) = some s.expires_at :=
    x.parse_repr s.expires_at
  simp [decodeSession, sessionJson, decodeStruct, decodeMembers, fieldOf, setSession, emptySession, decodeString,
    hfloat, hpeers]

theorem decodeFile_fileJson (h : TableOk x now sessions) :
    decodeFile x lib (fileJson x sessions) = some { version := 1, sessions := sessions } := by
  have hsessions : decodeList (decodeSession x lib) (.list (sessions.map (sessionJson x))) = some sessions :=
    mapM_of_inverse (fun s hs => decodeSession_sessionJson (h.entries s hs))
  have hone : decodeInt 0 (.int 1) = some 1 := by decide
  simp [decodeFile, fileJson, decodeStruct, decodeMembers, fieldOf, setFile, hone, hsessions]

/-! ## The reader's checks -/

theorem validPart_plain {s : String} {max : ℕ} (h : Plain s) (hlen : 0 < s.toList.length ∧ s.toList.length ≤ max) :
    validPart (bytesOf s) max := by
  have hascii : ∀ c ∈ s.toList, c.toNat < 128 := by
    intro c hc
    have hrange := plain_range (h c hc)
    omega
  have hbytes : bytesOf s = s.toList.map fun c => UInt8.ofNat c.toNat := utf8_ascii hascii
  rw [validPart, hbytes, length_map]
  simp only [Bool.and_eq_true, decide_eq_true_eq, all_eq_true]
  refine ⟨hlen, fun b hb => ?_⟩
  obtain ⟨c, hc, rfl⟩ := mem_map.1 hb
  obtain ⟨hlow, hhigh, -, -, hcolon⟩ := plain_range (h c hc)
  have hnat : (UInt8.ofNat c.toNat).toNat = c.toNat := by
    rw [UInt8.toNat_ofNat']
    omega
  have hne : c.toNat ≠ 58 := by
    intro e
    exact hcolon (Char.toNat_inj.1 e)
  rw [hnat]
  exact ⟨⟨hlow, hhigh⟩, hne⟩

/-- Pairs of lower-case hexadecimal digits are decoded. -/
theorem hexDecode_hex : ∀ (n : ℕ) {cs : List Char}, cs.length = 2 * n → cs.all isHex →
    ∃ bs, hexDecode cs = some bs ∧ bs.length = n
  | 0, cs, hlen, _ => by
    rw [length_eq_zero_iff.1 hlen]
    exact ⟨[], rfl, rfl⟩
  | n + 1, cs, hlen, hall => by
    obtain ⟨a, b, cs, rfl⟩ : ∃ a b cs', cs = a :: b :: cs' := by
      match cs, hlen with
      | a :: b :: cs, _ => exact ⟨a, b, cs, rfl⟩
    have hdigit : ∀ c, isHex c → ∃ i, hexDigit c = some i := by
      intro c hc
      simp only [isHex, Bool.or_eq_true, Bool.and_eq_true, decide_eq_true_eq] at hc
      unfold hexDigit
      by_cases hd : isDigit c
      · exact ⟨_, if_pos hd⟩
      · rw [if_neg hd, if_pos (hc.resolve_left hd)]
        exact ⟨_, rfl⟩
    simp only [all_cons, Bool.and_eq_true] at hall
    obtain ⟨i, hi⟩ := hdigit a hall.1
    obtain ⟨j, hj⟩ := hdigit b hall.2.1
    have hlen' : cs.length = 2 * n := by
      simp only [length_cons] at hlen
      omega
    obtain ⟨bs, hbs, hn⟩ := hexDecode_hex n hlen' hall.2.2
    refine ⟨UInt8.ofNat (16 * i + j) :: bs, ?_, by rw [length_cons, hn]⟩
    simp only [hexDecode, hi, hj, hbs, Option.bind_some, Option.map_some]

omit [LinearOrder F] in
theorem peerOk_of_writer {p : Peer} (h : PeerOk p) : peerOk lib p := by
  obtain ⟨a, b, c, d, hdotted, hzero, hmulticast⟩ := validIpv4_dotted h.ip
  have hport := h.port
  have hto4 : to4 lib p.ip = some [a, b, c, d] := by rw [to4, hdotted]
  rw [peerOk, hto4]
  simp only [Bool.and_eq_true, decide_eq_true_eq, List.head?_cons, Option.all_some]
  exact ⟨⟨⟨hzero, hmulticast⟩, by omega⟩, by omega⟩

theorem sessionOk_of_writer {s : Session F} (h : SessionOk x now s) : sessionOk x lib now s := by
  obtain ⟨hid, hidlen⟩ := isId_length h.id
  obtain ⟨hinst, hinstpos, hinstlen⟩ := plain_label h.instance_
  obtain ⟨hservice, hservicelen⟩ := isId_length h.service_id
  obtain ⟨hash, hhash, hhashlen⟩ : ∃ bs, hexDecode s.token_sha256.toList = some bs ∧ bs.length = 32 := by
    have htoken := h.token_sha256
    simp only [isHash, Bool.and_eq_true, decide_eq_true_eq] at htoken
    exact hexDecode_hex 32 htoken.1 htoken.2
  have hexpiry : s.expires_at ≤ x.add now x.day := by
    calc s.expires_at ≤ x.add now x.hour := h.expires_at
      _ ≤ x.add now x.day := x.add_le_add le_rfl x.hour_le_day
  simp only [sessionOk, Bool.and_eq_true, decide_eq_true_eq, all_eq_true]
  refine ⟨⟨⟨⟨⟨⟨?_, ?_⟩, ?_⟩, ?_⟩, h.peers.1⟩, hexpiry⟩, fun p hp => peerOk_of_writer (h.peers.2 p hp)⟩
  · exact validPart_plain hid (by omega)
  · exact validPart_plain hinst (by omega)
  · exact validPart_plain hservice (by omega)
  · rw [hhash]
    simpa using hhashlen

/-- The reader takes a published table as it is. -/
theorem load_encoded (h : TableOk x now sessions) :
    load x lib (some (encoded x sessions)) now = some sessions := by
  have hparse : lib.parse (encoded x sessions) = some (fileJson x sessions) := lib.parse_text _ (encodable_file h)
  have hlen := length_encoded h
  have hall : sessions.all (sessionOk x lib now) := by
    rw [all_eq_true]
    exact fun s hs => sessionOk_of_writer (h.entries s hs)
  unfold load
  rw [Option.bind_some, if_neg (by omega), hparse, Option.bind_some, if_neg (by simp [strict_file]),
    decodeFile_fileJson h, Option.bind_some, if_neg]
  have hcount := h.length
  have hdistinct := h.distinct
  simp only [not_or, not_not]
  exact ⟨trivial, by omega, hall, hdistinct⟩

end Agree

end StrixAlloy.MobileRelay

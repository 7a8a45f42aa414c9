import StrixAlloy.Lib.JsonReader
import StrixAlloy.Lib.Search

/-!
# References

The reference that stands in the persona of a target: the JSON text of its identities between two tags
(`LocalLLMVoiceRuntimePolicy.reference`), and its decoder. Decoding gives back what was encoded, and accepts
nothing else. JSON is read by a reader of which no more is assumed than that it reads what was written; an
integral number is an `int`, however it was written.
-/

namespace StrixAlloy.PersonaRoute

open Search List Option

/-- The characters of a stored text. -/
abbrev Text := List Char

/-- `length`, in UTF-16 units. -/
def units (t : Text) : ℕ := (t.map fun c => if c.toNat < 65536 then 1 else 2).sum

/-- One character of `[0-9a-f]`. -/
def isHex (c : Char) : Bool := c.isDigit || ('a' ≤ c && c ≤ 'f')

/-- `_guid`'s expression. -/
def isGuid (s : String) : Bool := s.toList.length = 32 && s.toList.all isHex

/-- The stored reference of a mapping. -/
structure Reference where
  service_id : String
  source_config : String
  target_config : String
  context_profile : String

/-- What `_validateReference` asks of the identities. -/
def Reference.valid (r : Reference) : Bool :=
  isGuid r.service_id && isGuid r.source_config && isGuid r.target_config && isGuid r.context_profile &&
    r.source_config ≠ r.target_config

/-- The object that `reference` writes. -/
def Reference.json (r : Reference) : Json :=
  .dict [("version", .int 2), ("source", .str "native_voice_assistant"), ("service_id", .str r.service_id),
    ("source_config", .str r.source_config), ("target_config", .str r.target_config),
    ("context_profile", .str r.context_profile)]

/-- `OPEN` and `CLOSE`, each after its first bracket and without the line break. -/
def openName : Text := "!-- LocalLLM native Voice Assistant reference v2 -->".toList
def closeName : Text := "!-- /LocalLLM native Voice Assistant reference v2 -->".toList

/-- `OPEN` without the line break. -/
def openTag : Text := '<' :: openName
def closeTag : Text := '<' :: closeName
def opening : Text := openTag ++ ['\n']
/-- `CLOSE`, with the line break before it. -/
def closing : Text := '\n' :: closeTag

/-- `reference`, for identities that are valid. -/
def encode (r : Reference) : Text := opening ++ (r.json.text ++ closing)

/-- The sorted keys, joined. -/
def keysOf (members : List (String × Json)) : String :=
  ",".intercalate ((members.map Prod.fst).insertionSort (· ≤ ·))

/-- A member that is a string. -/
def strOf (members : List (String × Json)) (k : String) : Option String :=
  match Json.get? members k with
  | some (.str s) => some s
  | _ => none

/-- `_validateReference`. -/
def referenceOf (v : Json) : Option Reference :=
  match v with
  | .dict members =>
    if keysOf members = "context_profile,service_id,source,source_config,target_config,version" ∧
        Json.get? members "version" matches some (.int 2) ∧
        strOf members "source" = some "native_voice_assistant" then do
      let r : Reference := ⟨← strOf members "service_id", ← strOf members "source_config",
        ← strOf members "target_config", ← strOf members "context_profile"⟩
      if r.valid then some r else none
    else none
  | _ => none

/-- `substring`. -/
def substring (t : Text) (i j : ℕ) : Text := (t.drop (min i j)).take (max i j - min i j)

/-- `_decode`: nothing where it throws, and no reference in a text without any tag. -/
def decode (R : Json.Reader) (persona : Text) : Option (Option Reference) :=
  match indexOf opening persona, indexOf closing persona with
  | none, none => some none
  | some i, some j =>
    if 1000 < units persona ∨ i ≠ 0 ∨ lastIndexOf opening persona ≠ some i ∨
        lastIndexOf closing persona ≠ some j ∨ j + closing.length ≠ persona.length then none
    else do
      let v ← R.parse (substring persona opening.length j)
      let r ← referenceOf v
      if encode r = persona then some (some r) else none
  | _, _ => none

/-! ## The text of a reference -/

theorem escapeChar_of_isHex {c : Char} (h : isHex c) : Json.escapeChar c = [c] := by
  have hne : ∀ d : Char, isHex d = false → c ≠ d := by
    rintro d hd rfl
    rw [hd] at h
    cases h
  have hge : ¬c.toNat < 32 := by
    rw [isHex, Bool.or_eq_true, Bool.and_eq_true, decide_eq_true_eq, decide_eq_true_eq] at h
    rcases h with h | ⟨h, -⟩
    · have h48 : (48 : ℕ) ≤ c.toNat := (Char.isDigit_iff_toNat.1 h).1
      omega
    · have h97 : (97 : ℕ) ≤ c.toNat := h
      omega
  unfold Json.escapeChar
  rw [if_neg (hne _ (by decide)), if_neg (hne _ (by decide)), if_neg (hne _ (by decide)),
    if_neg (hne _ (by decide)), if_neg (hne _ (by decide)), if_neg (hne _ (by decide)),
    if_neg (hne _ (by decide)), if_neg hge]

/-- Nothing in an identifier is escaped. -/
theorem quote_of_isGuid {s : String} (h : isGuid s) : Json.quote s = '"' :: (s.toList ++ ['"']) := by
  have hall : ∀ c ∈ s.toList, isHex c := by
    unfold isGuid at h
    exact all_eq_true.1 (Bool.and_eq_true_iff.1 h).2
  have hmap : s.toList.flatMap Json.escapeChar = s.toList := by
    generalize s.toList = l at hall
    induction l with
    | nil => rfl
    | cons c l ih =>
      rw [flatMap_cons, escapeChar_of_isHex (hall c mem_cons_self),
        ih fun d hd => hall d (mem_cons_of_mem _ hd)]
      rfl
  rw [Json.quote, hmap]

/-- The text of a reference, in parts. -/
theorem text_json (r : Reference) : r.json.text =
    "\x7b\"version\":2,\"source\":\"native_voice_assistant\",\"service_id\":".toList ++
    (Json.quote r.service_id ++ (",\"source_config\":".toList ++ (Json.quote r.source_config ++
    (",\"target_config\":".toList ++ (Json.quote r.target_config ++ (",\"context_profile\":".toList ++
    (Json.quote r.context_profile ++ ['}']))))))) := by
  simp only [Reference.json, Json.text, Json.membersText]
  rfl

theorem guids_of_valid {r : Reference} (h : r.valid) : isGuid r.service_id ∧
    isGuid r.source_config ∧ isGuid r.target_config ∧ isGuid r.context_profile ∧
      r.source_config ≠ r.target_config := by
  simpa [Reference.valid, and_assoc] using h

/-- The characters of a reference. -/
def isPlain (c : Char) : Bool := c.isAlphanum || c ∈ ['\x7b', '\x7d', '"', ':', ',', '_']

/-- A character of neither kind is not in the text. -/
theorem not_mem_text {r : Reference} (h : r.valid) {c : Char} (hhex : isHex c = false)
    (hc : isPlain c = false) : c ∉ r.json.text := by
  have hquote : ∀ s : String, isGuid s → c ∉ Json.quote s := by
    intro s hs hmem
    have hall := all_eq_true.1 (Bool.and_eq_true_iff.1 (show (_ && _) = true from hs)).2
    rw [quote_of_isGuid hs, mem_cons, mem_append, mem_singleton] at hmem
    have hquot : c ≠ '"' := by
      rintro rfl
      exact absurd hc (by decide)
    rcases hmem with hmem | hmem | hmem
    · exact hquot hmem
    · rw [hall c hmem] at hhex
      cases hhex
    · exact hquot hmem
  have hpart : ∀ t : Text, t.all isPlain → c ∉ t := fun t ht hmem => by
    rw [all_eq_true.1 ht c hmem] at hc
    cases hc
  obtain ⟨h1, h2, h3, h4, -⟩ := guids_of_valid h
  rw [text_json]
  simp only [mem_append, not_or]
  exact ⟨hpart _ (by decide), hquote _ h1, hpart _ (by decide), hquote _ h2, hpart _ (by decide),
    hquote _ h3, hpart _ (by decide), hquote _ h4, hpart _ (by decide)⟩

/-- Every reference has a text of one length. -/
theorem length_text {r : Reference} (h : r.valid) : r.json.text.length = 250 := by
  have hquote : ∀ s : String, isGuid s → (Json.quote s).length = 34 := by
    intro s hs
    have hlen : s.toList.length = 32 := of_decide_eq_true (Bool.and_eq_true_iff.1 (show (_ && _) = true from hs)).1
    rw [quote_of_isGuid hs, length_cons, length_append, hlen]
    rfl
  obtain ⟨h1, h2, h3, h4, -⟩ := guids_of_valid h
  rw [text_json]
  simp only [length_append, hquote _ h1, hquote _ h2, hquote _ h3, hquote _ h4]
  rfl

/-- A character is at most two UTF-16 units. -/
theorem units_le (t : Text) : units t ≤ 2 * t.length := by
  unfold units
  induction t with
  | nil => exact Nat.zero_le _
  | cons c =>
    rw [map_cons, sum_cons, length_cons]
    have hc : (if c.toNat < 65536 then 1 else 2) ≤ 2 := by split <;> omega
    omega

/-! ## Encoding and decoding -/

theorem indexOf_opening (r : Reference) : indexOf opening (encode r) = some 0 :=
  indexOf_of_prefix (prefix_append opening _)

theorem length_opening : opening.length = openTag.length + 1 := length_append

theorem encode_eq (r : Reference) : encode r = openTag ++ '\n' :: (r.json.text ++ closing) := by
  rw [encode, opening, append_assoc]
  rfl

section Codec

variable {r : Reference} (h : r.valid)

include h

/-- The opening tag occurs once. -/
theorem lastIndexOf_opening : lastIndexOf opening (encode r) = some 0 := by
  refine lastIndexOf_of_prefix (prefix_append opening _) ?_
  -- the first character of a tag occurs in the closing tag only
  have hfree : '<' ∉ openName ++ ('\n' :: (r.json.text ++ ['\n'])) := by
    rw [mem_append, mem_cons, mem_append, not_or, not_or, not_or]
    exact ⟨by decide, by decide, not_mem_text h (by decide) (by decide), by decide⟩
  have happend := lastIndexOf_append (p := openName ++ ['\n']) hfree closeTag
  have hnone : lastIndexOf ('<' :: (openName ++ ['\n'])) closeTag = none := by decide
  rw [hnone, map_none] at happend
  have hsplit : openName ++ ['\n'] ++ (r.json.text ++ closing) =
      openName ++ ('\n' :: (r.json.text ++ ['\n'])) ++ closeTag := by
    simp only [closing, append_assoc, cons_append, nil_append]
  exact (congrArg _ hsplit).trans happend

/-- A search that skips what has no line break finds the closing tag behind the reference. -/
theorem search_closing (search : Text → Option ℕ)
    (hskip : ∀ cs t, '\n' ∉ cs → search (cs ++ t) = (search t).map (· + cs.length)) (hend : search closing = some 0)
    (hstep : ∀ k, search (r.json.text ++ closing) = some k → search ('\n' :: (r.json.text ++ closing)) = some (k + 1)) :
    search (encode r) = some (opening.length + r.json.text.length) := by
  have hbody : search (r.json.text ++ closing) = some r.json.text.length := by
    rw [hskip _ _ (not_mem_text h (by decide) (by decide)), hend, Option.map_some, Nat.zero_add]
  rw [encode_eq, length_opening, hskip _ _ (by decide), hstep _ hbody, Option.map_some]
  refine congrArg some ?_
  omega

theorem indexOf_closing : indexOf closing (encode r) = some (opening.length + r.json.text.length) := by
  refine search_closing h (indexOf closing) (fun _ t hcs => indexOf_append (p := closeTag) hcs t)
    (by decide) fun k hbody => ?_
  -- the line break of the opening tag does not begin the closing one
  have hno : ¬closing <+: '\n' :: (r.json.text ++ closing) := by
    rw [text_json]
    rintro ⟨u, hu⟩
    exact absurd (List.cons.inj (List.cons.inj hu).2).1 (by decide)
  rw [indexOf, if_neg hno, hbody]
  rfl

theorem lastIndexOf_closing : lastIndexOf closing (encode r) =
    some (opening.length + r.json.text.length) := by
  refine search_closing h (lastIndexOf closing) (fun _ t hcs => lastIndexOf_append (p := closeTag) hcs t)
    (by decide) fun k hbody => ?_
  rw [lastIndexOf, hbody]

/-- An encoded reference is within the limit. -/
theorem units_encode : units (encode r) ≤ 1000 := by
  have hlen : (encode r).length = opening.length + (250 + closing.length) := by
    rw [encode, length_append, length_append, length_text h]
  have htags : opening.length + closing.length = 109 := by decide
  have := units_le (encode r)
  omega

/-- The checks of a parsed reference give it back. -/
theorem referenceOf_json : referenceOf r.json = some r := by
  unfold referenceOf Reference.json
  have hkeys : keysOf [("version", .int 2), ("source", .str "native_voice_assistant"),
      ("service_id", .str r.service_id), ("source_config", .str r.source_config),
      ("target_config", .str r.target_config), ("context_profile", .str r.context_profile)] =
      "context_profile,service_id,source,source_config,target_config,version" := by
    unfold keysOf
    simp only [map_cons, map_nil]
    decide
  dsimp only
  rw [if_pos ⟨hkeys, rfl, rfl⟩]
  show (if r.valid then some r else none) = some r
  rw [if_pos h]

omit h in
theorem regular_json : r.json.regular := by
  simp [Reference.json, Json.regular, Json.regularMembers]

/-- What was encoded is decoded again. -/
theorem decode_encode (R : Json.Reader) : decode R (encode r) = some (some r) := by
  unfold decode
  rw [indexOf_opening, indexOf_closing h]
  have hsub : substring (encode r) opening.length (opening.length + r.json.text.length) = r.json.text := by
    unfold substring
    rw [Nat.min_eq_left (Nat.le_add_right _ _), Nat.max_eq_right (Nat.le_add_right _ _), encode,
      drop_left, Nat.add_sub_cancel_left, take_left]
  have hlen : (encode r).length = opening.length + r.json.text.length + closing.length := by
    rw [encode, length_append, length_append, Nat.add_assoc]
  dsimp only
  rw [if_neg, hsub, R.parse_text _ regular_json]
  · simp only [bind_eq_bind, bind_some, referenceOf_json h, if_true]
  rintro (hu | hl | hl | hl | hl)
  · exact absurd (units_encode h) (Nat.not_le_of_lt hu)
  · exact hl rfl
  · exact hl (lastIndexOf_opening h)
  · exact hl (lastIndexOf_closing h)
  · exact hl hlen.symm

end Codec

end StrixAlloy.PersonaRoute

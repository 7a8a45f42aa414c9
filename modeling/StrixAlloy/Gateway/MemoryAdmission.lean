import Mathlib.Data.Rat.Floor
import StrixAlloy.Lib.Checked
import StrixAlloy.Lib.Json

/-!
# Memory admission metadata

`request_admission_metadata` builds the metadata of an admission, `halogen_request_entry_guard` of the
controller is its producer, and `project_request_admission` of the gateway is the check of its two
consumers, the health response and the probe of it. `Coherent` is the contract between them: the reason
determines the policy, the flag and the required bytes, and fits the values. The projection accepts
exactly the coherent objects, and every outcome of the guard is one.
-/

namespace StrixAlloy.Gateway

open Checked List

/-- The reasons of an admission. All but the last three are members of `MEMORY_ADMISSION_REASONS`. -/
inductive Reason where
  | ready | physicalLow | commitLow | physicalAndCommitLow
  | telemetryUnavailable | telemetryInvalid | telemetryInconsistent | sampleStale
  | notRequired | processUnavailable | unknown
deriving DecidableEq

namespace Reason

def name : Reason → String
  | ready => "ready"
  | physicalLow => "physical_low"
  | commitLow => "commit_low"
  | physicalAndCommitLow => "physical_and_commit_low"
  | telemetryUnavailable => "telemetry_unavailable"
  | telemetryInvalid => "telemetry_invalid"
  | telemetryInconsistent => "telemetry_inconsistent"
  | sampleStale => "sample_stale"
  | notRequired => "not_required"
  | processUnavailable => "process_unavailable"
  | unknown => "unknown"

def all : List Reason :=
  [ready, physicalLow, commitLow, physicalAndCommitLow, telemetryUnavailable, telemetryInvalid,
    telemetryInconsistent, sampleStale, notRequired, processUnavailable, unknown]

/-- The reason of a name; every other text counts as `unknown`. -/
def ofName (s : String) : Reason := (all.find? fun r => r.name = s).getD unknown

/-- `reason in MEMORY_ADMISSION_REASONS`. -/
def memory (r : Reason) : Bool := r ∉ [notRequired, processUnavailable, unknown]

/-- The reasons that classify a reading. -/
def classifies (r : Reason) : Bool := r ∈ [ready, physicalLow, commitLow, physicalAndCommitLow]

@[simp]
theorem ofName_name (r : Reason) : ofName r.name = r := by cases r <;> decide

end Reason

/-- The values of `policy`. -/
inductive Policy where
  | unknown | halogenTwoSlotMemory | notRequired
deriving DecidableEq

def Policy.name : Policy → String
  | unknown => "unknown"
  | halogenTwoSlotMemory => "halogen_two_slot_memory"
  | notRequired => "not_required"

/-- `REQUEST_MEMORY_BYTES`. -/
def requestMemoryBytes : ℤ := 22 * 1024 ^ 3

/-- `ADMISSION_MAX_BYTES`. -/
def admissionMaxBytes : ℤ := 2 ^ 53 - 1

/-- `memory_admission_reason`. -/
def memoryAdmissionReason (available_bytes commit_headroom_bytes : ℤ) : Reason :=
  match decide (available_bytes < requestMemoryBytes), decide (commit_headroom_bytes < requestMemoryBytes) with
  | false, false => .ready
  | true, false => .physicalLow
  | false, true => .commitLow
  | true, true => .physicalAndCommitLow

/-- The metadata, whose `version` is 1. -/
structure Metadata where
  policy : Policy
  ready : Option Bool
  reason : Reason
  required_available_bytes : Option ℤ
  required_commit_headroom_bytes : Option ℤ
  available_bytes : Option ℤ
  commit_headroom_bytes : Option ℤ
  sample_age_ms : Option ℤ
deriving DecidableEq

/-- An integer or `None`. -/
def optInt : Option ℤ → Json
  | some n => .int n
  | none => .null

/-- A flag or `None`. -/
def optBool : Option Bool → Json
  | some b => .bool b
  | none => .null

/-- The members of the metadata as an object. -/
def Metadata.fields (m : Metadata) : List (String × Json) :=
  [("version", .int 1), ("policy", .str m.policy.name), ("ready", optBool m.ready), ("reason", .str m.reason.name),
    ("required_available_bytes", optInt m.required_available_bytes),
    ("required_commit_headroom_bytes", optInt m.required_commit_headroom_bytes),
    ("available_bytes", optInt m.available_bytes),
    ("commit_headroom_bytes", optInt m.commit_headroom_bytes),
    ("sample_age_ms", optInt m.sample_age_ms)]

/-- The keys of the metadata. -/
def metadataKeys : List String :=
  ["version", "policy", "ready", "reason", "required_available_bytes", "required_commit_headroom_bytes",
    "available_bytes", "commit_headroom_bytes", "sample_age_ms"]

def Metadata.toJson (m : Metadata) : Json := .dict m.fields

/-- `bounded_integer`. -/
def boundedInteger (value : Json) (maximum : ℤ) : Option ℤ :=
  match value with
  | .int n => if 0 ≤ n ∧ n ≤ maximum then some n else none
  | _ => none

/-- `request_admission_metadata`, for the reason of a name. -/
def requestAdmissionMetadata (reason : Reason) (available_bytes commit_headroom_bytes sample_age_ms : Json) :
    Metadata where
  policy := if reason.memory then .halogenTwoSlotMemory else if reason = .notRequired then .notRequired else .unknown
  ready := if reason.memory then some (reason = .ready) else none
  reason := reason
  required_available_bytes := if reason.memory then some requestMemoryBytes else none
  required_commit_headroom_bytes := if reason.memory then some requestMemoryBytes else none
  available_bytes := boundedInteger available_bytes admissionMaxBytes
  commit_headroom_bytes := boundedInteger commit_headroom_bytes admissionMaxBytes
  sample_age_ms := boundedInteger sample_age_ms 60000

/-- `request_admission_metadata()`. -/
def unknownMetadata : Metadata := requestAdmissionMetadata .unknown .null .null .null

/-- Two values are equal and of one type, for a value that is no collection and no float. -/
def same : Json → Json → Bool
  | .null, .null => true
  | .bool a, .bool b => a = b
  | .int a, .int b => a = b
  | .str a, .str b => a = b
  | _, _ => false

/-- The checks of `project_request_admission` on the reason and the values. -/
def Metadata.admits (m : Metadata) : Bool :=
  if m.reason.classifies then
    match m.available_bytes, m.commit_headroom_bytes, m.sample_age_ms with
    | some available, some commit, some age => age < 1000 && m.reason = memoryAdmissionReason available commit
    | _, _, _ => false
  else if m.available_bytes.isSome ∨ m.commit_headroom_bytes.isSome then false
  else if m.reason ∈ [.unknown, .notRequired, .processUnavailable] ∧ m.sample_age_ms.isSome then false
  else if m.reason = .sampleStale ∧ m.sample_age_ms.any (fun age => age < 1000) then false
  else !(m.reason ≠ .sampleStale && m.sample_age_ms.any fun age => 1000 ≤ age)

/-- `project_request_admission`. -/
def projectRequestAdmission (value : Json) : Metadata :=
  match value with
  | .dict members =>
    let get := fun key => (Json.get? members key).getD .null
    match get "reason" with
    | .str reason =>
      if members.map Prod.fst ⊆ metadataKeys ∧ metadataKeys ⊆ members.map Prod.fst ∧ same (get "version") (.int 1) then
        let projected := requestAdmissionMetadata (.ofName reason) (get "available_bytes")
          (get "commit_headroom_bytes") (get "sample_age_ms")
        if (projected.fields.all fun f => same (get f.1) f.2) && projected.admits then projected
        else unknownMetadata
      else unknownMetadata
    | _ => unknownMetadata
  | _ => unknownMetadata

/-! ## The producer and the consumers -/

/-- `RequestAdmissionError(admission).admission`. -/
def requestAdmissionError (admission : Metadata) : Metadata := projectRequestAdmission admission.toJson

/-- The age of the sample in milliseconds, where it is finite and at most a minute. -/
def ageMs (elapsed : Option ℚ) : Option ℤ :=
  (elapsed.filter fun e => 0 ≤ e ∧ e ≤ 60).map fun e => ⌊e * 1000⌋

/-- An integer of the snapshot within the bounds. -/
def snapshotField (snapshot : List (String × Json)) (key : String) : Option ℤ :=
  boundedInteger ((Json.get? snapshot key).getD .null) admissionMaxBytes

/-- The admission that `halogen_request_entry_guard` returns, or rejects with. `frame` is the snapshot
unless it raises, and `elapsed` the time that passed, unless it is not finite. -/
def entryAdmission (frame : Option Json) (elapsed : Option ℚ) : Except Metadata Metadata := do
  let reject := fun reason age => requestAdmissionMetadata reason .null .null age
  let snapshot ← orThrow frame (reject .telemetryUnavailable .null)
  let age_ms := optInt (ageMs elapsed)
  require (elapsed.any fun e => 0 ≤ e ∧ e < 1) (reject .sampleStale age_ms)
  let fields := match snapshot with
    | .dict members => members
    | _ => []
  let field := snapshotField fields
  match field "available_bytes", field "committed_bytes", field "commit_limit_bytes",
      field "commit_headroom_bytes" with
  | some available, some committed, some limit, some headroom =>
    require (committed ≤ limit ∧ headroom = limit - committed) (reject .telemetryInconsistent age_ms)
    let reason := memoryAdmissionReason available headroom
    let admission := requestAdmissionMetadata reason (.int available) (.int headroom) age_ms
    require (reason = .ready) admission
    return admission
  | _, _, _, _ => throw (reject .telemetryInvalid age_ms)

/-- `halogen_request_entry_guard`. -/
def halogenRequestEntryGuard (frame : Option Json) (elapsed : Option ℚ) : Except Metadata Metadata :=
  (entryAdmission frame elapsed).mapError requestAdmissionError

/-- The admission of an outcome, returned or rejected with. -/
def outcome : Except Metadata Metadata → Metadata
  | .ok admission => admission
  | .error admission => admission

/-- `Gateway.request_admission` with the guard installed. -/
def requestAdmission (frame : Option Json) (elapsed : Option ℚ) : Metadata :=
  projectRequestAdmission (outcome (halogenRequestEntryGuard frame elapsed)).toJson

/-- The members of the health response that carry an admission. -/
def healthMembers (admission : Metadata) : List (String × Json) :=
  [("request_admission_ready", optBool admission.ready), ("request_admission", admission.toJson)]

/-- The admission that `probe` reads from a health response. -/
def probeAdmission (health : List (String × Json)) : Metadata :=
  let get := fun key => (Json.get? health key).getD .null
  let admission := projectRequestAdmission (get "request_admission")
  if same (get "request_admission_ready") (optBool admission.ready) then admission else unknownMetadata

/-! ## The contract -/

/-- The contract of the metadata: it is what `request_admission_metadata` builds from its own reason and
values, and the values fit the reason. -/
structure Metadata.Coherent (m : Metadata) : Prop where
  built : requestAdmissionMetadata m.reason (optInt m.available_bytes) (optInt m.commit_headroom_bytes)
    (optInt m.sample_age_ms) = m
  admits : m.admits

@[simp]
theorem boundedInteger_optInt_boundedInteger (v : Json) (n : ℤ) :
    boundedInteger (optInt (boundedInteger v n)) n = boundedInteger v n := by
  cases v with
  | int k =>
    by_cases h : 0 ≤ k ∧ k ≤ n <;> simp [boundedInteger, optInt, h]
  | _ => rfl

/-- What the builder returns is built from itself. -/
theorem requestAdmissionMetadata_built (reason : Reason) (a c g : Json) :
    let m := requestAdmissionMetadata reason a c g
    requestAdmissionMetadata m.reason (optInt m.available_bytes) (optInt m.commit_headroom_bytes)
      (optInt m.sample_age_ms) = m := by
  intro m
  simp only [m, requestAdmissionMetadata, boundedInteger_optInt_boundedInteger]

theorem eq_of_same {v w : Json} (h : same v w) : v = w := by
  unfold same at h
  split at h <;> simp_all

@[simp]
theorem same_str (s : String) : same (.str s) (.str s) := decide_eq_true (Eq.refl s)

@[simp]
theorem same_int (n : ℤ) : same (.int n) (.int n) := decide_eq_true (Eq.refl n)

@[simp]
theorem same_optInt (n : Option ℤ) : same (optInt n) (optInt n) := by
  cases n with
  | none => rfl
  | some n => exact same_int n

@[simp]
theorem same_optBool (b : Option Bool) : same (optBool b) (optBool b) := by
  cases b with
  | none => rfl
  | some b => exact decide_eq_true (Eq.refl b)

theorem unknownMetadata_coherent : unknownMetadata.Coherent := ⟨by decide, by decide⟩

/-- A key that occurs has a value. -/
theorem get?_isSome {members : List (String × Json)} {key : String} (h : key ∈ members.map Prod.fst) :
    (Json.get? members key).isSome := by
  obtain ⟨f, hf, rfl⟩ := mem_map.1 h
  unfold Json.get?
  rw [Option.isSome_map, List.find?_isSome]
  exact ⟨f, hf, by simp⟩

/-- The projection of an object is either the unknown one, or the object is coherent and has its members
and no others. -/
theorem projectRequestAdmission_cases (v : Json) :
    projectRequestAdmission v = unknownMetadata ∨ ∃ members, v = .dict members ∧
      members.map Prod.fst ⊆ metadataKeys ∧ metadataKeys ⊆ members.map Prod.fst ∧
      (∀ f ∈ (projectRequestAdmission v).fields, Json.get? members f.1 = some f.2) ∧
      (projectRequestAdmission v).Coherent := by
  unfold projectRequestAdmission
  split
  · rename_i members
    dsimp only
    split
    · rename_i reason hreason
      split_ifs with hkeys haccepted
      · right
        obtain ⟨hextra, hmissing, -⟩ := hkeys
        rw [Bool.and_eq_true, all_eq_true] at haccepted
        obtain ⟨hsame, hadmits⟩ := haccepted
        refine ⟨members, rfl, hextra, hmissing, fun f hf => ?_, requestAdmissionMetadata_built _ _ _ _, hadmits⟩
        have hkey : f.1 ∈ metadataKeys := by
          have hmem := mem_map_of_mem (f := Prod.fst) hf
          exact hmem
        obtain ⟨w, hw⟩ := Option.isSome_iff_exists.1 (get?_isSome (hmissing hkey))
        have hvalue := eq_of_same (hsame f hf)
        rw [hw, Option.getD_some] at hvalue
        rw [hw, hvalue]
      · exact .inl rfl
      · exact .inl rfl
    · exact .inl rfl
  · exact .inl rfl

/-- A coherent object passes the projection unchanged. -/
theorem Metadata.Coherent.project {m : Metadata} (h : m.Coherent) : projectRequestAdmission m.toJson = m := by
  have hkeys : m.fields.map Prod.fst ⊆ metadataKeys ∧ metadataKeys ⊆ m.fields.map Prod.fst ∧
      same (.int 1) (.int 1) := ⟨fun _ h => h, fun _ h => h, rfl⟩
  have hsame : (m.fields.all fun f => same ((Json.get? m.fields f.1).getD .null) f.2) = true := by
    rw [all_eq_true]
    intro f hf
    unfold Metadata.fields at hf
    simp only [mem_cons, not_mem_nil, or_false] at hf
    obtain rfl | rfl | rfl | rfl | rfl | rfl | rfl | rfl | rfl := hf
    · exact same_int 1
    · exact same_str _
    · exact same_optBool _
    · exact same_str _
    all_goals exact same_optInt _
  show (if m.fields.map Prod.fst ⊆ metadataKeys ∧ metadataKeys ⊆ m.fields.map Prod.fst ∧
      same (.int 1) (.int 1) then
    let projected := requestAdmissionMetadata (.ofName m.reason.name) (optInt m.available_bytes)
      (optInt m.commit_headroom_bytes) (optInt m.sample_age_ms)
    if (projected.fields.all fun f => same ((Json.get? m.fields f.1).getD .null) f.2) && projected.admits then projected
    else unknownMetadata
    else unknownMetadata) = m
  rw [if_pos hkeys, Reason.ofName_name, h.built]
  dsimp only
  rw [hsame, h.admits]
  rfl

/-- The projection is always coherent. -/
theorem projectRequestAdmission_coherent (v : Json) : (projectRequestAdmission v).Coherent := by
  rcases projectRequestAdmission_cases v with h | ⟨_, _, _, _, _, h⟩
  · rw [h]
    exact unknownMetadata_coherent
  · exact h

/-- A projection that is ready has enough memory, read less than a second ago. -/
theorem Metadata.Coherent.of_ready {m : Metadata} (h : m.Coherent) (hready : m.ready = some true) :
    ∃ a c g, m.available_bytes = some a ∧ m.commit_headroom_bytes = some c ∧ m.sample_age_ms = some g ∧
      requestMemoryBytes ≤ a ∧ requestMemoryBytes ≤ c ∧ g < 1000 := by
  have hreason : m.reason = .ready := by
    have hbuilt := congrArg Metadata.ready h.built
    rw [hready] at hbuilt
    simp only [requestAdmissionMetadata] at hbuilt
    split_ifs at hbuilt
    simpa using hbuilt
  have hadmits := h.admits
  unfold Metadata.admits at hadmits
  rw [hreason, if_pos (by decide)] at hadmits
  split at hadmits
  · rename_i a c g ha hc hg
    rw [Bool.and_eq_true, decide_eq_true_eq, decide_eq_true_eq] at hadmits
    obtain ⟨hage, hclass⟩ := hadmits
    refine ⟨a, c, g, ha, hc, hg, ?_, ?_, hage⟩
    all_goals
      by_contra hlow
      unfold memoryAdmissionReason at hclass
      simp [show _ < requestMemoryBytes from not_le.1 hlow] at hclass
      split at hclass <;> simp_all
  · cases hadmits

/-! ## The producer keeps the contract -/

/-- The age of a fresh sample, and that of a stale one. -/
theorem ageMs_bounds {elapsed : Option ℚ} {age : ℤ} (h : ageMs elapsed = some age) :
    0 ≤ age ∧ age ≤ 60000 ∧ (age < 1000 ↔ elapsed.any fun e => 0 ≤ e ∧ e < 1) := by
  unfold ageMs at h
  rw [Option.map_eq_some_iff] at h
  obtain ⟨e, he, rfl⟩ := h
  obtain ⟨rfl, hrange⟩ := Option.filter_eq_some_iff.1 he
  rw [decide_eq_true_eq] at hrange
  obtain ⟨h0, h60⟩ := hrange
  refine ⟨Int.floor_nonneg.2 (by linarith), ?_, ?_⟩
  · have : ⌊e * 1000⌋ < 60001 := Int.floor_lt.2 (by push_cast; linarith)
    omega
  · rw [Int.floor_lt]
    simp only [Option.any_some, decide_eq_true_eq]
    push_cast
    constructor
    · intro h
      exact ⟨h0, by linarith⟩
    · rintro ⟨-, h⟩
      linarith

/-- The bytes of a field of the snapshot, and their bounds. -/
theorem snapshotField_bounds {snapshot : List (String × Json)} {key : String} {n : ℤ}
    (h : snapshotField snapshot key = some n) : boundedInteger (.int n) admissionMaxBytes = some n := by
  unfold snapshotField boundedInteger at h
  split at h
  · split_ifs at h with hn
    cases h
    exact if_pos hn
  · cases h

/-- An age within a minute is kept by the builder. -/
theorem boundedInteger_ageMs (elapsed : Option ℚ) :
    boundedInteger (optInt (ageMs elapsed)) 60000 = ageMs elapsed := by
  cases h : ageMs elapsed with
  | none => rfl
  | some =>
    obtain ⟨h0, h60, -⟩ := ageMs_bounds h
    exact if_pos ⟨h0, h60⟩

/-- A rejection without a reading is coherent, with the age that its reason asks for. -/
theorem reject_coherent {reason : Reason} {elapsed : Option ℚ}
    (hreason : reason = .sampleStale ∧ ¬ (elapsed.any fun e => 0 ≤ e ∧ e < 1) ∨
      (reason = .telemetryInvalid ∨ reason = .telemetryInconsistent) ∧ (elapsed.any fun e => 0 ≤ e ∧ e < 1)) :
    (requestAdmissionMetadata reason .null .null (optInt (ageMs elapsed))).Coherent := by
  refine ⟨requestAdmissionMetadata_built _ _ _ _, ?_⟩
  unfold Metadata.admits requestAdmissionMetadata
  rw [boundedInteger_ageMs]
  cases hage : ageMs elapsed with
  | none => rcases hreason with ⟨rfl, -⟩ | ⟨rfl | rfl, -⟩ <;> rfl
  | some age =>
    obtain ⟨-, -, hfresh⟩ := ageMs_bounds hage
    rcases hreason with ⟨rfl, hstale⟩ | ⟨hreason, hfine⟩
    · have : 1000 ≤ age := by
        rw [← not_lt, hfresh]
        exact hstale
      simp [Reason.classifies, boundedInteger, this]
    · have : age < 1000 := hfresh.2 hfine
      rcases hreason with rfl | rfl <;> simp [Reason.classifies, boundedInteger, this]

/-- A reading that was taken is coherent. -/
theorem reading_coherent {available headroom : ℤ} {elapsed : Option ℚ}
    (ha : boundedInteger (.int available) admissionMaxBytes = some available)
    (hh : boundedInteger (.int headroom) admissionMaxBytes = some headroom)
    (hfresh : elapsed.any fun e => 0 ≤ e ∧ e < 1) :
    (requestAdmissionMetadata (memoryAdmissionReason available headroom) (.int available) (.int headroom)
      (optInt (ageMs elapsed))).Coherent := by
  refine ⟨requestAdmissionMetadata_built _ _ _ _, ?_⟩
  obtain ⟨e, rfl, he⟩ := (Option.any_eq_true _ _).1 hfresh
  have hclass : (memoryAdmissionReason available headroom).classifies := by
    unfold memoryAdmissionReason
    split <;> rfl
  have hage : ∃ age, ageMs (some e) = some age := by
    rw [decide_eq_true_eq] at he
    have : 0 ≤ e ∧ e ≤ 60 := ⟨he.1, by linarith [he.2]⟩
    exact ⟨⌊e * 1000⌋, by simp [ageMs, this]⟩
  obtain ⟨age, hage⟩ := hage
  have hlt : age < 1000 := (ageMs_bounds hage).2.2.2 hfresh
  unfold Metadata.admits requestAdmissionMetadata
  rw [if_pos hclass, ha, hh, boundedInteger_ageMs, hage]
  simp [hlt]

/-- Every outcome of the guard is coherent. -/
theorem entryAdmission_coherent (frame : Option Json) (elapsed : Option ℚ) :
    (outcome (entryAdmission frame elapsed)).Coherent := by
  unfold entryAdmission
  cases frame with
  | none =>
    show (requestAdmissionMetadata .telemetryUnavailable .null .null .null).Coherent
    exact ⟨by decide, by decide⟩
  | some snapshot =>
    show (outcome (require _ _ >>= fun _ => _)).Coherent
    rw [require_bind]
    split_ifs with hfresh
    · dsimp only
      generalize (match snapshot with | .dict members => members | _ => []) = fields
      split
      · rename_i available committed limit headroom ha hc hl hh
        have hreading := reading_coherent (snapshotField_bounds ha) (snapshotField_bounds hh) hfresh
        rw [require_bind]
        split_ifs with hconsistent
        · rw [require_bind]
          split_ifs
          · exact hreading
          · exact hreading
        · exact reject_coherent (.inr ⟨.inr rfl, hfresh⟩)
      · exact reject_coherent (.inr ⟨.inl rfl, hfresh⟩)
    · exact reject_coherent (.inl ⟨rfl, hfresh⟩)

/-- What the guard returns or rejects with is the admission that it built. -/
theorem outcome_guard (frame : Option Json) (elapsed : Option ℚ) :
    outcome (halogenRequestEntryGuard frame elapsed) = outcome (entryAdmission frame elapsed) := by
  have h := entryAdmission_coherent frame elapsed
  unfold halogenRequestEntryGuard
  cases hout : entryAdmission frame elapsed with
  | ok => rfl
  | error =>
    rw [hout] at h
    exact h.project

/-- A coherent admission passes the health response and the probe of it. -/
theorem Metadata.Coherent.probe {m : Metadata} (h : m.Coherent) {others : List (String × Json)}
    (hnew : ∀ f ∈ others, f.1 ∉ ["request_admission_ready", "request_admission"]) :
    probeAdmission (others ++ healthMembers m) = m := by
  have hget : ∀ key ∈ ["request_admission_ready", "request_admission"],
      Json.get? (others ++ healthMembers m) key = Json.get? (healthMembers m) key := by
    intro key hkey
    unfold Json.get?
    rw [List.find?_append]
    have hnone : (others.find? fun f => f.1 = key) = none := by
      refine List.find?_eq_none.2 fun f hf => ?_
      rw [decide_eq_true_eq]
      exact fun e => hnew f hf (e ▸ hkey)
    rw [hnone, Option.none_or]
  have hready : Json.get? (others ++ healthMembers m) "request_admission_ready" = some (optBool m.ready) :=
    hget _ (by simp)
  have hadmission : Json.get? (others ++ healthMembers m) "request_admission" = some m.toJson :=
    hget _ (by simp)
  simp only [probeAdmission, hready, hadmission, Option.getD_some, h.project]
  rw [if_pos (same_optBool _)]

/-! ## Rejections -/

/-- The type that the value of a key has. -/
def typed (key : String) (value : Json) : Bool :=
  match value with
  | .null => key ∉ ["version", "policy", "reason"]
  | .bool _ => key = "ready"
  | .int _ => key ∉ ["policy", "ready", "reason"]
  | .str _ => key ∈ ["policy", "reason"]
  | _ => false

/-- The members of the metadata have their types. -/
theorem Metadata.typed_fields (m : Metadata) : ∀ f ∈ m.fields, typed f.1 f.2 := by
  have hint : ∀ (key : String) (n : Option ℤ), key ∉ ["version", "policy", "reason", "ready"] →
      typed key (optInt n) := by
    intro key n hkey
    cases n <;> simp_all [optInt, typed]
  intro f hf
  unfold Metadata.fields at hf
  simp only [mem_cons, not_mem_nil, or_false] at hf
  obtain rfl | rfl | rfl | rfl | rfl | rfl | rfl | rfl | rfl := hf
  · decide
  · simp [typed]
  · cases m.ready <;> simp [optBool, typed]
  · simp [typed]
  all_goals exact hint _ _ (by simp)

/-- The flag of a reason. -/
def readyFlag (reason : Reason) : Option Bool := if reason.memory then some (reason = .ready) else none

/-- The flag of coherent metadata, and the reason of a reading. -/
theorem Metadata.Coherent.flag {m : Metadata} (h : m.Coherent) : m.ready = readyFlag m.reason :=
  (congrArg Metadata.ready h.built).symm

theorem Metadata.Coherent.reading {m : Metadata} (h : m.Coherent) (hclass : m.reason.classifies) {a c : ℤ}
    (ha : m.available_bytes = some a) (hc : m.commit_headroom_bytes = some c) :
    m.reason = memoryAdmissionReason a c := by
  have hadmits := h.admits
  unfold Metadata.admits at hadmits
  rw [if_pos hclass, ha, hc] at hadmits
  cases hage : m.sample_age_ms with
  | none => simp [hage] at hadmits
  | some =>
    rw [hage] at hadmits
    simp only [Bool.and_eq_true, decide_eq_true_eq] at hadmits
    exact hadmits.2

/-- An integer is that of its value. -/
theorem optInt_inj {a : ℤ} {n : Option ℤ} (h : Json.int a = optInt n) : n = some a := by
  cases n with
  | none => cases h
  | some => rw [Json.int.inj h]

/-- An object that is not projected to the unknown metadata has the members of its projection. -/
theorem accepted {members : List (String × Json)}
    (h : projectRequestAdmission (.dict members) ≠ unknownMetadata) :
    members.map Prod.fst ⊆ metadataKeys ∧ metadataKeys ⊆ members.map Prod.fst ∧
    ∀ f ∈ (projectRequestAdmission (.dict members)).fields, Json.get? members f.1 = some f.2 := by
  obtain ⟨ms, he, hextra, hmissing, hfields, -⟩ := (projectRequestAdmission_cases _).resolve_left h
  obtain rfl := Json.dict.inj he
  exact ⟨hextra, hmissing, hfields⟩

/-- The contract of the admission metadata. What the guard produces, for every snapshot and elapsed time,
passes the builder, the projection, the health response and the probe unchanged; the projection is
idempotent; a projection that is ready has at least 22 GiB of both kinds, read less than a second ago; and
an object is rejected if it has an extra key, lacks one, has a value of a wrong type, or a flag that is not
that of its reason, or a reason that is not that of its values. -/
theorem admission_metadata_contract :
    (∀ frame elapsed,
      let m := outcome (entryAdmission frame elapsed)
      requestAdmissionMetadata m.reason (optInt m.available_bytes) (optInt m.commit_headroom_bytes)
        (optInt m.sample_age_ms) = m ∧
      outcome (halogenRequestEntryGuard frame elapsed) = m ∧ requestAdmission frame elapsed = m ∧
      ∀ others : List (String × Json),
        (∀ f ∈ others, f.1 ∉ ["request_admission_ready", "request_admission"]) →
        probeAdmission (others ++ healthMembers m) = m) ∧
    (∀ v, projectRequestAdmission (projectRequestAdmission v).toJson = projectRequestAdmission v) ∧
    (∀ v, (projectRequestAdmission v).ready = some true → ∃ a c g,
      (projectRequestAdmission v).available_bytes = some a ∧
      (projectRequestAdmission v).commit_headroom_bytes = some c ∧
      (projectRequestAdmission v).sample_age_ms = some g ∧
      requestMemoryBytes ≤ a ∧ requestMemoryBytes ≤ c ∧ g < 1000) ∧
    (∀ members : List (String × Json),
      ((∃ f ∈ members, f.1 ∉ metadataKeys) → projectRequestAdmission (.dict members) = unknownMetadata) ∧
      ((∃ key ∈ metadataKeys, Json.get? members key = none) →
        projectRequestAdmission (.dict members) = unknownMetadata) ∧
      ((∃ key value, Json.get? members key = some value ∧ ¬ typed key value) →
        projectRequestAdmission (.dict members) = unknownMetadata) ∧
      (∀ reason, Json.get? members "reason" = some (.str reason) →
        Json.get? members "ready" ≠ some (optBool (readyFlag (.ofName reason))) →
        projectRequestAdmission (.dict members) = unknownMetadata) ∧
      (∀ reason a c, Json.get? members "reason" = some (.str reason) → (Reason.ofName reason).classifies →
        Json.get? members "available_bytes" = some (.int a) →
        Json.get? members "commit_headroom_bytes" = some (.int c) →
        Reason.ofName reason ≠ memoryAdmissionReason a c →
        projectRequestAdmission (.dict members) = unknownMetadata)) := by
  refine ⟨fun frame elapsed => ?_, fun v => (projectRequestAdmission_coherent v).project,
    fun v => (projectRequestAdmission_coherent v).of_ready, fun members => ?_⟩
  · have h := entryAdmission_coherent frame elapsed
    refine ⟨h.built, outcome_guard frame elapsed, ?_, fun others hnew => h.probe hnew⟩
    unfold requestAdmission
    rw [outcome_guard]
    exact h.project
  · -- whatever is not projected to the unknown metadata has the members of its projection
    have hcoherent := projectRequestAdmission_coherent (.dict members)
    refine ⟨fun ⟨f, hf, hkey⟩ => ?_, fun ⟨key, hkey, hnone⟩ => ?_, fun ⟨key, value, hget, htype⟩ => ?_,
      fun reason hreason hready => ?_, fun reason a c hreason hclass ha hc hne => ?_⟩
    all_goals
      by_contra hknown
      obtain ⟨hextra, hmissing, hfields⟩ := accepted hknown
    · exact hkey (hextra (mem_map_of_mem hf))
    · have := get?_isSome (hmissing hkey)
      simp [hnone] at this
    · have hkey : key ∈ metadataKeys := by
        unfold Json.get? at hget
        obtain ⟨f, hf, -⟩ := Option.map_eq_some_iff.1 hget
        have hmem := mem_of_find?_eq_some hf
        have hname : f.1 = key := by simpa using List.find?_some hf
        exact hname ▸ hextra (mem_map_of_mem hmem)
      have hmem : key ∈ (projectRequestAdmission (.dict members)).fields.map Prod.fst := hkey
      obtain ⟨f, hf, rfl⟩ := mem_map.1 hmem
      have hvalue := hfields f hf
      rw [hget] at hvalue
      cases hvalue
      exact htype (Metadata.typed_fields _ f hf)
    all_goals
      generalize projectRequestAdmission (.dict members) = p at hcoherent hfields
      have hname := hfields ("reason", .str p.reason.name) (by simp [Metadata.fields])
      rw [hreason] at hname
      obtain rfl := Json.str.inj (Option.some.inj hname)
    · have hflag := hfields ("ready", optBool p.ready) (by simp [Metadata.fields])
      rw [hcoherent.flag] at hflag
      rw [Reason.ofName_name] at hready
      exact hready hflag
    · have havailable := hfields ("available_bytes", optInt p.available_bytes) (by simp [Metadata.fields])
      have hheadroom := hfields ("commit_headroom_bytes", optInt p.commit_headroom_bytes)
        (by simp [Metadata.fields])
      rw [ha] at havailable
      rw [hc] at hheadroom
      rw [Reason.ofName_name] at hclass hne
      exact hne (hcoherent.reading hclass (optInt_inj (Option.some.inj havailable))
        (optInt_inj (Option.some.inj hheadroom)))

end StrixAlloy.Gateway

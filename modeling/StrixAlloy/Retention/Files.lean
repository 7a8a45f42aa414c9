import Mathlib.Algebra.Group.Nat.Defs
import Mathlib.Data.List.Dedup
import StrixAlloy.Lib.Checked
import StrixAlloy.Lib.Faulty

/-!
# The directories of the recordings

The profile revisions with their staging folders, the delete quarantine, the delete journal and the upload
folders, and what the retention planner accepts of them. Times are in microseconds. The random parts of names
never repeat: each is the next number.
-/

namespace StrixAlloy.Retention

open Faulty Faulty.Prog

/-- A revision's name: the second it was named in and a random part. -/
structure ProfileId where
  second : ℕ
  random : ℕ
  deriving DecidableEq

/-- The name of a quarantine folder. -/
structure QuarantineName where
  profile_id : ProfileId
  token : ℕ
  deriving DecidableEq

inductive Kind
  | authorized_own_voice | designed_synthetic_voice | unknown
  deriving DecidableEq

inductive Source
  | desktop_microphone | authorized_existing_own_recording | unknown
  deriving DecidableEq

/-- The consent of a request, which is stored as it comes: the keys that are read, and how many bytes its others
take. -/
structure Consent where
  own_voice : Bool
  scope : String
  confirmed_at_utc : ℕ
  others : ℕ
  deriving DecidableEq

/-- `voice.json`. `rest` is how many bytes the file takes without the consent's other keys. -/
structure Voice where
  profile_id : ProfileId
  kind : Kind
  language : String
  source : Source
  consent : Consent
  created_at_utc : ℕ
  reference_sha256 : String
  rest : ℕ
  deriving DecidableEq

/-- The size of the file. -/
def Voice.size (v : Voice) : ℕ := v.rest + v.consent.others

/-- Who asked for a deletion, and who owns a revision. -/
inductive Principal
  | administrator
  | personal (id : ℕ)
  | retention_cleanup
  | unknown
  deriving DecidableEq

/-- The temporary file of a write of `name`. -/
structure Temporary where
  name : String
  token : ℕ
  deriving DecidableEq

/-- A profile folder. `reference` is the hash of `reference.wav`; `strays` are the files under no profile
file's name. -/
structure Folder where
  voice : Option Voice
  owner : Option Principal
  source : Bool
  reference : Option String
  strays : List Temporary
  deriving DecidableEq

def Folder.empty : Folder := ⟨none, none, false, none, []⟩

inductive Status
  | pending_purge | purge_failed | purged | unknown
  deriving DecidableEq

/-- A journal of a deletion. -/
structure Record where
  profile_id : ProfileId
  requested_by : Principal
  quarantine_name : QuarantineName
  status : Status

/-- An upload folder: the recording, `profiles`, `profiles/revisions`, and the folders in there. -/
structure Upload where
  recording : Bool
  profiles : Bool
  revisions : Bool
  staging : List (ℕ × Folder)
  staged : List (ProfileId × Folder)
  deriving DecidableEq

def Upload.empty : Upload := ⟨false, false, false, [], []⟩

structure State where
  revisions : List (ProfileId × Folder)
  /-- The `.staging-` folders next to the revisions. -/
  staging : List (ℕ × Folder)
  quarantine : List (QuarantineName × Folder)
  journals : List (ℕ × Record)
  /-- The other files in the journal's directory. -/
  journal_strays : List Temporary
  uploads : List (ℕ × Upload)
  /-- The listed preview files that exist. -/
  previews : List String
  /-- The preview journal, and whether it is valid. -/
  preview_journal : Option Bool
  registration_receipt : Bool
  /-- The selected revision, or the default profile. -/
  active : Option ProfileId
  /-- All other files. -/
  others : List String
  next : ℕ

/-! ## What the planner accepts -/

def DUE_UTC : ℕ := 1792130400 * 10 ^ 6

def CONSENT_SCOPE : String := "local_synthetic_voice_and_servicenow_demo"

def MAX_ENTRIES : ℕ := 512

def MAX_FILE_BYTES : ℕ := 6 * 1024 * 1024

/-- The limit of the manager's `read_json`. -/
def MAX_METADATA_BYTES : ℕ := 64 * 1024

/-- The names of a folder's files. -/
inductive File
  | voice | owner | source | reference
  | stray (t : Temporary)

def Folder.files (f : Folder) : List File :=
  (if f.voice.isSome then [.voice] else []) ++ (if f.owner.isSome then [.owner] else []) ++
    (if f.source then [.source] else []) ++ (if f.reference.isSome then [.reference] else []) ++
    f.strays.map .stray

def Folder.remove (name : File) (f : Folder) : Folder :=
  match name with
  | .voice => { f with voice := none }
  | .owner => { f with owner := none }
  | .source => { f with source := false }
  | .reference => { f with reference := none }
  | .stray t => { f with strays := f.strays.erase t }

/-- `{item.name for item in files} <= PROFILE_FILES`, and `safe_path` of the metadata, the only file without a limit
of its own. -/
def Folder.plain (f : Folder) : Bool := f.strays = [] && f.voice.all fun v => v.size ≤ MAX_FILE_BYTES

/-- The text of the voice's provenance, as the planner and the profile reader demand it. -/
def Voice.provenance (v : Voice) : Bool :=
  v.kind = .authorized_own_voice && v.language = "German" && v.source ≠ .unknown && v.consent.own_voice &&
    v.consent.scope = CONSENT_SCOPE

/-- Whether the recording was made in time: its creation and consent before the deadline, and its name
within two seconds of its creation. -/
def Voice.timely (v : Voice) : Bool :=
  v.created_at_utc ≤ DUE_UTC && v.consent.confirmed_at_utc ≤ DUE_UTC &&
    v.created_at_utc ≤ v.profile_id.second * 10 ^ 6 + 2 * 10 ^ 6 &&
    v.profile_id.second * 10 ^ 6 ≤ v.created_at_utc + 2 * 10 ^ 6

def validateRevision (profile_id : ProfileId) (f : Folder) : Bool :=
  f.plain && f.source &&
    match f.voice, f.reference with
    | some v, some r => v.size ≤ MAX_METADATA_BYTES && v.reference_sha256 = r && v.profile_id = profile_id &&
        v.provenance && v.timely
    | _, _ => false

def validateUpload (u : Upload) : Bool :=
  (u.staging.all fun x => x.2.plain) && u.staged.all fun x => x.2.plain

def validateQuarantine (f : Folder) (profile_id : ProfileId) : Bool :=
  profile_id.second * 10 ^ 6 ≤ DUE_UTC && f.plain &&
    match f.voice with
    | some v => v.profile_id = profile_id && v.kind = .authorized_own_voice && v.consent.own_voice
    | none => true

def validJournal (token : ℕ) (r : Record) : Bool :=
  r.quarantine_name.token = token && r.profile_id = r.quarantine_name.profile_id && r.status ≠ .unknown &&
    r.requested_by ≠ .unknown

/-- What there is to remove. -/
structure Pending where
  revisions : List ProfileId
  quarantine : List QuarantineName
  uploads : List ℕ
  staging : List ℕ
  previews : List String
  journals : List ℕ
  preview_aliases : Bool

/-- `any(remaining.values())` -/
def Pending.any (p : Pending) : Bool :=
  p.revisions ≠ [] || p.quarantine ≠ [] || p.uploads ≠ [] || p.staging ≠ [] || p.previews ≠ [] ||
    p.journals ≠ [] || p.preview_aliases

/-- The planner's directories hold at most 512 entries each. The runtime directory holds the uploads. -/
def State.small (s : State) : Bool :=
  s.revisions.length + s.staging.length ≤ MAX_ENTRIES && s.quarantine.length ≤ MAX_ENTRIES &&
    s.journals.length + s.journal_strays.length ≤ MAX_ENTRIES && s.uploads.length ≤ MAX_ENTRIES &&
    s.uploads.all fun u => u.2.staging.length + u.2.staged.length ≤ MAX_ENTRIES

/-- What there is to remove of a state that is as expected; a listing has each name once. -/
def State.pending (s : State) : Pending where
  revisions := s.revisions.map Prod.fst
  quarantine := s.quarantine.map Prod.fst
  uploads := (s.uploads.map Prod.fst).dedup
  staging := (s.staging.map Prod.fst).dedup
  previews := s.previews
  journals := s.journals.map Prod.fst
  preview_aliases := s.preview_journal.isSome

def plan (s : State) : Except String Pending := do
  Checked.require (s.preview_journal ≠ some false) "invalid_preview_cleanup_identity"
  Checked.require s.small "too_many_entries"
  Checked.require (∀ x ∈ s.staging, x.2.plain) "unexpected_staging_contents"
  Checked.require (∀ x ∈ s.revisions, validateRevision x.1 x.2) "unexpected_revision_contents"
  Checked.require (s.journal_strays = []) "unexpected_delete_journal"
  Checked.require (∀ y ∈ s.journals, validJournal y.1 y.2) "invalid_delete_journal"
  Checked.require (∀ x ∈ s.quarantine, ∃ y ∈ s.journals, y.2.quarantine_name = x.1) "orphan_delete_quarantine"
  Checked.require (∀ x ∈ s.quarantine, validateQuarantine x.2 x.1.profile_id) "unexpected_quarantine_contents"
  Checked.require (∀ u ∈ s.uploads, validateUpload u.2) "unexpected_upload_file"
  return s.pending

/-- A state is planned exactly when nothing in it is unexpected. -/
theorem plan_eq_ok {s : State} {p : Pending} : plan s = .ok p ↔
    s.preview_journal ≠ some false ∧ s.small ∧ (∀ x ∈ s.staging, x.2.plain) ∧
      (∀ x ∈ s.revisions, validateRevision x.1 x.2) ∧ s.journal_strays = [] ∧
      (∀ y ∈ s.journals, validJournal y.1 y.2) ∧
      (∀ x ∈ s.quarantine, ∃ y ∈ s.journals, y.2.quarantine_name = x.1) ∧
      (∀ x ∈ s.quarantine, validateQuarantine x.2 x.1.profile_id) ∧
      (∀ u ∈ s.uploads, validateUpload u.2) ∧ s.pending = p := by
  simp only [plan, Checked.bind_eq_ok, Checked.require_eq_ok, Checked.pure_eq_ok, exists_and_left, exists_const]

end StrixAlloy.Retention

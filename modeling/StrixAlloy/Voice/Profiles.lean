import StrixAlloy.Lib.Faulty

/-!
# Voice profiles, the speech server and the records about it

The profile folders, the server process and the replies are the environment's. A folder is read anew each
time, and may hold something else each time; the default profile is part of the installation. The files that
the voice tools write are `active.json`, the manifest of further voices and the receipt of the last
registration; the speech launcher writes the owner record.
-/

namespace StrixAlloy.Voice

open Faulty Faulty.Prog

/-- A profile folder. -/
inductive Folder
  | default
  | revision (name : String)
  | elsewhere (path : String)
  deriving DecidableEq

inductive Kind
  | authorized_own_voice
  | designed_synthetic_voice
  | unknown
  deriving DecidableEq

/-- `voice.json` and `reference.wav` of a folder. `consent` is the verdict of `validate_consent`. -/
structure Stored where
  schema_version : ℕ
  language : String
  kind : Kind
  consent : Bool
  profile_id : Option String
  reference_text : String
  reference_sha256 : Option String
  wav : List UInt8

/-- A validated profile. -/
structure Profile where
  kind : Kind
  profile_id : String
  reference_text : String
  reference_sha256 : String
  profile_dir : Folder
  deriving DecidableEq

/-- An entry of the manifest, and of a receipt. -/
structure Entry where
  voice_id : String
  profile_id : String
  reference_sha256 : String
  deriving DecidableEq

/-- `active.json`. -/
structure Selection where
  profile_id : String
  reference_sha256 : String
  active_voice : String
  previous_profile_id : Option String
  activated_at_utc : ℕ
  deriving DecidableEq

/-- A process, by its id and the time it was created. -/
structure Identity where
  pid : ℕ
  created : ℕ
  deriving DecidableEq

/-- The registration receipt. -/
structure Stamp where
  schema_version : ℕ
  owner : Identity
  registrations : List Entry
  deriving DecidableEq

/-- What a registration sends. -/
structure Payload where
  ref_text : String
  wav : List UInt8

/-- A speech server: its process, and the reference registered under each alias. -/
structure Server where
  owner : Identity
  voices : String → Option Payload

/-- The temporary file of a write: not there, there, or moved onto its target. -/
inductive Temporary
  | absent | present | moved
  deriving DecidableEq

structure State where
  server : Option Server
  /-- The creation time of the next process. -/
  clock : ℕ
  owners : Option Identity
  receipt : Option Stamp
  active : Option Selection
  manifest : Option (List Entry)
  temporary : Temporary

/-- The files that `atomicJson` writes. -/
inductive Target
  | active | manifest | receipt
  deriving DecidableEq

/-- The steps that may fail. -/
inductive Step
  | metadata (folder : Folder)
  | audio (folder : Folder)
  | exists (target : Target)
  | readJson (target : Target)
  | lock | unlock
  | owners | cmdline | sockets
  | unlinkReceipt
  | connect | response
  | make | write | replace (target : Target) | discard (target : Target) (temporary : Temporary)
  | memory | files | spawn | record | ready
  deriving DecidableEq

/-- The reply to a registration: the JSON object's `status`, or no JSON object. -/
inductive Reply
  | status (status : Option String)
  | malformed
  deriving DecidableEq

/-- What becomes of a registration request: it does not arrive, the server answers with an HTTP error and
leaves its registry, or it registers the reference. -/
inductive Outcome
  | lost
  | http (status : ℕ)
  | committed (reply : Reply)

/-- What happens to the server from elsewhere: it exits, or it is started anew, with or without a record of
the owner. -/
inductive Event
  | exits
  | starts (pid : ℕ) (recorded : Bool)

/-- The environment's answers, by the number of the question. -/
structure Env where
  fault : ℕ → Step → Fault
  disk : ℕ → Folder → Option Stored
  memory : ℕ → ℕ
  post : ℕ → Outcome
  pid : ℕ → ℕ
  now : ℕ → ℕ
  events : ℕ → List Event

/-- The exceptions, by class and text. -/
inductive Error
  | rejected (text : String)
  | value (text : String)
  | runtime (text : String)
  | os (text : String)
  | key (text : String)
  | http (status : ℕ)
  | preflight (text : String)
  | notReady (text : String)
  deriving DecidableEq

def Error.text : Error → String
  | .rejected t | .value t | .runtime t | .os t | .key t | .preflight t | .notReady t => t
  | .http status => "HTTP " ++ toString status

/-- What the installation fixes: the hash of a reference and the default profile's folder. -/
structure Install where
  sha256 : List UInt8 → String
  synthetic : Option Stored

abbrev Voiced := Prog Env State Error

/-- What a step raises. -/
def Step.error : Step → Error
  | .cmdline => .runtime "tts configuration changed; refusing reuse"
  | .ready => .runtime "tts did not become ready"
  | _ => .os "OSError"

/-- One step without effect. -/
def op (l : Step) : Voiced Unit := step (fun o n => o.fault n l) l.error id

/-- One step with the effect `f`. -/
def effect (l : Step) (f : State → State) : Voiced Unit := step (fun o n => o.fault n l) l.error f

def MAX_WAV_BYTES : ℕ := 6 * 1024 * 1024

def VOICE_ALIAS : String := "scc-demo"

def SYNTHETIC : String := "synthetic-scc-demo"

variable (I : Install)

/-- What a folder holds at the question `n`. -/
def held (folder : Folder) (o : Env) (n : ℕ) : Option Stored :=
  match folder with
  | .default => I.synthetic
  | folder => o.disk n folder

/-- What a folder holds now. -/
def stored (folder : Folder) : Voiced (Option Stored) := ask (held I folder)

def readProfile (folder : Folder) : Voiced Profile := do
  op (.metadata folder)
  let p ← stored I folder
  let p ← orRaise p (.os "FileNotFoundError")
  require (p.schema_version = 1 ∧ p.language = "German") (.value "Unsupported German voice profile")
  require (p.kind = .authorized_own_voice → p.consent)
    (.value "Explicit own-voice consent for the local demo is required")
  require (p.kind ≠ .unknown) (.value "Unsupported voice provenance")
  op (.audio folder)
  require (p.wav.length ≤ MAX_WAV_BYTES) (.value "Reference WAV exceeds 6 MiB")
  require (some (I.sha256 p.wav) = p.reference_sha256)
    (.value "Reference audio hash changed; registration refused")
  return {
    kind := p.kind
    profile_id := p.profile_id.getD SYNTHETIC
    reference_text := p.reference_text
    reference_sha256 := I.sha256 p.wav
    profile_dir := folder }

/-- Whether the text is one path component. -/
def plainName (name : String) : Bool :=
  name ≠ "" && name ≠ "." && name ≠ ".." && name.toList.all fun c => c ≠ '/' && c ≠ '\\'

/-- The folder of a profile id of `active.json`. -/
def folderOf (profile_id : String) : Folder :=
  if profile_id = SYNTHETIC then .default else .revision profile_id

def selectedProfile : Voiced (Option Profile) := do
  op (.exists .active)
  let s ← get
  match s.active with
  | none =>
    if I.synthetic.isSome then
      let profile ← readProfile I .default
      return some profile
    else return none
  | some selection =>
    op (.readJson .active)
    require (plainName selection.profile_id) (.value "Invalid active voice revision")
    let profile ← readProfile I (folderOf selection.profile_id)
    require (profile.reference_sha256 = selection.reference_sha256)
      (.value "Active voice reference hash differs")
    return some profile

/-! ## The manifest -/

def hexDigit (c : Char) : Bool := c.isDigit || "abcdef".toList.contains c

/-- Whether `str(uuid.UUID(value)) == value`: five groups of lower-case hexadecimal digits. -/
def canonicalUuid (value : String) : Bool :=
  value.toList.length = 36 &&
    value.toList.zipIdx.all fun (c, i) => if [8, 13, 18, 23].contains i then c = '-' else hexDigit c

/-- `[A-Za-z0-9][A-Za-z0-9_-]{0,79}` -/
def nativeName (value : String) : Bool :=
  match value.toList with
  | [] => false
  | c :: cs => c.isAlphanum && cs.length ≤ 79 && cs.all fun c => c.isAlphanum || c = '_' || c = '-'

/-- `[0-9a-f]{64}` -/
def nativeHash (value : String) : Bool := value.toList.length = 64 && value.toList.all hexDigit

def nativeVoiceId (value : String) : Voiced Unit :=
  require (canonicalUuid value) (.value "An explicit canonical UUID is required for an extra native voice")

/-- A voice of the manifest with its profile. -/
structure Registration where
  voice_id : String
  profile : Profile
  deriving DecidableEq

def Registration.entry (r : Registration) : Entry := {
  voice_id := r.voice_id
  profile_id := r.profile.profile_id
  reference_sha256 := r.profile.reference_sha256 }

/-- The loop over the manifest's entries, with the voices `seen` before. -/
def readEntries (seen : List String) : List Entry → Voiced (List Registration)
  | [] => return []
  | item :: items => do
    nativeVoiceId item.voice_id
    require (item.voice_id ∉ seen) (.value "Duplicate native voice UUID")
    require (nativeName item.profile_id ∧ nativeHash item.reference_sha256)
      (.value "Invalid native voice profile identity or reference hash")
    let profile ← readProfile I (.revision item.profile_id)
    require (profile.profile_id = item.profile_id ∧ profile.kind = .authorized_own_voice ∧
        profile.reference_sha256 = item.reference_sha256)
      (.value "Native voice binding differs from its consented profile or reference hash")
    let rest ← readEntries (item.voice_id :: seen) items
    return ⟨item.voice_id, profile⟩ :: rest

def nativeRegistrations : Voiced (List Registration) := do
  op (.exists .manifest)
  let s ← get
  match s.manifest with
  | none => return []
  | some entries =>
    op (.readJson .manifest)
    require (entries.length ≤ 32) (.value "Invalid native voice registration manifest")
    readEntries I [] entries

end StrixAlloy.Voice

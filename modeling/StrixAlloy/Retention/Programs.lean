import StrixAlloy.Retention.Files

/-!
# Upload, deletion and retention cleanup

The three programs, one file operation after another. Each operation may fail, without effect, and each
program may be stopped before any of them. `Step` tells the operations apart that are made while a temporary
file exists, and the removal of one.
-/

namespace StrixAlloy.Retention

open Faulty Faulty.Prog

inductive Step
  | file | held | discard
  deriving DecidableEq

/-- The environment's answers, by the number of the question. `times` are the two clock readings of a
staging: the one its name is made of and the one it records. `idle` is the service check, which may raise. -/
structure Env where
  answer : ℕ → Step → Answer
  fair_open : ℕ → Bool
  allowed : ℕ → Bool
  times : ℕ → ℕ × ℕ
  now : ℕ → ℕ
  lock : ℕ → Bool
  idle : ℕ → Option Bool
  size : ℕ → ℕ

/-- The exceptions: `Deferred` with its reason, an API error with its code, and all others by class. -/
inductive Error
  | deferred (reason : String)
  | api (status : ℕ) (code : String)
  | other (name : String)

abbrev Filed := Prog Env State Error

/-- One operation with the effect `f`. -/
def effect (l : Step) (f : State → State) : Filed Unit :=
  step (fun o n => (o.answer n l).fault) (.other "OSError") f

/-- One operation without effect on the recordings. -/
def op (l : Step) : Filed Unit := effect l id

/-- A random part of a name. -/
def fresh : Filed ℕ := do
  let s ← get
  modify fun s => { s with next := s.next + 1 }
  return s.next

/-! ## Folders -/

section Entries

variable {κ α : Type} [DecidableEq κ]

def mapAt (key : κ) (f : α → α) (l : List (κ × α)) : List (κ × α) :=
  l.map fun x => if x.1 = key then (x.1, f x.2) else x

def dropAt (key : κ) (l : List (κ × α)) : List (κ × α) := l.filter fun x => x.1 ≠ key

def getAt (key : κ) (l : List (κ × α)) : Option α := (l.find? fun x => x.1 = key).map Prod.snd

end Entries

/-- The folders whose files are removed or written one by one. -/
inductive Place
  | staging (name : ℕ)
  | quarantine (name : QuarantineName)
  | upload_staging (upload name : ℕ)
  | upload_staged (upload : ℕ) (profile_id : ProfileId)

namespace State

def folder (s : State) : Place → Option Folder
  | .staging name => getAt name s.staging
  | .quarantine name => getAt name s.quarantine
  | .upload_staging upload name => (getAt upload s.uploads).bind fun u => getAt name u.staging
  | .upload_staged upload profile_id => (getAt upload s.uploads).bind fun u => getAt profile_id u.staged

def mapUpload (upload : ℕ) (f : Upload → Upload) (s : State) : State :=
  { s with uploads := mapAt upload f s.uploads }

def mapFolder (f : Folder → Folder) (s : State) : Place → State
  | .staging name => { s with staging := mapAt name f s.staging }
  | .quarantine name => { s with quarantine := mapAt name f s.quarantine }
  | .upload_staging upload name => s.mapUpload upload fun u => { u with staging := mapAt name f u.staging }
  | .upload_staged upload profile_id =>
    s.mapUpload upload fun u => { u with staged := mapAt profile_id f u.staged }

def dropFolder (s : State) : Place → State
  | .staging name => { s with staging := dropAt name s.staging }
  | .quarantine name => { s with quarantine := dropAt name s.quarantine }
  | .upload_staging upload name => s.mapUpload upload fun u => { u with staging := dropAt name u.staging }
  | .upload_staged upload profile_id =>
    s.mapUpload upload fun u => { u with staged := dropAt profile_id u.staged }

end State

/-- The loop over a folder's files. -/
def unlinkAll (p : Place) : List File → Filed Unit
  | [] => return ()
  | name :: names => do
    effect .file fun s => s.mapFolder (Folder.remove name) p
    unlinkAll p names

/-- `purgeTree` and `shutil.rmtree` of a flat folder: its files, then the folder, which must be empty. -/
def purgeTree (p : Place) : Filed Unit := do
  op .file
  let s ← get
  let f ← orRaise (s.folder p) (.other "FileNotFoundError")
  unlinkAll p f.files
  let s ← get
  require ((s.folder p).all fun f => f.files = []) (.other "OSError")
  effect .file fun s => s.dropFolder p

/-- The loop over the folders in an upload. -/
def purgeFolders : List Place → Filed Unit
  | [] => return ()
  | p :: ps => do
    purgeTree p
    purgeFolders ps

/-- The removal of an upload folder, from the inside out. -/
def purgeUpload (upload : ℕ) : Filed Unit := do
  op .file
  let s ← get
  let u ← orRaise (getAt upload s.uploads) (.other "FileNotFoundError")
  purgeFolders ((u.staging.map Prod.fst).dedup.map (.upload_staging upload))
  purgeFolders ((u.staged.map Prod.fst).dedup.map (.upload_staged upload))
  effect .file fun s => s.mapUpload upload fun u => { u with revisions := false }
  effect .file fun s => s.mapUpload upload fun u => { u with profiles := false }
  effect .file fun s => s.mapUpload upload fun u => { u with recording := false }
  let s ← get
  require ((getAt upload s.uploads).all fun u => u = .empty) (.other "OSError")
  effect .file fun s => { s with uploads := dropAt upload s.uploads }

/-! ## Metadata through a temporary file -/

/-- The directory of a temporary file. -/
inductive Dir
  | journals
  | folder (p : Place)

namespace State

def addStray (t : Temporary) (s : State) : Dir → State
  | .journals => { s with journal_strays := t :: s.journal_strays }
  | .folder p => s.mapFolder (fun f => { f with strays := t :: f.strays }) p

def dropStray (t : Temporary) (s : State) : Dir → State
  | .journals => { s with journal_strays := s.journal_strays.erase t }
  | .folder p => s.mapFolder (fun f => { f with strays := f.strays.erase t }) p

end State

/-- `restrictPrivatePath` on a temporary file. -/
def restrictPrivatePath (private_file : Bool) : Filed Unit := if private_file then op .held else return ()

/-- `atomicPrivateJson`, and `atomicJson`, which does not restrict the file. In the final clause the
temporary file is there after a failure, and gone after the replacement. -/
def atomicJson (private_file : Bool) (d : Dir) (name : String) (commit : State → State) : Filed Unit := do
  let token ← fresh
  let t := ⟨name, token⟩
  effect .file fun s => s.addStray t d
  attempt
    (do
      restrictPrivatePath private_file
      op .held
      effect .held fun s => commit (s.dropStray t d))
    fun e => do
      effect .discard fun s => s.dropStray t d
      raise e
  op .file

/-- The journal's file of a deletion. -/
def putJournal (token : ℕ) (r : Record) (s : State) : State :=
  { s with journals := dropAt token s.journals ++ [(token, r)] }

def atomicPrivateJson (token : ℕ) (r : Record) : Filed Unit :=
  atomicJson true .journals "journal" (putJournal token r)

def dropJournal (token : ℕ) (s : State) : State := { s with journals := dropAt token s.journals }

def activationLock {α : Type} (body : Filed α) : Filed α := do
  let free ← ask Env.lock
  require free (.other "RuntimeError")
  ensure body (op .file)

/-! ## Upload -/

/-- Who is signed in. -/
inductive Caller
  | administrator
  | personal (id : ℕ)

def Caller.principal : Caller → Principal
  | .administrator => .administrator
  | .personal id => .personal id

/-- The part of a request that the recording's provenance depends on, and how many bytes of metadata come from its
name, its text and the paths. -/
structure Request where
  language : String
  source : Source
  consent : Consent
  rest : ℕ
  caller : Caller

def validateConsent (r : Request) : Bool :=
  r.consent.own_voice && r.consent.scope = CONSENT_SCOPE && r.language = "German" && r.source ≠ .unknown

def requireFairOpen : Filed Unit := do
  let fair_open ← ask Env.fair_open
  require fair_open (.api 409 "fair_retention_expired")

/-- The staging folder's files, and its rename. -/
def stageFiles (upload name : ℕ) (profile_id : ProfileId) (voice : Voice) : Filed Unit := do
  let place := Place.upload_staging upload name
  effect .file fun s => s.mapFolder (fun f => { f with source := true }) place
  effect .file fun s => s.mapFolder (fun f => { f with reference := some voice.reference_sha256 }) place
  atomicJson false (.folder place) "voice.json" fun s =>
    s.mapFolder (fun f => { f with voice := some voice }) place
  let s ← get
  let f ← orRaise (s.folder place) (.other "FileNotFoundError")
  effect .file fun s =>
    (s.dropFolder place).mapUpload upload fun u => { u with staged := u.staged ++ [(profile_id, f)] }

/-- Manager `stage` in an upload folder. `reference` is the hash of the recording or its normalized copy. -/
def stage (r : Request) (reference : String) (upload : ℕ) : Filed ProfileId := do
  require (validateConsent r) (.other "ValueError")
  op .file
  effect .file fun s => s.mapUpload upload fun u => { u with profiles := true }
  effect .file fun s => s.mapUpload upload fun u => { u with revisions := true }
  let times ← ask Env.times
  let random ← fresh
  let profile_id := ⟨times.1 / 10 ^ 6, random⟩
  let name ← fresh
  effect .file fun s => s.mapUpload upload fun u => { u with staging := u.staging ++ [(name, .empty)] }
  attempt
    (stageFiles upload name profile_id {
      profile_id := profile_id
      kind := .authorized_own_voice
      language := r.language
      source := r.source
      consent := r.consent
      created_at_utc := times.2
      reference_sha256 := reference
      rest := r.rest })
    fun e => do
      purgeTree (.upload_staging upload name)
      raise e
  -- the staging folder has been moved
  op .file
  return profile_id

/-- The persist step of an upload. -/
def persist (r : Request) (reference : String) : Filed Unit := do
  requireFairOpen
  op .file
  let upload ← fresh
  effect .file fun s => { s with uploads := (upload, .empty) :: s.uploads }
  ensure
    (do
      effect .file fun s => s.mapUpload upload fun u => { u with recording := true }
      let profile_id ← stage r reference upload
      let staged := Place.upload_staged upload profile_id
      atomicJson true (.folder staged) "owner.json" fun s =>
        s.mapFolder (fun f => { f with owner := some r.caller.principal }) staged
      op .file
      activationLock do
        requireFairOpen
        let allowed ← ask Env.allowed
        require allowed (.api 409 "fair_retention_expired")
        let s ← get
        let f ← orRaise (s.folder staged) (.other "FileNotFoundError")
        require ((getAt profile_id s.revisions).isNone) (.other "FileExistsError")
        effect .file fun s =>
          let s := s.dropFolder staged
          { s with revisions := s.revisions ++ [(profile_id, f)] })
    (purgeUpload upload)

/-! ## Deletion -/

def MAX_FAILED_PURGES : ℕ := 8

def MAX_QUARANTINE_BYTES : ℕ := 64 * 1024 * 1024

/-- Move a revision to the quarantine. -/
def moveRevision (profile_id : ProfileId) (name : QuarantineName) (f : Folder) (s : State) : State :=
  { s with revisions := dropAt profile_id s.revisions, quarantine := s.quarantine ++ [(name, f)] }

/-- The rename of a revision's folder into the quarantine. -/
def rename (profile_id : ProfileId) (name : QuarantineName) : Filed Unit := do
  let s ← get
  let f ← orRaise (getAt profile_id s.revisions) (.other "FileNotFoundError")
  require ((getAt name s.quarantine).isNone) (.other "FileExistsError")
  effect .file (moveRevision profile_id name f)

/-- Write the journal, and move the revision; where the move fails, the journal goes again. -/
def quarantine (profile_id : ProfileId) (requested_by : Principal) : Filed (ℕ × Record) := do
  let token ← fresh
  let record := ⟨profile_id, requested_by, ⟨profile_id, token⟩, .pending_purge⟩
  atomicPrivateJson token record
  attempt (rename profile_id ⟨profile_id, token⟩) fun e => do
    effect .file (dropJournal token)
    raise e
  return (token, record)

/-- The remove step of a deletion by `caller`, of a revision or of the default profile. -/
def remove (profile_id : Option ProfileId) (caller : Caller) (admin_override : Bool) : Filed Unit := do
  let profile_id ← orRaise profile_id (.api 403 "profile_protected")
  activationLock do
    op .file
    let s ← get
    let f ← orRaise (getAt profile_id s.revisions) (.api 404 "profile_not_found")
    require (f.voice.any fun v => v.size ≤ MAX_METADATA_BYTES && v.profile_id = profile_id &&
        f.reference = some v.reference_sha256)
      (.api 404 "profile_not_found")
    require (admin_override ∨ f.owner.getD .administrator = caller.principal) (.api 403 "profile_delete_forbidden")
    require (s.active ≠ some profile_id) (.api 409 "selected_voice_protected")
    op .file
    op .file
    let size ← ask Env.size
    let s ← get
    require (s.quarantine.length < MAX_FAILED_PURGES ∧
        s.journals.length + s.journal_strays.length < MAX_FAILED_PURGES ∧ size ≤ MAX_QUARANTINE_BYTES)
      (.api 503 "delete_quarantine_full")
    let (token, record) ← quarantine profile_id caller.principal
    attempt (purgeTree (.quarantine record.quarantine_name)) fun _ => do
      atomicPrivateJson token { record with status := .purge_failed }
      raise (.api 503 "delete_purge_failed")
    attempt (effect .file (dropJournal token)) fun _ => do
      atomicPrivateJson token { record with status := .purged }
      raise (.api 503 "delete_finalize_failed")

/-! ## Cleanup -/

inductive Outcome
  | not_due | dry_run | purged
  | deferred (reason : String)

def inspect : Filed Pending := do
  op .file
  let s ← get
  match plan s with
  | .ok p => return p
  | .error reason => raise (.deferred reason)

def serviceCheck : Filed Unit := do
  let idle ← ask Env.idle
  let idle ← orRaise idle (.other "OSError")
  require idle (.deferred "call_active_or_status_invalid")

/-- Manager `restoreSynthetic`, which may fail before or after the selection is written. -/
def restoreSynthetic : Filed Unit := do
  op .file
  effect .file fun s => { s with active := none }
  op .file

/-- One folder of the quarantine, the uploads or the staging. -/
inductive Residue
  | folder (p : Place)
  | upload (name : ℕ)

def Residue.purge : Residue → Filed Unit
  | .folder p => purgeTree p
  | .upload name => purgeUpload name

def purgeResidues : List Residue → Filed Unit
  | [] => return ()
  | r :: rs => do
    serviceCheck
    r.purge
    purgeResidues rs

/-- The loop over the revisions. -/
def purgeRevisions : List ProfileId → Filed Unit
  | [] => return ()
  | profile_id :: rest => do
    serviceCheck
    let (token, record) ← quarantine profile_id .retention_cleanup
    purgeTree (.quarantine record.quarantine_name)
    effect .file (dropJournal token)
    purgeRevisions rest

def unlinkPreviews : List String → Filed Unit
  | [] => return ()
  | name :: names => do
    effect .file fun s => { s with previews := s.previews.erase name }
    unlinkPreviews names

def unlinkJournals : List ℕ → Filed Unit
  | [] => return ()
  | token :: tokens => do
    effect .file (dropJournal token)
    unlinkJournals tokens

/-- The preview journal, by the server's recovery or, where both workers are offline, by removal. -/
def clearPreviewAliases (aliases : Bool) : Filed Unit :=
  if aliases then do
    serviceCheck
    op .file
    effect .file fun s => { s with preview_journal := none }
  else return ()

def Pending.residues (p : Pending) : List Residue :=
  p.quarantine.map (fun q => .folder (.quarantine q)) ++ p.uploads.map .upload ++
    p.staging.map fun n => .folder (.staging n)

/-- The removal, under the activation lock. -/
def purge : Filed Unit := do
  serviceCheck
  let s ← get
  require (s.active = none) (.deferred "default_voice_not_selected")
  let pending ← inspect
  clearPreviewAliases pending.preview_aliases
  purgeResidues pending.residues
  op .file
  op .file
  purgeRevisions pending.revisions
  unlinkPreviews pending.previews
  unlinkJournals pending.journals
  effect .file fun s => { s with registration_receipt := false }
  let remaining ← inspect
  require (remaining.any = false) (.deferred "recordings_remain_retry_needed")

def Error.reason : Error → String
  | .deferred reason => reason
  | .api _ _ => "APIError"
  | .other name => name

/-- What is due is removed, or shown, and what is raised is reported. -/
def cleanup (apply : Bool) : Filed Outcome := do
  let now ← ask Env.now
  if now < DUE_UTC then return .not_due
  else
    attempt
      (do
        op .file
        let _ ← inspect
        serviceCheck
        if ¬ apply then return .dry_run
        else
          restoreSynthetic
          activationLock purge
          return .purged)
      fun e => return .deferred e.reason

/-! ## Runs -/

inductive Call
  | upload (r : Request) (reference : String)
  | delete (profile_id : Option ProfileId) (caller : Caller) (admin_override : Bool)
  | cleanup (apply : Bool)

def Call.prog : Call → Filed Unit
  | .upload r reference => persist r reference
  | .delete profile_id caller admin_override => remove profile_id caller admin_override
  | .cleanup apply => do
    let _ ← Retention.cleanup apply
    return ()

/-- A call in its environment, from a state. -/
def Call.run (c : Call) (o : Env) (s : State) : Ending Error Unit × State :=
  let r := c.prog o 0 s
  (r.1, r.2.2)

/-- The state after a call. -/
def step (s : State) (c : Call × Env) : State := (c.1.run c.2 s).2

end StrixAlloy.Retention

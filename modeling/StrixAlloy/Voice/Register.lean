import Mathlib.Algebra.Group.Nat.Defs
import StrixAlloy.Voice.Profiles

/-!
# Registering and selecting a voice

`nativeRegister` sends one reference to the speech server, under the alias or a further voice's UUID, and
removes the receipt before it does. `selectProfile` registers the alias, writes `active.json`, and
registers the previous profile again where one of the two failed. `bindNativeRegistration` adds a voice to
the manifest. `speechStart` starts the server, registers the selected profile and the manifest's voices, and
writes a receipt that the next start may reuse.
-/

namespace StrixAlloy.Voice

open Faulty Faulty.Prog

variable (I : Install)

/-! ## Files -/

/-- Write a file through a temporary one next to it. -/
def atomicJson (target : Target) (f : State → State) : Voiced Unit := do
  modify fun s => { s with temporary := .absent }
  ensure
    (do
      effect .make fun s => { s with temporary := .present }
      op .write
      effect (.replace target) fun s => { f s with temporary := .moved })
    (do
      let s ← get
      op (.discard target s.temporary))

/-- The profile root's `activation.lock`. -/
def activationLock {α : Type} (body : Voiced α) : Voiced α := do
  op .lock
  ensure body (op .unlock)

def unlinkReceipt : Voiced Unit := effect .unlinkReceipt fun s => { s with receipt := none }

/-! ## The server -/

/-- The server that the owner record names, when it runs. -/
def owned (s : State) : Option Server := s.server.filter fun server => s.owners = some server.owner

def assertOwnedListener : Voiced Unit := do
  op .owners
  let s ← get
  require (owned s).isSome (.runtime "tts ownership is absent or changed")
  op .cmdline
  op .sockets

/-- The server has taken a reference. -/
def Server.register (voice_id : String) (payload : Payload) (server : Server) : Server :=
  { server with voices := Function.update server.voices voice_id (some payload) }

/-- The registration request. -/
def request (voice_id : String) (payload : Payload) : Voiced Reply := do
  attempt assertOwnedListener fun e => match e with
    | .os text => raise (.notReady text)
    | e => raise (.preflight e.text)
  op .connect
  match ← ask Env.post with
  | .lost => raise (.os "ConnectionResetError")
  | .http status => raise (.http status)
  | .committed reply => do
    modify fun s => { s with server := s.server.map (Server.register voice_id payload) }
    op .response
    return reply

/-! ## Registration -/

/-- A voice other than the alias must be bound to the profile. -/
def requireBinding (validated : Profile) (voice_id : String) : Voiced Unit :=
  if voice_id = VOICE_ALIAS then return ()
  else do
    nativeVoiceId voice_id
    let items ← nativeRegistrations I
    require (∃ item ∈ items, item.voice_id = voice_id ∧ item.profile = validated)
      (.value "Native voice UUID has no matching explicit local binding")

def preflight (profile : Profile) (voice_id : String) : Voiced Payload := do
  let validated ← readProfile I profile.profile_dir
  require (validated.profile_id = profile.profile_id ∧ validated.reference_sha256 = profile.reference_sha256)
    (.value "Voice profile changed before registration")
  requireBinding I validated voice_id
  op (.audio validated.profile_dir)
  let audio ← stored I validated.profile_dir
  let audio ← orRaise audio (.os "FileNotFoundError")
  require (I.sha256 audio.wav = validated.reference_sha256)
    (.value "Reference audio hash changed before registration")
  assertOwnedListener
  let available ← ask Env.memory
  require (18 * 1024 ^ 3 ≤ available) (.runtime "Free memory is below the existing 18 GiB reserve")
  -- a request can commit even if its reply is lost
  unlinkReceipt
  return ⟨validated.reference_text, audio.wav⟩

def nativeRegister (profile : Profile) (voice_id : String) : Voiced Unit := do
  let payload ← attempt (preflight I profile voice_id) fun e =>
    raise (.rejected ("TTS preflight rejected; previous voice unchanged: " ++ e.text))
  let reply ← attempt (request voice_id payload) fun e => match e with
    | .preflight text => raise (.rejected ("TTS ownership preflight rejected before HTTP: " ++ text))
    | .notReady text => raise (.rejected ("TTS ownership preflight rejected before HTTP: " ++ text))
    | .http status => raise (.rejected ("Native TTS rejected the reference (HTTP " ++ toString status ++ ")"))
    | e => raise e
  require (reply ≠ .malformed) (.value "JSONDecodeError")
  require (reply = .status (some "registered"))
    (.runtime "Native TTS registration returned an unexpected response")

/-! ## Selection -/

/-- The exception of a selection that failed and was undone. -/
def restored : Error := .runtime "Activation failed; previous voice restored and selection unchanged"

def restorePrevious (previous : Option Profile) : Voiced Unit := do
  let previous ← orRaise previous
    (.runtime "Activation state is uncertain; no prior reference is available to restore")
  attempt (nativeRegister I previous VOICE_ALIAS) fun _ =>
    raise (.runtime "Activation state is uncertain; previous voice restoration failed")
  raise restored

def selectProfile (profile : Profile) : Voiced Selection :=
  activationLock do
    let previous ← selectedProfile I
    attempt (nativeRegister I profile VOICE_ALIAS) fun e => match e with
      | .rejected text => raise (.rejected text)
      | _ => restorePrevious I previous
    let now ← ask Env.now
    let selection := {
      profile_id := profile.profile_id
      reference_sha256 := profile.reference_sha256
      active_voice := VOICE_ALIAS
      previous_profile_id := previous.map Profile.profile_id
      activated_at_utc := now }
    attempt (atomicJson .active fun s => { s with active := some selection }) fun _ =>
      restorePrevious I previous
    return selection

def activate (profile_dir : Folder) : Voiced Selection := do
  let profile ← readProfile I profile_dir
  require (profile_dir matches .revision _)
    (.value "Activate a staged revision under the configured voice profiles")
  selectProfile I profile

def restoreSynthetic : Voiced Selection := do
  let profile ← readProfile I .default
  selectProfile I profile

/-! ## Further voices -/

def bindNativeRegistration (folder : Folder) (voice_id : String) : Voiced Entry := do
  nativeVoiceId voice_id
  match folder with
  | .revision name =>
    activationLock do
      let profile ← readProfile I folder
      require (profile.kind = .authorized_own_voice ∧ profile.profile_id = name ∧ nativeName profile.profile_id)
        (.value "An immutable consented own-voice profile is required")
      let entry := Registration.entry ⟨voice_id, profile⟩
      let items ← nativeRegistrations I
      let entries := items.map Registration.entry
      match entries.find? (·.voice_id = voice_id) with
      | some existing => do
        require (existing = entry) (.value "Native voice UUID is already bound to another profile")
        return entry
      | none => do
        require (entries.length < 32) (.value "Native voice registration manifest is full")
        atomicJson .manifest fun s => { s with manifest := some (entries ++ [entry]) }
        return entry
  | _ => raise (.value "Bind a staged revision under the configured voice profiles")

/-! ## Start-up -/

/-- A new server process. -/
def launch (pid : ℕ) (s : State) : State :=
  { s with server := some ⟨⟨pid, s.clock⟩, fun _ => none⟩, clock := s.clock + 1 }

/-- The owner record of the running server. -/
def recordOwner (s : State) : State := { s with owners := s.server.map Server.owner }

/-- Start the server unless the recorded one runs. -/
def ensureServer (s : State) : Voiced Unit :=
  if (owned s).isSome then op .cmdline
  else do
    require s.server.isNone (.runtime "Port 8862 is occupied; not adopting or stopping it")
    op .files
    let pid ← ask Env.pid
    effect .spawn (launch pid)
    effect .record recordOwner

/-- `speech_probe.start` -/
def start : Voiced Unit := do
  op .memory
  op .owners
  let s ← get
  ensureServer s
  op .ready

def Event.happen : Event → State → State
  | .exits, s => { s with server := none }
  | .starts pid recorded, s => if recorded then recordOwner (launch pid s) else launch pid s

/-- What happens to the server meanwhile. -/
def meanwhile : Voiced Unit := do
  let events ← ask Env.events
  modify fun s => events.foldl (fun s e => e.happen s) s

/-- The owner record's `tts`. -/
def ttsOwner : Voiced Identity := do
  op .owners
  let s ← get
  orRaise s.owners (.key "tts")

/-- The loop over the plan. -/
def registerAll : List Registration → Voiced Unit
  | [] => return ()
  | item :: plan => do
    meanwhile
    nativeRegister I item.profile item.voice_id
    registerAll plan

def speechStart : Voiced Unit := do
  start
  activationLock do
    let profile ← selectedProfile I
    let profile ← orRaise profile (.runtime "No validated German voice reference is available")
    let items ← nativeRegistrations I
    let plan := ⟨VOICE_ALIAS, profile⟩ :: items
    let owner ← ttsOwner
    let stamp := { schema_version := 2, owner := owner, registrations := plan.map Registration.entry }
    op (.exists .receipt)
    op (.readJson .receipt)
    let s ← get
    if s.receipt = some stamp then
      return ()
    else
      unlinkReceipt
      registerAll I plan
      meanwhile
      let current ← ttsOwner
      require (current = owner) (.runtime "TTS identity changed during voice registration; receipt withheld")
      atomicJson .receipt fun s => { s with receipt := some stamp }

/-! ## Runs -/

inductive Call
  | activate (profile_dir : Folder)
  | restoreSynthetic
  | bind (folder : Folder) (voice_id : String)
  | speechStart
  | event (e : Event)

/-- What a call returns: a selection names its profile, the others return nothing of interest here. -/
inductive Result
  | selected (selection : Selection)
  | done
  deriving DecidableEq

def Call.prog : Call → Voiced Result
  | .activate profile_dir => do
    let selection ← Voice.activate I profile_dir
    return .selected selection
  | .restoreSynthetic => do
    let selection ← Voice.restoreSynthetic I
    return .selected selection
  | .bind folder voice_id => do
    let _ ← bindNativeRegistration I folder voice_id
    return .done
  | .speechStart => do
    Voice.speechStart I
    return .done
  | .event e => do
    modify e.happen
    return .done

/-- A call in its environment, from a state. -/
def Call.run (c : Call) (o : Env) (s : State) : Ending Error Result × State :=
  let r := c.prog I o 0 s
  (r.1, r.2.2)

/-- The state after a call. -/
def step (s : State) (c : Call × Env) : State := (c.1.run I c.2 s).2

end StrixAlloy.Voice

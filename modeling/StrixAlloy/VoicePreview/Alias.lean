import Mathlib.Algebra.Group.Nat.Defs
import StrixAlloy.Lib.Faulty

/-!
# The temporary voice of a preview

`nativeProfilePreview` registers a person's voice on the speech server under a random alias, speaks one text
with it, and removes it again. `preview-cleanup.json` names the alias from before the registration until after
the removal; `recoverPreviewAlias` removes what an interrupted preview left, and the retention cleanup does so
too. The server has a queue: a request that was sent is handled after those before it, whether its sender waits
for it or not, or it is lost.
-/

namespace StrixAlloy.VoicePreview

open Faulty Faulty.Prog

abbrev Name := List Char

def isHex (c : Char) : Bool := c.isDigit || ('a' ≤ c && c ≤ 'f')

def aliasHead : Name := "scc-preview-".toList

/-- `re.fullmatch(r'scc-preview-[a-f0-9]{32}', alias)`. -/
def isPreview (name : Name) : Bool :=
  name.take 12 = aliasHead && (name.drop 12).length = 32 && (name.drop 12).all isHex

/-- What `secrets.token_hex(16)` gives. -/
structure Token where
  digits : Name
  length_digits : digits.length = 32
  hex : digits.all isHex

def Token.aliasName (t : Token) : Name := aliasHead ++ t.digits

/-! ## The server -/

/-- What a registration sends. -/
structure Reference where
  ref_text : String
  wav : List UInt8

inductive Request where
  | delete (name : Name)
  | register (name : Name) (reference : Reference)
  | speech (name : Name) (input : String)

def Request.name : Request → Name
  | .delete name => name
  | .register name _ => name
  | .speech name _ => name

def Request.registers : Request → Bool
  | .register .. => true
  | _ => false

/-- The text of an answer, as far as Studio tells texts apart. -/
inductive Raw where
  /-- `{'status': 'deleted'}` -/
  | deleted
  /-- the registry's error for a name that is not registered -/
  | absent
  | registered (name : Name)
  /-- JSON that is none of these -/
  | json
  | bytes (data : List UInt8)
deriving DecidableEq

structure Reply where
  status : ℕ
  raw : Raw
deriving DecidableEq

/-- An answer that tells that a name is not registered, or not any more. -/
def Reply.confirms (reply : Reply) : Prop := reply = ⟨200, .deleted⟩ ∨ reply = ⟨404, .absent⟩

instance (reply : Reply) : Decidable reply.confirms := inferInstanceAs (Decidable (_ ∨ _))

/-- The refusal of a request: no answer of the registry about a name. -/
structure Refusal where
  reply : Reply
  not_confirms : ¬reply.confirms

/-- What becomes of a request: it is lost, refused, or takes effect; then its answer is the server's own or an
`altered` one. -/
inductive Fate where
  | lost
  | refused (refusal : Refusal)
  | done (pcm : List UInt8) (altered : Option Reply)

/-- `preview-cleanup.json` -/
structure Record where
  schema_version : ℕ
  alias_name : Name

/-- The server with its requests that wait and the answer to the last one, and Studio's record. `sent` are the
requests that were sent, each with the voices registered then. -/
structure State where
  up : Bool
  registered : List Name
  queue : List Request
  answer : Option (Request × Reply)
  record : Option Record
  sent : List (Request × List Name)

/-- A request takes effect. -/
def effect (r : Request) (names : List Name) : List Name :=
  match r with
  | .delete name => names.filter (· ≠ name)
  | .register name _ => name :: names.filter (· ≠ name)
  | .speech _ _ => names

local instance lawfulBEq_name : LawfulBEq Name := inferInstance

/-- The server's answer to a request that takes effect. -/
def ownReply (r : Request) (names : List Name) (pcm : List UInt8) : Reply :=
  match r with
  | .delete name => if name ∈ names then ⟨200, .deleted⟩ else ⟨404, .absent⟩
  | .register name _ => ⟨200, .registered name⟩
  | .speech name _ => if name ∈ names then ⟨200, .bytes pcm⟩ else ⟨404, .json⟩

/-- The first request of the queue is handled. An answer reaches nobody but the sender of the last one. -/
def handle (fate : Fate) (r : Request) (rest : List Request) (s : State) : State :=
  match fate with
  | .lost => { s with queue := rest }
  | .refused refusal => { s with queue := rest, answer := if rest.isEmpty then some (r, refusal.reply) else none }
  | .done pcm altered =>
    { s with
      queue := rest
      registered := effect r s.registered
      answer := if rest.isEmpty then some (r, altered.getD (ownReply r s.registered pcm)) else none }

/-- What the server does by itself. -/
inductive Move where
  | handles (fate : Fate)
  | exits
  | starts

def move (s : State) : Move → State
  | .handles fate =>
    match s.queue with
    | [] => s
    | r :: rest => handle fate r rest s
  | .exits => { s with up := false, registered := [], queue := [], answer := none }
  | .starts => if s.up then s else { s with up := true, registered := [], queue := [], answer := none }

/-! ## The steps of a program -/

inductive Error where
  | os
  | runtime (text : String)
  | denied
  | cleanup_failed
  | deferred (reason : String)
deriving DecidableEq

/-- What may happen while a program runs. -/
structure Env where
  moves : ℕ → List Move
  fault : ℕ → Fault
  token : ℕ → Token
  wav : ℕ → List UInt8
  available : ℕ → ℕ
  /-- `assert_idle(serviceCheck())` passes. -/
  idle : ℕ → Bool

abbrev Studio (α : Type) := Prog Env State Error α

/-- One step, after what the server does meanwhile. -/
def op (e : Error) (f : State → State) : Studio Unit := do
  let moves ← ask Env.moves
  modify fun s => moves.foldl move s
  step Env.fault e f

def send (r : Request) (s : State) : State :=
  { s with queue := s.queue ++ [r], answer := none, sent := s.sent ++ [(r, s.registered)] }

/-- `owned_preview_exchange`. -/
def exchange (r : Request) : Studio Reply := do
  op .os id
  let s ← get
  require s.up .os
  modify (send r)
  op .os id
  let s ← get
  match s.answer with
  | some (_, reply) => return reply
  | none => raise .os

def removePreviewAlias (name : Name) : Studio Bool := do
  let reply ← exchange (.delete name)
  match reply.raw with
  | .bytes _ => raise (.runtime "Native voice removal returned an invalid response")
  | _ =>
    if reply = ⟨200, .deleted⟩ then return true
    else if reply = ⟨404, .absent⟩ then return false
    else raise (.runtime "Native voice removal is unavailable")

/-- `cleanup_path.unlink()`. -/
def unlink : Studio Unit := op .os fun s => { s with record := none }

def recoverPreviewAlias : Studio Unit := do
  op .os id
  match (← get).record with
  | none => return ()
  | some record =>
    attempt
      (do
        op .os id
        require (record.schema_version = 1 ∧ isPreview record.alias_name) (.runtime "Invalid preview cleanup identity")
        let _ ← removePreviewAlias record.alias_name
        unlink)
      fun _ => raise .cleanup_failed

/-! ## The programs -/

/-- What `nativeProfilePreview` does in its `try`. -/
def speak (name : Name) (reference : Reference) (text : String) : Studio Raw := do
  op .denied id
  let reply ← exchange (.register name reference)
  match reply.raw with
  | .bytes _ => raise (.runtime "Native preview registration returned an invalid response")
  | _ =>
    require (reply = ⟨200, .registered name⟩) (.runtime "Native preview registration was rejected")
    op .denied id
    let reply ← exchange (.speech name text)
    require (reply.status = 200) (.runtime "Native preview synthesis failed")
    return reply.raw

/-- What it does in its `finally`. -/
def discard (name : Name) : Studio Unit :=
  attempt
    (do
      let _ ← attempt (removePreviewAlias name) fun _ => removePreviewAlias name
      unlink)
    fun _ => raise .cleanup_failed

def nativeProfilePreview (reference_text text : String) : Studio Raw := do
  op .os id
  recoverPreviewAlias
  let available ← ask Env.available
  require (18 * 1024 ^ 3 ≤ available) (.runtime "Free memory is below the existing 18 GiB reserve")
  let token ← ask Env.token
  if ← removePreviewAlias token.aliasName then
    raise (.runtime "Unexpected temporary voice alias collision")
  else
    op .os id
    let wav ← ask Env.wav
    op .denied id
    op .os fun s => { s with record := some ⟨1, token.aliasName⟩ }
    ensure (speak token.aliasName ⟨reference_text, wav⟩ text) (discard token.aliasName)

/-- `assert_idle(serviceCheck())`. -/
def serviceCheck : Studio Unit := do
  op .os id
  let idle ← ask Env.idle
  require idle (.deferred "call_active_or_status_invalid")

/-- The step of the retention cleanup for the record, if there is one. -/
def cleanupPreviewAlias : Studio Unit := do
  op .os id
  match (← get).record with
  | none => return ()
  | some record => do
    serviceCheck
    let tts_running := (← get).up
    op .os id
    require (record.schema_version = 1 ∧ isPreview record.alias_name) (.deferred "invalid_preview_cleanup_identity")
    if tts_running then
      attempt recoverPreviewAlias fun e =>
        if e = .cleanup_failed then raise (.deferred "preview_cleanup_failed") else raise e
    else unlink

end StrixAlloy.VoicePreview

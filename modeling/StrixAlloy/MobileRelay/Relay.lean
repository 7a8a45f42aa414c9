import StrixAlloy.MobileRelay.Registry

/-!
# The mobile relay's registry, as it is read

The relay reads the whole file anew for every decision: `strictValue` bounds its depth and rejects a key
that occurs twice, the decoder fills the fields of the file's structures, and `load` rejects the file for
one entry that is not well formed. `authenticateReason` finds the session of a username of three parts.

The JSON library is a parameter that reads what was written (`Library`).
-/

namespace StrixAlloy.MobileRelay

/-- What the reader's standard library does: JSON texts as trees that keep the order of keys and the keys
that occur twice, the case folding of keys, numbers as floating-point values, and addresses with colons. -/
structure Library (F : Type) where
  parse : List UInt8 → Option Json
  equalFold : String → String → Bool
  ofInt : ℤ → Option F
  parseIPv6 : String → Option (List ℕ)
  sha256 : List UInt8 → List UInt8
  parse_text : ∀ v : Json, v.encodable → parse (utf8 v.text) = some v

/-! ## Decoding -/

mutual

/-- `strictValue`. -/
def strictValue (depth : ℕ) : Json → Bool
  | .list items => depth ≤ 8 && strictItems (depth + 1) items
  | .dict members => depth ≤ 8 && decide (members.map Prod.fst).Nodup && strictMembers (depth + 1) members
  | _ => depth ≤ 8

def strictItems (depth : ℕ) : List Json → Bool
  | [] => true
  | v :: vs => strictValue depth v && strictItems depth vs

def strictMembers (depth : ℕ) : List (String × Json) → Bool
  | [] => true
  | (_, v) :: ms => strictValue depth v && strictMembers depth ms

end

section Reader

variable {F : Type} [LinearOrder F] (x : Float64 F) (lib : Library F)

/-- The field that a key stands for: the one of its name, or else one that is equal to it under folding. -/
def fieldOf (names : List String) (key : String) : Option String :=
  (names.find? fun n => n = key) <|> (names.find? fun n => lib.equalFold key n)

def decodeString (old : String) : Json → Option String
  | .str s => some s
  | .null => some old
  | _ => none

def decodeInt (old : ℤ) : Json → Option ℤ
  | .int n => if -2 ^ 63 ≤ n ∧ n < 2 ^ 63 then some n else none
  | .null => some old
  | _ => none

def decodeFloat (old : F) : Json → Option F
  | .float f => x.parse f
  | .int n => lib.ofInt n
  | .null => some old
  | _ => none

/-- A list; the elements of the old one are not kept. -/
def decodeList {α : Type} (decode : Json → Option α) : Json → Option (List α)
  | .list items => items.mapM decode
  | .null => some []
  | _ => none

/-- The members of an object, one after another, into the fields of a structure. -/
def decodeMembers {α : Type} (names : List String) (set : α → String → Json → Option α) (old : α) :
    List (String × Json) → Option α
  | [] => some old
  | (key, v) :: ms =>
    (fieldOf lib names key).bind fun name =>
      (set old name v).bind fun new => decodeMembers names set new ms

def decodeStruct {α : Type} (names : List String) (set : α → String → Json → Option α) (old : α) :
    Json → Option α
  | .dict members => decodeMembers lib names set old members
  | .null => some old
  | _ => none

def setPeer (p : Peer) (name : String) (v : Json) : Option Peer :=
  if name = "ip" then (decodeString p.ip v).map fun ip => { p with ip := ip }
  else (decodeInt p.port v).map fun port => { p with port := port }

def decodePeer : Json → Option Peer := decodeStruct lib ["ip", "port"] setPeer { ip := "", port := 0 }

def setSession (s : Session F) (name : String) (v : Json) : Option (Session F) :=
  if name = "id" then (decodeString s.id v).map fun t => { s with id := t }
  else if name = "instance" then (decodeString s.instance_ v).map fun t => { s with instance_ := t }
  else if name = "service_id" then (decodeString s.service_id v).map fun t => { s with service_id := t }
  else if name = "token_sha256" then (decodeString s.token_sha256 v).map fun t => { s with token_sha256 := t }
  else if name = "expires_at" then (decodeFloat x lib s.expires_at v).map fun t => { s with expires_at := t }
  else (decodeList (decodePeer lib) v).map fun peers => { s with peers := peers }

/-- `Session{}`. -/
def emptySession : Session F where
  id := ""
  instance_ := ""
  service_id := ""
  token_sha256 := ""
  expires_at := x.zero
  peers := []

def decodeSession : Json → Option (Session F) :=
  decodeStruct lib ["id", "instance", "service_id", "token_sha256", "expires_at", "peers"] (setSession x lib)
    (emptySession x)

/-- `RegistryFile`. -/
structure RegistryFile (F : Type) where
  version : ℤ
  sessions : List (Session F)

def setFile (rf : RegistryFile F) (name : String) (v : Json) : Option (RegistryFile F) :=
  if name = "version" then (decodeInt rf.version v).map fun n => { rf with version := n }
  else (decodeList (decodeSession x lib) v).map fun sessions => { rf with sessions := sessions }

def decodeFile : Json → Option (RegistryFile F) :=
  decodeStruct lib ["version", "sessions"] (setFile x lib) { version := 0, sessions := [] }

/-! ## The checks -/

/-- The bytes of a string. -/
def bytesOf (s : String) : List UInt8 := utf8 s.toList

/-- `validPart`, on bytes: no byte of a character outside ASCII is in the range. -/
def validPart (bs : List UInt8) (max : ℕ) : Bool :=
  0 < bs.length && bs.length ≤ max && bs.all fun b => 33 ≤ b.toNat && b.toNat ≤ 126 && b.toNat ≠ 58

/-- The value of a hexadecimal digit of either case. -/
def hexDigit (c : Char) : Option ℕ :=
  if isDigit c then some (c.toNat - 48)
  else if 97 ≤ c.toNat ∧ c.toNat ≤ 102 then some (c.toNat - 87)
  else if 65 ≤ c.toNat ∧ c.toNat ≤ 70 then some (c.toNat - 55)
  else none

/-- `hex.DecodeString`. -/
def hexDecode : List Char → Option (List UInt8)
  | [] => some []
  | [_] => none
  | a :: b :: cs =>
    (hexDigit a).bind fun i => (hexDigit b).bind fun j =>
      (hexDecode cs).map fun bs => UInt8.ofNat (16 * i + j) :: bs

/-- `net.ParseIP` and `To4`: the octets of an IPv4 address, or of one that an IPv6 address maps. -/
def to4 (s : String) : Option (List ℕ) :=
  match dotted s with
  | some octets => some octets
  | none =>
    (lib.parseIPv6 s).bind fun bytes =>
      if bytes.take 12 = List.replicate 10 0 ++ [255, 255] ∧ bytes.length = 16 then some (bytes.drop 12) else none

/-- The checks on a peer. -/
def peerOk (p : Peer) : Bool :=
  match to4 lib p.ip with
  | some octets => octets ≠ [0, 0, 0, 0] && octets.head?.all (fun a => a / 16 ≠ 14) && 1 ≤ p.port && p.port ≤ 65535
  | none => false

/-- The checks on a session, apart from that on its name's being new. -/
def sessionOk (now : F) (s : Session F) : Bool :=
  validPart (bytesOf s.id) 128 && validPart (bytesOf s.instance_) 255 && validPart (bytesOf s.service_id) 128 &&
    (hexDecode s.token_sha256.toList).any (fun hash => hash.length = 32) && s.peers.length ≤ 32 &&
    s.expires_at ≤ x.add now x.day && s.peers.all (peerOk lib)

/-- `Registry.Load`, of what is in the file, if it can be opened. -/
def load (file : Option (List UInt8)) (now : F) : Option (List (Session F)) :=
  file.bind fun bytes =>
    if 262144 < bytes.length then none
    else
      (lib.parse bytes).bind fun v =>
        if ¬ strictValue 0 v then none
        else
          (decodeFile x lib v).bind fun rf =>
            if rf.version ≠ 1 ∨ 128 < rf.sessions.length ∨ ¬ rf.sessions.all (sessionOk x lib now) ∨
                ¬ (rf.sessions.map (·.id)).Nodup then none
            else some rf.sessions

/-! ## Authentication -/

/-- `strings.SplitN` with a colon and three parts. -/
def splitUsername (bs : List UInt8) : Option (List UInt8 × List UInt8 × List UInt8) :=
  match bs.dropWhile (· ≠ 58) with
  | [] => none
  | _ :: rest =>
    match rest.dropWhile (· ≠ 58) with
    | [] => none
    | _ :: token => some (bs.takeWhile (· ≠ 58), rest.takeWhile (· ≠ 58), token)

/-- The parts of a username that has the shape of one. -/
def parseUsername (bs : List UInt8) : Option (List UInt8 × List UInt8 × List UInt8) :=
  if 8192 < bs.length then none
  else
    (splitUsername bs).bind fun (inst, service, token) =>
      if validPart inst 255 ∧ validPart service 128 ∧ token ≠ [] ∧
          token.all (fun b => 33 ≤ b.toNat && b.toNat ≤ 126) then some (inst, service, token)
      else none

/-- What the loop over the sessions has seen. -/
structure Seen (F : Type) where
  found : Session F
  matches_ : ℕ
  inst : Bool
  service : Bool
  credential : Bool

/-- Whether the session's token is the one presented. -/
def sameToken (s : Session F) (token : List UInt8) : Bool :=
  hexDecode s.token_sha256.toList = some (lib.sha256 token)

/-- The loop's body. -/
def see (inst service token : List UInt8) (now : F) (seen : Seen F) (s : Session F) : Seen F :=
  if bytesOf s.instance_ = inst then
    let seen := { seen with inst := true }
    if bytesOf s.service_id = service then
      let seen := { seen with service := true }
      if sameToken lib s token then
        let seen := { seen with credential := true }
        if now < s.expires_at then { seen with found := s, matches_ := seen.matches_ + 1 } else seen
      else seen
    else seen
  else seen

/-- Why a username is rejected. -/
inductive Reason where
  | shape
  | registry
  | ambiguous
  | instance_
  | service
  | token
  | expired

/-- `AuthenticateReason`, which loads the file at the reading `loaded` and compares at the reading `now`. -/
def authenticateReason (file : Option (List UInt8)) (username : List UInt8) (loaded now : F) :
    Except Reason (Session F) :=
  match parseUsername username with
  | none => .error .shape
  | some (inst, service, token) =>
    match load x lib file loaded with
    | none => .error .registry
    | some sessions =>
      let seen := sessions.foldl (see lib inst service token now)
        { found := emptySession x, matches_ := 0, inst := false, service := false, credential := false }
      if seen.matches_ = 1 then .ok seen.found
      else if 1 < seen.matches_ then .error .ambiguous
      else if ¬ seen.inst then .error .instance_
      else if ¬ seen.service then .error .service
      else if ¬ seen.credential then .error .token
      else .error .expired

end Reader

end StrixAlloy.MobileRelay

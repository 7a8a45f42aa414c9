import StrixAlloy.Lib.Bucket
import StrixAlloy.MobileRelay.Relay

/-!
# The relay's packet sockets

`Generator` hands out sockets that are bound to a session and reads the registry anew for every datagram. Calls come
in any number at once. Each registry read and each locked section is one step: `Close` closes the raw socket and
takes the entry out of the count in one, and what a call does after its rate check goes with that check. The clock
that the sockets' ages and tokens are computed from is rational; `unix` is what the registry makes of it.
-/

namespace StrixAlloy.MobileRelay

/-- An address: the four bytes of a UDP address that has them, and the port. -/
inductive Addr
  | udp (ip : Option (List ℕ)) (port : ℤ)
  | other

def maxPayload : ℕ := 8192

/-- An hour, in seconds. -/
def maxConnLifetime : ℚ := 3600

section Sessions

variable {F : Type} [LinearOrder F] (x : Float64 F) (lib : Library F)

/-- `Registry.Session` -/
def session (file : Option (List UInt8)) (id : String) (now : F) : Option (Session F) :=
  (load x lib file now).bind fun sessions => sessions.find? fun s => s.id = id ∧ now < s.expires_at

omit [LinearOrder F] in
/-- The parts of a session's name, separated by NUL. -/
def identity (s : Session F) : List Char :=
  s.id.toList ++ '\x00' :: (s.instance_.toList ++ '\x00' :: (s.service_id.toList ++
    '\x00' :: s.token_sha256.toList.map Char.toLower))

/-- `hex.EncodeToString` -/
def hexEncode (bs : List UInt8) : List Char :=
  bs.flatMap fun b => [Nat.digitChar (b.toNat / 16), Nat.digitChar (b.toNat % 16)]

def boundID (s : Session F) : List Char := hexEncode (lib.sha256 (utf8 (identity s)))

/-- `Registry.BoundSession` -/
def boundSession (file : Option (List UInt8)) (binding : List UInt8) (now : F) : Option (Session F) :=
  if binding.length ≠ 64 then none
  else
    (load x lib file now).bind fun sessions =>
      sessions.find? fun s => now < s.expires_at ∧ utf8 (boundID lib s) = binding

def sessionAllows (s : Session F) : Addr → Bool
  | .udp (some ip) port => s.peers.any fun p => p.port = port ∧ to4 lib p.ip = some ip
  | _ => false

end Sessions

/-- `guardedPacket`: what does not change, and the session it was allocated for. -/
structure GuardedPacket (F : Type) where
  id : String
  identity : List Char
  created : ℚ
  session : Session F

/-- Where a call is: before its registry read, after it with the session it showed, or before it closes. -/
inductive Call (F : Type)
  | allocate (network : String) (port : ℕ) (userID : List UInt8)
  | bound (s : Session F)
  | write (k : ℕ) (b : List UInt8) (a : Addr)
  | writing (k : ℕ) (s : Session F) (b : List UInt8) (a : Addr)
  | read (k : ℕ) (size : ℕ)
  | receive (k : ℕ) (size : ℕ)
  | received (k : ℕ) (size : ℕ) (b : List UInt8) (a : Addr)
  | reading (k : ℕ) (s : Session F) (size : ℕ) (b : List UInt8) (a : Addr)
  | close (k : ℕ)
  | sweep (cs : List ℕ)
  | sweepClose (k : ℕ) (cs : List ℕ)
  | closeAll (cs : List ℕ)
  | done

/-- A registry read that a call made. -/
structure Read where
  call : ℕ
  file : Option (List UInt8)
  time : ℚ

/-- A datagram that passed. -/
structure Pass where
  call : ℕ
  socket : ℕ
  outward : Bool
  data : List UInt8
  addr : Addr
  time : ℚ

structure Generator (F : Type) where
  now : ℚ
  file : Option (List UInt8)
  /-- Every socket that was ever allocated. -/
  sockets : List (GuardedPacket F)
  /-- The sockets' tokens, with the time of their last update. -/
  bucket : ℕ → Bucket ℚ
  /-- Whether the raw socket is open. -/
  raw : ℕ → Bool
  conns : List ℕ
  closed : Bool
  calls : List (Call F)
  reads : List Read
  passed : List Pass

/-- What the network does in a step: whether a socket can be had, what arrives at it, and whether it sends. -/
structure World where
  listens : Bool
  arrives : Option (List UInt8 × Addr)
  sends : Bool

/-- The calls that may begin. -/
inductive Begin
  | allocate (network : String) (port : ℕ) (userID : List UInt8)
  | write (k : ℕ) (b : List UInt8) (a : Addr)
  | read (k : ℕ) (size : ℕ)
  | close (k : ℕ)
  | sweep
  | closeAll

inductive Action
  /-- The clock is read anew. -/
  | tick (t : ℚ)
  | rewrite (file : Option (List UInt8))
  | begin (b : Begin)
  | go (j : ℕ) (w : World)

namespace Generator

variable {F : Type} [LinearOrder F] (x : Float64 F) (lib : Library F) (unix : ℚ → F) (local_ : List (List ℕ))

/-- `NewGenerator` -/
def init (now : ℚ) : Generator F where
  now := now
  file := none
  sockets := []
  bucket _ := ⟨now, 1048576⟩
  raw _ := false
  conns := []
  closed := false
  calls := []
  reads := []
  passed := []

omit [LinearOrder F] in
/-- The id of a socket. -/
def id? (g : Generator F) (k : ℕ) : Option String := g.sockets[k]?.map GuardedPacket.id

/-- The call `j` goes on at `c`. -/
def goto (g : Generator F) (j : ℕ) (c : Call F) : Generator F := { g with calls := g.calls.set j c }

/-- The call `j` has read the registry. -/
def noted (g : Generator F) (j : ℕ) : Generator F := { g with reads := g.reads ++ [⟨j, g.file, g.now⟩] }

/-- `guardedPacket.active` -/
def active (g : Generator F) (k : ℕ) : Option (Session F) :=
  g.sockets[k]?.bind fun p =>
    (session x lib g.file p.id (unix g.now)).filter fun s =>
      identity s = p.identity ∧ g.now - p.created < maxConnLifetime

/-- `guardedPacket.allowed` -/
def allowed (s : Session F) (a : Addr) : Bool :=
  match a with
  | .udp (some ip) _ => local_.contains ip && sessionAllows lib s a
  | _ => false

/-- `guardedPacket.rateAllow` -/
def rateAllow (g : Generator F) (k n : ℕ) : Bool × Generator F :=
  let r := (g.bucket k).take 1048576 1048576 g.now n
  (r.1, { g with bucket := Function.update g.bucket k r.2 })

/-- `guardedPacket.Close` -/
def close (g : Generator F) (k : ℕ) : Generator F :=
  { g with raw := Function.update g.raw k false, conns := g.conns.filter (· ≠ k) }

/-- The datagram passes. -/
def pass (g : Generator F) (p : Pass) : Generator F := { g with passed := g.passed ++ [p] }

omit [LinearOrder F] in
/-- A new socket for the session. -/
def added (g : Generator F) (s : Session F) : Generator F :=
  let k := g.sockets.length
  { g with
    sockets := g.sockets ++ [{ id := s.id, identity := identity s, created := g.now, session := s }]
    bucket := Function.update g.bucket k ⟨g.now, 1048576⟩
    raw := Function.update g.raw k true
    conns := g.conns ++ [k] }

omit [LinearOrder F] in
/-- The locked section of `AllocatePacketConn`. -/
def allocate (g : Generator F) (s : Session F) (w : World) : Generator F :=
  let count := (g.conns.filter fun k => g.id? k = some s.id).length
  if g.closed ∨ 8 ≤ g.conns.length ∨ 4 ≤ count ∨ ¬ w.listens then g else g.added s

/-- A call begins. `sweep` and `Close` begin with a locked section that takes down the sockets. -/
def begin (g : Generator F) : Begin → Generator F
  | .allocate network port userID => { g with calls := g.calls ++ [.allocate network port userID] }
  | .write k b a => { g with calls := g.calls ++ [.write k b a] }
  | .read k size => { g with calls := g.calls ++ [.read k size] }
  | .close k => { g with calls := g.calls ++ [.close k] }
  | .sweep => { g with calls := g.calls ++ [.sweep g.conns] }
  | .closeAll => { g with closed := true, calls := g.calls ++ [if g.closed then .done else .closeAll g.conns] }

/-- The next step of the call `j`, which is at `c`. -/
def next (g : Generator F) (j : ℕ) (w : World) : Call F → Generator F
  | .allocate network port userID =>
    if network ≠ "udp4" ∨ port ≠ 0 then g.goto j .done
    else
      match boundSession x lib g.file userID (unix g.now) with
      | none => g.goto j .done
      | some s => g.goto j (.bound s)
  | .bound s => (g.allocate s w).goto j .done
  | .write k b a =>
    match g.active x lib unix k with
    | none => (g.noted j).goto j (.close k)
    | some s => (g.noted j).goto j (.writing k s b a)
  | .writing k s b a =>
    if maxPayload < b.length ∨ ¬ allowed lib local_ s a then g.goto j .done
    else
      let r := g.rateAllow k b.length
      if r.1 ∧ g.raw k ∧ w.sends then (r.2.pass ⟨j, k, true, b, a, g.now⟩).goto j .done
      else r.2.goto j .done
  | .read k size =>
    match g.active x lib unix k with
    | none => (g.noted j).goto j (.close k)
    | some _ => (g.noted j).goto j (.receive k size)
  | .receive k size =>
    match w.arrives with
    | some (b, a) => if g.raw k then g.goto j (.received k size (b.take (maxPayload + 1)) a) else g.goto j .done
    | none => g.goto j .done
  | .received k size b a =>
    match g.active x lib unix k with
    | none => (g.noted j).goto j (.close k)
    | some s => (g.noted j).goto j (.reading k s size b a)
  | .reading k s size b a =>
    if maxPayload < b.length ∨ size < b.length ∨ ¬ allowed lib local_ s a then g.goto j (.read k size)
    else
      let r := g.rateAllow k b.length
      if r.1 then (r.2.pass ⟨j, k, false, b, a, g.now⟩).goto j .done else r.2.goto j (.read k size)
  | .close k => (g.close k).goto j .done
  | .sweep [] => g.goto j .done
  | .sweep (k :: cs) =>
    match g.active x lib unix k with
    | none => (g.noted j).goto j (.sweepClose k cs)
    | some _ => (g.noted j).goto j (.sweep cs)
  | .sweepClose k cs => (g.close k).goto j (.sweep cs)
  | .closeAll [] => g.goto j .done
  | .closeAll (k :: cs) => (g.close k).goto j (.closeAll cs)
  | .done => g

def step (g : Generator F) : Action → Generator F
  | .tick t => { g with now := max g.now t }
  | .rewrite file => { g with file := file }
  | .begin b => g.begin b
  | .go j w =>
    match g.calls[j]? with
    | none => g
    | some c => g.next x lib unix local_ j w c

end Generator

end StrixAlloy.MobileRelay

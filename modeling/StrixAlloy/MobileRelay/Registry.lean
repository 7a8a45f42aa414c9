import Mathlib.Data.List.Dedup
import StrixAlloy.Lib.Json
import StrixAlloy.Lib.Runs

/-!
# The mobile relay's registry, as it is written

`MobileRelayRegistry`: a table of sessions whose complete content replaces a file at every change, and
`localUdpPeers`, which collects the peers of a session. The clock and its arithmetic are a type with
the order of finite floating-point numbers and an addition that is monotone, as rounding is.

Every session that is published keeps the writer's checks (`SessionOk`).
-/

namespace StrixAlloy.MobileRelay

open List

/-- Finite floating-point numbers: what the writer and the reader do with clock readings. -/
structure Float64 (F : Type) [LinearOrder F] where
  add : F → F → F
  zero : F
  hour : F
  day : F
  repr : F → FloatText
  parse : FloatText → Option F
  add_le_add : ∀ {a b c d : F}, a ≤ b → c ≤ d → add a c ≤ add b d
  hour_le_day : hour ≤ day
  repr_length : ∀ a, (repr a).text.length ≤ 24
  parse_repr : ∀ a, parse (repr a) = some a

structure Peer where
  ip : String
  port : ℤ
deriving DecidableEq

structure Session (F : Type) where
  id : String
  instance_ : String
  service_id : String
  token_sha256 : String
  expires_at : F
  peers : List Peer
deriving DecidableEq

/-! ## The arguments -/

def isDigit (c : Char) : Bool := 48 ≤ c.toNat && c.toNat ≤ 57

def isLower (c : Char) : Bool := 97 ≤ c.toNat && c.toNat ≤ 122

def isHex (c : Char) : Bool := isDigit c || 97 ≤ c.toNat && c.toNat ≤ 102

def isAlnum (c : Char) : Bool := isLower c || isDigit c

/-- `_LABEL`. -/
def isLabel (s : String) : Bool :=
  s.toList.length ≤ 63 && s.toList.all (fun c => isAlnum c || c = '-') &&
    s.toList.head?.any isAlnum && s.toList.getLast?.any isAlnum

/-- `_ID`. -/
def isId (s : String) : Bool := s.toList.length = 32 && s.toList.all isHex

/-- `_HASH`. -/
def isHash (s : String) : Bool := s.toList.length = 64 && s.toList.all isHex

/-- A decimal octet without leading zeros. -/
def octet (cs : List Char) : Option ℕ :=
  if cs ≠ [] ∧ cs.all isDigit ∧ cs.length ≤ 3 ∧ (cs = ['0'] ∨ cs.head? ≠ some '0') ∧
      cs.foldl (fun n c => 10 * n + (c.toNat - 48)) 0 ≤ 255 then
    some (cs.foldl (fun n c => 10 * n + (c.toNat - 48)) 0)
  else none

/-- The octets of a dotted IPv4 address, as both libraries read one. -/
def dotted (s : String) : Option (List ℕ) :=
  match (s.toList.splitOn '.').mapM octet with
  | some [a, b, c, d] => some [a, b, c, d]
  | _ => none

/-- `_validIpv4`. -/
def validIpv4 (s : String) : Bool :=
  match dotted s with
  | some [a, b, c, d] =>
    [a, b, c, d] ≠ [0, 0, 0, 0] && a ≠ 127 && !(224 ≤ a && a ≤ 239) && !(a = 169 && b = 254) && a < 240
  | _ => false

/-! ## The peers of a session -/

/-- A gathered local candidate. -/
structure Candidate where
  type : String
  protocol : String
  component : ℤ
  ip : String
  port : ℤ

/-- An ICE transport, with the identity of the object, the state of its gatherer and its candidates. -/
structure Transport where
  ident : ℕ
  state : String
  candidates : List Candidate

/-- Whether a candidate is taken; `lower` is `str.lower`. -/
def Candidate.isHost (lower : String → String) (c : Candidate) : Bool :=
  c.type = "host" && lower c.protocol = "udp" && c.component = 1 && validIpv4 c.ip && 1024 ≤ c.port &&
    c.port ≤ 65535

/-- The endpoints of the transports that were not seen before; `none` if one has not been gathered. -/
def gather (lower : String → String) (seen : List ℕ) : List Transport → Option (List Peer)
  | [] => some []
  | t :: ts =>
    if t.ident ∈ seen then gather lower seen ts
    else if t.state ≠ "completed" then none
    else
      (gather lower (t.ident :: seen) ts).map fun rest =>
        (t.candidates.filter (·.isHost lower)).map (fun c => { ip := c.ip, port := c.port }) ++ rest

/-- The order of `sorted` on endpoints. -/
def Peer.le (p q : Peer) : Bool := p.ip < q.ip || p.ip = q.ip && p.port ≤ q.port

/-- `localUdpPeers`. -/
def localUdpPeers (lower : String → String) (transports : List Transport) (relay_address : String) :
    Option (List Peer) :=
  (gather lower [] transports).bind fun found =>
    if found.dedup = [] ∨ 32 < found.dedup.length ∨ relay_address ∉ found.dedup.map Peer.ip then none
    else some (found.dedup.mergeSort Peer.le)

/-! ## The file -/

section Writer

variable {F : Type} [LinearOrder F] (x : Float64 F)

/-- The bytes of a text. -/
def utf8 (cs : List Char) : List UInt8 := cs.flatMap String.utf8EncodeChar

def peerJson (p : Peer) : Json := .dict [("ip", .str p.ip), ("port", .int p.port)]

def sessionJson (s : Session F) : Json :=
  .dict [("id", .str s.id), ("instance", .str s.instance_), ("service_id", .str s.service_id),
    ("token_sha256", .str s.token_sha256), ("expires_at", .float (x.repr s.expires_at)),
    ("peers", .list (s.peers.map peerJson))]

def fileJson (sessions : List (Session F)) : Json :=
  .dict [("version", .int 1), ("sessions", .list (sessions.map (sessionJson x)))]

/-- What `_publish` writes. -/
def encoded (sessions : List (Session F)) : List UInt8 := utf8 (fileJson x sessions).text

/-! ## The registry -/

/-- The registry's state and its file. `published` is history: the sessions that the file was last
replaced with. -/
structure Registry (F : Type) where
  sessions : List (Session F)
  poisoned : Bool
  owned : Bool
  file : Option (List UInt8)
  published : List (Session F)

/-- How an update of the file ends: it is replaced; it is not, and is removed; or it stays as it was. -/
inductive Saved where
  | replaced
  | removed
  | stuck

/-- A new registry, which has published its empty table. -/
def Registry.init : Registry F where
  sessions := []
  poisoned := false
  owned := true
  file := some (encoded x [])
  published := []

/-- `_publish`. -/
def Registry.publish (r : Registry F) (sessions : List (Session F)) : Saved → Registry F
  | .replaced => { r with sessions := sessions, file := some (encoded x sessions), published := sessions }
  | .removed => { r with sessions := [], poisoned := true, file := none }
  | .stuck => { r with sessions := [], poisoned := true }

/-- `_current`. -/
def Registry.current (r : Registry F) (now : F) : List (Session F) := r.sessions.filter (now < ·.expires_at)

/-- An operation with the readings of the clock that it takes; a lifetime that is no finite number is
`none`. -/
inductive Op (F : Type) where
  | register (session_id instance_ service_id token_sha256 : String) (remaining_seconds : Option F)
      (now time : F) (saved : Saved)
  | setPeers (session_id : String) (transports : List Transport) (now : F) (saved : Saved)
  | prune (now : F) (saved : Saved)
  | revoke (session_id : String) (now : F) (saved : Saved)
  | close (saved : Saved)

/-- The reading from which an operation computes an expiry. -/
def Op.time? : Op F → Option F
  | .register _ _ _ _ _ _ time _ => some time
  | _ => none

/-- The checks of `register` on its arguments. -/
def registrable (session_id instance_ service_id token_sha256 : String) (remaining_seconds : F) : Bool :=
  isId session_id && isLabel instance_ && isId service_id && isHash token_sha256 &&
    x.zero < remaining_seconds && remaining_seconds ≤ x.hour

/-- One operation. An exception leaves the registry as it was. -/
def step (lower : String → String) (relay_address : String) (r : Registry F) : Op F → Registry F
  | .register session_id instance_ service_id token_sha256 remaining_seconds now time saved =>
    match remaining_seconds with
    | none => r
    | some remaining_seconds =>
      if ¬ registrable x session_id instance_ service_id token_sha256 remaining_seconds ∨ ¬ r.owned ∨
          r.poisoned ∨ session_id ∈ (r.current now).map (·.id) ∨ 128 ≤ (r.current now).length then r
      else
        r.publish x
          (r.current now ++
            [{ id := session_id, instance_ := instance_, service_id := service_id
               token_sha256 := token_sha256, expires_at := x.add time remaining_seconds, peers := [] }]) saved
  | .setPeers session_id transports now saved =>
    match localUdpPeers lower transports relay_address with
    | none => r
    | some peers =>
      if ¬ r.owned ∨ r.poisoned ∨ session_id ∉ (r.current now).map (·.id) then r
      else
        r.publish x ((r.current now).map fun s => if s.id = session_id then { s with peers := peers } else s)
          saved
  | .prune now saved => if ¬ r.owned ∨ r.poisoned then r else r.publish x (r.current now) saved
  | .revoke session_id now saved =>
    if ¬ r.owned ∨ r.poisoned then r
    else r.publish x ((r.current now).filter fun s => s.id ≠ session_id) saved
  | .close saved =>
    if ¬ r.owned then r
    else if r.poisoned then { r with owned := false }
    else { r.publish x [] saved with owned := false }

/-! ## What is published -/

/-- A peer that `localUdpPeers` takes. -/
structure PeerOk (p : Peer) : Prop where
  ip : validIpv4 p.ip
  port : 1024 ≤ p.port ∧ p.port ≤ 65535

/-- The checks that a published session has passed, and that it ends within an hour of a reading that is
not later than `now`. -/
structure SessionOk (now : F) (s : Session F) : Prop where
  id : isId s.id
  instance_ : isLabel s.instance_
  service_id : isId s.service_id
  token_sha256 : isHash s.token_sha256
  expires_at : s.expires_at ≤ x.add now x.hour
  peers : s.peers.length ≤ 32 ∧ ∀ p ∈ s.peers, PeerOk p

/-- A table that may be published. -/
structure TableOk (now : F) (sessions : List (Session F)) : Prop where
  entries : ∀ s ∈ sessions, SessionOk x now s
  distinct : (sessions.map (·.id)).Nodup
  length : sessions.length ≤ 128

/-- The invariant of a registry whose readings are not later than `now`. -/
structure Inv (now : F) (r : Registry F) : Prop where
  sessions : TableOk x now r.sessions
  published : TableOk x now r.published
  file : ∀ bytes, r.file = some bytes → bytes = encoded x r.published
  current : r.poisoned = false → r.sessions = r.published

variable {x} {now : F} {r : Registry F} {sessions : List (Session F)}

theorem tableOk_nil : TableOk x now [] where
  entries s hs := by cases hs
  distinct := nodup_nil
  length := Nat.zero_le _

theorem TableOk.filter (h : TableOk x now sessions) (p : Session F → Bool) : TableOk x now (sessions.filter p) where
  entries s hs := h.entries s (mem_of_mem_filter hs)
  distinct := h.distinct.sublist (filter_sublist.map _)
  length := (length_filter_le _ _).trans h.length

variable {lower : String → String}

theorem gather_ok {seen : List ℕ} {ts : List Transport} {found : List Peer} (h : gather lower seen ts = some found) :
    ∀ p ∈ found, PeerOk p := by
  induction ts generalizing seen found with
  | nil =>
    cases h
    intro p hp
    cases hp
  | cons t ts ih =>
    rw [gather] at h
    split_ifs at h with hseen hstate
    · exact ih h
    · obtain ⟨rest, hrest, rfl⟩ := Option.map_eq_some_iff.1 h
      intro p hp
      rcases mem_append.1 hp with hp | hp
      · obtain ⟨c, hc, rfl⟩ := mem_map.1 hp
        have hhost := (mem_filter.1 hc).2
        simp only [Candidate.isHost, Bool.and_eq_true, decide_eq_true_eq] at hhost
        exact ⟨hhost.1.1.2, hhost.1.2, hhost.2⟩
      · exact ih hrest p hp

theorem localUdpPeers_ok {ts : List Transport} {address : String} {peers : List Peer}
    (h : localUdpPeers lower ts address = some peers) : peers.length ≤ 32 ∧ ∀ p ∈ peers, PeerOk p := by
  obtain ⟨found, hfound, h⟩ := Option.bind_eq_some_iff.1 h
  split_ifs at h with hguard
  cases h
  push Not at hguard
  refine ⟨?_, fun p hp => ?_⟩
  · rw [length_mergeSort]
    exact hguard.2.1
  · have hmem : p ∈ found.dedup := (mergeSort_perm _ _).subset hp
    exact gather_ok hfound p (mem_dedup.1 hmem)

theorem Inv.publish (h : Inv x now r) (ht : TableOk x now sessions) (saved : Saved) :
    Inv x now (r.publish x sessions saved) := by
  cases saved with
  | replaced => exact ⟨ht, ht, fun bytes e => (Option.some.inj e).symm, fun _ => rfl⟩
  | removed => exact ⟨tableOk_nil, h.published, nofun, nofun⟩
  | stuck => exact ⟨tableOk_nil, h.published, h.file, nofun⟩

theorem inv_init : Inv x now (Registry.init x) :=
  ⟨tableOk_nil, tableOk_nil, fun _ e => (Option.some.inj e).symm, fun _ => rfl⟩

theorem TableOk.register (h : TableOk x now sessions) {session_id instance_ service_id token_sha256 : String}
    {remaining_seconds time : F} (htime : time ≤ now)
    (hargs : registrable x session_id instance_ service_id token_sha256 remaining_seconds)
    (hnew : session_id ∉ sessions.map (·.id)) (hroom : sessions.length < 128) :
    TableOk x now (sessions ++
      [{ id := session_id, instance_ := instance_, service_id := service_id, token_sha256 := token_sha256
         expires_at := x.add time remaining_seconds, peers := [] }]) := by
  simp only [registrable, Bool.and_eq_true, decide_eq_true_eq] at hargs
  obtain ⟨⟨⟨⟨⟨hid, hinstance⟩, hservice⟩, hhash⟩, -⟩, hhour⟩ := hargs
  refine ⟨fun s hs => ?_, ?_, ?_⟩
  · rcases mem_append.1 hs with hs | hs
    · exact h.entries s hs
    · rw [mem_singleton.1 hs]
      exact ⟨hid, hinstance, hservice, hhash, x.add_le_add htime hhour, Nat.zero_le _, nofun⟩
  · rw [map_append, nodup_append]
    refine ⟨h.distinct, by simp, fun a ha b hb => ?_⟩
    rw [map_singleton, mem_singleton] at hb
    rw [hb]
    rintro rfl
    exact hnew ha
  · rw [length_append, length_singleton]
    omega

theorem TableOk.setPeers (h : TableOk x now sessions) {session_id : String} {peers : List Peer}
    (hpeers : peers.length ≤ 32 ∧ ∀ p ∈ peers, PeerOk p) :
    TableOk x now (sessions.map fun s => if s.id = session_id then { s with peers := peers } else s) where
  entries s hs := by
    obtain ⟨s₀, hs₀, rfl⟩ := mem_map.1 hs
    have hok := h.entries s₀ hs₀
    split_ifs
    · exact { hok with peers := hpeers }
    · exact hok
  distinct := by
    have hids : (sessions.map fun s => if s.id = session_id then { s with peers := peers } else s).map (·.id) =
        sessions.map (·.id) := by
      rw [map_map]
      apply map_congr_left
      intro s _
      show (if s.id = session_id then { s with peers := peers } else s).id = s.id
      split_ifs <;> rfl
    rw [hids]
    exact h.distinct
  length := by
    rw [length_map]
    exact h.length

/-- An operation whose reading is not later than `now` keeps the invariant. -/
theorem Inv.step {address : String} (h : Inv x now r) {op : Op F} (htime : ∀ t, op.time? = some t → t ≤ now) :
    Inv x now (step x lower address r op) := by
  have hcurrent : ∀ n, TableOk x now (r.current n) := fun n => h.sessions.filter _
  cases op with
  | register session_id instance_ service_id token_sha256 remaining_seconds n time saved =>
    cases remaining_seconds with
    | none => exact h
    | some =>
      dsimp only [MobileRelay.step]
      split_ifs with hguard
      · exact h
      push Not at hguard
      obtain ⟨hargs, -, -, hnew, hroom⟩ := hguard
      exact h.publish ((hcurrent n).register (htime time rfl) hargs hnew hroom) saved
  | setPeers session_id transports n saved =>
    dsimp only [MobileRelay.step]
    split
    · exact h
    · rename_i peers hpeers
      split_ifs
      · exact h
      · exact h.publish ((hcurrent n).setPeers (localUdpPeers_ok hpeers)) saved
  | prune n saved =>
    dsimp only [MobileRelay.step]
    split_ifs
    · exact h
    · exact h.publish (hcurrent n) saved
  | revoke session_id n saved =>
    dsimp only [MobileRelay.step]
    split_ifs
    · exact h
    · exact h.publish ((hcurrent n).filter _) saved
  | close saved =>
    dsimp only [MobileRelay.step]
    split
    · exact h
    split
    · exact { h with }
    · have hempty := h.publish tableOk_nil saved
      exact { hempty with }

theorem inv_run {address : String} {ops : List (Op F)} (htime : ∀ op ∈ ops, ∀ t, op.time? = some t → t ≤ now) :
    Inv x now (Runs.run (step x lower address) (Registry.init x) ops) := by
  have hok : Runs.Admits (step x lower address) (fun _ op => ∀ t, op.time? = some t → t ≤ now)
      (Registry.init x) ops := by
    rintro pre op post rfl
    exact htime op (by simp)
  exact Runs.run_invariant_of (fun _ _ h hop => h.step hop) inv_init hok

end Writer

end StrixAlloy.MobileRelay

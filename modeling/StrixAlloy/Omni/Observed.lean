import StrixAlloy.Lib.Checked
import StrixAlloy.Lib.Json

/-!
# The observed socket

`_ObservedSocket` of a conversation: what it takes from the server, which of it it refuses, and what it
remembers of a response. The events of the server are decoded JSON values; the texts in them, which
Python counts in code points, have an encoding in UTF-8. A refusal is an exception, and carries what the
socket remembers where it is raised.
-/

namespace StrixAlloy.Omni

open Checked

/-- The members of an event. -/
abbrev Members := List (String × Json)

/-- `event.get(key)`. -/
def get (event : Members) (key : String) : Json := (Json.get? event key).getD .null

/-! ## Bounded values -/

/-- `_string`. -/
def string (limit : ℕ) (empty : Bool) : Json → Option String
  | .str s =>
    if (empty ∨ s ≠ "") ∧ s.length ≤ limit ∧ s.utf8ByteSize ≤ limit * 4 then some s else none
  | _ => none

/-- `_integer`. A Boolean is none. -/
def integer (minimum : ℤ) : Json → Option ℤ
  | .int n => if minimum ≤ n ∧ n ≤ 2 ^ 53 - 1 then some n else none
  | _ => none

/-- `value == text`. -/
def isText (text : String) : Json → Bool
  | .str s => s = text
  | _ => false

/-- `type(value) is int and value == n`. -/
def isInt (n : ℤ) : Json → Bool
  | .int m => m = n
  | _ => false

/-- `value is True`. -/
def isTrue : Json → Bool
  | .bool b => b
  | _ => false

/-- The value of a Boolean. -/
def bool : Json → Option Bool
  | .bool b => some b
  | _ => none

mutual

/-- `_bounded`: the size of a value, if it is within the bounds. `small` says of a finite floating-point
number whether its magnitude is at most `2 ^ 53`. -/
def bounded (small : FloatText → Bool) (depth : ℕ) (value : Json) : Option ℕ :=
  if 5 < depth then none
  else
    match value with
    | .null | .bool _ => some 5
    | .str s => (string 16384 true (.str s)).map fun s => s.utf8ByteSize + 2
    | .int n => if n.natAbs ≤ 2 ^ 53 then some 24 else none
    | .float f => if small f then some 24 else none
    | .nonfinite _ => none
    | .list items => if items.length ≤ 64 then boundedItems small (depth + 1) 2 items else none
    | .dict members => if members.length ≤ 64 then boundedMembers small (depth + 1) 2 members else none

/-- The loop over the items of a list, from the size so far. -/
def boundedItems (small : FloatText → Bool) (depth size : ℕ) : List Json → Option ℕ
  | [] => some size
  | item :: items =>
    match bounded small depth item with
    | none => none
    | some n =>
      if size + (n + 1) ≤ 32768 then boundedItems small depth (size + (n + 1)) items else none

/-- The loop over the members of an object, from the size so far. -/
def boundedMembers (small : FloatText → Bool) (depth size : ℕ) : Members → Option ℕ
  | [] => some size
  | (key, item) :: members =>
    match string 128 false (.str key), bounded small depth item with
    | some key, some n =>
      if size + (key.length + n + 4) ≤ 32768 then
        boundedMembers small depth (size + (key.length + n + 4)) members
      else none
    | _, _ => none

end

variable {small : FloatText → Bool}

/-! ## The socket -/

/-- The variables of `_ObservedSocket`, without the socket under it. -/
structure Observed where
  closed : Bool
  session_id : Option String
  turn_id : Option ℤ
  generation_id : Option ℤ
  last_turn : ℤ
  last_generation : ℤ
  first_at : Option ℚ
  done_at : Option ℚ
  terminal_at : Option ℚ
  delta_size : ℕ
  events : ℕ

/-- What an event leads to: an exception, where the variables are as given, or the next variables, with
the event if it is returned. An empty delta is passed over. -/
abbrev Seen := Except Observed (Observed × Option Members)

namespace Observed

def init : Observed := ⟨false, none, none, none, 0, 0, none, none, none, 0, 0⟩

/-- `beginResponse`. -/
def beginResponse (o : Observed) : Observed :=
  { o with turn_id := none, generation_id := none, first_at := none, done_at := none,
           terminal_at := none, delta_size := 0, events := 0 }

/-- The first event of a session. -/
def sessionReady (o : Observed) (event : Members) : Seen := do
  require (o.session_id = none ∧ isText "text" (get event "mode")) o
  let session_id ← orThrow (string 128 false (get event "session_id")) o
  return ({ o with session_id := some session_id }, some event)

/-- The kinds of events of a response. -/
def kinds : List String :=
  ["input.committed", "response.created", "response.text.delta", "response.text.done",
   "response.cancelled", "metrics"]

/-- The generation that an event names, if any. -/
def generation (o : Observed) (event : Members) : Except Observed (Option ℤ) :=
  match get event "generation_id" with
  | .null => return none
  | v => return some (← orThrow (integer 1 v) o)

/-- An event of a generation that has ended. -/
def old (o : Observed) (event : Members) : Seen :=
  match Json.get? event "turn_id" with
  | none => return (o, some event)
  | some v => do
    let turn ← orThrow (integer 0 v) o
    require (0 < turn ∧ turn ≤ o.last_turn) o
    return (o, some event)

def committed (o : Observed) (incoming : Option ℤ) (event : Members) : Seen := do
  require (o.turn_id = none ∧ incoming = none ∧ isTrue (get event "text")) o
  let turn ← orThrow (integer 1 (get event "turn_id")) o
  require (o.last_turn < turn) { o with turn_id := some turn }
  return ({ o with turn_id := some turn }, some event)

def created (o : Observed) (incoming : Option ℤ) (event : Members) : Seen := do
  require (o.generation_id = none ∧ ∃ turn ∈ o.turn_id, isInt turn (get event "turn_id")) o
  let generation ← orThrow incoming o
  return ({ o with generation_id := some generation }, some event)

/-- The text of a delta. -/
def textDelta (o : Observed) (now : Option ℚ) (event : Members) : Seen := do
  let delta ← orThrow (string 16384 true (get event "delta")) o
  if delta = "" then return (o, none)
  else
    let o := { o with delta_size := o.delta_size + delta.length }
    require (o.delta_size ≤ 16384) o
    match o.first_at with
    | some _ => return (o, some event)
    | none =>
      let now ← orThrow now o
      return ({ o with first_at := some now }, some event)

def textDone (o : Observed) (now : Option ℚ) (event : Members) : Seen := do
  require (o.done_at = none) o
  let _ ← orThrow (string 16384 true (get event "text")) o
  let now ← orThrow now o
  return ({ o with done_at := some now }, some event)

def metrics (o : Observed) (now : Option ℚ) (turn generation : ℤ) (event : Members) : Seen := do
  require ((bool (get event "cancelled")).isSome ∧ isInt turn (get event "turn_id")) o
  let now ← orThrow now o
  return ({ o with terminal_at := some now, last_turn := turn, last_generation := generation },
    some event)

/-- An event of the response that was created. Where it names a turn, it has to be the current one, which
a created response has. -/
def response (o : Observed) (now : Option ℚ) (kind : String) (incoming : Option ℤ) (event : Members) :
    Seen :=
  match o.turn_id, o.generation_id with
  | some turn, some generation => do
    require (incoming = some generation) o
    require ((Json.get? event "turn_id").all (isInt turn)) o
    if kind = "response.text.delta" then o.textDelta now event
    else if kind = "response.text.done" then o.textDone now event
    else if kind = "metrics" then o.metrics now turn generation event
    else return (o, some event)
  | _, _ => throw o

/-- What follows the checks that every event of a session has to pass. -/
def dispatch (o : Observed) (now : Option ℚ) (kind : String) (incoming : Option ℤ) (event : Members) :
    Seen :=
  if incoming.any (· ≤ o.last_generation) then o.old event
  else if kind = "input.committed" then o.committed incoming event
  else if kind = "response.created" then o.created incoming event
  else o.response now kind incoming event

/-- The counted event, of a known kind. -/
def counted (o : Observed) (now : Option ℚ) (kind : String) (event : Members) : Seen := do
  require (o.events ≤ 4096) o
  if kind = "session.ready" then o.sessionReady event
  else
    require (o.session_id ≠ none) o
    require ((Json.get? event "session_id").all fun v => o.session_id.any fun s => isText s v) o
    require (kind ∈ kinds) o
    let incoming ← o.generation event
    o.dispatch now kind incoming event

/-- `receive_json`, from the event that the socket under it returned. `now` is the value of `self.now()`,
or `none` where that raises. -/
def receive (small : FloatText → Bool) (o : Observed) (now : Option ℚ) : Json → Seen
  | .dict event => do
    require (!o.closed) o
    require (bounded small 0 (.dict event)).isSome o
    let kind ← orThrow (string 64 false (get event "type")) o
    { o with events := o.events + 1 }.counted now kind event
  | _ => throw o

/-! ## What the socket returns -/

/-- The socket after one more event. -/
def bump (o : Observed) : Observed := { o with events := o.events + 1 }

/-- The event is one of the response that was created. -/
structure Current (o : Observed) (event : Members) (turn generation : ℤ) : Prop where
  turn_id : o.turn_id = some turn
  generation_id : o.generation_id = some generation
  incoming : get event "generation_id" = .int generation
  new : o.last_generation < generation
  named : (Json.get? event "turn_id").all (isInt turn)

/-- What the socket may make of an event that it does not refuse, with what it has checked. -/
inductive Receives (o : Observed) (event : Members) : Observed → Option Members → Prop where
  | ready (session_id : String) (hnone : o.session_id = none)
      (hkind : get event "type" = .str "session.ready")
      (hid : string 128 false (get event "session_id") = some session_id) :
      Receives o event { o.bump with session_id := some session_id } (some event)
  | old (generation : ℤ) (hsession : o.session_id ≠ none)
      (hgen : get event "generation_id" = .int generation) (hle : generation ≤ o.last_generation) :
      Receives o event o.bump (some event)
  | committed (turn : ℤ) (hsession : o.session_id ≠ none)
      (hkind : get event "type" = .str "input.committed") (hgen : get event "generation_id" = .null)
      (hturn : get event "turn_id" = .int turn) (hnone : o.turn_id = none) (hlt : o.last_turn < turn) :
      Receives o event { o.bump with turn_id := some turn } (some event)
  | created (turn generation : ℤ) (hsession : o.session_id ≠ none)
      (hkind : get event "type" = .str "response.created")
      (hgen : get event "generation_id" = .int generation) (hlt : o.last_generation < generation)
      (hturn : o.turn_id = some turn) (hid : get event "turn_id" = .int turn)
      (hnone : o.generation_id = none) :
      Receives o event { o.bump with generation_id := some generation } (some event)
  | skipped (turn generation : ℤ) (hsession : o.session_id ≠ none)
      (hkind : get event "type" = .str "response.text.delta") (hcur : Current o event turn generation)
      (hdelta : get event "delta" = .str "") : Receives o event o.bump none
  | textDelta (turn generation : ℤ) (delta : String) (first : ℚ) (hsession : o.session_id ≠ none)
      (hkind : get event "type" = .str "response.text.delta") (hcur : Current o event turn generation)
      (hdelta : get event "delta" = .str delta) :
      Receives o event { o.bump with delta_size := o.delta_size + delta.length, first_at := some first }
        (some event)
  | textDone (turn generation : ℤ) (text : String) (at_ : ℚ) (hsession : o.session_id ≠ none)
      (hkind : get event "type" = .str "response.text.done") (hcur : Current o event turn generation)
      (htext : get event "text" = .str text) :
      Receives o event { o.bump with done_at := some at_ } (some event)
  | cancelled (turn generation : ℤ) (hsession : o.session_id ≠ none)
      (hkind : get event "type" = .str "response.cancelled") (hcur : Current o event turn generation) :
      Receives o event o.bump (some event)
  | metrics (turn generation : ℤ) (cancelled : Bool) (at_ : ℚ) (hsession : o.session_id ≠ none)
      (hkind : get event "type" = .str "metrics") (hcur : Current o event turn generation)
      (hid : get event "turn_id" = .int turn) (hcancelled : get event "cancelled" = .bool cancelled) :
      Receives o event
        { o.bump with terminal_at := some at_, last_turn := turn, last_generation := generation }
        (some event)

-- Makes the equations once, for all of the proofs.
attribute [local simp] string integer isText isInt bool generation textDelta textDone metrics response receive
  counted dispatch old committed created sessionReady kinds in
/-- A socket without a session takes only its first event. -/
theorem Receives.of_none {o o' : Observed} {event : Members} {x : Option Members}
    (h : Receives o event o' x) (hnone : o.session_id = none) :
    ∃ session_id, o' = { o.bump with session_id := some session_id } ∧ x = some event ∧
      string 128 false (get event "session_id") = some session_id := by
  cases h with
  | ready session_id _ _ hid => exact ⟨session_id, rfl, rfl, hid⟩
  | old _ h | committed _ h | created _ _ h | skipped _ _ h | textDelta _ _ _ _ h | textDone _ _ _ _ h
  | cancelled _ _ h | metrics _ _ _ _ h => exact absurd hnone h

theorem of_string {limit : ℕ} {empty : Bool} {v : Json} {s : String}
    (h : string limit empty v = some s) : v = .str s ∧ (empty ∨ s ≠ "") ∧ s.length ≤ limit := by
  unfold string at h
  split at h
  · split at h
    · rename_i hs
      cases h
      exact ⟨rfl, hs.1, hs.2.1⟩
    · cases h
  · cases h

theorem of_integer {minimum n : ℤ} {v : Json} (h : integer minimum v = some n) :
    v = .int n ∧ minimum ≤ n ∧ n < 2 ^ 53 := by
  unfold integer at h
  split at h
  · split at h
    · rename_i hn
      cases h
      exact ⟨rfl, hn.1, by omega⟩
    · cases h
  · cases h

theorem of_isInt {n : ℤ} {v : Json} (h : isInt n v) : v = .int n := by
  unfold isInt at h
  split at h
  · rw [of_decide_eq_true h]
  · cases h

theorem of_bool {b : Bool} {v : Json} (h : bool v = some b) : v = .bool b := by
  unfold bool at h
  split at h
  · rw [Option.some.inj h]
  · cases h

variable {o o' : Observed} {now : Option ℚ} {kind : String} {event : Members} {e : Option Members}

/-- The generation that an event names. -/
theorem of_generation {incoming : Option ℤ} (h : o.generation event = .ok incoming) :
    match incoming with
    | none => get event "generation_id" = .null
    | some g => get event "generation_id" = .int g ∧ 0 < g ∧ g < 2 ^ 53 := by
  unfold generation at h
  split at h
  · rename_i hnull
    rw [pure_eq_ok] at h
    subst h
    exact hnull
  · rw [bind_eq_ok] at h
    obtain ⟨g, hg, h⟩ := h
    rw [orThrow_eq_ok] at hg
    rw [pure_eq_ok] at h
    subst h
    obtain ⟨hv, hpos, hlt⟩ := of_integer hg
    exact ⟨hv, by omega, hlt⟩

theorem receives_response {incoming : Option ℤ} (hsession : o.session_id ≠ none)
    (hkind : get event "type" = .str kind) (hmem : kind ∈ kinds)
    (hne : kind ≠ "input.committed" ∧ kind ≠ "response.created")
    (hgen : o.bump.generation event = .ok incoming) (hnew : ¬ incoming.any (· ≤ o.last_generation))
    (h : o.bump.response now kind incoming event = .ok (o', e)) : Receives o event o' e := by
  unfold response at h
  split at h
  · rename_i turn generation hturn hgeneration
    rw [bind_eq_ok] at h
    obtain ⟨_, hincoming, h⟩ := h
    rw [bind_eq_ok] at h
    obtain ⟨_, hnamed, h⟩ := h
    rw [require_eq_ok] at hincoming hnamed
    subst hincoming
    have hcur : Current o event turn generation :=
      ⟨hturn, hgeneration, (of_generation hgen).1, not_le.1 fun hle => hnew (decide_eq_true hle), hnamed⟩
    split_ifs at h with hdelta hdone hmetrics
    · subst hdelta
      unfold Observed.textDelta at h
      rw [bind_eq_ok] at h
      obtain ⟨delta, hd, h⟩ := h
      rw [orThrow_eq_ok] at hd
      obtain ⟨hget, -, -⟩ := of_string hd
      split_ifs at h with hempty
      · rw [pure_eq_ok] at h
        subst hempty
        cases h
        exact .skipped turn generation hsession hkind hcur hget
      · rw [bind_eq_ok] at h
        obtain ⟨_, -, h⟩ := h
        split at h
        · rename_i first hfirst
          rw [pure_eq_ok] at h
          cases h
          have hr := Receives.textDelta turn generation delta first hsession hkind hcur hget
          rw [← hfirst] at hr
          exact hr
        · rw [bind_eq_ok] at h
          obtain ⟨at_, -, h⟩ := h
          rw [pure_eq_ok] at h
          cases h
          exact .textDelta turn generation delta at_ hsession hkind hcur hget
    · subst hdone
      unfold Observed.textDone at h
      rw [bind_eq_ok] at h
      obtain ⟨_, -, h⟩ := h
      rw [bind_eq_ok] at h
      obtain ⟨text, htext, h⟩ := h
      rw [orThrow_eq_ok] at htext
      rw [bind_eq_ok] at h
      obtain ⟨at_, -, h⟩ := h
      rw [pure_eq_ok] at h
      cases h
      exact .textDone turn generation text at_ hsession hkind hcur (of_string htext).1
    · subst hmetrics
      unfold Observed.metrics at h
      rw [bind_eq_ok] at h
      obtain ⟨_, hm, h⟩ := h
      rw [require_eq_ok] at hm
      rw [bind_eq_ok] at h
      obtain ⟨at_, -, h⟩ := h
      rw [pure_eq_ok] at h
      cases h
      obtain ⟨cancelled, hc⟩ := Option.isSome_iff_exists.1 hm.1
      exact .metrics turn generation cancelled at_ hsession hkind hcur (of_isInt hm.2) (of_bool hc)
    · rw [pure_eq_ok] at h
      cases h
      have hcancelled : kind = "response.cancelled" := by
        simp only [kinds, List.mem_cons, List.not_mem_nil, or_false] at hmem
        tauto
      subst hcancelled
      exact .cancelled turn generation hsession hkind hcur
  · rw [throw_eq_ok] at h
    cases h

/-- What the socket does not refuse. -/
theorem receives_of_receive {small : FloatText → Bool}
    (h : o.receive small now (.dict event) = .ok (o', e)) : Receives o event o' e := by
  rw [Observed.receive, bind_eq_ok] at h
  obtain ⟨_, -, h⟩ := h
  rw [bind_eq_ok] at h
  obtain ⟨_, -, h⟩ := h
  rw [bind_eq_ok] at h
  obtain ⟨kind, hkind, h⟩ := h
  rw [orThrow_eq_ok] at hkind
  have htype := (of_string hkind).1
  change o.bump.counted now kind event = .ok (o', e) at h
  unfold counted at h
  rw [bind_eq_ok] at h
  obtain ⟨_, -, h⟩ := h
  split_ifs at h with hready
  · subst hready
    unfold sessionReady at h
    rw [bind_eq_ok] at h
    obtain ⟨_, hnone, h⟩ := h
    rw [require_eq_ok] at hnone
    rw [bind_eq_ok] at h
    obtain ⟨session_id, hid, h⟩ := h
    rw [orThrow_eq_ok] at hid
    rw [pure_eq_ok] at h
    cases h
    exact .ready session_id hnone.1 htype hid
  · rw [bind_eq_ok] at h
    obtain ⟨_, hsession, h⟩ := h
    rw [require_eq_ok] at hsession
    rw [bind_eq_ok] at h
    obtain ⟨_, -, h⟩ := h
    rw [bind_eq_ok] at h
    obtain ⟨_, hmem, h⟩ := h
    rw [require_eq_ok] at hmem
    rw [bind_eq_ok] at h
    obtain ⟨incoming, hgen, h⟩ := h
    unfold dispatch at h
    split_ifs at h with hold hcommitted hcreated
    · -- an event of a generation that has ended
      obtain ⟨g, rfl⟩ : ∃ g, incoming = some g := by
        cases incoming with
        | none => cases hold
        | some g => exact ⟨g, rfl⟩
      have hr : Receives o event o.bump (some event) :=
        .old g hsession (of_generation hgen).1 (of_decide_eq_true hold)
      unfold old at h
      split at h
      · rw [pure_eq_ok] at h
        cases h
        exact hr
      · rw [bind_eq_ok] at h
        obtain ⟨_, -, h⟩ := h
        rw [bind_eq_ok] at h
        obtain ⟨_, -, h⟩ := h
        rw [pure_eq_ok] at h
        cases h
        exact hr
    · subst hcommitted
      unfold Observed.committed at h
      rw [bind_eq_ok] at h
      obtain ⟨_, hc, h⟩ := h
      rw [require_eq_ok] at hc
      obtain ⟨hnone, rfl, -⟩ := hc
      rw [bind_eq_ok] at h
      obtain ⟨turn, hturn, h⟩ := h
      rw [orThrow_eq_ok] at hturn
      rw [bind_eq_ok] at h
      obtain ⟨_, hlt, h⟩ := h
      rw [require_eq_ok] at hlt
      rw [pure_eq_ok] at h
      cases h
      exact .committed turn hsession htype (of_generation hgen) (of_integer hturn).1 hnone hlt
    · subst hcreated
      unfold Observed.created at h
      rw [bind_eq_ok] at h
      obtain ⟨_, hc, h⟩ := h
      rw [require_eq_ok] at hc
      obtain ⟨hnone, turn, hturn, hid⟩ := hc
      rw [bind_eq_ok] at h
      obtain ⟨generation, hg, h⟩ := h
      rw [orThrow_eq_ok] at hg
      subst hg
      rw [pure_eq_ok] at h
      cases h
      have hlt : o.last_generation < generation := not_le.1 fun hle => hold (decide_eq_true hle)
      exact .created turn generation hsession htype (of_generation hgen).1 hlt hturn (of_isInt hid)
        hnone
    · exact receives_response hsession htype hmem ⟨hcommitted, hcreated⟩ hgen hold h

end Observed

end StrixAlloy.Omni

import StrixAlloy.Omni.Observed
import StrixAlloy.Routing.Text

/-!
# The turns of a text session

What `TextSession.turn` makes of the events that the observed socket returns: its local variables, its
checks, and its result. The socket checks most of it first, and both keep their own numbers of the last
turn and generation.
-/

namespace StrixAlloy.Omni

open Checked
open Routing (strip)

/-- The variables of a `TextSession` but `active`, which is set while a turn holds the lock. -/
structure Session where
  ready : Bool
  closed : Bool
  cancel_requested : Bool
  last_turn : ℤ
  last_generation : ℤ

namespace Session

def init : Session := ⟨false, false, false, 0, 0⟩

/-- What `_failed` does before it closes the socket. -/
def failed (s : Session) : Session := { s with ready := false, closed := true }

end Session

/-- The local variables of `turn`. `on_delta` says whether the caller takes the deltas. -/
structure Turn where
  on_delta : Bool
  turn_id : Option ℤ
  generation_id : Option ℤ
  done : Option String
  cancelled : Bool
  streamed : String

/-- What `turn` returns. -/
structure Result where
  turn_id : ℤ
  generation_id : ℤ
  text : String
  cancelled : Bool

/-- What an event leads to: the variables for the next one, with the delta for which `on_delta` is
called; or the result. -/
inductive Taken where
  | next (t : Turn) (delta : Option String)
  | returned (r : Result)

namespace Turn

def init (on_delta : Bool) : Turn := ⟨on_delta, none, none, none, false, ""⟩

/-- `text(value, limit)`. -/
def text (limit : ℕ) : Json → Option String
  | .str s => if 0 < s.length ∧ s.length ≤ limit then some s else none
  | _ => none

/-- `identifier`. -/
def identifier : Json → Option ℤ
  | .int n => if 0 < n then some n else none
  | _ => none

/-- A response has begun for the turn. -/
def created (s : Session) (t : Turn) (event : Members) : Option Taken :=
  match t.turn_id, identifier (get event "generation_id") with
  | some turn, some generation =>
    if isInt turn (get event "turn_id") ∧ t.generation_id = none ∧ s.last_generation < generation then
      some (.next { t with generation_id := some generation } none)
    else none
  | _, _ => none

def committed (s : Session) (t : Turn) (event : Members) : Option Taken :=
  match identifier (get event "turn_id") with
  | some turn =>
    if t.turn_id = none ∧ isTrue (get event "text") ∧ s.last_turn < turn then
      some (.next { t with turn_id := some turn } none)
    else none
  | none => none

def textDelta (s : Session) (t : Turn) (event : Members) : Option Taken :=
  match text 16384 (get event "delta") with
  | none => none
  | some delta =>
    if !t.on_delta then some (.next t none)
    else if t.done = none ∧ t.streamed.length + delta.length ≤ 16384 then
      some (.next { t with streamed := t.streamed ++ delta }
        (if t.cancelled || s.cancel_requested then none else some delta))
    else none

def textDone (t : Turn) (event : Members) : Option Taken :=
  match get event "text" with
  | .str text =>
    if t.done = none ∧ text.length ≤ 16384 then some (.next { t with done := some text } none) else none
  | _ => none

/-- The reply of a turn that was not cancelled. -/
def reply (t : Turn) (turn generation : ℤ) : Option Taken :=
  match t.done with
  | none => none
  | some done =>
    if t.on_delta ∧ strip t.streamed ≠ strip done then none
    else some (.returned ⟨turn, generation, done, false⟩)

/-- The end of the turn. -/
def metrics (s : Session) (t : Turn) (turn generation : ℤ) (event : Members) : Option Taken :=
  match bool (get event "cancelled") with
  | none => none
  | some cancelled =>
    if !isInt turn (get event "turn_id") then none
    else if t.cancelled || cancelled || s.cancel_requested then
      some (.returned ⟨turn, generation, "", true⟩)
    else t.reply turn generation

/-- An event of the response. -/
def response (s : Session) (t : Turn) (kind : String) (event : Members) : Option Taken :=
  match t.turn_id, t.generation_id with
  | some turn, some generation =>
    if !isInt generation (get event "generation_id") then none
    else if kind = "response.text.delta" then t.textDelta s event
    else if kind = "response.text.done" then t.textDone event
    else if kind = "response.cancelled" then
      if isInt turn (get event "turn_id") then some (.next { t with cancelled := true } none) else none
    else if kind = "metrics" then t.metrics s turn generation event
    else none
  | _, _ => none

/-- The generation that an event names is an identifier, if it names one. -/
def numbered (event : Members) : Bool :=
  match get event "generation_id" with
  | .null => true
  | v => (identifier v).isSome

/-- The event is of a generation that has ended. -/
def stale (s : Session) (event : Members) : Bool :=
  match get event "generation_id" with
  | .int n => n ≤ s.last_generation
  | _ => false

/-- The loop of `turn` from one event to the next; `none` is an exception. The comparisons of numbers
with `==` are between integers, which the socket checks. -/
def take (s : Session) (t : Turn) (event : Members) : Option Taken :=
  match get event "type" with
  | .str kind =>
    if kind = "error" ∨ !numbered event then none
    else if stale s event then some (.next t none)
    else if kind = "input.committed" then t.committed s event
    else if kind = "response.created" then t.created s event
    else t.response s kind event
  | _ => none

/-! ## What the turn takes -/

/-- The event is one of the response that the turn knows. -/
structure Current (s : Session) (t : Turn) (event : Members) (turn generation : ℤ) : Prop where
  turn_id : t.turn_id = some turn
  generation_id : t.generation_id = some generation
  incoming : get event "generation_id" = .int generation
  new : s.last_generation < generation

/-- What the turn may make of an event that it does not refuse, with what it has checked. -/
inductive Takes (s : Session) (t : Turn) (event : Members) : Taken → Prop where
  | stale (generation : ℤ) (hgen : get event "generation_id" = .int generation)
      (hle : generation ≤ s.last_generation) : Takes s t event (.next t none)
  | committed (turn : ℤ) (hkind : get event "type" = .str "input.committed")
      (hturn : get event "turn_id" = .int turn) (hnone : t.turn_id = none) (hlt : s.last_turn < turn)
      (hnew : ¬ Turn.stale s event) : Takes s t event (.next { t with turn_id := some turn } none)
  | created (turn generation : ℤ) (hkind : get event "type" = .str "response.created")
      (hgen : get event "generation_id" = .int generation) (hturn : t.turn_id = some turn)
      (hid : get event "turn_id" = .int turn) (hnone : t.generation_id = none)
      (hlt : s.last_generation < generation) :
      Takes s t event (.next { t with generation_id := some generation } none)
  | silent (turn generation : ℤ) (hkind : get event "type" = .str "response.text.delta")
      (hcur : Current s t event turn generation) (hoff : t.on_delta = false) :
      Takes s t event (.next t none)
  | textDelta (turn generation : ℤ) (delta : String)
      (hkind : get event "type" = .str "response.text.delta")
      (hcur : Current s t event turn generation) (hdelta : get event "delta" = .str delta)
      (hon : t.on_delta) (hdone : t.done = none) :
      Takes s t event (.next { t with streamed := t.streamed ++ delta }
        (if t.cancelled || s.cancel_requested then none else some delta))
  | textDone (turn generation : ℤ) (text : String)
      (hkind : get event "type" = .str "response.text.done")
      (hcur : Current s t event turn generation) (htext : get event "text" = .str text)
      (hdone : t.done = none) : Takes s t event (.next { t with done := some text } none)
  | cancelled (turn generation : ℤ) (hkind : get event "type" = .str "response.cancelled")
      (hcur : Current s t event turn generation) :
      Takes s t event (.next { t with cancelled := true } none)
  | dropped (turn generation : ℤ) (hkind : get event "type" = .str "metrics")
      (hcur : Current s t event turn generation) :
      Takes s t event (.returned ⟨turn, generation, "", true⟩)
  | reply (turn generation : ℤ) (done : String) (hkind : get event "type" = .str "metrics")
      (hcur : Current s t event turn generation) (hdone : t.done = some done)
      (hcancelled : t.cancelled = false ∧ s.cancel_requested = false)
      (hstrip : t.on_delta → strip t.streamed = strip done) :
      Takes s t event (.returned ⟨turn, generation, done, false⟩)

variable {s : Session} {t : Turn} {event : Members} {x : Taken}

theorem of_text {limit : ℕ} {v : Json} {text : String} (h : Turn.text limit v = some text) :
    v = .str text := by
  unfold Turn.text at h
  split at h
  · split at h
    · rw [Option.some.inj h]
    · cases h
  · cases h

theorem of_identifier {v : Json} {n : ℤ} (h : identifier v = some n) : v = .int n ∧ 0 < n := by
  unfold identifier at h
  split at h
  · split at h
    · rename_i hpos
      cases h
      exact ⟨rfl, hpos⟩
    · cases h
  · cases h

theorem takes_response {kind : String} (hkind : get event "type" = .str kind)
    (hnew : ¬ stale s event) (h : t.response s kind event = some x) : Takes s t event x := by
  unfold response at h
  split at h
  · rename_i turn generation hturn hgeneration
    by_cases hgen : isInt generation (get event "generation_id")
    · rw [hgen, Bool.not_true, if_neg Bool.false_ne_true] at h
      have hget := Observed.of_isInt hgen
      have hcur : Current s t event turn generation := by
        refine ⟨hturn, hgeneration, hget, ?_⟩
        unfold stale at hnew
        rw [hget] at hnew
        exact not_le.1 fun hle => hnew (decide_eq_true hle)
      split_ifs at h with hdelta hdone hcancelled hid hmetrics
      · subst hdelta
        unfold textDelta at h
        split at h
        · cases h
        · rename_i delta htext
          by_cases hon : t.on_delta
          · rw [if_neg (by rw [hon]; decide)] at h
            split at h
            · rename_i hd
              cases h
              exact .textDelta turn generation delta hkind hcur (of_text htext) hon hd.1
            · cases h
          · rw [Bool.eq_false_iff.2 hon, Bool.not_false, if_pos rfl] at h
            cases h
            exact .silent turn generation hkind hcur (Bool.eq_false_iff.2 hon)
      · subst hdone
        unfold textDone at h
        split at h
        · rename_i text htext
          split_ifs at h with hd
          cases h
          exact .textDone turn generation text hkind hcur htext hd.1
        · cases h
      · subst hcancelled
        cases h
        exact .cancelled turn generation hkind hcur
      · subst hmetrics
        unfold metrics at h
        split at h
        · cases h
        · rename_i ended hended
          split_ifs at h with hid hany
          · cases h
            exact .dropped turn generation hkind hcur
          · simp only [Bool.or_eq_true, not_or, Bool.not_eq_true] at hany
            unfold reply at h
            split at h
            · cases h
            · rename_i done hdone
              split_ifs at h with hstrip
              cases h
              refine .reply turn generation done hkind hcur hdone ⟨hany.1.1, hany.2⟩ fun hon => ?_
              by_contra hne
              exact hstrip ⟨hon, hne⟩
    · rw [Bool.eq_false_iff.2 hgen, Bool.not_false, if_pos rfl] at h
      cases h
  · cases h

/-- What the turn does not refuse. -/
theorem takes_of_take (h : t.take s event = some x) : Takes s t event x := by
  unfold take at h
  split at h
  · rename_i kind hkind
    split_ifs at h with herror hstale hcommitted hcreated
    · cases h
      unfold stale at hstale
      split at hstale
      · rename_i n hn
        exact .stale n hn (of_decide_eq_true hstale)
      · cases hstale
    · subst hcommitted
      unfold committed at h
      split at h
      · rename_i turn hturn
        split_ifs at h with hc
        cases h
        exact .committed turn hkind (of_identifier hturn).1 hc.1 hc.2.2 hstale
      · cases h
    · subst hcreated
      unfold created at h
      split at h
      · rename_i turn generation hturn hgeneration
        split_ifs at h with hc
        cases h
        exact .created turn generation hkind (of_identifier hgeneration).1 hturn (Observed.of_isInt hc.1)
          hc.2.1 hc.2.2
      · cases h
    · exact takes_response hkind hstale h
  · cases h

end Turn

end StrixAlloy.Omni

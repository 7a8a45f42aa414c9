import Mathlib.Algebra.Group.Nat.Defs
import Mathlib.Data.Rat.Defs
import StrixAlloy.Lib.Runs
import StrixAlloy.Lib.Table

/-!
# Transcript groups

`TranscriptGroups`: the text-only ledger of local speech. A group collects the parts of one response; a part is
admitted as pending, is started when its first PCM plays and emitted when its last did, or is retired before it
started. A group leaves the ledger once, with the text of the parts before its first one that was not emitted.

A key is an object of its own, so `next` is larger than every key that was ever given out. `log` has every
transcript that became ready, with the key of its group; no operation reads it.
-/

namespace StrixAlloy.TranscriptGroups

open Option Table

/-- A `str`, by its code points. -/
abbrev Text := List ℕ

/-- The code points that `str.strip` removes. -/
def isSpace (c : ℕ) : Bool :=
  c ∈ [32, 133, 160, 5760, 8232, 8233, 8239, 8287, 12288] || (9 ≤ c && c ≤ 13) || (28 ≤ c && c ≤ 31) ||
    (8192 ≤ c && c ≤ 8202)

def strip (text : Text) : Text := ((text.dropWhile isSpace).reverse.dropWhile isSpace).reverse

/-- `' '.join(texts)` -/
def join : List Text → Text
  | [] => []
  | [text] => text
  | text :: next :: texts => text ++ 32 :: join (next :: texts)

/-- `len(text.encode('utf-8'))`, which a surrogate refuses. -/
def utf8Size : Text → Option ℕ
  | [] => some 0
  | c :: text =>
    if 0xd800 ≤ c ∧ c < 0xe000 then none
    else (utf8Size text).map ((if c < 0x80 then 1 else if c < 0x800 then 2 else if c < 0x10000 then 3 else 4) + ·)

inductive Error
  | transcript_group_overflow
  | UnicodeEncodeError
  | OverflowError

/-- What a caller may pass as the time of the first PCM. -/
inductive Stamp
  | int (n : ℤ)
  | float (x : ℚ)
  | nonfinite
  | other

/-- Whether a time is recorded; an integer beyond the largest double overflows in `isfinite`. -/
def Stamp.accepted : Stamp → Except Error Bool
  | .int n => if n.natAbs < 2 ^ 1024 - 2 ^ 970 then .ok (0 ≤ n) else .error .OverflowError
  | .float x => .ok (0 ≤ x)
  | .nonfinite => .ok false
  | .other => .ok false

inductive PartState
  | pending
  | started
  | emitted
  | retired
  deriving DecidableEq

structure Entry where
  text : Text
  state : PartState
  first_pcm_at : Option Stamp

/-- Emitted or retired. -/
def Entry.settled (e : Entry) : Bool := e.state = .emitted || e.state = .retired

section

variable (O T P : Type)

/-- A group; the parts are in the order in which they were admitted. -/
structure Group where
  owner : O
  turn : T
  parts : List (P × Entry)
  finished : Bool

structure GroupedTranscript where
  text : Text
  turn : T
  owner : O
  first_pcm_at : Option Stamp
  reason : String

/-- The limits, as the constructor checks them. -/
structure Limits where
  max_groups : ℕ
  max_parts : ℕ
  max_chars : ℕ
  max_bytes : ℕ
  positive : 0 < max_groups ∧ 0 < max_parts ∧ 0 < max_chars ∧ 0 < max_bytes

structure State where
  limits : Limits
  groups : List (ℕ × Group O T P)
  ready : List (GroupedTranscript O T)
  closed : Bool
  next : ℕ
  log : List (ℕ × GroupedTranscript O T)

inductive Answer
  | key (k : Option ℕ)
  | bool (b : Bool)
  | none
  | ready (ts : List (GroupedTranscript O T))
  | error (e : Error)

/-- The calls; where the source accepts any object, one that is not a `str` is `none`. -/
inductive Op
  | openGroup (owner : Option O) (turn : Option T)
  | admitPart (key : ℕ) (owner : Option O) (turn : Option T) (part : P) (text : Option Text)
  | started (key : ℕ) (owner : Option O) (part : P) (at_ : Stamp)
  | emitted (key : ℕ) (owner : Option O) (part : P)
  | finish (key : ℕ) (owner : Option O)
  | retire (key : ℕ) (owner : Option O) (part : P)
  | retainPending (live : P → Bool)
  | interrupt (key : ℕ) (owner : Option O) (reason : String)
  | beforeNative
  | close
  | takeReady

end

variable {O T P : Type}

def init (limits : Limits) : State O T P := ⟨limits, [], [], false, 0, []⟩

namespace Group

variable (g : Group O T P)

/-- A change of one part. -/
def mark [DecidableEq P] (part : P) (f : Entry → Entry) : Group O T P :=
  { g with parts := Table.update (fun x => x.1 = part) (fun x => (x.1, f x.2)) g.parts }

def entry [DecidableEq P] (part : P) : Option Entry := (Table.lookup Prod.fst g.parts part).map Prod.snd

/-- The loop of `retainPending` over the parts. -/
def retain (live : P → Bool) : Group O T P :=
  { g with
    parts := Table.update (fun x => x.2.state = .pending ∧ ¬ live x.1) (fun x => (x.1, { x.2 with state := .retired }))
      g.parts }

def complete? (g : Group O T P) : Bool := g.finished && g.parts.all fun x => x.2.settled

/-- The parts before the first one that was not emitted. -/
def spoken (g : Group O T P) : List (P × Entry) := g.parts.takeWhile fun x => x.2.state = .emitted

/-- What a group says as it leaves. -/
def transcript (reason : String) (g : Group O T P) : Option (GroupedTranscript O T) :=
  match g.spoken with
  | [] => none
  | x :: rest => some ⟨join ((x :: rest).map fun y => y.2.text), g.turn, g.owner, x.2.first_pcm_at, reason⟩

end Group

namespace State

variable (s : State O T P)

/-- `_groups.get(key)` -/
def get (key : ℕ) : Option (Group O T P) := (Table.lookup Prod.fst s.groups key).map Prod.snd

/-- `_group` -/
def group [DecidableEq O] (key : ℕ) (owner : Option O) : Option (Group O T P) :=
  (s.get key).filter fun g => some g.owner = owner

/-- The group of a key, changed. -/
def put (key : ℕ) (g : Group O T P) : State O T P :=
  { s with groups := Table.update (fun r => r.1 = key) (fun r => (r.1, g)) s.groups }

/-- `_flush` -/
def flush (key : ℕ) (g : Group O T P) (reason : String) : State O T P :=
  { s with
    groups := s.groups.filter fun r => r.1 ≠ key
    ready := s.ready ++ (g.transcript reason).toList
    log := s.log ++ (g.transcript reason).toList.map fun t => (key, t) }

/-- `_complete` -/
def complete (key : ℕ) (g : Group O T P) : State O T P :=
  if g.complete? then
    s.flush key g (if g.parts.any fun x => x.2.state = .retired then "partial_response" else "complete")
  else s

/-- A group is changed, and leaves if it is complete. -/
def settle (key : ℕ) (g : Group O T P) : State O T P := (s.put key g).complete key g

def openGroup (owner : Option O) (turn : Option T) : Answer O T × State O T P :=
  match owner, turn with
  | some o, some t =>
    if s.closed then (.key none, s)
    else if s.groups.length ≥ s.limits.max_groups ∨ s.ready.length ≥ s.limits.max_groups then
      (.error .transcript_group_overflow, s)
    else (.key (some s.next), { s with groups := s.groups ++ [(s.next, ⟨o, t, [], false⟩)], next := s.next + 1 })
  | _, _ => (.key none, s)

/-- The part of `admit` after its checks of the arguments. -/
def add (key : ℕ) (g : Group O T P) (part : P) (text : Text) : Answer O T × State O T P :=
  let overflow := (.error .transcript_group_overflow, s.flush key g "transcript_group_overflow")
  let joined := join (g.parts.map (fun x => x.2.text) ++ [text])
  if g.parts.length ≥ s.limits.max_parts ∨ joined.length > s.limits.max_chars then overflow
  else
    match utf8Size joined with
    | none => (.error .UnicodeEncodeError, s)
    | some size =>
      if size > s.limits.max_bytes then overflow
      else (.bool true, s.put key { g with parts := g.parts ++ [(part, ⟨text, .pending, none⟩)] })

/-- The groups, as they were, are changed one after another. -/
def settleAll (f : Group O T P → Group O T P) (rows : List (ℕ × Group O T P)) : State O T P :=
  rows.foldl (fun s r => s.settle r.1 (f r.2)) s

/-- The groups, as they were, leave one after another. -/
def flushAll (reason : String) (rows : List (ℕ × Group O T P)) : State O T P :=
  rows.foldl (fun s r => s.flush r.1 r.2 reason) s

def retainPending (live : P → Bool) : State O T P := s.settleAll (fun g => g.retain live) s.groups

def beforeNative : State O T P := s.flushAll "native_handoff" s.groups

def close : State O T P := ({ s with closed := true } : State O T P).flushAll "call_closed" s.groups

def takeReady : Answer O T × State O T P := (.ready s.ready, { s with ready := [] })

section

variable [DecidableEq O] [DecidableEq T] [DecidableEq P]

/-- `admit` -/
def admitPart (key : ℕ) (owner : Option O) (turn : Option T) (part : P) (text : Option Text) :
    Answer O T × State O T P :=
  if s.closed then (.bool false, s)
  else
    match s.get key, text with
    | some g, some text =>
      if some g.owner ≠ owner ∨ some g.turn ≠ turn ∨ g.finished ∨ strip text = [] ∨ (g.entry part).isSome then
        (.bool false, s)
      else s.add key g part (strip text)
    | _, _ => (.bool false, s)

def started (key : ℕ) (owner : Option O) (part : P) (at_ : Stamp) : Answer O T × State O T P :=
  match s.group key owner with
  | none => (.bool false, s)
  | some g =>
    if (g.entry part).map Entry.state ≠ some .pending then (.bool false, s)
    else
      match at_.accepted with
      | .error e => (.error e, s)
      | .ok false => (.bool false, s)
      | .ok true =>
        (.bool true, s.put key (g.mark part fun e => { e with state := .started, first_pcm_at := some at_ }))

def emitted (key : ℕ) (owner : Option O) (part : P) : Answer O T × State O T P :=
  match s.group key owner with
  | none => (.bool false, s)
  | some g =>
    if (g.entry part).map Entry.state ≠ some .started then (.bool false, s)
    else (.bool true, s.settle key (g.mark part fun e => { e with state := .emitted }))

def finish (key : ℕ) (owner : Option O) : Answer O T × State O T P :=
  match s.group key owner with
  | none => (.bool false, s)
  | some g => (.bool true, s.settle key { g with finished := true })

def retire (key : ℕ) (owner : Option O) (part : P) : Answer O T × State O T P :=
  match s.group key owner with
  | none => (.bool false, s)
  | some g =>
    if (g.entry part).map Entry.state ≠ some .pending then (.bool false, s)
    else (.bool true, s.settle key (g.mark part fun e => { e with state := .retired }))

def interrupt (key : ℕ) (owner : Option O) (reason : String) : Answer O T × State O T P :=
  match s.group key owner with
  | none => (.bool false, s)
  | some g => (.bool true, s.flush key g reason)

def call : Op O T P → Answer O T × State O T P
  | .openGroup owner turn => s.openGroup owner turn
  | .admitPart key owner turn part text => s.admitPart key owner turn part text
  | .started key owner part at_ => s.started key owner part at_
  | .emitted key owner part => s.emitted key owner part
  | .finish key owner => s.finish key owner
  | .retire key owner part => s.retire key owner part
  | .retainPending live => (.none, s.retainPending live)
  | .interrupt key owner reason => s.interrupt key owner reason
  | .beforeNative => (.none, s.beforeNative)
  | .close => (.none, s.close)
  | .takeReady => s.takeReady

end

end State

/-! ## What one change does -/

variable {s : State O T P} {key : ℕ} {g : Group O T P}

namespace State

theorem get_eq_some (h : s.get key = some g) : (key, g) ∈ s.groups := by
  obtain ⟨⟨k, g'⟩, hr, rfl⟩ := map_eq_some_iff.1 h
  obtain ⟨hmem, rfl⟩ := mem_of_lookup hr
  exact hmem

theorem group_eq_some [DecidableEq O] {owner : Option O} (h : s.group key owner = some g) :
    (key, g) ∈ s.groups ∧ some g.owner = owner := by
  obtain ⟨hget, howner⟩ := filter_eq_some_iff.1 h
  exact ⟨get_eq_some hget, of_decide_eq_true howner⟩

variable {r : ℕ × Group O T P}

/-- A group is kept as it was, or is the changed one. -/
theorem mem_put (h : r ∈ (s.put key g).groups) : r ∈ s.groups ∧ r.1 ≠ key ∨ r = (key, g) := by
  obtain ⟨x, hx, rfl⟩ := mem_update.1 h
  split_ifs with hk
  · exact .inr (by rw [hk])
  · exact .inl ⟨hx, hk⟩

theorem keys_put : (s.put key g).groups.map Prod.fst = s.groups.map Prod.fst := by
  refine map_key_update ?_ s.groups
  exact fun _ => rfl

theorem mem_flush {reason : String} : r ∈ (s.flush key g reason).groups ↔ r ∈ s.groups ∧ r.1 ≠ key := by
  unfold flush
  simp

/-- A change ends with the group kept, not complete, or with its leaving. -/
theorem settle_cases (s : State O T P) (key : ℕ) (g : Group O T P) :
    g.complete? = false ∧ s.settle key g = s.put key g ∨
      ∃ reason, s.settle key g = (s.put key g).flush key g reason := by
  unfold settle complete
  cases h : g.complete? with
  | false => exact .inl ⟨rfl, rfl⟩
  | true => exact .inr ⟨_, rfl⟩

theorem mem_settle (h : r ∈ (s.settle key g).groups) :
    r ∈ s.groups ∧ r.1 ≠ key ∨ r = (key, g) ∧ g.complete? = false := by
  obtain ⟨hc, he⟩ | ⟨reason, he⟩ := settle_cases s key g
  · rw [he] at h
    exact (mem_put h).imp_right fun e => ⟨e, hc⟩
  · rw [he, mem_flush] at h
    exact .inl ⟨((mem_put h.1).resolve_right fun e => h.2 (by rw [e])).1, h.2⟩

/-- Groups that change one after another are kept as they were, or as they changed. -/
theorem mem_settleAll {f : Group O T P → Group O T P} {rows : List (ℕ × Group O T P)}
    (h : r ∈ (s.settleAll f rows).groups) :
    r ∈ s.groups ∧ (∀ x ∈ rows, x.1 ≠ r.1) ∨ ∃ x ∈ rows, r = (x.1, f x.2) ∧ (f x.2).complete? = false := by
  induction rows generalizing s with
  | nil => exact .inl ⟨h, nofun⟩
  | cons x rows ih =>
    obtain ⟨hmem, hne⟩ | ⟨y, hy, e⟩ := ih h
    · obtain ⟨hs, hk⟩ | ⟨e, hc⟩ := mem_settle hmem
      · exact .inl ⟨hs, List.forall_mem_cons.2 ⟨fun e => hk e.symm, hne⟩⟩
      · exact .inr ⟨x, List.mem_cons_self .., e, hc⟩
    · exact .inr ⟨y, List.mem_cons_of_mem _ hy, e⟩

theorem mem_flushAll {reason : String} {rows : List (ℕ × Group O T P)} (h : r ∈ (s.flushAll reason rows).groups) :
    r ∈ s.groups ∧ ∀ x ∈ rows, x.1 ≠ r.1 := by
  induction rows generalizing s with
  | nil => exact ⟨h, nofun⟩
  | cons x rows ih =>
    obtain ⟨hmem, hne⟩ := ih h
    obtain ⟨hs, hk⟩ := mem_flush.1 hmem
    exact ⟨hs, List.forall_mem_cons.2 ⟨fun e => hk e.symm, hne⟩⟩

end State

/-! ## What one call does -/

/-- The states that a part passes without being emitted. -/
def PartState.Waits (before after : PartState) : Prop :=
  after = before ∨ before = .pending ∧ (after = .started ∨ after = .retired)

/-- A part becomes emitted only from started, and started or retired only from pending. -/
def PartState.Moves (before after : PartState) : Prop :=
  before.Waits after ∨ before = .started ∧ after = .emitted

/-- The parts of a group keep their names, texts and places; `R` says of each how its state changes. -/
structure Group.Follows (R : P → PartState → PartState → Prop) (g g' : Group O T P) : Prop where
  owner : g'.owner = g.owner
  turn : g'.turn = g.turn
  parts : List.Forall₂ (fun x x' => x'.1 = x.1 ∧ x'.2.text = x.2.text ∧ R x.1 x.2.state x'.2.state) g.parts g'.parts

/-- One part is emitted. -/
def Emits (part : P) (p : P) (before after : PartState) : Prop :=
  (p = part → before = .started ∧ after = .emitted) ∧ (p ≠ part → after = before)

namespace Group

variable {R : P → PartState → PartState → Prop}

theorem follows_update {q : P × Entry → Prop} [DecidablePred q] {f : P × Entry → P × Entry}
    (h : ∀ x ∈ g.parts, (q x → (f x).1 = x.1 ∧ (f x).2.text = x.2.text ∧ R x.1 x.2.state (f x).2.state) ∧
      (¬ q x → R x.1 x.2.state x.2.state)) :
    g.Follows R { g with parts := Table.update q f g.parts } := by
  refine ⟨rfl, rfl, List.forall₂_map_right_iff.2 (List.forall₂_same.2 fun x hx => ?_)⟩
  split_ifs with hq
  · exact (h x hx).1 hq
  · exact ⟨rfl, rfl, (h x hx).2 hq⟩

variable [DecidableEq P] {part : P}

/-- The part that is read is of the group, and the only one of its name. -/
theorem entry_eq_some (hu : Table.Unique Prod.fst g.parts) {e : Entry} :
    g.entry part = some e ↔ (part, e) ∈ g.parts := by
  constructor
  · intro h
    obtain ⟨⟨k, e'⟩, hr, rfl⟩ := map_eq_some_iff.1 h
    obtain ⟨hmem, rfl⟩ := mem_of_lookup hr
    exact hmem
  · intro h
    unfold entry
    rw [lookup_of_mem hu h]
    rfl

/-- A part in a known state is changed. -/
theorem follows_mark (hu : Table.Unique Prod.fst g.parts) {before after : PartState}
    (hst : (g.entry part).map Entry.state = some before) {f : Entry → Entry}
    (hf : ∀ e, (f e).text = e.text ∧ (f e).state = after) (hR : R part before after)
    (hsame : ∀ p st, p ≠ part → R p st st) : g.Follows R (g.mark part f) := by
  refine follows_update fun x hx => ⟨fun hp => ⟨rfl, (hf _).1, ?_⟩, fun hp => hsame _ _ hp⟩
  obtain ⟨e, he, rfl⟩ := map_eq_some_iff.1 hst
  rw [(entry_eq_some hu).2 (by rw [← hp]; exact hx)] at he
  rw [hp, (hf x.2).2, Option.some.inj he]
  exact hR

end Group

variable (O T P) in
/-- What the callers were told: the groups that were opened, the parts that were admitted to each and that were
emitted, and the transcripts that were handed out. -/
structure Book where
  opened : List (ℕ × O × T)
  admitted : ℕ → List (P × Text)
  spoken : ℕ → List P
  given : List (GroupedTranscript O T)

def Book.empty : Book O T P := ⟨[], fun _ => [], fun _ => [], []⟩

/-- A call and its answer are noted. -/
def Book.note (b : Book O T P) : Op O T P → Answer O T → Book O T P
  | .openGroup (some o) (some t), .key (some k) => { b with opened := b.opened ++ [(k, o, t)] }
  | .admitPart key _ _ part (some text), .bool true =>
    { b with admitted := fun k => if k = key then b.admitted k ++ [(part, strip text)] else b.admitted k }
  | .emitted key _ part, .bool true =>
    { b with spoken := fun k => if k = key then b.spoken k ++ [part] else b.spoken k }
  | .takeReady, .ready ts => { b with given := b.given ++ ts }
  | _, _ => b

/-- What a call does to the ledger. -/
inductive Effect (s : State O T P) : Op O T P → Answer O T → State O T P → Prop
  | refused {op a} (hb : ∀ b : Book O T P, b.note op a = b) : Effect s op a s
  | opened (o t) : Effect s (.openGroup (some o) (some t)) (.key (some s.next))
      { s with groups := s.groups ++ [(s.next, ⟨o, t, [], false⟩)], next := s.next + 1 }
  | admitted {key owner turn part text g} (hg : (key, g) ∈ s.groups) (hnew : ∀ x ∈ g.parts, x.1 ≠ part)
      (hchars : (join (g.parts.map (fun x => x.2.text) ++ [strip text])).length ≤ s.limits.max_chars)
      (hopen : g.finished = false) :
      Effect s (.admitPart key owner turn part (some text)) (.bool true)
        (s.put key { g with parts := g.parts ++ [(part, ⟨strip text, .pending, none⟩)] })
  | kept {op a key g g'} (hb : ∀ b : Book O T P, b.note op a = b) (hg : (key, g) ∈ s.groups)
      (hf : Group.Follows (fun _ => PartState.Waits) g g') (hopen : g'.complete? = false) :
      Effect s op a (s.put key g')
  | emitted {key owner part g g'} (hg : (key, g) ∈ s.groups) (hf : Group.Follows (Emits part) g g')
      (hpart : ∃ x ∈ g'.parts, x.1 = part) : Effect s (.emitted key owner part) (.bool true) (s.settle key g')
  | settled {op a key g g'} (hb : ∀ b : Book O T P, b.note op a = b) (hg : (key, g) ∈ s.groups)
      (hf : Group.Follows (fun _ => PartState.Waits) g g') : Effect s op a (s.settle key g')
  | left {op a key g reason} (hb : ∀ b : Book O T P, b.note op a = b) (hg : (key, g) ∈ s.groups) :
      Effect s op a (s.flush key g reason)
  | retained {f : Group O T P → Group O T P} (live) (hf : ∀ g, Group.Follows (fun _ => PartState.Waits) g (f g)) :
      Effect s (.retainPending live) .none (s.settleAll f s.groups)
  | emptied {op reason} (closed) (hb : ∀ b : Book O T P, b.note op .none = b) :
      Effect s op .none (({ s with closed := closed } : State O T P).flushAll reason s.groups)
  | taken : Effect s .takeReady (.ready s.ready) { s with ready := [] }

section

variable [DecidableEq O] [DecidableEq T] [DecidableEq P]

omit [DecidableEq O] [DecidableEq T] [DecidableEq P] in
theorem effect_openGroup (owner : Option O) (turn : Option T) :
    Effect s (.openGroup owner turn) (s.openGroup owner turn).1 (s.openGroup owner turn).2 := by
  unfold State.openGroup
  cases owner with
  | none => exact .refused fun _ => rfl
  | some o =>
    cases turn with
    | none => exact .refused fun _ => rfl
    | some t =>
      simp only
      split_ifs
      · exact .refused fun _ => rfl
      · exact .refused fun _ => rfl
      · exact .opened o t

theorem effect_admitPart (key : ℕ) (owner : Option O) (turn : Option T) (part : P) (text : Option Text) :
    Effect s (.admitPart key owner turn part text) (s.admitPart key owner turn part text).1
      (s.admitPart key owner turn part text).2 := by
  have hfalse : Effect s (.admitPart key owner turn part text) (.bool false) s :=
    .refused fun _ => by cases text <;> rfl
  unfold State.admitPart
  split_ifs
  · exact hfalse
  cases hg : s.get key with
  | none => exact hfalse
  | some g =>
    cases text with
    | none => exact hfalse
    | some text =>
      simp only
      split_ifs with hno
      · exact hfalse
      simp only [not_or] at hno
      obtain ⟨-, -, hfin, -, hnew⟩ := hno
      unfold State.add
      simp only
      split_ifs with hover
      · exact .left (fun _ => rfl) (State.get_eq_some hg)
      cases utf8Size (join (g.parts.map (fun x => x.2.text) ++ [strip text])) with
      | none => exact .refused fun _ => rfl
      | some =>
        simp only
        split_ifs
        · exact .left (fun _ => rfl) (State.get_eq_some hg)
        · refine .admitted (State.get_eq_some hg) (fun x hx e => hnew ?_) (Nat.le_of_not_lt fun h => hover (.inr h))
            (Bool.eq_false_iff.2 hfin)
          unfold Group.entry
          rw [isSome_map, isSome_lookup]
          exact ⟨x, hx, e⟩

variable (hu : ∀ r ∈ s.groups, Table.Unique Prod.fst r.2.parts)
include hu

section

omit [DecidableEq T]

theorem effect_started (key : ℕ) (owner : Option O) (part : P) (at_ : Stamp) :
    Effect s (.started key owner part at_) (s.started key owner part at_).1 (s.started key owner part at_).2 := by
  have hrefused : ∀ a, Effect s (.started key owner part at_) a s := fun a => .refused fun _ => by cases a <;> rfl
  unfold State.started
  cases hg : s.group key owner with
  | none => exact hrefused _
  | some =>
    simp only
    split_ifs with hst
    · exact hrefused _
    cases at_.accepted with
    | error => exact hrefused _
    | ok ok =>
      cases ok with
      | false => exact hrefused _
      | true =>
        rw [not_not] at hst
        have hmem := (State.group_eq_some hg).1
        refine .kept (fun _ => rfl) hmem (Group.follows_mark (hu _ hmem) hst (fun e => ⟨rfl, rfl⟩)
          (.inr ⟨rfl, .inl rfl⟩) fun _ _ _ => .inl rfl) ?_
        -- the started part keeps the group open
        obtain ⟨e, he, -⟩ := map_eq_some_iff.1 hst
        refine Bool.eq_false_iff.2 fun hc => ?_
        have hall := List.all_eq_true.1 (Bool.and_eq_true_iff.1 hc).2
        have hpart := hall _ (mem_update_of_pos ((Group.entry_eq_some (hu _ hmem)).1 he) rfl)
        exact Bool.false_ne_true hpart

theorem effect_emitted (key : ℕ) (owner : Option O) (part : P) :
    Effect s (.emitted key owner part) (s.emitted key owner part).1 (s.emitted key owner part).2 := by
  have hrefused : Effect s (.emitted key owner part) (.bool false) s := .refused fun _ => rfl
  unfold State.emitted
  cases hg : s.group key owner with
  | none => exact hrefused
  | some =>
    simp only
    split_ifs with hst
    · exact hrefused
    · rw [not_not] at hst
      have hmem := (State.group_eq_some hg).1
      obtain ⟨e, he, -⟩ := map_eq_some_iff.1 hst
      refine .emitted hmem (Group.follows_mark (hu _ hmem) hst (fun e => ⟨rfl, rfl⟩)
        ⟨fun _ => ⟨rfl, rfl⟩, fun h => absurd rfl h⟩ fun _ _ h => ⟨fun e => absurd e h, fun _ => rfl⟩) ?_
      exact ⟨_, mem_update_of_pos ((Group.entry_eq_some (hu _ hmem)).1 he) rfl, rfl⟩

theorem effect_retire (key : ℕ) (owner : Option O) (part : P) :
    Effect s (.retire key owner part) (s.retire key owner part).1 (s.retire key owner part).2 := by
  have hrefused : Effect s (.retire key owner part) (.bool false) s := .refused fun _ => rfl
  unfold State.retire
  cases hg : s.group key owner with
  | none => exact hrefused
  | some =>
    simp only
    split_ifs with hst
    · exact hrefused
    · rw [not_not] at hst
      have hmem := (State.group_eq_some hg).1
      exact .settled (fun _ => rfl) hmem (Group.follows_mark (hu _ hmem) hst (fun e => ⟨rfl, rfl⟩)
        (.inr ⟨rfl, .inr rfl⟩) fun _ _ _ => .inl rfl)

end

/-- What a call can do. -/
theorem effect_call (op : Op O T P) : Effect s op (s.call op).1 (s.call op).2 := by
  cases op with
  | openGroup owner turn => exact effect_openGroup owner turn
  | admitPart key owner turn part text => exact effect_admitPart key owner turn part text
  | started key owner part at_ => exact effect_started hu key owner part at_
  | emitted key owner part => exact effect_emitted hu key owner part
  | finish key owner =>
    show Effect s _ (s.finish key owner).1 (s.finish key owner).2
    unfold State.finish
    cases hg : s.group key owner with
    | none => exact .refused fun _ => rfl
    | some =>
      refine .settled (fun _ => rfl) (State.group_eq_some hg).1 ⟨rfl, rfl, List.forall₂_same.2 fun x _ => ?_⟩
      exact ⟨rfl, rfl, .inl rfl⟩
  | retire key owner part => exact effect_retire hu key owner part
  | retainPending live =>
    show Effect s _ .none (s.settleAll (fun g => g.retain live) s.groups)
    refine .retained live fun g => ?_
    unfold Group.retain
    exact Group.follows_update fun x _ => ⟨fun h => ⟨rfl, rfl, .inr ⟨h.1, .inr rfl⟩⟩, fun _ => .inl rfl⟩
  | interrupt key owner reason =>
    show Effect s _ (s.interrupt key owner reason).1 (s.interrupt key owner reason).2
    unfold State.interrupt
    cases hg : s.group key owner with
    | none => exact .refused fun _ => rfl
    | some => exact .left (fun _ => rfl) (State.group_eq_some hg).1
  | beforeNative => exact .emptied s.closed fun _ => rfl
  | close => exact .emptied true fun _ => rfl
  | takeReady => exact .taken

end

end StrixAlloy.TranscriptGroups

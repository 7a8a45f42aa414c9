import Mathlib.Algebra.Group.Nat.Defs
import StrixAlloy.Lib.Fifo
import StrixAlloy.Lib.Regions

/-!
# The cache of embedding rows

`halogen0162_mtp_embedding_cache.c` keeps copies of rows that the original launch produced, each in
device memory of its own, with an event that is recorded behind the copy. All device operations go to
the default stream, which is a `Fifo` of commands here. What the device and other threads do is an
`Oracle`: an answer for each operation, in order.

The counters of `ecache_stats` are left out; nothing reads them but the counters themselves. A call that
overlaps another one only latches `failed`, which an answer says (`overlapped`).
-/

namespace StrixAlloy.EmbeddingCache

/-- `ECACHE_MAX_ENTRIES`. -/
def maxEntries : ℕ := 64

/-- `ECACHE_ROW_BYTES`. -/
def rowBytes : ℕ := 5120

/-- `ECACHE_TOKEN_COUNT`. -/
def tokenCount : ℤ := 248320

/-- `ECACHE_MISS`, `ECACHE_HIT` and `ECACHE_ERROR`. A call that looks nothing up succeeds with 0, which is
`ECACHE_MISS`. -/
inductive Code where
  | miss | hit | error
deriving DecidableEq

/-- The bytes of a row. -/
abbrev Row := Fin rowBytes → UInt8

/-- The memory of the device. -/
abbrev Memory := ℕ → UInt8

/-- The sixteen bytes of a generation. -/
abbrev Generation := BitVec 128

/-! ## The device -/

/-- A command on the default stream. -/
inductive Command where
  /-- A copy of a row from device to device. -/
  | copy (destination source : ℕ)
  /-- A copy of a row from the host. -/
  | upload (destination : ℕ) (row : Row)
  /-- The original launch on a row of the token. -/
  | launch (generation : Generation) (token : ℤ) (input output : ℕ)
  | record (event : ℕ)

/-- The command records the event. -/
def Command.records (event : ℕ) : Command → Bool
  | .record e => e = event
  | _ => false

/-- What a command does to the memory. `f` gives the row that the original launch produces. -/
def exec (f : Generation → ℤ → Row) (m : Memory) : Command → Memory
  | .copy destination source => Regions.write m destination (Regions.read m source : Row)
  | .upload destination row => Regions.write m destination row
  | .launch generation token _ output => Regions.write m output (f generation token)
  | .record _ => m

/-- What happens in one device operation. -/
structure Answer where
  /-- How many commands take effect before it. -/
  progress : ℕ
  /-- Another call found the cache busy by then. -/
  overlapped : Bool
  /-- The result, of which 0 is success. -/
  result : ℤ
  /-- An operation that reports an error was enqueued all the same. -/
  enqueued : Bool
  /-- What an allocation or a creation stores. -/
  pointer : ℕ

/-- The answers to the operations, by their number. -/
abbrev Oracle := ℕ → Answer

/-- `ecache_entry`. -/
structure Entry where
  device : ℕ
  event : ℕ
  token : ℤ
  valid : Bool

/-- An entry of zeros. -/
def Entry.zero : Entry := ⟨0, 0, 0, false⟩

/-- `ecache_state`, of which `entries` are the first `capacity`, with the stream and the number of
device operations so far. -/
structure State where
  entries : List Entry
  generation : Generation
  next_victim : ℕ
  initialized : Bool
  failed : Bool
  stream : Fifo Command
  operations : ℕ

/-- The state before its first initialization. -/
def State.zero : State := ⟨[], 0, 0, false, false, .empty, 0⟩

namespace State

variable (o : Oracle) (s : State)

/-- The answer to the next operation. -/
def answer : Answer := o s.operations

/-- The state in which the next operation takes place. -/
def turn : State :=
  { s with
    failed := s.failed || (s.answer o).overlapped
    stream := s.stream.progress (s.answer o).progress
    operations := s.operations + 1 }

/-- An operation that enqueues a command; the Boolean says whether it succeeds. -/
def submit (command : Command) : Bool × State :=
  let ok := decide ((s.answer o).result = 0)
  let t := s.turn o
  (ok, if ok || (s.answer o).enqueued then { t with stream := t.stream.enqueue command } else t)

/-- `stream_synchronize`. -/
def synchronize : Bool × State :=
  let ok := decide ((s.answer o).result = 0)
  let t := s.turn o
  (ok, if ok then { t with stream := t.stream.drain } else t)

/-- `event_query`, which is 0 where everything recorded to the event has taken effect, and otherwise 1,
or an error. -/
def query (event : ℕ) : ℤ × State :=
  let t := s.turn o
  let result := (s.answer o).result
  (if result = 0 ∨ result = 1 then if t.stream.completed (Command.records event) then 0 else 1 else result, t)

/-- An operation on memory or events: whether it succeeds, and what it stores. -/
def resource : Bool × ℕ × State :=
  (decide ((s.answer o).result = 0), (s.answer o).pointer, s.turn o)

/-- `ecache_fail`. -/
def fail : State := { s with failed := true }

/-- The change of an entry. -/
def setEntry (slot : ℕ) (g : Entry → Entry) : State := { s with entries := s.entries.modify slot g }

/-- Every entry is invalid. -/
def invalidate : State := { s with entries := s.entries.map fun e => { e with valid := false } }

end State

/-! ## Checks -/

/-- `ecache_span`, on 64-bit addresses. -/
def span (p n : ℕ) : Bool := p ≠ 0 && n ≠ 0 && n ≤ 2 ^ 64 - 1 - p

/-- `ecache_disjoint` for two rows. -/
def disjoint (p q : ℕ) : Bool :=
  span p rowBytes && span q rowBytes && decide (Regions.Apart rowBytes p q)

/-- `ecache_enter`. -/
def enter (s : State) (allow_failed : Bool) : Bool := s.initialized && (allow_failed || !s.failed)

/-- `ecache_leave`. -/
def leave (code : Code) (s : State) : Code × State := (if s.failed then .error else code, s)

/-- The pointers that `ecache_apply_internal` accepts. -/
def pointersOk (s : State) (input output : ℕ) : Bool :=
  input % 2 = 0 && output % 2 = 0 && disjoint input output &&
    s.entries.all fun e => disjoint input e.device && disjoint output e.device

/-- A token of the table. -/
def supported (token : ℤ) : Bool := 0 ≤ token && token < tokenCount

/-! ## Initialization and close -/

section Lifetime

variable (o : Oracle)

/-- The second half of the loop of `ecache_cleanup`: `release` of the device of the first entry, and of
its copies in the others. -/
def releaseDevice (device : ℕ) (rest : List Entry) (s : State) : List Entry × State :=
  if device = 0 then (rest, s)
  else
    let (ok, _, s) := s.resource o
    (rest.map fun e => if e.device = device then { e with device := 0 } else e, if ok then s else s.fail)

/-- The first half: `event_destroy`. -/
def destroyEvent (event : ℕ) (rest : List Entry) (s : State) : List Entry × State :=
  if event = 0 then (rest, s)
  else
    let (ok, _, s) := s.resource o
    (rest.map fun e => if e.event = event then { e with event := 0 } else e, if ok then s else s.fail)

/-- The loop of `ecache_cleanup` over `fuel` entries, of which each gives up its event and its memory. -/
def releaseEntries : ℕ → List Entry → State → State
  | 0, _, s => s
  | _ + 1, [], s => s
  | fuel + 1, e :: rest, s =>
    let (rest, s) := destroyEvent o e.event rest s
    let (rest, s) := releaseDevice o e.device rest s
    releaseEntries fuel rest s

/-- `ecache_cleanup`, of which `ecache_leave` reports the failures. A failed drain keeps the
resources. -/
def cleanup (s : State) : State :=
  let (ok, s) := s.synchronize o
  if ¬ ok then s.fail
  else
    let s := releaseEntries o s.entries.length s.entries s.invalidate
    { s with entries := s.entries.map fun e => { e with device := 0, event := 0 }, initialized := false }

/-- The loop of `ecache_init` that allocates `n` more entries after those in `built`. The Boolean says
whether it succeeds, and the list has every entry it came to. -/
def allocateEntries : ℕ → List Entry → State → Bool × List Entry × State
  | 0, built, s => (true, built, s)
  | n + 1, built, s =>
    let (ok, device, s) := s.resource o
    let e : Entry := ⟨device, 0, 0, false⟩
    if ¬ ok ∨ ¬ span device rowBytes ∨ device % 2 ≠ 0 ∨ built.any fun d => !disjoint device d.device then
      (false, built ++ [e], s.fail)
    else
      let (ok, event, s) := s.resource o
      let e : Entry := { e with event }
      if ¬ ok ∨ event = 0 ∨ built.any fun d => d.event = event then (false, built ++ [e], s.fail)
      else allocateEntries n (built ++ [e]) s

/-- `ecache_init`; `arguments_ok` says that no pointer or callback is null and that the ABI agrees. -/
def init (arguments_ok : Bool) (generation : Generation) (capacity : ℕ) (s : State) : Code × State :=
  if ¬ arguments_ok ∨ generation = 0 ∨ capacity < 1 ∨ maxEntries < capacity ∨ s.initialized then (.error, s)
  else
    let s := { s with generation, next_victim := 0, initialized := true, failed := false }
    let (ok, entries, s) := allocateEntries o capacity [] { s with entries := [] }
    let s := { s with entries := entries ++ List.replicate (capacity - entries.length) .zero }
    if ok then leave .miss s else leave .error (cleanup o s)

/-- `ecache_close`. -/
def close (s : State) : Code × State :=
  if ¬ enter s true then (.error, s) else leave .miss (cleanup o s)

/-- `ecache_reset`; a null generation is `none`. -/
def reset (generation : Option Generation) (s : State) : Code × State :=
  if ¬ enter s false then (.error, s)
  else
    match generation with
    | none => leave .error s.fail
    | some generation =>
      if generation = 0 ∨ generation = s.generation then leave .error s.fail
      else
        let (ok, s) := s.synchronize o
        if ¬ ok then leave .error s.fail
        else leave .miss { s.invalidate with generation, next_victim := 0 }

end Lifetime

/-! ## Lookups -/

section Lookup

variable (o : Oracle)

/-- `ecache_ready`; `none` is an error. -/
def ready (slot : ℕ) (s : State) : Option Bool × State :=
  let (result, s) := s.query o ((s.entries.getD slot .zero).event)
  if result ≠ 0 ∧ result ≠ 1 then (none, s.fail) else (some (result = 0), s)

/-- The slot of the first valid entry of the token. -/
def find (s : State) (token : ℤ) : Option ℕ := s.entries.findIdx? fun e => e.valid && e.token = token

/-- The first slot among the candidates whose event is complete; the outer `none` is an error. -/
def findReady : List ℕ → State → Option (Option ℕ) × State
  | [], s => (some none, s)
  | slot :: slots, s =>
    match ready o slot s with
    | (none, s) => (none, s)
    | (some true, s) => (some (some slot), s)
    | (some false, s) => findReady slots s

/-- The slots of the search for a victim. -/
def victims (s : State) : List ℕ :=
  (List.range s.entries.length).map fun offset => (s.next_victim + offset) % s.entries.length

/-- The slot that a new row takes: a free one, else a victim, if there is one. -/
def chooseSlot (s : State) : Option (Option ℕ) × State :=
  match s.entries.findIdx? fun e => !e.valid with
  | some slot => (some (some slot), s)
  | none => findReady o (victims s) s

/-- The capture of a new row: the entry is invalid until its event is recorded behind the copy. -/
def capture (token : ℤ) (output slot : ℕ) (s : State) : Code × State :=
  let e := s.entries.getD slot .zero
  let s := s.setEntry slot fun e => { e with valid := false }
  let (ok, s) := s.submit o (.copy e.device output)
  if ¬ ok then (.error, s.fail)
  else
    let (ok, s) := s.submit o (.record e.event)
    if ¬ ok then (.error, s.fail)
    else
      let s := s.setEntry slot fun e => { e with token, valid := true }
      (.miss, { s with next_victim := (slot + 1) % s.entries.length })

/-- The end of `ecache_apply_internal`: the original launch, and the capture of its row in the slot, if
there is one. -/
def runOriginal (token : ℤ) (input output : ℕ) (slot : Option ℕ) (s : State) : Code × State :=
  if s.failed then (.error, s)
  else
    let (ok, s) := s.submit o (.launch s.generation token input output)
    if ¬ ok then (.error, s.fail)
    else if s.failed then (.error, s)
    else
      match slot with
      | none => (.miss, s)
      | some slot => capture o token output slot s

/-- The copy of a ready row to the output. -/
def copyHit (output slot : ℕ) (s : State) : Code × State :=
  if s.failed then (.error, s)
  else
    let (ok, s) := s.submit o (.copy output (s.entries.getD slot .zero).device)
    if ok then (.hit, s) else (.error, s.fail)

/-- `ecache_apply_internal`, between `ecache_enter` and `ecache_leave`. -/
def applyBody (lookup_hits launch_ok : Bool) (token : ℤ) (input output : ℕ) (s : State) : Code × State :=
  if ¬ launch_ok ∨ ¬ pointersOk s input output then (.error, s.fail)
  else if ¬ supported token then runOriginal o token input output none s
  else
    match find s token with
    | some slot =>
      match ready o slot s with
      | (none, s) => (.error, s)
      | (some false, s) => runOriginal o token input output none s
      | (some true, s) =>
        if lookup_hits then copyHit o output slot s
        else runOriginal o token input output (some slot) s
    | none =>
      match chooseSlot o s with
      | (none, s) => (.error, s)
      | (some slot, s) => runOriginal o token input output slot s

/-- `ecache_apply_internal`; `launch_ok` says that the callback is not null. -/
def applyInternal (lookup_hits launch_ok : Bool) (token : ℤ) (input output : ℕ) (s : State) :
    Code × State :=
  if ¬ enter s false then (.error, s)
  else
    let (code, s) := applyBody o lookup_hits launch_ok token input output s
    leave code s

/-- `ecache_apply`. -/
def apply (launch_ok : Bool) (token : ℤ) (input output : ℕ) : State → Code × State :=
  applyInternal o true launch_ok token input output

/-- `ecache_capture_original`. -/
def captureOriginal (launch_ok : Bool) (token : ℤ) (input output : ℕ) : State → Code × State :=
  applyInternal o false launch_ok token input output

/-- `ecache_lookup_ready` with a place for the row: the code, and the row that is lent. -/
def lookupReady (token : ℤ) (s : State) : Code × ℕ × State :=
  if ¬ enter s false then (.error, 0, s)
  else if ¬ supported token then ((leave .miss s).1, 0, s)
  else
    match find s token with
    | none => ((leave .miss s).1, 0, s)
    | some slot =>
      match ready o slot s with
      | (none, s) => ((leave .error s).1, 0, s)
      | (some false, s) => ((leave .miss s).1, 0, s)
      | (some true, s) => ((leave .hit s).1, (s.entries.getD slot .zero).device, s)

end Lookup

/-! ## Import -/

/-- `ecache_artifact`; the records are the first `count` of its tokens and rows. -/
structure Artifact where
  origin : ℕ
  generation : Generation
  model_binding : BitVec 256
  provenance : BitVec 256
  records : List (ℤ × Row)

/-- The value at the place `j` of a row, of which the exponent is not that of an infinity or NaN. -/
def finite (row : Row) (j : Fin (rowBytes / 2)) : Bool :=
  let low := row ⟨2 * j, by have := j.isLt; unfold rowBytes at *; omega⟩
  let high := row ⟨2 * j + 1, by have := j.isLt; unfold rowBytes at *; omega⟩
  (low.toNat + 256 * high.toNat) &&& 0x7f80 ≠ 0x7f80

/-- `ecache_artifact_valid`. -/
def Artifact.valid (a : Artifact) : Bool :=
  1 ≤ a.records.length && a.records.length ≤ maxEntries && (a.origin = 1 || a.origin = 2) &&
    a.generation ≠ 0 && a.model_binding ≠ 0 && a.provenance ≠ 0 &&
    (a.records.all fun r => supported r.1 && decide (∀ j, finite r.2 j)) &&
    decide (a.records.map Prod.fst).Nodup

section Import

variable (o : Oracle)

/-- The loop of `ecache_import_rows` over the entries and the records that they get. -/
def uploadRows : List (Entry × ℤ × Row) → State → Bool × State
  | [], s => (true, s)
  | (e, _, row) :: rest, s =>
    let (ok, s) := s.submit o (.upload e.device row)
    if ¬ ok then (false, s)
    else
      let (ok, s) := s.submit o (.record e.event)
      if ¬ ok then (false, s) else uploadRows rest s

/-- The entries with the tokens of the records; those beyond them stay. -/
def publish : List Entry → List (ℤ × Row) → List Entry
  | e :: entries, (token, _) :: records => { e with token, valid := true } :: publish entries records
  | entries, _ => entries

/-- `ecache_import_rows`; a null artifact is `none`. -/
def importRows (artifact : Option Artifact) (s : State) : Code × State :=
  if ¬ enter s false then (.error, s)
  else
    match artifact with
    | none => leave .error s.fail
    | some a =>
      if ¬ a.valid ∨ s.entries.length < a.records.length ∨ a.generation ≠ s.generation ∨
          s.entries.any Entry.valid then leave .error s.fail
      else
        let (ok, s) := uploadRows o (s.entries.zip a.records) s
        if ¬ ok then leave .error s.fail
        else
          let (ok, s) := s.synchronize o
          if ¬ ok then leave .error s.fail
          else leave .miss { s with entries := publish s.entries a.records }

end Import

/-! ## Runs -/

/-- A call with its arguments. -/
inductive Call where
  | init (arguments_ok : Bool) (generation : Generation) (capacity : ℕ)
  | apply (launch_ok : Bool) (token : ℤ) (input output : ℕ)
  | captureOriginal (launch_ok : Bool) (token : ℤ) (input output : ℕ)
  | lookupReady (row_ok : Bool) (token : ℤ)
  | importRows (artifact : Option Artifact)
  | reset (generation : Option Generation)
  | close

/-- What a call returns, with the row that it lends. -/
structure Outcome where
  code : Code
  row : ℕ
  state : State

/-- A call on a state. -/
def call (o : Oracle) (s : State) : Call → Outcome
  | .init arguments_ok generation capacity =>
    let (code, s) := init o arguments_ok generation capacity s
    ⟨code, 0, s⟩
  | .apply launch_ok token input output =>
    let (code, s) := apply o launch_ok token input output s
    ⟨code, 0, s⟩
  | .captureOriginal launch_ok token input output =>
    let (code, s) := captureOriginal o launch_ok token input output s
    ⟨code, 0, s⟩
  | .lookupReady row_ok token =>
    if row_ok then
      let (code, row, s) := lookupReady o token s
      ⟨code, row, s⟩
    else ⟨.error, 0, s⟩
  | .importRows artifact =>
    let (code, s) := importRows o artifact s
    ⟨code, 0, s⟩
  | .reset generation =>
    let (code, s) := reset o generation s
    ⟨code, 0, s⟩
  | .close =>
    let (code, s) := close o s
    ⟨code, 0, s⟩

/-- The state after a call. -/
def step (o : Oracle) (s : State) (c : Call) : State := (call o s c).state

end StrixAlloy.EmbeddingCache

import Mathlib.Algebra.Group.Nat.Defs
import StrixAlloy.Lib.Streams

/-!
# The deferred projection

`deferred_z_stream.h` and the interposers of `launch_redirect_linux.cpp`. A `Context` captures one call at
a time and runs it later, with the launches of the call redirected to a stream of its own, ordered after
the main stream by the event `fork` of a slot and before it by `done`. A slot is used again when its event
`retired` is complete.

An operation on the device has an `Answer`. Before it the streams go on and other work may reach the main
stream (`Event`). An operation that reports an error may have been enqueued all the same. A query or a
synchronization reports success only where it is true, whatever the answer says.

What the observer callback answers is part of a submission. The interposers differ in the operation that
they pass on and not in what they check; `Kind` tells apart those that enqueue, the one that synchronizes
and those that have no stream.
-/

namespace StrixAlloy.DeferredZ

open Streams

def engineSha : String := "ce1c375eb2d92a4c7b2b0e1d969acd865bb72bb248c52498eedb170cbaea8a89"

def notReady : ℤ := 600

inductive Result where
  | stock | captured | pending | joined | fatal
deriving DecidableEq

/-! ## The device -/

/-- The streams: the main one, which is `nullptr`, and the one of each opening. -/
inductive Stream where
  | main
  | side (opening : ℕ)
deriving DecidableEq

/-- The three events of a slot. -/
inductive Mark where
  | fork | done | retired
deriving DecidableEq

/-- An event that an opening created. -/
structure Handle where
  opening : ℕ
  slot : ℕ
  mark : Mark
deriving DecidableEq

/-- Who submitted the work: others, or the captured call of a number. -/
inductive Work where
  | native
  | call (serial : ℕ)

abbrev Device := Streams.Device Stream Work Handle

/-- What happens on the device beside the operations of the context. -/
inductive Event where
  | advance (q : Stream)
  /-- Work that others submit to the main stream. -/
  | submit

structure Answer where
  /-- What happens before the operation. -/
  before : List Event
  /-- The result, of which 0 is success. -/
  result : ℤ
  /-- An operation that reports an error was enqueued all the same. -/
  enqueued : Bool
  /-- A creation stores a handle. -/
  handle : Bool

/-- The answers to the operations, by their number. -/
abbrev Oracle := ℕ → Answer

/-! ## The context -/

/-- Whether the members of `Api` are bound. -/
structure Api where
  streamCreate : Bool
  stream_destroy : Bool
  streamSync : Bool
  event_create : Bool
  event_destroy : Bool
  eventRecord : Bool
  eventQuery : Bool
  streamWait : Bool

def Api.valid (api : Api) : Bool :=
  api.streamCreate && api.stream_destroy && api.streamSync && api.event_create &&
    api.event_destroy && api.eventRecord && api.eventQuery && api.streamWait

/-- A pin, by whether its members are set. -/
structure Pin where
  address : Bool
  expected : Bool
  bytes : Bool

structure Qualification where
  enabled : Bool
  single_owner : Bool
  disjoint_z_output : Bool
  unchanged_fc : Bool
  scratch_sequential : Bool
  no_native_prefetch : Bool
  all_exits_bound : Bool
  complete_fc_launch_coverage : Bool
  warmed_algorithm_cache : Bool
  stock_ht_path : Bool
  live_ranges_verified : Bool
  event_slots : ℕ
  image_hash : Option String
  pins : Option (List Pin)
  /-- What the callback answers, if there is one. -/
  verify_identity_and_bytes : Option Bool

def poolSize : ℕ := 8

/-- The checks of `open` on a qualification that is enabled. -/
def Qualification.accepted (q : Qualification) : Bool :=
  q.single_owner && q.disjoint_z_output && q.unchanged_fc && q.scratch_sequential &&
    q.no_native_prefetch && q.all_exits_bound && q.complete_fc_launch_coverage &&
    q.warmed_algorithm_cache && q.stock_ht_path && q.live_ranges_verified && 1 ≤ q.event_slots &&
    q.event_slots ≤ poolSize && q.image_hash = some engineSha &&
    match q.pins with
    | some pins =>
      !pins.isEmpty && pins.all (fun p => p.address && p.expected && p.bytes) &&
        q.verify_identity_and_bytes = some true
    | none => false

structure FcCall where
  original : ℕ
  descriptor : ℕ
  input : ℕ
  output : ℕ
  n : ℤ
  m : ℤ
  k : ℤ

/-- The calls that `capture` takes; it leaves the others to their caller. -/
def FcCall.accepted (c : FcCall) : Bool :=
  c.original ≠ 0 && c.descriptor ≠ 0 && c.input ≠ 0 && c.output ≠ 0 && c.n = 6144 && 8 < c.m &&
    c.m ≤ 8192 && c.k = 2560

inductive SlotState where
  | empty | available | captured | side_queued | retired
deriving DecidableEq

/-- A slot: which of its events it holds, and its state. -/
structure Slot where
  fork : Bool
  done : Bool
  retired : Bool
  state : SlotState

/-- A record of an event by the context, for the call `serial`. -/
structure Record where
  event : Handle
  serial : ℕ
  /-- How far the main stream was. -/
  main_done : ℕ

/-- A call and the length of the main stream: when `afterAb` began, or when `joinPending` returned. -/
structure Order where
  serial : ℕ
  main_length : ℕ

structure State where
  device : Device
  /-- How many operations there were. -/
  operations : ℕ
  side : Option Stream
  slots : ℕ → Slot
  slot_count : ℕ
  pending : Option ℕ
  call : Option FcCall
  owner : ℕ
  enabled : Bool
  poisoned : Bool
  touched : Bool
  -- what the source does not keep
  openings : ℕ
  captures : ℕ
  executed : List ℕ
  records : List Record
  /-- The calls that were joined, each with the place of its retirement record on the main stream. -/
  retirements : List (ℕ × ℕ)
  pended : List Order
  joined : List Order

namespace State

def empty : State where
  device := Streams.Device.empty
  operations := 0
  side := none
  slots := fun _ => ⟨false, false, false, .empty⟩
  slot_count := poolSize
  pending := none
  call := none
  owner := 0
  enabled := false
  poisoned := false
  touched := false
  openings := 0
  captures := 0
  executed := []
  records := []
  retirements := []
  pended := []
  joined := []

/-- The stream of the current opening. -/
def sideStream (s : State) : Stream := .side s.openings

/-- An event of the current opening. -/
def event (s : State) (i : ℕ) (mark : Mark) : Handle := ⟨s.openings, i, mark⟩

/-- The number of the call that was captured last. -/
def serial (s : State) : ℕ := s.captures - 1

def setSlot (s : State) (i : ℕ) (slot : Slot) : State := { s with slots := Function.update s.slots i slot }

def setState (s : State) (i : ℕ) (state : SlotState) : State :=
  s.setSlot i { s.slots i with state := state }

/-! ### Operations on the device -/

def happen (d : Device) : Event → Device
  | .advance q => d.advance q
  | .submit => d.push .main (.work .native)

/-- What happens before the next operation, which is then the next but one. -/
def before (o : Oracle) (s : State) : State :=
  { s with device := (o s.operations).before.foldl happen s.device, operations := s.operations + 1 }

/-- The result of the operation that `before` makes way for. -/
def result (o : Oracle) (s : State) : ℤ := (o s.operations).result

/-- The operation is enqueued: where it succeeds, and maybe where it does not. -/
def enqueued (o : Oracle) (s : State) : Bool := (o s.operations).result = 0 || (o s.operations).enqueued

/-- `eventRecord` on a stream, of an event of slot `i`. -/
def eventRecord (o : Oracle) (s : State) (i : ℕ) (mark : Mark) (q : Stream) : ℤ × State :=
  let t := s.before o
  let t := { t with records := t.records ++ [⟨t.event i mark, t.serial, t.device.done .main⟩] }
  (s.result o, if s.enqueued o then { t with device := t.device.record q (t.event i mark) } else t)

/-- `streamWait` of a stream for an event of slot `i`. -/
def streamWait (o : Oracle) (s : State) (q : Stream) (i : ℕ) (mark : Mark) : ℤ × State :=
  let t := s.before o
  (s.result o, if s.enqueued o then { t with device := t.device.wait q (t.event i mark) } else t)

/-- `eventQuery` of an event of slot `i`. -/
def eventQuery (o : Oracle) (s : State) (i : ℕ) (mark : Mark) : ℤ × State :=
  let t := s.before o
  (if s.result o = 0 && !t.device.complete (t.event i mark) then notReady else s.result o, t)

/-- `streamSync`. -/
def streamSync (o : Oracle) (s : State) (q : Stream) : ℤ × State :=
  let t := s.before o
  (if s.result o = 0 && !t.device.drained q then 1 else s.result o, t)

/-- A launch on a stream, for the call `serial`. -/
def launch (o : Oracle) (s : State) (q : Stream) (serial : ℕ) : ℤ × State :=
  let t := s.before o
  (s.result o,
    if s.enqueued o then { t with device := t.device.push q (.work (.call serial)) } else t)

/-- An operation that enqueues nothing. -/
def plain (o : Oracle) (s : State) : ℤ × State := (s.result o, s.before o)

/-! ### The interposers -/

/-- `Redirect` of a captured call. -/
structure Redirect where
  failed : Bool
  redirected : ℕ

/-- What an interposer passes on. -/
inductive Kind where
  /-- It enqueues on the stream that was asked for. -/
  | enqueue (requested : Stream)
  | synchronize (requested : Stream)
  /-- It has no stream, or is a record of an event. -/
  | temporary

structure Submission where
  kind : Kind
  /-- The observer submitted something itself. -/
  nested : Bool
  /-- The observer agrees, or there is none. -/
  observed : Bool

/-- `prepare`, up to the operation: the stream to use. -/
def prepare (s : State) (r : Redirect) (sub : Submission) (requested : Stream) : Option Stream × Redirect :=
  let r := if sub.nested || !sub.observed then { r with failed := true } else r
  if !sub.observed then (none, r)
  else if r.failed || (requested ≠ .main && requested ≠ s.sideStream) then (none, { r with failed := true })
  else (some s.sideStream, { r with redirected := (r.redirected + 1) % 2^32 })

/-- One submission of the captured call. -/
def submit (o : Oracle) (s : State) (r : Redirect) (sub : Submission) : State × Redirect :=
  match sub.kind with
  | .temporary => (s, { r with failed := true })
  | .enqueue requested =>
    match s.prepare r sub requested with
    | (none, r) => (s, r)
    | (some q, r) =>
      let x := s.launch o q s.serial
      (x.2, { r with failed := r.failed || x.1 ≠ 0 })
  | .synchronize requested =>
    match s.prepare r sub requested with
    | (none, r) => (s, r)
    | (some q, r) =>
      let x := s.streamSync o q
      (x.2, { r with failed := r.failed || x.1 ≠ 0 })

/-- The captured call. -/
def original (o : Oracle) : State → Redirect → List Submission → State × Redirect
  | s, r, [] => (s, r)
  | s, r, sub :: rest =>
    let x := s.submit o r sub
    original o x.1 x.2 rest

/-! ### The calls -/

/-- Who calls: the thread, and whether a redirect is active on it. -/
structure Caller where
  thread : ℕ
  redirecting : Bool

def fail (s : State) : Result × State := (.fatal, { s with poisoned := true })

/-- The answer of a context that is not enabled. -/
def disabled (s : State) : Result × State := (if s.poisoned then .fatal else .stock, s)

/-- The slot `i` takes the call. -/
def take (s : State) (call : FcCall) (i : ℕ) : State :=
  { s.setState i .captured with
    call := some call, pending := some i, touched := true, captures := s.captures + 1 }

/-- The loop of `capture` over the slots from `i`, of which `left` are left. -/
def pick (o : Oracle) (call : FcCall) : ℕ → ℕ → State → Result × State
  | _, 0, s => (.stock, s)
  | i, left + 1, s =>
    match (s.slots i).state with
    | .retired =>
      let x := s.eventQuery o i .retired
      if x.1 = 0 then (.captured, x.2.take call i)
      else if x.1 ≠ notReady then x.2.fail
      else pick o call (i + 1) left x.2
    | .available => (.captured, s.take call i)
    | _ => pick o call (i + 1) left s

def capture (o : Oracle) (s : State) (by' : Caller) (call : FcCall) : Result × State :=
  if !s.enabled then s.disabled
  else if by'.thread ≠ s.owner || s.poisoned || s.pending.isSome || by'.redirecting then s.fail
  else if !call.accepted then (.stock, s)
  else pick o call 0 s.slot_count s

/-- What `afterAb` does once the side stream waits for the main one. -/
def runCall (o : Oracle) (s : State) (i : ℕ) (redirecting : Bool) (submissions : List Submission)
    (throws : Bool) (main_length : ℕ) : Result × State :=
  let s := s.setState i .side_queued
  if redirecting then s.fail
  else
    let s := { s with executed := s.executed ++ [s.serial] }
    let x := s.original o ⟨false, 0⟩ submissions
    let s := x.1
    if x.2.failed || throws || x.2.redirected = 0 then s.fail
    else
      let y := s.eventRecord o i .done s.sideStream
      let s := y.2
      if y.1 ≠ 0 then s.fail
      else (.pending, { s with pended := s.pended ++ [⟨s.serial, main_length⟩] })

def afterAb (o : Oracle) (s : State) (by' : Caller) (submissions : List Submission) (throws : Bool) :
    Result × State :=
  if !s.enabled then s.disabled
  else if by'.thread ≠ s.owner || s.poisoned then s.fail
  else
    match s.pending with
    | none => s.fail
    | some i =>
      if (s.slots i).state ≠ .captured then s.fail
      else
        let main_length := (s.device.queue .main).length
        let x := ({ s with touched := true } : State).eventRecord o i .fork .main
        if x.1 ≠ 0 then x.2.fail
        else
          let y := x.2.streamWait o x.2.sideStream i .fork
          if y.1 ≠ 0 then y.2.fail
          else y.2.runCall o i by'.redirecting submissions throws main_length

def joinPending (o : Oracle) (s : State) (by' : Caller) : Result × State :=
  if !s.enabled then s.disabled
  else if by'.thread ≠ s.owner || s.poisoned then s.fail
  else
    match s.pending with
    | none => (.stock, s)
    | some i =>
      if (s.slots i).state ≠ .side_queued then s.fail
      else
        let x := s.streamWait o .main i .done
        if x.1 ≠ 0 then x.2.fail
        else
          let place := ((x.2.before o).device.queue .main).length
          let y := x.2.eventRecord o i .retired .main
          if y.1 ≠ 0 then y.2.fail
          else
            let t := y.2.setState i .retired
            (.joined,
              { t with
                pending := none
                call := none
                retirements := t.retirements ++ [(t.serial, place)]
                joined := t.joined ++ [⟨t.serial, (t.device.queue .main).length⟩] })

/-- `event_destroy` of an event, if it is held: whether it succeeds, and whether the event is still held. -/
def destroyEvent (o : Oracle) (s : State) (held : Bool) : Bool × Bool × State :=
  if held then
    let x := s.plain o
    (x.1 = 0, x.1 ≠ 0, x.2)
  else (true, false, s)

/-- `close` destroys the events that a slot holds. -/
def destroySlot (o : Oracle) (s : State) (i : ℕ) : Bool × State :=
  let slot := s.slots i
  let x := s.destroyEvent o slot.fork
  let y := x.2.2.destroyEvent o slot.done
  let z := y.2.2.destroyEvent o slot.retired
  let state := if !x.2.1 && !y.2.1 && !z.2.1 then .empty else slot.state
  (x.1 && y.1 && z.1, z.2.2.setSlot i ⟨x.2.1, y.2.1, z.2.1, state⟩)

/-- The events of the slots from `i`, of which `left` are left. -/
def destroySlots (o : Oracle) : ℕ → ℕ → State → Bool × State
  | _, 0, s => (true, s)
  | i, left + 1, s =>
    let x := s.destroySlot o i
    let y := destroySlots o (i + 1) left x.2
    (x.1 && y.1, y.2)

def close (o : Oracle) (s : State) (by' : Caller) : Bool × State :=
  match s.side with
  | none => (true, { s with enabled := false })
  | some side =>
    if by'.thread ≠ s.owner || by'.redirecting then (false, { s with poisoned := true })
    else
      let s := { s with enabled := false }
      let x : ℤ × State := if s.touched then s.streamSync o side else (0, s)
      let y : ℤ × State := if s.touched then x.2.streamSync o .main else (0, x.2)
      if x.1 ≠ 0 || y.1 ≠ 0 then (false, { y.2 with poisoned := true })
      else
        let z := destroySlots o 0 poolSize { y.2 with pending := none, call := none }
        if !z.1 then (false, { z.2 with poisoned := true })
        else
          let w := z.2.plain o
          if w.1 ≠ 0 then (false, { w.2 with poisoned := true }) else (true, { w.2 with side := none })

/-- `streamCreate`, for the stream of the current opening. -/
def streamCreate (o : Oracle) (s : State) : ℤ × State :=
  let x := s.plain o
  (x.1, { x.2 with side := if (o s.operations).handle then some s.sideStream else none })

/-- `createEvent`: whether it succeeds, and whether the handle is set. -/
def createEvent (o : Oracle) (s : State) : Bool × Bool × State :=
  let x := s.plain o
  (x.1 = 0 && (o s.operations).handle, (o s.operations).handle, x.2)

/-- `open` creates the events of a slot, up to the first that it cannot create. -/
def createSlot (o : Oracle) (s : State) (i : ℕ) : Bool × State :=
  let slot := s.slots i
  let x := s.createEvent o
  if !x.1 then (false, x.2.2.setSlot i { slot with fork := x.2.1 })
  else
    let y := x.2.2.createEvent o
    if !y.1 then (false, y.2.2.setSlot i { slot with fork := x.2.1, done := y.2.1 })
    else
      let z := y.2.2.createEvent o
      if !z.1 then
        (false, z.2.2.setSlot i { slot with fork := x.2.1, done := y.2.1, retired := z.2.1 })
      else (true, z.2.2.setSlot i ⟨x.2.1, y.2.1, z.2.1, .available⟩)

/-- The events of the slots from `i`, of which `left` are left. -/
def createSlots (o : Oracle) : ℕ → ℕ → State → Bool × State
  | _, 0, s => (true, s)
  | i, left + 1, s =>
    let x := s.createSlot o i
    if !x.1 then (false, x.2) else createSlots o (i + 1) left x.2

def «open» (o : Oracle) (s : State) (by' : Caller) (api : Api) (q : Qualification) : Bool × State :=
  if s.enabled || s.side.isSome || s.poisoned then (false, s)
  else if !q.enabled then (true, s)
  else if !q.accepted || !api.valid then (false, s)
  else
    let s := { s with owner := by'.thread, slot_count := q.event_slots, openings := s.openings + 1 }
    let x := s.streamCreate o
    if x.1 ≠ 0 || x.2.side.isNone then (false, { x.2 with poisoned := true })
    else
      let y := createSlots o 0 x.2.slot_count x.2
      if !y.1 then (false, (close o { y.2 with poisoned := true } by').2)
      else (true, { y.2 with enabled := true })

end State

/-! ## Runs -/

inductive Call where
  | open (by' : State.Caller) (api : Api) (q : Qualification)
  | capture (by' : State.Caller) (call : FcCall)
  | afterAb (by' : State.Caller) (submissions : List State.Submission) (throws : Bool)
  | joinPending (by' : State.Caller)
  | close (by' : State.Caller)
  /-- The device goes on, and others submit work. -/
  | device (event : Event)

def step (o : Oracle) (s : State) : Call → State
  | .open by' api q => (s.open o by' api q).2
  | .capture by' call => (s.capture o by' call).2
  | .afterAb by' submissions throws => (s.afterAb o by' submissions throws).2
  | .joinPending by' => (s.joinPending o by').2
  | .close by' => (s.close o by').2
  | .device event => { s with device := State.happen s.device event }

end StrixAlloy.DeferredZ

import StrixAlloy.Dflash.Owner

/-!
# The decode capture

`DecodeCapture` with its lease on a lane. Every call is one step, and what it finds is given with it. A word with
the retirement bit is a `Tag`; the record of an admission is empty between two steps, so that no retirement finds
one. A slot carries beside its view what was committed and reported for it, and the capture what was copied to the
storage of each slot; no decision depends on these.
-/

namespace StrixAlloy.Dflash

open Function

/-- `kSlots`. -/
def kSlots : ℕ := 8

/-- `kRetired`. -/
def kRetired : ℕ := 2 ^ 63

inductive DecodeSource
  | verify | scalar
deriving DecidableEq

structure DecodeView where
  binding : Binding := {}
  capture_sequence : ℕ := 0
  round : ℕ := 0
  source : DecodeSource := .verify
  anchor : ℤ := 0
  next_current : ℤ := 0
  verified_rows : ℕ := 0
  committed_rows : ℕ := 0
  ids : List ℤ := []
deriving DecidableEq

structure Slot where
  view : DecodeView := {}
  loss : ℕ := 0
  transported_before : ℕ := 0
  /-- The taps of `mask`. -/
  mask : List ℕ := []
  occupied : Bool := false
  valid : Bool := false
  queued : Bool := false
  recorded : Bool := false
  fence_failed : Bool := false
  complete : Bool := false
  returned : Bool := false
  committed : Bool := false
  done : Bool := false
  borrowed : Bool := false
  /-- The taps whose rows were copied. -/
  copied : List ℕ := []
  /-- The position of the commitment, and the status and the count of the outcome. -/
  position : ℤ := 0
  status : ℤ := 0
  transported : ℕ := 0
  losses_at_begin : ℕ := 0

/-- A generation with the retirement bit. -/
structure Tag where
  generation : ℕ := 0
  retired : Bool := false
deriving DecidableEq

/-- `compare_exchange` of a generation without the bit by the same with it. -/
def Tag.retire (t : Tag) (g : ℕ) : Tag := if t = ⟨g, false⟩ then ⟨g, true⟩ else t

structure Capture where
  enabled : Bool := true
  slots : ℕ → Slot := fun _ => {}
  slot_generation : ℕ → Tag := fun _ => {}
  losses : ℕ := 0
  generation : Tag := {}
  read : ℕ := 0
  write : ℕ := 0
  count : ℕ := 0
  active : Option ℕ := none
  sequence : ℕ := 0
  last_round : ℕ := 0
  retired_generation : ℕ := 0
  lane : Lane
  loss_at_arm : ℕ := 0
  /-- The copies that were queued to the storage of each slot, fenced, and finished. -/
  queued : ℕ → ℕ := fun _ => 0
  fenced : ℕ → ℕ := fun _ => 0
  finished : ℕ → ℕ := fun _ => 0
  acquired : List DecodeView := []

namespace Capture

variable (s : Capture) (e : Env)

def sourceLoss : Capture :=
  { s with losses := s.losses + 1,
           lane := if s.generation.generation ≠ 0 then s.lane.lossOf s.generation.generation else s.lane }

/-- A slot that is written. -/
def set (j : ℕ) (slot : Slot) : Capture := { s with slots := update s.slots j slot }

def invalidate (j : ℕ) : Capture := (s.set j { s.slots j with valid := false }).sourceLoss

/-! ## Retirement -/

/-- A slot of a generation that is retired. -/
def tagged (j : ℕ) : Bool :=
  let b := (s.slots j).view.binding.lease_generation
  (s.slots j).occupied && ((s.slot_generation j).retired && b = (s.slot_generation j).generation ||
    s.generation.retired && b = s.generation.generation)

/-- The fence of the copies of a slot that is not finished. -/
def lateFence (j : ℕ) : Bool := !(s.slots j).done && (s.slots j).queued && !(s.slots j).recorded

def drained (j : ℕ) : Slot :=
  let slot := s.slots j
  if !s.tagged j then slot
  else if s.lateFence j then
    { slot with valid := false, recorded := e.recorded j, fence_failed := !e.recorded j, done := true }
  else { slot with valid := false, done := true }

def drainRetirements : Capture :=
  { s with
    slots := fun j => if j < kSlots then s.drained e j else s.slots j
    fenced := fun j => if j < kSlots ∧ s.tagged j ∧ s.lateFence j ∧ e.recorded j then s.queued j else s.fenced j
    retired_generation := if s.generation.retired then s.generation.generation else s.retired_generation
    active := if s.generation.retired then none else s.active.filter fun j => !s.tagged j }

/-- A call: its body between `enter` and `leave`. -/
def call (body : Capture → Capture × Bool) : Capture × Bool :=
  if e.busy then (s.sourceLoss, false)
  else
    let r := body (s.drainRetirements e)
    (r.1.drainRetirements e, r.2)

/-! ## The lease -/

def leaseValid (held : Bool) (b : Binding) : Capture × Bool :=
  let v := s.lane.valid held b
  ({ s with lane := v.1 }, v.2)

def leaseHealthy (held : Bool) (b : Binding) : Capture × Bool :=
  let v := s.lane.healthy held b s.loss_at_arm
  ({ s with lane := v.1 }, v.2)

/-- `lease.valid && lease.healthy`, at two looks at the lane. -/
def leased (held again : Bool) (b : Binding) : Capture × Bool :=
  let v := s.leaseValid held b
  if !v.2 then v else v.1.leaseHealthy again b

/-! ## A capture -/

/-- The arguments of `begin` that are looked at first. -/
def wellFormed (b : Binding) (round : ℕ) (source : DecodeSource) (anchor : ℤ) (ids : List ℤ) : Bool :=
  b.request ≠ 0 && b.birth ≠ 0 && b.lease_generation ≠ 0 && b.lease_generation < kRetired &&
    b.lease_generation ≠ s.retired_generation && b.ticket ≠ 0 && b.model ≠ 0 && round ≠ 0 && 0 ≤ anchor &&
    ids.length = if source = .verify then 4 else 1

/-- The slot of a new capture. -/
def opened (b : Binding) (round : ℕ) (source : DecodeSource) (anchor : ℤ) (ids : List ℤ) (transported : ℕ) : Slot :=
  { view := { binding := b, capture_sequence := s.sequence + 1, round := round, source := source, anchor := anchor,
              verified_rows := ids.length, ids := ids ++ List.replicate (4 - ids.length) 0 }
    transported_before := transported, loss := word s.losses, valid := true, occupied := true,
    losses_at_begin := s.losses }

def admitted (b : Binding) (round : ℕ) (source : DecodeSource) (anchor : ℤ) (ids : List ℤ) (transported : ℕ) :
    Capture :=
  { s.set s.write (s.opened b round source anchor ids transported) with
    sequence := s.sequence + 1
    generation := if s.generation.generation ≠ b.lease_generation then ⟨b.lease_generation, false⟩ else s.generation
    slot_generation := update s.slot_generation s.write ⟨b.lease_generation, false⟩
    last_round := round, active := some s.write, write := (s.write + 1) % kSlots, count := s.count + 1 }

def beginBody (b : Binding) (round : ℕ) (source : DecodeSource) (anchor : ℤ) (ids : Option (List ℤ))
    (transported : ℕ) : Capture × Bool :=
  if s.active ≠ none || s.count = kSlots || (s.slots s.write).occupied then (s.sourceLoss, false)
  else
    match ids with
    | none => (s, false)
    | some ids =>
      if !s.wellFormed b round source anchor ids then (s, false)
      else
        let v := s.leased (e.lane 0) (e.lane 1) b
        if !v.2 || s.generation = ⟨b.lease_generation, true⟩ then (v.1, false)
        else if (s.generation.generation = b.lease_generation && round ≤ s.last_round) || s.sequence = maxWord ||
            !ids.all (0 ≤ ·) then (v.1.sourceLoss, false)
        else (v.1.admitted b round source anchor ids transported, true)

def «begin» (b : Binding) (round : ℕ) (source : DecodeSource) (anchor : ℤ) (ids : Option (List ℤ))
    (transported : ℕ) : Capture × Bool :=
  if !s.enabled then (s, false) else s.call e fun s => s.beginBody e b round source anchor ids transported

/-- `copy_2d` of a tap to the storage of a slot. -/
def copy (j tap : ℕ) (ok : Bool) : Capture :=
  { s.set j { s.slots j with queued := true,
                             copied := if ok then tap :: (s.slots j).copied else (s.slots j).copied } with
    queued := update s.queued j (s.queued j + 1) }

def captureBody (model layer rows source stream : ℕ) : Capture × Bool :=
  match s.active, kNativeLayers.idxOf? layer with
  | some j, some tap =>
    let slot := s.slots j
    if model ≠ slot.view.binding.model then (s, true)
    else if source = 0 || stream ≠ 0 || rows ≠ slot.view.verified_rows || slot.returned || tap ∈ slot.mask then
      (s.invalidate j, false)
    else
      let t := s.set j { slot with mask := tap :: slot.mask }
      if !slot.valid || slot.loss ≠ word s.losses then (t.invalidate j, false)
      else
        let v := t.leaseHealthy (e.lane 0) slot.view.binding
        if !v.2 then (v.1.invalidate j, false)
        else if e.copied then (v.1.copy j tap true, true) else ((v.1.copy j tap false).invalidate j, false)
  | _, _ => (s, true)

def captureHc (model layer rows source stream : ℕ) : Capture × Bool :=
  s.call e fun s => s.captureBody e model layer rows source stream

/-- The fence of a forward that returned. -/
def fence (j : ℕ) (ok : Bool) : Capture :=
  let slot := s.slots j
  if slot.queued then
    let t := { s.set j { slot with recorded := ok, fence_failed := slot.fence_failed || !ok } with
               fenced := if ok then update s.fenced j (s.queued j) else s.fenced }
    if ok then t else t.invalidate j
  else s.set j { slot with complete := true }

def forwardBody : Capture × Bool :=
  match s.active with
  | none => (s, false)
  | some j =>
    let slot := s.slots j
    let t := if slot.returned || !(List.range 5).all (· ∈ slot.mask) then s.invalidate j else s
    let t := (t.set j { t.slots j with returned := true }).fence j (e.recorded 8)
    (t, (t.slots j).valid)

def forwardReturned : Capture × Bool := s.call e fun s => s.forwardBody e

def committedBody (k : ℕ) (position : ℤ) : Capture × Bool :=
  match s.active with
  | none => (s, false)
  | some j =>
    let slot := s.slots j
    if slot.returned && !slot.committed && 0 < k && k ≤ slot.view.verified_rows &&
        (slot.view.source = .verify || k = 1) && slot.view.anchor + k = position then
      (s.set j { slot with view := { slot.view with committed_rows := k }, committed := true, position := position },
        true)
    else (s.invalidate j, false)

def committed (k : ℕ) (position : ℤ) : Capture × Bool := s.call e fun s => s.committedBody k position

/-- `equalOwner`. -/
def equalOwner (a b : Binding) : Bool := a = { b with total := a.total }

/-- What `outcome` leaves of a slot. -/
def reported (slot : Slot) (status current : ℤ) (transported : ℕ) : Slot :=
  { slot with
    view := { slot.view with
      next_current := current
      ids := slot.view.ids.take slot.view.committed_rows ++ List.replicate (4 - slot.view.committed_rows) 0 }
    done := true, status := status, transported := transported }

def outcomeBody (b : Binding) (status current : ℤ) (transported : ℕ) : Capture × Bool :=
  match s.active with
  | none => (s, false)
  | some j =>
    let slot := s.slots j
    let r := if slot.valid && equalOwner slot.view.binding b && slot.returned && slot.committed && status = 0 &&
        0 ≤ current && slot.transported_before + slot.view.committed_rows = transported &&
        slot.loss = word s.losses then s.leased (e.lane 0) (e.lane 1) b else (s, false)
    let t := if r.2 then r.1 else r.1.invalidate j
    ({ t.set j (reported (t.slots j) status current transported) with active := none }, r.2)

def outcome (b : Binding) (status current : ℤ) (transported : ℕ) : Capture × Bool :=
  s.call e fun s => s.outcomeBody e b status current transported

/-! ## The queue -/

def fenceComplete (j : ℕ) : Capture × Bool :=
  let slot := s.slots j
  if !slot.queued || slot.complete then (s, true)
  else if !slot.recorded || slot.fence_failed then (s, false)
  else
    match e.poll j with
    | .failed => ((s.set j { slot with fence_failed := true }).invalidate j, false)
    | .complete =>
      ({ s.set j { slot with complete := true } with finished := update s.finished j (s.fenced j) }, true)
    | .pending => (s, false)

def clearFront : Capture :=
  { s.set s.read {} with
    slot_generation := update s.slot_generation s.read {}
    read := (s.read + 1) % kSlots, count := s.count - 1 }

/-- The front slot is lent. -/
def lend : Capture :=
  let slot := s.slots s.read
  { s.set s.read { slot with borrowed := true } with acquired := s.acquired ++ [slot.view] }

/-- The front slot, as the loop of `acquire` looks at it; the view, or whether the loop goes on. The number tells the
looks at the lane apart. -/
def acquireFront (n : ℕ) : Capture × Option DecodeView × Bool :=
  let slot := s.slots s.read
  if !slot.done || slot.borrowed then (s, none, false)
  else
    let f := s.fenceComplete e s.read
    if !f.2 then (f.1, none, false)
    else
      let t := f.1.drainRetirements e
      let r := if (t.slots t.read).loss ≠ word t.losses then (t, false)
        else t.leased (e.lane (2 * n)) (e.lane (2 * n + 1)) (t.slots t.read).view.binding
      let t := if r.2 then r.1 else r.1.set r.1.read { r.1.slots r.1.read with valid := false }
      let t := t.drainRetirements e
      let slot := t.slots t.read
      if !slot.valid then (t.clearFront, none, true) else (t.lend, some slot.view, false)

def acquireLoop : ℕ → Capture → Capture × Option DecodeView
  | 0, s => (s, none)
  | n + 1, s =>
    if s.count = 0 then (s, none)
    else
      let r := s.acquireFront e n
      if r.2.2 then acquireLoop n r.1 else (r.1, r.2.1)

def acquire : Capture × Option DecodeView :=
  if e.busy then (s.sourceLoss, none)
  else
    let r := acquireLoop e kSlots (s.drainRetirements e)
    (r.1.drainRetirements e, r.2)

def releaseBody (sequence : ℕ) : Capture × Bool :=
  let slot := s.slots s.read
  if s.count ≠ 0 && slot.borrowed && slot.view.capture_sequence = sequence then (s.clearFront, true) else (s, false)

def release (sequence : ℕ) : Capture × Bool := s.call e fun s => s.releaseBody sequence

def retire (g : ℕ) : Capture :=
  if g = 0 || kRetired ≤ g then s
  else
    let t := { s with slot_generation := fun j => (s.slot_generation j).retire g, generation := s.generation.retire g }
    if e.busy then t else (t.drainRetirements e).drainRetirements e

/-- `storageReclaimable`, over the slots from one on. -/
def reclaimLoop : ℕ → ℕ → Capture → Bool → Capture × Bool
  | 0, _, s, ok => (s, ok)
  | n + 1, j, s, ok =>
    let slot := s.slots j
    if !slot.occupied then reclaimLoop n (j + 1) s ok
    else if ok && !slot.valid && !slot.borrowed && slot.done then
      let f := s.fenceComplete e j
      reclaimLoop n (j + 1) f.1 f.2
    else reclaimLoop n (j + 1) s false

def storageReclaimable : Capture × Bool :=
  s.call e fun s => reclaimLoop e kSlots 0 s (!s.enabled && s.active = none)

end Capture

/-! ## Operations -/

inductive DecodeOp
  | «begin» (b : Binding) (round : ℕ) (source : DecodeSource) (anchor : ℤ) (ids : Option (List ℤ)) (transported : ℕ)
  | captureHc (model layer rows source stream : ℕ)
  | forwardReturned
  | committed (k : ℕ) (position : ℤ)
  | outcome (b : Binding) (status current : ℤ) (transported : ℕ)
  | acquire
  | release (sequence : ℕ)
  | retire (g : ℕ)
  | sourceLoss
  | disableNew
  | storageReclaimable
  | lane (op : LaneOp)

namespace Capture

/-- An operation of the lane; an arming by the bridge notes the losses. -/
def laneStep (s : Capture) (op : LaneOp) : Capture :=
  { s with lane := s.lane.step op
           loss_at_arm := if op.armed s.lane = none then s.loss_at_arm else word (s.lane.step op).loss }

/-- One step. -/
def step (s : Capture) (i : DecodeOp × Env) : Capture :=
  match i.1 with
  | .begin b round source anchor ids transported => (s.begin i.2 b round source anchor ids transported).1
  | .captureHc model layer rows source stream => (s.captureHc i.2 model layer rows source stream).1
  | .forwardReturned => (s.forwardReturned i.2).1
  | .committed k position => (s.committed i.2 k position).1
  | .outcome b status current transported => (s.outcome i.2 b status current transported).1
  | .acquire => (s.acquire i.2).1
  | .release sequence => (s.release i.2 sequence).1
  | .retire g => s.retire i.2 g
  | .sourceLoss => s.sourceLoss
  | .disableNew => { s with enabled := false }
  | .storageReclaimable => (s.storageReclaimable i.2).1
  | .lane op => s.laneStep op

end Capture

end StrixAlloy.Dflash

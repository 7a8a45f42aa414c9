import StrixAlloy.Dflash.Bridge

/-!
# The owner of a prefill

`Owner` of the prefill capture, configured, with its lease on a lane. Every call is one step; what it finds is
given with it (`Env`): whether the owner is busy, the lock of the lane at each of its calls, and what the copies
and the fence answer. As no call is under way between two steps, no reader holds the identity then.

The last fields record what was copied, fenced, finished, transferred and lost; no decision depends on them.
-/

namespace StrixAlloy.Dflash

inductive OwnerState
  | idle | pending | materialized | request | retired
deriving DecidableEq

inductive Poll
  | pending | complete | failed

/-- `kNativeLayers`. -/
def kNativeLayers : List ℕ := [4, 16, 24, 36, 44]

structure Admission where
  holder : ℕ
  model : ℕ
  wire : ℕ
  cache_generation : ℕ
  slot : ℤ
  current_slot : ℤ
  generation_mode : ℕ
  slot_count : ℕ
  /-- The ids that are pointed to, `total` of them. -/
  ids : Option (List ℤ)
  actual_cache_null : Bool
  ordinary_text : Bool
  pins_verified : Bool

/-- A copy of the rows of a chunk at a tap. -/
structure Copy where
  generation : ℕ
  tap : ℕ
  start : ℕ
  rows : ℕ

structure FeatureView where
  binding : Binding
  ids : List ℤ
  rows : ℕ

/-- What a call finds, at the places where it looks. -/
structure Env where
  busy : Bool
  lane : ℕ → Bool
  copied : Bool
  recorded : ℕ → Bool
  poll : ℕ → Poll

structure Owner where
  session : List ℕ
  id_capacity : ℕ
  enabled : Bool := true
  state : OwnerState := .idle
  generation : ℕ := 0
  losses : ℕ := 0
  identity_writer : Bool := false
  holder_retirement : ℕ := 0
  pending_holder_retirement : ℕ := 0
  request_retirement : ℕ := 0
  materialized_retirement : ℕ := 0
  request_identity : ℕ := 0
  seen_loss : ℕ := 0
  next_ticket : ℕ := 0
  binding : Binding := {}
  immutable_identity : Binding := {}
  retirement_binding : Binding := {}
  ids : List ℤ := []
  captured : ℕ := 0
  chunk_start : ℕ := 0
  chunk_rows : ℕ := 0
  /-- The taps of `tap_mask_`. -/
  taps : List ℕ := []
  stream : ℕ := 0
  chunk_open : Bool := false
  feature_valid : Bool := false
  copy_queued : Bool := false
  fence_recorded : Bool := false
  fence_failed : Bool := false
  fence_complete : Bool := false
  borrowed : Bool := false
  holder_live : Bool := false
  retirement_waiting : Bool := false
  retirement_materialized : Bool := false
  lane : Lane
  loss_at_arm : ℕ := 0
  copies : List Copy := []
  chunks : List ℕ := []
  queued : ℕ := 0
  fenced : ℕ := 0
  finished : ℕ := 0
  transferred : List ℤ := []
  losses_at_publish : ℕ := 0
  lane_loss_at_publish : ℕ := 0

namespace Owner

variable (s : Owner) (e : Env)

def sourceLoss : Owner :=
  { s with losses := s.losses + 1, lane := if s.generation ≠ 0 then s.lane.lossOf s.generation else s.lane }

def invalidate : Owner := { s with feature_valid := false }.sourceLoss

/-- `record_fence`, and what it says of the copies so far. -/
def record (ok : Bool) : Owner :=
  { s with fence_recorded := ok, fenced := if ok then s.queued else s.fenced }

def retireLocal (materialized ok : Bool) : Owner :=
  if s.state = .retired then s
  else
    let t := if s.copy_queued && !s.fence_recorded then { s.record ok with fence_failed := !ok } else s
    { t with feature_valid := false, chunk_open := false, retirement_binding := t.binding,
             retirement_materialized := materialized, retirement_waiting := true, state := .retired }

/-- What the record of a holder's cancellation comes to. -/
def drainHolder (cancelled ok : Bool) : Owner :=
  if cancelled then
    let t := { s with holder_live := false }
    if t.state = .pending || t.state = .materialized || t.state = .request then
      t.retireLocal (t.state = .materialized) ok
    else t
  else s

/-- What the records of a request's death and of an abandonment come to. -/
def drainRequests (request materialized : Bool) (ok : ℕ → Bool) : Owner :=
  let t := if request && s.state = .request then s.retireLocal false (ok 1) else s
  if materialized && (t.state = .materialized || t.state = .request) then
    t.retireLocal (t.state = .materialized) (ok 2)
  else t

/-- A record of the owner's generation. -/
def marked (record : ℕ) : Bool := s.generation ≠ 0 && record = s.generation

/-- The records are taken out. -/
def unrecorded (live : Bool) : Owner :=
  { s with holder_retirement := 0, pending_holder_retirement := 0, request_retirement := 0,
           materialized_retirement := 0, holder_live := live }

/-- The part of `drainRetirements` that reads the records. -/
def drainRecords (ok : ℕ → Bool) : Owner :=
  ((s.unrecorded (s.holder_live && !s.marked s.holder_retirement)).drainHolder
    (s.marked s.pending_holder_retirement) (ok 0)).drainRequests (s.marked s.request_retirement)
    (s.marked s.materialized_retirement) ok

/-- The part of `drainRetirements` that disposes of the lease, at two looks at the lane. -/
def acknowledge (held again : Bool) : Owner :=
  if s.retirement_waiting then
    let done := if s.retirement_materialized then s.lane.abandon held s.retirement_binding again
      else s.lane.retire held s.retirement_binding again
    { s with lane := done.1, retirement_waiting := !done.2 }
  else s

/-- `drainRetirements`, with the place of its looks. -/
def drainRetirements (k : ℕ) : Owner :=
  (s.drainRecords fun i => e.recorded (k + i)).acknowledge (e.lane k) (e.lane (k + 1))

/-- The check of the losses in `enter`. -/
def checkLosses : Owner :=
  if word s.losses ≠ s.seen_loss then { s with feature_valid := false, seen_loss := word s.losses } else s

/-- `enter`, on an owner that is not busy. -/
def enter : Owner := s.checkLosses.drainRetirements e 0

def leave : Owner := s.drainRetirements e 3

def finishFence : Owner × Bool :=
  if !s.copy_queued || s.fence_complete then (s, true)
  else if !s.fence_recorded || s.fence_failed then (s, false)
  else
    match e.poll 0 with
    | .failed => ({ s with fence_failed := true }.invalidate, false)
    | .complete => ({ s with fence_complete := true, finished := s.fenced }, true)
    | .pending => (s, false)

/-- The lease's `valid`, at a look at the lane. -/
def leaseValid (held : Bool) : Owner × Bool :=
  let v := s.lane.valid held s.binding
  ({ s with lane := v.1 }, v.2)

def leaseHealthy (held : Bool) : Owner × Bool :=
  let v := s.lane.healthy held s.binding s.loss_at_arm
  ({ s with lane := v.1 }, v.2)

/-! ## Publication -/

/-- The state admits a publication. -/
def vacant : Bool := (s.state = .idle || s.state = .retired) && !s.retirement_waiting && !s.borrowed

def admits (a : Admission) (ids : List ℤ) : Bool :=
  a.holder ≠ 0 && a.model ≠ 0 && a.cache_generation ≠ 0 && a.slot = 0 && a.current_slot = a.slot &&
    a.generation_mode = 1 && a.slot_count = 1 && a.actual_cache_null && a.ordinary_text && a.pins_verified &&
    ids.length ≠ 0 && ids.length ≤ s.id_capacity && s.next_ticket ≠ maxWord && ids.all (0 ≤ ·)

/-- The fence of the last copies, before a publication. -/
def settle : Owner × Bool := if s.copy_queued then s.finishFence e else (s, true)

/-- The new owner of an admitted publication. -/
def published (ids : List ℤ) (b : Binding) : Owner :=
  { s with binding := { b with lease_generation := s.generation },
           immutable_identity := { b with lease_generation := s.generation }, ids := ids,
           request_identity := 0, captured := 0, chunk_start := 0, chunk_rows := 0, taps := [], stream := 0,
           chunk_open := false, feature_valid := true, copy_queued := false, fence_recorded := false,
           fence_failed := false, fence_complete := false, borrowed := false, holder_live := true,
           seen_loss := word s.losses, state := .pending, identity_writer := false, chunks := [],
           losses_at_publish := s.losses, lane_loss_at_publish := s.lane.loss }

def bindingOf (a : Admission) (total : ℕ) : Binding :=
  { session := s.session, ticket := s.next_ticket + 1, cache_generation := a.cache_generation, holder := a.holder,
    model := a.model, wire := a.wire, slot := a.slot, total := total }

def publishBody (a : Admission) : Owner × Bool :=
  let t := s.settle e
  match a.ids with
  | none => (if s.vacant then t.1 else s, false)
  | some ids =>
    if !s.vacant then (s, false)
    else if !t.2 || !t.1.admits a ids then (t.1, false)
    else
      let b := t.1.bindingOf a ids.length
      let armed := t.1.lane.armPending (e.lane 6) b.pending
      let u := { t.1 with next_ticket := t.1.next_ticket + 1, lane := armed.1 }
      if armed.2 = 0 then ({ u with identity_writer := false }, false)
      else ({ u with generation := armed.2, loss_at_arm := word armed.1.loss }.published ids b, true)

def publish (a : Admission) : Owner × Bool :=
  if !s.enabled then (s, false)
  else if e.busy then (s.sourceLoss, false)
  else
    let r := (s.enter e).publishBody e a
    (r.1.leave e, r.2)

/-! ## Chunks -/

/-- A call of an owner with a generation: its body between `enter` and `leave`. -/
def call (body : Owner → Owner × Bool) : Owner × Bool :=
  if s.generation = 0 then (s, false)
  else if e.busy then (s.sourceLoss, false)
  else
    let r := body (s.enter e)
    (r.1.leave e, r.2)

def beginChunk (holder model processed count : ℕ) (position : ℤ) (stream : ℕ) : Owner × Bool :=
  s.call e fun s =>
    if s.state ≠ .pending || !s.holder_live || s.binding.holder ≠ holder || s.binding.model ≠ model then (s, false)
    else
      let v := s.leaseValid (e.lane 6)
      if !v.2 then (v.1, false)
      else if s.chunk_open || stream ≠ 0 || count = 0 || processed ≠ s.captured || position < 0 ||
          position.toNat ≠ processed || s.binding.total < processed || s.binding.total - processed < count then
        (v.1.invalidate, false)
      else ({ v.1 with chunk_start := processed, chunk_rows := count, taps := [], stream := stream,
                       chunk_open := true }, true)

/-- `copy_2d` of the rows of the chunk at a tap. -/
def copy (tap : ℕ) (ok : Bool) : Owner :=
  { s with copy_queued := true, queued := s.queued + 1,
           copies := if ok then ⟨s.generation, tap, s.chunk_start, s.chunk_rows⟩ :: s.copies else s.copies }

def captureHc (model layer rows source stream : ℕ) : Owner × Bool :=
  s.call e fun s =>
    match kNativeLayers.idxOf? layer with
    | none => (s, true)
    | some tap =>
      if s.state ≠ .pending || s.binding.model ≠ model then (s, true)
      else if !s.chunk_open then (s.invalidate, false)
      else
        let v := s.leaseValid (e.lane 6)
        if !v.2 then (v.1.invalidate, false)
        else if source = 0 || rows ≠ s.chunk_rows || stream ≠ s.stream || tap ∈ s.taps then (v.1.invalidate, false)
        else
          let h := { v.1 with taps := tap :: s.taps }.leaseHealthy (e.lane 7)
          let t := if h.2 then h.1 else h.1.invalidate
          if !t.feature_valid then (t, false)
          else if e.copied then (t.copy tap true, true) else ((t.copy tap false).invalidate, false)

def endChunk (holder processed : ℕ) (position : ℤ) : Owner × Bool :=
  s.call e fun s =>
    if s.state ≠ .pending || s.binding.holder ≠ holder || !s.chunk_open then (s.invalidate, false)
    else
      let expected := s.chunk_start + s.chunk_rows
      let t := { s with chunk_open := false, captured := processed, chunks := s.chunks ++ [s.chunk_rows] }
      if expected = processed && 0 ≤ position && position.toNat = expected &&
          (List.range 5).all (· ∈ s.taps) then (t, true)
      else (t.invalidate, false)

/-! ## The record and the request -/

/-- The fence of the copies in `materialize`. -/
def materializeFence : Owner :=
  if s.copy_queued then
    let t := s.record (e.recorded 6)
    if e.recorded 6 then t else { t with fence_failed := true }.invalidate
  else { s with fence_complete := true }

def materialize (holder wire : ℕ) (slot : ℤ) (processed : ℕ) : Owner × Bool :=
  s.call e fun s =>
    if s.state ≠ .pending || s.binding.holder ≠ holder || s.binding.wire ≠ wire || s.binding.slot ≠ slot ||
        processed ≠ s.binding.total then (s, false)
    else
      let v := s.leaseValid (e.lane 6)
      if !v.2 then (v.1, false)
      else
        let t := if s.chunk_open || s.captured ≠ s.binding.total then v.1.invalidate else v.1
        let t := { t with chunk_open := false }.materializeFence e
        let m := t.lane.materializePending (e.lane 7) t.binding.lease_generation t.binding.holder
        let t := { t with lane := m.1 }
        if !m.2 then (t.invalidate, false) else ({ t with state := .materialized }, true)

/-- The ids that are pointed to are the ids of the owner. -/
def proves (b : Binding) (wire : ℕ) (slot : ℤ) (mode : ℕ) (ids : Option (List ℤ)) : Bool :=
  b.wire = wire && b.slot = slot && mode = 1 && ids = some s.ids && s.ids.length = b.total

def transfer (request birth model wire : ℕ) (slot : ℤ) (mode : ℕ) (ids : Option (List ℤ)) : Owner × Bool :=
  s.call e fun s =>
    if s.state ≠ .materialized || request = 0 || birth = 0 || model ≠ s.binding.model ||
        !s.proves s.binding wire slot mode ids then (s.invalidate, false)
    else
      let m := s.lane.transferPending (e.lane 6) s.binding.lease_generation s.binding.pending request birth
      let t := { s with lane := m.1 }
      if !m.2 then (t.invalidate, false)
      else ({ t with binding := { t.binding with request := request, birth := birth }, request_identity := request,
                     state := .request, transferred := ids.getD [] }, true)

/-! ## Ends -/

def holderDestructor (holder : ℕ) : Owner :=
  if s.generation = 0 then s
  else if e.busy then
    if s.identity_writer then s
    else if s.immutable_identity.holder = holder && s.state = .pending then
      { s with pending_holder_retirement := s.immutable_identity.lease_generation }
    else if s.immutable_identity.holder = holder && s.state = .materialized then
      { s with holder_retirement := s.immutable_identity.lease_generation }
    else s
  else
    let t := s.enter e
    let t := if t.binding.holder = holder && t.holder_live then
        let t := { t with holder_live := false }
        if t.state = .pending then t.retireLocal false (e.recorded 6) else t
      else t
    t.leave e

def abandonMaterialized (wire : ℕ) (slot : ℤ) (mode : ℕ) (ids : Option (List ℤ)) : Owner × Bool :=
  if s.generation = 0 then (s, false)
  else if e.busy then
    if s.identity_writer then (s, false)
    else if s.state = .materialized && s.proves s.immutable_identity wire slot mode ids then
      ({ s with materialized_retirement := s.immutable_identity.lease_generation }, true)
    else (s, false)
  else
    let t := s.enter e
    if t.state = .materialized && t.proves t.binding wire slot mode ids then
      ((t.retireLocal true (e.recorded 6)).leave e, true)
    else (t.leave e, false)

def requestDestructor (request : ℕ) : Owner :=
  if s.generation = 0 then s
  else if e.busy then
    if s.identity_writer then s
    else if s.state = .request && s.request_identity = request then
      { s with request_retirement := s.immutable_identity.lease_generation }
    else s
  else
    let t := s.enter e
    let t := if t.state = .request && t.binding.request = request then t.retireLocal false (e.recorded 6) else t
    t.leave e

/-! ## Features -/

def forceSerial (holder model : ℕ) (slot : ℤ) : Owner × Bool :=
  s.call e fun s =>
    if s.state = .pending && s.binding.holder = holder && s.binding.model = model && s.binding.slot = slot then
      s.leaseValid (e.lane 6) else (s, false)

/-- The first checks of `acquireFeatures`. -/
def ready : Owner × Bool :=
  if s.state ≠ .request || s.borrowed || !s.feature_valid then (s, false)
  else
    let v := s.leaseValid (e.lane 6)
    if !v.2 then v
    else
      let h := v.1.leaseHealthy (e.lane 7)
      if !h.2 then h else h.1.finishFence e

/-- `acquireFeatures`; the view where it succeeds. -/
def acquireFeatures : Owner × Option FeatureView :=
  if s.generation = 0 then (s, none)
  else if e.busy then (s.sourceLoss, none)
  else
    let r := (s.enter e).ready e
    let t := r.1.drainRetirements e 8
    if r.2 && t.state = .request && t.feature_valid && t.seen_loss = word t.losses then
      ({ t with borrowed := true }.leave e, some ⟨t.binding, t.ids, t.binding.total⟩)
    else (t.leave e, none)

def releaseFeatures (ticket : ℕ) : Owner × Bool :=
  s.call e fun s =>
    if s.borrowed && s.binding.ticket = ticket then ({ s with borrowed := false }, true) else (s, false)

def storageReclaimable : Owner × Bool :=
  if e.busy then (s.sourceLoss, false)
  else
    let t := s.enter e
    if t.vacant then
      let f := t.finishFence e
      (({ f.1 with identity_writer := f.1.identity_writer || f.2 }).leave e, f.2)
    else (t.leave e, false)

/-- `binding()`. -/
def pollBinding : Owner × Option Binding :=
  if e.busy then (s.sourceLoss, none)
  else
    let t := s.enter e
    (t.leave e, some t.binding)

end Owner

/-! ## Operations -/

/-- An operation of the lane that no owner makes. -/
def LaneOp.native : LaneOp → Bool
  | .pinLane .. => true
  | .enableReady .. => true
  | .fullResetComplete .. => true
  | .beginTransaction .. => true
  | .markLoss => true
  | .mandatoryDispatch .. => true
  | _ => false

inductive OwnerOp
  | publish (a : Admission)
  | beginChunk (holder model processed count : ℕ) (position : ℤ) (stream : ℕ)
  | captureHc (model layer rows source stream : ℕ)
  | endChunk (holder processed : ℕ) (position : ℤ)
  | materialize (holder wire : ℕ) (slot : ℤ) (processed : ℕ)
  | transfer (request birth model wire : ℕ) (slot : ℤ) (mode : ℕ) (ids : Option (List ℤ))
  | holderDestructor (holder : ℕ)
  | abandonMaterialized (wire : ℕ) (slot : ℤ) (mode : ℕ) (ids : Option (List ℤ))
  | requestDestructor (request : ℕ)
  | forceSerial (holder model : ℕ) (slot : ℤ)
  | acquireFeatures
  | releaseFeatures (ticket : ℕ)
  | sourceLoss
  | disableNew
  | storageReclaimable
  | binding
  | lane (op : LaneOp)

namespace Owner

/-- One step. -/
def step (s : Owner) (i : OwnerOp × Env) : Owner :=
  match i.1 with
  | .publish a => (s.publish i.2 a).1
  | .beginChunk holder model processed count position stream =>
    (s.beginChunk i.2 holder model processed count position stream).1
  | .captureHc model layer rows source stream => (s.captureHc i.2 model layer rows source stream).1
  | .endChunk holder processed position => (s.endChunk i.2 holder processed position).1
  | .materialize holder wire slot processed => (s.materialize i.2 holder wire slot processed).1
  | .transfer request birth model wire slot mode ids => (s.transfer i.2 request birth model wire slot mode ids).1
  | .holderDestructor holder => s.holderDestructor i.2 holder
  | .abandonMaterialized wire slot mode ids => (s.abandonMaterialized i.2 wire slot mode ids).1
  | .requestDestructor request => s.requestDestructor i.2 request
  | .forceSerial holder model slot => (s.forceSerial i.2 holder model slot).1
  | .acquireFeatures => (s.acquireFeatures i.2).1
  | .releaseFeatures ticket => (s.releaseFeatures i.2 ticket).1
  | .sourceLoss => s.sourceLoss
  | .disableNew => { s with enabled := false }
  | .storageReclaimable => (s.storageReclaimable i.2).1
  | .binding => (s.pollBinding i.2).1
  | .lane op => if op.native then { s with lane := s.lane.step op } else s

end Owner

end StrixAlloy.Dflash

import Mathlib.Algebra.Group.Int.Defs
import Mathlib.Algebra.GroupWithZero.Nat
import Mathlib.Data.List.Basic
import StrixAlloy.Lib.Words

/-!
# The hybrid host-registration shim

`hip-register-hybrid.c` as it is built for a release, with `HALOGEN_RESEARCH_VGM64` and
`HALOGEN_PREFLIGHT_V1`, and with or without `HALOGEN_CHECKPOINT_V2` (`v2`). Every operation on an address
or a size is one on words (`Words.Calc`). What a call gets from outside, the driver's answers and what
it reads of the system, is an argument of the call. The mutex is held over each entry point, so that calls
follow one another. A device pointer is never dereferenced, and the driver's allocations are not
modelled: its arithmetic is that of a pointer inside an allocation.
-/

namespace StrixAlloy.HostRegister

open Words

/-! ## State -/

/-- `entry`. -/
structure Entry where
  host : ℕ
  device : ℕ
  bytes : ℕ

/-- `planned_range`. -/
structure Planned where
  pointer : ℕ
  bytes : ℕ
  copy : Bool
deriving DecidableEq

/-- What `configure` sets. -/
structure Config where
  cap : ℕ
  config_valid : Bool
  reclaim_copy : Bool
  vision_phase_enabled : Bool

/-- The static variables. `configured` is the state of `once`; `copies` and `planned` are the arrays up to
their counts; `cleanup_pending` is `none` while its device is null. -/
structure Shim extends Config where
  configured : Bool
  copies : List Entry
  total : ℕ
  planned : List Planned
  planned_next : ℕ
  host_total : ℕ
  expected_copy : ℕ
  expected_host : ℕ
  executed_copy : ℕ
  executed_host : ℕ
  preflight_phase : ℕ
  preflight_poisoned : Bool
  cleanup_pending : Option Entry

def Shim.init : Shim where
  cap := 0
  config_valid := false
  reclaim_copy := false
  vision_phase_enabled := false
  configured := false
  copies := []
  total := 0
  planned := []
  planned_next := 0
  host_total := 0
  expected_copy := 0
  expected_host := 0
  executed_copy := 0
  executed_host := 0
  preflight_phase := 0
  preflight_poisoned := false
  cleanup_pending := none

/-- The state that `preflight_reject` leaves; the code of a rejection is 1. -/
def Shim.reject (s : Shim) : Shim := { s with preflight_poisoned := true }

/-- 24 GiB, the ceiling of real registrations. -/
def hostCeiling : ℕ := 25769803776

/-- 12 GiB, which stay free of copies. -/
def reserve : ℕ := 12 * 2 ^ 30

/-- `HALOGEN_TRANSFER_CHUNK`. -/
def transferChunk : ℕ := 64 * 2 ^ 20

/-- `HALOGEN_COPY_CAP`. -/
def copyCap (v2 : Bool) : ℕ := if v2 then 68719476736 else 51539607552

/-- `HALOGEN_COPY_CAP_TEXT`. -/
def copyCapText (v2 : Bool) : String := if v2 then "68719476736" else "51539607552"

/-- `HALOGEN_PROFILE`. -/
def profile (v2 : Bool) : String :=
  if v2 then "flash0191-v2-device64-chunk64-v1" else "flash0191-copy48-v1"

/-- `HALOGEN_ALLOCATION_PROFILE`. -/
def allocationProfile (v2 : Bool) : String :=
  if v2 then "vgm64-0191-v2-device64-v1" else "vgm64-0191-copy48-v1"

/-- `HALOGEN_VISION_TOWER_PATH`. -/
def visionTowerPath : String := "/models/qwen38-flash-next-vision.hgn"

/-- `configure`, in an environment. The copy cap is its exact text, so that `strtoull` reads the cap. -/
def configure (v2 : Bool) (getenv : String → Option String) : Config :=
  let tower := getenv "HALOGEN_VISION_TOWER"
  let off : Config := ⟨0, false, false, false⟩
  if v2 ∧ tower.any (· ≠ visionTowerPath) then off
  else
    let off := { off with vision_phase_enabled := v2 && tower.isSome }
    if getenv "HALOGEN_PREFLIGHT_PROFILE" ≠ some (profile v2) ∨
        getenv "HALOGEN_HYBRID_COPY_BYTES" ≠ some (copyCapText v2) ∨
        getenv "HALOGEN_HYBRID_RECLAIM_COPY" ≠ some "1" then off
    else if getenv "HALOGEN_HYBRID_PROFILE" ≠ some (allocationProfile v2) then off
    else { off with cap := copyCap v2, config_valid := true, reclaim_copy := true }

/-- `pthread_once(&once, configure)`. -/
def Shim.once (v2 : Bool) (getenv : String → Option String) (s : Shim) : Shim :=
  if s.configured then s else { s with toConfig := configure v2 getenv, configured := true }

/-! ## What the shim reads of the system -/

/-- A line of `/proc/self/maps`. -/
structure MapLine where
  low : UInt64
  high : UInt64
  perms : String
  offset : UInt64
  device : ℕ × ℕ
  inode : ℕ
  path : String

/-- What follows the first `.hgn` of a text. -/
def afterHgn : List Char → Option (List Char)
  | '.' :: 'h' :: 'g' :: 'n' :: rest => some rest
  | _ :: rest => afterHgn rest
  | [] => none

/-- The first `.hgn` of the line ends it. -/
def MapLine.hgn (line : MapLine) : Bool := afterHgn line.path.toList = some []

/-- What `stat` says of a file. -/
structure FileStat where
  regular : Bool
  bytes : UInt64
  device : ℕ × ℕ
  inode : ℕ

/-- `MemAvailable` of `/proc/meminfo` in kB, which a 64-bit machine can have in bytes; 0 where the file
cannot be read. -/
structure Meminfo where
  kb : ℕ
  small : kb < 2 ^ 54

/-- `available`. -/
def available (m : Meminfo) : Calc ℕ := mul m.kb 1024

/-- `immutable_model`, of the lines of `/proc/self/maps`. -/
def immutableModel (pointer bytes : ℕ) : List MapLine → Calc Bool
  | [] => pure false
  | line :: rest =>
    if line.low.toNat ≤ pointer then do
      let last ← add pointer bytes
      if last ≤ line.high.toNat then pure (line.perms = "r--p" && line.hgn)
      else immutableModel pointer bytes rest
    else immutableModel pointer bytes rest

/-- The loop of `immutable_vision_mapping`, for the identity of the tower. -/
def visionLines (identity : FileStat) (base bytes : ℕ) : List MapLine → Calc Bool
  | [] => pure false
  | line :: rest =>
    if line.low.toNat ≠ base ∨ line.high < line.low then visionLines identity base bytes rest
    else do
      let room ← sub line.high.toNat line.low.toNat
      if bytes > room then visionLines identity base bytes rest
      else
        pure (line.perms = "r--p" && line.offset = 0 && line.path = visionTowerPath &&
          line.device = identity.device && line.inode = identity.inode)

/-- What `immutable_vision_mapping` reads. -/
structure Vision where
  stat : Option FileStat
  maps : List MapLine

/-- `immutable_vision_mapping`. -/
def immutableVisionMapping (v : Vision) (base bytes : ℕ) : Calc Bool :=
  match v.stat with
  | some identity =>
    if bytes ≠ 897916416 ∨ ¬ identity.regular ∨ identity.bytes.toNat ≠ bytes then pure false
    else visionLines identity base bytes v.maps
  | none => pure false

/-! ## The plan -/

/-- `halogen_preflight_range_v1`. -/
structure Range where
  begin : UInt64
  end_ : UInt64

/-- The arguments of `halogen_hybrid_preflight_v1`, with the ranges that `ranges` points to and what is
read on the way: the maps, once for each range, and the identity of the tower. -/
structure PreflightCall where
  mapping_base : UInt64
  mapping_bytes : UInt64
  ranges : UInt64
  range_count : UInt64
  aggregate_bytes : UInt64
  host_required_bytes : UInt64
  range : ℕ → Range
  maps : ℕ → List MapLine
  vision : Vision

/-- `preflight_copy_fits`. -/
def preflightCopyFits (cap bytes used entries : ℕ) : Calc Bool :=
  if cap ≠ 0 ∧ entries < 4096 ∧ used ≤ cap then do
    let room ← sub cap used
    pure (bytes ≤ room)
  else pure false

/-- The variables of the loop over the ranges. -/
structure Tally where
  sum : ℕ
  copied : ℕ
  host : ℕ
  entries : ℕ
  phase_copy : ℕ
  phase_host : ℕ
  candidate : List Planned

/-- What the loop does with a range that is eligible: it is copied, or counted to the host. -/
def Tally.place (t : Tally) (pointer bytes : ℕ) (copy : Bool) : Calc (Except String Tally) := do
  let sum ← add t.sum bytes
  let t : Tally := { t with sum := sum, candidate := t.candidate ++ [⟨pointer, bytes, copy⟩] }
  if copy then
    let copied ← add t.copied bytes
    let phase_copy ← add t.phase_copy bytes
    let entries ← add t.entries 1
    pure (.ok { t with copied := copied, phase_copy := phase_copy, entries := entries })
  else if t.host > hostCeiling then pure (.error "host-ceiling")
  else
    let room ← sub hostCeiling t.host
    if bytes > room then pure (.error "host-ceiling")
    else
      let host ← add t.host bytes
      let phase_host ← add t.phase_host bytes
      pure (.ok { t with host := host, phase_host := phase_host })

/-- The loop over the ranges from number `i` on, of which `n` are left. -/
def planLoop (cap : ℕ) (c : PreflightCall) (i : ℕ) : ℕ → Tally → Calc (Except String Tally)
  | 0, t => pure (.ok t)
  | n + 1, t =>
    let begin := (c.range i).begin
    let end_ := (c.range i).end_
    if begin ≥ end_ ∨ end_ > c.mapping_bytes ∨ (i ≠ 0 ∧ begin < (c.range (i - 1)).end_) then
      pure (.error "range-order-or-bounds")
    else do
      let bytes ← sub end_.toNat begin.toNat
      let left ← sub (2 ^ 64 - 1) t.sum
      if bytes > left then pure (.error "range-sum-overflow")
      else
        let pointer ← add c.mapping_base.toNat begin.toNat
        let eligible ← immutableModel pointer bytes (c.maps i)
        if ¬ eligible then pure (.error "immutable-hgn-eligibility")
        else
          let copy ← preflightCopyFits cap bytes t.copied t.entries
          let placed ← t.place pointer bytes copy
          match placed with
          | .error e => pure (.error e)
          | .ok t => planLoop cap c (i + 1) n t

/-- The state in which a phase may be planned: the one before is complete, and its totals are its plan's. -/
def Shim.phaseReady (v2 : Bool) (s : Shim) : Prop :=
  s.preflight_phase ≤ (if v2 ∧ ¬ s.vision_phase_enabled then 0 else 1) ∧
  s.planned_next = s.planned.length ∧ s.total = s.executed_copy ∧ s.host_total = s.executed_host ∧
  (s.preflight_phase ≠ 0 → s.total = s.expected_copy ∧ s.host_total = s.expected_host) ∧
  (s.preflight_phase = 0 → s.copies = [] ∧ s.total = 0 ∧ s.host_total = 0)

instance (v2 : Bool) (s : Shim) : Decidable (s.phaseReady v2) := by
  unfold Shim.phaseReady
  infer_instance

/-- The sizes that a phase must have: of its mapping, its ranges and their sum. -/
def phaseShape (v2 : Bool) (phase : ℕ) : ℕ × ℕ × ℕ :=
  match v2, decide (phase ≠ 0) with
  | true, true => (897916416, 1, 897863168)
  | true, false => (66687678432, 1, 66687358944)
  | false, true => (2572466560, 1, 2572351872)
  | false, false => (124068083904, 252, 70434994368)

/-- The mapping of a second plan is that of the tower. -/
def towerMapped (v2 : Bool) (s : Shim) (c : PreflightCall) : Calc Bool :=
  if v2 ∧ s.preflight_phase ≠ 0 then
    immutableVisionMapping c.vision c.mapping_base.toNat c.mapping_bytes.toNat
  else pure true

/-- The checks of `halogen_hybrid_preflight_v1` before its loop: what fails. -/
def preflightFailure (v2 : Bool) (s : Shim) (c : PreflightCall) : Calc (Option String) := do
  if s.preflight_poisoned ∨ ¬ s.config_valid then pure (some "state-or-config")
  else if ¬ s.phaseReady v2 then pure (some "phase-state")
  else
    let room ← sub (2 ^ 64 - 1) c.mapping_base.toNat
    if c.ranges = 0 ∨ c.host_required_bytes = 0 ∨ c.mapping_base = 0 ∨ c.mapping_bytes.toNat > room then
      pure (some "mapping-or-pointer")
    else if (c.mapping_bytes.toNat, c.range_count.toNat, c.aggregate_bytes.toNat) ≠
        phaseShape v2 s.preflight_phase then pure (some "phase-shape")
    else
      let tower ← towerMapped v2 s c
      if v2 ∧ s.preflight_phase ≠ 0 ∧
          (¬ tower ∨ s.copies.length ≠ 1 ∨ s.total ≠ 66687358944 ∨ s.host_total ≠ 0) then
        pure (some "v2-vision-file-or-state")
      else
        let table ← mul c.range_count.toNat 16
        let rangesRoom ← sub (2 ^ 64 - 1) table
        let outputRoom ← sub (2 ^ 64 - 1) 8
        if c.ranges.toNat > rangesRoom ∨ c.host_required_bytes.toNat > outputRoom then
          pure (some "metadata-pointer-overflow")
        else pure none

/-- The checks of `halogen_hybrid_preflight_v1` after its loop. -/
def planFailure (v2 : Bool) (s : Shim) (c : PreflightCall) (t : Tally) : Option String :=
  if t.sum ≠ c.aggregate_bytes.toNat then some "range-sum"
  else if v2 then
    if (c.range 0).begin.toNat ≠ (if s.preflight_phase ≠ 0 then 53248 else 319488) ∨
        (c.range 0).end_.toNat ≠ (if s.preflight_phase ≠ 0 then 897916416 else 66687678432) ∨
        t.phase_host ≠ 0 ∨ t.phase_copy ≠ c.aggregate_bytes.toNat then some "v2-contiguous-layout"
    else none
  else if t.phase_copy ≠ (if s.preflight_phase ≠ 0 then 0 else 50433337536) ∨
      t.phase_host ≠ (if s.preflight_phase ≠ 0 then 2572351872 else 20001656832) then
    some "sum-or-placement"
  else none

/-- The state that an accepted plan leaves. -/
def Shim.accept (s : Shim) (t : Tally) : Shim :=
  { s with
    planned := t.candidate
    planned_next := 0
    expected_copy := t.copied
    expected_host := t.host
    preflight_phase := s.preflight_phase + 1 }

/-- `halogen_hybrid_preflight_v1`, with its code. -/
def halogenHybridPreflightV1 (v2 : Bool) (s : Shim) (c : PreflightCall) : Calc (Shim × ℤ) := do
  let failure ← preflightFailure v2 s c
  match failure with
  | some _ => pure (s.reject, 1)
  | none =>
    let planned ← planLoop s.cap c 0 c.range_count.toNat
      ⟨0, s.total, s.host_total, s.copies.length, 0, 0, []⟩
    match planned with
    | .error _ => pure (s.reject, 1)
    | .ok t =>
      if (planFailure v2 s c t).isSome then pure (s.reject, 1) else pure (s.accept t, 0)

/-- The end of `preflight_advance`. -/
def Shim.complete (s : Shim) : Shim × ℤ :=
  if s.planned_next = s.planned.length ∧ (s.total ≠ s.expected_copy ∨ s.host_total ≠ s.expected_host) then
    (s.reject, 1)
  else (s, 0)

/-- `preflight_advance`. -/
def preflightAdvance (s : Shim) (copied : Bool) (bytes : ℕ) : Calc (Shim × ℤ) := do
  if copied then
    let executed_copy ← add s.executed_copy bytes
    let planned_next ← add s.planned_next 1
    pure { s with executed_copy := executed_copy, planned_next := planned_next }.complete
  else
    let host_total ← add s.host_total bytes
    let executed_host ← add s.executed_host bytes
    let planned_next ← add s.planned_next 1
    pure { s with
      host_total := host_total, executed_host := executed_host, planned_next := planned_next }.complete

/-! ## Registration -/

/-- The range meets one of the recorded ones. -/
def overlaps (pointer bytes : ℕ) : List Entry → Calc Bool
  | [] => pure false
  | c :: cs => do
    let last ← add c.host c.bytes
    if pointer < last then
      let top ← add pointer bytes
      if c.host < top then pure true else overlaps pointer bytes cs
    else overlaps pointer bytes cs

/-- What `reclaim_completed_copy` gets of the system: the size of a page, the maps, the opened file, and the
results of `pread`, each one interrupted, or with a number of bytes that do or do not match. -/
structure Reclaim where
  page : ℤ
  maps : List MapLine
  opened : Option FileStat
  reads : List (Option (ℕ × Bool))

/-- The loop of `reclaim_completed_copy` over the bytes of the file, from `at` on. -/
def compareFile (first span position : ℕ) : List (Option (ℕ × Bool)) → ℕ → Calc Unit
  | [], _ => pure ()
  | read :: reads, at_ =>
    if at_ < span then do
      let left ← sub span at_
      let wanted := min left (2 ^ 20)
      let _ ← add position at_
      match read with
      | none => compareFile first span position reads at_
      | some (got, same) =>
        let got := min got wanted
        if got = 0 then pure ()
        else
          let _ ← add first at_
          if ¬ same then pure ()
          else
            let at_ ← add at_ got
            compareFile first span position reads at_
    else pure ()

/-- The loop of `reclaim_completed_copy` over the maps: the line of the range, and its file from the
position of `first` on. -/
def reclaimLines (r : Reclaim) (pointer bytes first span : ℕ) : List MapLine → Calc Unit
  | [] => pure ()
  | line :: rest =>
    if pointer < line.low.toNat then reclaimLines r pointer bytes first span rest
    else do
      let last ← add pointer bytes
      if last > line.high.toNat then reclaimLines r pointer bytes first span rest
      else if line.perms ≠ "r--p" ∨ ¬ line.path.toList.head? = some '/' ∨ ¬ line.path.endsWith ".hgn" ∨
          line.offset.toNat > 2 ^ 63 - 1 then pure ()
      else
        let skip ← sub first line.low.toNat
        let room ← sub (2 ^ 63 - 1) line.offset.toNat
        if skip > room then pure ()
        else
          let position ← add line.offset.toNat skip
          let left ← sub (2 ^ 63 - 1) position
          if span > left then pure ()
          else
            match r.opened with
            | none => pure ()
            | some file =>
              let stop ← add position span
              if ¬ file.regular ∨ file.inode ≠ line.inode ∨ file.device ≠ line.device ∨
                  stop > file.bytes.toNat then pure ()
              else compareFile first span position r.reads 0

/-- `reclaim_completed_copy`. It changes no variable of the shim. -/
def reclaimCompletedCopy (s : Shim) (r : Reclaim) (pointer bytes : ℕ) : Calc Unit :=
  if ¬ s.reclaim_copy ∨ bytes < 2 ^ 20 then pure ()
  else if r.page ≤ 0 ∨ r.page ≥ 2 ^ 63 then pure ()
  else do
    let page := r.page.toNat
    let head ← sub page (pointer % page)
    let head := head % page
    if head ≥ bytes then pure ()
    else
      let first ← add pointer head
      let rest ← sub bytes head
      let span ← mul (rest / page) page
      if span = 0 then pure () else reclaimLines r pointer bytes first span r.maps

/-- What a registration gets from outside. A symbol that `dlsym` does not find is `none`. -/
structure RegisterEnv where
  /-- The result of the driver's `hipHostRegister`. -/
  next : Option ℤ
  maps : List MapLine
  vision : Vision
  /-- The readings of `available`, in order. -/
  meminfo : ℕ → Meminfo
  /-- `hipMalloc`, `hipFree` and `hipMemcpy` are found. -/
  symbols : Bool
  /-- The result of `hipMalloc`, and the device pointer. -/
  allocate : ℤ × ℕ
  /-- The result of `hipMemcpy` for the part at an offset. -/
  copy : ℕ → ℤ
  /-- The result of `hipFree` after a copy that failed. -/
  release : ℤ
  reclaim : ℕ → Reclaim

/-- The loop that uploads a range in parts, from `at` on; `k` parts are done. A part has a byte at
least, so that as many parts as there are bytes left are enough. -/
def uploadChunks (s : Shim) (e : RegisterEnv) (pointer bytes : ℕ) : ℕ → ℕ → ℕ → Calc ℤ
  | 0, _, _ => pure 0
  | fuel + 1, k, at_ =>
    if at_ < bytes then do
      let left ← sub bytes at_
      let part := min left transferChunk
      let free ← available (e.meminfo (k + 1))
      if free < reserve then pure 2
      else
        let room ← sub free reserve
        if part > room then pure 2
        else if e.copy at_ ≠ 0 then pure (e.copy at_)
        else
          let here ← add pointer at_
          let _ ← reclaimCompletedCopy s (e.reclaim k) here part
          let at_ ← add at_ part
          uploadChunks s e pointer bytes fuel (k + 1) at_
    else pure 0

/-- The upload of an allocated range. -/
def upload (v2 : Bool) (s : Shim) (e : RegisterEnv) (pointer bytes : ℕ) : Calc ℤ :=
  if e.allocate.1 ≠ 0 then pure e.allocate.1
  else if v2 then uploadChunks s e pointer bytes bytes 0 0
  else pure (e.copy 0)

/-- What is left of a range whose upload failed with the code `result`. -/
def Shim.failCopy (s : Shim) (e : RegisterEnv) (pointer bytes : ℕ) : Shim :=
  if e.allocate.2 ≠ 0 ∧ e.release ≠ 0 then
    { s.reject with cleanup_pending := some ⟨pointer, e.allocate.2, bytes⟩ }
  else s.reject

/-- The cache relief of a whole range; with `v2` each part was relieved by itself. -/
def reclaimRange (v2 : Bool) (s : Shim) (e : RegisterEnv) (pointer bytes : ℕ) : Calc Unit :=
  if v2 then pure () else reclaimCompletedCopy s (e.reclaim 0) pointer bytes

/-- The copy of a range that a registration replaces. -/
def copyRange (v2 : Bool) (s : Shim) (e : RegisterEnv) (pointer bytes : ℕ) : Calc (Shim × ℤ) := do
  let free ← available (e.meminfo 0)
  let demand := if v2 then min bytes transferChunk else bytes
  if free < reserve then pure (s.reject, 2)
  else
    let room ← sub free reserve
    if demand > room then pure (s.reject, 2)
    else if ¬ e.symbols then pure (s.reject, 999)
    else
      let result ← upload v2 s e pointer bytes
      if result = 0 then
        let total ← add s.total bytes
        let s := { s with copies := s.copies ++ [⟨pointer, e.allocate.2, bytes⟩], total := total }
        let _ ← reclaimRange v2 s e pointer bytes
        preflightAdvance s true bytes
      else pure (s.failCopy e pointer bytes, result)

/-- Whether a range is eligible for its copy, in the phase of the shim. -/
def registerImmutable (v2 : Bool) (s : Shim) (e : RegisterEnv) (pointer bytes : ℕ) : Calc Bool := do
  let immutable ← immutableModel pointer bytes e.maps
  if v2 ∧ s.preflight_phase = 2 then
    if immutable ∧ bytes = 897863168 ∧ pointer ≥ 53248 then
      let base ← sub pointer 53248
      immutableVisionMapping e.vision base 897916416
    else pure false
  else pure immutable

/-- The state and the range that a registration may have: the next entry of a plan. -/
def Shim.mayRegister (s : Shim) (e : RegisterEnv) (pointer bytes flags limit : ℕ) : Option Planned :=
  if s.preflight_poisoned ∨ ¬ s.config_valid ∨ e.next.isNone ∨ s.preflight_phase = 0 ∨ bytes = 0 ∨
      pointer = 0 ∨ pointer > limit ∨ flags ≠ 10 ∨ s.total ≠ s.executed_copy ∨
      s.host_total ≠ s.executed_host then none
  else s.planned[s.planned_next]?.filter fun p => p.pointer = pointer ∧ p.bytes = bytes

/-- `hipHostRegister`, with its code. -/
def hipHostRegister (v2 : Bool) (s : Shim) (e : RegisterEnv) (host bytes : UInt64) (flags : ℕ) :
    Calc (Shim × ℤ) := do
  let pointer := host.toNat
  let bytes := bytes.toNat
  let limit ← sub (2 ^ 64 - 1) bytes
  match s.mayRegister e pointer bytes flags limit with
  | none => pure (s.reject, 1)
  | some p =>
    let overlap ← overlaps pointer bytes s.copies
    if overlap then pure (s.reject, 1)
    else
      let immutable ← registerImmutable v2 s e pointer bytes
      let fits ← preflightCopyFits s.cap bytes s.total s.copies.length
      if ¬ immutable ∨ (fits && immutable) ≠ p.copy then pure (s.reject, 1)
      else if p.copy then copyRange v2 s e pointer bytes
      else if e.next = some 0 then preflightAdvance s false bytes
      else pure (s.reject, e.next.getD 999)

/-! ## Device pointers and unregistration -/

/-- The answer to a request for a device pointer: a code, a translated pointer, or the driver's. -/
inductive DeviceAnswer where
  | code (result : ℤ)
  | translated (device : ℕ)
  | forwarded

/-- The loop of `hipHostGetDevicePointer`. -/
def translate (pointer flags : ℕ) : List Entry → Calc DeviceAnswer
  | [] => pure .forwarded
  | c :: cs =>
    if pointer ≥ c.host then do
      let offset ← sub pointer c.host
      if offset < c.bytes then
        if flags ≠ 0 then pure (.code 1) else pure (.translated (c.device + offset))
      else translate pointer flags cs
    else translate pointer flags cs

/-- The pointer lies in the range whose cleanup is pending. -/
def cleaning (pointer : ℕ) : Option Entry → Calc Bool
  | some c =>
    if pointer ≥ c.host then do
      let offset ← sub pointer c.host
      pure (offset < c.bytes)
    else pure false
  | none => pure false

/-- `hipHostGetDevicePointer`; `output` says whether there is a place for the device pointer. -/
def hipHostGetDevicePointer (s : Shim) (output : Bool) (host : UInt64) (flags : ℕ) : Calc DeviceAnswer :=
  if ¬ output then pure (.code 1)
  else do
    let pending ← cleaning host.toNat s.cleanup_pending
    if pending then pure (.code 1) else translate host.toNat flags s.copies

/-- `copies[i] = copies[--count]`. -/
def swapRemove (copies : List Entry) (i : ℕ) : List Entry :=
  match copies.getLast? with
  | some last => (copies.set i last).dropLast
  | none => []

/-- `hipHostUnregister` after its rejection, without a cleanup that is pending: the state, and the code
unless the driver answers. -/
def unregisterCopy (s : Shim) (host : ℕ) (release : Option ℤ) : Calc (Shim × Option ℤ) :=
  match s.copies.findIdx? fun c => c.host = host with
  | none => pure (s, none)
  | some i =>
    if release = some 0 then do
      let total ← sub s.total ((s.copies[i]?.map Entry.bytes).getD 0)
      pure ({ s with copies := swapRemove s.copies i, total := total }, some 0)
    else pure (s, some (release.getD 999))

/-- `hipHostUnregister`, where `release` is the result of `hipFree`. -/
def hipHostUnregister (s : Shim) (host : UInt64) (release : Option ℤ) : Calc (Shim × Option ℤ) :=
  let s := s.reject
  if s.cleanup_pending.any fun c => c.host = host.toNat then
    pure (if release = some 0 then { s with cleanup_pending := none } else s, some (release.getD 999))
  else unregisterCopy s host.toNat release

/-! ## Runs -/

/-- The calls of the shim's entry points. -/
inductive Call where
  | preflight (c : PreflightCall)
  | register (e : RegisterEnv) (host bytes : UInt64) (flags : ℕ)
  | getDevicePointer (output : Bool) (host : UInt64) (flags : ℕ)
  | unregister (host : UInt64) (release : Option ℤ)

/-- The state after a call. -/
def call (v2 : Bool) (getenv : String → Option String) (s : Shim) : Call → Calc Shim
  | .preflight c => Prod.fst <$> halogenHybridPreflightV1 v2 (s.once v2 getenv) c
  | .register e host bytes flags => Prod.fst <$> hipHostRegister v2 (s.once v2 getenv) e host bytes flags
  | .getDevicePointer output host flags => (fun _ => s) <$> hipHostGetDevicePointer s output host flags
  | .unregister host release => Prod.fst <$> hipHostUnregister s host release

/-- One step of a run: the state, and whether an operation so far wrapped. -/
def step (v2 : Bool) (getenv : String → Option String) (s : Shim × Bool) (c : Call) : Shim × Bool :=
  call v2 getenv s.1 c s.2

end StrixAlloy.HostRegister

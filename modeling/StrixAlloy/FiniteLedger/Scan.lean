import StrixAlloy.FiniteLedger.Records

/-!
# The directory of a finite ledger

`_scan` and the operations that write to the directory. A directory is the list of its files in the
order in which they were created; `os.scandir` gives them in any order (`Scandir`). A file holds a
record, or a text that is no record, as a write leaves it that was stopped half way.

`Sound` says what the records of a directory satisfy, and `scan_layout` that the scan then returns
exactly these records, whatever the order of the entries.
-/

namespace StrixAlloy.FiniteLedger

open Checked

variable {T : Type}

/-- The names that a directory's entries have. -/
inductive Name where
  | identity
  | runnerLock
  | latch
  | reserved (slot : Slot)
  | outcome (slot : Slot)
  | other (text : String)
deriving DecidableEq

/-- A file of the directory. -/
structure File (T : Type) where
  name : Name
  content : Option (Record T)

/-- The order in which `os.scandir` gives the entries of a directory. -/
structure Scandir (T : Type) where
  entries : List (File T) → List (File T)
  perm : ∀ files, (entries files).Perm files

/-- What `_scan` returns. -/
structure Found (T : Type) where
  reservations : List (Reservation T)
  outcomes : List Outcome
  late_latch : Option (Latch T)

def Record.identity? : Record T → Option (Header T)
  | .identity header => some header
  | _ => none

def Record.reservation? : Record T → Option (Reservation T)
  | .reservation row => some row
  | _ => none

def Record.outcome? : Record T → Option Outcome
  | .outcome row => some row
  | _ => none

def Record.latch? : Record T → Option (Latch T)
  | .latch row => some row
  | _ => none

/-- `reservations.get(slot)`. -/
def Found.reservation? (found : Found T) (slot : Slot) : Option (Reservation T) :=
  found.reservations.find? fun r => r.slot = slot

namespace Ledger

/-! ## Reading -/

section Read

variable (l : Ledger T)

/-- `_read`. -/
def read (f : File T) (maximum : ℕ) : Except String (Record T) := do
  let record ← orThrow f.content "JSONDecodeError"
  let data ← orThrow (l.encoded record) "JSONDecodeError"
  require (data.length ≤ maximum) "finite_record_size"
  pure record

/-- The checks of `_scan` on an outcome, up to its binding. -/
def outcomeRow (slot : Slot) (f : File T) : Except String Outcome := do
  let _ ← l.spec slot
  let record ← l.read f (l.summaryLimit slot.kind)
  let row ← orThrow record.outcome? "finite_outcome_invalid"
  require (row.schema = 1 ∧ row.slot = slot ∧ (success? row.result).isSome) "finite_outcome_invalid"
  pure row

/-- The digest of a reservation, which its outcome carries. -/
def digest (r : Reservation T) : Option String := (l.encoded (.reservation r)).map l.sha256

/-- The outcome belongs to a reservation that was found, and carries its digest. -/
def bound (found : Found T) (o : Outcome) : Bool :=
  (found.reservation? o.slot).any fun r => l.digest r = some o.reservation_sha256

/-- The entries that `_scan` admits besides the latch. -/
def maximumEntries : ℕ :=
  2 + 2 * (l.life.maximum_post_attempts + l.life.maximum_ready_polls + 1)

end Read

variable [LinearOrder T] [Zero T]

/-- The checks of `_scan` on the latch, up to its target. -/
def latchRow (l : Ledger T) (f : File T) : Except String (Latch T) := do
  let record ← l.read f recordLimit
  let row ← orThrow record.latch? "finite_transport_latch_invalid"
  require (row.schema = 1 ∧ row.run_id = l.header.run_id ∧ row.code = "outcome_deadline" ∧
    0 ≤ row.deadline ∧ 0 ≤ row.observed_at) "finite_transport_latch_invalid"
  pure row

variable [Add T]

/-- The checks of `_scan` on a reservation. -/
def reservationRow (l : Ledger T) (slot : Slot) (f : File T) : Except String (Reservation T) := do
  let spec ← l.spec slot
  let record ← l.read f recordLimit
  let row ← orThrow record.reservation? "finite_reservation_invalid"
  require (row.schema = 1 ∧ row.slot = slot ∧ row.spec = spec ∧ 0 ≤ row.started ∧ 0 ≤ row.deadline ∧
    l.header.resumed_at ≤ row.started ∧ row.deadline = l.deadline slot.kind row.started ∧
    row.started < row.deadline) "finite_reservation_invalid"
  pure row

variable (l : Ledger T)

/-- One entry in the loop of `_scan`. -/
def scanEntry (found : Found T) (f : File T) : Except String (Found T) :=
  match f.name with
  | .identity | .runnerLock => pure found
  | .latch => do
    let row ← l.latchRow f
    pure { found with late_latch := some row }
  | .reserved slot => do
    require (slot.ordinal < 1000) "finite_ledger_entry"
    let row ← l.reservationRow slot f
    pure { found with reservations := found.reservations ++ [row] }
  | .outcome slot => do
    require (slot.ordinal < 1000) "finite_ledger_entry"
    let row ← l.outcomeRow slot f
    pure { found with outcomes := found.outcomes ++ [row] }
  | .other _ => throw "finite_ledger_entry"

/-- The loop of `_scan` from its entry number `count` on. -/
def scanEntries (count : ℕ) (found : Found T) : List (File T) → Except String (Found T)
  | [] => pure found
  | f :: fs => do
    require (count ≤ l.maximumEntries +
      if f.name = .latch ∨ found.late_latch.isSome then 1 else 0) "finite_ledger_entries"
    let found ← l.scanEntry found f
    scanEntries (count + 1) found fs

/-- The ordinals of a kind are the first ones. -/
def gapless (kind : Kind) (rows : List (Reservation T)) : Prop :=
  let numbers := (rows.filter fun r => r.slot.kind = kind).map fun r => r.slot.ordinal
  numbers.insertionSort (· ≤ ·) = List.range' 1 numbers.length

instance (kind : Kind) (rows : List (Reservation T)) : Decidable (gapless kind rows) :=
  inferInstanceAs (Decidable (_ = _))

/-- The latch names a reservation that was found, and was written at or after its deadline. -/
def targeted (found : Found T) (latch : Latch T) : Bool :=
  (found.reservation? latch.slot).any fun r =>
    latch.deadline = r.deadline ∧ r.deadline ≤ latch.observed_at

/-- `_scan`, on the entries in the order in which `os.scandir` gives them. -/
def scan (entries : List (File T)) : Except String (Found T) := do
  let found ← l.scanEntries 1 ⟨[], [], none⟩ entries
  require (∀ k ∈ kinds, gapless k found.reservations) "finite_reservation_gap"
  require (∀ o ∈ found.outcomes, l.bound found o) "finite_outcome_binding"
  require (∀ x ∈ found.late_latch, targeted found x) "finite_transport_latch_invalid"
  require (wireBytes found.reservations ≤ l.life.maximum_response_wire_bytes ∧
    evidenceBytes found.reservations ≤ l.life.maximum_client_evidence_bytes) "finite_budget_exceeded"
  pure found

/-! ## Writing -/

/-- `_exclusive`. -/
def exclusive (files : List (File T)) (name : Name) (record : Record T) (maximum : ℕ) :
    Except String (List (File T)) := do
  let data ← orThrow (l.encoded record) "ValueError"
  require (data.length ≤ maximum) "finite_record_size"
  require (∀ f ∈ files, f.name ≠ name) "FileExistsError"
  pure (files ++ [⟨name, some record⟩])

/-- The header that `identity.json` holds. -/
def identityOf (files : List (File T)) : Option (Header T) :=
  ((files.find? fun f => f.name = .identity).bind File.content).bind Record.identity?

/-- `_locked`, of an object whose `_transport_failed` is `failed`. -/
def locked (failed : Bool) (files : List (File T)) : Except String Unit := do
  require (failed = false) "finite_transport_failed"
  require (identityOf files = some l.header) "finite_ledger_identity"

/-- The scan at the start of every operation, under the lock. -/
def scanLive (dir : Scandir T) (failed : Bool) (files : List (File T)) : Except String (Found T) := do
  let _ ← l.locked failed files
  let found ← l.scan (dir.entries files)
  require (found.late_latch.isNone) "finite_transport_failed"
  pure found

/-- The slot of a kind and an ordinal, as `reserve` gets them. -/
def slotOf (kind : String) (ordinal : ℤ) : Except String Slot := do
  let k ← orThrow (kinds.find? fun k => k.text = kind) "finite_slot"
  require (1 ≤ ordinal) "finite_slot"
  pure ⟨k, ordinal.toNat⟩

/-- The row that `reserve` writes. -/
def reservationFor (slot : Slot) (spec : Spec) (now : T) : Reservation T :=
  ⟨1, slot, spec, now, l.deadline slot.kind now⟩

/-- The checks of `reserve` after its scan. -/
def checkReserve (found : Found T) (slot : Slot) (body : List UInt8) (now : T) :
    Except String (Reservation T) := do
  let spec ← l.spec slot
  require (slot.ordinal = countOf slot.kind found.reservations + 1) "finite_slot_consumed_or_out_of_order"
  require (slot.kind = .post ∨ countOf .post found.reservations = 0) "finite_readiness_finished"
  require (body.length = spec.body_bytes ∧ l.sha256 body = spec.body_sha256) "finite_request_identity"
  require (0 ≤ now ∧ l.header.resumed_at ≤ now ∧ now < l.deadline slot.kind now) "finite_deadline"
  require (wireBytes found.reservations + spec.wire_allowance ≤ l.life.maximum_response_wire_bytes ∧
    evidenceBytes found.reservations + spec.evidence_allowance ≤ l.life.maximum_client_evidence_bytes)
    "finite_budget_exceeded"
  pure (l.reservationFor slot spec now)

/-- `reserve`: the row, and the directory after it. -/
def reserve (dir : Scandir T) (failed : Bool) (files : List (File T)) (kind : String) (ordinal : ℤ)
    (body : List UInt8) (now : T) : Except String (Reservation T × List (File T)) := do
  let found ← l.scanLive dir failed files
  require (∀ o ∈ found.outcomes, success? o.result ≠ some false) "finite_prior_failure"
  let slot ← slotOf kind ordinal
  let row ← l.checkReserve found slot body now
  let files ← l.exclusive files (.reserved slot) (.reservation row) recordLimit
  pure (row, files)

/-- The first half of `complete`: its reservation, and the outcome that it writes. -/
def outcomeFor (dir : Scandir T) (failed : Bool) (files : List (File T)) (slot : Slot) (result : Json) :
    Except String (Reservation T × Outcome) := do
  let found ← l.scanLive dir failed files
  let r ← orThrow (found.reservation? slot) "finite_outcome_slot"
  require (∀ o ∈ found.outcomes, o.slot ≠ slot) "finite_outcome_slot"
  require ((success? result).isSome) "finite_outcome_invalid"
  let digest ← orThrow (l.digest r) "ValueError"
  pure (r, ⟨1, slot, digest, result⟩)

/-- The latch that says that the outcome of a reservation came late. -/
def latchFor (r : Reservation T) (observed_at : T) : Latch T :=
  ⟨1, l.header.run_id, r.slot, r.deadline, observed_at, "outcome_deadline"⟩

/-- The checks of `fail_transport`: the reservation that failed. -/
def checkFailure (dir : Scandir T) (failed : Bool) (files : List (File T)) (slot : Slot) (code : String)
    (observed_at : T) : Except String (Reservation T) := do
  let found ← l.scanLive dir failed files
  let r ← orThrow (found.reservation? slot) "finite_transport_latch_invalid"
  require (code = "outcome_deadline" ∧ 0 ≤ observed_at ∧ r.deadline ≤ observed_at)
    "finite_transport_latch_invalid"
  pure r

/-- `__init__` on a directory that exists, of the lifecycle and the run that `header` names. -/
def reopen (dir : Scandir T) (files : List (File T)) (header : Header T) : Except String (Found T) := do
  let _ ← { l with header := header }.locked false files
  let found ← { l with header := header }.scan (dir.entries files)
  require (found.late_latch.isNone) "finite_transport_failed"
  require ((∀ r ∈ found.reservations, ∃ o ∈ found.outcomes, o.slot = r.slot) ∧
    (∀ o ∈ found.outcomes, ∃ r ∈ found.reservations, r.slot = o.slot)) "finite_incomplete_handoff"
  pure found

end Ledger

end StrixAlloy.FiniteLedger

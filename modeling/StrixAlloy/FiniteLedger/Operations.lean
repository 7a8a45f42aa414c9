import StrixAlloy.FiniteLedger.Layout
import StrixAlloy.Lib.Runs

/-!
# Runs of a finite ledger

The operations of a ledger one after another, on one directory, with the object closed and the
directory opened again between any two of them. The state carries what the operations did beside the
directory: the rows that they wrote, and the account of budgets and phase as it grew with them. The
results say that a scan of the directory finds this account again, and what the account excludes.
-/

namespace StrixAlloy.FiniteLedger

open Checked List

variable {T : Type}

/-- Where a run is: it may still poll, it has begun to post, or it reserves nothing any more. -/
inductive Phase where
  | readiness | posts | ended

/-- The budgets and the phase of a run. -/
structure Account where
  wire : ℕ
  evidence : ℕ
  counts : Kind → ℕ
  failed : Bool
  latched : Bool

namespace Account

/-- The account of a directory without records. -/
def init : Account := ⟨0, baseEvidenceReserve, fun _ => 0, false, false⟩

/-- A reservation is consumed. -/
def reserve (a : Account) (r : Reservation T) : Account where
  wire := a.wire + r.spec.wire_allowance
  evidence := a.evidence + r.spec.evidence_allowance
  counts := fun k => a.counts k + if r.slot.kind = k then 1 else 0
  failed := a.failed
  latched := a.latched

/-- An outcome is recorded. -/
def complete (a : Account) (o : Outcome) : Account :=
  { a with failed := a.failed || success? o.result = some false }

/-- The latch is set. -/
def latch (a : Account) : Account := { a with latched := true }

def phase (a : Account) : Phase :=
  if a.failed ∨ a.latched then .ended else if a.counts .post = 0 then .readiness else .posts

/-- The account of some rows. -/
def ofRows (rs : List (Reservation T)) (os : List Outcome) (x : Option (Latch T)) : Account where
  wire := wireBytes rs
  evidence := evidenceBytes rs
  counts := fun k => countOf k rs
  failed := os.any fun o => success? o.result = some false
  latched := x.isSome

variable {rs : List (Reservation T)} {os : List Outcome} {x : Option (Latch T)}

theorem ofRows_reserve (r : Reservation T) : (ofRows rs os x).reserve r = ofRows (rs ++ [r]) os x := by
  simp only [ofRows, reserve, wireBytes_concat, evidenceBytes_concat, countOf_concat]

theorem ofRows_complete (o : Outcome) : (ofRows rs os x).complete o = ofRows rs (os ++ [o]) x := by
  simp [ofRows, complete]

theorem ofRows_latch (y : Latch T) : (ofRows rs os x).latch = ofRows rs os (some y) := rfl

/-- The account does not depend on the order of the rows. -/
theorem ofRows_perm {rs' : List (Reservation T)} {os' : List Outcome} (hrs : rs.Perm rs')
    (hos : os.Perm os') : ofRows rs os x = ofRows rs' os' x := by
  have hcounts : (fun k => countOf k rs) = fun k => countOf k rs' := funext fun k => countOf_perm hrs
  have hfailed : os.any (fun o => success? o.result = some false) =
      os'.any fun o => success? o.result = some false := hos.any_eq
  unfold ofRows
  rw [wireBytes_perm hrs, evidenceBytes_perm hrs, hcounts, hfailed]

end Account

/-- The account that a scan finds. -/
def Found.account (found : Found T) : Account :=
  Account.ofRows found.reservations found.outcomes found.late_latch

/-- The directory, the open ledger by its `_transport_failed`, and what the operations did: the rows
that they wrote, in order, and their account. -/
structure State (T : Type) where
  files : List (File T)
  live : Option Bool
  reserved : List (Reservation T)
  outcomes : List Outcome
  latch : Option (Latch T)
  account : Account

/-- The operations, with the order in which the directory is read and the readings of the clock. -/
inductive Event (T : Type) where
  | reserve (dir : Scandir T) (kind : String) (ordinal : ℤ) (body : List UInt8) (now : T)
  | complete (dir : Scandir T) (slot : Slot) (result : Json) (committed_at : T)
  | failTransport (dir : Scandir T) (slot : Slot) (code : String) (observed_at : T)
  | close
  | reopen (dir : Scandir T) (header : Header T)

namespace State

/-- The state after the constructor with `create=True`. -/
def init (l : Ledger T) : State T := ⟨l.created, some false, [], [], none, .init⟩

def addReservation (s : State T) (row : Reservation T) (files : List (File T)) : State T :=
  { s with files := files, reserved := s.reserved ++ [row], account := s.account.reserve row }

def addOutcome (s : State T) (o : Outcome) (files : List (File T)) : State T :=
  { s with files := files, outcomes := s.outcomes ++ [o], account := s.account.complete o }

def addLatch (s : State T) (x : Latch T) (files : List (File T)) : State T :=
  { s with files := files, latch := some x, account := s.account.latch }

end State

variable [LinearOrder T] [Zero T] [Add T]

namespace Ledger

variable (l : Ledger T)

/-- The ledger fails: it notes so in memory, and writes the latch. -/
def failWith (s : State T) (r : Reservation T) (observed_at : T) : State T :=
  match l.exclusive s.files .latch (.latch (l.latchFor r observed_at)) recordLimit with
  | .error _ => { s with live := some true }
  | .ok files => { s with live := some true }.addLatch (l.latchFor r observed_at) files

/-- The end of `complete`, when its outcome is written: a late one fails the ledger. -/
def judge (s : State T) (r : Reservation T) (committed_at : T) : State T :=
  if r.deadline ≤ committed_at then l.failWith s r committed_at else s

/-- An operation of the object whose `_transport_failed` is `failed`. -/
def operate (s : State T) (failed : Bool) : Event T → State T
  | .reserve dir kind ordinal body now =>
    match l.reserve dir failed s.files kind ordinal body now with
    | .error _ => s
    | .ok (row, files) => s.addReservation row files
  | .complete dir slot result committed_at =>
    match l.outcomeFor dir failed s.files slot result with
    | .error _ => s
    | .ok (r, o) =>
      match l.exclusive s.files (.outcome slot) (.outcome o) (l.summaryLimit slot.kind) with
      | .error _ => s
      | .ok files => l.judge (s.addOutcome o files) r committed_at
  | .failTransport dir slot code observed_at =>
    match l.checkFailure dir failed s.files slot code observed_at with
    | .error _ => s
    | .ok r => l.failWith s r observed_at
  | .close => { s with live := none }
  | .reopen _ _ => s

/-- One step. Without an object the only operation is to open the directory. -/
def step (s : State T) (e : Event T) : State T :=
  match s.live, e with
  | some failed, e => l.operate s failed e
  | none, .reopen dir header =>
    match l.reopen dir s.files header with
    | .error _ => s
    | .ok _ => { s with live := some false }
  | none, _ => s

/-! ## The invariant -/

/-- The directory holds the rows that the operations wrote, they are sound, and the account is
theirs. -/
structure Inv (s : State T) : Prop where
  sound : l.Sound s.reserved s.outcomes s.latch
  files : s.files.Perm (l.layout s.reserved s.outcomes s.latch)
  account : s.account = .ofRows s.reserved s.outcomes s.latch

variable {l} {s : State T}

-- Makes the equations once, for all of the proofs.
attribute [local simp] Ledger.operate Ledger.step Ledger.judge Ledger.failWith in
theorem inv_init : l.Inv (State.init l) where
  sound :=
    { reservations := by simp [State.init]
      ordinals := by simp [State.init, countOf]
      unique := nodup_nil
      outcomes := by simp [State.init]
      once := nodup_nil
      latch := by simp [State.init]
      wire := Nat.zero_le _
      evidence := l.life.base_le }
  files := by
    show l.created.Perm (l.created ++ [] ++ [] ++ [])
    simp
  account := rfl

theorem Inv.live (h : l.Inv s) (live : Option Bool) : l.Inv { s with live := live } :=
  ⟨h.sound, h.files, h.account⟩

/-- Every scan finds the rows and the account. -/
theorem Inv.scan (h : l.Inv s) (dir : Scandir T) :
    ∃ found, l.scan (dir.entries s.files) = .ok found ∧ found.reservations.Perm s.reserved ∧
      found.outcomes.Perm s.outcomes ∧ found.late_latch = s.latch ∧ found.account = s.account := by
  obtain ⟨found, hscan, hrs, hos, hlatch⟩ := h.sound.scan ((dir.perm s.files).trans h.files)
  refine ⟨found, hscan, hrs, hos, hlatch, ?_⟩
  rw [h.account, Found.account, hlatch]
  exact Account.ofRows_perm hrs hos

/-- What the scan at the start of an operation finds, when the operation goes on. -/
theorem Inv.scanLive (h : l.Inv s) {dir : Scandir T} {failed : Bool} {found : Found T}
    (hfound : l.scanLive dir failed s.files = .ok found) :
    found.reservations.Perm s.reserved ∧ found.outcomes.Perm s.outcomes ∧ s.latch = none := by
  unfold Ledger.scanLive at hfound
  simp only [bind_eq_ok, require_eq_ok, pure_eq_ok] at hfound
  obtain ⟨-, -, found', hscan, -, hnone, rfl⟩ := hfound
  obtain ⟨found, hscan', hrs, hos, hlatch, -⟩ := h.scan dir
  obtain rfl : found' = found := Except.ok.inj (hscan.symm.trans hscan')
  exact ⟨hrs, hos, hlatch ▸ Option.isNone_iff_eq_none.1 hnone⟩

variable {r row : Reservation T}

omit [LinearOrder T] [Zero T] [Add T] in
/-- The row of a slot that a scan found is one of the rows. -/
theorem mem_of_reservation? {found : Found T} {rs : List (Reservation T)} {slot : Slot}
    (hrs : found.reservations.Perm rs) (h : found.reservation? slot = some r) : r ∈ rs ∧ r.slot = slot := by
  have hlookup : Table.lookup Reservation.slot found.reservations slot = some r := h
  obtain ⟨hmem, hslot⟩ := Table.mem_of_lookup hlookup
  exact ⟨hrs.mem_iff.1 hmem, hslot⟩

/-! ## Writing a record -/

omit [LinearOrder T] [Zero T] [Add T] in
/-- A record that was written has a text within its limit, and is the last file. -/
theorem exclusive_ok {files files' : List (File T)} {name : Name} {record : Record T} {maximum : ℕ}
    (h : l.exclusive files name record maximum = .ok files') :
    (∃ data, l.encoded record = some data ∧ data.length ≤ maximum) ∧
      files' = files ++ [⟨name, some record⟩] := by
  unfold exclusive at h
  simp only [bind_eq_ok, orThrow_eq_ok, require_eq_ok, pure_eq_ok] at h
  obtain ⟨data, hdata, -, hlen, -, -, rfl⟩ := h
  exact ⟨⟨data, hdata, hlen⟩, rfl⟩

section Layout

omit [LinearOrder T] [Zero T] [Add T]

variable {rs : List (Reservation T)} {os : List Outcome} {x : Option (Latch T)} {files : List (File T)}

/-- The last of some entries stands anywhere before the others. -/
theorem perm_insert {front rest : List (File T)} {f : File T} (h : files.Perm (front ++ rest)) :
    (files ++ [f]).Perm (front ++ [f] ++ rest) := by
  calc (files ++ [f]).Perm (front ++ rest ++ [f]) := h.append_right [f]
    _ = front ++ (rest ++ [f]) := append_assoc ..
    _ |>.Perm (front ++ ([f] ++ rest)) := perm_append_comm.append_left front
    _ = front ++ [f] ++ rest := (append_assoc ..).symm

theorem layout_reservation (h : files.Perm (l.layout rs os x)) (r : Reservation T) :
    (files ++ [r.file]).Perm (l.layout (rs ++ [r]) os x) := by
  have hfront : files.Perm (l.created ++ rs.map Reservation.file ++
      (os.map Outcome.file ++ x.toList.map Latch.file)) := by
    rw [← append_assoc]
    exact h
  have hperm := perm_insert (f := r.file) hfront
  unfold layout
  rw [map_append, append_assoc _ (os.map _)]
  simpa using hperm

theorem layout_outcome (h : files.Perm (l.layout rs os x)) (o : Outcome) :
    (files ++ [o.file]).Perm (l.layout rs (os ++ [o]) x) := by
  have hperm := perm_insert (f := o.file) h
  unfold layout
  rw [map_append]
  simpa using hperm

theorem layout_latch (h : files.Perm (l.layout rs os none)) (y : Latch T) :
    (files ++ [y.file]).Perm (l.layout rs os (some y)) := by
  unfold layout at h ⊢
  exact (by simpa using h : files.Perm _).append_right [y.file] |>.trans (by simp)

end Layout

/-! ## One operation -/

/-- What a reservation that succeeds found: nothing failed, its ordinal is the next one of its kind,
no post was reserved before a poll, and the budgets cover it. -/
structure Reserves (l : Ledger T) (s : State T) (row : Reservation T) : Prop where
  latch : s.latch = none
  succeeded : ∀ o ∈ s.outcomes, success? o.result ≠ some false
  ordinal : row.slot.ordinal = countOf row.slot.kind s.reserved + 1
  readiness : row.slot.kind = .post ∨ countOf .post s.reserved = 0
  ok : l.ReservationOk row
  wire : wireBytes s.reserved + row.spec.wire_allowance ≤ l.life.maximum_response_wire_bytes
  evidence : evidenceBytes s.reserved + row.spec.evidence_allowance ≤ l.life.maximum_client_evidence_bytes

theorem Inv.reserves (h : l.Inv s) {dir : Scandir T} {failed : Bool} {kind : String} {ordinal : ℤ} {body : List UInt8}
    {now : T} {files : List (File T)} (hr : l.reserve dir failed s.files kind ordinal body now = .ok (row, files)) :
    l.Reserves s row ∧ files = s.files ++ [row.file] := by
  unfold reserve at hr
  simp only [bind_eq_ok, require_eq_ok, pure_eq_ok, Prod.mk.injEq] at hr
  obtain ⟨found, hscan, -, hsucceeded, slot, -, row, hcheck, files, hwrite, rfl, rfl⟩ := hr
  obtain ⟨hrs, hos, hlatch⟩ := h.scanLive hscan
  unfold checkReserve at hcheck
  simp only [bind_eq_ok, require_eq_ok, pure_eq_ok] at hcheck
  obtain ⟨spec, hspec, -, hordinal, -, hreadiness, -, -, -, ⟨hnow, hresumed, hdeadline⟩, -, hbudget,
    rfl⟩ := hcheck
  obtain ⟨hencoded, rfl⟩ := exclusive_ok hwrite
  rw [wireBytes_perm hrs, evidenceBytes_perm hrs] at hbudget
  rw [countOf_perm hrs] at hordinal hreadiness
  exact ⟨⟨hlatch, fun o ho => hsucceeded o (hos.mem_iff.2 ho), hordinal, hreadiness,
    ⟨rfl, hspec, hencoded, hnow, hresumed, rfl, hdeadline⟩, hbudget.1, hbudget.2⟩, rfl⟩

/-- The ordinals of the reservations of a kind are at most their number. -/
theorem Inv.ordinal_le (h : l.Inv s) (hr : r ∈ s.reserved) :
    r.slot.ordinal ≤ countOf r.slot.kind s.reserved := by
  have hmem : r.slot.ordinal ∈
      (s.reserved.filter fun r' => r'.slot.kind = r.slot.kind).map fun r' => r'.slot.ordinal :=
    mem_map.2 ⟨r, mem_filter.2 ⟨hr, by simp⟩, rfl⟩
  rw [h.sound.ordinals, List.mem_range'_1] at hmem
  omega

omit [LinearOrder T] [Zero T] [Add T] in
theorem OutcomeOk.mono {rs : List (Reservation T)} {o : Outcome} (h : l.OutcomeOk rs o) :
    l.OutcomeOk (rs ++ [r]) o := by
  obtain ⟨r', hr', hslot⟩ := h.bound
  exact { h with bound := ⟨r', mem_append_left _ hr', hslot⟩ }

theorem Inv.addReservation (h : l.Inv s) (hr : l.Reserves s row) :
    l.Inv (s.addReservation row (s.files ++ [row.file])) where
  sound :=
    { reservations := by
        intro r hmem
        rcases mem_append.1 hmem with hmem | hmem
        · exact h.sound.reservations r hmem
        · rw [mem_singleton.1 hmem]
          exact hr.ok
      ordinals := by
        intro k
        show ((s.reserved ++ [row]).filter _).map _ = List.range' 1 (countOf k (s.reserved ++ [row]))
        rw [filter_append, map_append, h.sound.ordinals k, countOf_concat]
        by_cases hk : row.slot.kind = k
        · have hordinal := hr.ordinal
          rw [hk] at hordinal
          rw [if_pos hk, List.range'_1_concat]
          simp [hk, hordinal, Nat.add_comm]
        · rw [if_neg hk]
          simp [hk]
      unique := by
        have hu : Table.Unique Reservation.slot s.reserved := h.sound.unique
        refine hu.concat fun r hmem hslot => ?_
        -- a reserved slot has an ordinal that is not the next one
        have hle := h.ordinal_le hmem
        have hnext := hr.ordinal
        rw [hslot] at hle
        omega
      outcomes := fun o ho => (h.sound.outcomes o ho).mono
      once := h.sound.once
      latch := by
        intro x hx
        have hnone : s.latch = some x := hx
        rw [hr.latch] at hnone
        cases hnone
      wire := by
        show wireBytes (s.reserved ++ [row]) ≤ _
        rw [wireBytes_concat]
        exact hr.wire
      evidence := by
        show evidenceBytes (s.reserved ++ [row]) ≤ _
        rw [evidenceBytes_concat]
        exact hr.evidence }
  files := layout_reservation h.files row
  account := by
    show s.account.reserve row = _
    rw [h.account]
    exact Account.ofRows_reserve row

/-- The outcome that `complete` writes is bound to a reservation without an outcome. -/
structure Completes (l : Ledger T) (s : State T) (r : Reservation T) (o : Outcome) : Prop where
  latch : s.latch = none
  mem : r ∈ s.reserved
  slot : r.slot = o.slot
  pending : ∀ o' ∈ s.outcomes, o'.slot ≠ o.slot
  schema : o.schema = 1
  success : (success? o.result).isSome
  digest : l.digest r = some o.reservation_sha256

theorem Inv.completes (h : l.Inv s) {dir : Scandir T} {failed : Bool} {slot : Slot} {result : Json} {o : Outcome}
    (ho : l.outcomeFor dir failed s.files slot result = .ok (r, o)) : l.Completes s r o ∧ o.slot = slot := by
  unfold outcomeFor at ho
  simp only [bind_eq_ok, require_eq_ok, orThrow_eq_ok, pure_eq_ok, Prod.mk.injEq] at ho
  obtain ⟨found, hscan, r, hr, -, hpending, -, hsuccess, digest, hdigest, rfl, rfl⟩ := ho
  obtain ⟨hrs, hos, hlatch⟩ := h.scanLive hscan
  obtain ⟨hmem, hslot⟩ := mem_of_reservation? hrs hr
  exact ⟨⟨hlatch, hmem, hslot, fun o ho => hpending o (hos.mem_iff.2 ho), rfl, hsuccess, hdigest⟩, rfl⟩

theorem Inv.addOutcome (h : l.Inv s) {o : Outcome} (hc : l.Completes s r o)
    (hencoded : ∃ data, l.encoded (.outcome o) = some data ∧ data.length ≤ l.summaryLimit o.slot.kind) :
    l.Inv (s.addOutcome o (s.files ++ [o.file])) where
  sound :=
    { h.sound with
      outcomes := by
        intro o' hmem
        rcases mem_append.1 hmem with hmem | hmem
        · exact h.sound.outcomes o' hmem
        · rw [mem_singleton.1 hmem]
          exact ⟨hc.schema, hc.success, hencoded, r, hc.mem, hc.slot, hc.digest⟩
      once := by
        have hu : Table.Unique Outcome.slot s.outcomes := h.sound.once
        exact hu.concat hc.pending }
  files := layout_outcome h.files o
  account := by
    show s.account.complete o = _
    rw [h.account]
    exact Account.ofRows_complete o

/-- A failure that is due at its time keeps the invariant, whether its latch is written or not. -/
theorem Inv.failWith (h : l.Inv s) {observed_at : T} (hlatch : s.latch = none) (hr : r ∈ s.reserved)
    (hlate : r.deadline ≤ observed_at) : l.Inv (l.failWith s r observed_at) := by
  unfold Ledger.failWith
  cases hwrite : l.exclusive s.files .latch (.latch (l.latchFor r observed_at)) recordLimit with
  | error => exact h.live _
  | ok files =>
    obtain ⟨hencoded, rfl⟩ := exclusive_ok hwrite
    have hfiles : s.files.Perm (l.layout s.reserved s.outcomes none) := hlatch ▸ h.files
    refine ⟨{ h.sound with latch := ?_ }, layout_latch hfiles _, ?_⟩
    · intro x hx
      obtain rfl : l.latchFor r observed_at = x := Option.some.inj hx
      exact ⟨rfl, rfl, rfl, hencoded, r, hr, rfl, rfl, hlate⟩
    · rw [h.account]
      exact Account.ofRows_latch _

theorem Inv.operate (h : l.Inv s) (failed : Bool) (e : Event T) : l.Inv (l.operate s failed e) := by
  cases e with
  | reserve dir kind ordinal body now =>
    simp only [Ledger.operate]
    cases hr : l.reserve dir failed s.files kind ordinal body now with
    | error => exact h
    | ok written =>
      obtain ⟨row, files⟩ := written
      obtain ⟨hreserves, rfl⟩ := h.reserves hr
      exact h.addReservation hreserves
  | complete dir slot result committed_at =>
    simp only [Ledger.operate]
    cases ho : l.outcomeFor dir failed s.files slot result with
    | error => exact h
    | ok found =>
      obtain ⟨r, o⟩ := found
      dsimp only
      obtain ⟨hc, rfl⟩ := h.completes ho
      cases hwrite : l.exclusive s.files (.outcome o.slot) (.outcome o) (l.summaryLimit o.slot.kind) with
      | error => exact h
      | ok =>
        obtain ⟨hencoded, rfl⟩ := exclusive_ok hwrite
        have hadded := h.addOutcome hc hencoded
        unfold judge
        split_ifs with hlate
        · exact hadded.failWith hc.latch hc.mem hlate
        · exact hadded
  | failTransport dir slot code observed_at =>
    simp only [Ledger.operate]
    cases hf : l.checkFailure dir failed s.files slot code observed_at with
    | error => exact h
    | ok =>
      unfold checkFailure at hf
      simp only [bind_eq_ok, require_eq_ok, orThrow_eq_ok, pure_eq_ok] at hf
      obtain ⟨found, hscan, r', hr, -, ⟨-, -, hlate⟩, rfl⟩ := hf
      obtain ⟨hrs, -, hlatch⟩ := h.scanLive hscan
      exact h.failWith hlatch (mem_of_reservation? hrs hr).1 hlate
  | close => exact h.live none
  | reopen => exact h

theorem Inv.step (h : l.Inv s) (e : Event T) : l.Inv (l.step s e) := by
  unfold Ledger.step
  split
  · exact h.operate _ _
  · split
    · exact h
    · exact h.live _
  · exact h

/-- The invariant holds after every run. -/
theorem inv_run (l : Ledger T) (es : List (Event T)) : l.Inv (Runs.run l.step (State.init l) es) :=
  Runs.run_invariant (fun _ e h => h.step e) es inv_init

/-! ## What a run does -/

omit [LinearOrder T] [Zero T] [Add T] in
@[simp]
theorem failWith_reserved (s : State T) (r : Reservation T) (observed_at : T) :
    (l.failWith s r observed_at).reserved = s.reserved := by
  unfold failWith
  split <;> rfl

theorem Inv.operate_reserved (h : l.Inv s) (failed : Bool) (e : Event T) :
    (l.operate s failed e).reserved = s.reserved ∨
      ∃ row, (l.operate s failed e).reserved = s.reserved ++ [row] ∧ l.Reserves s row := by
  cases e with
  | reserve dir kind ordinal body now =>
    simp only [Ledger.operate]
    cases hr : l.reserve dir failed s.files kind ordinal body now with
    | error => exact .inl rfl
    | ok written => exact .inr ⟨written.1, rfl, (h.reserves hr).1⟩
  | complete =>
    left
    simp only [Ledger.operate, judge]
    split
    · rfl
    · split
      · rfl
      · split
        · exact failWith_reserved _ _ _
        · rfl
  | failTransport =>
    left
    simp only [Ledger.operate]
    split
    · rfl
    · exact failWith_reserved _ _ _
  | close => exact .inl rfl
  | reopen => exact .inl rfl

/-- The only step that reserves is a reservation that succeeds. -/
theorem Inv.step_reserved (h : l.Inv s) (e : Event T) :
    (l.step s e).reserved = s.reserved ∨
      ∃ row, (l.step s e).reserved = s.reserved ++ [row] ∧ l.Reserves s row := by
  unfold Ledger.step
  split
  · exact h.operate_reserved _ _
  · left
    split <;> rfl
  · exact .inl rfl

/-- In the account, a reservation that succeeds finds a run that has not ended, and a poll one that has
not begun to post. -/
theorem Inv.phase_of_reserves (h : l.Inv s) (hr : l.Reserves s row) :
    s.account.phase ≠ .ended ∧ (row.slot.kind ≠ .post → s.account.phase = .readiness) := by
  have hfailed : ¬ (s.account.failed ∨ s.account.latched) := by
    rw [h.account]
    simpa [Account.ofRows, hr.latch] using hr.succeeded
  have hcounts : s.account.counts .post = countOf .post s.reserved := by
    rw [h.account]
    rfl
  unfold Account.phase
  rw [if_neg hfailed, hcounts]
  constructor
  · split_ifs <;> simp
  · intro hkind
    rw [if_pos (hr.readiness.resolve_left hkind)]

/-- `identity.json` is found in the directory. -/
theorem Inv.identityOf (h : l.Inv s) : identityOf s.files = some l.header := by
  have hfound : ∀ f ∈ s.files, f.name = .identity → f.content = some (.identity l.header) := by
    intro f hf hname
    have hmem := h.files.mem_iff.1 hf
    simp only [layout, created, mem_append, mem_cons, not_mem_nil, or_false, mem_map,
      Option.mem_toList] at hmem
    rcases hmem with (((rfl | rfl) | ⟨r, -, rfl⟩) | ⟨o, -, rfl⟩) | ⟨x, -, rfl⟩
    · rfl
    all_goals cases hname
  have hidentity : (⟨.identity, some (.identity l.header)⟩ : File T) ∈ s.files :=
    h.files.mem_iff.2 (by simp [layout, created])
  unfold FiniteLedger.Ledger.identityOf
  cases hfind : s.files.find? fun f => f.name = .identity with
  | none =>
    have hnone := List.find?_eq_none.1 hfind _ hidentity
    simp at hnone
  | some f =>
    have hcontent := hfound f (mem_of_find?_eq_some hfind) (by simpa using List.find?_some hfind)
    rw [Option.bind_some, hcontent]
    rfl

/-- A directory is opened again by the run that it was created for, unless its latch is set or a
reservation has no outcome. -/
theorem Inv.reopen_isOk_iff (h : l.Inv s) (dir : Scandir T) (header : Header T) :
    (∃ found, l.reopen dir s.files header = .ok found) ↔
      header = l.header ∧ s.latch = none ∧ ∀ r ∈ s.reserved, ∃ o ∈ s.outcomes, o.slot = r.slot := by
  obtain ⟨found, hscan, hrs, hos, hlatch, -⟩ := h.scan dir
  have hpaired : ∀ o ∈ found.outcomes, ∃ r ∈ found.reservations, r.slot = o.slot := by
    intro o ho
    obtain ⟨r, hr, hslot, -⟩ := (h.sound.outcomes o (hos.mem_iff.1 ho)).bound
    exact ⟨r, hrs.mem_iff.2 hr, hslot⟩
  have hcomplete : (∀ r ∈ found.reservations, ∃ o ∈ found.outcomes, o.slot = r.slot) ↔
      ∀ r ∈ s.reserved, ∃ o ∈ s.outcomes, o.slot = r.slot := by
    constructor
    · intro hall r hr
      obtain ⟨o, ho, hslot⟩ := hall r (hrs.mem_iff.2 hr)
      exact ⟨o, hos.mem_iff.1 ho, hslot⟩
    · intro hall r hr
      obtain ⟨o, ho, hslot⟩ := hall r (hrs.mem_iff.1 hr)
      exact ⟨o, hos.mem_iff.2 ho, hslot⟩
  unfold Ledger.reopen Ledger.locked
  simp only [bind_eq_ok, require_eq_ok, pure_eq_ok, h.identityOf, Option.some.injEq]
  constructor
  · rintro ⟨found', -, ⟨-, -, rfl⟩, found'', hscan', -, hnone, -, ⟨hall, -⟩, rfl⟩
    obtain rfl : found'' = found := Except.ok.inj (hscan'.symm.trans hscan)
    exact ⟨rfl, hlatch ▸ Option.isNone_iff_eq_none.1 hnone, hcomplete.1 hall⟩
  · rintro ⟨rfl, hnone, hall⟩
    exact ⟨found, (), ⟨(), trivial, rfl⟩, found, hscan, (), by rw [hlatch, hnone]; rfl, (),
      ⟨hcomplete.2 hall, hpaired⟩, rfl⟩

/-- The law of a run. After any operations, with the directory opened again between any of them, the
ordinals of a kind are gapless from the first in the order of their reservations, no slot is reserved or
completed twice, and the budgets hold. A reservation that succeeds next finds no failed outcome and no
latch, and a poll no post. Every scan, in any order of the entries, accepts the directory and finds
the rows of the operations with their account, and the directory opens again unless it is latched or
incomplete. -/
theorem run_law (l : Ledger T) (es : List (Event T)) :
    let s := Runs.run l.step (State.init l) es
    (∀ k, (s.reserved.filter fun r => r.slot.kind = k).map (fun r => r.slot.ordinal) =
      List.range' 1 (s.account.counts k)) ∧
    (s.reserved.map Reservation.slot).Nodup ∧
    (s.outcomes.map Outcome.slot).Nodup ∧
    (∀ o ∈ s.outcomes, ∃ r ∈ s.reserved, r.slot = o.slot) ∧
    s.account.wire ≤ l.life.maximum_response_wire_bytes ∧
    s.account.evidence ≤ l.life.maximum_client_evidence_bytes ∧
    (∀ e, (l.step s e).reserved = s.reserved ∨ ∃ row, (l.step s e).reserved = s.reserved ++ [row] ∧
      s.latch = none ∧ (∀ o ∈ s.outcomes, success? o.result = some true) ∧
      s.account.phase ≠ .ended ∧ (row.slot.kind ≠ .post → s.account.phase = .readiness)) ∧
    (∀ dir : Scandir T, ∃ found, l.scan (dir.entries s.files) = .ok found ∧
      found.reservations.Perm s.reserved ∧ found.outcomes.Perm s.outcomes ∧
      found.late_latch = s.latch ∧ found.account = s.account) ∧
    ∀ (dir : Scandir T) (header : Header T), (∃ found, l.reopen dir s.files header = .ok found) ↔
      header = l.header ∧ s.latch = none ∧ ∀ r ∈ s.reserved, ∃ o ∈ s.outcomes, o.slot = r.slot := by
  intro s
  have h : l.Inv s := inv_run l es
  have hsucceeded : ∀ o ∈ s.outcomes, success? o.result ≠ some false → success? o.result = some true := by
    intro o ho hne
    obtain ⟨b, hb⟩ := Option.isSome_iff_exists.1 (h.sound.outcomes o ho).success
    cases b with
    | false => exact absurd hb hne
    | true => exact hb
  refine ⟨fun k => ?_, h.sound.unique, h.sound.once, fun o ho => ?_, ?_, ?_, fun e => ?_, h.scan,
    h.reopen_isOk_iff⟩
  · rw [h.account]
    exact h.sound.ordinals k
  · obtain ⟨r, hr, hslot, -⟩ := (h.sound.outcomes o ho).bound
    exact ⟨r, hr, hslot⟩
  · rw [h.account]
    exact h.sound.wire
  · rw [h.account]
    exact h.sound.evidence
  · rcases h.step_reserved e with hsame | ⟨row, hrow, hr⟩
    · exact .inl hsame
    · exact .inr ⟨row, hrow, hr.latch, fun o ho => hsucceeded o ho (hr.succeeded o ho),
        h.phase_of_reserves hr⟩

end Ledger

end StrixAlloy.FiniteLedger

import Mathlib.Data.List.Perm.Subperm
import StrixAlloy.FiniteLedger.Scan
import StrixAlloy.Lib.Table

/-!
# What a scan finds

The layout of a directory is the identity, the lock, and one file for each record. `Sound` is what the
records satisfy, and `scan_layout` says that every scan of the layout of sound records succeeds and
finds them, in whatever order the entries come.
-/

namespace StrixAlloy.FiniteLedger

open List

variable {T : Type}

/-- The file of a reservation. -/
def Reservation.file (r : Reservation T) : File T := ⟨.reserved r.slot, some (.reservation r)⟩

/-- The file of an outcome. -/
def Outcome.file (o : Outcome) : File T := ⟨.outcome o.slot, some (.outcome o)⟩

/-- The file of a latch. -/
def Latch.file (x : Latch T) : File T := ⟨.latch, some (.latch x)⟩

/-- The files that the constructor creates. The text of the lock is never read. -/
def Ledger.created (l : Ledger T) : List (File T) :=
  [⟨.identity, some (.identity l.header)⟩, ⟨.runnerLock, none⟩]

/-- The directory of some records. -/
def Ledger.layout (l : Ledger T) (rs : List (Reservation T)) (os : List Outcome) (latch : Option (Latch T)) :
    List (File T) :=
  l.created ++ rs.map Reservation.file ++ os.map Outcome.file ++ latch.toList.map Latch.file

/-! ## The loop of the scan -/

/-- The record of a file, added to what was found. -/
def Found.add (found : Found T) (f : File T) : Found T :=
  match f.content with
  | some (.reservation row) => { found with reservations := found.reservations ++ [row] }
  | some (.outcome row) => { found with outcomes := found.outcomes ++ [row] }
  | some (.latch row) => { found with late_latch := some row }
  | _ => found

def File.reservation? (f : File T) : Option (Reservation T) := f.content.bind Record.reservation?
def File.outcome? (f : File T) : Option Outcome := f.content.bind Record.outcome?
def File.latch? (f : File T) : Option (Latch T) := f.content.bind Record.latch?

theorem add_reservations (found : Found T) (f : File T) :
    (found.add f).reservations = found.reservations ++ f.reservation?.toList := by
  rcases f with ⟨name, _ | _ | _ | _ | _⟩ <;> simp [Found.add, File.reservation?, Record.reservation?]

theorem add_outcomes (found : Found T) (f : File T) :
    (found.add f).outcomes = found.outcomes ++ f.outcome?.toList := by
  rcases f with ⟨name, _ | _ | _ | _ | _⟩ <;> simp [Found.add, File.outcome?, Record.outcome?]

theorem add_late_latch (found : Found T) (f : File T) :
    (found.add f).late_latch = f.latch?.or found.late_latch := by
  rcases f with ⟨name, _ | _ | _ | _ | _⟩ <;> simp [Found.add, File.latch?, Record.latch?]

theorem foldl_add_reservations (fs : List (File T)) (found : Found T) :
    (fs.foldl Found.add found).reservations = found.reservations ++ fs.filterMap File.reservation? := by
  induction fs generalizing found with
  | nil => simp
  | cons f fs ih =>
    rw [foldl_cons, ih, add_reservations, filterMap_cons]
    cases f.reservation? <;> simp

theorem foldl_add_outcomes (fs : List (File T)) (found : Found T) :
    (fs.foldl Found.add found).outcomes = found.outcomes ++ fs.filterMap File.outcome? := by
  induction fs generalizing found with
  | nil => simp
  | cons f fs ih =>
    rw [foldl_cons, ih, add_outcomes, filterMap_cons]
    cases f.outcome? <;> simp

theorem foldl_add_late_latch (fs : List (File T)) (found : Found T) :
    (fs.foldl Found.add found).late_latch = (fs.filterMap File.latch?).getLast?.or found.late_latch := by
  induction fs generalizing found with
  | nil => simp
  | cons f fs ih =>
    rw [foldl_cons, ih, add_late_latch, filterMap_cons]
    cases f.latch? with
    | none => simp
    | some =>
      cases h : (fs.filterMap File.latch?).getLast? with
      | none =>
        have hnil := List.getLast?_eq_none_iff.1 h
        simp [hnil]
      | some => simp [List.getLast?_cons, h]

namespace Ledger

variable [LinearOrder T] [Zero T] [Add T] (l : Ledger T)

/-- The scan accepts an entry, and adds its record. -/
def Accepts (f : File T) : Prop := ∀ found, l.scanEntry found f = .ok (found.add f)

/-- A scan of accepted entries that are not too many adds them all. The latch is one entry more, and is
counted from where it is found on. -/
theorem scanEntries_of_accepts {fs : List (File T)} (hfs : ∀ f ∈ fs, l.Accepts f) {count : ℕ}
    {found : Found T} (hcount : count + fs.length ≤ l.maximumEntries + 1 +
      if found.late_latch.isSome ∨ ∃ f ∈ fs, f.name = .latch then 1 else 0) :
    l.scanEntries count found fs = .ok (fs.foldl Found.add found) := by
  induction fs generalizing count found with
  | nil => rfl
  | cons f fs ih =>
    have hf := hfs f (by simp) found
    have hlatch : f.name = .latch → (found.add f).late_latch.isSome := by
      intro hname
      unfold scanEntry at hf
      rw [hname] at hf
      simp only [Checked.bind_eq_ok, Checked.pure_eq_ok] at hf
      obtain ⟨row, -, hrow⟩ := hf
      rw [← hrow]
      rfl
    have hkeep : found.late_latch.isSome → (found.add f).late_latch.isSome := by
      intro h
      rw [add_late_latch]
      cases f.latch? <;> simp [h]
    have hnow : count ≤ l.maximumEntries +
        if f.name = .latch ∨ found.late_latch.isSome then 1 else 0 := by
      by_cases h : f.name = .latch ∨ found.late_latch.isSome
      · rw [if_pos h]
        simp only [length_cons] at hcount
        split_ifs at hcount <;> omega
      · rw [if_neg h]
        rcases fs with _ | ⟨g, gs⟩
        · rw [if_neg (by simpa using not_or.1 h |>.symm)] at hcount
          simpa using hcount
        · simp only [length_cons] at hcount
          split_ifs at hcount <;> omega
    have hrest : count + 1 + fs.length ≤ l.maximumEntries + 1 +
        if (found.add f).late_latch.isSome ∨ ∃ g ∈ fs, g.name = .latch then 1 else 0 := by
      simp only [length_cons] at hcount
      have himp : (found.late_latch.isSome ∨ ∃ g ∈ f :: fs, g.name = .latch) →
          (found.add f).late_latch.isSome ∨ ∃ g ∈ fs, g.name = .latch := by
        rintro (h | ⟨g, hg, hname⟩)
        · exact .inl (hkeep h)
        · rcases mem_cons.1 hg with rfl | hg
          · exact .inl (hlatch hname)
          · exact .inr ⟨g, hg, hname⟩
      by_cases h : (found.add f).late_latch.isSome ∨ ∃ g ∈ fs, g.name = .latch
      · rw [if_pos h]
        split_ifs at hcount <;> omega
      · rw [if_neg (fun hall => h (himp hall))] at hcount
        rw [if_neg h]
        omega
    show (do
      Checked.require _ _
      let found ← l.scanEntry found f
      l.scanEntries (count + 1) found fs) = _
    rw [Checked.require_bind, if_pos hnow, hf]
    exact ih (fun g hg => hfs g (by simp [hg])) hrest

/-! ## Sound records -/

/-- What `_scan` checks of a reservation by itself. -/
structure ReservationOk (r : Reservation T) : Prop where
  schema : r.schema = 1
  spec : l.spec r.slot = .ok r.spec
  encoded : ∃ data, l.encoded (.reservation r) = some data ∧ data.length ≤ recordLimit
  started : 0 ≤ r.started
  resumed : l.header.resumed_at ≤ r.started
  deadline : r.deadline = l.deadline r.slot.kind r.started
  positive : r.started < r.deadline

/-- What `_scan` checks of an outcome, with the reservation that it is bound to. -/
structure OutcomeOk (rs : List (Reservation T)) (o : Outcome) : Prop where
  schema : o.schema = 1
  success : (success? o.result).isSome
  encoded : ∃ data, l.encoded (.outcome o) = some data ∧ data.length ≤ l.summaryLimit o.slot.kind
  bound : ∃ r ∈ rs, r.slot = o.slot ∧ l.digest r = some o.reservation_sha256

/-- What `_scan` checks of a latch, with the reservation that it names. -/
structure LatchOk (rs : List (Reservation T)) (x : Latch T) : Prop where
  schema : x.schema = 1
  run_id : x.run_id = l.header.run_id
  code : x.code = "outcome_deadline"
  encoded : ∃ data, l.encoded (.latch x) = some data ∧ data.length ≤ recordLimit
  target : ∃ r ∈ rs, r.slot = x.slot ∧ x.deadline = r.deadline ∧ r.deadline ≤ x.observed_at

/-- The records of a directory that the operations wrote. -/
structure Sound (rs : List (Reservation T)) (os : List Outcome) (latch : Option (Latch T)) : Prop where
  reservations : ∀ r ∈ rs, l.ReservationOk r
  /-- The ordinals of a kind are gapless from the first, in the order of the reservations. -/
  ordinals : ∀ k, (rs.filter fun r => r.slot.kind = k).map (fun r => r.slot.ordinal) =
    List.range' 1 (countOf k rs)
  /-- No slot is reserved twice. -/
  unique : (rs.map Reservation.slot).Nodup
  outcomes : ∀ o ∈ os, l.OutcomeOk rs o
  /-- No slot is completed twice. -/
  once : (os.map Outcome.slot).Nodup
  latch : ∀ x ∈ latch, l.LatchOk rs x
  wire : wireBytes rs ≤ l.life.maximum_response_wire_bytes
  evidence : evidenceBytes rs ≤ l.life.maximum_client_evidence_bytes

variable {l} {rs : List (Reservation T)} {os : List Outcome} {latch : Option (Latch T)}

omit [LinearOrder T] [Zero T] [Add T] in
/-- A file with a record whose text is within the limit is read. -/
theorem read_ok {name : Name} {record : Record T} {maximum : ℕ}
    (h : ∃ data, l.encoded record = some data ∧ data.length ≤ maximum) :
    l.read ⟨name, some record⟩ maximum = .ok record := by
  obtain ⟨data, hdata, hlen⟩ := h
  unfold read
  simp [hdata, hlen]

theorem ReservationOk.accepts {r : Reservation T} (h : l.ReservationOk r) : l.Accepts r.file := by
  intro found
  obtain ⟨hlow, hhigh⟩ := l.spec_range h.spec
  have hthree : r.slot.ordinal < 1000 := hhigh.trans_lt (l.count_lt _)
  have hnonneg : 0 ≤ r.deadline := h.started.trans h.positive.le
  have hrow : l.reservationRow r.slot r.file = .ok r := by
    unfold reservationRow
    have hread : l.read r.file recordLimit = .ok (.reservation r) := read_ok h.encoded
    simp [h.spec, hread, Record.reservation?, h.schema, h.started, hnonneg, h.resumed, ← h.deadline,
      h.positive]
  show (do
    Checked.require _ _
    let row ← l.reservationRow r.slot r.file
    pure _) = _
  rw [Checked.require_bind, if_pos hthree, hrow]
  rfl

theorem OutcomeOk.accepts {o : Outcome} (hrs : ∀ r ∈ rs, l.ReservationOk r) (h : l.OutcomeOk rs o) :
    l.Accepts o.file := by
  intro found
  obtain ⟨r, hr, hslot, -⟩ := h.bound
  have hspec : l.spec o.slot = .ok r.spec := hslot ▸ (hrs r hr).spec
  obtain ⟨hlow, hhigh⟩ := l.spec_range hspec
  have hthree : o.slot.ordinal < 1000 := hhigh.trans_lt (l.count_lt _)
  have hrow : l.outcomeRow o.slot o.file = .ok o := by
    unfold outcomeRow
    have hread : l.read o.file (l.summaryLimit o.slot.kind) = .ok (.outcome o) := read_ok h.encoded
    simp [hspec, hread, Record.outcome?, h.schema, h.success]
  show (do
    Checked.require _ _
    let row ← l.outcomeRow o.slot o.file
    pure _) = _
  rw [Checked.require_bind, if_pos hthree, hrow]
  rfl

theorem LatchOk.accepts {x : Latch T} (hrs : ∀ r ∈ rs, l.ReservationOk r) (h : l.LatchOk rs x) :
    l.Accepts x.file := by
  intro found
  obtain ⟨r, hr, hslot, hdeadline, hlate⟩ := h.target
  have hnonneg : 0 ≤ x.deadline := hdeadline ▸ (hrs r hr).started.trans (hrs r hr).positive.le
  have hobserved : 0 ≤ x.observed_at := hnonneg.trans (hdeadline ▸ hlate)
  have hrow : l.latchRow x.file = .ok x := by
    unfold latchRow
    have hread : l.read x.file recordLimit = .ok (.latch x) := read_ok h.encoded
    simp [hread, Record.latch?, h.schema, h.run_id, h.code, hnonneg, hobserved]
  show (do
    let row ← l.latchRow x.file
    pure _) = _
  rw [hrow]
  rfl

theorem created_accepts {f : File T} (h : f ∈ l.created) : l.Accepts f := by
  intro found
  simp only [created, mem_cons, not_mem_nil, or_false] at h
  rcases h with rfl | rfl <;> rfl

theorem Sound.accepts (h : l.Sound rs os latch) {f : File T} (hf : f ∈ l.layout rs os latch) :
    l.Accepts f := by
  simp only [layout, mem_append, mem_map, Option.mem_toList] at hf
  rcases hf with ((hf | ⟨r, hr, rfl⟩) | ⟨o, ho, rfl⟩) | ⟨x, hx, rfl⟩
  · exact created_accepts hf
  · exact (h.reservations r hr).accepts
  · exact (h.outcomes o ho).accepts h.reservations
  · exact (h.latch x hx).accepts h.reservations

/-! ## The number of entries -/

/-- No more slots of a kind are reserved than there are. -/
theorem Sound.countOf_le (h : l.Sound rs os latch) (k : Kind) : countOf k rs ≤ l.count k := by
  rcases Nat.eq_zero_or_pos (countOf k rs) with hzero | hpos
  · omega
  · have hmem : countOf k rs ∈ (rs.filter fun r => r.slot.kind = k).map (fun r => r.slot.ordinal) := by
      rw [h.ordinals k, List.mem_range'_1]
      omega
    obtain ⟨r, hr, hordinal⟩ := mem_map.1 hmem
    obtain ⟨hr, hkind⟩ := mem_filter.1 hr
    have hrange := l.spec_range (h.reservations r hr).spec
    rw [hordinal, of_decide_eq_true hkind] at hrange
    exact hrange.2

omit [LinearOrder T] [Zero T] [Add T] in
/-- Every reservation is of one kind. -/
theorem length_eq_countOf (rs : List (Reservation T)) :
    rs.length = countOf .ready rs + countOf .models rs + countOf .post rs := by
  induction rs with
  | nil => rfl
  | cons r rs ih =>
    have hcons : ∀ k, countOf k (r :: rs) = countOf k rs + if r.slot.kind = k then 1 else 0 := by
      intro k
      simp [countOf, countP_cons]
    rw [hcons, hcons, hcons, length_cons, ih]
    cases r.slot.kind <;> simp <;> omega

/-- No more outcomes than reservations. -/
theorem Sound.length_outcomes_le (h : l.Sound rs os latch) : os.length ≤ rs.length := by
  have hsub : os.map Outcome.slot ⊆ rs.map Reservation.slot := by
    intro slot hslot
    obtain ⟨o, ho, rfl⟩ := mem_map.1 hslot
    obtain ⟨r, hr, hrslot, -⟩ := (h.outcomes o ho).bound
    exact mem_map.2 ⟨r, hr, hrslot⟩
  have hle := (h.once.subperm hsub).length_le
  simpa using hle

/-- The directory has at most the entries that the scan admits. -/
theorem Sound.length_layout_le (h : l.Sound rs os latch) :
    (l.layout rs os latch).length ≤ l.maximumEntries + latch.toList.length := by
  have hready : countOf .ready rs ≤ l.life.maximum_ready_polls := h.countOf_le .ready
  have hmodels : countOf .models rs ≤ 1 := h.countOf_le .models
  have hpost : countOf .post rs ≤ l.life.maximum_post_attempts := h.countOf_le .post
  have hlen := length_eq_countOf rs
  have hos := h.length_outcomes_le
  unfold layout maximumEntries
  simp only [created, length_append, length_cons, length_nil, length_map]
  omega

/-! ## The scan of a layout -/

section

omit [LinearOrder T] [Zero T] [Add T]

theorem filterMap_reservation (rs : List (Reservation T)) (os : List Outcome) (latch : Option (Latch T)) :
    (l.layout rs os latch).filterMap File.reservation? = rs := by
  have hrs : (rs.map Reservation.file).filterMap File.reservation? = rs := by
    rw [filterMap_map]
    exact filterMap_some
  have hos : (os.map (Outcome.file (T := T))).filterMap File.reservation? = [] := by
    rw [filterMap_map]
    exact filterMap_eq_nil_iff.2 fun o _ => rfl
  have hlatch : (latch.toList.map Latch.file).filterMap File.reservation? = [] := by
    cases latch <;> rfl
  simp only [layout, filterMap_append, hrs, hos, hlatch, append_nil]
  rfl

theorem filterMap_outcome (rs : List (Reservation T)) (os : List Outcome) (latch : Option (Latch T)) :
    (l.layout rs os latch).filterMap File.outcome? = os := by
  have hrs : (rs.map Reservation.file).filterMap File.outcome? = [] := by
    rw [filterMap_map]
    exact filterMap_eq_nil_iff.2 fun r _ => rfl
  have hos : (os.map (Outcome.file (T := T))).filterMap File.outcome? = os := by
    rw [filterMap_map]
    exact filterMap_some
  have hlatch : (latch.toList.map Latch.file).filterMap File.outcome? = [] := by
    cases latch <;> rfl
  simp only [layout, filterMap_append, hrs, hos, hlatch, append_nil]
  rfl

theorem filterMap_latch (rs : List (Reservation T)) (os : List Outcome) (latch : Option (Latch T)) :
    (l.layout rs os latch).filterMap File.latch? = latch.toList := by
  have hrs : (rs.map Reservation.file).filterMap File.latch? = [] := by
    rw [filterMap_map]
    exact filterMap_eq_nil_iff.2 fun r _ => rfl
  have hos : (os.map (Outcome.file (T := T))).filterMap File.latch? = [] := by
    rw [filterMap_map]
    exact filterMap_eq_nil_iff.2 fun o _ => rfl
  have hlatch : (latch.toList.map Latch.file).filterMap File.latch? = latch.toList := by
    cases latch <;> rfl
  simp only [layout, filterMap_append, hrs, hos, hlatch]
  rfl

/-- In rows with distinct slots, the row of a slot is the one that a lookup finds, in any order. -/
theorem reservation?_eq {found : Found T} (hperm : found.reservations.Perm rs)
    (hu : (rs.map Reservation.slot).Nodup) {r : Reservation T} (hr : r ∈ rs) :
    found.reservation? r.slot = some r := by
  have hu' : (found.reservations.map Reservation.slot).Nodup := (hperm.map _).nodup_iff.2 hu
  exact Table.lookup_of_mem hu' (hperm.mem_iff.2 hr)

end

/-- The scan of a layout of sound records, in any order of its entries, succeeds and finds the
records. -/
theorem Sound.scan (h : l.Sound rs os latch) {entries : List (File T)}
    (hperm : entries.Perm (l.layout rs os latch)) :
    ∃ found, l.scan entries = .ok found ∧ found.reservations.Perm rs ∧ found.outcomes.Perm os ∧
      found.late_latch = latch := by
  set found := entries.foldl Found.add ⟨[], [], none⟩ with hfound
  have hloop : l.scanEntries 1 ⟨[], [], none⟩ entries = .ok found := by
    refine l.scanEntries_of_accepts (fun f hf => h.accepts (hperm.mem_iff.1 hf)) ?_
    have hlen := h.length_layout_le
    rw [← hperm.length_eq] at hlen
    cases latch with
    | none =>
      simp only [Option.toList_none, length_nil] at hlen
      omega
    | some x =>
      have hx : ∃ f ∈ entries, f.name = .latch := by
        refine ⟨x.file, hperm.mem_iff.2 ?_, rfl⟩
        simp [layout]
      rw [if_pos (.inr hx)]
      simp only [Option.toList_some, length_singleton] at hlen
      omega
  have hrs : found.reservations.Perm rs := by
    rw [hfound, foldl_add_reservations, nil_append, ← filterMap_reservation rs os latch]
    exact hperm.filterMap _
  have hos : found.outcomes.Perm os := by
    rw [hfound, foldl_add_outcomes, nil_append, ← filterMap_outcome rs os latch]
    exact hperm.filterMap _
  have hlatch : found.late_latch = latch := by
    have hlist : entries.filterMap File.latch? = latch.toList := by
      have hp := hperm.filterMap File.latch?
      rw [filterMap_latch] at hp
      cases latch with
      | none => exact perm_nil.1 hp
      | some => exact perm_singleton.1 hp
    rw [hfound, foldl_add_late_latch, hlist]
    cases latch <;> rfl
  have hgapless : ∀ k ∈ kinds, gapless k found.reservations := by
    intro k _
    have hnumbers : ((found.reservations.filter fun r => r.slot.kind = k).map fun r => r.slot.ordinal).Perm
        (List.range' 1 (countOf k rs)) := by
      rw [← h.ordinals k]
      exact (hrs.filter _).map _
    have hsorted : (List.range' 1 (countOf k rs)).Pairwise (· ≤ ·) :=
      (pairwise_lt_range' ).imp fun hab => hab.le
    unfold gapless
    dsimp only
    rw [hnumbers.length_eq, length_range']
    exact ((perm_insertionSort _ _).trans hnumbers).eq_of_pairwise'
      (pairwise_insertionSort _ _) hsorted
  have hbound : ∀ o ∈ found.outcomes, l.bound found o := by
    intro o ho
    obtain ⟨r, hr, hslot, hdigest⟩ := (h.outcomes o (hos.mem_iff.1 ho)).bound
    unfold bound
    rw [← hslot, reservation?_eq hrs h.unique hr]
    simpa using hdigest
  have htarget : ∀ x ∈ found.late_latch, targeted found x := by
    intro x hx
    obtain ⟨r, hr, hslot, hdeadline, hlate⟩ := (h.latch x (hlatch ▸ hx)).target
    unfold targeted
    rw [← hslot, reservation?_eq hrs h.unique hr]
    simpa using ⟨hdeadline, hlate⟩
  have hbudget : wireBytes found.reservations ≤ l.life.maximum_response_wire_bytes ∧
      evidenceBytes found.reservations ≤ l.life.maximum_client_evidence_bytes := by
    rw [wireBytes_perm hrs, evidenceBytes_perm hrs]
    exact ⟨h.wire, h.evidence⟩
  refine ⟨found, ?_, hrs, hos, hlatch⟩
  unfold Ledger.scan
  rw [hloop]
  show (do
    Checked.require _ _
    Checked.require _ _
    Checked.require _ _
    Checked.require _ _
    pure found) = _
  rw [Checked.require_bind, if_pos hgapless, Checked.require_bind, if_pos hbound, Checked.require_bind,
    if_pos htarget, Checked.require_bind, if_pos hbudget]
  rfl

end Ledger

end StrixAlloy.FiniteLedger

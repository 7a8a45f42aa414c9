import Mathlib.Algebra.Group.Nat.Defs
import Mathlib.Data.List.Sort

/-!
# The schedule of page segments

`page_segment_scheduler.h`: `prepare` cuts each row of the table that an ID selects at the page boundary
inside it, sorts the pieces by their place in the table and notes where a page ends. `copyPages` then
moves the pieces of a page to the rows of the output.

The bytes of the table and of the output are functions of the offset from their base. Addresses are
64-bit words as natural numbers; the sums that may leave the word are checked by the source. How often a
call asks whether to stop is counted, since the phase answers.
-/

namespace StrixAlloy.PagePhase

open List

def rowBytes : ℕ := 160
def pageBytes : ℕ := 4096
def maxRows : ℕ := 131072

/-- `std::numeric_limits<std::uintptr_t>::max()`. -/
def addressMax : ℕ := 2^64 - 1

/-- Bytes by their offset. -/
abbrev Bytes := ℕ → UInt8

structure TableView where
  base : ℕ
  row_count : ℕ
  mapping_base : ℕ
  mapping_bytes : ℕ
  /-- What lies at the base. -/
  bytes : Bytes

structure OutputView where
  base : ℕ
  capacity_bytes : ℕ

/-- The span of IDs: its address, and what it holds. -/
structure Ids where
  data : ℕ
  ids : List ℤ

structure Policy where
  allow_page_order : Bool
  min_rows : ℕ
  max_rows : ℕ
  maxScratch_bytes : ℕ

/-- A piece of a row, which never spans pages of the table. -/
structure Segment where
  source_offset : ℕ
  destination_row : ℕ
  destination_byte : ℕ
  bytes : ℕ
deriving DecidableEq

/-- What a ready `Schedule` holds. -/
structure Plan where
  segments : List Segment
  page_starts : List ℕ
deriving DecidableEq

/-! ## Geometry -/

/-- The end of a region, where it is an address. -/
def endAddress (start size : ℕ) : Option ℕ :=
  if size > addressMax - start then none else some (start + size)

def overlap (a ae b be : ℕ) : Bool := a < be && b < ae

/-- The checks of `prepare` on the views, after its first question whether to stop. -/
def geometry (table : TableView) (output : OutputView) (ids : Ids) (policy : Policy) : Bool :=
  let rows := ids.ids.length
  rows ≤ maxRows && rows ≤ policy.max_rows && table.base ≠ 0 && table.mapping_base ≠ 0 &&
    output.base ≠ 0 && table.row_count ≠ 0 && table.row_count ≤ addressMax / rowBytes &&
    match endAddress table.mapping_base table.mapping_bytes,
      endAddress table.base (table.row_count * rowBytes),
      endAddress output.base (rows * rowBytes), endAddress output.base output.capacity_bytes,
      endAddress ids.data (rows * 8) with
    | some mapping_end, some table_end, some output_end, some capacity_end, some ids_end =>
      table.mapping_base ≤ table.base && table_end ≤ mapping_end &&
        rows * rowBytes ≤ output.capacity_bytes &&
        !overlap output.base capacity_end table.mapping_base mapping_end &&
        !overlap output.base output_end ids.data ids_end &&
        rows * 2 * 16 + (rows * 2 + 1) * 4 ≤ policy.maxScratch_bytes
    | _, _, _, _, _ => false

/-! ## The plan -/

/-- The bytes of a row of the table that lie in the page in which the row begins. -/
def firstBytes (table_begin source : ℕ) : ℕ :=
  min rowBytes (pageBytes - (table_begin + source) % pageBytes)

/-- The pieces of one row: one, or two where a page ends inside it. -/
def pieces (table_begin row id : ℕ) : List Segment :=
  let source := id * rowBytes
  let first := firstBytes table_begin source
  if first < rowBytes then
    [⟨source, row, 0, first⟩, ⟨source + first, row, first, rowBytes - first⟩]
  else [⟨source, row, 0, first⟩]

/-- The order of `std::sort`. No two pieces of a plan are equal in it, so that it does not matter how they
are sorted. -/
def Segment.before (a b : Segment) : Bool :=
  if a.source_offset ≠ b.source_offset then a.source_offset < b.source_offset
  else if a.bytes ≠ b.bytes then a.bytes < b.bytes
  else a.destination_row < b.destination_row

/-- The sorted pieces of all rows. -/
def segments (table_begin : ℕ) (ids : List ℤ) : List Segment :=
  (ids.zipIdx.flatMap fun (id, row) => pieces table_begin row id.toNat).insertionSort
    fun a b => b.before a = false

/-- The page of the table in which a piece lies. -/
def Segment.page (table_begin : ℕ) (s : Segment) : ℕ := (table_begin + s.source_offset) / pageBytes

/-- The pages that change from a piece to the next, with the index of each first piece. -/
def starts (table_begin : ℕ) : Option ℕ → ℕ → List Segment → List ℕ
  | _, _, [] => []
  | last, i, s :: rest =>
    if last = some (s.page table_begin) then starts table_begin last (i + 1) rest
    else i :: starts table_begin (some (s.page table_begin)) (i + 1) rest

/-- The plan for the IDs. -/
def plan (table_begin : ℕ) (ids : List ℤ) : Plan :=
  let pieces := segments table_begin ids
  { segments := pieces, page_starts := starts table_begin none 0 pieces ++ [pieces.length] }

/-- How often a loop over `n` entries asks whether to stop, at every 256th. -/
def questions (n : ℕ) : ℕ := (n + 255) / 256

/-- The ID is no row of the table. -/
def outside (table : TableView) (id : ℤ) : Bool := id < 0 || (table.row_count : ℤ) ≤ id

/-- How often `prepare` asks whether to stop, and what it ends with where no answer is yes: a plan, or
`fallback`. Whether the reservations fit is `allocated`. -/
def prepare (table : TableView) (output : OutputView) (ids : Ids) (policy : Policy) (allocated : Bool) :
    ℕ × Option Plan :=
  let rows := ids.ids.length
  if !policy.allow_page_order || rows < policy.min_rows || rows = 0 then (0, none)
  else if !geometry table output ids policy then (1, none)
  else
    let bad := ids.ids.findIdx (outside table)
    if bad < rows then (1 + (bad / 256 + 1), none)
    else if !allocated then (1 + questions rows, none)
    else
      let p := plan table.base ids.ids
      (1 + questions rows + questions rows + 1 + questions p.segments.length, some p)

/-- `pageCount` of a ready schedule. -/
def Plan.pageCount (p : Plan) : ℕ := p.page_starts.length - 1

/-! ## What a plan covers -/

/-- A piece of the row `row`, which is the row `id` of the table. -/
structure Segment.Of (s : Segment) (row id : ℕ) : Prop where
  destination : s.destination_row = row
  source : s.source_offset = id * rowBytes + s.destination_byte
  inside : s.destination_byte + s.bytes ≤ rowBytes

variable {j k table_begin : ℕ}

theorem of_mem_pieces {row id : ℕ} {s : Segment} (h : s ∈ pieces table_begin row id) : s.Of row id := by
  have hle : firstBytes table_begin (id * rowBytes) ≤ rowBytes := Nat.min_le_left _ _
  unfold pieces at h
  dsimp only at h
  split at h
  · rcases mem_cons.1 h with rfl | h
    · exact ⟨rfl, rfl, by simpa using hle⟩
    · obtain rfl := mem_singleton.1 h
      exact ⟨rfl, rfl, by dsimp only; omega⟩
  · obtain rfl := mem_singleton.1 h
    exact ⟨rfl, rfl, by simpa using hle⟩

/-- Every byte of a row is in a piece of it. -/
theorem exists_piece (table_begin row id : ℕ) (hk : k < rowBytes) :
    ∃ s ∈ pieces table_begin row id, s.destination_byte ≤ k ∧ k < s.destination_byte + s.bytes := by
  unfold pieces
  dsimp only
  split
  · by_cases h : k < firstBytes table_begin (id * rowBytes)
    · exact ⟨_, mem_cons_self, Nat.zero_le _, by simpa using h⟩
    · refine ⟨_, mem_cons_of_mem _ mem_cons_self, Nat.le_of_not_lt h, ?_⟩
      dsimp only
      omega
  · exact ⟨_, mem_cons_self, Nat.zero_le _, by dsimp only; omega⟩

variable {ids : List ℤ}

/-- The pieces of a plan are those of the rows. -/
theorem mem_segments {s : Segment} : s ∈ segments table_begin ids ↔
      ∃ row id, ids[row]? = some id ∧ s ∈ pieces table_begin row id.toNat := by
  unfold segments
  rw [mem_insertionSort, mem_flatMap]
  constructor
  · rintro ⟨⟨id, row⟩, hmem, hs⟩
    exact ⟨row, id, mem_zipIdx_iff_getElem?.1 hmem, hs⟩
  · rintro ⟨row, id, hid, hs⟩
    exact ⟨(id, row), mem_zipIdx_iff_getElem?.2 hid, hs⟩

/-! ## Pages -/

/-- An index from the first entry of a list up to its last lies between two entries in a row. -/
theorem exists_between {l : List ℕ} {first last : ℕ} (h : l.head? = some first) (hl : l.getLast? = some last)
    (hfirst : first ≤ j) (hlast : j < last) :
    ∃ p a b, l[p]? = some a ∧ l[p + 1]? = some b ∧ a ≤ j ∧ j < b := by
  induction l generalizing first with
  | nil => cases h
  | cons a l ih =>
    obtain rfl : a = first := by simpa using h
    cases l with
    | nil =>
      obtain rfl : a = last := by simpa using hl
      omega
    | cons b =>
      by_cases hb : j < b
      · exact ⟨0, a, b, rfl, rfl, hfirst, hb⟩
      · obtain ⟨p, c, d, hc, hd, hcj, hjd⟩ :=
          ih rfl (by simpa [List.getLast?_cons_cons] using hl) (Nat.le_of_not_lt hb)
        exact ⟨p + 1, c, d, by simpa using hc, by simpa using hd, hcj, hjd⟩

/-- The first piece begins a page. -/
theorem head?_starts (table_begin : ℕ) {l : List Segment} (h : l ≠ []) (i : ℕ) :
    (starts table_begin none i l).head? = some i := by
  cases l with
  | nil => exact absurd rfl h
  | cons => simp [starts]

/-- A page begins at a piece. -/
theorem lt_of_mem_starts {last : Option ℕ} {i : ℕ} {l : List Segment} (h : j ∈ starts table_begin last i l) :
    j < i + l.length := by
  induction l generalizing last i with
  | nil => cases h
  | cons s l ih =>
    rw [starts] at h
    rw [length_cons]
    split at h
    · have := ih h
      omega
    · rcases mem_cons.1 h with rfl | h
      · omega
      · have := ih h
        omega

/-- The pieces of a page: from the start of the page up to the next start. -/
def Plan.InPage (p : Plan) (page j : ℕ) : Prop :=
  ∃ a b, p.page_starts[page]? = some a ∧ p.page_starts[page + 1]? = some b ∧ a ≤ j ∧ j < b

/-- Every piece of a plan is in one of its pages. -/
theorem exists_page (h : j < (plan table_begin ids).segments.length) :
    ∃ page < (plan table_begin ids).pageCount, (plan table_begin ids).InPage page j := by
  have hne : segments table_begin ids ≠ [] := by
    intro e
    simp [plan, e] at h
  have hfirst : (plan table_begin ids).page_starts.head? = some 0 := by
    simp [plan, List.head?_append, head?_starts table_begin hne]
  have hlast : (plan table_begin ids).page_starts.getLast? = some (segments table_begin ids).length := by
    simp [plan]
  obtain ⟨page, a, b, ha, hb, haj, hjb⟩ := exists_between hfirst hlast (Nat.zero_le j) h
  refine ⟨page, ?_, a, b, ha, hb, haj, hjb⟩
  have := (List.getElem?_eq_some_iff.1 hb).1
  unfold Plan.pageCount
  omega

/-- A page ends within the pieces. -/
theorem page_end_le {page b : ℕ} (h : (plan table_begin ids).page_starts[page]? = some b) :
    b ≤ (plan table_begin ids).segments.length := by
  have hmem := mem_of_getElem? h
  rcases mem_append.1 hmem with hb | hb
  · have := lt_of_mem_starts hb
    change b ≤ (segments table_begin ids).length
    omega
  · exact Nat.le_of_eq (mem_singleton.1 hb)

/-! ## What a plan writes -/

/-- The byte that belongs at an offset of the output. -/
def target (table : Bytes) (ids : List ℤ) (a : ℕ) : UInt8 :=
  table (((ids[a / rowBytes]?).getD 0).toNat * rowBytes + a % rowBytes)

/-- The offset in the output at which a piece goes. -/
def Segment.start (s : Segment) : ℕ := s.destination_row * rowBytes + s.destination_byte

variable {output table : Bytes}

/-- What belongs at the place of a piece is the piece of the table. -/
theorem target_start {s : Segment} (h : s ∈ segments table_begin ids) (hk : k < s.bytes) :
    target table ids (s.start + k) = table (s.source_offset + k) := by
  obtain ⟨row, id, hid, hmem⟩ := mem_segments.1 h
  have hof := of_mem_pieces hmem
  have hin := hof.inside
  have hlt : s.destination_byte + k < rowBytes := by omega
  have hsum : s.start + k = s.destination_byte + k + rowBytes * s.destination_row := by
    unfold Segment.start
    rw [Nat.mul_comm]
    omega
  have hdiv : (s.start + k) / rowBytes = row := by
    rw [hsum, Nat.add_mul_div_left _ _ (by decide), Nat.div_eq_of_lt hlt, Nat.zero_add, hof.destination]
  have hmod : (s.start + k) % rowBytes = s.destination_byte + k := by
    rw [hsum, Nat.add_mul_mod_self_left, Nat.mod_eq_of_lt hlt]
  unfold target
  rw [hdiv, hmod, hid, hof.source, Option.getD_some, Nat.add_assoc]

/-- The output with a block of `n` bytes at `start`. -/
def move (output : Bytes) (start n : ℕ) (block : Bytes) : Bytes := fun a =>
  if start ≤ a ∧ a < start + n then block (a - start) else output a

/-- The bytes of a piece are where they belong. -/
def Segment.Written (table : Bytes) (ids : List ℤ) (output : Bytes) (s : Segment) : Prop :=
  ∀ k < s.bytes, output (s.start + k) = target table ids (s.start + k)

/-- A write of bytes that belong there leaves what was written. -/
theorem Segment.Written.move {s : Segment} (h : s.Written table ids output) {start n : ℕ} {block : Bytes}
    (hblock : ∀ k < n, block k = target table ids (start + k)) :
    s.Written table ids (move output start n block) := by
  intro k hk
  unfold PagePhase.move
  split
  case isTrue hin =>
    rw [hblock _ (by omega), Nat.add_sub_cancel' hin.1]
  case isFalse => exact h k hk

/-- A write of the bytes of a piece to its place writes the piece. -/
theorem written_move {s : Segment} {block : Bytes} (hblock : ∀ k < s.bytes, block k = target table ids (s.start + k)) :
    s.Written table ids (move output s.start s.bytes block) := by
  intro k hk
  unfold PagePhase.move
  rw [if_pos ⟨Nat.le_add_right _ _, by omega⟩, Nat.add_sub_cancel_left]
  exact hblock k hk

/-- Where every piece is written, each row of the output is the row of the table that its ID names. -/
theorem rows_of_written (table_begin : ℕ) (h : ∀ s ∈ segments table_begin ids, s.Written table ids output) {row : ℕ}
    {id : ℤ} (hid : ids[row]? = some id) (hk : k < rowBytes) :
    output (row * rowBytes + k) = table (id.toNat * rowBytes + k) := by
  obtain ⟨s, hs, hle, hlt⟩ := exists_piece table_begin row id.toNat hk
  have hof := of_mem_pieces hs
  have hmem := mem_segments.2 ⟨row, id, hid, hs⟩
  have hat : row * rowBytes + k = s.start + (k - s.destination_byte) := by
    unfold Segment.start
    rw [hof.destination]
    omega
  rw [hat, h s hmem _ (by omega), target_start hmem (by omega), hof.source]
  congr 1
  omega

end StrixAlloy.PagePhase

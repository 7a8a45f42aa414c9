import Mathlib.Algebra.Order.BigOperators.GroupWithZero.List
import Mathlib.Algebra.Order.Ring.Nat
import Mathlib.Data.List.Sort
import StrixAlloy.Lib.Faulty

/-!
# Descriptors of GGUF files

`inspectGguf`, which reads the metadata and the tensor extents of a file and no payload. The file is its bytes; the
position in it and the calls of `advance` are the state. A number of the format is unsigned except where its format
character says otherwise, and a float is its bits.
-/

namespace StrixAlloy.Gguf

open Faulty List

def MAX_HEADER : ℕ := 32 * 2 ^ 20

def MAX_NAME : ℕ := 64 * 2 ^ 10

def MAX_STRING : ℕ := 4 * 2 ^ 20

def MAX_COUNT : ℕ := 100000

def MAX_ARRAY : ℕ := 1000000

/-- The format characters of `struct`. -/
inductive Fmt where
  | B | b | H | h | I | i | f | Q | q | d
deriving DecidableEq

/-- `struct.calcsize`. -/
def Fmt.size : Fmt → ℕ
  | .B | .b => 1
  | .H | .h => 2
  | .I | .i | .f => 4
  | .Q | .q | .d => 8

def SCALARS : List (ℕ × Fmt) :=
  [(0, .B), (1, .b), (2, .H), (3, .h), (4, .I), (5, .i), (6, .f), (7, .B), (10, .Q), (11, .q), (12, .d)]

/-- The elements of a block and its bytes. -/
def BLOCKS : List (ℕ × ℕ × ℕ) :=
  [(0, 1, 4), (1, 1, 2), (2, 32, 18), (3, 32, 20), (6, 32, 22), (7, 32, 24), (8, 32, 34), (9, 32, 36),
    (10, 256, 84), (11, 256, 110), (12, 256, 144), (13, 256, 176), (14, 256, 210), (15, 256, 292), (16, 256, 66),
    (17, 256, 74), (18, 256, 98), (19, 256, 50), (20, 32, 18), (21, 256, 110), (22, 256, 82), (23, 256, 136),
    (24, 1, 1), (25, 1, 2), (26, 1, 4), (27, 1, 8), (28, 1, 8), (29, 256, 56), (30, 1, 2), (39, 32, 17),
    (40, 64, 18), (41, 256, 36)]

inductive Value where
  | bool (value : Bool)
  | int (value : ℤ)
  | float (fmt : Fmt) (bits : ℕ)
  | string (value : String)
  | array (array_type count : ℕ)
deriving DecidableEq

/-! ## The reader -/

abbrev File := List UInt8

structure Stream where
  position : ℕ := 0
  /-- How often `advance` was called. -/
  calls : ℕ := 0

abbrev Reader := Prog File Stream String

/-- `advance`. The sizes are never negative; what is passed over is not returned. -/
def advance (size : ℕ) (read : Bool) : Reader File := do
  Prog.modify fun s => { s with calls := s.calls + 1 }
  let s ← Prog.get
  let file ← Prog.ask fun file _ => file
  Prog.require (s.position + size ≤ min file.length MAX_HEADER) "truncated or over-limit descriptor"
  let data := (file.drop s.position).take size
  Prog.modify fun s => { s with position := s.position + size }
  Prog.require (read → data.length = size) "truncated descriptor"
  return if read then data else []

def littleEndian : File → ℕ
  | [] => 0
  | b :: bytes => b.toNat + 256 * littleEndian bytes

/-- The bits of a number. -/
def number (fmt : Fmt) : Reader ℕ := littleEndian <$> advance fmt.size true

def bytes (read : Bool) (limit : ℕ) : Reader File := do
  let length ← number .Q
  Prog.require (length ≤ limit) "string exceeds descriptor limit"
  advance length read

def string (limit : ℕ) : Reader String := do
  let data ← bytes true limit
  Prog.orRaise (String.fromUTF8? ⟨data.toArray⟩) "invalid UTF-8 descriptor"

def signed (fmt : Fmt) (bits : ℕ) : ℤ := if bits < 2 ^ (8 * fmt.size - 1) then bits else bits - 2 ^ (8 * fmt.size)

/-- `math.isfinite`: the exponent is not all ones. -/
def isfinite : Value → Bool
  | .float .f bits => bits / 2 ^ 23 % 2 ^ 8 ≠ 2 ^ 8 - 1
  | .float _ bits => bits / 2 ^ 52 % 2 ^ 11 ≠ 2 ^ 11 - 1
  | _ => true

def unpack (fmt : Fmt) (bits : ℕ) : Value :=
  match fmt with
  | .f | .d => .float fmt bits
  | .b | .h | .i | .q => .int (signed fmt bits)
  | .B | .H | .I | .Q => .int bits

/-- The strings of an array. -/
def skipStrings : ℕ → Reader Unit
  | 0 => pure ()
  | count + 1 => do
    let _ ← bytes false MAX_STRING
    skipStrings count

def array : Reader Value := do
  let subtype ← number .I
  let count ← number .Q
  Prog.require (count ≤ MAX_ARRAY ∧ ((SCALARS.lookup subtype).isSome ∨ subtype = 8))
    "invalid or excessive metadata array"
  match SCALARS.lookup subtype with
  | none => skipStrings count
  | some fmt =>
    let _ ← advance (count * fmt.size) false
  return .array subtype count

def value (kind : ℕ) : Reader Value :=
  match SCALARS.lookup kind with
  | some fmt => do
    let v := unpack fmt (← number fmt)
    if kind = 7 then
      Prog.require (v = .int 0 ∨ v = .int 1) "invalid boolean"
      return .bool (v = .int 1)
    Prog.require (isfinite v) "non-finite metadata"
    return v
  | none =>
    if kind = 8 then Value.string <$> string MAX_STRING
    else do
      Prog.require (kind = 9) "unsupported metadata type"
      array

/-! ## The descriptor -/

structure Tensor where
  name : String
  dimensions : List ℕ
  ggml_type : ℕ
  offset : ℕ
  size_bytes : ℕ

structure Inspection where
  size_bytes : ℕ
  metadata : List (String × Value)
  tensors : List Tensor
  descriptor_end : ℕ
  data_offset : ℕ

def readMetadata : ℕ → List (String × Value) → Reader (List (String × Value))
  | 0, metadata => pure metadata
  | count + 1, metadata => do
    let key ← string MAX_NAME
    Prog.require (key ≠ "" ∧ key ∉ metadata.map (·.1)) "empty or duplicate metadata key"
    let kind ← number .I
    let v ← value kind
    readMetadata count (metadata ++ [(key, v)])

/-- An alignment is a power of two. -/
def alignmentOf (metadata : List (String × Value)) : Option ℕ :=
  match metadata.lookup "general.alignment" with
  | none => some 32
  | some (.int n) => if 1 ≤ n ∧ n ≤ 2 ^ 20 ∧ n.toNat &&& (n.toNat - 1) = 0 then some n.toNat else none
  | some _ => none

def readDimensions : ℕ → Reader (List ℕ)
  | 0 => pure []
  | count + 1 => do
    let d ← number .Q
    let rest ← readDimensions count
    return d :: rest

def readTensor (alignment : ℕ) (names : List String) : Reader Tensor := do
  let name ← string MAX_NAME
  let count ← number .I
  Prog.require (name ≠ "" ∧ name ∉ names ∧ 1 ≤ count ∧ count ≤ 4) "invalid tensor name or dimension count"
  let dimensions ← readDimensions count
  let kind ← number .I
  let offset ← number .Q
  let (block, size) ← Prog.orRaise ((BLOCKS.lookup kind).filter fun _ => dimensions.all (· ≠ 0))
    "unsupported tensor storage or zero dimension"
  let elements := dimensions.prod
  Prog.require (dimensions.headD 0 % block = 0 ∧ elements ≤ 2 ^ 63 - 1 ∧ offset % alignment = 0)
    "invalid tensor shape or offset"
  return ⟨name, dimensions, kind, offset, elements / block * size⟩

def readTensors (alignment : ℕ) : ℕ → List Tensor → Reader (List Tensor)
  | 0, tensors => pure tensors
  | count + 1, tensors => do
    let tensor ← readTensor alignment (tensors.map (·.name))
    readTensors alignment count (tensors ++ [tensor])

/-- The loop over the sorted extents. -/
def fits (data_offset st_size : ℕ) : ℕ → List Tensor → Bool
  | _, [] => true
  | previous_end, t :: tensors =>
    previous_end ≤ t.offset && data_offset + (t.offset + t.size_bytes) ≤ st_size &&
      fits data_offset st_size (t.offset + t.size_bytes) tensors

/-- `inspectGguf`, of a file that is there. `changed` says whether the second `fstat` differs from the first. -/
def inspectGguf (changed : Bool) : Reader Inspection := do
  let magic ← advance 4 true
  Prog.require (magic = [0x47, 0x47, 0x55, 0x46]) "expected GGUF v3"
  let version ← number .I
  Prog.require (version = 3) "expected GGUF v3"
  let tensor_count ← number .Q
  let metadata_count ← number .Q
  Prog.require (tensor_count ≤ MAX_COUNT ∧ metadata_count ≤ MAX_COUNT) "descriptor count exceeds limit"
  let metadata ← readMetadata metadata_count []
  let alignment ← Prog.orRaise (alignmentOf metadata) "invalid alignment"
  let tensors ← readTensors alignment tensor_count []
  let s ← Prog.get
  let st_size ← Prog.ask fun file _ => file.length
  let data_offset := (s.position + alignment - 1) / alignment * alignment
  Prog.require (data_offset ≤ st_size) "truncated aligned header"
  Prog.require (fits data_offset st_size 0 (tensors.mergeSort (·.offset ≤ ·.offset)))
    "overlapping or truncated tensor extent"
  Prog.require (changed = false) "file changed during descriptor inspection"
  return ⟨st_size, metadata, tensors, s.position, data_offset⟩

/-! ## What is read -/

variable {file : File} {s : Stream}

/-- The reader is within the file and the limit, and each call took a byte, but for `spare` calls more. -/
structure Within (file : File) (spare : ℕ) (s : Stream) : Prop where
  position : s.position ≤ min file.length MAX_HEADER
  calls : s.calls + spare ≤ s.position

/-- The reader stopped within the file and the limit, at most one call ahead. -/
structure Stopped (file : File) (s : Stream) : Prop where
  position : s.position ≤ min file.length MAX_HEADER
  calls : s.calls ≤ s.position + 1

theorem Within.stopped {spare : ℕ} (h : Within file spare s) : Stopped file s := ⟨h.position, by have := h.calls; omega⟩

theorem Within.mono {spare spare' : ℕ} (h : Within file spare s) (hle : spare' ≤ spare) : Within file spare' s :=
  ⟨h.position, by have := h.calls; omega⟩

/-- It returns within the limits as `Q` demands, or raises within them. -/
abbrev Within.post {α : Type} (file : File) (Q : α → Prop) (spare : ℕ) : Post Stream String α :=
  ⟨fun a t => Within file spare t ∧ Q a, fun _ t => Stopped file t, fun _ => False⟩

/-- From any position within the limits. -/
def Safe {α : Type} (file : File) (m : Reader α) (Q : α → Prop) : Prop :=
  ∀ s, Within file 0 s → Ends file s m (Within.post file Q 0)

section Safe

variable {α β : Type} {m : Reader α} {f : α → Reader β} {Q : α → Prop} {R : β → Prop}

theorem Safe.bind (h : Safe file m Q) (hf : ∀ a, Q a → Safe file (f a) R) : Safe file (m >>= f) R :=
  fun s hs => Ends.seq (h s hs) (fun a t ha => hf a ha.2 t ha.1) (fun _ _ he => he) fun _ h => h

theorem Safe.pure {a : α} (h : Q a) : Safe file (pure a) Q := fun _ hs => Ends.pure ⟨hs, h⟩

theorem Safe.guard {p : Prop} [Decidable p] {e : String} {f : Unit → Reader β} (hf : p → Safe file (f ()) R) :
    Safe file (Prog.require p e >>= f) R :=
  fun s hs => Ends.guard hs.stopped fun hp => hf hp s hs

theorem Safe.found {v : Option α} {e : String} (hf : ∀ a, v = some a → Safe file (f a) R) :
    Safe file (Prog.orRaise v e >>= f) R :=
  fun s hs => Ends.found hs.stopped fun a ha => hf a ha s hs

/-- A call with what it may take ahead. -/
theorem advance_ends {size : ℕ} {read : Bool} (spare : ℕ) (h : s.position ≤ min file.length MAX_HEADER)
    (hc : s.calls + 1 + spare ≤ s.position + size) (hs : s.calls ≤ s.position) :
    Ends file s (advance size read) (Within.post file (fun _ => True) spare) := by
  refine Ends.bind (Ends.modify (Ends.look (Ends.answer fun _ => ?_)))
  refine Ends.guard ⟨h, Nat.succ_le_succ hs⟩ fun hle => Ends.bind (Ends.modify ?_)
  refine Ends.guard ⟨hle, ?_⟩ fun _ => Ends.pure ⟨⟨hle, hc⟩, trivial⟩
  show s.calls + 1 ≤ s.position + size + 1
  omega

/-- A number leaves a call to spare for what is empty. -/
theorem number_ends (fmt : Fmt) (h : Within file 0 s) :
    Ends file s (number fmt) (Within.post file (fun _ => True) (fmt.size - 1)) := by
  have hc := h.calls
  have hpos : 1 ≤ fmt.size := by cases fmt <;> decide
  exact Ends.seq (advance_ends _ h.position (by omega) hc) (fun _ _ ha => Ends.pure ⟨ha.1, trivial⟩) (fun _ _ he => he)
    fun _ h => h

theorem number_safe (fmt : Fmt) : Safe file (number fmt) fun _ => True := fun _ h =>
  Ends.mono (number_ends fmt h) (fun _ _ ha => ⟨ha.1.mono (Nat.zero_le _), trivial⟩) (fun _ _ he => he) fun _ h => h

/-- What follows a number may be empty. -/
theorem after_number {size : ℕ} {read : Bool} (h : Within file 1 s) :
    Ends file s (advance size read) (Within.post file (fun _ => True) 0) := by
  have hc := h.calls
  exact advance_ends _ h.position (by omega) (by omega)

theorem bytes_safe (read : Bool) (limit : ℕ) : Safe file (bytes read limit) fun _ => True := by
  intro s h
  refine Ends.seq (number_ends .Q h) (fun length t ha => ?_) (fun _ _ he => he) fun _ h => h
  exact Ends.guard ha.1.stopped fun _ => after_number (ha.1.mono (by decide))

theorem string_safe (limit : ℕ) : Safe file (string limit) fun _ => True :=
  (bytes_safe true limit).bind fun _ _ _ hs => Ends.orRaise (fun _ _ => ⟨hs, trivial⟩) fun _ => hs.stopped

theorem skipStrings_safe : ∀ count, Safe file (skipStrings count) fun _ => True
  | 0 => .pure trivial
  | count + 1 => (bytes_safe false MAX_STRING).bind fun _ _ => skipStrings_safe count

theorem array_safe : Safe file array fun _ => True := by
  refine (number_safe .I).bind fun subtype _ s h => ?_
  refine Ends.seq (number_ends .Q h) (fun count t ha => ?_) (fun _ _ he => he) fun _ h => h
  refine Ends.guard ha.1.stopped fun _ => ?_
  cases SCALARS.lookup subtype with
  | none => exact (skipStrings_safe count).bind (fun _ _ => .pure trivial) t (ha.1.mono (Nat.zero_le _))
  | some fmt =>
    exact Ends.seq (after_number (ha.1.mono (by decide))) (fun _ _ hb => Ends.pure ⟨hb.1, trivial⟩) (fun _ _ he => he)
      fun _ h => h

theorem value_safe (kind : ℕ) : Safe file (value kind) fun _ => True := by
  unfold value
  cases SCALARS.lookup kind with
  | some fmt =>
    refine (number_safe fmt).bind fun bits _ => ?_
    split_ifs
    · exact .guard fun _ => .pure trivial
    · exact .guard fun _ => .pure trivial
  | none =>
    dsimp only
    split_ifs
    · exact (string_safe MAX_STRING).bind fun _ _ => .pure trivial
    · exact .guard fun _ => array_safe

theorem readMetadata_safe : ∀ count metadata, Safe file (readMetadata count metadata) fun _ => True
  | 0, _ => .pure trivial
  | count + 1, _ => (string_safe MAX_NAME).bind fun _ _ => .guard fun _ => (number_safe .I).bind fun kind _ =>
    (value_safe kind).bind fun _ _ => readMetadata_safe count _

theorem readDimensions_safe : ∀ count, Safe file (readDimensions count) fun l => l.length = count
  | 0 => .pure rfl
  | count + 1 => (number_safe .Q).bind fun _ _ => (readDimensions_safe count).bind fun _ hl =>
    .pure (congrArg (· + 1) hl)

end Safe

/-! ## The tensors -/

theorem blocks_pos : ∀ b ∈ BLOCKS, 0 < b.2.1 ∧ 0 < b.2.2 := by decide

theorem mem_of_lookup {α : Type} {l : List (ℕ × α)} {k : ℕ} {a : α} (h : l.lookup k = some a) : (k, a) ∈ l := by
  obtain ⟨l₁, l₂, rfl, -⟩ := lookup_eq_some_iff.1 h
  exact mem_append_right _ mem_cons_self

/-- Whole blocks of positive dimensions are some bytes. -/
theorem readTensor_safe (alignment : ℕ) (names : List String) :
    Safe file (readTensor alignment names) fun t => t.name ∉ names ∧ 0 < t.size_bytes := by
  refine (string_safe MAX_NAME).bind fun name _ => (number_safe .I).bind fun count _ => .guard fun hname => ?_
  refine (readDimensions_safe count).bind fun dimensions hcount => (number_safe .I).bind fun kind _ => ?_
  refine (number_safe .Q).bind fun offset _ => .found fun block hblock => ?_
  obtain ⟨hlookup, hdimensions⟩ := Option.filter_eq_some_iff.1 hblock
  refine .guard fun hshape => .pure ⟨hname.2.1, ?_⟩
  obtain ⟨hb, hsize⟩ := blocks_pos _ (mem_of_lookup hlookup)
  have hpos : ∀ d ∈ dimensions, 0 < d := fun d hd =>
    Nat.pos_of_ne_zero (by simpa using all_eq_true.1 hdimensions d hd)
  cases dimensions with
  | nil => exact absurd (hcount.trans_ge hname.2.2.1) (by decide)
  | cons d rest =>
    have hd : block.1 ≤ d := Nat.le_of_dvd (hpos d mem_cons_self) (Nat.dvd_of_mod_eq_zero hshape.1)
    have hrest : 0 < rest.prod := prod_pos fun a ha => hpos a (mem_cons_of_mem d ha)
    refine Nat.mul_pos (Nat.div_pos ?_ hb) hsize
    rw [prod_cons]
    exact hd.trans (Nat.le_mul_of_pos_right d hrest)

/-- The tensors that were read have different names and are not empty. -/
structure Named (tensors : List Tensor) : Prop where
  names : (tensors.map (·.name)).Nodup
  sizes : ∀ t ∈ tensors, 0 < t.size_bytes

theorem readTensors_safe (alignment : ℕ) : ∀ count tensors, Named tensors →
    Safe file (readTensors alignment count tensors) Named
  | 0, _, h => .pure h
  | count + 1, tensors, h => (readTensor_safe alignment _).bind fun t ht => by
    refine readTensors_safe alignment count _ ⟨?_, ?_⟩
    · rw [map_append, map_singleton]
      exact nodup_append.2 ⟨h.names, nodup_singleton _, fun a ha b hb e =>
        ht.1 (mem_singleton.1 hb ▸ e ▸ ha)⟩
    · intro u hu
      rcases mem_append.1 hu with hu | hu
      · exact h.sizes u hu
      · exact mem_singleton.1 hu ▸ ht.2

/-- Two tensors have no byte in common. -/
def Apart (t u : Tensor) : Prop := t.offset + t.size_bytes ≤ u.offset ∨ u.offset + u.size_bytes ≤ t.offset

/-- Extents that follow one another. -/
theorem of_fits {data_offset st_size : ℕ} : ∀ {tensors : List Tensor} {previous_end : ℕ},
    fits data_offset st_size previous_end tensors →
    tensors.Pairwise Apart ∧ ∀ t ∈ tensors, previous_end ≤ t.offset ∧
      data_offset + (t.offset + t.size_bytes) ≤ st_size
  | [], _, _ => ⟨.nil, forall_mem_nil _⟩
  | t :: tensors, _, h => by
    simp only [fits, Bool.and_eq_true, decide_eq_true_eq] at h
    obtain ⟨hapart, hall⟩ := of_fits h.2
    refine ⟨pairwise_cons.2 ⟨fun u hu => .inl (hall u hu).1, hapart⟩, ?_⟩
    intro u hu
    rcases mem_cons.1 hu with rfl | hu
    · exact h.1
    · have := hall u hu
      omega

/-! ## The result -/

/-- The layout that an inspection returns. -/
structure Layout (file : File) (r : Inspection) : Prop where
  size : r.size_bytes = file.length
  named : Named r.tensors
  apart : r.tensors.Pairwise Apart
  inside : ∀ t ∈ r.tensors, r.data_offset + (t.offset + t.size_bytes) ≤ file.length
  data : r.descriptor_end ≤ r.data_offset ∧ r.data_offset ≤ file.length
  header : r.descriptor_end ≤ min file.length MAX_HEADER
  aligned : ∃ alignment, alignmentOf r.metadata = some alignment ∧ alignment ∣ r.data_offset

theorem alignmentOf_pos {metadata : List (String × Value)} {n : ℕ} (h : alignmentOf metadata = some n) : 0 < n := by
  unfold alignmentOf at h
  split at h
  · cases h
    decide
  · split_ifs at h with hn
    cases h
    omega
  · cases h

/-- Every file is refused or its layout is returned, after at most one call more than the bytes that were read. -/
theorem inspect_layout (file : File) (changed : Bool) :
    Ends file {} (inspectGguf changed)
      ⟨fun r s => Layout file r ∧ Stopped file s, fun _ s => Stopped file s, fun _ => False⟩ := by
  have hstart : ({} : Stream).position ≤ min file.length MAX_HEADER := Nat.zero_le _
  refine Ends.seq (advance_ends 0 hstart (by decide) le_rfl) (fun magic s hs => ?_) (fun _ _ he => he)
    fun _ h => h
  refine Ends.guard hs.1.stopped fun _ => ?_
  refine Ends.seq (number_safe .I _ hs.1) (fun version s hs => ?_) (fun _ _ he => he) fun _ h => h
  refine Ends.guard hs.1.stopped fun _ => ?_
  refine Ends.seq (number_safe .Q _ hs.1) (fun tensor_count s hs => ?_) (fun _ _ he => he) fun _ h => h
  refine Ends.seq (number_safe .Q _ hs.1) (fun metadata_count s hs => ?_) (fun _ _ he => he) fun _ h => h
  refine Ends.guard hs.1.stopped fun _ => ?_
  refine Ends.seq (readMetadata_safe metadata_count [] _ hs.1) (fun metadata s hs => ?_) (fun _ _ he => he) fun _ h => h
  refine Ends.found hs.1.stopped fun alignment halignment => ?_
  refine Ends.seq (readTensors_safe alignment tensor_count [] ⟨nodup_nil, forall_mem_nil _⟩ _ hs.1)
    (fun tensors s hs => ?_) (fun _ _ he => he) fun _ h => h
  obtain ⟨hs, hnamed⟩ := hs
  refine Ends.look (Ends.answer fun _ => ?_)
  refine Ends.guard hs.stopped fun hdata => Ends.guard hs.stopped fun hfits => Ends.guard hs.stopped fun _ => ?_
  have hpos := alignmentOf_pos halignment
  obtain ⟨hapart, hall⟩ := of_fits hfits
  have hperm := mergeSort_perm tensors (·.offset ≤ ·.offset)
  have hsymm : ∀ {t u : Tensor}, Apart t u → Apart u t := Or.symm
  have hround : s.position ≤ (s.position + alignment - 1) / alignment * alignment := by
    have := Nat.div_add_mod (s.position + alignment - 1) alignment
    have := Nat.mod_lt (s.position + alignment - 1) hpos
    rw [Nat.mul_comm]
    omega
  refine Ends.pure ⟨⟨rfl, hnamed, (hperm.pairwise_iff hsymm).1 hapart, ?_, ⟨hround, hdata⟩, hs.position,
    ⟨alignment, halignment, Nat.dvd_mul_left _ _⟩⟩, hs.stopped⟩
  exact fun t ht => (hall t (hperm.mem_iff.2 ht)).2

end StrixAlloy.Gguf

import Mathlib.Data.List.TakeWhile
import StrixAlloy.Lib.Json
import StrixAlloy.Lib.Runs

/-!
# The event stream decoder

`_SSEDecoder`: bytes arrive in chunks, lines end with LF, CRLF or CR, and a blank line ends an event. Only a line
that is complete is read; `line` holds the part of it that has arrived, and `skip_lf` says that a CR at the end of
a chunk may still be the first half of a CRLF.

A chunk is read as its bytes are, one after another (`feed_eq`), so the chunks do not matter.
-/

namespace StrixAlloy.ConsoleTrace

open List Runs

abbrev Bytes := List UInt8

def MAX_EVENT_BYTES : ℕ := 256 * 1024

def LF : UInt8 := 10

def CR : UInt8 := 13

/-- `json.loads`, which may refuse, and `bytes.decode('utf-8', errors='replace')`. -/
structure Codec where
  loads : Bytes → Option Json
  decode : Bytes → String

/-- What the decoder tells its trace. -/
inductive Emission
  | value (v : Json) (event : String)
  | finish_done
  | invalid_sse_json (stage : String)
  | sse_event_limit
  | incomplete_sse_event

/-- The decoder, with what it has told the trace. -/
structure Decoder where
  line : Bytes
  data : List Bytes
  event : String
  event_bytes : ℕ
  dropped : Bool
  line_dropped : Bool
  skip_lf : Bool
  first_line : Bool
  emitted : List Emission

def init : Decoder := ⟨[], [], "", 0, false, false, false, true, []⟩

def BOM : Bytes := [0xef, 0xbb, 0xbf]

/-- `bytes.strip()` -/
def strip (raw : Bytes) : Bytes :=
  let blank : UInt8 → Bool := fun b => b ∈ ([9, 10, 11, 12, 13, 32] : Bytes)
  ((raw.dropWhile blank).reverse.dropWhile blank).reverse

/-- `b'\n'.join(data)` -/
def joined (data : List Bytes) : Bytes := (data.intersperse [LF]).flatten

/-- The field name of a line, and its value without one leading blank. -/
def partition (line : Bytes) : Bytes × Bytes :=
  let value := (line.dropWhile (· ≠ 58)).drop 1
  (line.takeWhile (· ≠ 58), if value.head? = some 32 then value.drop 1 else value)

/-- `b'data'` and `b'event'` -/
def dataName : Bytes := [100, 97, 116, 97]

def eventName : Bytes := [101, 118, 101, 110, 116]

section

variable (C : Codec)

/-- `_dispatch`: what an event with these data lines is told as. -/
def dispatch (data : List Bytes) (event : String) : List Emission :=
  if data = [] then []
  else if strip (joined data) = [91, 68, 79, 78, 69, 93] then [.finish_done]
  else match C.loads (joined data) with
    | some v => [.value v event]
    | none => [.invalid_sse_json event]

namespace Decoder

/-- A part of a line arrives. -/
def extend (part : Bytes) (d : Decoder) : Decoder :=
  if ¬ d.dropped ∧ d.event_bytes + d.line.length + part.length > MAX_EVENT_BYTES then
    { d with
      dropped := true
      line_dropped := true
      line := []
      data := []
      emitted := d.emitted ++ [.sse_event_limit] }
  else if ¬ d.dropped then { d with line := d.line ++ part }
  else if part ≠ [] then { d with line_dropped := true }
  else d

/-- The field of a line is read. -/
def take (line : Bytes) (d : Decoder) : Decoder :=
  let d := { d with event_bytes := d.event_bytes + line.length + 1 }
  if (partition line).1 = dataName then { d with data := d.data ++ [(partition line).2] }
  else if (partition line).1 = eventName then { d with event := C.decode (partition line).2 }
  else d

/-- A blank line ends the event. -/
def blank (d : Decoder) : Decoder :=
  { d with
    emitted := if d.dropped then d.emitted else d.emitted ++ dispatch C d.data d.event
    data := []
    event := ""
    event_bytes := 0
    dropped := false }

/-- `_line` -/
def endLine (d : Decoder) : Decoder :=
  let line := if d.first_line ∧ BOM <+: d.line then d.line.drop 3 else d.line
  let d := { d with first_line := false }
  let d :=
    if line = [] ∧ ¬ d.line_dropped then d.blank C
    else if ¬ d.dropped then d.take C line
    else d
  { d with line := [], line_dropped := false }

/-- A byte inside a line. -/
def inside (b : UInt8) : Bool := b ≠ CR ∧ b ≠ LF

/-- What follows a line's end: the LF of a CRLF belongs to it. -/
def after (b : UInt8) (tail : Bytes) : Bytes := if b = CR ∧ tail.head? = some LF then tail.drop 1 else tail

theorem length_after_lt {rest tail : Bytes} {b : UInt8} (h : rest.dropWhile inside = b :: tail) :
    (after b tail).length < rest.length := by
  have hle := (dropWhile_sublist (l := rest) inside).length_le
  rw [h, length_cons] at hle
  have hafter : (after b tail).length ≤ tail.length := by
    unfold after
    split_ifs
    · rw [length_drop]
      exact Nat.sub_le ..
    · exact Nat.le_refl _
  omega

/-- The loop of `feed` over what is left of the chunk. -/
def feedRest (d : Decoder) (rest : Bytes) : Decoder :=
  if rest = [] then d
  else
    let d := d.extend (rest.takeWhile inside)
    match _h : rest.dropWhile inside with
    | [] => d
    | b :: tail =>
      let d := d.endLine C
      feedRest (if b = CR ∧ tail = [] then { d with skip_lf := true } else d) (after b tail)
termination_by rest.length
decreasing_by exact length_after_lt _h

def feed (d : Decoder) (chunk : Bytes) : Decoder :=
  if d.skip_lf ∧ chunk ≠ [] then
    feedRest C { d with skip_lf := false } (if chunk.head? = some LF then chunk.drop 1 else chunk)
  else feedRest C d chunk

/-- `finish` -/
def finish (d : Decoder) : Decoder :=
  if d.line ≠ [] ∨ d.data ≠ [] ∨ d.line_dropped then { d with emitted := d.emitted ++ [.incomplete_sse_event] } else d

/-- One byte. -/
def byte (d : Decoder) (b : UInt8) : Decoder :=
  if d.skip_lf ∧ b = LF then { d with skip_lf := false }
  else
    let d := { d with skip_lf := false }
    if b = CR then { (d.extend []).endLine C with skip_lf := true }
    else if b = LF then (d.extend []).endLine C
    else d.extend [b]

/-! ## Chunks -/

variable {C} {d : Decoder}

theorem skip_lf_extend (part : Bytes) : (d.extend part).skip_lf = d.skip_lf := by
  unfold extend
  split_ifs <;> rfl

theorem skip_lf_endLine : (d.endLine C).skip_lf = d.skip_lf := by
  unfold endLine blank take
  simp only
  split_ifs <;> rfl

/-- The decoder once the limit is passed. -/
def passed (d : Decoder) : Decoder :=
  { d with
    dropped := true
    line_dropped := true
    line := []
    data := []
    emitted := d.emitted ++ [.sse_event_limit] }

theorem extend_of_gt {p : Bytes} (hd : d.dropped = false)
    (h : d.event_bytes + d.line.length + p.length > MAX_EVENT_BYTES) : d.extend p = d.passed :=
  if_pos ⟨by simp [hd], h⟩

theorem extend_of_le {p : Bytes} (hd : d.dropped = false)
    (h : d.event_bytes + d.line.length + p.length ≤ MAX_EVENT_BYTES) :
    d.extend p = { d with line := d.line ++ p } := by
  unfold extend
  rw [if_neg fun hc => Nat.not_lt_of_le h hc.2, if_pos (by simp [hd])]

theorem extend_of_dropped {p : Bytes} (hd : d.dropped) :
    d.extend p = { d with line_dropped := d.line_dropped || p ≠ [] } := by
  unfold extend
  rw [if_neg fun hc => hc.1 hd, if_neg (not_not.2 hd)]
  cases p with
  | nil => simp
  | cons => simp

/-- Two parts arrive as one does. -/
theorem extend_append (p q : Bytes) : d.extend (p ++ q) = (d.extend p).extend q := by
  by_cases hd : d.dropped
  · rw [extend_of_dropped hd, extend_of_dropped hd]
    generalize hu : ({ d with line_dropped := d.line_dropped || p ≠ [] } : Decoder) = u
    have hdu : u.dropped := by rw [← hu]; exact hd
    rw [extend_of_dropped hdu, ← hu]
    cases p with
    | nil => simp
    | cons => simp
  have hd : d.dropped = false := Bool.eq_false_iff.2 hd
  by_cases hp : d.event_bytes + d.line.length + p.length > MAX_EVENT_BYTES
  · have hpq : d.event_bytes + d.line.length + (p ++ q).length > MAX_EVENT_BYTES := by
      rw [length_append]
      omega
    rw [extend_of_gt hd hp, extend_of_gt hd hpq, extend_of_dropped rfl]
    rfl
  · rw [extend_of_le hd (Nat.le_of_not_lt hp)]
    generalize hu : ({ d with line := d.line ++ p } : Decoder) = u
    have hdu : u.dropped = false := by rw [← hu]; exact hd
    have he : u.event_bytes + u.line.length + q.length = d.event_bytes + d.line.length + (p ++ q).length := by
      rw [← hu]
      simp only [length_append]
      omega
    by_cases hpq : d.event_bytes + d.line.length + (p ++ q).length > MAX_EVENT_BYTES
    · rw [extend_of_gt hd hpq, extend_of_gt hdu (by rw [he]; exact hpq), ← hu]
      rfl
    · have hle := Nat.le_of_not_lt hpq
      rw [extend_of_le hd hle, extend_of_le hdu (by rw [he]; exact hle), ← hu, ← append_assoc]

theorem extend_nil_extend (p : Bytes) : (d.extend p).extend [] = d.extend p := by
  rw [← extend_append, append_nil]

theorem byte_inside (hs : d.skip_lf = false) {b : UInt8} (hb : inside b) : d.byte C b = d.extend [b] := by
  unfold inside at hb
  simp only [ne_eq, Bool.decide_and, decide_not, Bool.and_eq_true, Bool.not_eq_true', decide_eq_false_iff_not] at hb
  unfold byte
  rw [if_neg (by simp [hs]), if_neg hb.1, if_neg hb.2, ← hs]

/-- The bytes of a line arrive as the part that they make up. -/
theorem foldl_inside (hs : d.skip_lf = false) {p : Bytes} (hp : ∀ b ∈ p, inside b) :
    (p.foldl (byte C) d).extend [] = d.extend p ∧ (p ≠ [] → p.foldl (byte C) d = d.extend p) := by
  induction p generalizing d with
  | nil => exact ⟨rfl, fun h => absurd rfl h⟩
  | cons b p ih =>
    have hb := byte_inside (C := C) hs (hp b (mem_cons_self ..))
    have hs' : (d.extend [b]).skip_lf = false := (skip_lf_extend _).trans hs
    obtain ⟨hnil, hne⟩ := ih hs' fun c hc => hp c (mem_cons_of_mem _ hc)
    have hall : d.extend (b :: p) = (d.extend [b]).extend p := extend_append [b] p
    rw [foldl_cons, hb, hall]
    refine ⟨hnil, fun _ => ?_⟩
    by_cases hp : p = []
    · rw [hp, foldl_nil, extend_nil_extend]
    · exact hne hp

theorem byte_skip_LF : ({ d with skip_lf := true } : Decoder).byte C LF = { d with skip_lf := false } :=
  if_pos ⟨rfl, rfl⟩

theorem byte_skip {c : UInt8} (hc : c ≠ LF) (b : Bool) :
    ({ d with skip_lf := b } : Decoder).byte C c = d.byte C c := by
  unfold byte
  simp only [hc, and_false, if_false]

/-- The loop reads the bytes one after another. -/
theorem feedRest_eq {d : Decoder} (rest : Bytes) (hs : d.skip_lf = false) :
    feedRest C d rest = rest.foldl (byte C) d := by
  rw [feedRest]
  split_ifs with hrest
  · rw [hrest]
    rfl
  have hsplit := takeWhile_append_dropWhile (p := inside) (l := rest)
  have hp : ∀ b ∈ rest.takeWhile inside, inside b := fun b hb => mem_takeWhile_imp hb
  obtain ⟨hnil, hne⟩ := foldl_inside (C := C) hs hp
  simp only
  split
  · rename_i h
    rw [h, append_nil] at hsplit
    rw [hsplit] at hne ⊢
    exact (hne hrest).symm
  · rename_i b tail h
    have hlt := length_after_lt h
    have hb : inside b = false := by
      have hhead := List.head?_dropWhile_not inside rest
      rw [h] at hhead
      simpa using hhead
    have hs2 : ((d.extend (rest.takeWhile inside)).endLine C).skip_lf = false :=
      skip_lf_endLine.trans ((skip_lf_extend _).trans hs)
    have hfold : rest.foldl (byte C) d =
      tail.foldl (byte C) ((List.foldl (byte C) d (rest.takeWhile inside)).byte C b) := by
      conv_lhs => rw [← hsplit, h]
      rw [foldl_append, foldl_cons]
    have hskip : (List.foldl (byte C) d (rest.takeWhile inside)).skip_lf = false := by
      rw [← skip_lf_extend (d := List.foldl (byte C) d (rest.takeWhile inside)) [], hnil]
      exact (skip_lf_extend _).trans hs
    rw [hfold]
    generalize List.foldl (byte C) d (rest.takeWhile inside) = x at *
    have hx : ({ x with skip_lf := false } : Decoder) = x := by rw [← hskip]
    by_cases hcr : b = CR
    · subst hcr
      have hbyte : x.byte C CR = { (d.extend (rest.takeWhile inside)).endLine C with skip_lf := true } := by
        unfold byte
        rw [if_neg (by simp [hskip]), if_pos rfl, hx, hnil]
      rw [hbyte]
      generalize (d.extend (rest.takeWhile inside)).endLine C = y at *
      have hy : ({ y with skip_lf := false } : Decoder) = y := by rw [← hs2]
      cases tail with
      | nil =>
        rw [if_pos ⟨rfl, rfl⟩]
        show feedRest C { y with skip_lf := true } [] = _
        rw [feedRest]
        rfl
      | cons c t =>
        rw [if_neg (fun h => cons_ne_nil _ _ h.2)]
        by_cases hc : c = LF
        · subst hc
          have hafter : after CR (LF :: t) = t := rfl
          rw [hafter, foldl_cons, byte_skip_LF, hy]
          exact feedRest_eq t hs2
        · have hafter : after CR (c :: t) = c :: t := by
            unfold after
            rw [if_neg]
            rintro ⟨-, h⟩
            exact hc (Option.some.inj h)
          rw [hafter, foldl_cons, byte_skip hc, ← foldl_cons]
          exact feedRest_eq (c :: t) hs2
    · have hlf : b = LF := by
        by_contra hne
        unfold inside at hb
        simp [hcr, hne] at hb
      subst hlf
      have hbyte : x.byte C LF = (d.extend (rest.takeWhile inside)).endLine C := by
        unfold byte
        rw [if_neg (by simp [hskip]), if_neg hcr, if_pos rfl, hx, hnil]
      have hafter : after LF tail = tail := if_neg fun h => hcr h.1
      rw [hbyte, if_neg fun h => hcr h.1, hafter]
      exact feedRest_eq tail hs2
termination_by rest.length
decreasing_by
  all_goals
    simp_all only [length_cons]
    try omega

/-- A chunk is read as its bytes are. -/
theorem feed_eq (chunk : Bytes) : d.feed C chunk = chunk.foldl (byte C) d := by
  unfold feed
  by_cases hs : d.skip_lf
  · cases chunk with
    | nil =>
      rw [if_neg fun h => h.2 rfl, feedRest]
      rfl
    | cons b tail =>
      rw [if_pos ⟨hs, cons_ne_nil _ _⟩, feedRest_eq _ rfl]
      by_cases hb : b = LF
      · subst hb
        have hstep : d.byte C LF = { d with skip_lf := false } := if_pos ⟨hs, rfl⟩
        rw [foldl_cons, hstep]
        rfl
      · have hhead : (b :: tail).head? ≠ some LF := fun h => hb (Option.some.inj h)
        rw [if_neg hhead, foldl_cons, foldl_cons]
        rw [byte_skip hb]
  · rw [if_neg fun h => hs h.1]
    exact feedRest_eq chunk (Bool.eq_false_iff.2 hs)

/-- Chunks are read as the bytes that they make up. -/
theorem run_feed (chunks : List Bytes) : run (feed C) d chunks = chunks.flatten.foldl (byte C) d := by
  induction chunks generalizing d with
  | nil => rfl
  | cons c cs ih => rw [run_cons, ih, feed_eq, flatten_cons, foldl_append]

end Decoder

end

/-- Two ways of splitting one stream into chunks tell the trace the same, also after its end. -/
theorem chunks_agree (C : Codec) (cs ds : List Bytes) (h : cs.flatten = ds.flatten) :
    run (Decoder.feed C) init cs = run (Decoder.feed C) init ds ∧
      (run (Decoder.feed C) init cs).finish.emitted = (run (Decoder.feed C) init ds).finish.emitted := by
  have he : run (Decoder.feed C) init cs = run (Decoder.feed C) init ds := by
    rw [Decoder.run_feed, Decoder.run_feed, h]
  exact ⟨he, congrArg (fun d => d.finish.emitted) he⟩

/-- The line `data:1` and a blank one, with the second CRLF split. -/
theorem chunks_agree_crlf :
    let C : Codec := ⟨fun _ => some .null, fun _ => ""⟩
    run (Decoder.feed C) init [[100, 97, 116, 97, 58, 49, 13, 10, 13], [10]] =
      run (Decoder.feed C) init [[100, 97, 116, 97, 58, 49, 13, 10, 13, 10]] :=
  (chunks_agree _ _ _ (by decide)).1

/-! ## What is held -/

namespace Decoder

variable {C : Codec} {d : Decoder} {n : ℕ}

/-- What is held of the event, with the ends of its lines, fits into `n` bytes, and nothing is once it is dropped. -/
structure Holds (n : ℕ) (d : Decoder) : Prop where
  dropped : d.dropped → d.line = [] ∧ d.data = []
  limit : d.dropped = false → d.event_bytes + d.line.length ≤ n
  data : (d.data.map fun l => l.length + 1).sum ≤ d.event_bytes

theorem Holds.extend (h : d.Holds n) (p : Bytes) : (d.extend p).Holds MAX_EVENT_BYTES := by
  by_cases hd : d.dropped
  · rw [extend_of_dropped hd]
    exact ⟨h.dropped, fun hn => absurd hd (Bool.eq_false_iff.1 hn), h.data⟩
  have hd := Bool.eq_false_iff.2 hd
  by_cases hp : d.event_bytes + d.line.length + p.length > MAX_EVENT_BYTES
  · rw [extend_of_gt hd hp]
    exact ⟨fun _ => ⟨rfl, rfl⟩, fun hn => Bool.noConfusion hn, Nat.zero_le _⟩
  · rw [extend_of_le hd (Nat.le_of_not_lt hp)]
    refine ⟨fun hn => absurd hn (Bool.eq_false_iff.1 hd), fun _ => ?_, h.data⟩
    show d.event_bytes + (d.line ++ p).length ≤ MAX_EVENT_BYTES
    rw [length_append]
    omega

theorem length_partition_le (line : Bytes) : (partition line).2.length ≤ line.length := by
  have hle := (dropWhile_sublist (l := line) (· ≠ 58)).length_le
  unfold partition
  dsimp only
  split_ifs <;> simp only [length_drop] <;> omega

theorem Holds.take (h : d.Holds n) (hd : d.dropped = false) {line : Bytes} (hline : line.length ≤ d.line.length)
    (dropped : Bool) : ({ d.take C line with line := [], line_dropped := dropped } : Decoder).Holds (n + 1) := by
  have hlimit := h.limit hd
  have hdata := h.data
  have hvalue := length_partition_le line
  unfold Decoder.take
  split_ifs
  all_goals refine ⟨fun hn => absurd hn (Bool.eq_false_iff.1 hd), fun _ => ?_, ?_⟩
  all_goals simp only [length_nil, map_append, sum_append, map_singleton, sum_singleton]
  all_goals omega

theorem Holds.endLine (h : d.Holds n) : (d.endLine C).Holds (n + 1) := by
  obtain ⟨line, hl⟩ : ∃ line, (if d.first_line ∧ BOM <+: d.line then d.line.drop 3 else d.line) = line := ⟨_, rfl⟩
  have hline : line.length ≤ d.line.length := by
    rw [← hl]
    split_ifs
    · exact length_drop ▸ Nat.sub_le ..
    · exact Nat.le_refl _
  unfold Decoder.endLine
  dsimp only
  rw [hl]
  split_ifs with hblank hd
  · exact ⟨fun _ => ⟨rfl, rfl⟩, fun _ => Nat.zero_le _, Nat.zero_le _⟩
  · exact ⟨fun _ => ⟨rfl, (h.dropped hd).2⟩, fun hn => absurd hd (Bool.eq_false_iff.1 hn), h.data⟩
  · exact Holds.take (d := { d with first_line := false }) ⟨h.dropped, h.limit, h.data⟩ (Bool.eq_false_iff.2 hd) hline _

theorem Holds.byte (h : d.Holds (MAX_EVENT_BYTES + 1)) (b : UInt8) : (d.byte C b).Holds (MAX_EVENT_BYTES + 1) := by
  have hs : ({ d with skip_lf := false } : Decoder).Holds (MAX_EVENT_BYTES + 1) := ⟨h.dropped, h.limit, h.data⟩
  have hend := (hs.extend []).endLine (C := C)
  unfold Decoder.byte
  split_ifs
  · exact hs
  · exact ⟨hend.dropped, hend.limit, hend.data⟩
  · exact hend
  · have hpart := hs.extend [b]
    exact ⟨hpart.dropped, fun hd => (hpart.limit hd).trans (Nat.le_succ _), hpart.data⟩

end Decoder

/-- Whatever arrives, in whatever chunks, what is held of an event fits into the limit and the end of one line, and
nothing is held of an event that is dropped. -/
theorem held_bounded (C : Codec) (chunks : List Bytes) :
    let d := run (Decoder.feed C) init chunks
    d.line.length + (d.data.map fun l => l.length + 1).sum ≤ MAX_EVENT_BYTES + 1 ∧
      (d.dropped → d.line = [] ∧ d.data = []) := by
  intro d
  have h : d.Holds (MAX_EVENT_BYTES + 1) := by
    show (run (Decoder.feed C) init chunks).Holds _
    rw [Decoder.run_feed]
    exact run_invariant (fun _ b hd => hd.byte b) chunks.flatten
      ⟨fun _ => ⟨rfl, rfl⟩, fun _ => Nat.zero_le _, Nat.zero_le _⟩
  refine ⟨?_, h.dropped⟩
  cases hd : d.dropped with
  | false =>
    have := h.limit hd
    have := h.data
    omega
  | true =>
    rw [(h.dropped hd).1, (h.dropped hd).2]
    exact Nat.zero_le _

end StrixAlloy.ConsoleTrace

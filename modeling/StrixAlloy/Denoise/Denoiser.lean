import Mathlib.Algebra.Order.Group.Nat
import StrixAlloy.Lib.Runs

/-!
# The streaming denoiser

`StreamingPCM16Denoiser` keeps the received samples in `raw` until cleaned ones are committed in their place, and
falls back to what is left of `raw` on any failure. The resamplers and the backend are code outside: they may return
any frames, or raise, at any call.

`committed` and `pushed` are history: how many cleaned samples were committed, and which samples were taken in.
-/

namespace StrixAlloy.Denoise

open List

/-- Samples of 10 ms for the backend. -/
def RN_FRAME : ℕ := 480

/-- `CHUNK_BYTES`, `DELAY_SAMPLES` and `MAX_PENDING_SAMPLES`, in samples. -/
def CHUNK : ℕ := 320
def DELAY_SAMPLES : ℕ := 320
def MAX_PENDING_SAMPLES : ℕ := 1600

/-- A frame that the second resampler returns; `pcm16` tells whether it is mono PCM16 at the rate of the input. -/
structure Frame where
  pcm16 : Bool
  pcm : List Int16

/-- The code outside, on a state `σ` of its own: the two resamplers, which are drained by `none`, and the backend.
Samples at the backend's rate are a `φ`, and a cleaned frame is a `ψ`. An exception is `none`; `close` tells whether
it raises. -/
structure Backend (σ φ ψ : Type) where
  up : σ → Option (List Int16) → Option (List (List φ)) × σ
  process : σ → List φ → Option ψ × σ
  down : σ → Option ψ → Option (List Frame) × σ
  close : σ → Bool × σ
  silence : φ

structure Denoiser (σ φ : Type) where
  world : σ
  active : Bool
  raw : List Int16
  clean : List Int16
  work : List φ
  skip : ℕ
  input_samples : ℕ
  output_samples : ℕ
  max_pending_samples : ℕ
  fallback_reason : Option String
  closed : Bool
  committed : ℕ
  pushed : List Int16

/-- Pieces of `n` elements, the last one of what is left; `k` bounds their number. -/
def piecesAux {α : Type} (n : ℕ) : ℕ → List α → List (List α)
  | 0, _ => []
  | k + 1, xs => if xs = [] then [] else xs.take n :: piecesAux n k (xs.drop n)

/-- The pieces that `range(0, len(xs), n)` cuts. -/
def pieces {α : Type} (n : ℕ) (xs : List α) : List (List α) := piecesAux n xs.length xs

theorem piecesAux_spec {α : Type} {n : ℕ} (hn : 0 < n) (k : ℕ) (xs : List α) (hk : xs.length ≤ k) :
    (piecesAux n k xs).flatten = xs ∧ ∀ piece ∈ piecesAux n k xs, piece.length ≤ n := by
  induction k generalizing xs with
  | zero =>
    have hnil : xs = [] := eq_nil_of_length_eq_zero (by omega)
    rw [hnil]
    exact ⟨rfl, nofun⟩
  | succ k ih =>
    unfold piecesAux
    split_ifs with hnil
    · rw [hnil]
      exact ⟨rfl, nofun⟩
    · have hpos : 0 < xs.length := length_pos_iff.2 hnil
      obtain ⟨h1, h2⟩ := ih (xs.drop n) (by rw [length_drop]; omega)
      refine ⟨by rw [flatten_cons, h1, take_append_drop], fun piece hmem => ?_⟩
      rcases mem_cons.1 hmem with rfl | hmem
      · exact length_take_le ..
      · exact h2 piece hmem

/-- The pieces are short, and together the list. -/
theorem pieces_spec {α : Type} {n : ℕ} (hn : 0 < n) (xs : List α) :
    (pieces n xs).flatten = xs ∧ ∀ piece ∈ pieces n xs, piece.length ≤ n :=
  piecesAux_spec hn xs.length xs le_rfl

namespace Denoiser

variable {σ φ ψ : Type} (b : Backend σ φ ψ)

/-- The constructor; the backend or a resampler may be unavailable. -/
def init (world : σ) (available : Bool) : Denoiser σ φ where
  world := world
  active := available
  raw := []
  clean := []
  work := []
  skip := DELAY_SAMPLES
  input_samples := 0
  output_samples := 0
  max_pending_samples := 0
  fallback_reason := if available then none else some "unavailable"
  closed := false
  committed := 0
  pushed := []

/-- `_release`; whether it returns, and the denoiser. -/
def release (d : Denoiser σ φ) : Bool × Denoiser σ φ :=
  if d.active then (!(b.close d.world).1, { d with active := false, world := (b.close d.world).2 }) else (true, d)

/-- `_chunks`, of samples that are taken in as they are. -/
def chunks (pcm : List Int16) (d : Denoiser σ φ) : List (List Int16) × Denoiser σ φ :=
  (pieces CHUNK pcm, { d with output_samples := d.output_samples + pcm.length })

/-- `_commit`, with as many rounds as the loop may take. -/
def commitLoop (final : Bool) : ℕ → Denoiser σ φ → List (List Int16) × Denoiser σ φ
  | 0, d => ([], d)
  | k + 1, d =>
    if CHUNK ≤ d.clean.length ∨ final ∧ d.clean ≠ [] then
      let size := min CHUNK d.clean.length
      let (result, d') := commitLoop final k
        { d with
          clean := d.clean.drop size
          raw := d.raw.drop size
          output_samples := d.output_samples + size
          committed := d.committed + size }
      (d.clean.take size :: result, d')
    else ([], d)

def commit (final : Bool) (d : Denoiser σ φ) : List (List Int16) × Denoiser σ φ :=
  commitLoop final d.clean.length d

/-- `_fallback`; without a result where it raises. -/
def fallback (reason : String) (d : Denoiser σ φ) : Option (List (List Int16)) × Denoiser σ φ :=
  let (ok, d) := release b { d with fallback_reason := some reason }
  if ok then
    let (result, d) := { d with clean := [], work := [] }.chunks d.raw
    (some result, { d with raw := [] })
  else (none, d)

/-- `_accept`; false where it raises. -/
def accept (frame : Frame) (final : Bool) (d : Denoiser σ φ) : Bool × Denoiser σ φ :=
  if ¬ frame.pcm16 then (false, d)
  else
    let skip := min d.skip frame.pcm.length
    let pcm := frame.pcm.drop skip
    let remaining := d.raw.length - d.clean.length
    let d := { d with skip := d.skip - skip }
    if remaining < pcm.length ∧ final = false then (false, d)
    else (true, { d with clean := d.clean ++ pcm.take remaining })

def acceptAll (final : Bool) : List Frame → Denoiser σ φ → Bool × Denoiser σ φ
  | [], d => (true, d)
  | frame :: frames, d =>
    let (ok, d) := d.accept frame final
    if ok then acceptAll final frames d else (false, d)

/-- `_process_frames`, with as many rounds as there are whole frames. -/
def processFrames (final : Bool) : ℕ → Denoiser σ φ → Bool × Denoiser σ φ
  | 0, d => (true, d)
  | k + 1, d =>
    match b.process d.world (d.work.take RN_FRAME) with
    | (none, world) => (false, { d with world, work := d.work.drop RN_FRAME })
    | (some cleaned, world) =>
      match b.down world (some cleaned) with
      | (none, world) => (false, { d with world, work := d.work.drop RN_FRAME })
      | (some frames, world) =>
        let (ok, d) := acceptAll final frames { d with world, work := d.work.drop RN_FRAME }
        if ok then processFrames final k d else (false, d)

/-- `_push`. -/
def push (pcm : List Int16) (d : Denoiser σ φ) : Bool × Denoiser σ φ :=
  match b.up d.world (some pcm) with
  | (none, world) => (false, { d with world })
  | (some frames, world) =>
    let d := { d with world, work := d.work ++ frames.flatten }
    d.processFrames b false (d.work.length / RN_FRAME)

/-- A part that is taken into `raw`. -/
def hold (part : List Int16) (d : Denoiser σ φ) : Denoiser σ φ :=
  { d with
    raw := d.raw ++ part
    pushed := d.pushed ++ part
    max_pending_samples := max d.max_pending_samples (d.raw ++ part).length }

/-- A part that is returned as it is. -/
def pass (pcm : List Int16) (d : Denoiser σ φ) : List (List Int16) × Denoiser σ φ :=
  { d with pushed := d.pushed ++ pcm }.chunks pcm

/-- A failure in the middle of a feed: what is left of `raw`, and then the rest of the feed. -/
def surrender (reason : String) (rest : List Int16) (d : Denoiser σ φ) :
    Option (List (List Int16)) × Denoiser σ φ :=
  match d.fallback b reason with
  | (none, d) => (none, d)
  | (some result, d) =>
    let (more, d) := d.pass rest
    (some (result ++ more), d)

/-- The loop of `feed`. -/
def feedParts : List (List Int16) → Denoiser σ φ → Option (List (List Int16)) × Denoiser σ φ
  | [], d => (some [], d)
  | part :: parts, d =>
    if MAX_PENDING_SAMPLES < d.raw.length + part.length then
      d.surrender b "buffer_limit" (part ++ parts.flatten)
    else
      match (d.hold part).push b part with
      | (false, d) => d.surrender b "runtime_error" parts.flatten
      | (true, d) =>
        let (output, d) := d.commit true
        match feedParts parts d with
        | (none, d) => (none, d)
        | (some more, d) => (some (output ++ more), d)

/-- `feed` of whole samples; without a result where it raises. -/
def feed (pcm : List Int16) (d : Denoiser σ φ) : Option (List (List Int16)) × Denoiser σ φ :=
  if d.closed then (none, d)
  else
    let d := { d with input_samples := d.input_samples + pcm.length }
    if ¬ d.active then
      let (result, d) := d.pass pcm
      (some result, d)
    else d.feedParts b (pieces CHUNK pcm)

/-- The drain of both resamplers, up to the last frame. -/
def drain (d : Denoiser σ φ) : Bool × Denoiser σ φ :=
  match b.up d.world none with
  | (none, world) => (false, { d with world })
  | (some frames, world) =>
    let work := d.work ++ frames.flatten
    let missing := (RN_FRAME - work.length % RN_FRAME) % RN_FRAME
    let d := { d with world, work := work ++ List.replicate (missing + RN_FRAME * 2) b.silence }
    let (ok, d) := d.processFrames b true (d.work.length / RN_FRAME)
    if ok then
      match b.down d.world none with
      | (none, world) => (false, { d with world })
      | (some frames, world) => acceptAll true frames { d with world }
    else (false, d)

/-- The output of `finish`, before the denoiser is closed. -/
def flush (d : Denoiser σ φ) : Option (List (List Int16)) × Denoiser σ φ :=
  if d.active ∧ d.raw ≠ [] then
    match d.drain b with
    | (false, d) => d.fallback b "runtime_error"
    | (true, d) =>
      let (output, d) := d.commit true
      if d.raw = [] then (some output, d)
      else
        match d.fallback b "short_output" with
        | (some result, d) => (some (output ++ result), d)
        | (none, d) =>
          match d.fallback b "runtime_error" with
          | (some result, d) => (some (output ++ result), d)
          | (none, d) => (none, d)
  else (some [], d)

/-- `close`; false where it raises. -/
def close (d : Denoiser σ φ) : Bool × Denoiser σ φ :=
  let (ok, d) := release b { d with closed := true }
  if ok then (true, { d with raw := [], clean := [], work := [] }) else (false, d)

/-- `finish`; without a result where it raises. -/
def finish (d : Denoiser σ φ) : Option (List (List Int16)) × Denoiser σ φ :=
  if d.closed then (some [], d)
  else
    match d.flush b with
    | (none, d) => (none, d)
    | (some output, d) =>
      let (ok, d) := d.close b
      if ok then (some output, d) else (none, d)

/-! ## What the parts of a call keep -/

/-- What the resamplers and the backend may change: their own state, the work, the skip, and the cleaned samples that
wait, of which there are never more than raw ones. -/
structure Quiet (d d' : Denoiser σ φ) : Prop where
  same : d' = { d with world := d'.world, work := d'.work, skip := d'.skip, clean := d'.clean }
  clean : d.clean.length ≤ d.raw.length → d'.clean.length ≤ d.raw.length

/-- A denoiser whose calls have returned the samples `returned`. -/
structure Good (d : Denoiser σ φ) (returned : List Int16) : Prop where
  length : returned.length + d.raw.length = d.pushed.length
  rest : (returned ++ d.raw).drop d.committed = d.pushed.drop d.committed
  committed_le : d.committed ≤ returned.length
  cleaned : d.active → d.committed = returned.length
  idle : d.active = false → d.raw = []
  clean : d.clean.length ≤ d.raw.length
  pending : d.raw.length ≤ MAX_PENDING_SAMPLES
  peak : d.max_pending_samples ≤ MAX_PENDING_SAMPLES

/-- No chunk is longer than 20 ms. -/
def Short (chunks : List (List Int16)) : Prop := ∀ chunk ∈ chunks, chunk.length ≤ CHUNK

variable {b} {d d' d'' : Denoiser σ φ} {returned : List Int16}

theorem Quiet.refl : Quiet d d := ⟨rfl, id⟩

theorem Quiet.trans (h : Quiet d d') (h' : Quiet d' d'') : Quiet d d'' := by
  obtain ⟨hsame, hclean⟩ := h
  obtain ⟨hsame', hclean'⟩ := h'
  have hraw : d'.raw = d.raw := by rw [hsame]
  refine ⟨?_, fun hd => hraw ▸ hclean' (hraw ▸ hclean hd)⟩
  rw [hsame', hsame]

/-- A change of the outside state and of the work. -/
theorem quiet_work (world : σ) (work : List φ) : Quiet d { d with world, work } := ⟨rfl, id⟩

theorem Good.quiet (h : Good d returned) (hq : Quiet d d') : Good d' returned := by
  obtain ⟨hsame, hclean⟩ := hq
  have hc := hclean h.clean
  rw [hsame]
  exact { h with clean := hc }

theorem Quiet.active (hq : Quiet d d') : d'.active = d.active := by rw [hq.same]

theorem Quiet.pushed (hq : Quiet d d') : d'.pushed = d.pushed := by rw [hq.same]

theorem Quiet.closed (hq : Quiet d d') : d'.closed = d.closed := by rw [hq.same]

theorem quiet_accept (frame : Frame) (final : Bool) : Quiet d (d.accept frame final).2 := by
  unfold accept
  split_ifs with hpcm
  · dsimp only
    split_ifs with hover
    · exact ⟨rfl, id⟩
    · refine ⟨rfl, fun hd => ?_⟩
      rw [length_append, length_take]
      omega
  · exact .refl

theorem quiet_acceptAll (final : Bool) (frames : List Frame) : Quiet d (acceptAll final frames d).2 := by
  induction frames generalizing d with
  | nil => exact .refl
  | cons frame frames ih =>
    unfold acceptAll
    dsimp only
    split_ifs with hok
    · exact (quiet_accept frame final).trans ih
    · exact quiet_accept frame final

theorem quiet_processFrames (final : Bool) (k : ℕ) : Quiet d (processFrames b final k d).2 := by
  induction k generalizing d with
  | zero => exact .refl
  | succ k ih =>
    unfold processFrames
    rcases hp : b.process d.world (d.work.take RN_FRAME) with ⟨cleaned, world⟩
    cases cleaned with
    | none => exact quiet_work _ _
    | some cleaned =>
      dsimp only
      rcases hd : b.down world (some cleaned) with ⟨frames, world'⟩
      cases frames with
      | none => exact quiet_work _ _
      | some frames =>
        dsimp only
        have hframes := (quiet_work (d := d) world' (d.work.drop RN_FRAME)).trans (quiet_acceptAll final frames)
        split_ifs with hok
        · exact hframes.trans ih
        · exact hframes

theorem quiet_push (pcm : List Int16) : Quiet d (d.push b pcm).2 := by
  unfold push
  rcases hu : b.up d.world (some pcm) with ⟨frames, world⟩
  cases frames with
  | none => exact quiet_work _ _
  | some => exact (quiet_work _ _).trans (quiet_processFrames _ _)

theorem quiet_drain : Quiet d (d.drain b).2 := by
  unfold drain
  rcases hu : b.up d.world none with ⟨frames, world⟩
  cases frames with
  | none => exact quiet_work _ _
  | some frames =>
    dsimp only
    set work := d.work ++ frames.flatten
    set d₁ : Denoiser σ φ := { d with
      world
      work := work ++ List.replicate ((RN_FRAME - work.length % RN_FRAME) % RN_FRAME + RN_FRAME * 2) b.silence }
    have h₁ : Quiet d (d₁.processFrames b true (d₁.work.length / RN_FRAME)).2 :=
      (quiet_work _ _).trans (quiet_processFrames _ _)
    split_ifs with hok
    · rcases hd : b.down (d₁.processFrames b true (d₁.work.length / RN_FRAME)).2.world none with ⟨frames, world'⟩
      cases frames with
      | none => exact h₁.trans (quiet_work _ _)
      | some => exact h₁.trans ((quiet_work _ _).trans (quiet_acceptAll _ _))
    · exact h₁

/-! ## What a call returns -/

/-- Output of a call in progress, of which the call has returned the samples `returned` so far. -/
structure Gives (d d' : Denoiser σ φ) (returned : List Int16) (output : List (List Int16)) : Prop where
  good : Good d' (returned ++ output.flatten)
  short : Short output
  closed : d'.closed = d.closed

theorem short_append {xs ys : List (List Int16)} (hx : Short xs) (hy : Short ys) : Short (xs ++ ys) := by
  intro chunk hmem
  rcases mem_append.1 hmem with hmem | hmem
  · exact hx chunk hmem
  · exact hy chunk hmem

theorem short_pieces (pcm : List Int16) : Short (pieces CHUNK pcm) := (pieces_spec (by decide) pcm).2

/-- Cleaned samples take the place of as many raw ones. -/
theorem commitLoop_spec (final : Bool) (k : ℕ) (h : Good d returned) (hactive : d.active) :
    let r := commitLoop final k d
    Gives d r.2 returned r.1 ∧ r.2.active ∧ r.2.pushed = d.pushed := by
  induction k generalizing d returned with
  | zero => exact ⟨⟨by simpa [commitLoop] using h, nofun, rfl⟩, hactive, rfl⟩
  | succ k ih =>
    unfold commitLoop
    split_ifs with hmore
    · set size := min CHUNK d.clean.length with hsize
      have hle : size ≤ d.clean.length := Nat.min_le_right ..
      have hraw : size ≤ d.raw.length := hle.trans h.clean
      have hlen := h.length
      have hcommitted := h.cleaned hactive
      have hrest : d.raw = d.pushed.drop d.committed := by
        rw [← h.rest, hcommitted, drop_left]
      have htake : (d.clean.take size).length = size := by
        rw [length_take]
        omega
      have hgood : Good { d with
          clean := d.clean.drop size
          raw := d.raw.drop size
          output_samples := d.output_samples + size
          committed := d.committed + size } (returned ++ d.clean.take size) := by
        refine ⟨?_, ?_, ?_, fun _ => ?_, fun hidle => absurd (hactive.symm.trans hidle) nofun, ?_, ?_, h.peak⟩
        · simp only [length_append, length_drop, htake]
          omega
        · have hsplit : d.committed + size = (returned ++ d.clean.take size).length := by
            rw [length_append, htake, hcommitted]
          simp only
          rw [hsplit, drop_left, ← hsplit, hrest, drop_drop]
        · rw [length_append, htake]
          exact Nat.add_le_add_right h.committed_le size
        · rw [length_append, htake]
          exact congrArg (· + size) hcommitted
        · simp only [length_drop]
          have := h.clean
          omega
        · simp only [length_drop]
          have := h.pending
          omega
      obtain ⟨⟨hg, hs, hc⟩, ha, hp⟩ := ih hgood hactive
      refine ⟨⟨?_, ?_, hc⟩, ha, hp⟩
      · simpa [append_assoc] using hg
      · intro chunk hmem
        rcases mem_cons.1 hmem with rfl | hmem
        · rw [htake]
          exact Nat.min_le_left ..
        · exact hs chunk hmem
    · exact ⟨⟨by simpa using h, nofun, rfl⟩, hactive, rfl⟩

/-- Samples that are taken in and returned as they are. -/
theorem pass_spec (pcm : List Int16) (h : Good d returned) (hidle : d.active = false) :
    let r := d.pass pcm
    Gives d r.2 returned r.1 ∧ r.2.active = false ∧ r.2.pushed = d.pushed ++ pcm := by
  have hraw := h.idle hidle
  have hlen := h.length
  rw [hraw, length_nil, Nat.add_zero] at hlen
  have hrest := h.rest
  rw [hraw, append_nil] at hrest
  have hcommitted := h.committed_le
  have hflat : (pieces CHUNK pcm).flatten = pcm := (pieces_spec (by decide) pcm).1
  refine ⟨⟨⟨?_, ?_, ?_, fun ha => absurd (hidle.symm.trans ha) nofun, fun _ => hraw, h.clean, h.pending, h.peak⟩,
    short_pieces pcm, rfl⟩, hidle, rfl⟩
  · show (returned ++ (pieces CHUNK pcm).flatten).length + d.raw.length = (d.pushed ++ pcm).length
    rw [hflat, hraw, length_append, length_append, length_nil, hlen, Nat.add_zero]
  · show (returned ++ (pieces CHUNK pcm).flatten ++ d.raw).drop d.committed = (d.pushed ++ pcm).drop d.committed
    rw [hflat, hraw, append_nil, drop_append_of_le_length hcommitted,
      drop_append_of_le_length (by omega), hrest]
  · show d.committed ≤ (returned ++ (pieces CHUNK pcm).flatten).length
    rw [length_append]
    omega

section

variable (hclose : ∀ world, (b.close world).1 = false)
include hclose

/-- What is left of `raw` is returned, where the backend can be closed. -/
theorem fallback_spec (reason : String) (h : Good d returned) :
    ∃ output d', d.fallback b reason = (some output, d') ∧ Gives d d' returned output ∧ d'.active = false ∧
      d'.pushed = d.pushed := by
  have hrelease : ∃ d₁ : Denoiser σ φ, release b { d with fallback_reason := some reason } = (true, d₁) ∧
      d₁.active = false ∧ d₁.raw = d.raw ∧ d₁.pushed = d.pushed ∧ d₁.committed = d.committed ∧
      d₁.closed = d.closed ∧ d₁.max_pending_samples = d.max_pending_samples := by
    unfold release
    by_cases ha : d.active
    · refine ⟨{ d with
        fallback_reason := some reason, active := false, world := (b.close d.world).2 }, ?_, rfl, rfl, rfl, rfl, rfl,
          rfl⟩
      rw [if_pos ha, hclose]
      rfl
    · exact ⟨_, if_neg ha, Bool.eq_false_of_not_eq_true ha, rfl, rfl, rfl, rfl, rfl⟩
  obtain ⟨d₁, hd₁, hactive, hraw, hpushed, hcommitted, hclosed, hpeak⟩ := hrelease
  unfold fallback
  rw [hd₁]
  have hflat : (pieces CHUNK d.raw).flatten = d.raw := (pieces_spec (by decide) d.raw).1
  refine ⟨pieces CHUNK d.raw, { d₁ with
    clean := [], work := [], raw := [], output_samples := d₁.output_samples + d₁.raw.length }, ?_,
    ⟨⟨?_, ?_, ?_, fun ha => absurd (hactive.symm.trans ha) nofun, fun _ => rfl, le_rfl, Nat.zero_le _, ?_⟩,
      short_pieces d.raw, hclosed⟩, hactive, hpushed⟩
  · rw [← hraw]
    rfl
  · show (returned ++ (pieces CHUNK d.raw).flatten).length + 0 = d₁.pushed.length
    rw [hflat, hpushed, length_append, Nat.add_zero, h.length]
  · rw [hflat, hpushed, hcommitted, append_nil, h.rest]
  · rw [hcommitted, length_append]
    exact h.committed_le.trans (Nat.le_add_right ..)
  · rw [hpeak]
    exact h.peak

/-- A failure in the middle of a feed. -/
theorem surrender_spec (reason : String) (left : List Int16) (h : Good d returned) :
    ∃ output d', d.surrender b reason left = (some output, d') ∧ Gives d d' returned output ∧
      d'.pushed = d.pushed ++ left := by
  obtain ⟨output, d₁, hfall, hgives, hactive, hpushed⟩ := fallback_spec hclose reason h
  obtain ⟨hpass, -, hpushed'⟩ := pass_spec left hgives.good hactive
  refine ⟨output ++ (d₁.pass left).1, (d₁.pass left).2, ?_, ⟨?_, short_append hgives.short hpass.short,
    hpass.closed.trans hgives.closed⟩, hpushed'.trans (hpushed ▸ rfl)⟩
  · unfold surrender
    rw [hfall]
  · simpa [append_assoc] using hpass.good

omit hclose in
theorem hold_good (part : List Int16) (h : Good d returned) (hactive : d.active)
    (hroom : d.raw.length + part.length ≤ MAX_PENDING_SAMPLES) : Good (d.hold part) returned := by
  have hlen := h.length
  have hcommitted := h.committed_le
  refine ⟨?_, ?_, h.committed_le, h.cleaned, fun hidle => absurd (hactive.symm.trans hidle) nofun, ?_, ?_, ?_⟩
  · show returned.length + (d.raw ++ part).length = (d.pushed ++ part).length
    rw [length_append, length_append]
    omega
  · have hleft : (returned ++ d.raw ++ part).drop d.committed = (returned ++ d.raw).drop d.committed ++ part :=
      drop_append_of_le_length (by rw [length_append]; omega)
    have hright : (d.pushed ++ part).drop d.committed = d.pushed.drop d.committed ++ part :=
      drop_append_of_le_length (by omega)
    show (returned ++ (d.raw ++ part)).drop d.committed = (d.pushed ++ part).drop d.committed
    rw [← append_assoc, hleft, hright, h.rest]
  · show d.clean.length ≤ (d.raw ++ part).length
    rw [length_append]
    exact h.clean.trans (Nat.le_add_right ..)
  · show (d.raw ++ part).length ≤ MAX_PENDING_SAMPLES
    rwa [length_append]
  · show max d.max_pending_samples (d.raw ++ part).length ≤ MAX_PENDING_SAMPLES
    rw [length_append]
    exact max_le h.peak hroom

/-- The loop over the parts of a feed. -/
theorem feedParts_spec (parts : List (List Int16)) (h : Good d returned) (hactive : d.active) :
    ∃ output d', feedParts b parts d = (some output, d') ∧ Gives d d' returned output ∧
      d'.pushed = d.pushed ++ parts.flatten := by
  induction parts generalizing d returned with
  | nil => exact ⟨[], d, rfl, ⟨by simpa using h, nofun, rfl⟩, by simp⟩
  | cons part parts ih =>
    unfold feedParts
    split_ifs with hfull
    · exact surrender_spec hclose "buffer_limit" (part ++ parts.flatten) h
    · have hquiet := quiet_push (b := b) (d := d.hold part) part
      have hgood := (hold_good part h hactive (not_lt.1 hfull)).quiet hquiet
      have hpushed : ((d.hold part).push b part).2.pushed = d.pushed ++ part := hquiet.pushed
      have hclosed : ((d.hold part).push b part).2.closed = d.closed := hquiet.closed
      rcases hpush : (d.hold part).push b part with ⟨ok, d₁⟩
      rw [hpush] at hquiet hgood hpushed hclosed
      cases ok with
      | false =>
        obtain ⟨output, d', heq, hgives, hp⟩ := surrender_spec hclose "runtime_error" parts.flatten hgood
        refine ⟨output, d', heq, ⟨hgives.good, hgives.short, hgives.closed.trans hclosed⟩, ?_⟩
        rw [hp, hpushed, flatten_cons, append_assoc]
      | true =>
        obtain ⟨hgives, hactive', hp⟩ :=
          commitLoop_spec true d₁.clean.length hgood (hquiet.active.trans hactive)
        obtain ⟨more, d', heq, hmore, hp'⟩ := ih hgives.good hactive'
        refine ⟨(d₁.commit true).1 ++ more, d', ?_, ⟨?_, short_append hgives.short hmore.short,
          hmore.closed.trans (hgives.closed.trans hclosed)⟩, ?_⟩
        · show (match feedParts b parts (d₁.commit true).2 with
            | (none, d) => (none, d)
            | (some more, d) => (some ((d₁.commit true).1 ++ more), d)) = _
          rw [show feedParts b parts (d₁.commit true).2 = (some more, d') from heq]
        · have hg := hmore.good
          rw [append_assoc] at hg
          rw [flatten_append]
          exact hg
        · rw [hp', hp, hpushed, flatten_cons, append_assoc]

/-- A feed takes its samples in, and returns. -/
theorem feed_spec (pcm : List Int16) (h : Good d returned) (hopen : d.closed = false) :
    ∃ output d', d.feed b pcm = (some output, d') ∧ Gives d d' returned output ∧ d'.pushed = d.pushed ++ pcm := by
  unfold feed
  rw [if_neg (by rw [hopen]; exact Bool.false_ne_true)]
  set d₁ : Denoiser σ φ := { d with input_samples := d.input_samples + pcm.length }
  have h₁ : Good d₁ returned := { h with }
  by_cases hactive : d.active
  · obtain ⟨output, d', heq, hgives, hp⟩ := feedParts_spec hclose (pieces CHUNK pcm) h₁ hactive
    refine ⟨output, d', ?_, ⟨hgives.good, hgives.short, hgives.closed⟩, ?_⟩
    · dsimp only
      rw [if_neg (not_not.2 hactive)]
      exact heq
    · rw [hp, (pieces_spec (by decide) pcm).1]
  · obtain ⟨hgives, -, hp⟩ := pass_spec pcm h₁ (by simpa using hactive)
    refine ⟨(d₁.pass pcm).1, (d₁.pass pcm).2, ?_, ⟨hgives.good, hgives.short, hgives.closed⟩, hp⟩
    rw [if_pos hactive]

/-- What is left is returned, cleaned or raw. -/
theorem flush_spec (h : Good d returned) :
    ∃ output d', d.flush b = (some output, d') ∧ Gives d d' returned output ∧ d'.raw = [] ∧
      d'.pushed = d.pushed := by
  unfold flush
  split_ifs with hleft
  · have hquiet := quiet_drain (b := b) (d := d)
    have hgood := h.quiet hquiet
    have hpushed : (d.drain b).2.pushed = d.pushed := hquiet.pushed
    have hclosed : (d.drain b).2.closed = d.closed := hquiet.closed
    rcases hdrain : d.drain b with ⟨ok, d₁⟩
    rw [hdrain] at hquiet hgood hpushed hclosed
    cases ok with
    | false =>
      obtain ⟨output, d', heq, hgives, hidle, hp⟩ := fallback_spec hclose "runtime_error" hgood
      exact ⟨output, d', heq, ⟨hgives.good, hgives.short, hgives.closed.trans hclosed⟩, hgives.good.idle hidle,
        hp.trans hpushed⟩
    | true =>
      obtain ⟨hgives, -, hp⟩ := commitLoop_spec true d₁.clean.length hgood (hquiet.active.trans hleft.1)
      dsimp only
      split_ifs with hraw
      · exact ⟨_, _, rfl, ⟨hgives.good, hgives.short, hgives.closed.trans hclosed⟩, hraw, hp.trans hpushed⟩
      · obtain ⟨output, d', heq, hmore, hidle, hp'⟩ := fallback_spec hclose "short_output" hgives.good
        refine ⟨(d₁.commit true).1 ++ output, d', ?_, ⟨?_, short_append hgives.short hmore.short,
          hmore.closed.trans (hgives.closed.trans hclosed)⟩, hmore.good.idle hidle, hp'.trans (hp.trans hpushed)⟩
        · rw [show (d₁.commit true).2.fallback b "short_output" = (some output, d') from heq]
        · have hg := hmore.good
          rw [append_assoc] at hg
          rw [flatten_append]
          exact hg
  · refine ⟨[], d, rfl, ⟨by simpa using h, nofun, rfl⟩, ?_, rfl⟩
    by_contra hraw
    have hidle : d.active = false := by
      by_contra hactive
      exact hleft ⟨by simpa using hactive, hraw⟩
    exact hraw (h.idle hidle)

/-- `finish` returns what is left, and closes the denoiser. -/
theorem finish_spec (h : Good d returned) (hend : d.closed → d.raw = []) :
    ∃ output d', d.finish b = (some output, d') ∧ Good d' (returned ++ output.flatten) ∧ Short output ∧
      d'.closed ∧ d'.raw = [] ∧ d'.pushed = d.pushed := by
  unfold finish
  split_ifs with hclosed
  · exact ⟨[], d, rfl, by simpa using h, nofun, hclosed, hend hclosed, rfl⟩
  obtain ⟨output, d₁, heq, hgives, hraw, hpushed⟩ := flush_spec hclose h
  rw [heq]
  have hg := hgives.good
  have hlen := hg.length
  have hrest := hg.rest
  rw [hraw] at hlen hrest
  have hcloses : ∃ d₂ : Denoiser σ φ, d₁.close b = (true, d₂) ∧ d₂.active = false ∧ d₂.raw = [] ∧ d₂.clean = [] ∧
      d₂.pushed = d₁.pushed ∧ d₂.committed = d₁.committed ∧ d₂.closed ∧
      d₂.max_pending_samples = d₁.max_pending_samples := by
    unfold close release
    by_cases ha : d₁.active
    · refine ⟨{ d₁ with
        closed := true, active := false, world := (b.close d₁.world).2, raw := [], clean := [], work := [] }, ?_, rfl,
        rfl, rfl, rfl, rfl, rfl, rfl⟩
      rw [if_pos ha, hclose]
      rfl
    · refine ⟨{ d₁ with closed := true, raw := [], clean := [], work := [] }, ?_, by simpa using ha, rfl, rfl, rfl,
        rfl, rfl, rfl⟩
      rw [if_neg ha]
      rfl
  obtain ⟨d₂, hd₂, hactive, hraw₂, hclean₂, hpushed₂, hcommitted₂, hclosed₂, hpeak₂⟩ := hcloses
  refine ⟨output, d₂, ?_, ⟨?_, ?_, ?_, fun ha => absurd (hactive.symm.trans ha) nofun, fun _ => hraw₂, ?_, ?_, ?_⟩,
    hgives.short, hclosed₂, hraw₂, hpushed₂.trans hpushed⟩
  · dsimp only
    rw [hd₂]
    rfl
  · rw [hraw₂, hpushed₂]
    exact hlen
  · rw [hraw₂, hpushed₂, hcommitted₂]
    exact hrest
  · rw [hcommitted₂]
    exact hg.committed_le
  · rw [hclean₂, hraw₂]
  · rw [hraw₂]
    exact Nat.zero_le _
  · rw [hpeak₂]
    exact hg.peak

end

end Denoiser

/-! ## Every run -/

inductive Call where
  | feed (pcm : List Int16)
  | finish

/-- A denoiser, the samples of the feeds that it did not reject, the chunks that its calls have returned, and whether
`finish` was called. -/
structure Session (σ φ : Type) where
  denoiser : Denoiser σ φ
  received : List Int16
  returned : List (List Int16)
  finished : Bool

namespace Session

open Denoiser (Short short_append feed_spec finish_spec)

variable {σ φ ψ : Type} (b : Backend σ φ ψ)

def start (world : σ) (available : Bool) : Session σ φ where
  denoiser := .init world available
  received := []
  returned := []
  finished := false

/-- One call. Where it raises, the caller gets nothing. -/
def step (s : Session σ φ) : Call → Session σ φ
  | .feed pcm => { s with
      denoiser := (s.denoiser.feed b pcm).2
      received := if s.denoiser.closed then s.received else s.received ++ pcm
      returned := s.returned ++ (s.denoiser.feed b pcm).1.getD [] }
  | .finish => { s with
      denoiser := (s.denoiser.finish b).2
      returned := s.returned ++ (s.denoiser.finish b).1.getD []
      finished := true }

/-- What every call keeps, as long as the backend can be closed. -/
structure Inv (s : Session σ φ) : Prop where
  good : s.denoiser.Good s.returned.flatten
  short : Short s.returned
  received : s.received = s.denoiser.pushed
  closed : s.denoiser.closed = s.finished
  ended : s.denoiser.closed → s.denoiser.raw = []

variable {b} {s : Session σ φ}

theorem start_inv (world : σ) (available : Bool) : (start world available : Session σ φ).Inv where
  good := ⟨rfl, rfl, le_rfl, fun _ => rfl, fun _ => rfl, le_rfl, Nat.zero_le _, Nat.zero_le _⟩
  short := nofun
  received := rfl
  closed := rfl
  ended := nofun

theorem step_inv (hclose : ∀ world, (b.close world).1 = false) (h : s.Inv) (call : Call) : (s.step b call).Inv := by
  cases call with
  | feed pcm =>
    by_cases hclosed : s.denoiser.closed
    · have hfeed : s.denoiser.feed b pcm = (none, s.denoiser) := if_pos hclosed
      have hstep : s.step b (.feed pcm) = s := by
        simp only [step]
        rw [hfeed, if_pos hclosed]
        simp
      rw [hstep]
      exact h
    · have hopen : s.denoiser.closed = false := by simpa using hclosed
      obtain ⟨output, d', hfeed, hgives, hpushed⟩ := feed_spec hclose pcm h.good hopen
      have hstep : s.step b (.feed pcm) = { s with
          denoiser := d', received := s.received ++ pcm, returned := s.returned ++ output } := by
        simp only [step]
        rw [hfeed, if_neg hclosed]
        rfl
      rw [hstep]
      refine ⟨?_, short_append h.short hgives.short, ?_, hgives.closed.trans h.closed, fun hc => ?_⟩
      · rw [flatten_append]
        exact hgives.good
      · rw [hpushed, h.received]
      · exact absurd (hgives.closed.symm.trans hc) hclosed
  | finish =>
    obtain ⟨output, d', hfinish, hgood, hshort, hclosed, hraw, hpushed⟩ := finish_spec hclose h.good h.ended
    have hstep : s.step b .finish = { s with
        denoiser := d', returned := s.returned ++ output, finished := true } := by
      simp only [step]
      rw [hfinish]
      rfl
    rw [hstep]
    refine ⟨?_, short_append h.short hshort, h.received.trans hpushed.symm, hclosed, fun _ => hraw⟩
    rw [flatten_append]
    exact hgood

end Session

/-- Whatever the resamplers and the backend return or raise, as long as its `close` does not raise, after any calls:
no chunk has more than 20 ms, no more cleaned samples were committed than received, and the pending samples were never
more than 1600. The samples returned and those that wait are as many as were received, and after the committed ones
they are the received ones, in order. After `finish`, and after a failure, none wait. -/
theorem denoiser_length {σ φ ψ : Type} (b : Backend σ φ ψ) (hclose : ∀ world, (b.close world).1 = false) (world : σ)
    (available : Bool) (calls : List Call) :
    let s := Runs.run (Session.step b) (Session.start world available) calls
    (∀ chunk ∈ s.returned, chunk.length ≤ 320) ∧ s.denoiser.committed ≤ s.received.length ∧
      s.denoiser.max_pending_samples ≤ 1600 ∧ s.denoiser.raw.length ≤ 1600 ∧
      s.returned.flatten.length + s.denoiser.raw.length = s.received.length ∧
      (s.returned.flatten ++ s.denoiser.raw).drop s.denoiser.committed = s.received.drop s.denoiser.committed ∧
      (s.denoiser.active = false → s.denoiser.raw = []) ∧
      (s.finished → s.denoiser.raw = [] ∧ s.returned.flatten.length = s.received.length) := by
  intro s
  have h : s.Inv := Runs.run_invariant (P := Session.Inv) (fun s call hs => Session.step_inv hclose hs call) calls
    (Session.start_inv world available)
  have hlen : s.returned.flatten.length + s.denoiser.raw.length = s.received.length := by
    rw [h.received]
    exact h.good.length
  refine ⟨h.short, ?_, h.good.peak, h.good.pending, hlen, ?_, h.good.idle, fun hf => ?_⟩
  · have hle := h.good.committed_le
    omega
  · rw [h.received]
    exact h.good.rest
  · have hraw := h.ended (h.closed.trans hf)
    rw [hraw] at hlen
    exact ⟨hraw, hlen⟩

/-- Three samples for one, and one for three; nothing raises. -/
def echo : Backend Unit Int16 (List Int16) where
  up _ pcm := (some [(pcm.getD []).flatMap fun x => [x, x, x]], ())
  process _ frame := (some frame, ())
  down _ cleaned := (some (cleaned.toList.map fun xs => ⟨true, (pieces 3 xs).map fun ys => ys.headD 0⟩), ())
  close _ := (false, ())
  silence := 0

theorem denoiser_length_echo :
    let s := Runs.run (Session.step echo) (Session.start () true) [.feed [1, 2], .feed [3], .finish]
    s.denoiser.raw = [] ∧ s.returned.flatten.length = s.received.length :=
  (denoiser_length echo (fun _ => rfl) () true [.feed [1, 2], .feed [3], .finish]).2.2.2.2.2.2.2 rfl

/-- A backend that cannot be closed. -/
def broken : Backend Unit Int16 (List Int16) := { echo with
  up := fun _ _ => (none, ())
  close := fun _ => (true, ()) }

/-- A `close` that raises in the middle of a fallback takes the pending samples with it: the feed raises, and
`finish` returns nothing. -/
theorem denoiser_loses_raw :
    let s := Runs.run (Session.step broken) (Session.start () true) [.feed [1], .finish]
    s.finished ∧ s.received = [1] ∧ s.returned = [] := by
  decide

end StrixAlloy.Denoise

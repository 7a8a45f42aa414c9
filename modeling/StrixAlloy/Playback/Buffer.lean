import Mathlib.Data.Int.Notation
import StrixAlloy.Lib.Runs

/-!
# The playback buffer

`PlaybackBuffer`: PCM16 bytes of one generation, read in order and padded with zeros. Half a sample stays for the
bytes that complete it. The three counters are of samples, and the sample that a put completes is counted with
that put, so `balanced` is about the number of bytes halved.

The bytes of one generation are a stream: what the puts of the generation added is what its reads emitted, and
then what was discarded or is still there (`fifo`).
-/

namespace StrixAlloy.Playback

open List Runs

/-- The buffer; `γ` is the type of its gates. -/
structure State (γ : Type) where
  generation : ℤ
  data : List UInt8
  accepted_samples : ℕ
  emitted_samples : ℕ
  discarded_samples : ℕ
  drain_allowed : Option γ

variable {γ : Type}

def init : State γ := ⟨0, [], 0, 0, 0, none⟩

namespace State

def interrupt (s : State γ) : State γ :=
  { s with
    generation := s.generation + 1
    discarded_samples := s.discarded_samples + s.data.length / 2
    data := []
    drain_allowed := none }

def put (pcm : List UInt8) (generation : ℤ) (drain_allowed : Option γ) (s : State γ) : Bool × State γ :=
  if generation ≠ s.generation then (false, s)
  else
    let pending_byte := s.data.length % 2
    (true,
      { s with
        drain_allowed :=
          if pcm ≠ [] ∧ (s.data = [] ∨ drain_allowed.isSome) then drain_allowed else s.drain_allowed
        data := s.data ++ pcm
        accepted_samples := s.accepted_samples + (pending_byte + pcm.length) / 2 })

/-- Whether the gate lets the buffer drain: `ask` says of a gate whether it returns, and then whether `True`. -/
def allowed (ask : γ → Option Bool) (s : State γ) : Bool :=
  match s.drain_allowed with
  | some gate => s.data = [] || ask gate = some true
  | none => true

/-- The bytes that a read of `size` takes, by whole samples. -/
def count (size : ℕ) (s : State γ) : ℕ := min size s.data.length / 2 * 2

/-- A read after the gate was asked. -/
def drain (size : ℕ) (s : State γ) : List UInt8 × State γ :=
  let data := s.data.drop (s.count size)
  (s.data.take (s.count size) ++ List.replicate (size - (s.data.take (s.count size)).length) 0,
    { s with
      data
      emitted_samples := s.emitted_samples + s.count size / 2
      drain_allowed := if data = [] then none else s.drain_allowed })

def read (size : ℕ) (ask : γ → Option Bool) (s : State γ) : List UInt8 × State γ :=
  if s.allowed ask then s.drain size else s.interrupt.drain size

end State

/-- The operations; the gates answer anew at every read. -/
inductive Op (γ : Type)
  | put (pcm : List UInt8) (generation : ℤ) (drain_allowed : Option γ)
  | read (size : ℕ) (ask : γ → Option Bool)
  | interrupt

def step (s : State γ) : Op γ → State γ
  | .put pcm generation drain_allowed => (s.put pcm generation drain_allowed).2
  | .read size ask => (s.read size ask).2
  | .interrupt => s.interrupt

/-- The PCM that an operation takes in. -/
def Op.accepted (s : State γ) : Op γ → List UInt8
  | .put pcm generation _ => if generation = s.generation then pcm else []
  | _ => []

/-- The PCM that an operation gives out. -/
def Op.emitted (s : State γ) : Op γ → List UInt8
  | .read size ask => if s.allowed ask then s.data.take (s.count size) else []
  | _ => []

/-- What the operations of a run take in, or give out, while the generation is `g`. -/
def during (g : ℤ) (f : State γ → Op γ → List UInt8) : State γ → List (Op γ) → List UInt8
  | _, [] => []
  | s, op :: ops => (if s.generation = g then f s op else []) ++ during g f (step s op) ops

variable {s : State γ}

/-- A put is for another generation, or adds its bytes. -/
theorem put_cases (pcm : List UInt8) (generation : ℤ) (gate : Option γ) :
    generation ≠ s.generation ∧ s.put pcm generation gate = (false, s) ∨
      generation = s.generation ∧ s.put pcm generation gate = (true,
        { s with
          drain_allowed := if pcm ≠ [] ∧ (s.data = [] ∨ gate.isSome) then gate else s.drain_allowed
          data := s.data ++ pcm
          accepted_samples := s.accepted_samples + (s.data.length % 2 + pcm.length) / 2 }) := by
  by_cases h : generation = s.generation
  · exact .inr ⟨h, if_neg (not_not.2 h)⟩
  · exact .inl ⟨h, if_pos h⟩

/-! ## One read -/

theorem count_le (size : ℕ) : s.count size ≤ min size s.data.length := Nat.div_mul_le_self ..

theorem length_take_count (size : ℕ) : (s.data.take (s.count size)).length = s.count size := by
  rw [length_take]
  exact Nat.min_eq_left (Nat.le_trans (count_le size) (Nat.min_le_right ..))

/-- A read returns the size that was asked for. -/
theorem length_drain (size : ℕ) : (s.drain size).1.length = size := by
  have h := Nat.le_trans (count_le (s := s) size) (Nat.min_le_left ..)
  unfold State.drain
  rw [length_append, length_replicate, length_take_count]
  omega

/-- A refused read is one of an empty buffer. -/
theorem drain_interrupt (size : ℕ) : (s.interrupt.drain size).1 = List.replicate size 0 ∧
    (s.interrupt.drain size).2 = s.interrupt := by
  unfold State.drain State.count State.interrupt
  simp

/-- A read gives out the oldest bytes, padded with zeros. -/
theorem read_eq (size : ℕ) (ask : γ → Option Bool) :
    let emitted := (Op.read size ask).emitted s
    (s.read size ask).1 = emitted ++ List.replicate (size - emitted.length) 0 ∧
      emitted <+: s.data ∧ emitted.length ≤ size ∧
      (s.read size ask).2.data = if s.allowed ask then s.data.drop emitted.length else [] := by
  intro emitted
  have hle : s.count size ≤ size := Nat.le_trans (count_le size) (Nat.min_le_left ..)
  unfold State.read
  by_cases h : s.allowed ask
  · have he : emitted = s.data.take (s.count size) := if_pos h
    rw [if_pos h, if_pos h, he, length_take_count]
    refine ⟨?_, take_prefix .., hle, rfl⟩
    unfold State.drain
    rw [length_take_count]
  · have he : emitted = [] := if_neg h
    rw [if_neg h, if_neg h, he]
    refine ⟨?_, nil_prefix, Nat.zero_le _, ?_⟩
    · rw [(drain_interrupt size).1]
      rfl
    · rw [(drain_interrupt size).2]
      rfl

/-! ## The counters -/

/-- Every accepted sample was emitted, was discarded, or is in the buffer. -/
def Balanced (s : State γ) : Prop :=
  s.accepted_samples = s.emitted_samples + s.discarded_samples + s.data.length / 2

theorem Balanced.interrupt (h : Balanced s) : Balanced s.interrupt := by
  unfold Balanced State.interrupt at *
  simp only [length_nil]
  omega

theorem Balanced.drain (h : Balanced s) (size : ℕ) : Balanced (s.drain size).2 := by
  have hle := Nat.le_trans (count_le (s := s) size) (Nat.min_le_right ..)
  have heven : s.count size % 2 = 0 := Nat.mul_mod_left ..
  unfold Balanced State.drain at *
  simp only [length_drop]
  omega

theorem Balanced.step (h : Balanced s) (op : Op γ) : Balanced (step s op) := by
  cases op with
  | put pcm generation gate =>
    show Balanced (s.put pcm generation gate).2
    rcases put_cases (s := s) pcm generation gate with ⟨-, e⟩ | ⟨-, e⟩
    · rw [e]
      exact h
    · rw [e]
      unfold Balanced at *
      simp only [length_append]
      omega
  | read size ask =>
    show Balanced (s.read size ask).2
    unfold State.read
    split_ifs
    · exact h.drain size
    · exact h.interrupt.drain size
  | interrupt => exact h.interrupt

/-! ## The stream of a generation -/

/-- The bytes in the buffer, where the generation is `g`. -/
def State.held (g : ℤ) (s : State γ) : List UInt8 := if s.generation = g then s.data else []

theorem interrupt_ne : s.interrupt.generation ≠ s.generation := by
  have h : s.interrupt.generation = s.generation + 1 := rfl
  omega

/-- The generation after a step. -/
theorem generation_step (op : Op γ) :
    (step s op).generation = s.generation ∨ (step s op).generation = s.generation + 1 ∧ (step s op).data = [] := by
  cases op with
  | put pcm generation gate =>
    refine .inl ?_
    show (s.put pcm generation gate).2.generation = s.generation
    rcases put_cases (s := s) pcm generation gate with ⟨-, e⟩ | ⟨-, e⟩
    · rw [e]
    · rw [e]
  | read size ask =>
    show (s.read size ask).2.generation = _ ∨ (s.read size ask).2.generation = _ ∧ (s.read size ask).2.data = []
    unfold State.read
    split_ifs
    · exact .inl rfl
    · rw [(drain_interrupt size).2]
      exact .inr ⟨rfl, rfl⟩
  | interrupt => exact .inr ⟨rfl, rfl⟩

theorem generation_le_step (op : Op γ) : s.generation ≤ (step s op).generation := by
  rcases generation_step (s := s) op with h | ⟨h, -⟩
  · omega
  · omega

/-- In one generation, what is in the buffer and comes in is what goes out and then remains. -/
theorem step_data (op : Op γ) (h : (step s op).generation = s.generation) :
    s.data ++ op.accepted s = op.emitted s ++ (step s op).data := by
  cases op with
  | put pcm generation gate =>
    show s.data ++ (if generation = s.generation then pcm else []) = [] ++ (s.put pcm generation gate).2.data
    rcases put_cases (s := s) pcm generation gate with ⟨hg, e⟩ | ⟨hg, e⟩
    · rw [e, if_neg hg, append_nil]
      rfl
    · rw [e, if_pos hg]
      rfl
  | read size ask =>
    have hread := (read_eq (s := s) size ask).2
    obtain ⟨⟨rest, hrest⟩, -, hdata⟩ := hread
    have hallowed : s.allowed ask := by
      by_contra hno
      have he : (s.read size ask).2 = s.interrupt := by
        unfold State.read
        rw [if_neg hno, (drain_interrupt size).2]
      have hg : (s.read size ask).2.generation = s.generation := h
      rw [he] at hg
      exact interrupt_ne hg
    show s.data ++ [] = _ ++ (s.read size ask).2.data
    rw [hdata, if_pos hallowed, append_nil]
    nth_rewrite 1 2 [← hrest]
    rw [drop_left]
  | interrupt => exact absurd h interrupt_ne

/-- A step to another generation gives out nothing. -/
theorem emitted_of_ne (op : Op γ) (h : (step s op).generation ≠ s.generation) : op.emitted s = [] := by
  cases op with
  | put => rfl
  | read size ask =>
    by_contra hne
    refine h ?_
    have hallowed : s.allowed ask := by
      by_contra hno
      exact hne (if_neg hno)
    show (s.read size ask).2.generation = s.generation
    unfold State.read
    rw [if_pos hallowed]
    rfl
  | interrupt => rfl

/-- After its generation nothing of it comes in or goes out. -/
theorem during_of_lt {g : ℤ} (f : State γ → Op γ → List UInt8) (h : g < s.generation) (ops : List (Op γ)) :
    during g f s ops = [] := by
  induction ops generalizing s with
  | nil => rfl
  | cons op ops ih =>
    have hstep := generation_le_step (s := s) op
    rw [during, if_neg (by omega), ih (by omega)]
    rfl

/-- The bytes of a generation come out in the order in which they came in, each once, and none in another
generation. -/
theorem fifo (g : ℤ) (s : State γ) (ops : List (Op γ)) :
    ∃ rest, s.held g ++ during g Op.accepted s ops = during g Op.emitted s ops ++ rest ∧
      ((run step s ops).generation = g → rest = (run step s ops).data) := by
  induction ops generalizing s with
  | nil =>
    refine ⟨s.held g, by simp [during], fun h => ?_⟩
    rw [run_nil] at h ⊢
    exact if_pos h
  | cons op ops ih =>
    obtain ⟨rest, hrest, hlast⟩ := ih (step s op)
    by_cases hg : s.generation = g
    · by_cases hs : (step s op).generation = g
      · -- the generation goes on
        refine ⟨rest, ?_, hlast⟩
        have hd := step_data op (hs.trans hg.symm)
        unfold State.held at hrest ⊢
        rw [if_pos hs] at hrest
        rw [if_pos hg, during, during, if_pos hg, if_pos hg]
        calc s.data ++ (op.accepted s ++ during g Op.accepted (step s op) ops)
            = op.emitted s ++ ((step s op).data ++ during g Op.accepted (step s op) ops) := by
              rw [← append_assoc, hd, append_assoc]
          _ = op.emitted s ++ during g Op.emitted (step s op) ops ++ rest := by
              rw [hrest, append_assoc]
      · -- it ends here, and what is left of it is discarded
        have hlt : g < (step s op).generation := by
          have := generation_le_step (s := s) op
          omega
        have hnone := during_of_lt Op.accepted hlt ops
        have hnone' := during_of_lt Op.emitted hlt ops
        refine ⟨s.data ++ op.accepted s, ?_, fun h => ?_⟩
        · unfold State.held
          rw [if_pos hg, during, during, if_pos hg, if_pos hg, hnone, hnone',
            emitted_of_ne op (by rw [hg]; exact hs)]
          simp
        · have hrun : g < (run step (step s op) ops).generation :=
            run_invariant (P := fun t : State γ => g < t.generation)
              (fun (t : State γ) op ht => Int.lt_of_lt_of_le ht (generation_le_step op)) ops hlt
          rw [run_cons] at h
          omega
    · -- it is another generation, whose end leaves an empty buffer
      have hempty : (step s op).held g = [] := by
        unfold State.held
        split_ifs with hs
        · rcases generation_step op with h | ⟨-, h⟩
          · exact absurd (h.symm.trans hs) hg
          · exact h
        · rfl
      refine ⟨rest, ?_, hlast⟩
      rw [hempty] at hrest
      unfold State.held
      rw [if_neg hg, during, during, if_neg hg, if_neg hg]
      exact hrest

/-! ## Runs -/

/-- After any operations the counters balance; a put for another generation changes nothing; and a read of any
size returns that many bytes, the oldest in the buffer and then zeros. In each generation the reads give out, in
order and each once, the bytes that its puts took in, and no others. -/
theorem playback_conserved (ops : List (Op γ)) :
    let s := run step init ops
    s.accepted_samples = s.emitted_samples + s.discarded_samples + s.data.length / 2 ∧
      (∀ pcm generation gate, generation ≠ s.generation → s.put pcm generation gate = (false, s)) ∧
      (∀ size ask, (s.read size ask).1.length = size ∧
        ∃ emitted rest, s.data = emitted ++ rest ∧
          (s.read size ask).1 = emitted ++ List.replicate (size - emitted.length) 0 ∧
          ((s.read size ask).2.data = rest ∨ emitted = [] ∧ (s.read size ask).2.data = [])) ∧
      ∀ g, ∃ rest, during g Op.accepted init ops = during g Op.emitted init ops ++ rest ∧
        (s.generation = g → rest = s.data) := by
  intro s
  refine ⟨?_, fun pcm generation gate h => if_pos h, fun size ask => ⟨?_, ?_⟩, fun g => ?_⟩
  · have h : Balanced (init : State γ) := by simp [Balanced, init]
    exact run_invariant (P := Balanced) (fun _ op h => Balanced.step h op) ops h
  · unfold State.read
    split_ifs
    · exact length_drain size
    · exact length_drain size
  · have hread := read_eq (s := s) size ask
    simp only at hread
    obtain ⟨hout, ⟨rest, hrest⟩, -, hdata⟩ := hread
    refine ⟨_, rest, hrest.symm, hout, ?_⟩
    by_cases h : s.allowed ask
    · rw [hdata, if_pos h]
      nth_rewrite 1 [← hrest]
      exact .inl drop_left
    · rw [hdata, if_neg h]
      exact .inr ⟨if_neg h, rfl⟩
  · obtain ⟨rest, hrest, hlast⟩ := fifo g (init : State γ) ops
    refine ⟨rest, ?_, hlast⟩
    have hnone : (init : State γ).held g = [] := by
      unfold State.held
      split_ifs
      · rfl
      · rfl
    rw [hnone] at hrest
    exact hrest

end StrixAlloy.Playback

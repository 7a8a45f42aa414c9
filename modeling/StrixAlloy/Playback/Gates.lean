import StrixAlloy.Playback.Buffer

/-!
# Gates

A put may bring a gate, which must return `True` at a read for the buffer to drain. The buffer has one place for
a gate. `Traced` records beside every byte the gate of the put that brought it, which no operation reads: a byte
that came with a gate goes out only where the newest gate in the buffer allows it, and that may be another one.
-/

namespace StrixAlloy.Playback

open List

variable {γ : Type}

/-- A buffer, and for each of its bytes the gate that it came with. -/
structure Traced (γ : Type) where
  state : State γ
  gates : List (Option γ)

def Traced.init : Traced γ := ⟨Playback.init, []⟩

def Traced.step (x : Traced γ) (op : Op γ) : Traced γ where
  state := Playback.step x.state op
  gates :=
    match op with
    | .put pcm generation gate =>
      if generation = x.state.generation then x.gates ++ List.replicate pcm.length gate else x.gates
    | .read size ask => if x.state.allowed ask then x.gates.drop (x.state.count size) else []
    | .interrupt => []

/-- The gates of the bytes that an operation gives out. -/
def Op.gates (x : Traced γ) : Op γ → List (Option γ)
  | .read size ask => if x.state.allowed ask then x.gates.take (x.state.count size) else []
  | _ => []

/-- The gate of the newest byte that came with one. -/
def newest (gates : List (Option γ)) : Option γ := (gates.filterMap id).getLast?

theorem newest_append_some (gates : List (Option γ)) (g : γ) {n : ℕ} (h : n ≠ 0) :
    newest (gates ++ List.replicate n (some g)) = some g := by
  obtain ⟨n, rfl⟩ := Nat.exists_eq_succ_of_ne_zero h
  unfold newest
  rw [replicate_succ', ← append_assoc, filterMap_append]
  simp

theorem newest_append_none (gates : List (Option γ)) (n : ℕ) :
    newest (gates ++ List.replicate n none) = newest gates := by
  unfold newest
  rw [filterMap_append]
  simp

/-- Where a gated byte is left, the newest one is. -/
theorem newest_drop {gates : List (Option γ)} {n : ℕ} {g : γ} (h : newest (gates.drop n) = some g) :
    newest gates = some g := by
  unfold newest at *
  obtain ⟨l, hl⟩ := List.getLast?_eq_some_iff.1 h
  rw [← take_append_drop n gates, filterMap_append, hl, ← append_assoc]
  simp

theorem exists_newest {gates : List (Option γ)} {g : γ} (h : some g ∈ gates) : ∃ h, newest gates = some h := by
  have hne : gates.filterMap id ≠ [] := ne_nil_of_mem (mem_filterMap.2 ⟨_, h, rfl⟩)
  exact ⟨_, List.getLast?_eq_some_getLast hne⟩

theorem newest_mem {gates : List (Option γ)} {g : γ} (h : newest gates = some g) : some g ∈ gates := by
  obtain ⟨x, hx, e⟩ := mem_filterMap.1 (mem_of_getLast? h)
  exact e ▸ hx

/-- Every byte has its gate, and the stored gate is the newest. -/
structure Guarded (x : Traced γ) : Prop where
  length : x.gates.length = x.state.data.length
  stored : ∀ g, newest x.gates = some g → x.state.drain_allowed = some g

variable {x : Traced γ}

theorem Guarded.drain (h : Guarded x) (size : ℕ) :
    Guarded ⟨(x.state.drain size).2, x.gates.drop (x.state.count size)⟩ := by
  refine ⟨?_, fun g hg => ?_⟩
  · show (x.gates.drop _).length = (x.state.data.drop _).length
    rw [length_drop, length_drop, h.length]
  · show (if x.state.data.drop _ = [] then none else x.state.drain_allowed) = some g
    have hne : x.state.data.drop (x.state.count size) ≠ [] := by
      intro e
      have hlen := congrArg List.length e
      rw [length_drop, ← h.length, ← length_drop, length_nil] at hlen
      have hmem := newest_mem hg
      rw [length_eq_zero_iff.1 hlen] at hmem
      cases hmem
    rw [if_neg hne]
    exact h.stored g (newest_drop hg)

theorem guarded_empty (s : State γ) : Guarded ⟨s.interrupt, []⟩ := ⟨rfl, nofun⟩

theorem Guarded.put (h : Guarded x) (pcm : List UInt8) (generation : ℤ) (gate : Option γ) :
    Guarded (x.step (.put pcm generation gate)) := by
  have hgates : (x.step (.put pcm generation gate)).gates =
      if generation = x.state.generation then x.gates ++ List.replicate pcm.length gate else x.gates := rfl
  have hstate : (x.step (.put pcm generation gate)).state = (x.state.put pcm generation gate).2 := rfl
  rcases put_cases pcm generation gate with ⟨hg, e⟩ | ⟨hg, e⟩
  · rw [if_neg hg] at hgates
    rw [e] at hstate
    exact ⟨by rw [hgates, hstate, h.length], by rw [hgates, hstate]; exact h.stored⟩
  · rw [if_pos hg] at hgates
    rw [e] at hstate
    refine ⟨by rw [hgates, hstate, length_append, length_append, length_replicate, h.length], ?_⟩
    rw [hgates, hstate]
    intro g hnew
    by_cases hpcm : pcm = []
    · rw [if_neg fun hc => hc.1 hpcm]
      rw [hpcm, length_nil, replicate_zero, append_nil] at hnew
      exact h.stored g hnew
    cases gate with
    | some k =>
      rw [newest_append_some x.gates k (by rwa [Ne, length_eq_zero_iff])] at hnew
      rw [if_pos ⟨hpcm, .inr rfl⟩]
      exact hnew
    | none =>
      rw [newest_append_none] at hnew
      have hdata : x.state.data ≠ [] := by
        intro e
        have hlen := h.length
        rw [e, length_nil] at hlen
        have hmem := newest_mem hnew
        rw [length_eq_zero_iff.1 hlen] at hmem
        cases hmem
      rw [if_neg]
      · exact h.stored g hnew
      · rintro ⟨-, h | h⟩
        · exact hdata h
        · cases h

theorem Guarded.step (h : Guarded x) (op : Op γ) : Guarded (x.step op) := by
  cases op with
  | put pcm generation gate => exact h.put pcm generation gate
  | read size ask =>
    show Guarded ⟨(x.state.read size ask).2, if x.state.allowed ask then _ else []⟩
    unfold State.read
    by_cases ha : x.state.allowed ask
    · rw [if_pos ha, if_pos ha]
      exact h.drain size
    · rw [if_neg ha, if_neg ha, (drain_interrupt size).2]
      exact guarded_empty x.state
  | interrupt => exact guarded_empty x.state

/-- What a read gives out of gated bytes, the newest gate in the buffer allowed. -/
theorem Guarded.allowed (h : Guarded x) {size : ℕ} {ask : γ → Option Bool} {g : γ}
    (hg : some g ∈ (Op.read size ask).gates x) : ∃ k, newest x.gates = some k ∧ ask k = some true := by
  have hg : some g ∈ if x.state.allowed ask then x.gates.take (x.state.count size) else [] := hg
  by_cases ha : x.state.allowed ask
  · rw [if_pos ha] at hg
    have hmem := mem_of_mem_take hg
    obtain ⟨k, hk⟩ := exists_newest hmem
    refine ⟨k, hk, ?_⟩
    unfold State.allowed at ha
    rw [h.stored k hk] at ha
    simp only [Bool.or_eq_true, decide_eq_true_eq] at ha
    refine ha.resolve_left fun e => ?_
    have hlen := h.length
    rw [e, length_nil] at hlen
    rw [length_eq_zero_iff.1 hlen] at hmem
    cases hmem
  · rw [if_neg ha] at hg
    cases hg

/-- After any operations, PCM that was put with a gate goes out only by a read during which the newest gate in the
buffer returned `True`; a later put without a gate does not change that gate. Where the buffer has bytes of one
gate only, that gate itself returned `True`. -/
theorem gated_by_newest (ops : List (Op γ)) :
    let x := Runs.run Traced.step Traced.init ops
    x.state = Runs.run step init ops ∧ x.gates.length = x.state.data.length ∧
      (∀ size ask g, some g ∈ (Op.read size ask).gates x →
        (∃ k, newest x.gates = some k ∧ ask k = some true) ∧
          ((∀ k, some k ∈ x.gates → k = g) → ask g = some true)) ∧
      ∀ pcm, newest (x.step (.put pcm x.state.generation none)).gates = newest x.gates := by
  intro x
  have hx : Guarded x := Runs.run_invariant (P := Guarded) (fun _ op h => Guarded.step h op) ops ⟨rfl, nofun⟩
  refine ⟨?_, hx.length, fun size ask g hg => ⟨hx.allowed hg, fun hone => ?_⟩, fun pcm => ?_⟩
  · have hrun : ∀ (ops : List (Op γ)) (y : Traced γ),
        (Runs.run Traced.step y ops).state = Runs.run step y.state ops := by
      intro ops
      induction ops with
      | nil => exact fun _ => rfl
      | cons op ops ih => exact fun y => ih (y.step op)
    exact hrun ops Traced.init
  · obtain ⟨k, hk, hask⟩ := hx.allowed hg
    exact hone k (newest_mem hk) ▸ hask
  · have hgates : (x.step (.put pcm x.state.generation none)).gates =
        x.gates ++ List.replicate pcm.length none := if_pos rfl
    rw [hgates, newest_append_none]

/-- Two puts with different gates: the second gate alone lets all of it drain. -/
theorem replaced_gate_drains :
    let x := Runs.run Traced.step Traced.init [.put [1, 2] 0 (some false), .put [3, 4] 0 (some true)]
    let ask := fun gate : Bool => some gate
    some false ∈ (Op.read 4 ask).gates x ∧ ask false ≠ some true ∧ (x.state.read 4 ask).1 = [1, 2, 3, 4] := by
  decide

end StrixAlloy.Playback

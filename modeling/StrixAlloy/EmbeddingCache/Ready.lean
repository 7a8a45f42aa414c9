import StrixAlloy.EmbeddingCache.Cache

/-!
# Rows that are ready

Every valid entry was captured: its event is recorded in the stream, and from that record on the memory
of the entry is the row of its token (`Held`). The commands that follow spare it, as they write to places
apart from it, so that a completed event means that the row is there (`Good`).
-/

namespace StrixAlloy.EmbeddingCache

/-! ## Commands -/

/-- The command writes nothing to the row at `p`. -/
def Command.Spares (p : ℕ) : Command → Prop
  | .copy q _ | .upload q _ | .launch _ _ _ q => Regions.Apart rowBytes q p
  | .record _ => True

variable {f : Generation → ℤ → Row}

theorem Command.Spares.read {p : ℕ} {c : Command} (h : c.Spares p) (m : Memory) :
    (Regions.read (exec f m c) p : Row) = Regions.read m p := by
  cases c with
  | copy | upload | launch => exact Regions.read_write_of_apart h _ _
  | record => rfl

/-! ## Operations -/

/-- An operation touches the stream and the latch of failures alone. -/
structure Frame (s s' : State) : Prop where
  entries : s'.entries = s.entries
  generation : s'.generation = s.generation
  next_victim : s'.next_victim = s.next_victim
  initialized : s'.initialized = s.initialized
  failed : s'.failed = false → s.failed = false

theorem Frame.refl (s : State) : Frame s s := ⟨rfl, rfl, rfl, rfl, id⟩

theorem Frame.trans {s s' s'' : State} (h : Frame s s') (h' : Frame s' s'') : Frame s s'' where
  entries := h'.entries.trans h.entries
  generation := h'.generation.trans h.generation
  next_victim := h'.next_victim.trans h.next_victim
  initialized := h'.initialized.trans h.initialized
  failed := h.failed ∘ h'.failed

theorem frame_fail (s : State) : Frame s s.fail := ⟨rfl, rfl, rfl, rfl, fun h => by cases h⟩

variable (o : Oracle) (s : State)

theorem frame_turn : Frame s (s.turn o) where
  entries := rfl
  generation := rfl
  next_victim := rfl
  initialized := rfl
  failed h := by
    rw [State.turn, Bool.or_eq_false_iff] at h
    exact h.1

theorem turn_stream : (s.turn o).stream = s.stream.progress (s.answer o).progress := rfl

/-- A submission enqueues its command, except that one which fails may not. -/
theorem submit_spec (c : Command) :
    Frame s (s.submit o c).2 ∧
      ((s.submit o c).2.stream = (s.turn o).stream.enqueue c ∨
        (s.submit o c).1 = false ∧ (s.submit o c).2.stream = (s.turn o).stream) := by
  have hturn := frame_turn o s
  unfold State.submit
  dsimp only
  split
  · exact ⟨{ hturn with }, .inl rfl⟩
  · next h =>
    rw [Bool.or_eq_true, not_or] at h
    exact ⟨hturn, .inr ⟨by simpa using h.1, rfl⟩⟩

theorem frame_submit (c : Command) : Frame s (s.submit o c).2 := (submit_spec o s c).1

theorem frame_query (event : ℕ) : Frame s (s.query o event).2 := frame_turn o s

/-- A query that reports success does so after everything recorded to the event. -/
theorem completed_of_query {event : ℕ} (h : (s.query o event).1 = 0) :
    (s.query o event).2.stream.completed (Command.records event) := by
  unfold State.query at h ⊢
  dsimp only at h ⊢
  by_contra hpending
  rw [if_neg hpending] at h
  split at h
  · cases h
  · next hresult => exact hresult (.inl h)

theorem frame_synchronize : Frame s (s.synchronize o).2 := by
  unfold State.synchronize
  dsimp only
  split
  · exact ⟨rfl, rfl, rfl, rfl, (frame_turn o s).failed⟩
  · exact frame_turn o s

/-! ## Entries -/

/-- No two rows overlap and no two events agree. -/
def Geometry (entries : List Entry) : Prop :=
  entries.Pairwise fun d e => Regions.Apart rowBytes d.device e.device ∧ d.event ≠ e.event

/-- At most one valid entry has a token. -/
def UniqueTokens (entries : List Entry) : Prop :=
  ∀ (i j : ℕ) (d e : Entry), entries[i]? = some d → entries[j]? = some e → d.valid → e.valid →
    d.token = e.token → i = j

/-- The row of the entry was captured in the generation: from the record of its event on it is in the
memory of the entry. -/
def Held (f : Generation → ℤ → Row) (m₀ : Memory) (queue : List Command) (generation : Generation)
    (e : Entry) : Prop :=
  ∃ n, queue[n]? = some (.record e.event) ∧
    Fifo.Since (exec f) m₀ (fun m => (Regions.read m e.device : Row) = f generation e.token) queue n

variable {m₀ : Memory} {o s}

/-- A command that spares the row keeps it. -/
theorem Held.concat {queue : List Command} {generation : Generation} {e : Entry}
    (h : Held f m₀ queue generation e) {c : Command} (hc : c.Spares e.device) :
    Held f m₀ (queue ++ [c]) generation e := by
  obtain ⟨n, hn, hsince⟩ := h
  have hlt := (List.getElem?_eq_some_iff.1 hn).1
  refine ⟨n, by rwa [List.getElem?_append_left hlt], hsince.concat fun m hm => ?_⟩
  rw [hc.read, hm]

/-- A copy of the row into the entry, with the record of its event behind it, holds the row. -/
theorem held_capture {queue : List Command} {generation : Generation} {e : Entry} {output : ℕ}
    (h : (Regions.read (Fifo.after (exec f) m₀ queue) output : Row) = f generation e.token) :
    Held f m₀ (queue ++ [Command.copy e.device output] ++ [Command.record e.event]) generation e := by
  refine ⟨(queue ++ [Command.copy e.device output]).length, List.getElem?_concat_length, ?_⟩
  refine Fifo.Since.concat (Fifo.since_length ?_) fun m hm => hm
  rw [Fifo.after_concat, exec, Regions.read_write, h]

/-- What holds of the entries and the stream of a cache that was initialized. -/
structure Good (f : Generation → ℤ → Row) (m₀ : Memory) (s : State) : Prop where
  sound : s.stream.Sound
  geometry : Geometry s.entries
  unique : UniqueTokens s.entries
  held : ∀ e ∈ s.entries, e.valid → Held f m₀ s.stream.queue s.generation e

/-- The rows of the valid entries are apart from the place that a command writes. -/
def SparesValid (c : Command) (entries : List Entry) : Prop :=
  ∀ e ∈ entries, e.valid → c.Spares e.device

theorem sparesValid_record (event : ℕ) (entries : List Entry) : SparesValid (.record event) entries :=
  fun _ _ _ => trivial

section

variable (h : Good f m₀ s)
include h

/-- What an operation leaves that enqueues nothing. -/
theorem Good.still {s' : State} (hframe : Frame s s') (hqueue : s'.stream.queue = s.stream.queue)
    (hsound : s'.stream.Sound) : Good f m₀ s' where
  sound := hsound
  geometry := by rw [hframe.entries]; exact h.geometry
  unique := by rw [hframe.entries]; exact h.unique
  held := by
    rw [hframe.entries, hframe.generation, hqueue]
    exact h.held

theorem Good.turn : Good f m₀ (s.turn o) :=
  h.still (frame_turn o s) rfl (h.sound.progress _)

theorem Good.fail : Good f m₀ s.fail := h.still (frame_fail s) rfl h.sound

theorem Good.query (event : ℕ) : Good f m₀ (s.query o event).2 := h.turn

theorem Good.synchronize : Good f m₀ (s.synchronize o).2 := by
  refine h.still (frame_synchronize o s) ?_ ?_
  · unfold State.synchronize
    dsimp only
    split <;> rfl
  · unfold State.synchronize
    dsimp only
    split
    · exact (h.turn).sound.drain
    · exact (h.turn).sound

theorem Good.submit {c : Command} (hc : SparesValid c s.entries) :
    Good f m₀ (s.submit o c).2 := by
  obtain ⟨hframe, hstream | ⟨-, hstream⟩⟩ := submit_spec o s c
  · refine
      { sound := by rw [hstream]; exact (h.turn).sound.enqueue c
        geometry := by rw [hframe.entries]; exact h.geometry
        unique := by rw [hframe.entries]; exact h.unique
        held := ?_ }
    rw [hframe.entries, hframe.generation, hstream]
    intro e he hvalid
    exact (h.held e he hvalid).concat (hc e he hvalid)
  · refine h.still hframe ?_ ?_
    · rw [hstream, turn_stream, Fifo.progress]
    · rw [hstream]
      exact (h.turn).sound

theorem Good.ready (slot : ℕ) : Good f m₀ (ready o slot s).2 := by
  have hquery := h.query (o := o) (s.entries.getD slot .zero).event
  unfold EmbeddingCache.ready
  dsimp only
  split
  · exact hquery.fail
  · exact hquery

/-- A change of one entry keeps the rest, if it keeps the places of the entry and gives no token twice. -/
theorem Good.setEntry {slot : ℕ} {g : Entry → Entry} (hplaces : ∀ e, (g e).device = e.device ∧ (g e).event = e.event)
    (hheld : ∀ e, s.entries[slot]? = some e → (g e).valid → Held f m₀ s.stream.queue s.generation (g e))
    (hfree : ∀ e, s.entries[slot]? = some e → (g e).valid → ∀ (j : ℕ) (d : Entry), s.entries[j]? = some d → d.valid →
      d.token = (g e).token → j = slot) :
    Good f m₀ (s.setEntry slot g) where
  sound := h.sound
  geometry := by
    rw [Geometry, List.pairwise_iff_getElem]
    intro i j hi hj hij
    have hg := List.pairwise_iff_getElem.1 h.geometry i j (by simpa [State.setEntry] using hi)
      (by simpa [State.setEntry] using hj) hij
    simp only [State.setEntry, List.getElem_modify]
    split_ifs <;> simpa only [hplaces] using hg
  unique := by
    intro i j d e hd he hdv hev htoken
    simp only [State.setEntry, List.getElem?_modify, Option.map_eq_map, Option.map_eq_some_iff] at hd he
    obtain ⟨d₀, hd₀, rfl⟩ := hd
    obtain ⟨e₀, he₀, rfl⟩ := he
    split_ifs at hdv hev htoken with hi hj hj
    · rw [← hi, ← hj]
    · subst hi
      exact (hfree d₀ hd₀ hdv j e₀ he₀ hev htoken.symm).symm
    · subst hj
      exact hfree e₀ he₀ hev i d₀ hd₀ hdv htoken
    · exact h.unique i j d₀ e₀ hd₀ he₀ hdv hev htoken
  held := by
    intro e he hvalid
    obtain ⟨i, hi⟩ := List.mem_iff_getElem?.1 he
    simp only [State.setEntry, List.getElem?_modify, Option.map_eq_map, Option.map_eq_some_iff] at hi
    obtain ⟨e₀, he₀, rfl⟩ := hi
    split_ifs at hvalid ⊢ with hslot
    · subst hslot
      exact hheld e₀ he₀ hvalid
    · exact h.held e₀ (List.mem_of_getElem? he₀) hvalid

/-- No entry is left valid. -/
theorem Good.invalidate (generation : Generation) :
    Good f m₀ { s.invalidate with generation } where
  sound := h.sound
  geometry := by
    simp only [State.invalidate, Geometry, List.pairwise_map]
    exact h.geometry
  unique := by
    intro i j d e hd _ hdv
    simp only [State.invalidate, List.getElem?_map, Option.map_eq_some_iff] at hd
    obtain ⟨d₀, -, rfl⟩ := hd
    cases hdv
  held := by
    intro e he hvalid
    simp only [State.invalidate, List.mem_map] at he
    obtain ⟨e₀, -, rfl⟩ := he
    cases hvalid

end

end StrixAlloy.EmbeddingCache

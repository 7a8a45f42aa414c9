import StrixAlloy.EmbeddingCache.Ready

/-!
# Applications

What `ecache_apply_internal` leaves (`Applied`). A hit enqueues the copy of a ready row (`Copied`); a miss
leaves the original launch in the stream, once, and its output as the launch wrote it (`Original`),
whether or not the row is captured behind it; and an error is latched.
-/

namespace StrixAlloy.EmbeddingCache

open List

variable {f : Generation → ℤ → Row} {m₀ : Memory} {o : Oracle} {s : State}

/-! ## Lookups -/

/-- An operation that enqueues nothing. -/
structure Calm (s s' : State) : Prop extends Frame s s' where
  queue : s'.stream.queue = s.stream.queue
  stamps : s'.stream.stamps = s.stream.stamps

theorem Calm.refl (s : State) : Calm s s := ⟨.refl s, rfl, rfl⟩

theorem Calm.trans {s s' s'' : State} (h : Calm s s') (h' : Calm s' s'') : Calm s s'' :=
  ⟨h.toFrame.trans h'.toFrame, h'.queue.trans h.queue, h'.stamps.trans h.stamps⟩

theorem calm_fail (s : State) : Calm s s.fail := ⟨frame_fail s, rfl, rfl⟩

/-- What `ecache_ready` answers: an error is latched, and a ready entry is one whose event is complete. -/
theorem ready_spec (hg : Good f m₀ s) (slot : ℕ) :
    Good f m₀ (ready o slot s).2 ∧ Calm s (ready o slot s).2 ∧
      ((ready o slot s).1 = none → (ready o slot s).2.failed) ∧
      ((ready o slot s).1 = some true →
        (ready o slot s).2.stream.completed (Command.records (s.entries.getD slot .zero).event)) := by
  refine ⟨hg.ready slot, ?_⟩
  have hquery : Calm s (s.query o (s.entries.getD slot .zero).event).2 := ⟨frame_query o s _, rfl, rfl⟩
  have hcompleted := @completed_of_query o s (s.entries.getD slot .zero).event
  unfold ready
  dsimp only
  split
  · exact ⟨hquery.trans (calm_fail _), fun _ => rfl, by simp⟩
  · exact ⟨hquery, by simp, fun h => hcompleted (by simpa using h)⟩

/-- The search for a victim answers one of its candidates. -/
theorem findReady_spec (slots : List ℕ) (hg : Good f m₀ s) :
    Good f m₀ (findReady o slots s).2 ∧ Calm s (findReady o slots s).2 ∧
      ((findReady o slots s).1 = none → (findReady o slots s).2.failed) ∧
      ∀ slot, (findReady o slots s).1 = some (some slot) → slot ∈ slots := by
  induction slots generalizing s with
  | nil => exact ⟨hg, .refl s, by simp [findReady], by simp [findReady]⟩
  | cons slot slots ih =>
    obtain ⟨hgood, hcalm, herror, -⟩ := ready_spec hg slot
    unfold findReady
    rcases hready : ready o slot s with ⟨_ | _ | _, t⟩ <;> rw [hready] at hgood hcalm herror
    · exact ⟨hgood, hcalm, fun _ => herror rfl, by simp⟩
    · obtain ⟨hgood', hcalm', herror', hmem⟩ := ih hgood
      exact ⟨hgood', hcalm.trans hcalm', herror', fun i hi => mem_cons_of_mem _ (hmem i hi)⟩
    · exact ⟨hgood, hcalm, by simp, by simp⟩

/-- A slot may take the row of a token: no other entry has it. -/
def Free (s : State) (token : ℤ) (slot : ℕ) : Prop :=
  slot < s.entries.length ∧ ∀ (j : ℕ) (e : Entry), s.entries[j]? = some e → e.valid →
    e.token = token → j = slot

/-- The slot found for a token has it. -/
theorem find_some {token : ℤ} {slot : ℕ} (h : find s token = some slot) :
    ∃ e, s.entries[slot]? = some e ∧ e.valid ∧ e.token = token := by
  obtain ⟨hlt, hmatch, -⟩ := List.findIdx?_eq_some_iff_getElem.1 h
  rw [Bool.and_eq_true, decide_eq_true_eq] at hmatch
  exact ⟨_, List.getElem?_eq_getElem hlt, hmatch⟩

/-- Where none is found no valid entry has the token. -/
theorem find_none {token : ℤ} (h : find s token = none) {e : Entry} (he : e ∈ s.entries)
    (hvalid : e.valid) : e.token ≠ token := by
  intro htoken
  have := List.findIdx?_eq_none_iff.1 h e he
  simp [hvalid, htoken] at this

/-- The slot chosen for a token that no entry has is free. -/
theorem chooseSlot_spec (hg : Good f m₀ s) {token : ℤ} (hnone : find s token = none) :
    Good f m₀ (chooseSlot o s).2 ∧ Calm s (chooseSlot o s).2 ∧
      ((chooseSlot o s).1 = none → (chooseSlot o s).2.failed) ∧
      ∀ slot, (chooseSlot o s).1 = some (some slot) → Free s token slot := by
  have hfree : ∀ slot, slot < s.entries.length → Free s token slot := fun slot hlt =>
    ⟨hlt, fun j e he hvalid htoken => absurd htoken (find_none hnone (mem_of_getElem? he) hvalid)⟩
  unfold chooseSlot
  split
  · next slot h =>
    refine ⟨hg, .refl s, by simp, fun i hi => hfree i ?_⟩
    obtain rfl : slot = i := by simpa using hi
    exact (List.findIdx?_eq_some_iff_getElem.1 h).1
  · obtain ⟨hgood, hcalm, herror, hmem⟩ := findReady_spec (victims s) hg
    refine ⟨hgood, hcalm, herror, fun i hi => hfree i ?_⟩
    have hi := hmem i hi
    simp only [victims, mem_map, mem_range] at hi
    obtain ⟨offset, hlt, rfl⟩ := hi
    exact Nat.mod_lt _ (Nat.zero_lt_of_lt hlt)

/-! ## The original launch -/

/-- The command is an original launch. -/
def Command.launches : Command → Bool
  | .launch .. => true
  | _ => false

/-- The row at `p` is that of the token. -/
def Shows (f : Generation → ℤ → Row) (generation : Generation) (token : ℤ) (p : ℕ) (m : Memory) : Prop :=
  (Regions.read m p : Row) = f generation token

/-- The original ran on the pointers, once, and nothing wrote to its output since. -/
def Original (f : Generation → ℤ → Row) (m₀ : Memory) (s : State) (token : ℤ) (input output : ℕ)
    (s' : State) : Prop :=
  ∃ rest, s'.stream.queue = s.stream.queue ++ .launch s.generation token input output :: rest ∧
    (rest.all fun c => !c.launches) ∧
    Fifo.Since (exec f) m₀ (Shows f s.generation token output) s'.stream.queue
      (s.stream.queue.length + 1)

/-- What a part of a call leaves that ends with a code: an error is latched, and a miss leaves `miss`. -/
structure Ends (f : Generation → ℤ → Row) (m₀ : Memory) (s : State) (miss : State → Prop)
    (r : Code × State) : Prop where
  good : Good f m₀ r.2
  initialized : r.2.initialized = s.initialized
  generation : r.2.generation = s.generation
  error : r.1 = .error → r.2.failed
  miss : r.1 = .miss → miss r.2
  hit : r.1 ≠ .hit

/-- An error that is latched. -/
theorem ends_error {miss : State → Prop} {s' : State} (hg : Good f m₀ s') (hframe : Frame s s')
    (hfailed : s'.failed) : Ends f m₀ s miss (.error, s') :=
  ⟨hg, hframe.initialized, hframe.generation, fun _ => hfailed, by simp, by simp⟩

/-- An entry of a good state is apart from the others. -/
theorem Good.apart (hg : Good f m₀ s) {i j : ℕ} {d e : Entry} (hd : s.entries[i]? = some d)
    (he : s.entries[j]? = some e) (hij : i ≠ j) : Regions.Apart rowBytes d.device e.device := by
  obtain ⟨hi, rfl⟩ := List.getElem?_eq_some_iff.1 hd
  obtain ⟨hj, rfl⟩ := List.getElem?_eq_some_iff.1 he
  rcases Nat.lt_or_gt_of_ne hij with hlt | hgt
  · exact (pairwise_iff_getElem.1 hg.geometry i j hi hj hlt).1
  · exact (pairwise_iff_getElem.1 hg.geometry j i hj hi hgt).1.symm

/-- A submission that succeeds has enqueued its command. -/
theorem queue_of_submit {c : Command} (h : (s.submit o c).1) :
    (s.submit o c).2.stream.queue = s.stream.queue ++ [c] := by
  obtain ⟨-, hstream | ⟨hfailed, -⟩⟩ := submit_spec o s c
  · rw [hstream]
    rfl
  · rw [hfailed] at h
    cases h

/-- The stream of `s'` goes on with commands that launch nothing and spare the output. -/
def Follows (output : ℕ) (s s' : State) : Prop :=
  ∃ rest, s'.stream.queue = s.stream.queue ++ rest ∧ (rest.all fun c => !c.launches) ∧
    ∀ c ∈ rest, c.Spares output

/-- A capture follows the launch with a copy of its output and the record of the event. -/
theorem capture_spec (hg : Good f m₀ s) {token : ℤ} {output slot : ℕ} (hfree : Free s token slot)
    (hout : ∀ e ∈ s.entries, Regions.Apart rowBytes output e.device)
    (hrow : Shows f s.generation token output (Fifo.after (exec f) m₀ s.stream.queue)) :
    Ends f m₀ s (Follows output s) (capture o token output slot s) := by
  obtain ⟨hlt, hfree⟩ := hfree
  obtain ⟨e, he⟩ : ∃ e, s.entries[slot]? = some e := ⟨_, List.getElem?_eq_getElem hlt⟩
  have hmem := mem_of_getElem? he
  have hget : s.entries.getD slot .zero = e := by rw [getD_eq_getElem?_getD, he, Option.getD_some]
  -- the entry is invalid while its memory is written
  set s₁ := s.setEntry slot fun e => { e with valid := false } with hs₁
  have hgood₁ : Good f m₀ s₁ := hg.setEntry (fun e => ⟨rfl, rfl⟩) (by simp) (by simp)
  have hentry₁ : s₁.entries[slot]? = some { e with valid := false } := by
    simp [hs₁, State.setEntry, he]
  have hspares : SparesValid (.copy e.device output) s₁.entries := by
    intro d hd hvalid
    obtain ⟨j, hj⟩ := mem_iff_getElem?.1 hd
    have hne : slot ≠ j := by
      rintro rfl
      rw [hentry₁] at hj
      obtain rfl := Option.some.inj hj
      cases hvalid
    have hapart := hgood₁.apart hentry₁ hj hne
    exact hapart
  have hgood₂ := hgood₁.submit (o := o) hspares
  have hframe₂ := frame_submit o s₁ (.copy e.device output)
  have hqueue₂ := @queue_of_submit o s₁ (.copy e.device output)
  unfold capture
  rw [hget]
  dsimp only
  rw [← hs₁]
  rcases hsubmit₂ : s₁.submit o (.copy e.device output) with ⟨ok, s₂⟩
  rw [hsubmit₂] at hgood₂ hframe₂ hqueue₂
  dsimp only at hgood₂ hframe₂ hqueue₂ ⊢
  cases ok with
  | false => exact ⟨hgood₂.fail, hframe₂.initialized, hframe₂.generation, fun _ => rfl, by simp, by simp⟩
  | true =>
  have hqueue₂ : s₂.stream.queue = s.stream.queue ++ [.copy e.device output] := hqueue₂ rfl
  have hgood₃ := hgood₂.submit (o := o) (sparesValid_record e.event _)
  have hframe₃ := hframe₂.trans (frame_submit o s₂ (.record e.event))
  have hqueue₃ := @queue_of_submit o s₂ (.record e.event)
  rw [if_neg (by simp)]
  rcases hsubmit₃ : s₂.submit o (.record e.event) with ⟨ok, s₃⟩
  rw [hsubmit₃] at hgood₃ hframe₃ hqueue₃
  dsimp only at hgood₃ hframe₃ hqueue₃ ⊢
  cases ok with
  | false => exact ⟨hgood₃.fail, hframe₃.initialized, hframe₃.generation, fun _ => rfl, by simp, by simp⟩
  | true =>
  have hqueue₃ : s₃.stream.queue = s.stream.queue ++ [.copy e.device output] ++ [.record e.event] := by
    rw [hqueue₃ rfl, hqueue₂]
  rw [if_neg (by simp)]
  have hentry₃ : s₃.entries[slot]? = some { e with valid := false } := by rw [hframe₃.entries, hentry₁]
  have hgood₄ : Good f m₀ (s₃.setEntry slot fun e => { e with token, valid := true }) := by
    refine hgood₃.setEntry (fun e => ⟨rfl, rfl⟩) ?_ ?_
    · intro d hd _
      rw [hentry₃] at hd
      obtain rfl := Option.some.inj hd
      rw [hqueue₃, hframe₃.generation]
      exact held_capture (e := { e with token, valid := true }) hrow
    · intro d _ _ j d' hd' hvalid htoken
      rw [hframe₃.entries] at hd'
      simp only [hs₁, State.setEntry, List.getElem?_modify, Option.map_eq_map, Option.map_eq_some_iff] at hd'
      obtain ⟨d₀, hd₀, rfl⟩ := hd'
      split_ifs at hvalid htoken
      exact hfree j d₀ hd₀ hvalid htoken
  refine ⟨⟨hgood₄.sound, hgood₄.geometry, hgood₄.unique, hgood₄.held⟩, hframe₃.initialized,
    hframe₃.generation, by simp, fun _ => ⟨[.copy e.device output, .record e.event], ?_, rfl, ?_⟩, by simp⟩
  · change s₃.stream.queue = _
    rw [hqueue₃, append_assoc, singleton_append]
  · intro c hc
    rcases mem_cons.1 hc with rfl | hc
    · exact (hout e hmem).symm
    · obtain rfl := mem_singleton.1 hc
      trivial

/-- The original is launched once, and captured if there is a slot. -/
theorem runOriginal_spec (hg : Good f m₀ s) {token : ℤ} {input output : ℕ} {slot : Option ℕ}
    (hfree : ∀ i ∈ slot, Free s token i) (hout : ∀ e ∈ s.entries, Regions.Apart rowBytes output e.device) :
    Ends f m₀ s (Original f m₀ s token input output) (runOriginal o token input output slot s) := by
  unfold runOriginal
  split
  · next hfailed => exact ends_error hg (.refl s) hfailed
  have hspares : SparesValid (.launch s.generation token input output) s.entries :=
    fun e he _ => hout e he
  have hgood := hg.submit (o := o) hspares
  have hframe := frame_submit o s (.launch s.generation token input output)
  have hqueue := @queue_of_submit o s (.launch s.generation token input output)
  rcases hsubmit : s.submit o (.launch s.generation token input output) with ⟨ok, t⟩
  rw [hsubmit] at hgood hframe hqueue
  dsimp only at hgood hframe hqueue ⊢
  cases ok with
  | false => exact ends_error hgood.fail (hframe.trans (frame_fail t)) rfl
  | true =>
  have hqueue : t.stream.queue = s.stream.queue ++ [.launch s.generation token input output] := hqueue rfl
  rw [if_neg (by simp)]
  split
  · next hfailed => exact ends_error hgood hframe hfailed
  -- right after the launch its output is the row
  have hrow : Shows f s.generation token output (Fifo.after (exec f) m₀ t.stream.queue) := by
    rw [hqueue, Fifo.after_concat]
    exact Regions.read_write _ _ _
  have hlen : t.stream.queue.length = s.stream.queue.length + 1 := by
    rw [hqueue, length_append, length_singleton]
  have hsince := Fifo.since_length hrow
  rw [hlen] at hsince
  cases slot with
  | none =>
    exact ⟨hgood, hframe.initialized, hframe.generation, by simp, fun _ => ⟨[], hqueue, rfl, hsince⟩, by simp⟩
  | some slot =>
    have hfree' : Free t token slot := by
      obtain ⟨hlt, hfree⟩ := hfree slot rfl
      exact ⟨by rwa [hframe.entries], by rwa [hframe.entries]⟩
    have hends := capture_spec (o := o) hgood hfree' (by rwa [hframe.entries]) (by rwa [hframe.generation])
    refine ⟨hends.good, hends.initialized.trans hframe.initialized,
      hends.generation.trans hframe.generation, hends.error, fun hcode => ?_, hends.hit⟩
    obtain ⟨rest, hrest, hlaunches, hspares⟩ := hends.miss hcode
    refine ⟨rest, ?_, hlaunches, ?_⟩
    · rw [hrest, hqueue, append_assoc, singleton_append]
    · rw [hrest]
      exact hsince.append fun c hc m hm => by rwa [Shows, (hspares c hc).read]

/-! ## Hits -/

/-- The entry of the token is valid, and its event was recorded behind its row before `completed`
commands had taken effect. -/
def Lent (f : Generation → ℤ → Row) (m₀ : Memory) (s : State) (token : ℤ) (e : Entry) (completed : ℕ) :
    Prop :=
  e ∈ s.entries ∧ e.valid ∧ e.token = token ∧
    ∃ n < completed, s.stream.queue[n]? = some (.record e.event) ∧
      Fifo.Since (exec f) m₀ (Shows f s.generation token e.device) s.stream.queue n

/-- A copy of the row of a ready entry was enqueued, and brings the row of the token to the output. -/
def Copied (f : Generation → ℤ → Row) (m₀ : Memory) (s : State) (token : ℤ) (output : ℕ) (s' : State) :
    Prop :=
  ∃ e completed, Lent f m₀ s token e completed ∧
    s'.stream.queue = s.stream.queue ++ [.copy output e.device] ∧
    s'.stream.stamps = s.stream.stamps ++ [completed] ∧
    Shows f s.generation token output (Fifo.after (exec f) m₀ s'.stream.queue)

/-- A ready entry may be lent. -/
theorem lent_of_ready (hg : Good f m₀ s) {token : ℤ} {slot : ℕ} (hfind : find s token = some slot)
    (hready : (ready o slot s).1 = some true) :
    Lent f m₀ s token (s.entries.getD slot .zero) (ready o slot s).2.stream.done := by
  obtain ⟨e, he, hvalid, htoken⟩ := find_some hfind
  obtain ⟨-, hcalm, -, hcompleted⟩ := ready_spec hg slot
  have hget : s.entries.getD slot .zero = e := by rw [getD_eq_getElem?_getD, he, Option.getD_some]
  have hcompleted := hcompleted hready
  rw [hget] at hcompleted ⊢
  have hmem := mem_of_getElem? he
  obtain ⟨n, hn, hsince⟩ := hg.held e hmem hvalid
  refine ⟨hmem, hvalid, htoken, n, ?_, hn, ?_⟩
  · refine Fifo.lt_of_completed hcompleted (by rw [hcalm.queue]; exact hn) ?_
    simp [Command.records]
  · rw [htoken] at hsince
    exact hsince

/-- What the body of an application leaves. -/
structure Applied (f : Generation → ℤ → Row) (m₀ : Memory) (s : State) (lookup_hits : Bool) (token : ℤ)
    (input output : ℕ) (r : Code × State) : Prop where
  good : Good f m₀ r.2
  initialized : r.2.initialized = s.initialized
  generation : r.2.generation = s.generation
  error : r.1 = .error → r.2.failed
  miss : r.1 = .miss → Original f m₀ s token input output r.2
  hit : r.1 = .hit → lookup_hits ∧ Copied f m₀ s token output r.2

/-- The original after operations that enqueued nothing. -/
theorem Ends.applied {s t : State} (hcalm : Calm s t) {lookup_hits : Bool} {token : ℤ} {input output : ℕ}
    {r : Code × State} (h : Ends f m₀ t (Original f m₀ t token input output) r) :
    Applied f m₀ s lookup_hits token input output r where
  __ := h
  initialized := h.initialized.trans hcalm.initialized
  generation := h.generation.trans hcalm.generation
  miss hcode := by
    have hmiss := h.miss hcode
    unfold Original at hmiss
    rwa [hcalm.queue, hcalm.generation] at hmiss
  hit hcode := absurd hcode h.hit

theorem applied_error {s' : State} (hg : Good f m₀ s') (hframe : Frame s s') (hfailed : s'.failed)
    {lookup_hits : Bool} {token : ℤ} {input output : ℕ} :
    Applied f m₀ s lookup_hits token input output (.error, s') :=
  ⟨hg, hframe.initialized, hframe.generation, fun _ => hfailed, by simp, by simp⟩

/-- A hit copies the row of the ready entry. -/
theorem copyHit_spec {t : State} (hgt : Good f m₀ t) (hcalm : Calm s t) {token : ℤ}
    {input output slot : ℕ} (hlent : Lent f m₀ s token (s.entries.getD slot .zero) t.stream.done)
    (hout : ∀ e ∈ s.entries, Regions.Apart rowBytes output e.device) :
    Applied f m₀ s true token input output (copyHit o output slot t) := by
  set e := s.entries.getD slot .zero with he
  unfold copyHit
  split
  · next hfailed => exact applied_error hgt hcalm.toFrame hfailed
  rw [hcalm.entries, ← he]
  have hspares : SparesValid (.copy output e.device) t.entries := by
    rw [hcalm.entries]
    exact fun d hd _ => hout d hd
  have hgood := hgt.submit (o := o) hspares
  obtain ⟨hframe, hstream⟩ := submit_spec o t (.copy output e.device)
  rcases hsubmit : t.submit o (.copy output e.device) with ⟨ok, u⟩
  rw [hsubmit] at hgood hframe hstream
  dsimp only at hgood hframe hstream ⊢
  cases ok with
  | false => exact applied_error hgood.fail (hcalm.toFrame.trans (hframe.trans (frame_fail u))) rfl
  | true =>
    have hstream := hstream.resolve_right fun h => by cases h.1
    obtain ⟨hmem, hvalid, htoken, n, hn, hrecord, hsince⟩ := hlent
    have hqueue : u.stream.queue = s.stream.queue ++ [.copy output e.device] := by
      rw [hstream, Fifo.enqueue, turn_stream, Fifo.progress]
      rw [hcalm.queue]
    have hstamps : u.stream.stamps = s.stream.stamps ++ [(t.turn o).stream.done] := by
      rw [hstream, Fifo.enqueue, turn_stream, Fifo.progress]
      rw [hcalm.stamps]
    have hshows : Shows f s.generation token output (Fifo.after (exec f) m₀ u.stream.queue) := by
      rw [hqueue, Fifo.after_concat, exec, Shows, Regions.read_write]
      exact hsince.after
    have hlt := Nat.lt_of_lt_of_le hn (Fifo.done_le_progress hgt.sound (t.answer o).progress)
    rw [if_pos rfl]
    exact ⟨hgood, hframe.initialized.trans hcalm.initialized, hframe.generation.trans hcalm.generation,
      by simp, by simp, fun _ => ⟨rfl, e, _, ⟨hmem, hvalid, htoken, n, hlt, hrecord, hsince⟩, hqueue,
        hstamps, hshows⟩⟩

/-- The pointers of an application are apart from the rows. -/
theorem pointersOk_spec {input output : ℕ} (h : pointersOk s input output) :
    ∀ e ∈ s.entries, Regions.Apart rowBytes output e.device := by
  intro e he
  simp only [pointersOk, disjoint, Bool.and_eq_true, decide_eq_true_eq, all_eq_true] at h
  exact (h.2 e he).2.2

/-- What the body of an application leaves. -/
theorem applyBody_spec (hg : Good f m₀ s) (lookup_hits launch_ok : Bool) (token : ℤ) (input output : ℕ) :
    Applied f m₀ s lookup_hits token input output
      (applyBody o lookup_hits launch_ok token input output s) := by
  unfold applyBody
  split
  · exact applied_error hg.fail (frame_fail s) rfl
  next hargs =>
  rw [not_or, not_not, not_not] at hargs
  have hout := pointersOk_spec hargs.2
  have hnative : ∀ t : State, Good f m₀ t → Calm s t → Applied f m₀ s lookup_hits token input output
      (runOriginal o token input output none t) := fun t hgt hcalm =>
    (runOriginal_spec hgt (by simp) (by rwa [hcalm.entries])).applied hcalm
  split
  · exact hnative s hg (.refl s)
  split
  · next slot hfind =>
    have hready := ready_spec (o := o) hg slot
    have hlent := @lent_of_ready f m₀ o s hg token slot hfind
    rcases hcall : ready o slot s with ⟨_ | _ | _, t⟩ <;> rw [hcall] at hready hlent
    · exact applied_error hready.1 hready.2.1.toFrame (hready.2.2.1 rfl)
    · exact hnative t hready.1 hready.2.1
    · dsimp only
      split
      · next hhits =>
        rw [hhits]
        exact copyHit_spec hready.1 hready.2.1 (hlent rfl) hout
      · -- the entry of the token is captured again
        obtain ⟨e, he, hvalid, htoken⟩ := find_some hfind
        refine (runOriginal_spec hready.1 ?_ (by rwa [hready.2.1.entries])).applied hready.2.1
        intro i hi
        obtain rfl : slot = i := by simpa using hi
        rw [Free, hready.2.1.entries]
        refine ⟨(List.getElem?_eq_some_iff.1 he).1, fun j d hd hdv hdt => ?_⟩
        exact hg.unique j slot d e hd he hdv hvalid (hdt.trans htoken.symm)
  · next hfind =>
    have hchoose := chooseSlot_spec (o := o) hg hfind
    rcases hcall : chooseSlot o s with ⟨_ | slot, t⟩ <;> rw [hcall] at hchoose
    · exact applied_error hchoose.1 hchoose.2.1.toFrame (hchoose.2.2.1 rfl)
    · obtain ⟨hgood, hcalm, -, hfree⟩ := hchoose
      refine (runOriginal_spec hgood ?_ (by rwa [hcalm.entries])).applied hcalm
      intro i hi
      have hslot := hfree i (by simpa using hi)
      rwa [Free, hcalm.entries]

end StrixAlloy.EmbeddingCache

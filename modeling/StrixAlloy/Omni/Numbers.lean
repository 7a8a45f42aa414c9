import StrixAlloy.Omni.TextSession

/-!
# The numbers of the socket and of the session

The observed socket and the text session keep the numbers of the turn and of the last one separately.
Between two events of a turn they are the same (`Sync`), whatever the server sends, and the numbers of a
new response are higher than those of all earlier ones.
-/

namespace StrixAlloy.Omni

namespace Observed

/-- The numbers of the socket are the same. -/
structure SameNumbers (o o' : Observed) : Prop where
  turn_id : o'.turn_id = o.turn_id
  generation_id : o'.generation_id = o.generation_id
  last_turn : o'.last_turn = o.last_turn
  last_generation : o'.last_generation = o.last_generation

/-- What an event that the socket does not refuse does to its numbers. -/
inductive Numbers (o : Observed) (event : Members) (o' : Observed) : Prop where
  | old (generation : ℤ) (hgen : get event "generation_id" = .int generation)
      (hle : generation ≤ o.last_generation) (hsame : SameNumbers o o')
  | committed (turn : ℤ) (hkind : get event "type" = .str "input.committed")
      (hgen : get event "generation_id" = .null) (hturn : get event "turn_id" = .int turn)
      (hlt : o.last_turn < turn) (hnew : o'.turn_id = some turn)
      (hsame : o'.generation_id = o.generation_id ∧ o'.last_turn = o.last_turn ∧
        o'.last_generation = o.last_generation)
  | created (generation : ℤ) (hkind : get event "type" = .str "response.created")
      (hgen : get event "generation_id" = .int generation) (hlt : o.last_generation < generation)
      (hnew : o'.generation_id = some generation)
      (hsame : o'.turn_id = o.turn_id ∧ o'.last_turn = o.last_turn ∧
        o'.last_generation = o.last_generation)
  | metrics (turn generation : ℤ) (hkind : get event "type" = .str "metrics")
      (hcur : Current o event turn generation)
      (hnew : o'.last_turn = turn ∧ o'.last_generation = generation)
      (hsame : o'.turn_id = o.turn_id ∧ o'.generation_id = o.generation_id)
  | other (turn generation : ℤ)
      (hkind : ∀ kind ∈ ["input.committed", "response.created", "metrics"],
        get event "type" ≠ .str kind)
      (hcur : Current o event turn generation) (hsame : SameNumbers o o')

theorem SameNumbers.trans {o o' o'' : Observed} (h : SameNumbers o o') (h' : SameNumbers o' o'') :
    SameNumbers o o'' where
  turn_id := h'.turn_id.trans h.turn_id
  generation_id := h'.generation_id.trans h.generation_id
  last_turn := h'.last_turn.trans h.last_turn
  last_generation := h'.last_generation.trans h.last_generation

/-- A change of the socket that leaves its numbers alone. -/
theorem Numbers.same {o o' o'' : Observed} {event : Members} (h : Numbers o event o')
    (hs : SameNumbers o' o'') : Numbers o event o'' := by
  cases h with
  | old g hgen hle hsame => exact .old g hgen hle (hsame.trans hs)
  | committed v hkind hgen hturn hlt hnew hsame =>
    exact .committed v hkind hgen hturn hlt (hs.turn_id.trans hnew)
      ⟨hs.generation_id.trans hsame.1, hs.last_turn.trans hsame.2.1, hs.last_generation.trans hsame.2.2⟩
  | created g hkind hgen hlt hnew hsame =>
    exact .created g hkind hgen hlt (hs.generation_id.trans hnew)
      ⟨hs.turn_id.trans hsame.1, hs.last_turn.trans hsame.2.1, hs.last_generation.trans hsame.2.2⟩
  | metrics v g hkind hcur hnew hsame =>
    exact .metrics v g hkind hcur ⟨hs.last_turn.trans hnew.1, hs.last_generation.trans hnew.2⟩
      ⟨hs.turn_id.trans hsame.1, hs.generation_id.trans hsame.2⟩
  | other v g hkind hcur hsame => exact .other v g hkind hcur (hsame.trans hs)

theorem other_kind {event : Members} {kind : String} (h : get event "type" = .str kind)
    (hk : kind ∉ ["input.committed", "response.created", "metrics"]) :
    ∀ k ∈ ["input.committed", "response.created", "metrics"], get event "type" ≠ .str k := by
  intro k hmem e
  rw [h] at e
  rw [Json.str.inj e] at hk
  exact hk hmem

theorem Receives.numbers {o o' : Observed} {event : Members} {x : Option Members}
    (h : Receives o event o' x) (hs : o.session_id ≠ none) : Numbers o event o' := by
  cases h with
  | ready session_id hnone => exact absurd hnone hs
  | old generation _ hgen hle => exact .old generation hgen hle ⟨rfl, rfl, rfl, rfl⟩
  | committed turn _ hkind hgen hturn _ hlt =>
    exact .committed turn hkind hgen hturn hlt rfl ⟨rfl, rfl, rfl⟩
  | created turn generation _ hkind hgen hlt =>
    exact .created generation hkind hgen hlt rfl ⟨rfl, rfl, rfl⟩
  | skipped turn generation _ hkind hcur =>
    exact .other turn generation (other_kind hkind (by decide)) hcur ⟨rfl, rfl, rfl, rfl⟩
  | textDelta turn generation _ _ _ hkind hcur =>
    exact .other turn generation (other_kind hkind (by decide)) hcur ⟨rfl, rfl, rfl, rfl⟩
  | textDone turn generation _ _ _ hkind hcur =>
    exact .other turn generation (other_kind hkind (by decide)) hcur ⟨rfl, rfl, rfl, rfl⟩
  | cancelled turn generation _ hkind hcur =>
    exact .other turn generation (other_kind hkind (by decide)) hcur ⟨rfl, rfl, rfl, rfl⟩
  | metrics turn generation _ _ _ hkind hcur =>
    exact .metrics turn generation hkind hcur ⟨rfl, rfl⟩ ⟨rfl, rfl⟩

/-- The socket returns the event that it received. -/
theorem Receives.event {o o' : Observed} {event e : Members} (h : Receives o event o' (some e)) :
    event = e := by
  cases h <;> rfl

/-- An event that is passed over changes none of the numbers. -/
theorem Receives.of_skipped {o o' : Observed} {event : Members} (h : Receives o event o' none) :
    SameNumbers o o' := by
  cases h
  exact ⟨rfl, rfl, rfl, rfl⟩

/-- The socket keeps its session, and is closed only by its owner. -/
theorem Receives.session {o o' : Observed} {event : Members} {x : Option Members}
    (h : Receives o event o' x) : o'.closed = o.closed ∧ (o.session_id ≠ none → o'.session_id ≠ none) := by
  cases h with
  | ready => exact ⟨rfl, fun _ => Option.some_ne_none _⟩
  | old | committed | created | skipped | textDelta | textDone | cancelled | metrics =>
    exact ⟨rfl, fun h => h⟩

end Observed

/-- The socket and the session agree on the numbers of a turn that waits for its next event. -/
structure Sync (o : Observed) (t : Turn) (s : Session) : Prop where
  turn_id : o.turn_id = t.turn_id
  generation_id : o.generation_id = t.generation_id
  last_turn : o.last_turn = s.last_turn
  last_generation : o.last_generation = s.last_generation

section Sync

variable {o o' : Observed} {s : Session} {t t' : Turn} {event : Members}

/-- The socket keeps its numbers, and the turn too. -/
theorem Sync.same (h : Sync o t s) (hs : Observed.SameNumbers o o') (hturn : t'.turn_id = t.turn_id)
    (hgeneration : t'.generation_id = t.generation_id) : Sync o' t' s where
  turn_id := by rw [hs.turn_id, h.turn_id, hturn]
  generation_id := by rw [hs.generation_id, h.generation_id, hgeneration]
  last_turn := hs.last_turn.trans h.last_turn
  last_generation := hs.last_generation.trans h.last_generation

/-- An event of another kind leaves the numbers alone. -/
theorem same_of_kind {kind : String} (hkind : get event "type" = .str kind)
    (hk : kind ∉ ["input.committed", "response.created", "metrics"])
    (hn : Observed.Numbers o event o') : Observed.SameNumbers o o' := by
  cases hn with
  | old g hgen hle hsame => exact hsame
  | committed v hkind' => exact absurd hkind' (Observed.other_kind hkind hk _ (by simp))
  | created g hkind' => exact absurd hkind' (Observed.other_kind hkind hk _ (by simp))
  | metrics v g hkind' => exact absurd hkind' (Observed.other_kind hkind hk _ (by simp))
  | other v g _ _ hsame => exact hsame

/-- The `metrics` that the turn takes are those of the response for the socket too. -/
theorem numbers_of_metrics (h : Sync o t s) {turn generation : ℤ}
    (hkind : get event "type" = .str "metrics") (hcur : Turn.Current s t event turn generation)
    (hn : Observed.Numbers o event o') : o'.turn_id = some turn ∧ o'.generation_id = some generation ∧
      o'.last_turn = turn ∧ o'.last_generation = generation := by
  have hturn : o.turn_id = some turn := h.turn_id.trans hcur.turn_id
  have hgeneration : o.generation_id = some generation := h.generation_id.trans hcur.generation_id
  cases hn with
  | old g hgen hle =>
    rw [hcur.incoming] at hgen
    obtain rfl := Json.int.inj hgen
    have hnew := hcur.new
    rw [← h.last_generation] at hnew
    exact absurd hle (not_le.2 hnew)
  | committed v hkind' =>
    rw [hkind] at hkind'
    exact absurd (Json.str.inj hkind') (by decide)
  | created g hkind' =>
    rw [hkind] at hkind'
    exact absurd (Json.str.inj hkind') (by decide)
  | metrics v g _ hcur' hnew hsame =>
    rw [hcur'.turn_id] at hturn
    rw [hcur'.generation_id] at hgeneration
    cases hturn
    cases hgeneration
    exact ⟨hsame.1.trans hcur'.turn_id, hsame.2.trans hcur'.generation_id, hnew.1, hnew.2⟩
  | other v g hkinds => exact absurd hkind (hkinds _ (by simp))

/-- What an event does to the numbers of both sides. -/
theorem Sync.takes (h : Sync o t s) (hn : Observed.Numbers o event o') {x : Taken}
    (ht : Turn.Takes s t event x) : (∃ t' delta, x = .next t' delta ∧ Sync o' t' s) ∨
      ∃ r, x = .returned r ∧ o'.turn_id = some r.turn_id ∧ o'.generation_id = some r.generation_id ∧
        o'.last_turn = r.turn_id ∧ o'.last_generation = r.generation_id := by
  cases ht with
  | stale generation hgen hle =>
    refine .inl ⟨t, none, rfl, h.same ?_ rfl rfl⟩
    cases hn with
    | old _ _ _ hsame => exact hsame
    | committed _ _ hgen' =>
      rw [hgen] at hgen'
      cases hgen'
    | created g _ hgen' hlt =>
      rw [hgen] at hgen'
      obtain rfl := Json.int.inj hgen'
      rw [h.last_generation] at hlt
      exact absurd hle (not_le.2 hlt)
    | metrics _ g _ hcur =>
      have hgen' := hcur.incoming
      rw [hgen] at hgen'
      obtain rfl := Json.int.inj hgen'
      have hnew := hcur.new
      rw [h.last_generation] at hnew
      exact absurd hle (not_le.2 hnew)
    | other _ _ _ _ hsame => exact hsame
  | committed turn hkind hturn hnone hlt hnew =>
    refine .inl ⟨_, none, rfl, ?_⟩
    cases hn with
    | old g hgen hle =>
      refine absurd ?_ hnew
      unfold Turn.stale
      rw [hgen]
      rw [h.last_generation] at hle
      exact decide_eq_true hle
    | committed v _ _ hturn' _ hnew' hsame =>
      rw [hturn] at hturn'
      obtain rfl := Json.int.inj hturn'
      exact ⟨hnew', hsame.1.trans h.generation_id, hsame.2.1.trans h.last_turn,
        hsame.2.2.trans h.last_generation⟩
    | created g hkind' =>
      rw [hkind] at hkind'
      exact absurd (Json.str.inj hkind') (by decide)
    | metrics v g hkind' =>
      rw [hkind] at hkind'
      exact absurd (Json.str.inj hkind') (by decide)
    | other v g hkinds => exact absurd hkind (hkinds _ (by simp))
  | created turn generation hkind hgen hturn hid hnone hlt =>
    refine .inl ⟨_, none, rfl, ?_⟩
    cases hn with
    | old g hgen' hle =>
      rw [hgen] at hgen'
      obtain rfl := Json.int.inj hgen'
      rw [← h.last_generation] at hlt
      exact absurd hle (not_le.2 hlt)
    | committed v hkind' =>
      rw [hkind] at hkind'
      exact absurd (Json.str.inj hkind') (by decide)
    | created g _ hgen' _ hnew hsame =>
      rw [hgen] at hgen'
      obtain rfl := Json.int.inj hgen'
      exact ⟨hsame.1.trans h.turn_id, hnew, hsame.2.1.trans h.last_turn,
        hsame.2.2.trans h.last_generation⟩
    | metrics v g hkind' =>
      rw [hkind] at hkind'
      exact absurd (Json.str.inj hkind') (by decide)
    | other v g hkinds => exact absurd hkind (hkinds _ (by simp))
  | silent turn generation hkind =>
    exact .inl ⟨_, none, rfl, h.same (same_of_kind hkind (by decide) hn) rfl rfl⟩
  | textDelta turn generation delta hkind =>
    exact .inl ⟨_, _, rfl, h.same (same_of_kind hkind (by decide) hn) rfl rfl⟩
  | textDone turn generation text hkind =>
    exact .inl ⟨_, none, rfl, h.same (same_of_kind hkind (by decide) hn) rfl rfl⟩
  | cancelled turn generation hkind =>
    exact .inl ⟨_, none, rfl, h.same (same_of_kind hkind (by decide) hn) rfl rfl⟩
  | dropped turn generation hkind hcur => exact .inr ⟨_, rfl, numbers_of_metrics h hkind hcur hn⟩
  | reply turn generation done hkind hcur =>
    exact .inr ⟨_, rfl, numbers_of_metrics h hkind hcur hn⟩

theorem Sync.takes_next (h : Sync o t s) (hn : Observed.Numbers o event o') {delta : Option String}
    (ht : Turn.Takes s t event (.next t' delta)) : Sync o' t' s := by
  rcases h.takes hn ht with ⟨t1, d, he, h⟩ | ⟨r, he, -⟩
  · cases he
    exact h
  · cases he

/-- A delta is of a response that has its numbers. -/
theorem Turn.Takes.of_delta {delta : String} (h : Turn.Takes s t event (.next t' (some delta))) :
    ∃ turn generation, t'.turn_id = some turn ∧ t'.generation_id = some generation := by
  generalize hx : Taken.next t' (some delta) = x at h
  cases h with
  | textDelta turn generation _ _ hcur =>
    obtain ⟨rfl, -⟩ := Taken.next.inj hx
    exact ⟨turn, generation, hcur.turn_id, hcur.generation_id⟩
  | _ => cases hx

end Sync

end StrixAlloy.Omni

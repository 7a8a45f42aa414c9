import StrixAlloy.Pld.Handoff
import Mathlib.Data.List.DropRight
import Mathlib.Data.List.Infix

/-!
# The chain of sealed outcomes

The sealed events of `NativeOutcomeHandoff` form one chain from the seed (`Linked`), whose ids are pairwise distinct
(`Distinct`). `Inv` says of a state that this holds, and of a live one what its three arrays of ids hold (`Live`) and
what a preview has checked (`Pending`). A call that seals nothing is `Quiet`.
-/

namespace StrixAlloy.Pld

open Packing Runs List Function

/-! ## Chains -/

/-- The ids that an event emits. -/
def AuthoritativeOutcome.outputs (e : AuthoritativeOutcome) : List ℤ :=
  (List.range e.count).map fun i => e.output_ids.getD i 0

/-- The ids that events emit one after another. -/
def outputsOf (events : List AuthoritativeOutcome) : List ℤ := events.flatMap AuthoritativeOutcome.outputs

/-- Where a chain from `seed` ends. -/
def chainEnd (seed : RoundReservation) (events : List AuthoritativeOutcome) : RoundReservation :=
  events.foldl (fun _ e => e.next) seed

/-- The reservations of a chain. -/
def nodesOf (seed : RoundReservation) (events : List AuthoritativeOutcome) : List RoundReservation :=
  seed :: events.map AuthoritativeOutcome.next

/-- A reservation is where the outputs of the events lead from the seed. -/
structure Reached (seed : RoundReservation) (events : List AuthoritativeOutcome) (r : RoundReservation) : Prop where
  window : r.frontier.window = (seed.frontier.window ++ outputsOf events).rtake kMaxWindowTokens
  prefix_length : r.frontier.prefix_length = seed.frontier.prefix_length + (outputsOf events).length
  target_position : r.frontier.target_position = seed.frontier.target_position + (outputsOf events).length
  generation : r.generation = events.length + 1
  owner : r.frontier.owner = seed.frontier.owner

/-- The first outputs are those that a selected proposal has. -/
structure Verified (external : RecordedExternalProposal) (count : ℕ) (outputs : List ℤ) : Prop where
  selected : external.selected
  agrees : outputs.take count <+: external.ids

/-- An event continues the chain of the events before it. -/
structure Linked (seed : RoundReservation) (before : List AuthoritativeOutcome) (e : AuthoritativeOutcome) : Prop where
  source : e.source = chainEnd seed before
  next : Reached seed (before ++ [e]) e.next
  sequence : e.outcome_sequence = before.length + 1
  count : 1 ≤ e.count ∧ e.count ≤ kMaxOutputs
  accepted : e.native_matched_count = e.count - 1
  verified : e.external_use = .verified → Verified e.external e.native_matched_count e.outputs

/-- Each outcome is linked to what came before it. -/
def Chain (seed : RoundReservation) (events : List AuthoritativeOutcome) : Prop :=
  ∀ before e after, events = before ++ e :: after → Linked seed before e

/-- No id occurs twice. -/
structure Distinct (nodes : List RoundReservation) : Prop where
  rounds : (nodes.map RoundReservation.round_id).Nodup
  frontiers : (nodes.map fun r => r.frontier.frontier_id).Nodup
  windows : (nodes.map fun r => r.frontier.window_id).Nodup

variable {seed : RoundReservation} {events : List AuthoritativeOutcome} {e : AuthoritativeOutcome}

@[simp]
theorem chainEnd_concat : chainEnd seed (events ++ [e]) = e.next := by simp [chainEnd]

@[simp]
theorem nodesOf_concat : nodesOf seed (events ++ [e]) = nodesOf seed events ++ [e.next] := by simp [nodesOf]

@[simp]
theorem outputsOf_concat : outputsOf (events ++ [e]) = outputsOf events ++ e.outputs := by simp [outputsOf]

@[simp]
theorem length_nodesOf : (nodesOf seed events).length = events.length + 1 := by simp [nodesOf]

@[simp]
theorem AuthoritativeOutcome.length_outputs : e.outputs.length = e.count := by simp [outputs]

@[simp]
theorem Frontier.length_window (f : Frontier) : f.window.length = f.window_count := by simp [window]

theorem chain_nil : Chain seed [] := fun before _ _ heq => absurd heq.symm (by simp)

/-- A linked outcome prolongs the chain. -/
theorem chain_concat (h : Chain seed events) (he : Linked seed events e) : Chain seed (events ++ [e]) := by
  intro before x after heq
  rcases eq_nil_or_concat after with rfl | ⟨after, y, rfl⟩
  · obtain ⟨rfl, hx⟩ := append_inj' heq rfl
    obtain rfl : e = x := by simpa using hx
    exact he
  · rw [concat_eq_append, ← cons_append, ← append_assoc] at heq
    obtain ⟨rfl, -⟩ := append_inj' heq rfl
    exact h before x after rfl

theorem nodup_map_concat {α β : Type*} {f : α → β} {l : List α} {x : α} (h : (l.map f).Nodup) (hx : f x ∉ l.map f) :
    ((l ++ [x]).map f).Nodup := by
  rw [map_append, map_singleton, ← concat_eq_append]
  exact h.concat hx

/-- New identifiers stay distinct. -/
theorem distinct_concat {nodes : List RoundReservation} {r : RoundReservation} (h : Distinct nodes)
    (hr : r.round_id ∉ nodes.map RoundReservation.round_id)
    (hf : r.frontier.frontier_id ∉ nodes.map fun r => r.frontier.frontier_id)
    (hw : r.frontier.window_id ∉ nodes.map fun r => r.frontier.window_id) : Distinct (nodes ++ [r]) :=
  ⟨nodup_map_concat h.rounds hr, nodup_map_concat h.frontiers hf, nodup_map_concat h.windows hw⟩

/-- Taking the last entries before more are added loses none of the last entries. -/
theorem rtake_append_rtake {α : Type*} (n : ℕ) (a b : List α) : (a.rtake n ++ b).rtake n = (a ++ b).rtake n := by
  simp only [rtake_eq_reverse_take_reverse, reverse_append, reverse_reverse]
  rw [take_append, take_append, take_take, length_reverse]
  rw [min_eq_left (Nat.sub_le _ _)]

/-! ## Arrays -/

/-- The first `n` entries of an array. -/
def entries (f : ℕ → Bytes) (n : ℕ) : List Bytes := (List.range n).map f

theorem entries_update (f : ℕ → Bytes) (n : ℕ) (x : Bytes) :
    entries (update f n x) (n + 1) = entries f n ++ [x] := by
  rw [entries, range_succ, map_append, map_singleton, update_self, entries]
  congr 1
  refine map_congr_left fun i hi => ?_
  exact update_of_ne (mem_range.1 hi).ne x f

theorem not_mem_entries {f : ℕ → Bytes} {n : ℕ} {x : Bytes} (h : (List.range n).all fun i => x ≠ f i) :
    x ∉ entries f n := by
  intro hx
  obtain ⟨i, hi, rfl⟩ := mem_map.1 hx
  simpa using all_eq_true.1 h i hi

/-! ## The invariant -/

namespace NativeOutcomeHandoff

/-- The reservations of the chain, from the seed on. -/
def nodes (s : NativeOutcomeHandoff) : List RoundReservation := nodesOf s.seed s.events

/-- The round that a preview has reserved. -/
def provisional (s : NativeOutcomeHandoff) : List Bytes :=
  if s.status = .preview then [s.pending.next_round_id] else []

/-- An outcome may still be sealed. -/
def live (s : NativeOutcomeHandoff) : Prop := s.status = .sealed ∨ s.status = .active ∨ s.status = .preview

end NativeOutcomeHandoff

/-- The ids that a copy emits. -/
def OutcomeCopy.outputs (c : OutcomeCopy) : List ℤ := (List.range c.count).map fun i => c.output_ids.getD i 0

/-- What a preview has checked. -/
structure Pending (s : NativeOutcomeHandoff) : Prop where
  count : 1 ≤ s.pending.count ∧ s.pending.count ≤ kMaxOutputs
  accepted : s.pending.native_matched_count = s.pending.count - 1
  sequence : s.pending.outcome_sequence = s.next_sequence
  fresh : s.pending.next_round_id ∉ s.nodes.map RoundReservation.round_id
  bounded : s.current.frontier.prefix_length + s.pending.count ≤ maxWord
  target : s.pending.target_position_after = s.current.frontier.target_position + s.pending.count
  verified : s.pending.external_use = .verified →
    Verified s.external s.pending.native_matched_count s.pending.outputs
  room : s.events.length < kEventBudget

/-- What the arrays of a live handoff hold. -/
structure Live (s : NativeOutcomeHandoff) : Prop where
  initialized : s.initialized
  reached : Reached s.seed s.events s.current
  used : s.reservation_used = s.nodes.length + s.provisional.length
  rounds : entries s.reserved_ids s.reservation_used = s.nodes.map RoundReservation.round_id ++ s.provisional
  frontiers : entries s.frontier_ids s.nodes.length = s.nodes.map fun r => r.frontier.frontier_id
  windows : entries s.window_ids s.nodes.length = s.nodes.map fun r => r.frontier.window_id
  pending : s.status = .preview → Pending s

/-- What every operation keeps. -/
structure Inv (s : NativeOutcomeHandoff) : Prop where
  chain : Chain s.seed s.events
  current : s.current = chainEnd s.seed s.events
  distinct : Distinct s.nodes
  popped : s.popped = s.events.take s.event_read
  read : s.event_read ≤ s.events.length
  sequence : s.next_sequence = s.events.length + 1
  budget : s.events.length ≤ kEventBudget
  recorded : s.external.ids.length = s.external.count
  blank : s.initialized = false → s.events = []
  live : s.live → Live s

theorem inv_init : Inv {} where
  chain := chain_nil
  current := rfl
  distinct := ⟨by simp [NativeOutcomeHandoff.nodes, nodesOf], by simp [NativeOutcomeHandoff.nodes, nodesOf],
    by simp [NativeOutcomeHandoff.nodes, nodesOf]⟩
  popped := rfl
  read := Nat.zero_le _
  sequence := rfl
  budget := Nat.zero_le _
  recorded := rfl
  blank := fun _ => rfl
  live := by simp [NativeOutcomeHandoff.live]

/-! ## Calls that seal nothing -/

/-- A call leaves the chain and the arrays, and what it makes of the status calls for nothing new. -/
structure Quiet (s t : NativeOutcomeHandoff) : Prop where
  events : t.events = s.events
  current : t.current = s.current
  seed : t.seed = s.seed
  popped : t.popped = s.popped
  event_read : t.event_read = s.event_read
  next_sequence : t.next_sequence = s.next_sequence
  reserved_ids : t.reserved_ids = s.reserved_ids
  reservation_used : t.reservation_used = s.reservation_used
  frontier_ids : t.frontier_ids = s.frontier_ids
  window_ids : t.window_ids = s.window_ids
  initialized : t.initialized = false → s.initialized = false
  recorded : s.external.ids.length = s.external.count → t.external.ids.length = t.external.count
  status : ¬ t.live ∨ (t.status = s.status ∧ t.pending = s.pending ∧ (s.status = .preview → t.external = s.external)) ∨
    (s.status = .sealed ∧ t.status = .active)

variable {s t : NativeOutcomeHandoff}

theorem quiet_nodes (q : Quiet s t) : t.nodes = s.nodes := by
  rw [NativeOutcomeHandoff.nodes, q.seed, q.events, NativeOutcomeHandoff.nodes]

theorem live_quiet (h : Live s) (q : Quiet s t) (hprov : t.provisional = s.provisional)
    (hpending : t.status = .preview → Pending t) : Live t where
  initialized := by
    by_contra hc
    rw [Bool.not_eq_true] at hc
    exact absurd h.initialized (by rw [q.initialized hc]; exact Bool.false_ne_true)
  reached := by
    rw [q.seed, q.events, q.current]
    exact h.reached
  used := by rw [q.reservation_used, quiet_nodes q, hprov, h.used]
  rounds := by rw [q.reserved_ids, q.reservation_used, quiet_nodes q, hprov, h.rounds]
  frontiers := by rw [q.frontier_ids, quiet_nodes q, h.frontiers]
  windows := by rw [q.window_ids, quiet_nodes q, h.windows]
  pending := hpending

theorem pending_quiet (h : Pending s) (q : Quiet s t) (hp : t.pending = s.pending) (hx : t.external = s.external) :
    Pending t where
  count := hp ▸ h.count
  accepted := hp ▸ h.accepted
  sequence := by rw [hp, q.next_sequence, h.sequence]
  fresh := by
    rw [hp, quiet_nodes q]
    exact h.fresh
  bounded := by
    rw [hp, q.current]
    exact h.bounded
  target := by rw [hp, q.current, h.target]
  verified := by
    rw [hp, hx]
    exact h.verified
  room := q.events ▸ h.room

/-- A quiet call keeps the invariant. -/
theorem inv_quiet (h : Inv s) (q : Quiet s t) : Inv t where
  chain := by
    rw [q.seed, q.events]
    exact h.chain
  current := by rw [q.current, q.seed, q.events, h.current]
  distinct := quiet_nodes q ▸ h.distinct
  popped := by rw [q.popped, q.events, q.event_read, h.popped]
  read := by
    rw [q.event_read, q.events]
    exact h.read
  sequence := by rw [q.next_sequence, q.events, h.sequence]
  budget := q.events ▸ h.budget
  recorded := q.recorded h.recorded
  blank := fun ht => by rw [q.events, h.blank (q.initialized ht)]
  live := fun ht => by
    obtain hs | ⟨hs, hp, hx⟩ | ⟨hs, hs'⟩ := q.status
    · exact absurd ht hs
    · have hlive := h.live (by rw [NativeOutcomeHandoff.live, ← hs]; exact ht)
      refine live_quiet hlive q ?_ fun hpre => ?_
      · rw [NativeOutcomeHandoff.provisional, hs, hp, NativeOutcomeHandoff.provisional]
      · rw [hs] at hpre
        exact pending_quiet (hlive.pending hpre) q hp (hx hpre)
    · -- the round is adopted
      refine live_quiet (h.live (.inl hs)) q ?_ fun hpre => absurd (hs' ▸ hpre) nofun
      rw [NativeOutcomeHandoff.provisional, hs', NativeOutcomeHandoff.provisional, hs]
      rfl

/-- A change of the fields that the chain does not rest on. -/
theorem quiet_refl (s : NativeOutcomeHandoff) : Quiet s s :=
  ⟨rfl, rfl, rfl, rfl, rfl, rfl, rfl, rfl, rfl, rfl, id, id, .inr (.inl ⟨rfl, rfl, fun _ => rfl⟩)⟩

theorem quiet_retire (s : NativeOutcomeHandoff) : Quiet s s.retire := by
  unfold NativeOutcomeHandoff.retire
  split
  · exact quiet_refl s
  · refine { quiet_refl s with recorded := fun _ => rfl, status := .inl ?_ }
    simp [NativeOutcomeHandoff.live]

theorem quiet_ledger (q : Quiet s t) (l : OneShotLedger) : Quiet s { t with ledger := l } := { q with }

/-- An adoption changes no outcome. -/
theorem quiet_adoptRound (s : NativeOutcomeHandoff) (actual : Frontier) (q : Qualification) :
    Quiet s (s.adoptRound actual q).1 := by
  unfold NativeOutcomeHandoff.adoptRound
  split
  · exact quiet_retire s
  · rename_i h
    simp only [Bool.or_eq_true, decide_eq_true_eq, not_or, not_not] at h
    exact { quiet_refl s with recorded := fun _ => rfl, status := .inr (.inr ⟨h.1.1.1.1, rfl⟩) }

theorem quiet_atSeam (s : NativeOutcomeHandoff) (capture : SeamCapture) (packet : Option PreparedPacket)
    (frame : SavedFrame) : Quiet s (s.atSeam capture packet frame).1 ∧
      ((s.atSeam capture packet frame).2.2 ≠ none → (s.atSeam capture packet frame).1.status = .active) := by
  unfold NativeOutcomeHandoff.atSeam
  split
  · exact ⟨quiet_refl s, fun h => absurd rfl h⟩
  · rename_i hs
    have hseen : Quiet s { s with seam_seen := true } := { quiet_refl s with }
    simp only [ne_eq, Bool.or_eq_true, decide_eq_true_eq, not_or, not_not] at hs
    split
    · exact ⟨{ quiet_retire { s with seam_seen := true } with }, fun h => absurd rfl h⟩
    · split
      · exact ⟨hseen, fun h => absurd rfl h⟩
      · exact ⟨hseen, fun _ => hs.1⟩

theorem length_idsOf (packet : Bytes) (count : ℕ) : (idsOf packet count).length = count := by simp [idsOf]

/-- The seam changes no outcome. -/
theorem quiet_consume (s : NativeOutcomeHandoff) (capture : SeamCapture) (packet : Option PreparedPacket)
    (frame : SavedFrame) : Quiet s (s.consumeAtSeam capture packet frame).1 := by
  obtain ⟨hq, hactive⟩ := quiet_atSeam s capture packet frame
  unfold NativeOutcomeHandoff.consumeAtSeam
  simp only
  split
  · exact quiet_ledger hq _
  · rename_i publication hp
    have hs := hactive (by rw [hp]; exact Option.some_ne_none _)
    split
    · exact quiet_ledger hq _
    · refine { hq with recorded := fun _ => ?_, status := ?_ }
      · rw [length_map, length_idsOf]
      · obtain h | ⟨h, hpend, -⟩ | h := hq.status
        · exact .inl h
        · exact .inr (.inl ⟨h, hpend, fun hpre => absurd (hs.symm.trans (h.trans hpre)) nofun⟩)
        · exact .inr (.inr h)

/-! ## The seed -/

theorem window_rtake {f : Frontier} {tokens : TokenDefinitions} (h : f.valid tokens) :
    f.window.rtake kMaxWindowTokens = f.window := by
  have hcount : f.window_count ≤ kMaxWindowTokens := by
    simp only [Frontier.valid, Bool.and_eq_true, decide_eq_true_eq] at h
    tauto
  rw [List.rtake, f.length_window, Nat.sub_eq_zero_of_le hcount, drop_zero]

/-- An initialization starts a chain of no outcomes. -/
theorem inv_initialize (h : Inv s) (enabled : Bool) (copy : SeedCopy) : Inv (s.initialize_ enabled copy).1 := by
  unfold NativeOutcomeHandoff.initialize_
  split
  · exact h
  · split
    · exact inv_quiet h (quiet_retire s)
    · rename_i hs
      simp only [Bool.or_eq_true, decide_eq_true_eq, not_or, Bool.not_eq_true] at hs
      have hnil := h.blank hs.1
      simp only
      split
      · have hblank : Quiet s { s with initialized := true } := { quiet_refl s with initialized := nofun }
        exact inv_quiet (inv_quiet h hblank) (quiet_retire _)
      · rename_i hcopy
        simp only [Bool.or_eq_true, Bool.not_eq_true', not_or, Bool.not_eq_false] at hcopy
        -- the seed is the only node, and the first entry of each array
        constructor
        · simp only [hnil]
          exact chain_nil
        · simp only [hnil]
          rfl
        · simp only [NativeOutcomeHandoff.nodes, nodesOf, hnil, map_nil]
          exact ⟨nodup_singleton _, nodup_singleton _, nodup_singleton _⟩
        · exact h.popped
        · exact h.read
        · exact h.sequence
        · exact h.budget
        · exact h.recorded
        · exact nofun
        · intro
          constructor
          · rfl
          · simp only [hnil]
            constructor
            · simp [outputsOf, window_rtake hcopy.1.2]
            all_goals rfl
          all_goals simp [NativeOutcomeHandoff.nodes, NativeOutcomeHandoff.provisional, nodesOf, hnil, entries]

/-! ## Previews -/

/-- A round that no reservation used is new to the chain. -/
theorem mem_nodes_rounds {x : Bytes} (h : Live s) (hx : x ∉ entries s.reserved_ids s.reservation_used) :
    x ∉ s.nodes.map RoundReservation.round_id := by
  rw [h.rounds, mem_append, not_or] at hx
  exact hx.1

/-- What `previewable` has checked. -/
structure Previewable (s : NativeOutcomeHandoff) (copy : OutcomeCopy) : Prop where
  status : s.status = .active
  sequence : copy.outcome_sequence = s.next_sequence
  count : 1 ≤ copy.count ∧ copy.count ≤ kMaxOutputs
  accepted : copy.native_matched_count = copy.count - 1
  room : s.events.length < kEventBudget
  bounded : s.current.frontier.prefix_length + copy.count ≤ maxWord
  target : copy.target_position_after = s.current.frontier.target_position + copy.count
  fresh : copy.next_round_id ∉ entries s.reserved_ids s.reservation_used
  verified : copy.external_use = .verified → s.external.selected ∧ s.matchesExternal copy

/-- What the checks of a preview say. -/
theorem previewable_spec {copy : OutcomeCopy} {route : Route} (h : s.previewable copy route) : Previewable s copy := by
  simp only [NativeOutcomeHandoff.previewable, Bool.and_eq_true, Bool.or_eq_true, decide_eq_true_eq, Bool.not_eq_true',
    NativeOutcomeHandoff.exhausted, Bool.or_eq_false_iff, decide_eq_false_iff_not, not_le, and_assoc] at h
  obtain ⟨hstatus, -, -, -, hseq, hpos, hmax, hacc, -, hroom, -, hprefix, -, htarget, -, huse, hfresh, -, hver⟩ := h
  refine ⟨hstatus, hseq, ⟨Nat.pos_of_ne_zero hpos, hmax⟩, hacc, hroom, ?_, htarget, not_mem_entries hfresh,
    fun hv => ?_⟩
  · have : copy.count ≤ maxWord := hmax.trans (by decide)
    omega
  · rw [hv] at huse hver
    simp only [NativeOutcomeHandoff.allowsUse, Bool.and_eq_true] at huse
    exact ⟨huse.1, hver.resolve_left (· rfl)⟩

/-- The outputs that match the proposal are a prefix of it. -/
theorem verified_of_matches {copy : OutcomeCopy} (hsel : s.external.selected) (h : s.matchesExternal copy)
    (hlen : s.external.ids.length = s.external.count) (hacc : copy.native_matched_count = copy.count - 1) :
    Verified s.external copy.native_matched_count copy.outputs := by
  refine ⟨hsel, ?_⟩
  simp only [NativeOutcomeHandoff.matchesExternal, Bool.and_eq_true, decide_eq_true_eq, all_eq_true,
    mem_range] at h
  have heq : copy.outputs.take copy.native_matched_count = s.external.ids.take copy.native_matched_count := by
    refine ext_getElem ?_ fun i hi hi' => ?_
    · simp [OutcomeCopy.outputs]
      omega
    · rw [length_take] at hi hi'
      have hm := h.2 i (by omega)
      have hext : i < s.external.ids.length := by omega
      rw [getD_eq_getElem s.external.ids 0 hext] at hm
      simp only [getElem_take, OutcomeCopy.outputs, getElem_map, getElem_range]
      exact hm
  rw [heq]
  exact take_prefix _ _

theorem inv_preview (h : Inv s) (copy : OutcomeCopy) (route : Route) : Inv (s.preview copy route).1 := by
  unfold NativeOutcomeHandoff.preview
  split
  · exact inv_quiet h (quiet_retire s)
  · rename_i hs
    rw [Bool.not_eq_true, Bool.not_eq_false'] at hs
    have hp := previewable_spec hs
    have hlive := h.live (.inr (.inl hp.status))
    have hprov : s.provisional = [] := by
      rw [NativeOutcomeHandoff.provisional, hp.status]
      rfl
    have hfresh := mem_nodes_rounds hlive hp.fresh
    have hused := hlive.used
    have hrounds := hlive.rounds
    rw [hprov, length_nil, Nat.add_zero] at hused
    rw [hprov, append_nil] at hrounds
    refine { h with live := fun _ => ?_ }
    refine ⟨hlive.initialized, hlive.reached, ?_, ?_, hlive.frontiers, hlive.windows, fun _ => ?_⟩
    · show s.reservation_used + 1 = s.nodes.length + 1
      rw [hused]
    · show entries _ (s.reservation_used + 1) = s.nodes.map RoundReservation.round_id ++ [copy.next_round_id]
      rw [entries_update, hrounds]
    · exact ⟨hp.count, hp.accepted, hp.sequence, hfresh, hp.bounded, hp.target,
        fun hv => verified_of_matches (hp.verified hv).1 (hp.verified hv).2 h.recorded hp.accepted, hp.room⟩

/-! ## Seals -/

/-- The ids that a seal expects are the last of the window and the outputs. -/
theorem expected_eq (s : NativeOutcomeHandoff) :
    s.expected (min (s.current.frontier.window_count + s.pending.count) kMaxWindowTokens) =
      (s.current.frontier.window ++ s.pending.outputs).rtake kMaxWindowTokens := by
  have hlen : s.pending.outputs.length = s.pending.count := by simp [OutcomeCopy.outputs]
  refine ext_getElem ?_ fun i hi _ => ?_
  · rw [List.rtake, length_drop, length_append, Frontier.length_window, hlen]
    simp only [NativeOutcomeHandoff.expected, length_map, length_range]
    omega
  · simp only [NativeOutcomeHandoff.expected, length_map, length_range] at hi
    have hdiscard : s.current.frontier.window_count + s.pending.count -
        min (s.current.frontier.window_count + s.pending.count) kMaxWindowTokens =
        s.current.frontier.window_count + s.pending.count - kMaxWindowTokens := by omega
    simp only [NativeOutcomeHandoff.expected, getElem_map, getElem_range, List.rtake, getElem_drop,
      length_append, length_map, length_range, hdiscard, getElem_append, Frontier.window,
      OutcomeCopy.outputs, Nat.add_comm i, dite_eq_ite]

/-- What a seal demands of the next frontier. -/
structure Sealable (s : NativeOutcomeHandoff) (next : Frontier) : Prop where
  status : s.status = .preview
  owner : next.owner = s.current.frontier.owner
  prefix_length : next.prefix_length = (s.current.frontier.prefix_length + s.pending.count) % 2 ^ 64
  target_position : next.target_position = s.pending.target_position_after
  frontier_id : next.frontier_id ∉ entries s.frontier_ids (s.reservation_used - 1)
  window_id : next.window_id ∉ entries s.window_ids (s.reservation_used - 1)
  window : next.window = (s.current.frontier.window ++ s.pending.outputs).rtake kMaxWindowTokens

/-- What the checks of a seal say. -/
theorem sealable_spec {copy : SealCopy} (h : s.sealable copy) : Sealable s copy.actual_next := by
  simp only [NativeOutcomeHandoff.sealable, Bool.and_eq_true, decide_eq_true_eq, and_assoc] at h
  obtain ⟨hstatus, -, -, -, -, -, -, howner, hprefix, htarget, -, hids, -, -, hwindow⟩ := h
  simp only [all_eq_true, mem_range, Bool.and_eq_true, decide_eq_true_eq] at hids
  refine ⟨hstatus, howner, hprefix, htarget, not_mem_entries ?_, not_mem_entries ?_, ?_⟩
  · simpa using fun i hi => (hids i hi).1
  · simpa using fun i hi => (hids i hi).2
  · rw [hwindow, expected_eq]

/-- A seal continues the chain. -/
theorem linked_seal {copy : SealCopy} (h : Inv s) (hlive : Live s) (hp : Pending s) (hs : Sealable s copy.actual_next) :
    Linked s.seed s.events
      ⟨s.current, ⟨copy.actual_next, s.pending.next_round_id, (s.current.generation + 1) % 2 ^ 64⟩, s.pending_route,
        s.pending.outcome_sequence, s.pending.count, s.pending.native_matched_count, s.pending.output_ids,
        s.pending.external_use, s.external⟩ := by
  have hr := hlive.reached
  refine ⟨h.current, ⟨?_, ?_, ?_, ?_, ?_⟩, ?_, hp.count, hp.accepted, hp.verified⟩
  · rw [hs.window, hr.window, rtake_append_rtake, outputsOf_concat, append_assoc]
    rfl
  · have hbound := hp.bounded
    rw [hs.prefix_length, Nat.mod_eq_of_lt (by rw [maxWord] at hbound; omega), hr.prefix_length, outputsOf_concat,
      length_append, AuthoritativeOutcome.length_outputs, Nat.add_assoc]
  · rw [hs.target_position, hp.target, hr.target_position, outputsOf_concat, length_append,
      AuthoritativeOutcome.length_outputs, Nat.add_assoc]
  · have hroom := hp.room
    rw [kEventBudget] at hroom
    rw [hr.generation, length_append, length_singleton, Nat.mod_eq_of_lt (by omega)]
  · exact hs.owner.trans hr.owner
  · exact hp.sequence.trans h.sequence

/-- A seal appends one linked outcome. -/
theorem inv_seal (h : Inv s) (copy : SealCopy) : Inv (s.sealOutcome copy).1 := by
  unfold NativeOutcomeHandoff.sealOutcome
  split
  · exact inv_quiet h (quiet_retire s)
  · rename_i hcopy
    rw [Bool.not_eq_true, Bool.not_eq_false'] at hcopy
    have hs := sealable_spec hcopy
    have hlive := h.live (.inr (.inr hs.status))
    have hp := hlive.pending hs.status
    have hlinked := linked_seal h hlive hp hs
    have hprov : s.provisional = [s.pending.next_round_id] := if_pos hs.status
    have hused := hlive.used
    have hrounds := hlive.rounds
    rw [hprov, length_singleton] at hused
    rw [hprov] at hrounds
    have hfid := hs.frontier_id
    have hwid := hs.window_id
    rw [hused, Nat.add_sub_cancel] at hfid hwid
    rw [hlive.frontiers] at hfid
    rw [hlive.windows] at hwid
    have hnodes : s.nodes.length = s.events.length + 1 := length_nodesOf
    have hroom := hp.room
    have hinit := hlive.initialized
    have hseq := h.sequence
    rw [kEventBudget] at hroom
    refine ⟨chain_concat h.chain hlinked, ?_, ?_, ?_, ?_, ?_, ?_, rfl, fun hb => ?_, fun _ => ?_⟩
    · rw [chainEnd_concat]
    · show Distinct (nodesOf s.seed (s.events ++ [_]))
      rw [nodesOf_concat]
      exact distinct_concat h.distinct hp.fresh hfid hwid
    · rw [h.popped, take_append_of_le_length h.read]
    · rw [length_append]
      exact h.read.trans (Nat.le_add_right _ _)
    · show (s.next_sequence + 1) % 2 ^ 64 = (s.events ++ [_]).length + 1
      rw [hseq, length_append, length_singleton, Nat.mod_eq_of_lt (by omega)]
    · rw [length_append, length_singleton, kEventBudget]
      omega
    · exact absurd (hinit.symm.trans hb) nofun
    · refine ⟨hinit, hlinked.next, ?_, ?_, ?_, ?_, nofun⟩
      · show s.reservation_used = (nodesOf s.seed (s.events ++ [_])).length + 0
        rw [hused, length_nodesOf, length_append, hnodes]
        rfl
      · show entries s.reserved_ids s.reservation_used = (nodesOf s.seed (s.events ++ [_])).map _ ++ []
        rw [hrounds, nodesOf_concat, map_append, append_nil]
        rfl
      · show entries (update s.frontier_ids (s.reservation_used - 1) _) (nodesOf s.seed (s.events ++ [_])).length
          = (nodesOf s.seed (s.events ++ [_])).map _
        rw [hused, Nat.add_sub_cancel, length_nodesOf, length_append, length_singleton, ← hnodes,
          entries_update, hlive.frontiers, nodesOf_concat, map_append]
        rfl
      · show entries (update s.window_ids (s.reservation_used - 1) _) (nodesOf s.seed (s.events ++ [_])).length
          = (nodesOf s.seed (s.events ++ [_])).map _
        rw [hused, Nat.add_sub_cancel, length_nodesOf, length_append, length_singleton, ← hnodes,
          entries_update, hlive.windows, nodesOf_concat, map_append]
        rfl

/-! ## Runs -/

theorem quiet_popPreview (s : NativeOutcomeHandoff) : Quiet s s.popPreview.1 := by
  unfold NativeOutcomeHandoff.popPreview
  split
  · exact quiet_refl s
  · exact { quiet_refl s with }

theorem quiet_popRetirement (s : NativeOutcomeHandoff) : Quiet s s.popRetirement.1 := by
  unfold NativeOutcomeHandoff.popRetirement
  split
  · exact quiet_refl s
  · exact { quiet_refl s with }

/-- A pop hands out the next outcome, and keeps the rest. -/
theorem inv_pop (h : Inv s) : Inv s.popAuthoritative.1 := by
  unfold NativeOutcomeHandoff.popAuthoritative
  split
  · exact h
  · rename_i out hout
    have hlt := (List.getElem?_eq_some_iff.1 hout).1
    refine { h with popped := ?_, read := hlt, live := fun hl => ?_ }
    · rw [take_add_one, hout, h.popped]
      rfl
    · obtain ⟨h1, h2, h3, h4, h5, h6, h7⟩ := h.live hl
      exact ⟨h1, h2, h3, h4, h5, h6, fun hp => { h7 hp with }⟩

/-- Every operation keeps the invariant. -/
theorem inv_step (s : NativeOutcomeHandoff) (op : HandoffOp) (h : Inv s) : Inv (s.step op) := by
  cases op with
  | initialize_ enabled copy => exact inv_initialize h enabled copy
  | adoptRound actual q => exact inv_quiet h (quiet_adoptRound s actual q)
  | consumeAtSeam capture packet frame => exact inv_quiet h (quiet_consume s capture packet frame)
  | preview copy route => exact inv_preview h copy route
  | sealOutcome copy => exact inv_seal h copy
  | retire => exact inv_quiet h (quiet_retire s)
  | popAuthoritative => exact inv_pop h
  | popPreview => exact inv_quiet h (quiet_popPreview s)
  | popRetirement => exact inv_quiet h (quiet_popRetirement s)

/-- Nothing is sealed, and nothing can be. -/
def Empty (s : NativeOutcomeHandoff) : Prop := s.events = [] ∧ ¬ s.live

/-- Without a seed nothing quiet makes one. -/
theorem empty_quiet (q : Quiet s t) (h : Empty s) : Empty t := by
  refine ⟨q.events.trans h.1, fun ht => h.2 ?_⟩
  obtain hs | ⟨hs, -, -⟩ | ⟨hs, -⟩ := q.status
  · exact absurd ht hs
  · rw [NativeOutcomeHandoff.live, ← hs]
    exact ht
  · exact .inl hs

/-- A reservation is the one that a copy starts with. -/
def SeedCopy.starts (copy : SeedCopy) (r : RoundReservation) : Prop := r = ⟨copy.canonical, copy.first_round_id, 1⟩

/-- The seed is that of an initialization, or it is the one before. -/
theorem seed_step (s : NativeOutcomeHandoff) (op : HandoffOp) :
    (∃ copy, op = .initialize_ true copy ∧ copy.starts (s.step op).seed) ∨
      (s.step op).seed = s.seed ∧ (Empty s → Empty (s.step op)) := by
  have hquiet {t : NativeOutcomeHandoff} (q : Quiet s t) : t.seed = s.seed ∧ (Empty s → Empty t) :=
    ⟨q.seed, empty_quiet q⟩
  cases op with
  | initialize_ enabled copy =>
    simp only [NativeOutcomeHandoff.step, NativeOutcomeHandoff.initialize_]
    split
    · exact .inr ⟨rfl, id⟩
    · rename_i he
      split
      · exact .inr (hquiet (quiet_retire s))
      · split
        · refine .inr ⟨(quiet_retire _).seed, fun h => empty_quiet (quiet_retire _) h⟩
        · rw [Bool.not_eq_true, Bool.not_eq_false'] at he
          exact .inl ⟨copy, by rw [he], rfl⟩
  | adoptRound actual q => exact .inr (hquiet (quiet_adoptRound s actual q))
  | consumeAtSeam capture packet frame => exact .inr (hquiet (quiet_consume s capture packet frame))
  | preview =>
    simp only [NativeOutcomeHandoff.step, NativeOutcomeHandoff.preview]
    split
    · exact .inr (hquiet (quiet_retire s))
    · rename_i hs
      rw [Bool.not_eq_true, Bool.not_eq_false'] at hs
      exact .inr ⟨rfl, fun h => absurd (.inr (.inl (previewable_spec hs).status)) h.2⟩
  | sealOutcome =>
    simp only [NativeOutcomeHandoff.step, NativeOutcomeHandoff.sealOutcome]
    split
    · exact .inr (hquiet (quiet_retire s))
    · rename_i hs
      rw [Bool.not_eq_true, Bool.not_eq_false'] at hs
      exact .inr ⟨rfl, fun h => absurd (.inr (.inr (sealable_spec hs).status)) h.2⟩
  | retire => exact .inr (hquiet (quiet_retire s))
  | popAuthoritative =>
    simp only [NativeOutcomeHandoff.step, NativeOutcomeHandoff.popAuthoritative]
    split
    · exact .inr ⟨rfl, id⟩
    · exact .inr ⟨rfl, id⟩
  | popPreview => exact .inr (hquiet (quiet_popPreview s))
  | popRetirement => exact .inr (hquiet (quiet_popRetirement s))

/-- The seed is that of an initialization of the run. -/
theorem seed_run (ops : List HandoffOp) :
    Empty (run NativeOutcomeHandoff.step {} ops) ∨
      ∃ copy, HandoffOp.initialize_ true copy ∈ ops ∧ copy.starts (run NativeOutcomeHandoff.step {} ops).seed := by
  induction ops using List.reverseRecOn with
  | nil => exact .inl ⟨rfl, by simp [NativeOutcomeHandoff.live]⟩
  | append_singleton ops op ih =>
    rw [run_concat]
    obtain ⟨copy, rfl, hs⟩ | ⟨hseed, hempty⟩ := seed_step (run NativeOutcomeHandoff.step {} ops) op
    · exact .inr ⟨copy, by simp, hs⟩
    · obtain h | ⟨copy, hmem, hs⟩ := ih
      · exact .inl (hempty h)
      · exact .inr ⟨copy, mem_append_left _ hmem, by rwa [hseed]⟩

/-- A call on a retired handoff keeps what it sealed. -/
structure Settled (s t : NativeOutcomeHandoff) : Prop where
  status : t.status = .retired
  events : t.events = s.events
  current : t.current = s.current

theorem settled_step (h : t.status = .retired) (op : HandoffOp) : Settled t (t.step op) := by
  have hretire : t.retire = t := if_pos h
  have hself : Settled t t := ⟨h, rfl, rfl⟩
  cases op with
  | initialize_ =>
    simp only [NativeOutcomeHandoff.step, NativeOutcomeHandoff.initialize_, h, hretire]
    split
    · exact hself
    · simp only [decide_true, Bool.or_true, if_true]
      exact hself
  | adoptRound =>
    simp only [NativeOutcomeHandoff.step, NativeOutcomeHandoff.adoptRound, h, hretire]
    exact hself
  | consumeAtSeam =>
    simp only [NativeOutcomeHandoff.step, NativeOutcomeHandoff.consumeAtSeam, NativeOutcomeHandoff.atSeam, h]
    exact ⟨h, rfl, rfl⟩
  | preview =>
    simp only [NativeOutcomeHandoff.step, NativeOutcomeHandoff.preview, NativeOutcomeHandoff.previewable, h, hretire]
    exact hself
  | sealOutcome =>
    simp only [NativeOutcomeHandoff.step, NativeOutcomeHandoff.sealOutcome, NativeOutcomeHandoff.sealable, h, hretire]
    exact hself
  | retire =>
    simp only [NativeOutcomeHandoff.step, hretire]
    exact hself
  | popAuthoritative =>
    simp only [NativeOutcomeHandoff.step, NativeOutcomeHandoff.popAuthoritative]
    split
    · exact hself
    · exact ⟨h, rfl, rfl⟩
  | popPreview =>
    simp only [NativeOutcomeHandoff.step, NativeOutcomeHandoff.popPreview]
    split
    · exact hself
    · exact ⟨h, rfl, rfl⟩
  | popRetirement =>
    simp only [NativeOutcomeHandoff.step, NativeOutcomeHandoff.popRetirement]
    split
    · exact hself
    · exact ⟨h, rfl, rfl⟩

/-- Nothing changes the outcomes of a retired handoff. -/
theorem settled_run (h : s.status = .retired) (more : List HandoffOp) :
    Settled s (run NativeOutcomeHandoff.step s more) := by
  refine run_invariant (fun t op ht => ?_) more ⟨h, rfl, rfl⟩
  have hop := settled_step ht.status op
  exact ⟨hop.status, hop.events.trans ht.events, hop.current.trans ht.current⟩

/-- What a state shows of its chain: the popped events are the first of the sealed ones, which start at the seed of an
initialization, follow one another and repeat no id. -/
structure Chained (ops : List HandoffOp) (s : NativeOutcomeHandoff) : Prop where
  popped : s.popped <+: s.events
  seeded : s.events = [] ∨ ∃ copy, HandoffOp.initialize_ true copy ∈ ops ∧ copy.starts s.seed
  linked : ∀ before e after, s.events = before ++ e :: after → Linked s.seed before e
  current : s.current = chainEnd s.seed s.events
  distinct : Distinct (nodesOf s.seed s.events)

/-- In every run the sealed outcomes form one chain from the seed, and a retired handoff keeps it. -/
theorem outcomes_chained (ops : List HandoffOp) :
    Chained ops (run NativeOutcomeHandoff.step {} ops) ∧
      ((run NativeOutcomeHandoff.step {} ops).status = .retired →
        ∀ more, Settled (run NativeOutcomeHandoff.step {} ops) (run NativeOutcomeHandoff.step {} (ops ++ more))) := by
  have h : Inv (run NativeOutcomeHandoff.step {} ops) := run_invariant inv_step ops inv_init
  refine ⟨⟨?_, ?_, h.chain, h.current, h.distinct⟩, fun hs more => ?_⟩
  · rw [h.popped]
    exact take_prefix _ _
  · exact (seed_run ops).imp_left And.left
  · rw [run_append]
    exact settled_run hs more

/-- Frontiers of one owner, with the ids 1, 2, … as their window. -/
def sampleFrontier (n : ℕ) : Frontier where
  owner := ⟨[1], [2], [3], [4], [5], 6, 7, 8⟩
  frontier_id := [1, n.toUInt8]
  window_id := [2, n.toUInt8]
  prefix_length := n
  target_position := n
  current_id := n
  window_count := n
  window_ids := (List.range n).map fun i => (i + 1 : ℤ)
  full_prefix_fingerprint := [9]

def sampleQualification : Qualification := ⟨true, true, true, true, true, true⟩

def sampleRound : RoundReservation := ⟨sampleFrontier 2, [3, 1], 1⟩

/-- A scalar outcome that is sealed, and then popped. -/
def sampleOps : List HandoffOp :=
  [.initialize_ true ⟨sampleFrontier 2, [3, 1], { id_limit := 8, defined_bits := fun _ => 255 }, sampleQualification⟩,
    .adoptRound (sampleFrontier 2) sampleQualification,
    .preview ⟨sampleRound, 1, [3, 2], 3, 1, 0, [3], .none, sampleQualification⟩ .scalar,
    .sealOutcome ⟨sampleRound, 1, sampleFrontier 3, 1, .continue, sampleQualification⟩, .popAuthoritative]

example : (run NativeOutcomeHandoff.step {} sampleOps).popped.map (fun e => e.next.frontier) = [sampleFrontier 3] := by
  decide +kernel

end StrixAlloy.Pld

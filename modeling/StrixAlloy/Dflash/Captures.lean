import StrixAlloy.Dflash.Ring

/-!
# Captures over whole runs

What each call does to the queue, and what a run keeps of it: the views in the order of their captures, each of a
capture that is complete; the storage of a slot; the generations that were retired.
-/

namespace StrixAlloy.Dflash

open Runs Function

/-- The slot holds the same capture, and what is lent stays so. -/
structure Slot.Stays (a b : Slot) : Prop where
  occupied : b.occupied = a.occupied
  binding : b.view.binding = a.view.binding
  capture_sequence : b.view.capture_sequence = a.view.capture_sequence
  borrowed : a.borrowed → b.borrowed

theorem Slot.stays_refl (a : Slot) : a.Stays a := ⟨rfl, rfl, rfl, id⟩

theorem Slot.Like.stays {a b : Slot} (h : a.Like b) : a.Stays b :=
  ⟨h.occupied, h.binding, h.capture_sequence, fun hb => h.borrowed.trans hb⟩

theorem Slot.Stays.trans {a b c : Slot} (h : a.Stays b) (h' : b.Stays c) : a.Stays c :=
  ⟨h'.occupied.trans h.occupied, h'.binding.trans h.binding, h'.capture_sequence.trans h.capture_sequence,
    fun hb => h'.borrowed (h.borrowed hb)⟩

namespace Capture

variable {s t u : Capture} {e : Env}

/-- Every slot holds the same capture as before, or was not lent and is free now. -/
structure Freed (s t : Capture) : Prop where
  inv : Inv t
  sequence : t.sequence = s.sequence
  generation : s.generation.Later t.generation
  active : ∀ j, t.active = some j → s.active = some j
  written : ∀ j, t.queued j ≠ s.queued j → s.active = some j
  slots : ∀ j < kSlots, ((s.slots j).Stays (t.slots j) ∧ (s.slot_generation j).Later (t.slot_generation j)) ∨
    (s.slots j).borrowed = false ∧ (t.slots j).occupied = false

theorem Moved.freed (h : Moved s t) : Freed s t :=
  ⟨h.inv, h.sequence, h.generation, h.active, h.written, fun j hj => .inl ⟨(h.like j hj).stays, h.slot_generation j⟩⟩

theorem Freed.trans (h : Freed s t) (h' : Freed t u) : Freed s u where
  inv := h'.inv
  sequence := h'.sequence.trans h.sequence
  generation := h.generation.trans h'.generation
  active := fun j ha => h.active j (h'.active j ha)
  written := by
    intro j hne
    by_cases heq : u.queued j = t.queued j
    · exact h.written j (heq ▸ hne)
    · exact h.active j (h'.written j heq)
  slots := by
    intro j hj
    rcases h.slots j hj with ⟨hs, ht⟩ | ⟨hb, ho⟩
    · rcases h'.slots j hj with ⟨hs', ht'⟩ | ⟨hb', ho'⟩
      · exact .inl ⟨hs.trans hs', ht.trans ht'⟩
      · refine .inr ⟨Bool.of_not_eq_true fun hb => ?_, ho'⟩
        rw [hs.borrowed hb] at hb'
        cases hb'
    · rcases h'.slots j hj with ⟨hs', -⟩ | ⟨-, ho'⟩
      · exact .inr ⟨hb, hs'.occupied.trans ho⟩
      · exact .inr ⟨hb, ho'⟩

/-- The front slot is discarded. -/
theorem freed_clear (h : Inv s) (hl : s.Lendable) : Freed s s.clearFront where
  inv := inv_clear h hl.count hl.done hl.finished
  sequence := rfl
  generation := Tag.later_refl _
  active := fun _ => id
  written := fun _ hne => absurd rfl hne
  slots := by
    intro j _
    by_cases hj : j = s.read
    · rw [hj]
      refine .inr ⟨hl.free, ?_⟩
      rw [show s.clearFront.slots s.read = {} from update_self _ _ _]
    · have hs : s.clearFront.slots j = s.slots j := update_of_ne hj _ _
      have ht : s.clearFront.slot_generation j = s.slot_generation j := update_of_ne hj _ _
      rw [hs, ht]
      exact .inl ⟨Slot.stays_refl _, Tag.later_refl _⟩

theorem freed_lend (h : Inv s) (hl : s.Lendable) : Freed s s.lend where
  inv := inv_lend h hl
  sequence := rfl
  generation := Tag.later_refl _
  active := fun _ => id
  written := fun _ hne => absurd rfl hne
  slots := by
    intro j _
    refine .inl ⟨?_, Tag.later_refl _⟩
    rw [lend_slots]
    split
    · exact ⟨rfl, rfl, rfl, fun _ => rfl⟩
    · exact Slot.stays_refl _

/-! ## The front slot -/

theorem Lendable.moved (hl : s.Lendable) (h : Inv s) (hm : Moved s t) : t.Lendable := by
  have ho := h.front_occupied hl.count
  have hr := h.ring.1
  refine ⟨?_, ?_, ?_, ?_⟩
  · rw [hm.count]
    exact hl.count
  · rw [hm.read]
    exact hm.done h hr ho hl.done
  · rw [hm.read, (hm.like _ hr).borrowed]
    exact hl.free
  · rw [hm.read]
    refine hm.settled _ (fun ha => ?_) hl.finished
    have hd := (h.active _ ha).2.2.1
    rw [hl.done] at hd
    cases hd

theorem drain_tagged (s : Capture) (e : Env) {j : ℕ} (hj : j < kSlots) :
    (s.drainRetirements e).tagged j = s.tagged j := by
  have hd : (s.drainRetirements e).slots j = s.drained e j := if_pos hj
  have hl := s.drained_like e j
  unfold tagged
  rw [hd, hl.occupied, hl.binding]
  rfl

/-- The slot that a call may lend: it is believed, no loss was counted since, and its generation is not retired. -/
structure Published (s : Capture) : Prop where
  lendable : s.Lendable
  valid : (s.slots s.read).valid
  loss : (s.slots s.read).loss = word s.losses
  untagged : s.tagged s.read = false

/-- The looks at the lane, once the front slot is fenced. -/
def checked (s : Capture) (held again : Bool) : Capture :=
  let r := if (s.slots s.read).loss ≠ word s.losses then (s, false)
    else s.leased held again (s.slots s.read).view.binding
  if r.2 then r.1 else r.1.set r.1.read { r.1.slots r.1.read with valid := false }

theorem invalid_valid (s : Capture) (j : ℕ) :
    ((s.set j { s.slots j with valid := false }).slots j).valid = false := by rw [set_same]

theorem checked_spec (h : Inv s) (hc : s.count ≠ 0) (held again : Bool) : Moved s (s.checked held again) ∧
    (((s.checked held again).slots s.read).valid → (s.slots s.read).loss = word s.losses ∧
      ∃ l, s.checked held again = { s with lane := l }) := by
  have ho := h.front_occupied hc
  have hr := h.ring.1
  unfold checked
  dsimp only
  split
  · refine ⟨moved_invalid h hr ho, fun hv => ?_⟩
    rw [if_neg Bool.false_ne_true, invalid_valid] at hv
    cases hv
  · rename_i hloss
    obtain ⟨l, hl, he, -⟩ := s.leased_eq held again (s.slots s.read).view.binding
    have hm := moved_lane h (Nat.le_of_eq hl.symm)
    rw [he]
    split
    · exact ⟨hm, fun _ => ⟨not_not.1 hloss, l, rfl⟩⟩
    · refine ⟨hm.trans (moved_invalid hm.inv hr ho), fun hv => ?_⟩
      rw [invalid_valid { s with lane := l } s.read] at hv
      cases hv

theorem acquireFront_cases (h : Inv s) (hc : s.count ≠ 0) (n : ℕ) :
    (∃ t, Moved s t ∧ s.acquireFront e n = (t, none, false)) ∨
    (∃ t, Moved s t ∧ t.Lendable ∧ s.acquireFront e n = (t.clearFront, none, true)) ∨
    ∃ t, Moved s t ∧ t.Published ∧ s.acquireFront e n = (t.lend, some (t.slots t.read).view, false) := by
  have ho := h.front_occupied hc
  have hr := h.ring.1
  have heq : s.acquireFront e n =
      if !(s.slots s.read).done || (s.slots s.read).borrowed then (s, none, false)
      else if !(s.fenceComplete e s.read).2 then ((s.fenceComplete e s.read).1, none, false)
      else
        let t := (((s.fenceComplete e s.read).1.drainRetirements e).checked (e.lane (2 * n))
          (e.lane (2 * n + 1))).drainRetirements e
        if !(t.slots t.read).valid then (t.clearFront, none, true) else (t.lend, some (t.slots t.read).view, false) :=
    rfl
  rw [heq]
  split
  · exact .inl ⟨s, moved_refl h, rfl⟩
  rename_i hfront
  simp only [Bool.or_eq_true, Bool.not_eq_true', not_or, Bool.not_eq_false, Bool.not_eq_true] at hfront
  have hf := moved_fence_complete (e := e) h hr ho
  split
  · exact .inl ⟨_, hf, rfl⟩
  rename_i hok
  have hfin := fenceComplete_finished (e := e) h hr (by simpa using hok)
  have hlend : (s.fenceComplete e s.read).1.Lendable := by
    refine ⟨hf.count ▸ hc, ?_, ?_, ?_⟩
    · rw [hf.read]
      exact hf.done h hr ho hfront.1
    · rw [hf.read, (hf.like _ hr).borrowed]
      exact hfront.2
    · rw [hf.read]
      exact hfin
  have hd := moved_drain hf.inv e
  have hlend := hlend.moved hf.inv hd
  obtain ⟨hm, hspec⟩ := checked_spec hd.inv hlend.count (e.lane (2 * n)) (e.lane (2 * n + 1))
  have hlend := hlend.moved hd.inv hm
  generalize (s.fenceComplete e s.read).1.drainRetirements e = v at *
  generalize hw : v.checked (e.lane (2 * n)) (e.lane (2 * n + 1)) = w at *
  have hd' := moved_drain hm.inv e
  have hlend := hlend.moved hm.inv hd'
  have hall := ((hf.trans hd).trans hm).trans hd'
  dsimp only
  split
  · exact .inr (.inl ⟨_, hall, hlend, rfl⟩)
  · rename_i hv
    rw [Bool.not_eq_true', Bool.not_eq_false] at hv
    have hv : ((w.drainRetirements e).slots w.read).valid := hv
    obtain ⟨htag, hsame⟩ := drain_valid (e := e) hm.inv.ring.1 hv
    rw [hsame, hm.read] at hv
    obtain ⟨hloss, l, rfl⟩ := hspec hv
    refine .inr (.inr ⟨_, hall, ⟨hlend, ?_, ?_, ?_⟩, rfl⟩)
    · exact (congrArg Slot.valid hsame).trans hv
    · exact (congrArg Slot.loss hsame).trans hloss
    · exact (drain_tagged _ e hm.inv.ring.1).trans htag

/-! ## Acquisition -/

theorem acquireLoop_spec (n : ℕ) (h : Inv s) : (∃ t, acquireLoop e n s = (t, none) ∧ Freed s t ∧
      t.acquired = s.acquired) ∨
    ∃ t, Freed s t ∧ t.acquired = s.acquired ∧ t.Published ∧
      acquireLoop e n s = (t.lend, some (t.slots t.read).view) := by
  induction n generalizing s with
  | zero => exact .inl ⟨s, rfl, (moved_refl h).freed, rfl⟩
  | succ n ih =>
    rw [acquireLoop]
    split
    · exact .inl ⟨s, rfl, (moved_refl h).freed, rfl⟩
    rename_i hc
    rcases acquireFront_cases h hc n with ⟨t, hm, heq⟩ | ⟨t, hm, hl, heq⟩ | ⟨t, hm, hp, heq⟩
    · rw [heq]
      exact .inl ⟨t, rfl, hm.freed, hm.acquired⟩
    · rw [heq]
      have hf := hm.freed.trans (freed_clear hm.inv hl)
      rcases ih hf.inv with ⟨u, hu, hfu, ha⟩ | ⟨u, hfu, ha, hp, hu⟩
      · exact .inl ⟨u, hu, hf.trans hfu, ha.trans hm.acquired⟩
      · exact .inr ⟨u, hf.trans hfu, ha.trans hm.acquired, hp, hu⟩
    · rw [heq]
      exact .inr ⟨t, hm.freed, hm.acquired, hp, rfl⟩

theorem acquire_cases (h : Inv s) (e : Env) :
    (Freed s (s.acquire e).1 ∧ (s.acquire e).1.acquired = s.acquired ∧ (s.acquire e).2 = none) ∨
    ∃ t, Freed s t ∧ t.acquired = s.acquired ∧ t.Published ∧
      s.acquire e = (t.lend.drainRetirements e, some (t.slots t.read).view) := by
  unfold acquire
  split
  · exact .inl ⟨(moved_sourceLoss h).freed, rfl, rfl⟩
  have hd := moved_drain h e
  rcases acquireLoop_spec kSlots hd.inv with ⟨t, heq, hf, ha⟩ | ⟨t, hf, ha, hp, heq⟩
  · have hd' := moved_drain hf.inv e
    rw [heq]
    exact .inl ⟨(hd.freed.trans hf).trans hd'.freed, (hd'.acquired.trans ha).trans hd.acquired, rfl⟩
  · refine .inr ⟨t, hd.freed.trans hf, ha.trans hd.acquired, hp, ?_⟩
    rw [heq]

theorem freed_acquire (h : Inv s) (e : Env) : Freed s (s.acquire e).1 := by
  rcases acquire_cases h e with ⟨hf, -, -⟩ | ⟨t, hf, -, hp, heq⟩
  · exact hf
  · rw [heq]
    have hl := freed_lend hf.inv hp.lendable
    exact (hf.trans hl).trans (moved_drain hl.inv e).freed

/-! ## The other calls -/

theorem moved_call (h : Inv s) (e : Env) {body : Capture → Capture × Bool}
    (hb : ∀ t, Inv t → Moved t (body t).1) : Moved s (s.call e body).1 := by
  unfold call
  split
  · exact moved_sourceLoss h
  · have hd := moved_drain h e
    have hm := hb _ hd.inv
    exact (hd.trans hm).trans (moved_drain hm.inv e)

theorem moved_reclaim (n j : ℕ) (h : Inv s) (hn : n + j = kSlots) (ok : Bool) :
    Moved s (reclaimLoop e n j s ok).1 := by
  induction n generalizing j s ok with
  | zero => exact moved_refl h
  | succ n ih =>
    unfold reclaimLoop
    dsimp only
    have hj : n + (j + 1) = kSlots := by omega
    split
    · exact ih (j + 1) h hj ok
    rename_i ho
    split
    · have hm := moved_fence_complete (e := e) (j := j) h (by omega) (by simpa using ho)
      exact hm.trans (ih (j + 1) hm.inv hj _)
    · exact ih (j + 1) h hj false

theorem retire_later (t : Tag) (g : ℕ) : t.Later (t.retire g) := by
  unfold Tag.retire
  split
  · rename_i ht
    rw [ht]
    exact ⟨rfl, nofun⟩
  · exact t.later_refl

/-- The tags that a retirement sets. -/
def marked (s : Capture) (g : ℕ) : Capture :=
  { s with slot_generation := fun j => (s.slot_generation j).retire g, generation := s.generation.retire g }

theorem moved_marked (h : Inv s) {g : ℕ} (hg : g ≠ 0) : Moved s (s.marked g) := by
  have hgen : (s.generation.retire g).generation = s.generation.generation := (retire_later _ g).1
  have hinv : Inv (s.marked g) :=
    { h with
      empty := fun j hj ho => by
        obtain ⟨h1, h2, h3⟩ := h.empty j hj ho
        refine ⟨h1, ?_, h3⟩
        change (s.slot_generation j).retire g = {}
        rw [h2, Tag.retire, if_neg]
        intro heq
        exact hg (congrArg Tag.generation heq).symm
      active := fun j ha => by
        obtain ⟨h1, h2, h3, h4⟩ := h.active j ha
        exact ⟨h1, h2, h3, h4.trans hgen.symm⟩
      tags := fun j hj ho => (retire_later _ g).1.trans (h.tags j hj ho)
      lane := hgen ▸ h.lane
      begun := fun j hj ho => hgen ▸ h.begun j hj ho
      past := fun v hv => hgen ▸ h.past v hv }
  exact { moved_refl h with
    inv := hinv
    generation := retire_later _ g
    slot_generation := fun _ => retire_later _ g }

theorem moved_retire (h : Inv s) (e : Env) (g : ℕ) : Moved s (s.retire e g) := by
  unfold retire
  split
  · exact moved_refl h
  rename_i hg
  simp only [Bool.or_eq_true, decide_eq_true_eq, not_or] at hg
  have hm := moved_marked h hg.1
  split
  · exact hm
  · have hd := moved_drain hm.inv e
    exact (hm.trans hd).trans (moved_drain hd.inv e)

/-- An admission is of the slot that is written next, and of a lease that holds. -/
theorem begin_cases (h : Inv s) (e : Env) (b : Binding) (round : ℕ) (source : DecodeSource) (anchor : ℤ)
    (ids : Option (List ℤ)) (transported : ℕ) :
    Moved s (s.begin e b round source anchor ids transported).1 ∨
      ∃ t tokens, Moved s t ∧ t.Admissible b round ∧ (s.begin e b round source anchor ids transported).1 =
        (t.admitted b round source anchor tokens transported).drainRetirements e := by
  unfold «begin»
  split
  · exact .inl (moved_refl h)
  unfold call
  split
  · exact .inl (moved_sourceLoss h)
  have hd := moved_drain h e
  generalize s.drainRetirements e = v at hd
  -- A refusal changes the lane and the losses only.
  have hkeep : ∀ {w : Capture} {ok : Bool}, Moved v w →
      Moved s ((w, ok).1.drainRetirements e, (w, ok).2).1 := fun hm =>
    (hd.trans hm).trans (moved_drain hm.inv e)
  dsimp only
  unfold beginBody
  split
  · exact Or.inl (hkeep (moved_sourceLoss hd.inv))
  rename_i hfree
  simp only [Bool.or_eq_true, decide_eq_true_eq, not_or, Bool.not_eq_true, ne_eq, not_not] at hfree
  split
  · exact .inl (hkeep (moved_refl hd.inv))
  rename_i tokens
  split
  · exact .inl (hkeep (moved_refl hd.inv))
  rename_i hform
  obtain ⟨l, hl, he, hgen⟩ := v.leased_eq (e.lane 0) (e.lane 1) b
  have hm := moved_lane hd.inv (Nat.le_of_eq hl.symm)
  dsimp only
  rw [he]
  split
  · exact .inl (hkeep hm)
  rename_i hlease
  split
  · exact .inl (hkeep (hm.trans (moved_sourceLoss hm.inv)))
  rename_i hround
  simp only [Bool.or_eq_true, Bool.not_eq_true', decide_eq_true_eq, not_or, Bool.not_eq_false] at hlease
  simp only [Bool.or_eq_true, Bool.and_eq_true, decide_eq_true_eq, not_or, not_and, Nat.not_le] at hround
  rw [Bool.not_eq_true', Bool.not_eq_false] at hform
  unfold wellFormed at hform
  simp only [Bool.and_eq_true, decide_eq_true_eq] at hform
  obtain ⟨⟨⟨⟨⟨⟨⟨⟨⟨-, -⟩, hpos⟩, hbound⟩, -⟩, -⟩, -⟩, -⟩, -⟩, -⟩ := hform
  refine .inr ⟨_, tokens, hd.trans hm, ?_, rfl⟩
  exact ⟨hfree.1.1, Nat.lt_of_le_of_ne hd.inv.ring.2.1 hfree.1.2, hfree.2, Nat.pos_of_ne_zero hpos, hbound,
    hl.trans (hgen hlease.1), hround.1.1, hlease.2⟩

/-- The front slot that is released was lent under the sequence. -/
theorem release_cases (h : Inv s) (e : Env) (sequence : ℕ) :
    Moved s (s.release e sequence).1 ∨
      ∃ t, Moved s t ∧ t.count ≠ 0 ∧ (t.slots t.read).borrowed = true ∧
        (t.slots t.read).view.capture_sequence = sequence ∧
        (s.release e sequence).1 = t.clearFront.drainRetirements e := by
  unfold release call
  split
  · exact .inl (moved_sourceLoss h)
  have hd := moved_drain h e
  unfold releaseBody
  dsimp only
  split
  · rename_i hc
    simp only [Bool.and_eq_true, decide_eq_true_eq] at hc
    exact .inr ⟨_, hd, hc.1.1, hc.1.2, hc.2, rfl⟩
  · exact .inl (hd.trans (moved_drain hd.inv e))

/-! ## Retired generations -/

/-- The generation is retired, or past, and so is every capture of it. -/
structure Dead (g : ℕ) (s : Capture) : Prop where
  current : s.generation.generation = g → s.generation.retired
  reached : g ≤ s.generation.generation
  slots : ∀ j < kSlots, (s.slots j).occupied → (s.slots j).view.binding.lease_generation = g →
    (s.slot_generation j).retired

theorem Dead.freed {g : ℕ} (hg : Dead g s) (h : Freed s t) : Dead g t where
  current := fun heq => h.generation.2 (hg.current (h.generation.1.symm.trans heq))
  reached := h.generation.1 ▸ hg.reached
  slots := by
    intro j hj ho hb
    rcases h.slots j hj with ⟨hs, ht⟩ | ⟨-, hn⟩
    · exact ht.2 (hg.slots j hj (hs.occupied.symm.trans ho) (hs.binding ▸ hb))
    · rw [ho] at hn
      cases hn

theorem Dead.clear {g : ℕ} (hg : Dead g s) : Dead g s.clearFront where
  __ := hg
  slots := by
    intro j hj ho hb
    by_cases hjr : j = s.read
    · rw [hjr, show s.clearFront.slots s.read = {} from update_self _ _ _] at ho
      cases ho
    · have hs : s.clearFront.slots j = s.slots j := update_of_ne hjr _ _
      have ht : s.clearFront.slot_generation j = s.slot_generation j := update_of_ne hjr _ _
      rw [hs] at ho hb
      rw [ht]
      exact hg.slots j hj ho hb

/-- A retired generation is not admitted again. -/
theorem Dead.admitted {g : ℕ} (hg : Dead g s) (h : Inv s) {b : Binding} {round : ℕ} (ha : s.Admissible b round)
    (source : DecodeSource) (anchor : ℤ) (ids : List ℤ) (transported : ℕ) :
    Dead g (s.admitted b round source anchor ids transported) := by
  have hle : s.generation.generation ≤ b.lease_generation := ha.lane ▸ h.lane
  have hne : b.lease_generation ≠ g := by
    intro hb
    have hgen : s.generation.generation = g := Nat.le_antisymm (hb ▸ hle) hg.reached
    have hret := hg.current hgen
    exact ha.unretired (by rw [← hret, hb, ← hgen])
  refine ⟨fun heq => ?_, ?_, ?_⟩
  · rw [admitted_generation] at heq
    exact absurd heq hne
  · rw [admitted_generation]
    exact Nat.le_trans hg.reached hle
  · intro j hj ho hb
    by_cases hjw : j = s.write
    · have hs : (s.admitted b round source anchor ids transported).slots j =
          s.opened b round source anchor ids transported := by
        rw [hjw]
        exact update_self _ _ _
      rw [hs] at hb
      exact absurd hb hne
    · have hs : (s.admitted b round source anchor ids transported).slots j = s.slots j :=
        update_of_ne hjw _ _
      have ht : (s.admitted b round source anchor ids transported).slot_generation j = s.slot_generation j :=
        update_of_ne hjw _ _
      rw [hs] at ho hb
      rw [ht]
      exact hg.slots j hj ho hb

/-- A retired generation is not lent. -/
theorem Dead.unpublished {g : ℕ} (hg : Dead g s) (h : Inv s) (hp : s.Published) :
    (s.slots s.read).view.binding.lease_generation ≠ g := by
  intro hb
  have ho := h.front_occupied hp.lendable.count
  have hr := hg.slots s.read h.ring.1 ho hb
  have htag := hp.untagged
  unfold tagged at htag
  simp [ho, hr, h.tags s.read h.ring.1 ho] at htag

/-- The generation is no lease's, or dead. -/
def Barred (g : ℕ) (s : Capture) : Prop := g = 0 ∨ kRetired ≤ g ∨ Dead g s

/-- A retirement of a generation that was reached. -/
theorem barred_retire (h : Inv s) (e : Env) {g : ℕ} (hle : g ≤ s.generation.generation) :
    Barred g (s.retire e g) := by
  by_cases h0 : g = 0
  · exact .inl h0
  by_cases hlt : kRetired ≤ g
  · exact .inr (.inl hlt)
  refine .inr (.inr ?_)
  have hret : ∀ t : Tag, t.generation = g → (t.retire g).retired := by
    rintro ⟨n, r⟩ rfl
    cases r <;> simp [Tag.retire]
  have hm := moved_marked h h0
  have hdead : Dead g (s.marked g) := by
    refine ⟨fun heq => hret _ ((retire_later _ g).1.symm.trans heq), ?_, fun j hj ho hb => ?_⟩
    · exact (retire_later s.generation g).1 ▸ hle
    · exact hret _ ((h.tags j hj ho).trans hb)
  unfold retire
  rw [if_neg (by simp [h0, Nat.not_le.1 hlt])]
  split
  · exact hdead
  · have hd := moved_drain hm.inv e
    exact hdead.freed (hd.trans (moved_drain hd.inv e)).freed

/-! ## Storage -/

/-- What a step does to the storage of a slot. It is copied to for the capture in progress, which is not lent; a slot
that is lent stays so until it is released; a slot is freed when the copies to its storage are finished, and only a
free slot is taken, by the next capture. -/
structure Stored (s : Capture) (op : DecodeOp) (t : Capture) (j : ℕ) : Prop where
  written : t.queued j ≠ s.queued j → s.active = some j ∧ (s.slots j).occupied ∧ (s.slots j).done = false ∧
    (s.slots j).borrowed = false
  kept : (s.slots j).occupied → (t.slots j).occupied →
    (t.slots j).view.capture_sequence = (s.slots j).view.capture_sequence
  lent : (s.slots j).borrowed → op ≠ .release (s.slots j).view.capture_sequence → (t.slots j).borrowed
  freed : (s.slots j).occupied → (t.slots j).occupied = false → t.finished j = t.queued j
  taken : (s.slots j).occupied = false → (t.slots j).occupied → s.finished j = s.queued j ∧
    (t.slots j).view.capture_sequence = s.sequence + 1 ∧ t.sequence = s.sequence + 1

/-- What a step keeps. -/
structure Stepped (s : Capture) (op : DecodeOp) (t : Capture) : Prop where
  inv : Inv t
  sequence : s.sequence ≤ t.sequence
  dead : ∀ g, Dead g s → Dead g t
  stored : ∀ j < kSlots, Stored s op t j

theorem Inv.writing (h : Inv s) {j : ℕ} (ha : s.active = some j) : s.active = some j ∧
    (s.slots j).occupied ∧ (s.slots j).done = false ∧ (s.slots j).borrowed = false := by
  obtain ⟨-, ho, hd, hb⟩ := h.progress ha
  exact ⟨ha, ho, hd, hb⟩

theorem Freed.stepped (hf : Freed s t) (h : Inv s) (op : DecodeOp) : Stepped s op t where
  inv := hf.inv
  sequence := Nat.le_of_eq hf.sequence.symm
  dead := fun _ hg => hg.freed hf
  stored := by
    intro j hj
    refine ⟨fun hne => h.writing (hf.written j hne), fun _ ho => ?_, fun hb _ => ?_, fun _ ho => ?_, fun ho ho' => ?_⟩
    · rcases hf.slots j hj with ⟨hs, -⟩ | ⟨-, hn⟩
      · exact hs.capture_sequence
      · rw [ho] at hn
        cases hn
    · rcases hf.slots j hj with ⟨hs, -⟩ | ⟨hn, -⟩
      · exact hs.borrowed hb
      · rw [hb] at hn
        cases hn
    · exact (hf.inv.empty j hj ho).2.2
    · rcases hf.slots j hj with ⟨hs, -⟩ | ⟨-, hn⟩
      · rw [hs.occupied, ho] at ho'
        cases ho'
      · rw [ho'] at hn
        cases hn

theorem stepped_release (h : Inv s) (hm : Moved s t) (hc : t.count ≠ 0) (hb : (t.slots t.read).borrowed) :
    Stepped s (.release (t.slots t.read).view.capture_sequence) (t.clearFront.drainRetirements e) := by
  obtain ⟨hr, -, -⟩ := hm.inv.ring
  have hlent := (hm.inv.sound t.read hr).lent hb
  have hinv := inv_clear hm.inv hc hlent.1 hlent.2
  have hd := moved_drain hinv e
  have hread : t.clearFront.slots t.read = {} := update_self _ _ _
  have hother : ∀ {j : ℕ}, j ≠ t.read → t.clearFront.slots j = t.slots j := fun hj => update_of_ne hj _ _
  refine ⟨hd.inv, ?_, fun g hg => (hg.freed hm.freed).clear.freed hd.freed, fun j hj => ?_⟩
  · exact Nat.le_of_eq (hd.sequence.trans hm.sequence).symm
  have hl := hm.like j hj
  have hl' := hd.like j hj
  constructor
  · intro hne
    refine h.writing (hm.written j fun heq => hne ?_)
    exact heq
  · intro _ ho
    by_cases hjr : j = t.read
    · rw [hl'.occupied, hjr, hread] at ho
      cases ho
    · rw [hl'.capture_sequence, hother hjr, hl.capture_sequence]
  · intro hbs hne
    by_cases hjr : j = t.read
    · rw [← hjr, hl.capture_sequence] at hne
      exact absurd rfl hne
    · rw [hl'.borrowed, hother hjr, hl.borrowed]
      exact hbs
  · intro _ ho
    exact (hd.inv.empty j hj ho).2.2
  · intro ho ho'
    by_cases hjr : j = t.read
    · rw [hl'.occupied, hjr, hread] at ho'
      cases ho'
    · rw [hl'.occupied, hother hjr, hl.occupied, ho] at ho'
      cases ho'

theorem stepped_admitted (h : Inv s) (hm : Moved s t) {b : Binding} {round : ℕ} (ha : t.Admissible b round)
    (source : DecodeSource) (anchor : ℤ) (ids : List ℤ) (transported : ℕ) (op : DecodeOp) :
    Stepped s op ((t.admitted b round source anchor ids transported).drainRetirements e) := by
  have hinv := inv_admitted hm.inv ha source anchor ids transported
  have hd := moved_drain hinv e
  have hwrite : (t.admitted b round source anchor ids transported).slots t.write =
      t.opened b round source anchor ids transported := update_self _ _ _
  have hother : ∀ {j : ℕ}, j ≠ t.write →
      (t.admitted b round source anchor ids transported).slots j = t.slots j :=
    fun hj => update_of_ne hj _ _
  refine ⟨hd.inv, ?_, fun g hg => ((hg.freed hm.freed).admitted hm.inv ha _ _ _ _).freed hd.freed, fun j hj => ?_⟩
  · rw [hd.sequence, ← hm.sequence]
    exact Nat.le_succ _
  have hl := hm.like j hj
  have hl' := hd.like j hj
  constructor
  · intro hne
    refine h.writing (hm.written j fun heq => hne ?_)
    exact heq
  · intro ho _
    have hjw : j ≠ t.write := by
      rintro rfl
      rw [← hl.occupied, ha.free] at ho
      cases ho
    rw [hl'.capture_sequence, hother hjw, hl.capture_sequence]
  · intro hbs _
    have hjw : j ≠ t.write := by
      rintro rfl
      rw [← hl.borrowed] at hbs
      have ho := (hm.inv.front _ hj hbs).2
      rw [ha.free] at ho
      cases ho
    rw [hl'.borrowed, hother hjw, hl.borrowed]
    exact hbs
  · intro _ ho
    exact (hd.inv.empty j hj ho).2.2
  · intro ho ho'
    by_cases hjw : j = t.write
    · refine ⟨(h.empty j hj ho).2.2, ?_, ?_⟩
      · rw [hl'.capture_sequence, hjw, hwrite, ← hm.sequence]
        rfl
      · rw [hd.sequence, ← hm.sequence]
        rfl
    · rw [hl'.occupied, hother hjw, hl.occupied, ho] at ho'
      cases ho'

theorem moved_laneStep (h : Inv s) (op : LaneOp) : Moved s (s.laneStep op) := by
  have hm := moved_lane h (generation_le_step s.lane op)
  exact { hm with inv := { hm.inv with } }

theorem step_stepped (h : Inv s) (i : DecodeOp × Env) : Stepped s i.1 (s.step i) := by
  obtain ⟨op, e⟩ := i
  cases op with
  | «begin» b round source anchor ids transported =>
    rcases begin_cases h e b round source anchor ids transported with hm | ⟨t, tokens, hm, ha, heq⟩
    · exact hm.freed.stepped h _
    · unfold step
      dsimp only
      rw [heq]
      exact stepped_admitted h hm ha source anchor tokens transported _
  | captureHc model layer rows source stream =>
    exact (moved_call h e fun t ht => moved_capture ht model layer rows source stream).freed.stepped h _
  | forwardReturned => exact (moved_call h e fun t ht => moved_forward ht).freed.stepped h _
  | committed k position => exact (moved_call h e fun t ht => moved_committed ht k position).freed.stepped h _
  | outcome b status current transported =>
    exact (moved_call h e fun t ht => moved_outcome ht b status current transported).freed.stepped h _
  | acquire => exact (freed_acquire h e).stepped h _
  | release sequence =>
    rcases release_cases h e sequence with hm | ⟨t, hm, hc, hb, rfl, heq⟩
    · exact hm.freed.stepped h _
    · unfold step
      dsimp only
      rw [heq]
      exact stepped_release h hm hc hb
  | retire g => exact (moved_retire h e g).freed.stepped h _
  | sourceLoss => exact (moved_sourceLoss h).freed.stepped h _
  | disableNew =>
    have hm : Moved s { s with enabled := false } := { moved_refl h with inv := { h with } }
    exact hm.freed.stepped h _
  | storageReclaimable =>
    exact (moved_call h e fun t ht => moved_reclaim kSlots 0 ht rfl _).freed.stepped h _
  | lane op => exact (moved_laneStep h op).freed.stepped h _

/-! ## Views -/

/-- The view that was lent, at the front: its capture was complete. -/
structure Complete (s : Capture) (view : DecodeView) : Prop where
  front : (s.slots s.read).view = view ∧ (s.slots s.read).borrowed
  taps : ∀ tap < 5, tap ∈ (s.slots s.read).copied
  fenced : s.finished s.read = s.queued s.read
  committed : 0 < view.committed_rows ∧ view.committed_rows ≤ view.verified_rows ∧
    (s.slots s.read).position = view.anchor + view.committed_rows
  outcome : (s.slots s.read).status = 0 ∧
    (s.slots s.read).transported = (s.slots s.read).transported_before + view.committed_rows
  padded : ∀ id ∈ view.ids.drop view.committed_rows, id = 0
  losses : s.losses < (s.slots s.read).losses_at_begin + 2 ^ 64 → s.losses = (s.slots s.read).losses_at_begin

theorem complete_lend (h : Inv s) (hp : s.Published) (e : Env) :
    (s.lend.drainRetirements e).Complete (s.slots s.read).view := by
  have hr := h.ring.1
  have hs := h.sound s.read hr
  have htag : s.lend.tagged s.read = false := by
    have hu := hp.untagged
    unfold tagged at hu ⊢
    rw [(s.lend_same s.read).1, (s.lend_same s.read).2.1]
    exact hu
  have hslot : (s.lend.drainRetirements e).slots s.read = { s.slots s.read with borrowed := true } := by
    have hd : (s.lend.drainRetirements e).slots s.read = s.lend.drained e s.read := if_pos hr
    rw [hd, drained_untagged htag, lend_slots, if_pos rfl]
  obtain ⟨hcom, hst, htr, hpad⟩ := hs.reported hp.valid hp.lendable.done
  obtain ⟨hret, hpos, hle, hat⟩ := hs.committed hp.valid hcom
  have hcopied := hs.copied hp.valid
  have hmask := hs.returned hp.valid hret
  have hloss : word s.losses = word (s.slots s.read).losses_at_begin := hp.loss.symm.trans (hs.loss hp.valid)
  constructor
  · change ((s.lend.drainRetirements e).slots s.read).view = _ ∧
      ((s.lend.drainRetirements e).slots s.read).borrowed = _
    rw [hslot]
    exact ⟨rfl, rfl⟩
  · change ∀ tap < 5, tap ∈ ((s.lend.drainRetirements e).slots s.read).copied
    rw [hslot]
    exact fun tap htap => hcopied tap (hmask tap htap)
  · exact hp.lendable.finished
  · change _ ∧ _ ∧ ((s.lend.drainRetirements e).slots s.read).position = _
    rw [hslot]
    exact ⟨hpos, hle, hat⟩
  · change ((s.lend.drainRetirements e).slots s.read).status = _ ∧
      ((s.lend.drainRetirements e).slots s.read).transported =
        ((s.lend.drainRetirements e).slots s.read).transported_before + _
    rw [hslot]
    exact ⟨hst, htr⟩
  · exact hpad
  · change s.losses < ((s.lend.drainRetirements e).slots s.read).losses_at_begin + 2 ^ 64 →
      s.losses = ((s.lend.drainRetirements e).slots s.read).losses_at_begin
    rw [hslot]
    exact fun hlt => Owner.eq_of_word hloss hs.losses hlt

/-- Only an acquisition lends. -/
theorem step_acquired (h : Inv s) (i : DecodeOp × Env) (hi : i.1 ≠ .acquire) : (s.step i).acquired = s.acquired := by
  obtain ⟨op, e⟩ := i
  cases op with
  | «begin» b round source anchor ids transported =>
    rcases begin_cases h e b round source anchor ids transported with hm | ⟨t, tokens, hm, -, heq⟩
    · exact hm.acquired
    · exact (congrArg Capture.acquired heq).trans hm.acquired
  | captureHc model layer rows source stream =>
    exact (moved_call h e fun t ht => moved_capture ht model layer rows source stream).acquired
  | forwardReturned => exact (moved_call h e fun t ht => moved_forward ht).acquired
  | committed k position => exact (moved_call h e fun t ht => moved_committed ht k position).acquired
  | outcome b status current transported =>
    exact (moved_call h e fun t ht => moved_outcome ht b status current transported).acquired
  | acquire => exact absurd rfl hi
  | release sequence =>
    rcases release_cases h e sequence with hm | ⟨t, hm, -, -, -, heq⟩
    · exact hm.acquired
    · exact (congrArg Capture.acquired heq).trans hm.acquired
  | retire g => exact (moved_retire h e g).acquired
  | sourceLoss => rfl
  | disableNew => rfl
  | storageReclaimable => exact (moved_call h e fun t ht => moved_reclaim kSlots 0 ht rfl _).acquired
  | lane => rfl

theorem acquire_lends (h : Inv s) (e : Env) :
    (s.acquire e).1.acquired = s.acquired ++ (s.acquire e).2.toList ∧
      (∀ view, (s.acquire e).2 = some view → (s.acquire e).1.Complete view) ∧
      ∀ g, Barred g s → ∀ view ∈ (s.acquire e).2.toList, view.binding.lease_generation ≠ g := by
  rcases acquire_cases h e with ⟨-, ha, hn⟩ | ⟨t, hf, ha, hp, heq⟩
  · rw [ha, hn]
    exact ⟨(List.append_nil _).symm, nofun, fun _ _ => nofun⟩
  · rw [heq]
    refine ⟨?_, ?_, ?_⟩
    · change t.acquired ++ [_] = _
      rw [ha]
      rfl
    · intro view hv
      cases hv
      exact complete_lend hf.inv hp e
    · intro g hg view hv
      rw [Option.toList_some, List.mem_singleton] at hv
      rw [hv]
      obtain ⟨hpos, hlt⟩ := hf.inv.ranged _ hf.inv.ring.1 (hf.inv.front_occupied hp.lendable.count)
      rcases hg with rfl | hge | hg
      · exact Nat.ne_of_gt hpos
      · exact Nat.ne_of_lt (Nat.lt_of_lt_of_le hlt hge)
      · exact (hg.freed hf).unpublished hf.inv hp

/-! ## Runs -/

/-- A capture that was configured. -/
def start (lane : Lane) (loss_at_arm : ℕ) : Capture := { lane := lane, loss_at_arm := loss_at_arm }

theorem inv_start (lane : Lane) (loss_at_arm : ℕ) : Inv (start lane loss_at_arm) where
  ring := ⟨Nat.zero_lt_succ 7, Nat.zero_le _, rfl⟩
  occupied := fun _ _ => ⟨nofun, fun ⟨_, hi, _⟩ => absurd hi (Nat.not_lt_zero _)⟩
  empty := fun _ _ _ => ⟨rfl, rfl, rfl⟩
  sound := fun _ _ => ⟨nofun, nofun, nofun, nofun, fun _ => rfl, nofun, nofun, fun _ _ => ⟨rfl, rfl⟩, nofun, nofun,
    Nat.le_refl _⟩
  active := nofun
  undone := nofun
  tags := nofun
  ranged := nofun
  front := nofun
  lane := Nat.zero_le _
  begun := nofun
  order := fun _ _ _ hk => absurd hk (Nat.not_lt_zero _)
  past := nofun
  acquired := List.Pairwise.nil
  ahead := nofun

def after (lane : Lane) (loss_at_arm : ℕ) (is : List (DecodeOp × Env)) : Capture :=
  run step (start lane loss_at_arm) is

theorem inv_after (lane : Lane) (loss_at_arm : ℕ) (is : List (DecodeOp × Env)) : Inv (after lane loss_at_arm is) :=
  run_invariant (P := Inv) (fun _ i h => (step_stepped h i).inv) is (inv_start lane loss_at_arm)

/-- No capture of a barred generation is lent in a run. -/
theorem barred_run {g : ℕ} (h : Inv s) (hg : Barred g s) (is : List (DecodeOp × Env)) :
    ∃ views, (run step s is).acquired = s.acquired ++ views ∧ ∀ v ∈ views, v.binding.lease_generation ≠ g := by
  induction is generalizing s with
  | nil => exact ⟨[], (List.append_nil _).symm, nofun⟩
  | cons i is ih =>
    have hs := step_stepped h i
    obtain ⟨views, heq, hv⟩ := ih hs.inv (hg.imp id (Or.imp id (hs.dead g)))
    rw [run_cons, heq]
    by_cases hi : i.1 = .acquire
    · obtain ⟨op, e⟩ := i
      obtain rfl : op = .acquire := hi
      obtain ⟨ha, -, hd⟩ := acquire_lends h e
      refine ⟨(s.acquire e).2.toList ++ views, ?_, ?_⟩
      · rw [← List.append_assoc, ← ha]
        rfl
      · intro v hmem
        rcases List.mem_append.1 hmem with hmem | hmem
        · exact hd g hg v hmem
        · exact hv v hmem
    · rw [step_acquired h i hi]
      exact ⟨views, rfl, hv⟩

/-- The indices, the count and the occupied slots agree. -/
def Ring (s : Capture) : Prop :=
  s.read < kSlots ∧ s.count ≤ kSlots ∧ s.write = s.place s.count ∧
    ∀ j < kSlots, (s.slots j).occupied ↔ ∃ i < s.count, j = s.place i

/-- The queue in every run: its ring is consistent, its views are acquired in the order of their captures and of
complete captures, the storage of a slot is kept until its view is released or discarded, and a retirement bars every
generation that was reached. -/
theorem captures_acquired (lane : Lane) (loss_at_arm : ℕ) (is : List (DecodeOp × Env)) :
    (after lane loss_at_arm is).Ring ∧
    (after lane loss_at_arm is).acquired.Pairwise DecodeView.Before ∧
    (∀ e, ((after lane loss_at_arm is).acquire e).1.acquired =
        (after lane loss_at_arm is).acquired ++ ((after lane loss_at_arm is).acquire e).2.toList ∧
      ∀ view, ((after lane loss_at_arm is).acquire e).2 = some view →
        ((after lane loss_at_arm is).acquire e).1.Complete view) ∧
    (∀ i, (i.1 ≠ .acquire → ((after lane loss_at_arm is).step i).acquired = (after lane loss_at_arm is).acquired) ∧
      (after lane loss_at_arm is).sequence ≤ ((after lane loss_at_arm is).step i).sequence ∧
      ∀ j < kSlots, (after lane loss_at_arm is).Stored i.1 ((after lane loss_at_arm is).step i) j) ∧
    ∀ g ≤ (after lane loss_at_arm is).generation.generation, ∀ e post, ∃ views,
      (run step ((after lane loss_at_arm is).retire e g) post).acquired =
        (after lane loss_at_arm is).acquired ++ views ∧ ∀ v ∈ views, v.binding.lease_generation ≠ g := by
  have h := inv_after lane loss_at_arm is
  refine ⟨⟨h.ring.1, h.ring.2.1, h.ring.2.2, h.occupied⟩, h.acquired, fun e => ?_, fun i => ?_, fun g hg e post => ?_⟩
  · obtain ⟨ha, hc, -⟩ := acquire_lends h e
    exact ⟨ha, hc⟩
  · have hs := step_stepped h i
    exact ⟨step_acquired h i, hs.sequence, hs.stored⟩
  · have hm := moved_retire h e g
    rw [← hm.acquired]
    exact barred_run hm.inv (barred_retire h e hg) post

/-! ## What the counters and the tags do not see -/

theorem run_sourceLoss (hg : s.generation.generation ≠ 0) (hl : s.lane.generation = s.generation.generation)
    (hr : s.lane.ready_enabled = false) (e : Env) (n : ℕ) :
    run step s (List.replicate n (.sourceLoss, e)) =
      { s with losses := s.losses + n, lane := { s.lane with loss := s.lane.loss + n } } := by
  refine run_replicate
    (f := fun n => { s with losses := s.losses + n, lane := { s.lane with loss := s.lane.loss + n } }) (fun n => ?_) n
  unfold step sourceLoss
  rw [if_pos hg, Lane.lossOf, if_pos hl, Lane.markLoss, ← hr]
  rfl

def samplePending : PendingBinding := ⟨1, 5, 3, 1, 1, 0⟩

/-- The lane is armed, materialised, reset and transferred. -/
def sampleLease : List (DecodeOp × Env) :=
  ([.lane (.armPending true samplePending), .lane (.materializePending true 1 5),
    .lane (.fullResetComplete true ⟨1, 1, 0, true, true⟩),
    .lane (.transferPending true 1 samplePending 6 8)] : List DecodeOp).map fun op => (op, Owner.sampleEnv)

def sampleBinding : Binding :=
  { ticket := 1, lease_generation := 1, cache_generation := 1, holder := 5, model := 1, wire := 3, request := 6,
    birth := 8 }

/-- A scalar capture under the lease, up to its outcome. -/
def sampleCapture : List (DecodeOp × Env) :=
  ([.begin sampleBinding 1 .scalar 0 (some [7]) 0, .captureHc 1 4 1 9 0, .captureHc 1 16 1 9 0,
    .captureHc 1 24 1 9 0, .captureHc 1 36 1 9 0, .captureHc 1 44 1 9 0, .forwardReturned, .committed 1 1,
    .outcome sampleBinding 0 5 1] : List DecodeOp).map fun op => (op, Owner.sampleEnv)

def sampleAfter (is : List (DecodeOp × Env)) : Capture := after Owner.sampleLane 0 is

/-- The sample after losses. -/
def lossyCapture (n : ℕ) : Capture :=
  let s := sampleAfter (sampleLease ++ sampleCapture)
  { s with losses := s.losses + n, lane := { s.lane with loss := s.lane.loss + n } }

theorem after_losses (n : ℕ) :
    sampleAfter (sampleLease ++ sampleCapture ++ List.replicate n (.sourceLoss, Owner.sampleEnv)) =
      lossyCapture n := by
  have hg : (sampleAfter (sampleLease ++ sampleCapture)).generation.generation ≠ 0 := by decide +kernel
  have hl : (sampleAfter (sampleLease ++ sampleCapture)).lane.generation =
      (sampleAfter (sampleLease ++ sampleCapture)).generation.generation := by decide +kernel
  have hr : (sampleAfter (sampleLease ++ sampleCapture)).lane.ready_enabled = false := by decide +kernel
  unfold sampleAfter after
  rw [run_append]
  exact run_sourceLoss hg hl hr Owner.sampleEnv n

/-- A generation is retired before it is begun, and a view of it is acquired; and so is one after as many losses as a
word counts. -/
theorem retired_acquired :
    (∃ is view,
      ((sampleAfter (sampleLease ++ [(.retire 1, Owner.sampleEnv)] ++ is)).acquire Owner.sampleEnv).2 = some view ∧
        view.binding.lease_generation = 1) ∧
    ∃ is view, ((sampleAfter is).acquire Owner.sampleEnv).2 = some view ∧
      (((sampleAfter is).acquire Owner.sampleEnv).1.slots 0).view = view ∧
        (((sampleAfter is).acquire Owner.sampleEnv).1.slots 0).losses_at_begin <
          ((sampleAfter is).acquire Owner.sampleEnv).1.losses := by
  constructor
  · have hview : (((sampleAfter (sampleLease ++ [(.retire 1, Owner.sampleEnv)] ++ sampleCapture)).acquire
        Owner.sampleEnv).2.map fun view => view.binding.lease_generation) = some 1 := by decide +kernel
    obtain ⟨view, hv, hg⟩ := Option.map_eq_some_iff.1 hview
    exact ⟨sampleCapture, view, hv, hg⟩
  · have hview : ((lossyCapture (2 ^ 64)).acquire Owner.sampleEnv).2 =
        some (((lossyCapture (2 ^ 64)).acquire Owner.sampleEnv).1.slots 0).view := by decide +kernel
    have hlost : (((lossyCapture (2 ^ 64)).acquire Owner.sampleEnv).1.slots 0).losses_at_begin <
        ((lossyCapture (2 ^ 64)).acquire Owner.sampleEnv).1.losses := by decide +kernel
    refine ⟨sampleLease ++ sampleCapture ++ List.replicate (2 ^ 64) (.sourceLoss, Owner.sampleEnv),
      (((lossyCapture (2 ^ 64)).acquire Owner.sampleEnv).1.slots 0).view, ?_⟩
    rw [after_losses]
    exact ⟨hview, rfl, hlost⟩

end Capture

end StrixAlloy.Dflash

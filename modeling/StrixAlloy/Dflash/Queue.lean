import StrixAlloy.Dflash.Decode
import StrixAlloy.Dflash.Features
import Mathlib.Data.List.Pairwise

/-!
# The queue of captures

The invariant of a decode capture (`Capture.Inv`): what each slot of the ring is allowed to say of itself, how the
slots stand in the ring, and in which order the captures were begun and acquired. Every part of a call keeps it.
-/

namespace StrixAlloy.Dflash

open Runs Function

/-! ## Slots -/

/-- A slot and the copies to its storage. What a slot says is to be believed while it is valid. -/
structure Slot.Sound (slot : Slot) (queued fenced finished losses : ℕ) : Prop where
  copied : slot.valid → ∀ tap ∈ slot.mask, tap ∈ slot.copied
  returned : slot.valid → slot.returned → ∀ tap < 5, tap ∈ slot.mask
  committed : slot.valid → slot.committed → slot.returned ∧ 0 < slot.view.committed_rows ∧
    slot.view.committed_rows ≤ slot.view.verified_rows ∧
    slot.position = slot.view.anchor + slot.view.committed_rows
  reported : slot.valid → slot.done → slot.committed ∧ slot.status = 0 ∧
    slot.transported = slot.transported_before + slot.view.committed_rows ∧
    ∀ id ∈ slot.view.ids.drop slot.view.committed_rows, id = 0
  unqueued : slot.queued = false → finished = queued
  completed : slot.queued → slot.complete → finished = queued
  recorded : slot.queued → slot.recorded → slot.fence_failed = false → fenced = queued
  early : slot.returned = false → slot.done = false → slot.recorded = false ∧ slot.complete = false
  lent : slot.borrowed → slot.done ∧ finished = queued
  loss : slot.valid → slot.loss = word slot.losses_at_begin
  losses : slot.losses_at_begin ≤ losses

/-- The slot is at the same place, and its view is of the same capture. -/
structure Slot.Like (a b : Slot) : Prop where
  occupied : b.occupied = a.occupied
  borrowed : b.borrowed = a.borrowed
  binding : b.view.binding = a.view.binding
  capture_sequence : b.view.capture_sequence = a.view.capture_sequence
  round : b.view.round = a.view.round

theorem Slot.like_refl (a : Slot) : a.Like a := ⟨rfl, rfl, rfl, rfl, rfl⟩

/-- One capture was begun before the other. -/
structure DecodeView.Before (a b : DecodeView) : Prop where
  sequence : a.capture_sequence < b.capture_sequence
  generation : a.binding.lease_generation ≤ b.binding.lease_generation
  round : a.binding.lease_generation = b.binding.lease_generation → a.round < b.round

/-- The capture was begun by the `n`th, under the generation `g`, with a round up to `r`. -/
structure DecodeView.Begun (v : DecodeView) (n g r : ℕ) : Prop where
  sequence : v.capture_sequence ≤ n
  generation : v.binding.lease_generation ≤ g
  round : v.binding.lease_generation = g → v.round ≤ r

namespace Capture

/-- The place of the `i`th slot from the front. -/
def place (s : Capture) (i : ℕ) : ℕ := (s.read + i) % kSlots

structure Inv (s : Capture) : Prop where
  ring : s.read < kSlots ∧ s.count ≤ kSlots ∧ s.write = s.place s.count
  occupied : ∀ j < kSlots, (s.slots j).occupied ↔ ∃ i < s.count, j = s.place i
  empty : ∀ j < kSlots, (s.slots j).occupied = false →
    s.slots j = {} ∧ s.slot_generation j = {} ∧ s.finished j = s.queued j
  sound : ∀ j < kSlots, (s.slots j).Sound (s.queued j) (s.fenced j) (s.finished j) s.losses
  active : ∀ j, s.active = some j → j < kSlots ∧ (s.slots j).occupied ∧ (s.slots j).done = false ∧
    (s.slots j).view.binding.lease_generation = s.generation.generation
  undone : ∀ j < kSlots, (s.slots j).occupied → (s.slots j).done = false → s.active = some j
  tags : ∀ j < kSlots, (s.slots j).occupied →
    (s.slot_generation j).generation = (s.slots j).view.binding.lease_generation
  ranged : ∀ j < kSlots, (s.slots j).occupied → 0 < (s.slots j).view.binding.lease_generation ∧
    (s.slots j).view.binding.lease_generation < kRetired
  front : ∀ j < kSlots, (s.slots j).borrowed → j = s.read ∧ (s.slots j).occupied
  lane : s.generation.generation ≤ s.lane.generation
  begun : ∀ j < kSlots, (s.slots j).occupied →
    (s.slots j).view.Begun s.sequence s.generation.generation s.last_round
  order : ∀ i k, i < k → k < s.count → (s.slots (s.place i)).view.Before (s.slots (s.place k)).view
  past : ∀ v ∈ s.acquired, v.Begun s.sequence s.generation.generation s.last_round
  acquired : s.acquired.Pairwise DecodeView.Before
  ahead : ∀ v ∈ s.acquired, ∀ j < kSlots, (s.slots j).occupied → (s.slots j).borrowed = false →
    v.Before (s.slots j).view

variable {s t : Capture} {e : Env}

theorem place_lt (s : Capture) (i : ℕ) : s.place i < kSlots := Nat.mod_lt _ (by decide)

theorem place_zero (h : s.read < kSlots) : s.place 0 = s.read := by
  unfold place
  exact Nat.mod_eq_of_lt h

theorem before_of_like {a a' b b' : Slot} (h : a.view.Before b.view) (ha : a.Like a') (hb : b.Like b') :
    a'.view.Before b'.view := by
  constructor
  · rw [ha.capture_sequence, hb.capture_sequence]
    exact h.sequence
  · rw [ha.binding, hb.binding]
    exact h.generation
  · rw [ha.binding, hb.binding, ha.round, hb.round]
    exact h.round

/-- The slots change in what they say, and not in where they stand. -/
theorem inv_slots (h : Inv s) {slots : ℕ → Slot} (queued finished : ℕ → ℕ) {fenced : ℕ → ℕ} {active : Option ℕ}
    (hlike : ∀ j < kSlots, (s.slots j).Like (slots j))
    (hempty : ∀ j < kSlots, (slots j).occupied = false → slots j = {} ∧ finished j = queued j)
    (hsound : ∀ j < kSlots, (slots j).Sound (queued j) (fenced j) (finished j) s.losses)
    (hactive : ∀ j, active = some j → s.active = some j ∧ (slots j).done = false)
    (hundone : ∀ j < kSlots, (slots j).occupied → (slots j).done = false → active = some j) :
    Inv { s with slots := slots, queued := queued, fenced := fenced, finished := finished, active := active } where
  __ := h
  occupied := by
    intro j hj
    rw [show (slots j).occupied = _ from (hlike j hj).occupied]
    exact h.occupied j hj
  empty := by
    intro j hj ho
    obtain ⟨hs, hf⟩ := hempty j hj ho
    exact ⟨hs, (h.empty j hj ((hlike j hj).occupied.symm.trans ho)).2.1, hf⟩
  sound := hsound
  active := by
    intro j ha
    obtain ⟨ha, hd⟩ := hactive j ha
    obtain ⟨hj, ho, -, hg⟩ := h.active j ha
    have hl := hlike j hj
    exact ⟨hj, hl.occupied.trans ho, hd, (congrArg Binding.lease_generation hl.binding).trans hg⟩
  undone := hundone
  tags := by
    intro j hj ho
    rw [show (slots j).view.binding = _ from (hlike j hj).binding]
    exact h.tags j hj ((hlike j hj).occupied.symm.trans ho)
  ranged := by
    intro j hj ho
    rw [show (slots j).view.binding = _ from (hlike j hj).binding]
    exact h.ranged j hj ((hlike j hj).occupied.symm.trans ho)
  front := by
    intro j hj hb
    obtain ⟨hr, ho⟩ := h.front j hj ((hlike j hj).borrowed.symm.trans hb)
    exact ⟨hr, (hlike j hj).occupied.trans ho⟩
  begun := by
    intro j hj ho
    obtain ⟨h1, h2, h3⟩ := h.begun j hj ((hlike j hj).occupied.symm.trans ho)
    have hl := hlike j hj
    exact ⟨hl.capture_sequence ▸ h1, hl.binding ▸ h2, by rw [hl.binding, hl.round]; exact h3⟩
  order := by
    intro i k hik hk
    exact before_of_like (h.order i k hik hk) (hlike _ (place_lt s i)) (hlike _ (place_lt s k))
  ahead := by
    intro v hv j hj ho hb
    have hl := hlike j hj
    obtain ⟨h1, h2, h3⟩ := h.ahead v hv j hj (hl.occupied.symm.trans ho) (hl.borrowed.symm.trans hb)
    exact ⟨hl.capture_sequence ▸ h1, hl.binding ▸ h2, by rw [hl.binding, hl.round]; exact h3⟩

end Capture

/-- The tag is of the same generation, and once retired it stays so. -/
def Tag.Later (a b : Tag) : Prop := b.generation = a.generation ∧ (a.retired → b.retired)

theorem Tag.later_refl (a : Tag) : a.Later a := ⟨rfl, id⟩

theorem Tag.Later.trans {a b c : Tag} (h : a.Later b) (h' : b.Later c) : a.Later c :=
  ⟨h'.1.trans h.1, fun ha => h'.2 (h.2 ha)⟩

theorem Slot.Like.trans {a b c : Slot} (h : a.Like b) (h' : b.Like c) : a.Like c :=
  ⟨h'.occupied.trans h.occupied, h'.borrowed.trans h.borrowed, h'.binding.trans h.binding,
    h'.capture_sequence.trans h.capture_sequence, h'.round.trans h.round⟩

namespace Capture

/-- What the parts of a call keep that move no slot in the ring. -/
structure Moved (s t : Capture) : Prop where
  inv : Inv t
  read : t.read = s.read
  count : t.count = s.count
  sequence : t.sequence = s.sequence
  acquired : t.acquired = s.acquired
  generation : s.generation.Later t.generation
  slot_generation : ∀ j, (s.slot_generation j).Later (t.slot_generation j)
  like : ∀ j < kSlots, (s.slots j).Like (t.slots j)
  active : ∀ j, t.active = some j → s.active = some j
  written : ∀ j, t.queued j ≠ s.queued j → s.active = some j
  settled : ∀ j, s.active ≠ some j → s.finished j = s.queued j → t.finished j = t.queued j

variable {s t u : Capture} {e : Env}

theorem moved_refl (h : Inv s) : Moved s s :=
  ⟨h, rfl, rfl, rfl, rfl, Tag.later_refl _, fun _ => Tag.later_refl _, fun _ _ => Slot.like_refl _, fun _ => id,
    fun _ hne => absurd rfl hne, fun _ _ => id⟩

theorem Moved.trans (h : Moved s t) (h' : Moved t u) : Moved s u where
  inv := h'.inv
  read := h'.read.trans h.read
  count := h'.count.trans h.count
  sequence := h'.sequence.trans h.sequence
  acquired := h'.acquired.trans h.acquired
  generation := h.generation.trans h'.generation
  slot_generation := fun j => (h.slot_generation j).trans (h'.slot_generation j)
  like := fun j hj => (h.like j hj).trans (h'.like j hj)
  active := fun j ha => h.active j (h'.active j ha)
  written := by
    intro j hne
    by_cases heq : u.queued j = t.queued j
    · exact h.written j (heq ▸ hne)
    · exact h.active j (h'.written j heq)
  settled := fun j ha hf => h'.settled j (fun ht => ha (h.active j ht)) (h.settled j ha hf)

variable {j : ℕ}

/-- A slot that is done stays so. -/
theorem Moved.done (h : Moved s t) (hs : Inv s) (hj : j < kSlots) (ho : (s.slots j).occupied)
    (hd : (s.slots j).done) : (t.slots j).done := by
  by_contra hn
  have ha := h.inv.undone j hj ((h.like j hj).occupied.trans ho) (Bool.of_not_eq_true hn)
  have hf := (hs.active j (h.active j ha)).2.2.1
  rw [hd] at hf
  cases hf

/-! ## The lane and the losses -/

theorem moved_lane (h : Inv s) {l : Lane} (hl : s.lane.generation ≤ l.generation) : Moved s { s with lane := l } :=
  { moved_refl h with inv := { h with lane := Nat.le_trans h.lane hl } }

theorem lossOf_generation (l : Lane) (g : ℕ) : (l.lossOf g).generation = l.generation := by
  unfold Lane.lossOf
  split <;> rfl

theorem moved_sourceLoss (h : Inv s) : Moved s s.sourceLoss := by
  have hl : s.lane.generation ≤ s.sourceLoss.lane.generation := by
    unfold sourceLoss
    split
    · exact Nat.le_of_eq (lossOf_generation _ _).symm
    · exact Nat.le_refl _
  have hi : Inv s.sourceLoss :=
    { h with
      sound := fun j hj =>
        { h.sound j hj with losses := Nat.le_succ_of_le (h.sound j hj).losses }
      lane := Nat.le_trans h.lane hl }
  exact { moved_refl h with inv := hi }

theorem leaseValid_eq (s : Capture) (held : Bool) (b : Binding) : ∃ l, l.generation = s.lane.generation ∧
    (s.leaseValid held b).1 = { s with lane := l } ∧ ((s.leaseValid held b).2 → s.lane.matched b) := by
  refine ⟨(s.lane.valid held b).1, ?_, rfl, ?_⟩
  · unfold Lane.valid
    split <;> rfl
  · unfold leaseValid Lane.valid
    split
    · exact nofun
    · exact id

theorem leaseHealthy_eq (s : Capture) (held : Bool) (b : Binding) : ∃ l, l.generation = s.lane.generation ∧
    (s.leaseHealthy held b).1 = { s with lane := l } := by
  refine ⟨(s.lane.healthy held b s.loss_at_arm).1, ?_, rfl⟩
  unfold Lane.healthy
  split <;> rfl

theorem leased_eq (s : Capture) (held again : Bool) (b : Binding) : ∃ l, l.generation = s.lane.generation ∧
    (s.leased held again b).1 = { s with lane := l } ∧
      ((s.leased held again b).2 → s.lane.generation = b.lease_generation) := by
  obtain ⟨l, hl, he, hm⟩ := s.leaseValid_eq held b
  unfold leased
  dsimp only
  split
  · rename_i hv
    exact ⟨l, hl, he, fun h => absurd h (by simpa using hv)⟩
  · rename_i hv
    obtain ⟨l', hl', he'⟩ := (s.leaseValid held b).1.leaseHealthy_eq again b
    rw [he] at hl' he'
    refine ⟨l', hl'.trans hl, by rw [he, he'], fun _ => ?_⟩
    have hm := hm (by simpa using hv)
    unfold Lane.matched at hm
    simp only [Bool.and_eq_true, decide_eq_true_eq] at hm
    exact hm.1.1

/-! ## One slot -/

theorem set_same (s : Capture) (j : ℕ) (slot : Slot) : (s.set j slot).slots j = slot := update_self _ _ _

theorem set_set (s : Capture) (j : ℕ) (a b : Slot) : (s.set j a).set j b = s.set j b := by
  unfold set
  rw [update_idem]

/-- A slot changes, with the copies to its storage. -/
theorem moved_slot (h : Inv s) (hj : j < kSlots) (ho : (s.slots j).occupied) {slot : Slot} {q f d : ℕ}
    (hs : slot.Sound q f d s.losses) (hl : (s.slots j).Like slot) (hd : slot.done = (s.slots j).done)
    (hq : q ≠ s.queued j → s.active = some j) (hf : s.active ≠ some j → s.finished j = s.queued j → d = q) :
    Moved s { s.set j slot with
              queued := update s.queued j q
              fenced := update s.fenced j f
              finished := update s.finished j d } where
  inv := by
    change Inv { s with slots := update s.slots j slot, queued := _, fenced := _, finished := _ }
    refine inv_slots h _ _ ?_ ?_ ?_ ?_ ?_
    · intro i _
      by_cases hi : i = j
      · rw [hi, update_self]
        exact hl
      · rw [update_of_ne hi]
        exact Slot.like_refl _
    · intro i hi' hoi
      by_cases hi : i = j
      · rw [hi, update_self, hl.occupied, ho] at hoi
        cases hoi
      · rw [update_of_ne hi] at hoi
        simp only [update_of_ne hi]
        exact ⟨(h.empty i hi' hoi).1, (h.empty i hi' hoi).2.2⟩
    · intro i hi'
      by_cases hi : i = j
      · rw [hi]
        simp only [update_self]
        exact hs
      · simp only [update_of_ne hi]
        exact h.sound i hi'
    · intro i ha
      refine ⟨ha, ?_⟩
      have hdone := (h.active i ha).2.2.1
      by_cases hi : i = j
      · subst hi
        rw [update_self, hd, hdone]
      · rw [update_of_ne hi, hdone]
    · intro i hi' hoi hdi
      by_cases hi : i = j
      · subst hi
        rw [update_self, hd] at hdi
        exact h.undone i hi' ho hdi
      · rw [update_of_ne hi] at hoi hdi
        exact h.undone i hi' hoi hdi
  read := rfl
  count := rfl
  sequence := rfl
  acquired := rfl
  generation := Tag.later_refl _
  slot_generation := fun _ => Tag.later_refl _
  like := by
    intro i _
    change (s.slots i).Like (update s.slots j slot i)
    by_cases hi : i = j
    · rw [hi, update_self]
      exact hl
    · rw [update_of_ne hi]
      exact Slot.like_refl _
  active := fun _ => id
  written := by
    intro i hne
    change update s.queued j q i ≠ s.queued i at hne
    by_cases hi : i = j
    · rw [hi, update_self] at hne
      rw [hi]
      exact hq hne
    · rw [update_of_ne hi] at hne
      exact absurd rfl hne
  settled := by
    intro i ha hi'
    change update s.finished j d i = update s.queued j q i
    by_cases hi : i = j
    · rw [hi] at ha hi' ⊢
      rw [update_self, update_self]
      exact hf ha hi'
    · rw [update_of_ne hi, update_of_ne hi]
      exact hi'

/-- A slot changes, and nothing is copied. -/
theorem moved_set (h : Inv s) (hj : j < kSlots) (ho : (s.slots j).occupied) {slot : Slot}
    (hs : slot.Sound (s.queued j) (s.fenced j) (s.finished j) s.losses) (hl : (s.slots j).Like slot)
    (hd : slot.done = (s.slots j).done) : Moved s (s.set j slot) := by
  have hm := moved_slot h hj ho hs hl hd (absurd rfl) (fun _ => id)
  rwa [update_eq_self, update_eq_self, update_eq_self] at hm

/-- A slot that is not to be believed. -/
theorem sound_invalid {slot : Slot} {q f d n : ℕ} (h : slot.Sound q f d n) :
    { slot with valid := false }.Sound q f d n :=
  { h with
    copied := nofun
    returned := nofun
    committed := nofun
    reported := nofun
    loss := nofun }

theorem moved_invalid (h : Inv s) (hj : j < kSlots) (ho : (s.slots j).occupied) :
    Moved s (s.set j { s.slots j with valid := false }) :=
  moved_set h hj ho (sound_invalid (h.sound j hj)) ⟨rfl, rfl, rfl, rfl, rfl⟩ rfl

theorem moved_invalidate (h : Inv s) (hj : j < kSlots) (ho : (s.slots j).occupied) :
    Moved s (s.invalidate j) := (moved_invalid h hj ho).trans (moved_sourceLoss (moved_invalid h hj ho).inv)

/-- Whatever a slot says is forgotten with an invalidation. -/
theorem invalidate_set (s : Capture) (j : ℕ) (slot : Slot) :
    (s.set j slot).invalidate j = (s.set j { slot with valid := false }).sourceLoss := by
  unfold invalidate
  rw [set_same, set_set]

/-! ## Retirement -/

theorem drained_like (s : Capture) (e : Env) (j : ℕ) : (s.slots j).Like (s.drained e j) := by
  unfold drained
  split
  · exact Slot.like_refl _
  split
  · exact ⟨rfl, rfl, rfl, rfl, rfl⟩
  · exact ⟨rfl, rfl, rfl, rfl, rfl⟩

theorem drained_untagged (ht : s.tagged j = false) : s.drained e j = s.slots j := by simp [drained, ht]

/-- A slot of a retired generation is not believed. -/
theorem drained_tagged (ht : s.tagged j) :
    (s.drained e j).valid = false ∧ (s.drained e j).done := by
  unfold drained
  rw [ht, Bool.not_true, if_neg Bool.false_ne_true]
  split <;> exact ⟨rfl, rfl⟩

/-- The storage that the retirement fenced. -/
def refenced (s : Capture) (e : Env) (j : ℕ) : ℕ :=
  if j < kSlots ∧ s.tagged j ∧ s.lateFence j ∧ e.recorded j then s.queued j else s.fenced j

theorem drained_sound (h : Inv s) (hj : j < kSlots) :
    (s.drained e j).Sound (s.queued j) (s.refenced e j) (s.finished j) s.losses := by
  have hs := h.sound j hj
  cases ht : s.tagged j with
  | false =>
    rw [drained_untagged ht, refenced, if_neg (by simp [ht])]
    exact hs
  | true =>
    have hi := sound_invalid hs
    cases hf : s.lateFence j with
    | true =>
      have hd : s.drained e j = { s.slots j with
          valid := false, recorded := e.recorded j, fence_failed := !e.recorded j, done := true } := by
        simp [drained, ht, hf]
      rw [hd]
      exact { hi with
        reported := nofun
        recorded := fun _ hr _ => if_pos ⟨hj, ht, hf, hr⟩
        early := nofun
        lent := fun hb => ⟨rfl, (hs.lent hb).2⟩ }
    | false =>
      have hd : s.drained e j = { s.slots j with valid := false, done := true } := by simp [drained, ht, hf]
      have hr : s.refenced e j = s.fenced j := by simp [refenced, hf]
      rw [hd, hr]
      exact { hi with
        reported := nofun
        early := nofun
        lent := fun hb => ⟨rfl, (hs.lent hb).2⟩ }

theorem moved_drain (h : Inv s) (e : Env) : Moved s (s.drainRetirements e) := by
  have hlike : ∀ j, (s.slots j).Like (if j < kSlots then s.drained e j else s.slots j) := by
    intro j
    split
    · exact s.drained_like e j
    · exact Slot.like_refl _
  have hactive : ∀ j, (s.drainRetirements e).active = some j → s.active = some j ∧ s.tagged j = false := by
    intro j ha
    unfold drainRetirements at ha
    split at ha
    · cases ha
    · simpa [Option.filter_eq_some_iff] using ha
  have hinv : Inv { s with
      slots := fun j => if j < kSlots then s.drained e j else s.slots j
      fenced := s.refenced e
      active := (s.drainRetirements e).active } := by
    refine inv_slots h s.queued s.finished (fun j _ => hlike j) ?_ ?_ ?_ ?_
    · intro j hj ho
      rw [(hlike j).occupied] at ho
      have ht : s.tagged j = false := by simp [tagged, ho]
      rw [if_pos hj, drained_untagged ht]
      exact ⟨(h.empty j hj ho).1, (h.empty j hj ho).2.2⟩
    · intro j hj
      rw [if_pos hj]
      exact drained_sound h hj
    · intro j ha
      obtain ⟨ha, ht⟩ := hactive j ha
      obtain ⟨hj, -, hd, -⟩ := h.active j ha
      rw [if_pos hj, drained_untagged ht]
      exact ⟨ha, hd⟩
    · intro j hj ho hd
      rw [if_pos hj] at ho hd
      cases ht : s.tagged j with
      | true =>
        rw [(drained_tagged ht).2] at hd
        cases hd
      | false =>
        rw [drained_untagged ht] at ho hd
        have ha := h.undone j hj ho hd
        have hg := (h.active j ha).2.2.2
        have hr : s.generation.retired = false := by
          simp only [tagged, ho, hg, Bool.true_and, Bool.or_eq_false_iff, decide_true, Bool.and_true] at ht
          exact ht.2
        simp [drainRetirements, hr, ha, ht]
  exact { moved_refl h with
    inv := { hinv with }
    like := fun j _ => hlike j
    active := fun j ha => (hactive j ha).1 }

/-- What is believed after the retirements is of no retired generation. -/
theorem drain_valid (hj : j < kSlots) (hv : ((s.drainRetirements e).slots j).valid) :
    s.tagged j = false ∧ (s.drainRetirements e).slots j = s.slots j := by
  have hd : (s.drainRetirements e).slots j = s.drained e j := if_pos hj
  rw [hd] at hv ⊢
  cases ht : s.tagged j with
  | true =>
    rw [(drained_tagged ht).1] at hv
    cases hv
  | false => exact ⟨rfl, drained_untagged ht⟩

end Capture

end StrixAlloy.Dflash

import StrixAlloy.Dflash.Queue

/-!
# The capture in progress

The calls that fill, fence, commit and report the capture in progress, and the fences of the others.
-/

namespace StrixAlloy.Dflash

open Function

namespace Capture

variable {s t u : Capture} {e : Env}

/-! ## The capture in progress -/

variable {j tap : ℕ}

/-- A capture in progress is not fenced, not lent, and not done. -/
theorem Inv.progress (h : Inv s) (ha : s.active = some j) : j < kSlots ∧ (s.slots j).occupied ∧
    (s.slots j).done = false ∧ (s.slots j).borrowed = false := by
  obtain ⟨hj, ho, hd, -⟩ := h.active j ha
  refine ⟨hj, ho, hd, Bool.of_not_eq_true fun hb => ?_⟩
  rw [((h.sound j hj).lent hb).1] at hd
  cases hd

/-- A tap is copied to the storage of the capture in progress. -/
theorem moved_copy (h : Inv s) (ha : s.active = some j) (hr : (s.slots j).returned = false) :
    Moved s ((s.set j { s.slots j with mask := tap :: (s.slots j).mask }).copy j tap true) := by
  obtain ⟨hj, ho, hd, hb⟩ := h.progress ha
  have hs := h.sound j hj
  obtain ⟨hrec, hcom⟩ := hs.early hr hd
  have hsound : { s.slots j with
      mask := tap :: (s.slots j).mask, queued := true, copied := tap :: (s.slots j).copied }.Sound
        (s.queued j + 1) (s.fenced j) (s.finished j) s.losses :=
    { hs with
      copied := fun hv => by
        intro i hi
        rcases List.mem_cons.1 hi with rfl | hi
        · exact List.mem_cons_self
        · exact List.mem_cons_of_mem _ (hs.copied hv i hi)
      returned := fun _ hret => by
        rw [hr] at hret
        cases hret
      unqueued := nofun
      completed := fun _ hc => by
        rw [hcom] at hc
        cases hc
      recorded := fun _ hc => by
        rw [hrec] at hc
        cases hc
      lent := fun hl => by
        rw [hb] at hl
        cases hl }
  have hm := moved_slot h hj ho hsound ⟨rfl, rfl, rfl, rfl, rfl⟩ rfl (fun _ => ha) (fun hn => absurd ha hn)
  rw [update_eq_self, update_eq_self] at hm
  unfold copy
  rw [set_same, set_set]
  exact hm

/-- A copy that failed, of a slot that is invalidated. -/
theorem moved_copy_failed (h : Inv s) (ha : s.active = some j) (hr : (s.slots j).returned = false) :
    Moved s (((s.set j { s.slots j with mask := tap :: (s.slots j).mask }).copy j tap false).invalidate j) := by
  obtain ⟨hj, ho, hd, hb⟩ := h.progress ha
  have hs := h.sound j hj
  obtain ⟨hrec, hcom⟩ := hs.early hr hd
  have hsound : { s.slots j with mask := tap :: (s.slots j).mask, queued := true, valid := false }.Sound
      (s.queued j + 1) (s.fenced j) (s.finished j) s.losses :=
    { sound_invalid hs with
      copied := nofun
      returned := nofun
      unqueued := nofun
      completed := fun _ hc => by
        rw [hcom] at hc
        cases hc
      recorded := fun _ hc => by
        rw [hrec] at hc
        cases hc
      lent := fun hl => by
        rw [hb] at hl
        cases hl }
  have hm := moved_slot h hj ho hsound ⟨rfl, rfl, rfl, rfl, rfl⟩ rfl (fun _ => ha) (fun hn => absurd ha hn)
  rw [update_eq_self, update_eq_self] at hm
  have hm := hm.trans (moved_sourceLoss hm.inv)
  unfold copy invalidate set
  simp only [update_self, update_idem]
  exact hm

/-- A tap is noted, and the slot invalidated. -/
theorem moved_noted (h : Inv s) (ha : s.active = some j) :
    Moved s ((s.set j { s.slots j with mask := tap :: (s.slots j).mask }).invalidate j) := by
  obtain ⟨hj, ho, -, -⟩ := h.progress ha
  have hs := h.sound j hj
  rw [invalidate_set]
  have hm : Moved s (s.set j { s.slots j with mask := tap :: (s.slots j).mask, valid := false }) :=
    moved_set h hj ho { sound_invalid hs with copied := nofun, returned := nofun } ⟨rfl, rfl, rfl, rfl, rfl⟩ rfl
  exact hm.trans (moved_sourceLoss hm.inv)

theorem moved_capture (h : Inv s) (model layer rows source stream : ℕ) :
    Moved s (s.captureBody e model layer rows source stream).1 := by
  unfold captureBody
  split
  · rename_i j tap ha _
    obtain ⟨hj, ho, -, -⟩ := h.progress ha
    dsimp only
    split
    · exact moved_refl h
    split
    · exact moved_invalidate h hj ho
    · rename_i hc
      have hr : (s.slots j).returned = false := by
        simp only [Bool.or_eq_true, not_or, Bool.not_eq_true] at hc
        exact hc.1.2
      split
      · exact moved_noted h ha
      · obtain ⟨l, hl, he⟩ := (s.set j { s.slots j with mask := tap :: (s.slots j).mask }).leaseHealthy_eq (e.lane 0)
          (s.slots j).view.binding
        have hm := moved_lane h (Nat.le_of_eq hl.symm)
        rw [he]
        split
        · exact hm.trans (moved_noted hm.inv ha)
        split
        · exact hm.trans (moved_copy hm.inv ha hr)
        · exact hm.trans (moved_copy_failed hm.inv ha hr)
  · exact moved_refl h

/-! ## The end of a forward -/

theorem moved_fence (h : Inv s) (hj : j < kSlots) (ho : (s.slots j).occupied)
    (hr : (s.slots j).returned) (ok : Bool) : Moved s (s.fence j ok) := by
  have hs := h.sound j hj
  have hearly {p : Prop} : (s.slots j).returned = false → p := fun hn => by
    rw [hr] at hn
    cases hn
  unfold fence
  dsimp only
  split
  · cases ok with
    | true =>
      have hsound : { s.slots j with
          recorded := true, fence_failed := (s.slots j).fence_failed || !true }.Sound (s.queued j) (s.queued j)
            (s.finished j) s.losses :=
        { hs with
          recorded := fun _ _ _ => rfl
          early := hearly }
      have hm := moved_slot h hj ho hsound ⟨rfl, rfl, rfl, rfl, rfl⟩ rfl (absurd rfl) (fun _ => id)
      rw [update_eq_self, update_eq_self] at hm
      exact hm
    | false =>
      have hsound : { s.slots j with
          recorded := false, fence_failed := (s.slots j).fence_failed || !false }.Sound (s.queued j) (s.fenced j)
            (s.finished j) s.losses :=
        { hs with
          recorded := nofun
          early := hearly }
      have hm := moved_set h hj ho hsound ⟨rfl, rfl, rfl, rfl, rfl⟩ rfl
      exact hm.trans (moved_invalidate hm.inv hj ((hm.like j hj).occupied.trans ho))
  · rename_i hq
    have hsound : { s.slots j with complete := true }.Sound (s.queued j) (s.fenced j) (s.finished j) s.losses :=
      { hs with
        completed := fun hn => absurd hn hq
        early := hearly }
    exact moved_set h hj ho hsound ⟨rfl, rfl, rfl, rfl, rfl⟩ rfl

theorem moved_forward (h : Inv s) : Moved s (s.forwardBody e).1 := by
  unfold forwardBody
  split
  · exact moved_refl h
  · rename_i j ha
    obtain ⟨hj, ho, -, -⟩ := h.progress ha
    dsimp only
    have hfirst : ∃ t, (if (s.slots j).returned || !(List.range 5).all (· ∈ (s.slots j).mask) then s.invalidate j
        else s) = t ∧ Moved s t ∧ ((t.slots j).valid → ∀ tap < 5, tap ∈ (t.slots j).mask) := by
      split
      · refine ⟨_, rfl, moved_invalidate h hj ho, fun hv => ?_⟩
        have hi : (s.invalidate j).slots j = { s.slots j with valid := false } := update_self _ _ _
        rw [hi] at hv
        cases hv
      · rename_i hc
        refine ⟨_, rfl, moved_refl h, fun _ tap htap => ?_⟩
        simp only [Bool.or_eq_true, not_or, Bool.not_eq_true', Bool.not_eq_false, List.all_eq_true, List.mem_range,
          decide_eq_true_eq] at hc
        exact hc.2 tap htap
    obtain ⟨t, ht, hm, hmask⟩ := hfirst
    rw [ht]
    have hot : (t.slots j).occupied := (hm.like j hj).occupied.trans ho
    have hsound : { t.slots j with returned := true }.Sound (t.queued j) (t.fenced j) (t.finished j) t.losses :=
      { hm.inv.sound j hj with
        returned := fun hv _ => hmask hv
        committed := fun hv hc => ⟨rfl, ((hm.inv.sound j hj).committed hv hc).2⟩
        early := nofun }
    have hret := moved_set hm.inv hj hot hsound ⟨rfl, rfl, rfl, rfl, rfl⟩ rfl
    have hfence := moved_fence hret.inv hj ((hret.like j hj).occupied.trans hot) (by rw [set_same]) (e.recorded 8)
    exact (hm.trans hret).trans hfence

/-! ## The commitment and the outcome -/

theorem moved_committed (h : Inv s) (k : ℕ) (position : ℤ) : Moved s (s.committedBody k position).1 := by
  unfold committedBody
  split
  · exact moved_refl h
  · rename_i j ha
    obtain ⟨hj, ho, hd, -⟩ := h.progress ha
    dsimp only
    split
    · rename_i hc
      simp only [Bool.and_eq_true, decide_eq_true_eq] at hc
      obtain ⟨⟨⟨⟨⟨hret, -⟩, hpos⟩, hle⟩, -⟩, hat⟩ := hc
      have hs := h.sound j hj
      have hsound : { s.slots j with
          view := { (s.slots j).view with committed_rows := k }, committed := true, position := position }.Sound
            (s.queued j) (s.fenced j) (s.finished j) s.losses :=
        { hs with
          committed := fun _ _ => ⟨hret, hpos, hle, hat.symm⟩
          reported := fun _ hdone => by
            rw [hd] at hdone
            cases hdone }
      exact moved_set h hj ho hsound ⟨rfl, rfl, rfl, rfl, rfl⟩ rfl
    · exact moved_invalidate h hj ho

/-- The capture in progress is done. -/
theorem moved_done (h : Inv s) (ha : s.active = some j) {slot : Slot}
    (hs : slot.Sound (s.queued j) (s.fenced j) (s.finished j) s.losses) (hl : (s.slots j).Like slot)
    (hd : slot.done) : Moved s { s.set j slot with active := none } := by
  obtain ⟨hj, ho, -, -⟩ := h.progress ha
  have hlike : ∀ i, (s.slots i).Like (update s.slots j slot i) := by
    intro i
    by_cases hi : i = j
    · rw [hi, update_self]
      exact hl
    · rw [update_of_ne hi]
      exact Slot.like_refl _
  have hinv : Inv { s with slots := update s.slots j slot, active := none } := by
    refine inv_slots h _ _ (fun i _ => hlike i) ?_ ?_ nofun ?_
    · intro i hi hoi
      by_cases hij : i = j
      · rw [hij, update_self, hl.occupied, ho] at hoi
        cases hoi
      · rw [update_of_ne hij] at hoi ⊢
        exact ⟨(h.empty i hi hoi).1, (h.empty i hi hoi).2.2⟩
    · intro i hi
      by_cases hij : i = j
      · rw [hij, update_self]
        exact hs
      · rw [update_of_ne hij]
        exact h.sound i hi
    · intro i hi hoi hdi
      by_cases hij : i = j
      · rw [hij, update_self, hd] at hdi
        cases hdi
      · rw [update_of_ne hij] at hoi hdi
        have hai := h.undone i hi hoi hdi
        rw [ha] at hai
        exact absurd (Option.some.inj hai).symm hij
  exact { moved_refl h with
    inv := hinv
    like := fun i _ => hlike i
    active := nofun }

theorem drop_padded (ids : List ℤ) (k n : ℕ) : ∀ id ∈ (ids.take k ++ List.replicate n 0).drop k, id = 0 := by
  intro id hid
  rw [List.drop_append, List.drop_eq_nil_of_le (List.length_take_le k ids), List.nil_append] at hid
  exact List.eq_of_mem_replicate (List.mem_of_mem_drop hid)

theorem invalidate_valid (s : Capture) (j : ℕ) : ((s.invalidate j).slots j).valid = false := by
  have hi : (s.invalidate j).slots j = { s.slots j with valid := false } := update_self _ _ _
  rw [hi]

/-- A report, of a slot that is believed only where everything was in order. -/
theorem moved_reported (h : Moved s t) (ha : t.active = some j) {status current : ℤ} {transported : ℕ}
    (hv : (t.slots j).valid → (t.slots j).committed ∧ status = 0 ∧ transported =
      (t.slots j).transported_before + (t.slots j).view.committed_rows) :
    Moved s { t.set j (reported (t.slots j) status current transported) with active := none } := by
  obtain ⟨hj, -, -, hb⟩ := h.inv.progress ha
  have hs := h.inv.sound j hj
  have hsound : (reported (t.slots j) status current transported).Sound (t.queued j) (t.fenced j) (t.finished j)
      t.losses :=
    { hs with
      reported := fun hval _ => by
        obtain ⟨hc, hst, htr⟩ := hv hval
        exact ⟨hc, hst, htr, drop_padded _ _ _⟩
      early := nofun
      lent := fun hl => by
        rw [show (t.slots j).borrowed = true from hl] at hb
        cases hb }
  exact h.trans (moved_done h.inv ha hsound ⟨rfl, rfl, rfl, rfl, rfl⟩ rfl)

theorem moved_outcome (h : Inv s) (b : Binding) (status current : ℤ) (transported : ℕ) :
    Moved s (s.outcomeBody e b status current transported).1 := by
  unfold outcomeBody
  split
  · exact moved_refl h
  · rename_i j ha
    obtain ⟨hj, ho, -, -⟩ := h.progress ha
    dsimp only
    split
    · rename_i hc
      simp only [Bool.and_eq_true, decide_eq_true_eq] at hc
      obtain ⟨⟨⟨⟨⟨⟨⟨-, -⟩, -⟩, hcom⟩, hst⟩, -⟩, htr⟩, -⟩ := hc
      obtain ⟨l, hl, he, -⟩ := s.leased_eq (e.lane 0) (e.lane 1) b
      have hm := moved_lane h (Nat.le_of_eq hl.symm)
      rw [he]
      split
      · exact moved_reported hm ha fun _ => ⟨hcom, hst, htr.symm⟩
      · refine moved_reported (hm.trans (moved_invalidate hm.inv hj ho)) ha fun hv => ?_
        rw [invalidate_valid] at hv
        cases hv
    · rw [if_neg Bool.false_ne_true]
      refine moved_reported (moved_invalidate h hj ho) ha fun hv => ?_
      rw [invalidate_valid] at hv
      cases hv

/-! ## The fences of the others -/

theorem moved_fence_complete (h : Inv s) (hj : j < kSlots) (ho : (s.slots j).occupied) :
    Moved s (s.fenceComplete e j).1 := by
  have hs := h.sound j hj
  unfold fenceComplete
  dsimp only
  split
  · exact moved_refl h
  split
  · exact moved_refl h
  · rename_i hq hr
    simp only [Bool.or_eq_true, Bool.not_eq_true', not_or, Bool.not_eq_false, Bool.not_eq_true] at hq hr
    split
    · have hsound : { s.slots j with fence_failed := true }.Sound (s.queued j) (s.fenced j) (s.finished j) s.losses :=
        { hs with recorded := nofun }
      have hm := moved_set h hj ho hsound ⟨rfl, rfl, rfl, rfl, rfl⟩ rfl
      exact hm.trans (moved_invalidate hm.inv hj ((hm.like j hj).occupied.trans ho))
    · have hf : s.fenced j = s.queued j := hs.recorded hq.1 hr.1 hr.2
      have hsound : { s.slots j with complete := true }.Sound (s.queued j) (s.fenced j) (s.fenced j) s.losses :=
        { hs with
          unqueued := fun _ => hf
          completed := fun _ _ => hf
          early := fun hn hd => absurd (hs.early hn hd).1 (by simp [hr.1])
          lent := fun hb => ⟨(hs.lent hb).1, hf⟩ }
      have hm := moved_slot h hj ho hsound ⟨rfl, rfl, rfl, rfl, rfl⟩ rfl (absurd rfl) (fun _ _ => hf)
      rw [update_eq_self, update_eq_self] at hm
      exact hm
    · exact moved_refl h

/-- A fence that is complete: the copies to the storage are. -/
theorem fenceComplete_finished (h : Inv s) (hj : j < kSlots) (hok : (s.fenceComplete e j).2) :
    (s.fenceComplete e j).1.finished j = (s.fenceComplete e j).1.queued j := by
  have hs := h.sound j hj
  unfold fenceComplete at hok ⊢
  dsimp only at hok ⊢
  split
  · rename_i hc
    rw [Bool.or_eq_true, Bool.not_eq_true'] at hc
    cases hq : (s.slots j).queued with
    | false => exact hs.unqueued hq
    | true =>
      rcases hc with hc | hc
      · rw [hq] at hc
        cases hc
      · exact hs.completed hq hc
  · rename_i hq
    rw [if_neg hq] at hok
    split
    · rename_i hr
      rw [if_pos hr] at hok
      cases hok
    · rename_i hr
      rw [if_neg hr] at hok
      simp only [Bool.or_eq_true, Bool.not_eq_true', not_or, Bool.not_eq_false, Bool.not_eq_true] at hq hr
      split
      · rename_i hp
        rw [hp] at hok
        cases hok
      · exact (update_self _ _ _).trans (hs.recorded hq.1 hr.1 hr.2)
      · rename_i hp
        rw [hp] at hok
        cases hok

end Capture

end StrixAlloy.Dflash

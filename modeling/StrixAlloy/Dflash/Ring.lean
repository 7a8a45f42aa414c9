import StrixAlloy.Dflash.Progress

/-!
# The ring of slots

A capture is admitted at the end of the ring, and the front is cleared or lent. What an acquisition looks at, and what
it finds.
-/

namespace StrixAlloy.Dflash

open Function

namespace Capture

variable {s t u : Capture} {e : Env}

theorem place_succ (s : Capture) (i : ℕ) : s.place (i + 1) = ((s.read + 1) % kSlots + i) % kSlots := by
  simp only [place, kSlots]
  omega

theorem place_inj {i k : ℕ} (hi : i < kSlots) (hk : k < kSlots) (h : s.place i = s.place k) : i = k := by
  simp only [place, kSlots] at *
  omega

theorem Inv.front_occupied (h : Inv s) (hc : s.count ≠ 0) : (s.slots s.read).occupied :=
  (h.occupied s.read h.ring.1).2 ⟨0, Nat.pos_of_ne_zero hc, (place_zero h.ring.1).symm⟩

/-! ## Clearing -/

/-- The front slot is cleared, where it is done and its copies are finished. -/
theorem inv_clear (h : Inv s) (hc : s.count ≠ 0) (hd : (s.slots s.read).done)
    (hf : s.finished s.read = s.queued s.read) : Inv s.clearFront := by
  have hslots : ∀ j, s.clearFront.slots j = if j = s.read then {} else s.slots j := by
    intro j
    exact update_apply _ _ _ _
  have htags : ∀ j, s.clearFront.slot_generation j = if j = s.read then {} else s.slot_generation j := by
    intro j
    exact update_apply _ _ _ _
  have hplace : ∀ i, s.clearFront.place i = s.place (i + 1) := fun i => (s.place_succ i).symm
  have hother : ∀ i, i + 1 < s.count → s.place (i + 1) ≠ s.read := by
    intro i hi heq
    rw [← place_zero h.ring.1] at heq
    have := place_inj (Nat.lt_of_lt_of_le hi h.ring.2.1) (by decide) heq
    omega
  have hleft : ∀ {j : ℕ}, (s.clearFront.slots j).occupied → j ≠ s.read ∧ s.clearFront.slots j = s.slots j := by
    intro j ho
    rw [hslots] at ho ⊢
    split at ho
    · cases ho
    · rename_i hj
      exact ⟨hj, if_neg hj⟩
  constructor
  · obtain ⟨hr, hn, hw⟩ := h.ring
    refine ⟨Nat.mod_lt _ (by decide), Nat.le_trans (Nat.sub_le _ _) hn, ?_⟩
    rw [hplace]
    change s.write = s.place (s.count - 1 + 1)
    rw [hw, Nat.sub_add_cancel (Nat.pos_of_ne_zero hc)]
  · intro j hj
    constructor
    · intro ho
      obtain ⟨hne, heq⟩ := hleft ho
      rw [heq] at ho
      obtain ⟨i, hi, hp⟩ := (h.occupied j hj).1 ho
      cases i with
      | zero => exact absurd (hp.trans (place_zero h.ring.1)) hne
      | succ i => exact ⟨i, by change i < s.count - 1; omega, hp.trans (hplace i).symm⟩
    · rintro ⟨i, hi, hp⟩
      have hi : i + 1 < s.count := by
        change i < s.count - 1 at hi
        omega
      rw [hplace] at hp
      rw [hslots, if_neg (hp ▸ hother i hi)]
      exact (h.occupied j hj).2 ⟨i + 1, hi, hp⟩
  · intro j hj ho
    by_cases hjr : j = s.read
    · rw [hslots, htags, if_pos hjr, if_pos hjr, hjr]
      exact ⟨rfl, rfl, hf⟩
    · rw [hslots, if_neg hjr] at ho
      rw [hslots, htags, if_neg hjr, if_neg hjr]
      exact h.empty j hj ho
  · intro j hj
    by_cases hjr : j = s.read
    · rw [hslots, if_pos hjr, hjr]
      exact ⟨nofun, nofun, nofun, nofun, fun _ => hf, nofun, nofun, fun _ _ => ⟨rfl, rfl⟩, nofun, nofun, Nat.zero_le _⟩
    · rw [hslots, if_neg hjr]
      exact h.sound j hj
  · intro j ha
    obtain ⟨hj, ho, hdj, hg⟩ := h.active j ha
    have hjr : j ≠ s.read := by
      rintro rfl
      rw [hd] at hdj
      cases hdj
    rw [hslots, if_neg hjr]
    exact ⟨hj, ho, hdj, hg⟩
  · intro j hj ho hdj
    have heq := (hleft ho).2
    rw [heq] at ho hdj
    exact h.undone j hj ho hdj
  · intro j hj ho
    obtain ⟨hjr, heq⟩ := hleft ho
    rw [heq] at ho ⊢
    rw [htags, if_neg hjr]
    exact h.tags j hj ho
  · intro j hj ho
    have heq := (hleft ho).2
    rw [heq] at ho ⊢
    exact h.ranged j hj ho
  · intro j hj hb
    rw [hslots] at hb
    split at hb
    · cases hb
    · rename_i hjr
      exact absurd (h.front j hj hb).1 hjr
  · exact h.lane
  · intro j hj ho
    have heq := (hleft ho).2
    rw [heq] at ho ⊢
    exact h.begun j hj ho
  · intro i k hik hk
    have hk : k + 1 < s.count := by
      change k < s.count - 1 at hk
      omega
    rw [hplace, hplace, hslots, hslots, if_neg (hother i (by omega)), if_neg (hother k hk)]
    exact h.order (i + 1) (k + 1) (by omega) hk
  · exact h.past
  · exact h.acquired
  · intro v hv j hj ho hb
    have heq := (hleft ho).2
    rw [heq] at ho hb ⊢
    exact h.ahead v hv j hj ho hb

/-! ## Admission -/

/-- What an admission finds. -/
structure Admissible (s : Capture) (b : Binding) (round : ℕ) : Prop where
  active : s.active = none
  count : s.count < kSlots
  free : (s.slots s.write).occupied = false
  positive : 0 < b.lease_generation
  bounded : b.lease_generation < kRetired
  lane : s.lane.generation = b.lease_generation
  round : s.generation.generation = b.lease_generation → s.last_round < round
  unretired : s.generation ≠ ⟨b.lease_generation, true⟩

/-- What was begun before is before the new capture. -/
theorem Inv.before_opened (h : Inv s) {b : Binding} {round : ℕ} (ha : s.Admissible b round) {v w : DecodeView}
    (hv : v.Begun s.sequence s.generation.generation s.last_round) (hs : w.capture_sequence = s.sequence + 1)
    (hb : w.binding = b) (hr : w.round = round) : v.Before w := by
  have hle : s.generation.generation ≤ b.lease_generation := ha.lane ▸ h.lane
  refine ⟨?_, ?_, fun hg => ?_⟩
  · rw [hs]
    exact Nat.lt_succ_of_le hv.sequence
  · rw [hb]
    exact Nat.le_trans hv.generation hle
  · rw [hb] at hg
    have hgen : s.generation.generation = b.lease_generation := Nat.le_antisymm hle (hg ▸ hv.generation)
    rw [hr]
    exact Nat.lt_of_le_of_lt (hv.round (hg.trans hgen.symm)) (ha.round hgen)

/-- A view that was begun is still so, after the new capture. -/
theorem Inv.begun_later (h : Inv s) {b : Binding} {round : ℕ} (ha : s.Admissible b round) {v : DecodeView}
    (hv : v.Begun s.sequence s.generation.generation s.last_round) :
    v.Begun (s.sequence + 1) b.lease_generation round := by
  have hle : s.generation.generation ≤ b.lease_generation := ha.lane ▸ h.lane
  refine ⟨Nat.le_succ_of_le hv.sequence, Nat.le_trans hv.generation hle, fun hg => ?_⟩
  have hgen : s.generation.generation = b.lease_generation := Nat.le_antisymm hle (hg ▸ hv.generation)
  exact Nat.le_trans (hv.round (hg.trans hgen.symm)) (Nat.le_of_lt (ha.round hgen))

theorem admitted_generation (s : Capture) (b : Binding) (round : ℕ) (source : DecodeSource) (anchor : ℤ)
    (ids : List ℤ) (transported : ℕ) :
    (s.admitted b round source anchor ids transported).generation.generation = b.lease_generation := by
  unfold admitted
  split
  · rfl
  · rename_i hg
    exact not_not.1 hg

theorem inv_admitted (h : Inv s) {b : Binding} {round : ℕ} (ha : s.Admissible b round) (source : DecodeSource)
    (anchor : ℤ) (ids : List ℤ) (transported : ℕ) : Inv (s.admitted b round source anchor ids transported) := by
  set t := s.admitted b round source anchor ids transported with ht
  have hslots : ∀ j, t.slots j = if j = s.write then s.opened b round source anchor ids transported else s.slots j :=
    fun j => update_apply _ _ _ _
  have htags : ∀ j, t.slot_generation j = if j = s.write then ⟨b.lease_generation, false⟩ else s.slot_generation j :=
    fun j => update_apply _ _ _ _
  have hgen : t.generation.generation = b.lease_generation := admitted_generation _ _ _ _ _ _ _
  have hplace : ∀ i, t.place i = s.place i := fun _ => rfl
  obtain ⟨hread, hcount, hwrite⟩ := h.ring
  have hne : ∀ {i : ℕ}, i < s.count → s.place i ≠ s.write := by
    intro i hi heq
    have ho := (h.occupied _ (s.place_lt i)).2 ⟨i, hi, rfl⟩
    rw [heq, ha.free] at ho
    cases ho
  have hold : ∀ {j : ℕ}, j < kSlots → (s.slots j).occupied → j ≠ s.write := by
    rintro j - ho rfl
    rw [ha.free] at ho
    cases ho
  have hw : s.write < kSlots := hwrite ▸ s.place_lt s.count
  constructor
  · refine ⟨hread, ha.count, ?_⟩
    change (s.write + 1) % kSlots = s.place (s.count + 1)
    rw [hwrite]
    simp only [place, kSlots]
    omega
  · intro j hj
    by_cases hjw : j = s.write
    · rw [hslots, if_pos hjw]
      exact ⟨fun _ => ⟨s.count, Nat.lt_succ_self _, hjw.trans hwrite⟩, fun _ => rfl⟩
    · rw [hslots, if_neg hjw, h.occupied j hj]
      constructor
      · rintro ⟨i, hi, hp⟩
        exact ⟨i, Nat.lt_succ_of_lt hi, hp⟩
      · rintro ⟨i, hi, hp⟩
        have hi' : i ≠ s.count := fun heq => hjw (by rw [hp, heq]; exact hwrite.symm)
        exact ⟨i, Nat.lt_of_le_of_ne (Nat.lt_succ_iff.1 hi) hi', hp⟩
  · intro j hj ho
    by_cases hjw : j = s.write
    · rw [hslots, if_pos hjw] at ho
      cases ho
    · rw [hslots, if_neg hjw] at ho
      rw [hslots, htags, if_neg hjw, if_neg hjw]
      exact h.empty j hj ho
  · intro j hj
    by_cases hjw : j = s.write
    · rw [hslots, if_pos hjw]
      have hf := (h.empty j hj (hjw ▸ ha.free)).2.2
      exact ⟨nofun, nofun, nofun, nofun, fun _ => hf, nofun, nofun, fun _ _ => ⟨rfl, rfl⟩, nofun, fun _ => rfl,
        Nat.le_refl _⟩
    · rw [hslots, if_neg hjw]
      exact h.sound j hj
  · intro j hj
    obtain rfl : s.write = j := Option.some.inj hj
    rw [hslots, if_pos rfl, hgen]
    exact ⟨hw, rfl, rfl, rfl⟩
  · intro j hj ho hd
    by_cases hjw : j = s.write
    · rw [hjw]
      rfl
    · rw [hslots, if_neg hjw] at ho hd
      have hact := h.undone j hj ho hd
      rw [ha.active] at hact
      cases hact
  · intro j hj ho
    by_cases hjw : j = s.write
    · rw [hslots, htags, if_pos hjw, if_pos hjw]
      rfl
    · rw [hslots, if_neg hjw] at ho
      rw [hslots, htags, if_neg hjw, if_neg hjw]
      exact h.tags j hj ho
  · intro j hj ho
    by_cases hjw : j = s.write
    · rw [hslots, if_pos hjw]
      exact ⟨ha.positive, ha.bounded⟩
    · rw [hslots, if_neg hjw] at ho ⊢
      exact h.ranged j hj ho
  · intro j hj hb
    by_cases hjw : j = s.write
    · rw [hslots, if_pos hjw] at hb
      cases hb
    · rw [hslots, if_neg hjw] at hb ⊢
      exact h.front j hj hb
  · rw [hgen]
    exact Nat.le_of_eq ha.lane.symm
  · intro j hj ho
    rw [hgen]
    by_cases hjw : j = s.write
    · rw [hslots, if_pos hjw]
      exact ⟨Nat.le_refl _, Nat.le_refl _, fun _ => Nat.le_refl _⟩
    · rw [hslots, if_neg hjw] at ho ⊢
      exact h.begun_later ha (h.begun j hj ho)
  · intro i k hik hk
    rw [hplace, hplace]
    have hi : i < s.count := Nat.lt_of_lt_of_le hik (Nat.lt_succ_iff.1 hk)
    rw [hslots, if_neg (hne hi)]
    rcases Nat.lt_or_eq_of_le (Nat.lt_succ_iff.1 hk) with hk | rfl
    · rw [hslots, if_neg (hne hk)]
      exact h.order i k hik hk
    · rw [hslots, if_pos hwrite.symm]
      exact h.before_opened ha (h.begun _ (s.place_lt i) ((h.occupied _ (s.place_lt i)).2 ⟨i, hi, rfl⟩)) rfl rfl rfl
  · intro v hv
    rw [hgen]
    exact h.begun_later ha (h.past v hv)
  · exact h.acquired
  · intro v hv j hj ho hb
    by_cases hjw : j = s.write
    · rw [hslots, if_pos hjw]
      exact h.before_opened ha (h.past v hv) rfl rfl rfl
    · rw [hslots, if_neg hjw] at ho hb ⊢
      exact h.ahead v hv j hj ho hb

/-! ## Lending -/

/-- The front slot may be lent. -/
structure Lendable (s : Capture) : Prop where
  count : s.count ≠ 0
  done : (s.slots s.read).done
  free : (s.slots s.read).borrowed = false
  finished : s.finished s.read = s.queued s.read

theorem lend_slots (s : Capture) (j : ℕ) :
    s.lend.slots j = if j = s.read then { s.slots j with borrowed := true } else s.slots j := by
  by_cases hj : j = s.read
  · rw [if_pos hj, hj]
    exact update_self _ _ _
  · rw [if_neg hj]
    exact update_of_ne hj _ _

/-- A loan changes nothing else. -/
theorem lend_same (s : Capture) (j : ℕ) : (s.lend.slots j).occupied = (s.slots j).occupied ∧
    (s.lend.slots j).view = (s.slots j).view ∧ (s.lend.slots j).done = (s.slots j).done := by
  rw [lend_slots]
  split <;> exact ⟨rfl, rfl, rfl⟩

theorem inv_lend (h : Inv s) (hl : s.Lendable) : Inv s.lend := by
  have ho := h.front_occupied hl.count
  have hread := h.ring.1
  have hbegun := h.begun s.read hread ho
  constructor
  · exact h.ring
  · intro j hj
    rw [(s.lend_same j).1]
    exact h.occupied j hj
  · intro j hj hoj
    rw [(s.lend_same j).1] at hoj
    have hjr : j ≠ s.read := by
      rintro rfl
      rw [ho] at hoj
      cases hoj
    rw [lend_slots, if_neg hjr]
    exact h.empty j hj hoj
  · intro j hj
    rw [lend_slots]
    split
    · rename_i hjr
      subst hjr
      exact { h.sound s.read hj with lent := fun _ => ⟨hl.done, hl.finished⟩ }
    · exact h.sound j hj
  · intro j ha
    obtain ⟨h1, h2, h3⟩ := s.lend_same j
    rw [h1, h2, h3]
    exact h.active j ha
  · intro j hj hoj hdj
    obtain ⟨h1, -, h3⟩ := s.lend_same j
    exact h.undone j hj (h1 ▸ hoj) (h3 ▸ hdj)
  · intro j hj hoj
    obtain ⟨h1, h2, -⟩ := s.lend_same j
    rw [h2]
    exact h.tags j hj (h1 ▸ hoj)
  · intro j hj hoj
    obtain ⟨h1, h2, -⟩ := s.lend_same j
    rw [h2]
    exact h.ranged j hj (h1 ▸ hoj)
  · intro j hj hb
    rw [(s.lend_same j).1]
    rw [lend_slots] at hb
    split at hb
    · rename_i hjr
      exact ⟨hjr, hjr ▸ ho⟩
    · exact h.front j hj hb
  · exact h.lane
  · intro j hj hoj
    obtain ⟨h1, h2, -⟩ := s.lend_same j
    rw [h2]
    exact h.begun j hj (h1 ▸ hoj)
  · intro i k hik hk
    rw [(s.lend_same _).2.1, (s.lend_same _).2.1]
    exact h.order i k hik hk
  · intro v hv
    rcases List.mem_append.1 hv with hv | hv
    · exact h.past v hv
    · rw [List.mem_singleton.1 hv]
      exact hbegun
  · change (s.acquired ++ [(s.slots s.read).view]).Pairwise DecodeView.Before
    refine List.pairwise_append.2 ⟨h.acquired, List.pairwise_singleton _ _, fun v hv w hw => ?_⟩
    rw [List.mem_singleton.1 hw]
    exact h.ahead v hv s.read hread ho hl.free
  · intro v hv j hj hoj hb
    obtain ⟨h1, h2, -⟩ := s.lend_same j
    rw [h1] at hoj
    rw [h2]
    rw [lend_slots] at hb
    split at hb
    · cases hb
    rename_i hjr
    rcases List.mem_append.1 hv with hv | hv
    · exact h.ahead v hv j hj hoj hb
    · rw [List.mem_singleton.1 hv]
      obtain ⟨i, hi, hp⟩ := (h.occupied j hj).1 hoj
      have hi0 : 0 < i := Nat.pos_of_ne_zero fun h0 => hjr (by rw [hp, h0, place_zero hread])
      have hbefore := h.order 0 i hi0 hi
      rw [place_zero hread, ← hp] at hbefore
      exact hbefore

end Capture

end StrixAlloy.Dflash

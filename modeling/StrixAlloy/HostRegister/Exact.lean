import Mathlib.Order.Lattice
import StrixAlloy.HostRegister.Shim

/-!
# Calculations of the shim that do not wrap

For each function of the shim, the condition under which none of its operations wraps, and the value that it
then has. A function that only decides something about the outside has some value.
-/

namespace StrixAlloy.HostRegister

open Words

/-! ## Readings of the system -/

theorem available_eq (m : Meminfo) : available m = pure (m.kb * 1024) :=
  mul_of_lt (by have h := m.small; omega)

variable {bytes pointer : ℕ}

theorem immutableModel_pure (h : pointer + bytes < 2 ^ 64) (maps : List MapLine) :
    ∃ b, immutableModel pointer bytes maps = pure b := by
  induction maps with
  | nil => exact ⟨false, rfl⟩
  | cons line rest ih =>
    unfold immutableModel
    rw [add_of_lt h]
    split_ifs
    · simp only [pure_bind]
      split_ifs
      · exact ⟨_, rfl⟩
      · exact ih
    · exact ih

theorem visionLines_pure (identity : FileStat) (base bytes : ℕ) (maps : List MapLine) :
    ∃ b, visionLines identity base bytes maps = pure b := by
  induction maps with
  | nil => exact ⟨false, rfl⟩
  | cons line rest ih =>
    unfold visionLines
    split_ifs with hskip
    · exact ih
    · have hle : line.low.toNat ≤ line.high.toNat := by
        have hnot := (not_or.1 hskip).2
        rw [UInt64.lt_iff_toNat_lt] at hnot
        omega
      rw [sub_of_le hle line.high.toNat_lt]
      simp only [pure_bind]
      split_ifs
      · exact ih
      · exact ⟨_, rfl⟩

theorem immutableVisionMapping_pure (v : Vision) (base bytes : ℕ) :
    ∃ b, immutableVisionMapping v base bytes = pure b := by
  unfold immutableVisionMapping
  cases v.stat with
  | none => exact ⟨false, rfl⟩
  | some =>
    dsimp only
    split_ifs
    · exact ⟨false, rfl⟩
    · exact visionLines_pure _ _ _ _

/-! ## Ranges -/

/-- Two ranges meet. -/
def Meets (pointer bytes : ℕ) (c : Entry) : Prop := pointer < c.host + c.bytes ∧ c.host < pointer + bytes

instance (pointer bytes : ℕ) (c : Entry) : Decidable (Meets pointer bytes c) :=
  inferInstanceAs (Decidable (_ ∧ _))

theorem overlaps_eq (h : pointer + bytes < 2 ^ 64) {copies : List Entry}
    (hcopies : ∀ c ∈ copies, c.host + c.bytes < 2 ^ 64) :
    overlaps pointer bytes copies = pure (decide (∃ c ∈ copies, Meets pointer bytes c)) := by
  induction copies with
  | nil => rfl
  | cons c cs ih =>
    have hrest := ih fun c hc => hcopies c (List.mem_cons_of_mem _ hc)
    unfold overlaps
    rw [add_of_lt (hcopies c List.mem_cons_self), add_of_lt h, hrest]
    simp only [pure_bind, List.exists_mem_cons_iff]
    by_cases hmeets : Meets pointer bytes c
    · rw [if_pos hmeets.1, if_pos hmeets.2, decide_eq_true (.inl hmeets)]
    · have hothers : (Meets pointer bytes c ∨ ∃ d ∈ cs, Meets pointer bytes d) ↔
          ∃ d ∈ cs, Meets pointer bytes d := or_iff_right hmeets
      rw [decide_eq_decide.2 hothers]
      split_ifs with hlast htop
      · exact absurd ⟨hlast, htop⟩ hmeets
      · rfl
      · rfl

theorem preflightCopyFits_eq {cap : ℕ} (hcap : cap < 2 ^ 64) (bytes used entries : ℕ) :
    preflightCopyFits cap bytes used entries =
      pure (decide (cap ≠ 0 ∧ entries < 4096 ∧ used ≤ cap ∧ bytes ≤ cap - used)) := by
  unfold preflightCopyFits
  split_ifs with h
  · rw [sub_of_le h.2.2 hcap, pure_bind]
    simp [h]
  · rw [decide_eq_false fun hfits => h ⟨hfits.1, hfits.2.1, hfits.2.2.1⟩]

/-! ## The cache relief -/

theorem compareFile_eq {first span position : ℕ} (hfirst : first + span < 2 ^ 64)
    (hposition : position + span < 2 ^ 64) (reads : List (Option (ℕ × Bool))) (at_ : ℕ) :
    compareFile first span position reads at_ = pure () := by
  induction reads generalizing at_ with
  | nil => rfl
  | cons read reads ih =>
    unfold compareFile
    split_ifs with hat
    · rw [sub_of_le hat.le (by omega), add_of_lt (by omega)]
      simp only [pure_bind]
      rcases read with _ | ⟨got, same⟩
      · exact ih at_
      · dsimp only
        rw [add_of_lt (by omega), add_of_lt (by omega)]
        simp only [pure_bind, ih]
        split_ifs <;> rfl
    · rfl

theorem reclaimLines_eq (r : Reclaim) {first span : ℕ} (h : pointer + bytes < 2 ^ 64) (hlow : pointer ≤ first)
    (hhigh : first + span ≤ pointer + bytes) (maps : List MapLine) :
    reclaimLines r pointer bytes first span maps = pure () := by
  induction maps with
  | nil => rfl
  | cons line rest ih =>
    unfold reclaimLines
    rw [add_of_lt h, ih, pure_bind]
    by_cases hlow : pointer < line.low.toNat
    · rw [if_pos hlow]
    rw [if_neg hlow]
    by_cases hend : pointer + bytes > line.high.toNat
    · rw [if_pos hend]
    rw [if_neg hend]
    by_cases hoffset : line.offset.toNat > 2 ^ 63 - 1
    · rw [if_pos (.inr (.inr (.inr hoffset)))]
    -- the offset is a signed word, and so are the positions that the code lets pass
    rw [sub_of_le (show line.low.toNat ≤ first by omega) (by omega), pure_bind,
      sub_of_le (show line.offset.toNat ≤ 2 ^ 63 - 1 by omega) (by omega), pure_bind]
    by_cases hskip : first - line.low.toNat > 2 ^ 63 - 1 - line.offset.toNat
    · rw [if_pos hskip, ite_self]
    rw [if_neg hskip, add_of_lt (by omega), pure_bind, sub_of_le (by omega) (by omega), pure_bind]
    by_cases hspan : span > 2 ^ 63 - 1 - (line.offset.toNat + (first - line.low.toNat))
    · rw [if_pos hspan, ite_self]
    rw [if_neg hspan, add_of_lt (by omega)]
    have hfile : ∀ file : FileStat, compareFile first span
        (line.offset.toNat + (first - line.low.toNat)) r.reads 0 = pure () :=
      fun _ => compareFile_eq (by omega) (by omega) _ _
    cases r.opened with
    | none => exact ite_self _
    | some file =>
      simp only [pure_bind, hfile file, ite_self]

theorem reclaimCompletedCopy_eq (s : Shim) (r : Reclaim) (h : pointer + bytes < 2 ^ 64) :
    reclaimCompletedCopy s r pointer bytes = pure () := by
  unfold reclaimCompletedCopy
  split_ifs with hsmall hpage
  · rfl
  · rfl
  obtain ⟨page, hpage_eq⟩ : ∃ page, r.page.toNat = page := ⟨_, rfl⟩
  have hpos : 0 < page := by omega
  have hmod : pointer % page < page := Nat.mod_lt _ hpos
  simp only [hpage_eq]
  rw [sub_of_le hmod.le (by omega), pure_bind]
  split_ifs with hhead
  · rfl
  have hspan : (bytes - (page - pointer % page) % page) / page * page ≤
      bytes - (page - pointer % page) % page := Nat.div_mul_le_self _ _
  rw [add_of_lt (by omega), pure_bind, sub_of_le (by omega) (by omega), pure_bind,
    mul_of_lt (by omega), pure_bind]
  split_ifs
  · rfl
  · exact reclaimLines_eq r h (by omega) (by omega) _

/-! ## The upload -/

theorem uploadChunks_pure (s : Shim) (e : RegisterEnv) (h : pointer + bytes < 2 ^ 64) (fuel k at_ : ℕ)
    (hat : at_ ≤ bytes) : ∃ r, uploadChunks s e pointer bytes fuel k at_ = pure r := by
  induction fuel generalizing k at_ with
  | zero => exact ⟨0, rfl⟩
  | succ fuel ih =>
    unfold uploadChunks
    by_cases hlt : at_ < bytes
    · have hpart : min (bytes - at_) transferChunk ≤ bytes - at_ := min_le_left _ _
      have hkb := (e.meminfo (k + 1)).small
      rw [if_pos hlt, sub_of_le hat (by omega), pure_bind, available_eq, pure_bind]
      by_cases hfree : (e.meminfo (k + 1)).kb * 1024 < reserve
      · exact ⟨2, by rw [if_pos hfree]⟩
      rw [if_neg hfree, sub_of_le (by omega) (by omega), pure_bind, add_of_lt (by omega), pure_bind,
        reclaimCompletedCopy_eq s _ (by omega), pure_bind, add_of_lt (by omega), pure_bind]
      obtain ⟨r, hrest⟩ := ih (k + 1) (at_ + min (bytes - at_) transferChunk) (by omega)
      rw [hrest]
      split_ifs
      · exact ⟨2, rfl⟩
      · exact ⟨_, rfl⟩
      · exact ⟨r, rfl⟩
    · exact ⟨0, by rw [if_neg hlt]⟩

theorem upload_pure (v2 : Bool) (s : Shim) (e : RegisterEnv) (h : pointer + bytes < 2 ^ 64) :
    ∃ r, upload v2 s e pointer bytes = pure r := by
  unfold upload
  split_ifs
  · exact ⟨_, rfl⟩
  · exact uploadChunks_pure s e h _ _ _ (Nat.zero_le _)
  · exact ⟨_, rfl⟩

theorem reclaimRange_eq (v2 : Bool) (s : Shim) (e : RegisterEnv) (h : pointer + bytes < 2 ^ 64) :
    reclaimRange v2 s e pointer bytes = pure () := by
  unfold reclaimRange
  rw [reclaimCompletedCopy_eq s _ h, ite_self]

theorem towerMapped_pure (v2 : Bool) (s : Shim) (c : PreflightCall) : ∃ b, towerMapped v2 s c = pure b := by
  unfold towerMapped
  split_ifs
  · exact immutableVisionMapping_pure _ _ _
  · exact ⟨true, rfl⟩

theorem registerImmutable_pure (v2 : Bool) (s : Shim) (e : RegisterEnv) (h : pointer + bytes < 2 ^ 64) :
    ∃ b, registerImmutable v2 s e pointer bytes = pure b := by
  obtain ⟨immutable, himmutable⟩ := immutableModel_pure h e.maps
  unfold registerImmutable
  rw [himmutable, pure_bind]
  split_ifs with hphase htower
  · rw [sub_of_le htower.2.2 (by omega), pure_bind]
    exact immutableVisionMapping_pure _ _ _
  · exact ⟨false, rfl⟩
  · exact ⟨immutable, rfl⟩

end StrixAlloy.HostRegister

import StrixAlloy.Retention.Programs

/-!
# What every file operation keeps

A revision is complete, or in a quarantine folder that a journal names, or gone: `Tracked`. The planner finds
nothing unexpected: `Accepted`. The operations of the three programs keep the first, and the second as long
as no temporary file is left behind.
-/

namespace StrixAlloy.Retention

open Faulty List

/-! ## Entries of a directory -/

section Entries

variable {κ α : Type} [DecidableEq κ] {key : κ} {f : α → α} {l : List (κ × α)}

theorem mem_mapAt {x : κ × α} (h : x ∈ mapAt key f l) :
    ∃ y ∈ l, x.1 = y.1 ∧ (x.2 = y.2 ∨ x.1 = key ∧ x.2 = f y.2) := by
  obtain ⟨y, hy, rfl⟩ := mem_map.1 h
  refine ⟨y, hy, ?_⟩
  split_ifs with hk
  · exact ⟨rfl, .inr ⟨hk, rfl⟩⟩
  · exact ⟨rfl, .inl rfl⟩

theorem mem_dropAt {x : κ × α} : x ∈ dropAt key l ↔ x ∈ l ∧ x.1 ≠ key := by
  simp [dropAt]

@[simp]
theorem dropAt_singleton {a : α} : dropAt key [(key, a)] = [] := by
  simp [dropAt]

theorem mem_of_getAt {a : α} (h : getAt key l = some a) : (key, a) ∈ l := by
  unfold getAt at h
  obtain ⟨⟨k, b⟩, hx, rfl⟩ := Option.map_eq_some_iff.1 h
  obtain rfl : k = key := by simpa using List.find?_some hx
  exact mem_of_find?_eq_some hx

theorem map_fst_mapAt {β : Type} (g : κ → β) : (mapAt key f l).map (fun x => g x.1) = l.map fun x => g x.1 := by
  unfold mapAt
  rw [map_map]
  refine map_congr_left fun x _ => ?_
  simp only [Function.comp_apply]
  split_ifs <;> rfl

theorem mapAt_mapAt (g : α → α) : mapAt key g (mapAt key f l) = mapAt key (fun a => g (f a)) l := by
  unfold mapAt
  rw [map_map]
  refine map_congr_left fun x _ => ?_
  simp only [Function.comp_apply]
  split_ifs <;> rfl

theorem mapAt_id : mapAt key (fun a : α => a) l = l := by
  unfold mapAt
  refine (map_congr_left fun x _ => ?_).trans (map_id' l)
  split_ifs <;> rfl

end Entries

/-! ## The invariant -/

/-- A revision's three files are there. -/
def Folder.complete (f : Folder) : Prop := f.voice.isSome ∧ f.source ∧ f.reference.isSome

/-- Every revision is complete in its place, or in one quarantine folder named by a journal, or gone. -/
structure Tracked (s : State) : Prop where
  complete : ∀ x ∈ s.revisions, x.2.complete
  named : ∀ x ∈ s.quarantine, ∃ y ∈ s.journals, y.2.quarantine_name = x.1
  once : (s.revisions.map Prod.fst ++ s.quarantine.map fun x => x.1.profile_id).Nodup
  keyed : ∀ y ∈ s.journals, y.2.quarantine_name.token = y.1 ∧ y.1 < s.next
  born : ∀ p ∈ s.revisions.map Prod.fst ++ s.quarantine.map (fun x => x.1.profile_id), p.random < s.next

/-- The revision's name is of a time before the deadline. -/
def ProfileId.due (p : ProfileId) : Prop := p.second * 10 ^ 6 ≤ DUE_UTC

instance : DecidablePred ProfileId.due := fun _ => inferInstanceAs (Decidable (_ ≤ _))

/-- The planner finds nothing unexpected. -/
structure Accepted (s : State) : Prop where
  preview : s.preview_journal ≠ some false
  staging : ∀ x ∈ s.staging, x.2.plain
  revisions : ∀ x ∈ s.revisions, validateRevision x.1 x.2 ∧ x.1.due
  strays : s.journal_strays = []
  journals : ∀ y ∈ s.journals, validJournal y.1 y.2
  quarantine : ∀ x ∈ s.quarantine, validateQuarantine x.2 x.1.profile_id
  uploads : ∀ u ∈ s.uploads, validateUpload u.2

/-- What a program keeps: whether the planner still accepts the state, all other files, some of the
revisions, and the names that quarantine folders may have. -/
structure Frame where
  clean : Prop
  others : List String
  kept : ProfileId × Folder → Prop
  graves : QuarantineName → Prop

structure Inv (F : Frame) (s : State) : Prop where
  tracked : Tracked s
  accepted : F.clean → Accepted s
  others : s.others = F.others
  kept : ∀ x, F.kept x → x ∈ s.revisions
  graves : ∀ x ∈ s.quarantine, F.graves x.1

variable {F : Frame} {s t : State}

/-- More names may be in the quarantine. -/
theorem Inv.weaken {G : QuarantineName → Prop} (h : Inv F s) (hG : ∀ q, F.graves q → G q) :
    Inv { F with graves := G } s :=
  { h with graves := fun x hx => hG _ (h.graves x hx) }

/-- A tracked and accepted state within the limits is planned. -/
theorem plan_accepts (ht : Tracked s) (ha : Accepted s) (hs : s.small) : plan s = .ok s.pending :=
  plan_eq_ok.2 ⟨ha.preview, hs, ha.staging, fun x hx => (ha.revisions x hx).1, ha.strays, ha.journals, ht.named,
    ha.quarantine, ha.uploads, rfl⟩

/-! ## Operations on the uploads and on what is not tracked -/

/-- The revisions, the quarantine and the journals are as before. -/
theorem Inv.of_untracked (h : Inv F s) (hr : t.revisions = s.revisions) (hq : t.quarantine = s.quarantine)
    (hj : t.journals = s.journals) (ho : t.others = s.others) (hn : s.next ≤ t.next)
    (ha : Accepted s → F.clean → t.preview_journal ≠ some false ∧ (∀ x ∈ t.staging, x.2.plain) ∧
      t.journal_strays = [] ∧ ∀ u ∈ t.uploads, validateUpload u.2) : Inv F t := by
  refine ⟨⟨?_, ?_, ?_, ?_, ?_⟩, fun hc => ?_, ho.trans h.others, ?_, ?_⟩
  · rw [hr]
    exact h.tracked.complete
  · rw [hq, hj]
    exact h.tracked.named
  · rw [hr, hq]
    exact h.tracked.once
  · rw [hj]
    exact fun y hy => ⟨(h.tracked.keyed y hy).1, Nat.lt_of_lt_of_le (h.tracked.keyed y hy).2 hn⟩
  · rw [hr, hq]
    exact fun p hp => Nat.lt_of_lt_of_le (h.tracked.born p hp) hn
  · have hs := h.accepted hc
    obtain ⟨h1, h2, h3, h4⟩ := ha hs hc
    exact ⟨h1, h2, by rw [hr]; exact hs.revisions, h3, by rw [hj]; exact hs.journals,
      by rw [hq]; exact hs.quarantine, h4⟩
  · rw [hr]
    exact h.kept
  · rw [hq]
    exact h.graves

/-- Only the number of the next name differs. -/
theorem Inv.next (h : Inv F s) {n : ℕ} (hn : s.next ≤ n) : Inv F { s with next := n } :=
  h.of_untracked rfl rfl rfl rfl hn fun ha _ => ⟨ha.preview, ha.staging, ha.strays, ha.uploads⟩

/-- Removing files keeps a folder without strays. -/
theorem Folder.plain_remove {f : Folder} (h : f.plain) (name : File) : (f.remove name).plain := by
  unfold Folder.plain at h ⊢
  rw [Bool.and_eq_true] at h ⊢
  have hs : f.strays = [] := of_decide_eq_true h.1
  cases name with
  | voice => exact ⟨h.1, rfl⟩
  | stray => exact ⟨decide_eq_true (by rw [Folder.remove, hs]; rfl), h.2⟩
  | _ => exact h

theorem validateQuarantine_remove {f : Folder} {p : ProfileId} (h : validateQuarantine f p) (name : File) :
    validateQuarantine (f.remove name) p := by
  unfold validateQuarantine at h ⊢
  rw [Bool.and_eq_true, Bool.and_eq_true] at h ⊢
  obtain ⟨⟨hd, hp⟩, hv⟩ := h
  refine ⟨⟨hd, Folder.plain_remove hp name⟩, ?_⟩
  cases name with
  | voice => rfl
  | _ => exact hv

/-- An upload whose folders are changed to folders without strays. -/
theorem validateUpload_map {u : Upload} (h : validateUpload u) {f : Folder → Folder}
    (hf : ∀ g : Folder, g.plain → (f g).plain) (name : ℕ) (p : ProfileId) :
    validateUpload { u with staging := mapAt name f u.staging } ∧
      validateUpload { u with staged := mapAt p f u.staged } := by
  unfold validateUpload at h ⊢
  rw [Bool.and_eq_true, all_eq_true, all_eq_true] at h
  constructor
  · rw [Bool.and_eq_true, all_eq_true, all_eq_true]
    refine ⟨fun x hx => ?_, h.2⟩
    obtain ⟨y, hy, -, e | ⟨-, e⟩⟩ := mem_mapAt hx
    · exact e ▸ h.1 y hy
    · exact e ▸ hf _ (h.1 y hy)
  · rw [Bool.and_eq_true, all_eq_true, all_eq_true]
    refine ⟨h.1, fun x hx => ?_⟩
    obtain ⟨y, hy, -, e | ⟨-, e⟩⟩ := mem_mapAt hx
    · exact e ▸ h.2 y hy
    · exact e ▸ hf _ (h.2 y hy)

/-- A change of one upload. -/
theorem Inv.mapUpload (h : Inv F s) (upload : ℕ) {f : Upload → Upload}
    (hf : F.clean → ∀ u, validateUpload u → validateUpload (f u)) : Inv F (s.mapUpload upload f) := by
  refine h.of_untracked rfl rfl rfl rfl (Nat.le_refl _) fun ha hc => ⟨ha.preview, ha.staging, ha.strays, fun u hu => ?_⟩
  obtain ⟨v, hv, -, e | ⟨-, e⟩⟩ := mem_mapAt hu
  · exact e ▸ ha.uploads v hv
  · exact e ▸ hf hc _ (ha.uploads v hv)

/-- One file is removed. -/
theorem Inv.unlink (h : Inv F s) (name : File) (p : Place) : Inv F (s.mapFolder (Folder.remove name) p) := by
  cases p with
  | staging =>
    refine h.of_untracked rfl rfl rfl rfl (Nat.le_refl _) fun ha _ => ⟨ha.preview, fun x hx => ?_, ha.strays,
      ha.uploads⟩
    obtain ⟨y, hy, -, e | ⟨-, e⟩⟩ := mem_mapAt hx
    · exact e ▸ ha.staging y hy
    · exact e ▸ Folder.plain_remove (ha.staging y hy) name
  | upload_staging u n =>
    exact h.mapUpload u fun _ v hv => (validateUpload_map hv (fun g hg => Folder.plain_remove hg name) n ⟨0, 0⟩).1
  | upload_staged u p =>
    exact h.mapUpload u fun _ v hv => (validateUpload_map hv (fun g hg => Folder.plain_remove hg name) 0 p).2
  | quarantine q =>
    have hids : ((mapAt q (Folder.remove name) s.quarantine).map fun x => x.1.profile_id) =
        s.quarantine.map fun x => x.1.profile_id := map_fst_mapAt QuarantineName.profile_id
    refine ⟨⟨h.tracked.complete, ?_, ?_, h.tracked.keyed, ?_⟩, fun hc => ?_, h.others, h.kept, ?_⟩
    · intro x hx
      obtain ⟨y, hy, e, -⟩ := mem_mapAt hx
      rw [e]
      exact h.tracked.named y hy
    · show (_ ++ (mapAt q (Folder.remove name) s.quarantine).map fun x => x.1.profile_id).Nodup
      rw [hids]
      exact h.tracked.once
    · show ∀ p ∈ _ ++ (mapAt q (Folder.remove name) s.quarantine).map (fun x => x.1.profile_id), _
      rw [hids]
      exact h.tracked.born
    · have ha := h.accepted hc
      refine { ha with quarantine := fun x hx => ?_ }
      obtain ⟨y, hy, e1, e | ⟨-, e⟩⟩ := mem_mapAt hx
      · rw [e1, e]
        exact ha.quarantine y hy
      · rw [e1, e]
        exact validateQuarantine_remove (ha.quarantine y hy) name
    · intro x hx
      obtain ⟨y, hy, e, -⟩ := mem_mapAt hx
      rw [e]
      exact h.graves y hy

/-! ## Folders -/

/-- The same tracked state with fewer quarantine folders. -/
theorem Inv.filter_quarantine (h : Inv F s) {G : QuarantineName → Prop} (p : QuarantineName × Folder → Bool)
    (hG : ∀ x ∈ s.quarantine, p x → G x.1) :
    Inv { F with graves := G } { s with quarantine := s.quarantine.filter p } := by
  have hmem : ∀ x ∈ s.quarantine.filter p, x ∈ s.quarantine := fun x hx => (mem_filter.1 hx).1
  have hsub : ((s.quarantine.filter p).map fun x => x.1.profile_id).Sublist
      (s.quarantine.map fun x => x.1.profile_id) := filter_sublist.map _
  refine ⟨⟨h.tracked.complete, fun x hx => h.tracked.named x (hmem x hx), ?_, h.tracked.keyed, ?_⟩,
    fun hc => ?_, h.others, h.kept, ?_⟩
  · exact h.tracked.once.sublist (List.Sublist.append (List.Sublist.refl _) hsub)
  · intro q hq
    exact h.tracked.born q ((List.Sublist.append (List.Sublist.refl _) hsub).subset hq)
  · have ha := h.accepted hc
    exact { ha with quarantine := fun x hx => ha.quarantine x (hmem x hx) }
  · intro x hx
    obtain ⟨hx, hp⟩ := mem_filter.1 hx
    exact hG x hx hp

/-- An empty folder is removed; a quarantine folder's name is then free. -/
theorem Inv.dropFolder (h : Inv F s) (p : Place) :
    Inv { F with graves := fun q => F.graves q ∧ p ≠ .quarantine q } (s.dropFolder p) := by
  have hall : ∀ {t}, Inv F t → (∀ q, p ≠ .quarantine q) →
      Inv { F with graves := fun q => F.graves q ∧ p ≠ .quarantine q } t := by
    intro t ht hp
    exact { ht with graves := fun x hx => ⟨ht.graves x hx, hp _⟩ }
  cases p with
  | staging =>
    refine hall ?_ nofun
    refine h.of_untracked rfl rfl rfl rfl (Nat.le_refl _) fun ha _ => ⟨ha.preview, fun x hx => ?_, ha.strays,
      ha.uploads⟩
    exact ha.staging x (mem_dropAt.1 hx).1
  | quarantine q =>
    refine h.filter_quarantine _ fun x hx hp => ⟨h.graves x hx, ?_⟩
    have hp : x.1 ≠ q := of_decide_eq_true hp
    intro e
    exact hp (Place.quarantine.inj e).symm
  | upload_staging u =>
    refine hall (h.mapUpload u fun _ v hv => ?_) nofun
    unfold validateUpload at hv ⊢
    rw [Bool.and_eq_true, all_eq_true, all_eq_true] at hv ⊢
    exact ⟨fun x hx => hv.1 x (mem_dropAt.1 hx).1, hv.2⟩
  | upload_staged u =>
    refine hall (h.mapUpload u fun _ v hv => ?_) nofun
    unfold validateUpload at hv ⊢
    rw [Bool.and_eq_true, all_eq_true, all_eq_true] at hv ⊢
    exact ⟨hv.1, fun x hx => hv.2 x (mem_dropAt.1 hx).1⟩

/-! ## Journals and moves -/

/-- The journals under a token name one quarantine folder only. -/
def Sole (token : ℕ) (q : QuarantineName) (s : State) : Prop :=
  ∀ y ∈ s.journals, y.1 = token → y.2.quarantine_name = q

/-- A token above all names is under no journal. -/
theorem Tracked.sole_next (h : Tracked s) (q : QuarantineName) {n : ℕ} (hn : s.next ≤ n) : Sole n q s := by
  intro y hy e
  have hlt := (h.keyed y hy).2
  rw [e] at hlt
  exact absurd hn (Nat.not_le.2 hlt)

/-- A journal is written under its folder's token. -/
theorem Inv.putJournal (h : Inv F s) {token : ℕ} {r : Record} (hsole : Sole token r.quarantine_name s)
    (ht : r.quarantine_name.token = token) (hn : token < s.next) (hr : F.clean → validJournal token r) :
    Inv F (putJournal token r s) ∧ Sole token r.quarantine_name (putJournal token r s) ∧
      ∃ y ∈ (putJournal token r s).journals, y.2.quarantine_name = r.quarantine_name := by
  have hmem : ∀ y ∈ (Retention.putJournal token r s).journals, (y ∈ s.journals ∧ y.1 ≠ token) ∨ y = (token, r) := by
    intro y hy
    obtain hy | hy := mem_append.1 hy
    · exact .inl (mem_dropAt.1 hy)
    · exact .inr (mem_singleton.1 hy)
  have hlast : (token, r) ∈ (Retention.putJournal token r s).journals :=
    mem_append_right _ (mem_singleton_self _)
  refine ⟨⟨⟨h.tracked.complete, ?_, h.tracked.once, ?_, h.tracked.born⟩, fun hc => ?_, h.others, h.kept, h.graves⟩,
    ?_, (token, r), hlast, rfl⟩
  · -- a folder that a dropped journal named is named by the new one
    intro x hx
    obtain ⟨y, hy, e⟩ := h.tracked.named x hx
    by_cases hk : y.1 = token
    · exact ⟨_, hlast, (hsole y hy hk).symm.trans e⟩
    · exact ⟨y, mem_append_left _ (mem_dropAt.2 ⟨hy, hk⟩), e⟩
  · intro y hy
    obtain ⟨hy, -⟩ | rfl := hmem y hy
    · exact h.tracked.keyed y hy
    · exact ⟨ht, hn⟩
  · have ha := h.accepted hc
    refine { ha with journals := fun y hy => ?_ }
    obtain ⟨hy, -⟩ | rfl := hmem y hy
    · exact ha.journals y hy
    · exact hr hc
  · intro y hy e
    obtain ⟨-, hne⟩ | rfl := hmem y hy
    · exact absurd e hne
    · rfl

/-- A journal goes once its folder has. -/
theorem Inv.dropJournal (h : Inv F s) {token : ℕ} (hq : ∀ x ∈ s.quarantine, x.1.token ≠ token) :
    Inv F (dropJournal token s) := by
  refine ⟨⟨h.tracked.complete, ?_, h.tracked.once, ?_, h.tracked.born⟩, fun hc => ?_, h.others, h.kept, h.graves⟩
  · intro x hx
    obtain ⟨y, hy, e⟩ := h.tracked.named x hx
    refine ⟨y, mem_dropAt.2 ⟨hy, fun hk => hq x hx ?_⟩, e⟩
    rw [← e, (h.tracked.keyed y hy).1, hk]
  · intro y hy
    exact h.tracked.keyed y (mem_dropAt.1 hy).1
  · have ha := h.accepted hc
    exact { ha with journals := fun y hy => ha.journals y (mem_dropAt.1 hy).1 }

/-- A journal under which only one name may be goes once that folder has. -/
theorem Tracked.no_token (h : Tracked s) {token : ℕ} {q : QuarantineName} (hsole : Sole token q s)
    (hq : ∀ x ∈ s.quarantine, x.1 ≠ q) : ∀ x ∈ s.quarantine, x.1.token ≠ token := by
  intro x hx e
  obtain ⟨y, hy, he⟩ := h.named x hx
  refine hq x hx (he.symm.trans (hsole y hy ?_))
  rw [← (h.keyed y hy).1, he, e]

/-- What the planner has checked of a revision. -/
theorem validateRevision_parts {p : ProfileId} {f : Folder} (h : validateRevision p f) :
    f.plain ∧ f.source ∧ ∃ v r, f.voice = some v ∧ f.reference = some r ∧ v.size ≤ MAX_METADATA_BYTES ∧
      v.reference_sha256 = r ∧ v.profile_id = p ∧ v.provenance ∧ v.timely := by
  unfold validateRevision at h
  cases hv : f.voice with
  | none => simp [hv] at h
  | some v =>
    cases hr : f.reference with
    | none => simp [hv, hr] at h
    | some r =>
      simp only [hv, hr, Bool.and_eq_true, decide_eq_true_eq] at h
      obtain ⟨⟨hp, hs⟩, ⟨⟨⟨hmeta, hsha⟩, hid⟩, hprov⟩, ht⟩ := h
      exact ⟨hp, hs, v, r, rfl, rfl, hmeta, hsha, hid, hprov, ht⟩

/-- A revision that is valid stays so in the quarantine. -/
theorem validateQuarantine_of_revision {p : ProfileId} {f : Folder} (h : validateRevision p f) (hp : p.due) :
    validateQuarantine f p := by
  obtain ⟨hplain, -, v, r, hv, -, -, -, hid, hprov, -⟩ := validateRevision_parts h
  simp only [Voice.provenance, Bool.and_eq_true, decide_eq_true_eq] at hprov
  unfold validateQuarantine
  simp only [hv, hplain, hid, hprov, Bool.and_eq_true, decide_eq_true_eq, and_true]
  exact hp

/-- A revision moves to the quarantine folder that a journal names. -/
theorem Inv.moveRevision (h : Inv F s) {p : ProfileId} {q : QuarantineName} {f : Folder}
    (hf : (p, f) ∈ s.revisions) (hq : q.profile_id = p) (hn : ∃ y ∈ s.journals, y.2.quarantine_name = q)
    (hk : ∀ x, F.kept x → x.1 ≠ p) :
    Inv { F with graves := fun x => F.graves x ∨ x = q } (moveRevision p q f s) := by
  have hp : p ∈ s.revisions.map Prod.fst := mem_map_of_mem (f := Prod.fst) hf
  obtain ⟨hnr, hnq, hdisj⟩ := nodup_append.1 h.tracked.once
  have hsub : ((dropAt p s.revisions).map Prod.fst).Sublist (s.revisions.map Prod.fst) :=
    filter_sublist.map _
  have hquar : ((s.quarantine ++ [(q, f)]).map fun x => x.1.profile_id) =
      s.quarantine.map (fun x => x.1.profile_id) ++ [p] := by
    rw [map_append, map_singleton, hq]
  refine ⟨⟨?_, ?_, ?_, h.tracked.keyed, ?_⟩, fun hc => ?_, h.others, ?_, ?_⟩
  · intro x hx
    exact h.tracked.complete x (mem_dropAt.1 hx).1
  · intro x hx
    obtain hx | hx := mem_append.1 hx
    · exact h.tracked.named x hx
    · obtain rfl := mem_singleton.1 hx
      exact hn
  · show ((dropAt p s.revisions).map Prod.fst ++ (s.quarantine ++ [(q, f)]).map fun x => x.1.profile_id).Nodup
    rw [hquar]
    refine nodup_append.2 ⟨hnr.sublist hsub, ?_, ?_⟩
    · refine nodup_append.2 ⟨hnq, nodup_cons.2 ⟨nofun, nodup_nil⟩, ?_⟩
      intro a ha b hb e
      obtain rfl := mem_singleton.1 hb
      exact hdisj _ hp _ ha e.symm
    · intro a ha b hb
      obtain hb | hb := mem_append.1 hb
      · exact hdisj a (hsub.subset ha) b hb
      · obtain rfl := mem_singleton.1 hb
        obtain ⟨x, hx, rfl⟩ := mem_map.1 ha
        exact (mem_dropAt.1 hx).2
  · show ∀ a ∈ (dropAt p s.revisions).map Prod.fst ++ (s.quarantine ++ [(q, f)]).map (fun x => x.1.profile_id), _
    rw [hquar]
    intro a ha
    obtain ha | ha := mem_append.1 ha
    · exact h.tracked.born a (mem_append_left _ (hsub.subset ha))
    · obtain ha | ha := mem_append.1 ha
      · exact h.tracked.born a (mem_append_right _ ha)
      · obtain rfl := mem_singleton.1 ha
        exact h.tracked.born a (mem_append_left _ hp)
  · have ha := h.accepted hc
    refine ⟨ha.preview, ha.staging, fun x hx => ha.revisions x (mem_dropAt.1 hx).1, ha.strays, ha.journals,
      fun x hx => ?_, ha.uploads⟩
    obtain hx | hx := mem_append.1 hx
    · exact ha.quarantine x hx
    · obtain rfl := mem_singleton.1 hx
      have hv := ha.revisions _ hf
      rw [hq]
      exact validateQuarantine_of_revision hv.1 hv.2
  · intro x hx
    exact mem_dropAt.2 ⟨h.kept x hx, hk x hx⟩
  · intro x hx
    obtain hx | hx := mem_append.1 hx
    · exact .inl (h.graves x hx)
    · obtain rfl := mem_singleton.1 hx
      exact .inr rfl

/-- A complete revision under a new name is published. -/
theorem Inv.publish (h : Inv F s) {p : ProfileId} {f : Folder} (hf : f.complete)
    (hp : p ∉ s.revisions.map Prod.fst ++ s.quarantine.map fun x => x.1.profile_id) (hn : p.random < s.next)
    (ha : F.clean → validateRevision p f ∧ p.due) : Inv F { s with revisions := s.revisions ++ [(p, f)] } := by
  have hperm : ((s.revisions ++ [(p, f)]).map Prod.fst ++ s.quarantine.map fun x => x.1.profile_id).Perm
      (p :: (s.revisions.map Prod.fst ++ s.quarantine.map fun x => x.1.profile_id)) := by
    rw [map_append, append_assoc]
    exact perm_middle
  refine ⟨⟨?_, h.tracked.named, ?_, h.tracked.keyed, ?_⟩, fun hc => ?_, h.others, ?_, h.graves⟩
  · intro x hx
    obtain hx | hx := mem_append.1 hx
    · exact h.tracked.complete x hx
    · obtain rfl := mem_singleton.1 hx
      exact hf
  · exact hperm.nodup_iff.2 (nodup_cons.2 ⟨hp, h.tracked.once⟩)
  · intro a hmem
    obtain rfl | hmem := mem_cons.1 (hperm.subset hmem)
    · exact hn
    · exact h.tracked.born a hmem
  · have hs := h.accepted hc
    refine { hs with revisions := fun x hx => ?_ }
    obtain hx | hx := mem_append.1 hx
    · exact hs.revisions x hx
    · obtain rfl := mem_singleton.1 hx
      exact ha hc
  · intro x hx
    exact mem_append_left _ (h.kept x hx)

end StrixAlloy.Retention

import StrixAlloy.Retention.Steps

/-!
# An upload keeps the invariant

While it is staged a recording is in the upload's own folder, whose content is known; it is published with one
rename, complete.
-/

namespace StrixAlloy.Retention

open Faulty List

variable {o : Env} {F : Frame} {s t : State} {upload : ℕ} {u : Upload} {r : Request}

/-- The recording is made, and agreed to, before the deadline, and named within two seconds of its creation. -/
def Timely (o : Env) (r : Request) : Prop :=
  r.consent.confirmed_at_utc ≤ DUE_UTC ∧ ∀ n,
    (o.times n).1 / 10 ^ 6 * 10 ^ 6 ≤ DUE_UTC ∧ (o.times n).2 ≤ DUE_UTC ∧
    (o.times n).2 ≤ (o.times n).1 / 10 ^ 6 * 10 ^ 6 + 2 * 10 ^ 6 ∧
    (o.times n).1 / 10 ^ 6 * 10 ^ 6 ≤ (o.times n).2 + 2 * 10 ^ 6

/-- How large the `voice.json` of an upload is. -/
def Request.size (r : Request) : ℕ := r.rest + r.consent.others

/-- From `s`, an upload has made its folder, which is now `u`. -/
structure Uploading (F : Frame) (upload : ℕ) (u : Upload) (s t : State) : Prop where
  inv : Inv F t
  content : ∃ rest, t.uploads = (upload, u) :: rest
  revisions : t.revisions = s.revisions
  quarantine : t.quarantine = s.quarantine
  next : s.next ≤ t.next

section

variable (h : Uploading F upload u s t)
include h

theorem Uploading.getAt : getAt upload t.uploads = some u := by
  obtain ⟨rest, e⟩ := h.content
  rw [e]
  simp [Retention.getAt]

theorem Uploading.bump {n : ℕ} (hn : t.next ≤ n) :
    Uploading F upload u s { t with next := n } :=
  ⟨h.inv.next hn, h.content, h.revisions, h.quarantine, Nat.le_trans h.next hn⟩

theorem Uploading.map {f : Upload → Upload} (hf : F.clean → ∀ u, validateUpload u → validateUpload (f u)) :
    Uploading F upload (f u) s (t.mapUpload upload f) := by
  refine ⟨h.inv.mapUpload upload hf, ?_, h.revisions, h.quarantine, h.next⟩
  obtain ⟨rest, e⟩ := h.content
  refine ⟨mapAt upload f rest, ?_⟩
  show mapAt upload f t.uploads = _
  rw [e]
  simp [mapAt]

/-- The flags of an upload do not matter to the planner. -/
theorem Uploading.flag {f : Upload → Upload} (hf : ∀ u, validateUpload (f u) = validateUpload u) :
    Uploading F upload (f u) s (t.mapUpload upload f) :=
  h.map fun _ u hu => (hf u).trans hu

end

section Staging

variable {name : ℕ} {f : Folder}

theorem Uploading.folder (h : Uploading F upload ⟨true, true, true, [(name, f)], []⟩ s t) :
    t.folder (.upload_staging upload name) = some f := by
  rw [State.folder, h.getAt]
  simp [Retention.getAt]

/-- A change of the staged folder. -/
theorem Uploading.mapFolder (h : Uploading F upload ⟨true, true, true, [(name, f)], []⟩ s t) {g : Folder → Folder}
    (hg : F.clean → ∀ f : Folder, f.plain → (g f).plain) :
    Uploading F upload ⟨true, true, true, [(name, g f)], []⟩ s (t.mapFolder g (.upload_staging upload name)) := by
  have hmap := h.map (f := fun u => { u with staging := mapAt name g u.staging }) fun hc v hv =>
    (validateUpload_map hv (hg hc) name ⟨0, 0⟩).1
  have e : mapAt name g [(name, f)] = [(name, g f)] := by simp [mapAt]
  simp only [e] at hmap
  exact hmap

end Staging

/-- The folder that a staging leaves. -/
def stagedFolder (v : Voice) : Folder := ⟨some v, none, true, some v.reference_sha256, []⟩

theorem stageFiles_ends {name : ℕ} (h : Uploading F upload ⟨true, true, true, [(name, .empty)], []⟩ s t)
    (hC : F.clean → Clean o) (p : ProfileId) {v : Voice} (hv : F.clean → v.size ≤ MAX_FILE_BYTES) :
    Ends o t (stageFiles upload name p v)
      ⟨fun _ t' => Uploading F upload ⟨true, true, true, [], [(p, stagedFolder v)]⟩ s t' ∧ t.next ≤ t'.next,
        fun _ t' => Inv F t', fun t' => Inv F t'⟩ := by
  unfold stageFiles
  have h1 := h.mapFolder (g := fun f => { f with source := true }) fun _ _ hf => hf
  refine effect_bind ?_ h.inv h.inv
  have hn1 : t.next ≤ (t.mapFolder (fun f => { f with source := true }) (.upload_staging upload name)).next :=
    Nat.le_refl _
  generalize t.mapFolder (fun f => { f with source := true }) (.upload_staging upload name) = t1 at *
  have h2 := h1.mapFolder (g := fun f => { f with reference := some v.reference_sha256 }) fun _ _ hf => hf
  refine effect_bind ?_ h1.inv h1.inv
  have hn2 : t.next ≤ (t1.mapFolder (fun f => { f with reference := some v.reference_sha256 })
    (.upload_staging upload name)).next := hn1
  generalize t1.mapFolder (fun f => { f with reference := some v.reference_sha256 })
    (.upload_staging upload name) = t2 at *
  have h2' := h2.bump (Nat.le_succ t2.next)
  have hplain : F.clean → ∀ f : Folder, f.plain → ({ f with voice := some v } : Folder).plain := by
    intro hc f hf
    unfold Folder.plain at hf ⊢
    rw [Bool.and_eq_true] at hf ⊢
    exact ⟨hf.1, decide_eq_true (hv hc)⟩
  have h3 := h2'.mapFolder hplain
  have hend : ∀ t', t' = { t2 with next := t2.next + 1 } ∨
      t' = ({ t2 with next := t2.next + 1 } : State).mapFolder (fun f => { f with voice := some v })
        (.upload_staging upload name) ∨
      (¬ Clean o ∧ ∃ x, t' = ({ t2 with next := t2.next + 1 } : State).addStray x
        (.folder (.upload_staging upload name))) → Inv F t' := by
    rintro t' (rfl | rfl | ⟨hnc, x, rfl⟩)
    · exact h2'.inv
    · exact h3.inv
    · exact h2'.inv.mapUpload upload fun hc => absurd (hC hc) hnc
  refine Ends.seq (atomicJson_ends false (.folder (.upload_staging upload name)) "voice.json" _) ?_
    (fun _ t' => hend t') hend
  rintro _ t3 rfl
  refine Ends.look ?_
  rw [h3.folder]
  refine Ends.found h3.inv fun f hf => effect_ends ?_ (fun _ => h3.inv) fun _ => h3.inv
  obtain rfl := Option.some.inj hf
  have h4 := h3.map (f := fun u => { u with staging := dropAt name u.staging }) fun _ u hu => by
    unfold validateUpload at hu ⊢
    rw [Bool.and_eq_true, all_eq_true, all_eq_true] at hu ⊢
    exact ⟨fun x hx => hu.1 x (mem_dropAt.1 hx).1, hu.2⟩
  have h5 := h4.map (f := fun u => { u with staged := u.staged ++ [(p, stagedFolder v)] }) fun hc u hu => by
    unfold validateUpload at hu ⊢
    rw [Bool.and_eq_true, all_eq_true, all_eq_true] at hu ⊢
    refine ⟨hu.1, fun x hx => ?_⟩
    obtain hx | hx := mem_append.1 hx
    · exact hu.2 x hx
    · obtain rfl := mem_singleton.1 hx
      exact hplain hc ⟨none, none, true, some v.reference_sha256, []⟩ rfl
  simp only [dropAt_singleton, nil_append] at h5
  exact ⟨h5, Nat.le_trans hn2 (Nat.le_succ _)⟩

/-- A staging that returns leaves one complete folder under a new name. -/
theorem stage_ends (h : Uploading F upload ⟨true, false, false, [], []⟩ s t)
    (hC : F.clean → Clean o ∧ Timely o r ∧ r.size ≤ MAX_METADATA_BYTES) (reference : String) :
    Ends o t (stage r reference upload)
      ⟨fun p t' => ∃ v, Uploading F upload ⟨true, true, true, [], [(p, stagedFolder v)]⟩ s t' ∧
          s.next ≤ p.random ∧ p.random < t'.next ∧ (F.clean → validateRevision p (stagedFolder v) ∧ p.due),
        fun _ t' => Inv F t', fun t' => Inv F t'⟩ := by
  unfold stage fresh
  refine Ends.guard h.inv fun hconsent => op_bind ?_ h.inv h.inv
  have h1 : Uploading F upload ⟨true, true, false, [], []⟩ s
      (t.mapUpload upload fun u => { u with profiles := true }) :=
    h.flag (f := fun u => { u with profiles := true }) fun _ => rfl
  refine effect_bind ?_ h.inv h.inv
  generalize t.mapUpload upload (fun u => { u with profiles := true }) = t1 at *
  have h2 : Uploading F upload ⟨true, true, true, [], []⟩ s
      (t1.mapUpload upload fun u => { u with revisions := true }) :=
    h1.flag (f := fun u => { u with revisions := true }) fun _ => rfl
  refine effect_bind (Ends.answer fun n => ?_) h1.inv h1.inv
  generalize t1.mapUpload upload (fun u => { u with revisions := true }) = t2 at *
  -- the two random parts of names
  refine Ends.bind (Ends.bind (Ends.get (Ends.bind (Ends.modify (Ends.pure ?_)))))
  have h3 := h2.bump (Nat.le_succ t2.next)
  refine Ends.bind (Ends.bind (Ends.get (Ends.bind (Ends.modify (Ends.pure ?_)))))
  have h4 := h3.bump (Nat.le_succ (t2.next + 1))
  have h5 : Uploading F upload ⟨true, true, true, [(t2.next + 1, .empty)], []⟩ s _ :=
    h4.map (f := fun u => { u with staging := u.staging ++ [(t2.next + 1, .empty)] }) fun _ u hu => by
      unfold validateUpload at hu ⊢
      rw [Bool.and_eq_true, all_eq_true, all_eq_true] at hu ⊢
      refine ⟨fun x hx => ?_, hu.2⟩
      obtain hx | hx := mem_append.1 hx
      · exact hu.1 x hx
      · obtain rfl := mem_singleton.1 hx
        rfl
  refine effect_bind ?_ h4.inv h4.inv
  have hrandom : t2.next < (({ t2 with next := t2.next + 1 + 1 } : State).mapUpload upload
    fun u => { u with staging := u.staging ++ [(t2.next + 1, .empty)] }).next :=
    Nat.lt_succ_of_lt (Nat.lt_succ_self _)
  have hsize : F.clean → r.size ≤ MAX_FILE_BYTES := fun hc => Nat.le_trans (hC hc).2.2 (by decide)
  refine Ends.bind (Ends.attempt (Ends.mono (stageFiles_ends h5 (fun hc => (hC hc).1) _ hsize) ?_ ?_ fun _ h => h))
  · rintro _ t' ⟨ht, hn⟩
    refine op_bind (Ends.pure ⟨_, ht, h2.next, Nat.lt_of_lt_of_le hrandom hn, fun hc => ?_⟩) ht.inv ht.inv
    obtain ⟨⟨hconf, htimes⟩, hmeta⟩ := (hC hc).2
    obtain ⟨hdue, hcreated, hlate, hearly⟩ := htimes n
    refine ⟨?_, hdue⟩
    unfold validateConsent at hconsent
    simp only [Bool.and_eq_true, decide_eq_true_eq] at hconsent
    simp only [validateRevision, stagedFolder, Folder.plain, Voice.provenance, Voice.timely, hconsent, hconf, hcreated,
      Bool.and_eq_true, decide_eq_true_eq, true_and, and_true, hlate, hearly]
    exact ⟨decide_eq_true (hsize hc), hmeta, hconsent.2⟩
  · intro e t' ht
    refine Ends.seq (purgeTree_ends ht _) ?_ (fun _ _ h => h.1) fun _ h => h.1
    exact fun _ u hu => Ends.raise (hu.1.weaken fun q hq => hq.1)

theorem requireFairOpen_ends {P : Post State Error Unit} (hd : P.returned () s) (he : ∀ e, P.raised e s) :
    Ends o s requireFairOpen P :=
  Ends.answer fun _ => Ends.require (fun _ => hd) fun _ => he _

section Staged

variable {p : ProfileId} {f : Folder}

theorem Uploading.staged (h : Uploading F upload ⟨true, true, true, [], [(p, f)]⟩ s t) :
    t.folder (.upload_staged upload p) = some f := by
  rw [State.folder, h.getAt]
  simp [Retention.getAt]

/-- A change of the complete folder. -/
theorem Uploading.mapStaged (h : Uploading F upload ⟨true, true, true, [], [(p, f)]⟩ s t) {g : Folder → Folder}
    (hg : F.clean → ∀ f : Folder, f.plain → (g f).plain) :
    Uploading F upload ⟨true, true, true, [], [(p, g f)]⟩ s (t.mapFolder g (.upload_staged upload p)) := by
  have hmap := h.map (f := fun u => { u with staged := mapAt p g u.staged }) fun hc v hv =>
    (validateUpload_map hv (hg hc) 0 p).2
  have e : mapAt p g [(p, f)] = [(p, g f)] := by simp [mapAt]
  simp only [e] at hmap
  exact hmap

end Staged

/-- An upload publishes a complete revision under a new name, or none. -/
theorem persist_ends (h : Inv F s) (hC : F.clean → Clean o ∧ Timely o r ∧ r.size ≤ MAX_METADATA_BYTES)
    (reference : String) :
    Ends o s (persist r reference) (Post.always (Inv F)) := by
  unfold persist fresh
  refine Ends.bind (requireFairOpen_ends (op_bind ?_ h h) fun _ => h)
  refine Ends.bind (Ends.bind (Ends.get (Ends.bind (Ends.modify (Ends.pure ?_)))))
  have h0 : Inv F { s with next := s.next + 1 } := h.next (Nat.le_succ _)
  have h1 : Uploading F s.next .empty s
      { s with next := s.next + 1, uploads := (s.next, .empty) :: s.uploads } := by
    refine ⟨h0.of_untracked rfl rfl rfl rfl (Nat.le_refl _) fun ha _ => ?_, ⟨_, rfl⟩, rfl, rfl, Nat.le_succ _⟩
    exact ⟨ha.preview, ha.staging, ha.strays, forall_mem_cons.2 ⟨rfl, ha.uploads⟩⟩
  refine effect_bind ?_ h0 h0
  generalize ({ s with next := s.next + 1, uploads := (s.next, .empty) :: s.uploads } : State) = t1 at *
  refine Ends.ensure (Ends.mono (W := Post.always (Inv F)) ?_ ?_ ?_ fun _ h => h)
  swap
  · exact fun _ _ h => Ends.mono (purgeUpload_ends h _) (fun _ _ h => h.1) (fun _ _ h => h.1) fun _ h => h.1
  swap
  · exact fun _ _ h => Ends.mono (purgeUpload_ends h _) (fun _ _ h => h.1) (fun _ _ h => h.1) fun _ h => h.1
  have h2 : Uploading F s.next ⟨true, false, false, [], []⟩ s
      (t1.mapUpload s.next fun u => { u with recording := true }) :=
    h1.flag (f := fun u => { u with recording := true }) fun _ => rfl
  refine effect_bind ?_ h1.inv h1.inv
  refine Ends.seq (stage_ends h2 hC reference) ?_ (fun _ _ h => h) fun _ h => h
  rintro p t2 ⟨v, h3, hnew, hold, hvalid⟩
  -- the owner is recorded before the revision is published
  have h3' := h3.bump (Nat.le_succ t2.next)
  have h4 := h3'.mapStaged (g := fun f => { f with owner := some r.caller.principal }) fun _ _ hf => hf
  have hend : ∀ t', t' = { t2 with next := t2.next + 1 } ∨
      t' = ({ t2 with next := t2.next + 1 } : State).mapFolder
        (fun f => { f with owner := some r.caller.principal }) (.upload_staged s.next p) ∨
      (¬ Clean o ∧ ∃ x, t' = ({ t2 with next := t2.next + 1 } : State).addStray x
        (.folder (.upload_staged s.next p))) → Inv F t' := by
    rintro t' (rfl | rfl | ⟨hnc, x, rfl⟩)
    · exact h3'.inv
    · exact h4.inv
    · exact h3'.inv.mapUpload s.next fun hc => absurd (hC hc).1 hnc
  refine Ends.seq (atomicJson_ends true (.folder (.upload_staged s.next p)) "owner.json" _) ?_
    (fun _ t' => hend t') hend
  rintro _ t3 rfl
  have hnext : p.random < (({ t2 with next := t2.next + 1 } : State).mapFolder
      (fun f => { f with owner := some r.caller.principal }) (.upload_staged s.next p)).next :=
    Nat.lt_succ_of_lt hold
  generalize ({ t2 with next := t2.next + 1 } : State).mapFolder
      (fun f => { f with owner := some r.caller.principal }) (.upload_staged s.next p) = t3 at *
  refine op_bind (activationLock_always h4.inv (Ends.bind (requireFairOpen_ends ?_ fun _ => h4.inv)))
    h4.inv h4.inv
  refine Ends.answer fun n => Ends.guard h4.inv fun _ => Ends.look ?_
  rw [h4.staged]
  refine Ends.found h4.inv fun f hf => Ends.guard h4.inv fun _ => effect_keeps h4.inv ?_
  obtain rfl := Option.some.inj hf
  have hdrop : Inv F (t3.dropFolder (.upload_staged s.next p)) := (h4.inv.dropFolder _).weaken fun q hq => hq.1
  refine hdrop.publish ⟨rfl, rfl, rfl⟩ ?_ hnext fun hc => hvalid hc
  -- the name is newer than all names of the revisions
  show p ∉ t3.revisions.map Prod.fst ++ t3.quarantine.map fun x => x.1.profile_id
  rw [h4.revisions, h4.quarantine]
  intro hp
  exact absurd (h.tracked.born p hp) (Nat.not_lt.2 hnew)

end StrixAlloy.Retention

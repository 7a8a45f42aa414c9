import StrixAlloy.Lib.Runs
import StrixAlloy.Retention.Upload

/-!
# Runs of upload, deletion and retention cleanup

The calls come one after another, each in an environment of its own that may fail or stop any operation. Since
a stop can come before any operation, what holds after every call holds at every point.
-/

namespace StrixAlloy.Retention

open Faulty

variable {o : Env} {F : Frame} {s t : State}

/-- Any name may be in the quarantine. -/
theorem Inv.anyGrave {G : QuarantineName → Prop} (hF : ∀ q, F.graves q) (h : Inv { F with graves := G } t) :
    Inv F t :=
  h.weaken fun q _ => hF q

/-! ## Deletion -/

theorem Caller.principal_ne_unknown (c : Caller) : c.principal ≠ .unknown := by
  cases c <;> nofun

/-- A deletion moves the revision it is about, unless that one is selected, and no other. -/
theorem remove_ends (h : Inv F s) (hF : ∀ q, F.graves q) (hC : F.clean → Clean o) (profile_id : Option ProfileId)
    (caller : Caller) (admin_override : Bool)
    (hk : ∀ x, F.kept x → some x.1 = s.active ∨ some x.1 ≠ profile_id) :
    Ends o s (remove profile_id caller admin_override) (Post.always (Inv F)) := by
  unfold remove
  refine Ends.found h fun p hp => activationLock_always h (effect_bind (Ends.look ?_) h h)
  refine Ends.found h fun f _ => Ends.guard h fun _ => Ends.guard h fun _ => Ends.guard h fun hactive => ?_
  refine effect_bind (effect_bind (Ends.answer fun n => Ends.look (Ends.guard h fun _ => ?_)) h h) h h
  have hne : ∀ x, F.kept x → x.1 ≠ p := by
    rintro x hx rfl
    exact (hk x hx).elim (fun e => hactive e.symm) fun e => e hp.symm
  refine Ends.seq (quarantine_ends h hC caller.principal_ne_unknown hne) ?_ (fun _ _ ht => ht) fun _ ht => ht
  rintro ⟨token, record⟩ t ⟨ht, hsole, hr, hnext⟩
  simp only at ht hsole hr hnext
  have hname : record.quarantine_name.token = token := by rw [hr]
  -- the journal may be written again, with another status
  have hagain : ∀ {u : State}, Inv F u → Sole token record.quarantine_name u → token < u.next → ∀ status,
      status ≠ Status.unknown →
      Ends o u (atomicPrivateJson token { record with status := status }) (Post.always (Inv F)) := by
    intro u hu hsole hnext status hstatus
    have hvalid : validJournal token { record with status := status } = true := by
      rw [hr]
      simp [validJournal, hstatus, caller.principal_ne_unknown]
    refine Ends.mono (atomicPrivateJson_ends hu hC (r := { record with status := status }) hsole hname hnext
      fun _ => hvalid) (fun _ _ h => h.2.1) (fun _ _ h => h) fun _ h => h
  have hafter : ∀ {u : State}, Beside t u → Sole token record.quarantine_name u ∧ token < u.next := by
    intro u hb
    exact ⟨by rw [Sole, hb.journals]; exact hsole, by rw [hb.next]; exact hnext⟩
  refine Ends.bind (Ends.attempt (Ends.mono (purgeTree_ends ht _) ?_ ?_ ?_))
  · rintro _ u ⟨hu, hb⟩
    have hgone : ∀ x ∈ u.quarantine, x.1 ≠ record.quarantine_name := by
      intro x hx e
      exact (hu.graves x hx).2 (congrArg _ e.symm)
    have hfree := hu.tracked.no_token (hafter hb).1 hgone
    have hu : Inv F u := hu.anyGrave hF
    refine Ends.attempt (effect_ends (hu.dropJournal hfree) (fun _ => ?_) fun _ => hu)
    refine Ends.seq (hagain hu (hafter hb).1 (hafter hb).2 .purged (by decide)) ?_ (fun _ _ h => h) fun _ h => h
    exact fun _ _ h => Ends.raise h
  · rintro e u ⟨hu, hb⟩
    have hu : Inv F u := hu.anyGrave hF
    refine Ends.seq (hagain hu (hafter hb).1 (hafter hb).2 .purge_failed (by decide)) ?_ (fun _ _ h => h) fun _ h => h
    exact fun _ _ h => Ends.raise h
  · rintro u ⟨hu, -⟩
    exact hu.anyGrave hF

/-! ## Cleanup -/

theorem inspect_ends :
    Ends o s inspect ⟨fun p t => t = s ∧ plan s = .ok p, fun _ t => t = s, fun t => t = s⟩ := by
  unfold inspect
  refine op_bind (Ends.look ?_) rfl rfl
  cases hp : plan s with
  | ok p =>
    show Ends o s (Pure.pure p : Filed Pending) _
    exact Ends.pure ⟨rfl, rfl⟩
  | error e =>
    show Ends o s (Prog.raise (.deferred e) : Filed Pending) _
    exact Ends.raise rfl

theorem serviceCheck_ends {P : Post State Error Unit} (hd : P.returned () s) (he : ∀ e, P.raised e s) :
    Ends o s serviceCheck P :=
  Ends.answer fun _ => Ends.found (he _) fun _ _ => Ends.require (fun _ => hd) fun _ => he _

theorem purgeResidues_ends (h : Inv F s) (rs : List Residue) :
    Ends o s (purgeResidues rs)
      ⟨fun _ t => Inv { F with graves := fun q => F.graves q ∧ Residue.folder (.quarantine q) ∉ rs } t,
        fun _ t => Inv F t, fun t => Inv F t⟩ := by
  induction rs generalizing s F with
  | nil => exact Ends.pure (h.weaken fun q hq => ⟨hq, nofun⟩)
  | cons r rs ih =>
    refine Ends.bind (serviceCheck_ends ?_ fun _ => h)
    have hrest : ∀ {t}, Inv { F with graves := fun q => F.graves q ∧ r ≠ .folder (.quarantine q) } t →
        Ends o t (purgeResidues rs)
          ⟨fun _ t => Inv { F with graves := fun q => F.graves q ∧ Residue.folder (.quarantine q) ∉ r :: rs } t,
            fun _ t => Inv F t, fun t => Inv F t⟩ := by
      intro t ht
      refine Ends.mono (ih ht) ?_ (fun _ _ h => h.weaken fun q hq => hq.1) fun _ h => h.weaken fun q hq => hq.1
      intro _ u hu
      refine hu.weaken fun q hq => ⟨hq.1.1, fun hmem => ?_⟩
      exact (List.mem_cons.1 hmem).elim (fun e => hq.1.2 e.symm) hq.2
    cases r with
    | folder p =>
      refine Ends.seq (purgeTree_ends h p) ?_ (fun _ _ ht => ht.1) fun _ ht => ht.1
      rintro _ t ⟨ht, -⟩
      exact hrest (ht.weaken fun q hq => ⟨hq.1, fun e => hq.2 (Residue.folder.inj e)⟩)
    | upload name =>
      refine Ends.seq (purgeUpload_ends h name) ?_ (fun _ _ ht => ht.1) fun _ ht => ht.1
      rintro _ t ⟨ht, -⟩
      exact hrest (ht.weaken fun q hq => ⟨hq, nofun⟩)

/-- The revisions go one after another, each with its quarantine folder and journal. -/
theorem purgeRevisions_ends (h : Inv F s) (hF : ∀ q, ¬ F.graves q) (hC : F.clean → Clean o)
    (hk : ∀ x, ¬ F.kept x) (ps : List ProfileId) :
    Ends o s (purgeRevisions ps)
      ⟨fun _ t => Inv F t, fun _ t => Inv { F with graves := fun _ => True } t,
        fun t => Inv { F with graves := fun _ => True } t⟩ := by
  have hany : ∀ {G : QuarantineName → Prop} {t}, Inv { F with graves := G } t →
      Inv { F with graves := fun _ => True } t := fun ht => ht.weaken fun _ _ => trivial
  induction ps generalizing s with
  | nil => exact Ends.pure h
  | cons p ps ih =>
    refine Ends.bind (serviceCheck_ends ?_ fun _ => hany h)
    refine Ends.seq (quarantine_ends h hC (b := .retention_cleanup) nofun fun x hx => absurd hx (hk x)) ?_
      (fun _ _ ht => hany ht) fun _ ht => hany ht
    rintro ⟨token, record⟩ t ⟨ht, hsole, -, -⟩
    simp only at ht hsole
    refine Ends.seq (purgeTree_ends ht _) ?_ (fun _ _ hu => hany hu.1) fun _ hu => hany hu.1
    rintro _ u ⟨hu, hb⟩
    have hnone : Inv F u := by
      refine hu.weaken fun q hq => ?_
      obtain ⟨hq | rfl, hne⟩ := hq
      · exact hq
      · exact absurd rfl hne
    have hfree : ∀ x ∈ u.quarantine, x.1.token ≠ token := fun x hx => absurd (hnone.graves x hx) (hF _)
    exact effect_bind (ih (hnone.dropJournal hfree)) (hany hnone) (hany hnone)

theorem unlinkPreviews_ends (h : Inv F s) (names : List String) :
    Ends o s (unlinkPreviews names) (Post.always (Inv F)) := by
  induction names generalizing s with
  | nil => exact Ends.pure h
  | cons name names ih =>
    refine effect_bind (ih (h.of_untracked rfl rfl rfl rfl (Nat.le_refl _) fun ha _ => ?_)) h h
    exact ⟨ha.preview, ha.staging, ha.strays, ha.uploads⟩

theorem unlinkJournals_ends (h : Inv F s) (hF : ∀ q, ¬ F.graves q) (tokens : List ℕ) :
    Ends o s (unlinkJournals tokens) (Post.always (Inv F)) := by
  induction tokens generalizing s with
  | nil => exact Ends.pure h
  | cons token tokens ih =>
    have hfree : ∀ x ∈ s.quarantine, x.1.token ≠ token := fun x hx => absurd (h.graves x hx) (hF _)
    exact effect_bind (ih (h.dropJournal hfree)) h h

theorem clearPreviewAliases_ends (h : Inv F s) (aliases : Bool) :
    Ends o s (clearPreviewAliases aliases) (Post.always (Inv F)) := by
  unfold clearPreviewAliases
  split_ifs
  · refine Ends.bind (serviceCheck_ends (effect_bind (effect_keeps h ?_) h h) fun _ => h)
    exact h.of_untracked rfl rfl rfl rfl (Nat.le_refl _) fun ha _ => ⟨nofun, ha.staging, ha.strays, ha.uploads⟩
  · exact Ends.pure h

/-- The removal keeps track of every revision, however far it comes. -/
theorem purge_ends (h : Inv F s) (hF : ∀ q, F.graves q) (hC : F.clean → Clean o) (hk : ∀ x, ¬ F.kept x) :
    Ends o s purge (Post.always (Inv F)) := by
  unfold purge
  refine Ends.bind (serviceCheck_ends (Ends.look (Ends.guard h fun _ => ?_)) fun _ => h)
  refine Ends.seq inspect_ends ?_ (fun _ _ e => e ▸ h) fun _ e => e ▸ h
  rintro p t ⟨rfl, hp⟩
  -- from here the quarantine holds the planned folders only
  let G : Frame := { F with graves := (· ∈ p.quarantine) }
  have hG : Inv G t := by
    refine { h with graves := fun x hx => ?_ }
    show x.1 ∈ p.quarantine
    rw [← (plan_eq_ok.1 hp).2.2.2.2.2.2.2.2.2]
    exact List.mem_map_of_mem hx
  have hback : ∀ {H : QuarantineName → Prop} {u}, Inv { G with graves := H } u → Inv F u := fun hu => hu.anyGrave hF
  refine Ends.seq (clearPreviewAliases_ends hG p.preview_aliases) ?_ (fun _ _ h => hback h) fun _ h => hback h
  intro _ t ht
  refine Ends.seq (purgeResidues_ends ht p.residues) ?_ (fun _ _ h => hback h) fun _ h => hback h
  intro _ t ht
  -- and now none
  have ht : Inv { G with graves := fun _ => False } t := by
    refine ht.weaken fun q hq => hq.2 ?_
    exact List.mem_append_left _ (List.mem_append_left _ (List.mem_map_of_mem hq.1))
  refine effect_bind (effect_bind ?_ (hback ht) (hback ht)) (hback ht) (hback ht)
  refine Ends.seq (purgeRevisions_ends ht (fun _ => id) hC hk p.revisions) ?_ (fun _ _ h => hback h) fun _ h => hback h
  intro _ t ht
  refine Ends.seq (unlinkPreviews_ends ht p.previews) ?_ (fun _ _ h => hback h) fun _ h => hback h
  intro _ t ht
  refine Ends.seq (unlinkJournals_ends ht (fun _ => id) p.journals) ?_ (fun _ _ h => hback h) fun _ h => hback h
  intro _ t ht
  have ht := hback ht
  have hreceipt : Inv F { t with registration_receipt := false } :=
    ht.of_untracked rfl rfl rfl rfl (Nat.le_refl _) fun ha _ => ⟨ha.preview, ha.staging, ha.strays, ha.uploads⟩
  refine effect_bind ?_ ht ht
  refine Ends.seq inspect_ends ?_ (fun _ _ e => e ▸ hreceipt) fun _ e => e ▸ hreceipt
  rintro p' u ⟨rfl, -⟩
  exact Ends.require (fun _ => hreceipt) fun _ => hreceipt

theorem cleanup_ends (h : Inv F s) (hF : ∀ q, F.graves q) (hC : F.clean → Clean o) (hk : ∀ x, ¬ F.kept x)
    (apply : Bool) : Ends o s (cleanup apply) (Post.always (Inv F)) := by
  unfold cleanup
  refine Ends.answer fun n => ?_
  split
  · exact Ends.pure h
  · refine Ends.attempt ?_
    have hdefer : ∀ {t} (e : Error), Inv F t → Ends o t (Pure.pure (.deferred e.reason) : Filed Outcome)
        (Post.always (Inv F)) := fun _ ht => Ends.pure ht
    refine effect_bind ?_ (hdefer _ h) h
    refine Ends.seq inspect_ends ?_ (fun _ _ e => hdefer _ (e ▸ h)) fun _ e => e ▸ h
    rintro p t ⟨rfl, -⟩
    refine Ends.bind (serviceCheck_ends ?_ fun _ => hdefer _ h)
    have hact : Inv F { t with active := none } :=
      h.of_untracked rfl rfl rfl rfl (Nat.le_refl _) fun ha _ => ⟨ha.preview, ha.staging, ha.strays, ha.uploads⟩
    cases apply with
    | false =>
      show Ends o t (Pure.pure Outcome.dry_run : Filed Outcome) _
      exact Ends.pure h
    | true =>
      show Ends o t (do restoreSynthetic; activationLock purge; return .purged : Filed Outcome) _
      refine Ends.bind (effect_bind (effect_bind (effect_ends ?_ ?_ ?_) (hdefer _ h) h) (hdefer _ h) h)
      · refine Ends.seq (activationLock_always hact (purge_ends hact hF hC hk)) ?_
          (fun e _ h => hdefer e h) fun _ h => h
        exact fun _ _ h => Ends.pure h
      · exact fun _ => hdefer _ hact
      · exact fun _ => hact

/-! ## Calls -/

/-- The revisions that a call may not move: of a deletion, all but the named one, and the selected one. -/
def Call.spares (s : State) (x : ProfileId × Folder) : Call → Prop
  | .upload _ _ => x ∈ s.revisions
  | .delete profile_id _ _ => x ∈ s.revisions ∧ (some x.1 = s.active ∨ some x.1 ≠ profile_id)
  | .cleanup _ => False

/-- The condition on a call: its writes are not stopped over a temporary file, and an upload is in time and its
metadata within the limit. -/
def Met (c : Call × Env) : Prop :=
  Clean c.2 ∧ ∀ r reference, c.1 = .upload r reference → Timely c.2 r ∧ r.size ≤ MAX_METADATA_BYTES

/-- What a call keeps. -/
def Call.frame (s : State) (clean : Prop) (c : Call) : Frame :=
  ⟨clean, s.others, fun x => c.spares s x, fun _ => True⟩

theorem call_ends (ht : Tracked s) {clean : Prop} (ha : clean → Accepted s) (c : Call) (hC : clean → Met (c, o)) :
    Ends o s c.prog (Post.always (Inv (c.frame s clean))) := by
  have hspares : ∀ x, c.spares s x → x ∈ s.revisions := by
    intro x hx
    cases c with
    | upload => exact hx
    | delete => exact hx.1
    | cleanup => exact hx.elim
  have h : Inv (c.frame s clean) s := ⟨ht, ha, rfl, hspares, fun _ _ => trivial⟩
  cases c with
  | upload r reference => exact persist_ends h (fun hc => ⟨(hC hc).1, (hC hc).2 r reference rfl⟩) reference
  | delete profile_id caller admin_override =>
    exact remove_ends h (fun _ => trivial) (fun hc => (hC hc).1) profile_id caller admin_override fun x hx => hx.2
  | cleanup apply =>
    refine Ends.seq (cleanup_ends h (fun _ => trivial) (fun hc => (hC hc).1) (fun _ => id) apply) ?_
      (fun _ _ h => h) fun _ h => h
    exact fun _ _ h => Ends.pure h

/-- What a call keeps holds in the state it leaves, whether it returns, raises or is stopped. -/
theorem step_inv (ht : Tracked s) {d : Prop} (ha : d → Accepted s) (c : Call × Env) (hC : d → Met c) :
    Inv (c.1.frame s d) (step s c) := by
  have h := call_ends (o := c.2) ht ha c.1 hC 0
  unfold step Call.run
  generalize c.1.prog c.2 0 s = r at h
  obtain ⟨a | e | _, n, t⟩ := r
  · exact h
  · exact h
  · exact h

/-! ## Runs -/

/-- A state that the planner accepts, with recordings named before the deadline and each in one place, and with
no name yet to come. -/
structure Start (s : State) : Prop where
  planned : ∃ p, plan s = .ok p
  due : ∀ x ∈ s.revisions, x.1.due
  once : (s.revisions.map Prod.fst ++ s.quarantine.map fun x => x.1.profile_id).Nodup
  born : ∀ p ∈ s.revisions.map Prod.fst ++ s.quarantine.map (fun x => x.1.profile_id), p.random < s.next
  tokens : ∀ y ∈ s.journals, y.1 < s.next

theorem complete_of_validate {p : ProfileId} {f : Folder} (h : validateRevision p f) : f.complete := by
  obtain ⟨-, hs, v, r, hv, hr, -⟩ := validateRevision_parts h
  exact ⟨Option.isSome_of_eq_some hv, hs, Option.isSome_of_eq_some hr⟩

/-- What the planner has checked. -/
theorem Start.accepted (h : Start s) : Accepted s ∧ Tracked s := by
  obtain ⟨p, hp⟩ := h.planned
  obtain ⟨hpreview, -, hstaging, hrevisions, hstrays, hjournals, hnamed, hquarantine, huploads, -⟩ := plan_eq_ok.1 hp
  constructor
  · exact ⟨hpreview, hstaging, fun x hx => ⟨hrevisions x hx, h.due x hx⟩, hstrays, hjournals, hquarantine, huploads⟩
  · refine ⟨fun x hx => complete_of_validate (hrevisions x hx), hnamed, h.once, fun y hy => ?_, h.born⟩
    have hv := hjournals y hy
    unfold validJournal at hv
    rw [Bool.and_eq_true, Bool.and_eq_true, Bool.and_eq_true] at hv
    exact ⟨of_decide_eq_true hv.1.1.1, h.tokens y hy⟩

end StrixAlloy.Retention

import StrixAlloy.PersonaRoute.Routing

/-!
# A call that stopped, made again

A call of `syncService` may stop after any of its writes, and the caller is told to make it again. The plans
read what the first call has left (`restorePlan_again`, `project_again`), except for an original that was
saved without its metadata, which every later projection refuses. A route that was revoked no longer names
the old profile, so that the repeated call restores the profile it is given instead. Otherwise the repeated
call ends in the state that the first one was to end in (`repeatable`).
-/

namespace StrixAlloy.PersonaRoute

open Runs List Option

variable {P : Platform} {s0 : State} {s s' : State}

/-! ## Writes on one attribute -/

namespace State

@[simp]
theorem apply_mapped (s : State) (ws : List Write) : (s.apply ws).mapped = s.mapped := by
  induction ws generalizing s with
  | nil => rfl
  | cons w ws ih => exact ih (s.set w)

/-- An attribute on which all writes agree has the old value or theirs. -/
theorem apply_attrs_or {ws : List Write} {c : String} {a : Attribute} {v : Text}
    (h : ∀ w ∈ ws, w.config = c → w.name = a → w.value = v) :
    (s.apply ws).attrs c a = s.attrs c a ∨ (s.apply ws).attrs c a = some v := by
  induction ws generalizing s with
  | nil => exact .inl rfl
  | cons w ws ih =>
    have ih := ih (s := s.set w) fun w' hw' => h w' (mem_cons_of_mem _ hw')
    by_cases hw : w.config = c ∧ w.name = a
    · have hset : (s.set w).attrs c a = some v := by
        rw [← h w mem_cons_self hw.1 hw.2]
        exact if_pos ⟨hw.1.symm, hw.2.symm⟩
      rw [hset] at ih
      exact .inr (or_self_iff.1 ih)
    · have hset : (s.set w).attrs c a = s.attrs c a := if_neg fun e => hw ⟨e.1.symm, e.2.symm⟩
      rw [hset] at ih
      exact ih

/-- An attribute that is written, or has the value already. -/
theorem apply_attrs_const {ws : List Write} {c : String} {a : Attribute} {v : Text}
    (h : ∀ w ∈ ws, w.config = c → w.name = a → w.value = v)
    (hex : s.attrs c a = some v ∨ ∃ w ∈ ws, w.config = c ∧ w.name = a) :
    (s.apply ws).attrs c a = some v := by
  induction ws generalizing s with
  | nil =>
    rcases hex with h | ⟨w, hw, -⟩
    · exact h
    · cases hw
  | cons w ws ih =>
    refine ih (fun w' hw' => h w' (mem_cons_of_mem _ hw')) ?_
    by_cases hw : w.config = c ∧ w.name = a
    · left
      rw [← h w mem_cons_self hw.1 hw.2]
      exact if_pos ⟨hw.1.symm, hw.2.symm⟩
    · have hset : (s.set w).attrs c a = s.attrs c a := if_neg fun e => hw ⟨e.1.symm, e.2.symm⟩
      refine hex.imp (fun h => hset.trans h) fun ⟨w', hw', he⟩ => ⟨w', ?_, he⟩
      rcases mem_cons.1 hw' with rfl | hw'
      · exact absurd he hw
      · exact hw'

/-- Two states are the same if their attributes are and only attributes were written. -/
theorem apply_ext {ws vs : List Write} (h : ∀ c a, ((s.apply ws).apply vs).attrs c a = s'.attrs c a)
    (hs' : s'.configs = s.configs ∧ s'.deployments = s.deployments ∧ s'.mapped = s.mapped) :
    (s.apply ws).apply vs = s' := by
  obtain ⟨h1, h2, h3⟩ := hs'
  have hattrs : ((s.apply ws).apply vs).attrs = s'.attrs := funext fun c => funext fun a => h c a
  cases s'
  simp only at h1 h2 h3 hattrs
  rw [h1, h2, h3, ← hattrs, ← s.apply_configs ws, ← s.apply_deployments ws, ← s.apply_mapped ws,
    ← (s.apply ws).apply_configs vs, ← (s.apply ws).apply_deployments vs, ← (s.apply ws).apply_mapped vs]

end State

/-! ## What a call writes -/

/-- What a projection writes into an attribute of its target. -/
def Project.cell (P : Platform) (p : Project) : Attribute → Text
  | .backup => p.original
  | .metadata => metadataText P p.ref p.original
  | _ => encode p.ref

section Writes

variable {d : Decision} {removing : Bool}

theorem mem_project_cell {p : Project} {w : Write} (h : w ∈ p.writes P) :
    w.config = p.ref.target_config ∧ w.name ≠ .route ∧ w.value = p.cell P w.name := by
  unfold Project.writes at h
  rcases mem_append.1 h with h | h
  · rw [mem_write h]
    exact ⟨rfl, nofun, rfl⟩
  rcases mem_append.1 h with h | h
  · rw [mem_write h]
    exact ⟨rfl, nofun, rfl⟩
  · rw [mem_write h]
    exact ⟨rfl, nofun, rfl⟩

/-- The writes before the last one. -/
def Decision.firstWrites (P : Platform) (d : Decision) : List Write :=
  (if d.revokes then write d.id .route d.route [] else []) ++
  (d.restore.elim [] Restore.writes ++ d.project.elim [] (Project.writes P))

/-- The last one, which sets the route. -/
def Decision.lastWrite (d : Decision) (removing : Bool) : List Write :=
  if removing then [] else write d.id .route (if d.revokes then some [] else d.route) d.desired

theorem writes_eq : d.writes P removing = d.firstWrites P ++ d.lastWrite removing := by
  simp only [Decision.writes, Decision.firstWrites, Decision.lastWrite, append_assoc]

theorem mem_lastWrite {w : Write} (h : w ∈ d.lastWrite removing) :
    w = ⟨d.id, .route, d.desired⟩ ∧ removing = false := by
  unfold Decision.lastWrite at h
  cases removing with
  | true => cases h
  | false => exact ⟨mem_write h, rfl⟩

/-- The parts of a write before the last one. -/
theorem mem_firstWrites {w : Write} (h : w ∈ d.firstWrites P) :
    (w = ⟨d.id, .route, []⟩ ∧ d.revokes) ∨
    (∃ r, d.restore = some r ∧ w = ⟨r.ref.target_config, .persona, r.original⟩) ∨
    ∃ p, d.project = some p ∧ w.config = p.ref.target_config ∧ w.name ≠ .route ∧ w.value = p.cell P w.name := by
  unfold Decision.firstWrites at h
  rcases mem_append.1 h with h | h
  · split_ifs at h with hr
    · exact .inl ⟨mem_write h, hr⟩
    · cases h
  rcases mem_append.1 h with h | h
  · cases hr : d.restore with
    | none =>
      rw [hr] at h
      cases h
    | some r =>
      rw [hr] at h
      exact .inr (.inl ⟨r, rfl, mem_write h⟩)
  · cases hp : d.project with
    | none =>
      rw [hp] at h
      cases h
    | some p =>
      rw [hp] at h
      exact .inr (.inr ⟨p, rfl, mem_project_cell h⟩)

theorem mem_write_or {c : String} {a : Attribute} {o : Option Text} {v : Text} :
    o = some v ∨ (⟨c, a, v⟩ : Write) ∈ write c a o v := by
  unfold write
  split_ifs with hcur
  · exact .inl hcur
  · exact .inr mem_cons_self

/-- A restoration and a projection are among the writes before the last one. -/
theorem mem_firstWrites_of {w : Write}
    (hw : w ∈ d.restore.elim [] Restore.writes ∨ w ∈ d.project.elim [] (Project.writes P)) :
    w ∈ d.firstWrites P :=
  mem_append_right _ (mem_append.2 hw)

end Writes

/-- What stands after all writes. -/
structure Final (P : Platform) (s : State) (d : Decision) (removing : Bool) (s' : State) : Prop where
  route : removing = false → s'.attrs d.id .route = some d.desired
  restored : ∀ r, d.restore = some r → s'.attrs r.ref.target_config .persona = some r.original
  projected : ∀ p, d.project = some p → ∀ a, a ≠ .route → s'.attrs p.ref.target_config a = some (p.cell P a)
  frame : ∀ c a, (a = .route → c = d.id → removing) →
    (∀ r, d.restore = some r → c = r.ref.target_config → a ≠ .persona) →
    (∀ p, d.project = some p → c = p.ref.target_config → a = .route) → s'.attrs c a = s.attrs c a

/-! ## The plans on what is left -/

/-- Only attributes have changed. -/
structure Same (s s' : State) : Prop where
  configs : s'.configs = s.configs
  deployments : s'.deployments = s.deployments
  mapped : s'.mapped = s.mapped

theorem same_apply (s : State) (ws : List Write) : Same s (s.apply ws) :=
  ⟨s.apply_configs ws, s.apply_deployments ws, s.apply_mapped ws⟩

section Same

variable (hsame : Same s s')
include hsame

theorem Same.eq : s' = { s with attrs := s'.attrs } := by
  cases s'
  obtain ⟨rfl, rfl, rfl⟩ := hsame
  rfl

theorem owners_congr (service profile : String) (required : Bool) :
    owners s' service profile required = owners s service profile required := by
  rw [hsame.eq]
  rfl

theorem sourceOf_congr (service : String) (removing : Bool) (sourceConfig : String) :
    sourceOf s' service removing sourceConfig = sourceOf s service removing sourceConfig := by
  rw [hsame.eq]
  rfl

theorem target_same (profile : String) : target s' profile = target s profile := by
  rw [hsame.eq]
  rfl

end Same

/-- A text that the projection accepts as an original is no reference. -/
theorem decodePersona_original {o : Text} (h : originalOk o) : decodePersona P o = some none := by
  unfold originalOk at h
  simp only [Bool.and_eq_true, Bool.not_eq_true'] at h
  unfold decodePersona
  rw [h.1.1.1.2, h.1.1.2]
  rfl

theorem encode_ne_nil (r : Reference) : encode r ≠ [] := by
  rw [encode_eq]
  exact cons_ne_nil _ _

theorem encode_ne_original (P : Platform) {r : Reference} {o : Text} (hr : r.valid) (ho : originalOk o) :
    encode r ≠ o := by
  rintro rfl
  have hread := decodePersona_original (P := P) ho
  rw [decodePersona_encode hr] at hread
  cases hread

theorem units_original {o : Text} (h : originalOk o) : units o ≤ 1000 := (not_contains_of_originalOk h).1

/-- An attribute of a config with another value that is short enough. -/
theorem attributeOf_some {c : String} {a a' : Attribute} {v x : Option Text} (h : attributeOf s c a' = some x)
    (hv : s'.attrs c a = v) (hunits : units (v.getD []) ≤ 1000) : attributeOf s' c a = some v := by
  unfold attributeOf at h ⊢
  split_ifs at h with hg
  rw [if_pos ⟨hg.1, by rwa [State.value, hv]⟩, hv]

theorem attributeOf_congr {c : String} {a : Attribute} (h : s'.attrs c a = s.attrs c a) :
    attributeOf s' c a = attributeOf s c a := by
  unfold attributeOf State.value
  rw [h]

variable {id profile service : String}

/-- What a restoration has read. -/
theorem restorePlan_pieces {r : Restore} {t : Config} (h : restorePlan P s service id profile = some r)
    (ht : target s profile = some t) :
    owners s service profile false ∧ r.ref = ⟨service, id, t.id, profile⟩ ∧
    attributeOf s t.id .persona = some r.persona ∧
    ∃ b m prior, attributeOf s t.id .backup = some (some b) ∧ attributeOf s t.id .metadata = some (some m) ∧
      decodePersona P (r.persona.getD []) = some prior ∧
      backedUp P r.ref (r.persona.getD []) b m prior = some r.original := by
  unfold restorePlan at h
  rw [ht, bind_eq_bind, bind_some] at h
  split_ifs at h with howners
  obtain ⟨persona, hpersona, h1⟩ := bind_eq_some_iff.1 h
  obtain ⟨backup, hbackup, h2⟩ := bind_eq_some_iff.1 h1
  obtain ⟨metadata, hmetadata, h3⟩ := bind_eq_some_iff.1 h2
  obtain ⟨b, hb, h4⟩ := bind_eq_some_iff.1 h3
  obtain ⟨m, hm, h5⟩ := bind_eq_some_iff.1 h4
  obtain ⟨prior, hprior, h6⟩ := bind_eq_some_iff.1 h5
  obtain ⟨original, ho, h7⟩ := bind_eq_some_iff.1 h6
  rw [← Option.some.inj h7]
  exact ⟨by simpa using howners, rfl, hpersona, b, m, prior, hb ▸ hbackup, hm ▸ hmetadata, hprior, ho⟩

/-- A restoration, from what it reads. -/
theorem restorePlan_of {t : Config} {persona : Option Text} {b m o : Text} {prior : Option Reference}
    (ht : target s profile = some t) (howners : owners s service profile false)
    (hpersona : attributeOf s t.id .persona = some persona) (hb : attributeOf s t.id .backup = some (some b))
    (hm : attributeOf s t.id .metadata = some (some m)) (hprior : decodePersona P (persona.getD []) = some prior)
    (ho : backedUp P ⟨service, id, t.id, profile⟩ (persona.getD []) b m prior = some o) :
    restorePlan P s service id profile = some ⟨⟨service, id, t.id, profile⟩, persona, o⟩ := by
  unfold restorePlan
  rw [ht, bind_eq_bind, bind_some]
  simp [howners, hpersona, hb, hm, hprior, ho]

/-- The original that a plan goes on from. -/
theorem backedUp_parts {ref : Reference} {persona b m o : Text} {prior : Option Reference}
    (h : backedUp P ref persona b m prior = some o) :
    o = b ∧ originalOk o ∧ backedUp P ref o b m none = some o := by
  unfold backedUp at h
  dsimp only at h
  split_ifs at h with hif
  have hok := (Bool.and_eq_true_iff.1 hif).1
  cases h
  refine ⟨rfl, ?_, by simp [backedUp, hok]⟩
  unfold backupOk at hok
  exact (Bool.and_eq_true_iff.1 (Bool.and_eq_true_iff.1 hok).1).1

/-- The same original and the same reference, from what stands now. -/
theorem restorePlan_again {r : Restore} {t : Config} (hsame : Same s s')
    (h : restorePlan P s service id profile = some r) (ht : target s profile = some t)
    (hb : s'.attrs t.id .backup = s.attrs t.id .backup) (hm : s'.attrs t.id .metadata = s.attrs t.id .metadata)
    (hp : s'.attrs t.id .persona = s.attrs t.id .persona ∨ s'.attrs t.id .persona = some r.original) :
    restorePlan P s' service id profile = some ⟨r.ref, s'.attrs t.id .persona, r.original⟩ := by
  obtain ⟨howners, href, hpersona, b, m, prior, hbackup, hmetadata, hprior, ho⟩ := restorePlan_pieces h ht
  rw [href] at ho ⊢
  rw [← owners_congr hsame] at howners
  rw [← attributeOf_congr hb] at hbackup
  rw [← attributeOf_congr hm] at hmetadata
  rw [← target_same hsame] at ht
  rcases hp with hp | hp
  · have hcur : r.persona = s'.attrs t.id .persona := (attributeOf_eq hpersona).trans hp.symm
    rw [← attributeOf_congr hp, hcur] at hpersona
    rw [hcur] at hprior ho
    exact restorePlan_of ht howners hpersona hbackup hmetadata hprior ho
  · obtain ⟨-, horiginal, hnew⟩ := backedUp_parts ho
    rw [hp]
    exact restorePlan_of ht howners (attributeOf_some hpersona hp (units_original horiginal)) hbackup hmetadata
      (decodePersona_original horiginal) hnew

/-- What a projection has read. -/
theorem projectPlan_pieces {p : Project} {t : Config} (h : projectPlan P s service id profile = some p)
    (ht : target s profile = some t) :
    owners s service profile true ∧ p.ref = ⟨service, id, t.id, profile⟩ ∧ p.ref.valid ∧
    units (encode p.ref) ≤ 1000 ∧ attributeOf s t.id .persona = some p.persona ∧
    attributeOf s t.id .backup = some p.backup ∧ attributeOf s t.id .metadata = some p.metadata := by
  unfold projectPlan at h
  rw [ht, bind_eq_bind, bind_some] at h
  dsimp only at h
  split_ifs at h with hvalid
  obtain ⟨persona, hpersona, h1⟩ := bind_eq_some_iff.1 h
  obtain ⟨backup, hbackup, h2⟩ := bind_eq_some_iff.1 h1
  obtain ⟨metadata, hmetadata, h3⟩ := bind_eq_some_iff.1 h2
  obtain ⟨prior, -, h4⟩ := bind_eq_some_iff.1 h3
  obtain ⟨original, -, h5⟩ := bind_eq_some_iff.1 h4
  split_ifs at h5
  simp only [Bool.or_eq_true, Bool.not_eq_true', not_or, Bool.not_eq_false, decide_eq_true_eq, not_lt] at hvalid
  rw [← Option.some.inj h5]
  exact ⟨hvalid.1.1, rfl, hvalid.1.2, hvalid.2, hpersona, hbackup, hmetadata⟩

/-- A projection onto a target that has its own original and metadata. -/
theorem projectPlan_of_backup {t : Config} {o : Text} {persona : Option Text} (ht : target s profile = some t)
    (howners : owners s service profile true) (hvalid : Reference.valid ⟨service, id, t.id, profile⟩)
    (hunits : units (encode ⟨service, id, t.id, profile⟩) ≤ 1000) (hfits : Fits P ⟨service, id, t.id, profile⟩ o)
    (hguid : attributeOf s t.id .persona = some persona) (hb : s.attrs t.id .backup = some o)
    (hm : s.attrs t.id .metadata = some (metadataText P ⟨service, id, t.id, profile⟩ o))
    (hp : persona.getD [] = o ∨ persona = some (encode ⟨service, id, t.id, profile⟩)) :
    projectPlan P s service id profile = some ⟨⟨service, id, t.id, profile⟩, persona, some o,
      some (metadataText P ⟨service, id, t.id, profile⟩ o), o⟩ := by
  have hbackup := attributeOf_some hguid hb (units_original hfits.1)
  have hmetadata := attributeOf_some hguid hm hfits.2
  have hok : backupOk P ⟨service, id, t.id, profile⟩ o (metadataText P ⟨service, id, t.id, profile⟩ o) := by
    have hmeta := metadataOk_text (P := P) (t := o).2 (rfl : (⟨service, id, t.id, profile⟩ : Reference) = _)
    simp [backupOk, hfits.1, hfits.2, hmeta]
  have hprior : ∃ prior, decodePersona P (persona.getD []) = some prior ∧
      backedUp P ⟨service, id, t.id, profile⟩ (persona.getD []) o
        (metadataText P ⟨service, id, t.id, profile⟩ o) prior = some o := by
    rcases hp with hp | rfl
    · exact ⟨none, by rw [hp, decodePersona_original hfits.1], by simp [backedUp, hok, hp]⟩
    · exact ⟨_, decodePersona_encode hvalid, by simp [backedUp, hok]⟩
  obtain ⟨prior, hprior, ho⟩ := hprior
  unfold projectPlan
  rw [ht, bind_eq_bind, bind_some]
  simp [howners, hvalid, hunits, hguid, hbackup, hmetadata, hprior, ho, hfits.1, hfits.2]

theorem projectPlan_congr {t : Config} (hsame : Same s s') (ht : target s profile = some t)
    (h : ∀ a, a ≠ .route → s'.attrs t.id a = s.attrs t.id a) :
    projectPlan P s' service id profile = projectPlan P s service id profile := by
  unfold projectPlan
  rw [target_same hsame, ht, bind_eq_bind, bind_some, bind_some, owners_congr hsame,
    attributeOf_congr (h .persona (by decide)), attributeOf_congr (h .backup (by decide)),
    attributeOf_congr (h .metadata (by decide))]

section Call

variable {L : Prop} {service previous sourceConfig : String} {removing : Bool} {d : Decision}
  (h : Inv P s0 L s) (hd : decision P s service previous removing sourceConfig = some d)
  (hgone : removing → ∀ c ∈ s.configs, c.id ≠ d.id)
include h hd

/-- The writes before the last one agree with what stands in the end, but for the route. -/
theorem value_of_firstWrites {w : Write} (hw : w ∈ d.firstWrites P) :
    (∀ r, d.restore = some r → w.config = r.ref.target_config → w.name = .persona → w.value = r.original) ∧
    (∀ p, d.project = some p → w.config = p.ref.target_config → w.name ≠ .route → w.value = p.cell P w.name) := by
  rcases mem_firstWrites hw with ⟨rfl, -⟩ | ⟨r, hr, rfl⟩ | ⟨p, hp, hc, hn, hv⟩
  · exact ⟨nofun, fun _ _ _ hn => absurd rfl hn⟩
  · refine ⟨fun r' hr' _ _ => ?_, fun p hp hc => absurd hc (targets_ne h hd hr hp)⟩
    rw [hr] at hr'
    rw [Option.some.inj hr']
  · refine ⟨fun r hr hc' => absurd (hc'.symm.trans hc) (targets_ne h hd hr hp), fun p' hp' _ _ => ?_⟩
    rw [hp] at hp'
    rw [hv, Option.some.inj hp']

/-- The writes agree with what stands in the end, but for the route. -/
theorem value_of_writes {w : Write} (hw : w ∈ d.writes P removing) :
    (∀ r, d.restore = some r → w.config = r.ref.target_config → w.name = .persona → w.value = r.original) ∧
    (∀ p, d.project = some p → w.config = p.ref.target_config → w.name ≠ .route → w.value = p.cell P w.name) := by
  rw [writes_eq] at hw
  rcases mem_append.1 hw with hw | hw
  · exact value_of_firstWrites h hd hw
  · obtain ⟨rfl, -⟩ := mem_lastWrite hw
    exact ⟨nofun, fun _ _ _ hn => absurd rfl hn⟩

theorem restored_of_writes {r : Restore} (hr : d.restore = some r) :
    s.attrs r.ref.target_config .persona = some r.original ∨
      ∃ w ∈ d.firstWrites P, w.config = r.ref.target_config ∧ w.name = .persona := by
  obtain ⟨t, -, href, -, hpersona, -⟩ := restorePlan_spec h.stage (restore_of hd hr).2
  have ht : r.ref.target_config = t.id := by rw [href]
  rcases mem_write_or (c := t.id) (a := .persona) (o := r.persona) (v := r.original) with hcur | hmem
  · left
    rw [ht, ← hpersona, hcur]
  · right
    refine ⟨⟨t.id, .persona, r.original⟩, mem_firstWrites_of (.inl ?_), ht.symm, rfl⟩
    rw [hr, elim_some, Restore.writes, ht]
    exact hmem

theorem projected_of_writes {p : Project} (hp : d.project = some p) {a : Attribute} (ha : a ≠ .route) :
    s.attrs p.ref.target_config a = some (p.cell P a) ∨
      ∃ w ∈ d.firstWrites P, w.config = p.ref.target_config ∧ w.name = a := by
  obtain ⟨t, -, href, -, hpersona, hbackup, hmetadata, -⟩ := projectPlan_spec h.stage (project_of hd hp).2
  have ht : p.ref.target_config = t.id := by rw [href]
  have hcell : ∀ cur, cur = s.attrs t.id a → (∀ w ∈ write t.id a cur (p.cell P a), w ∈ p.writes P) →
      s.attrs p.ref.target_config a = some (p.cell P a) ∨
        ∃ w ∈ d.firstWrites P, w.config = p.ref.target_config ∧ w.name = a := by
    rintro cur rfl hsub
    rw [ht]
    refine (mem_write_or (c := t.id) (a := a)).imp id fun hmem =>
      ⟨⟨t.id, a, p.cell P a⟩, mem_firstWrites_of (.inr ?_), rfl, rfl⟩
    rw [hp, elim_some]
    exact hsub _ hmem
  cases a with
  | route => exact absurd rfl ha
  | backup =>
    refine hcell _ hbackup fun w hw => ?_
    rw [Project.writes, ht]
    exact mem_append_left _ hw
  | metadata =>
    refine hcell _ hmetadata fun w hw => ?_
    rw [Project.writes, ht]
    exact mem_append_right _ (mem_append_left _ hw)
  | persona =>
    refine hcell _ hpersona fun w hw => ?_
    rw [Project.writes, ht]
    exact mem_append_right _ (mem_append_right _ hw)

omit h in
/-- What no write names. -/
theorem writes_frame {c : String} {a : Attribute} (hroute : a = .route → c = d.id → removing)
    (hrestore : ∀ r, d.restore = some r → c = r.ref.target_config → a ≠ .persona)
    (hproject : ∀ p, d.project = some p → c = p.ref.target_config → a = .route) {w : Write}
    (hw : w ∈ d.writes P removing) : c ≠ w.config ∨ a ≠ w.name := by
  by_contra hne
  obtain ⟨hc, hn⟩ : c = w.config ∧ a = w.name := by
    rw [not_or, not_not, not_not] at hne
    exact hne
  rw [writes_eq] at hw
  rcases mem_append.1 hw with hw | hw
  · rcases mem_firstWrites hw with ⟨rfl, hr⟩ | ⟨r, hr, rfl⟩ | ⟨p, hp, hc', hne, -⟩
    · have hrem := hroute hn hc
      obtain ⟨-, hread, -⟩ := decision_spec hd
      rw [routeOf, if_pos hrem] at hread
      rw [Decision.revokes, ← Option.some.inj hread] at hr
      simp at hr
    · exact hrestore r hr hc hn
    · exact hne (hn.symm.trans (hproject p hp (hc.trans hc')))
  · obtain ⟨rfl, hrem⟩ := mem_lastWrite hw
    exact absurd (hrem.symm.trans (hroute hn hc)) nofun

include hgone

/-- What the last write finds. -/
theorem route_of_firstWrites (hrem : removing = false) :
    (s.apply (d.firstWrites P)).attrs d.id .route = if d.revokes then some [] else d.route := by
  have hcur := (route_value h hd hgone).2 hrem
  split_ifs with hr
  · refine State.apply_attrs_const (fun w hw _ hn => ?_) ?_
    · rcases mem_firstWrites hw with ⟨rfl, -⟩ | ⟨r, -, rfl⟩ | ⟨p, -, -, hne, -⟩
      · rfl
      · cases hn
      · exact absurd hn hne
    · refine (mem_write_or (c := d.id) (a := .route) (o := d.route) (v := [])).imp (fun e => hcur ▸ e) ?_
      refine fun hmem => ⟨⟨d.id, .route, []⟩, mem_append_left _ ?_, rfl, rfl⟩
      rw [if_pos hr]
      exact hmem
  · rw [State.apply_attrs, hcur]
    intro w hw
    rcases mem_firstWrites hw with ⟨rfl, hr'⟩ | ⟨r, -, rfl⟩ | ⟨p, -, -, hne, -⟩
    · exact absurd hr' hr
    · exact .inr nofun
    · exact .inr (Ne.symm hne)

theorem final : Final P s d removing (s.apply (d.writes P removing)) where
  route hrem := by
    rw [writes_eq, State.apply_append, Decision.lastWrite, if_neg (by rw [hrem]; exact Bool.false_ne_true),
      ← route_of_firstWrites h hd hgone hrem, State.apply_write]
    exact State.set_attrs_same _ _ _ _
  restored r hr := by
    refine State.apply_attrs_const (fun w hw hc hn => (value_of_writes h hd hw).1 r hr hc hn) ?_
    refine (restored_of_writes h hd hr).imp id fun ⟨w, hw, hc⟩ => ⟨w, ?_, hc⟩
    rw [writes_eq]
    exact mem_append_left _ hw
  projected p hp a ha := by
    refine State.apply_attrs_const (fun w hw hc hn => ?_) ?_
    · rw [← hn]
      exact (value_of_writes h hd hw).2 p hp hc (hn ▸ ha)
    · refine (projected_of_writes h hd hp ha).imp id fun ⟨w, hw, hc⟩ => ⟨w, ?_, hc⟩
      rw [writes_eq]
      exact mem_append_left _ hw
  frame c a hroute hrestore hproject :=
    State.apply_attrs _ fun w hw => writes_frame hd hroute hrestore hproject hw

end Call

/-! ## Where a call stopped -/

section Stopped

variable {L : Prop} {service previous sourceConfig : String} {removing : Bool} {d : Decision}
  (h : Inv P s0 L s) (hd : decision P s service previous removing sourceConfig = some d)
  (hgone : removing → ∀ c ∈ s.configs, c.id ≠ d.id) {k : ℕ}

/-- The state after `k` writes. -/
abbrev stopped (P : Platform) (s : State) (d : Decision) (removing : Bool) (k : ℕ) : State :=
  s.apply ((d.writes P removing).take k)

/-- A call, in terms of where it stops. -/
theorem step_sync (k : ℕ) (hd : decision P s service previous removing sourceConfig = some d) :
    step P s (.sync service previous removing sourceConfig k) = stopped P s d removing k := by
  unfold step
  dsimp only
  rw [hd]

include h hd

theorem stopped_restored {r : Restore} (hr : d.restore = some r) :
    (stopped P s d removing k).attrs r.ref.target_config .persona = s.attrs r.ref.target_config .persona ∨
      (stopped P s d removing k).attrs r.ref.target_config .persona = some r.original :=
  State.apply_attrs_or fun _ hw hc hn => (value_of_writes h hd (mem_of_mem_take hw)).1 r hr hc hn

theorem stopped_projected {p : Project} (hp : d.project = some p) {a : Attribute} (ha : a ≠ .route) :
    (stopped P s d removing k).attrs p.ref.target_config a = s.attrs p.ref.target_config a ∨
      (stopped P s d removing k).attrs p.ref.target_config a = some (p.cell P a) := by
  refine State.apply_attrs_or fun w hw hc hn => ?_
  subst hn
  exact (value_of_writes h hd (mem_of_mem_take hw)).2 p hp hc ha

omit h in
theorem stopped_frame {c : String} {a : Attribute} (hroute : a = .route → c = d.id → removing)
    (hrestore : ∀ r, d.restore = some r → c = r.ref.target_config → a ≠ .persona)
    (hproject : ∀ p, d.project = some p → c = p.ref.target_config → a = .route) :
    (stopped P s d removing k).attrs c a = s.attrs c a :=
  State.apply_attrs _ fun _ hw => writes_frame hd hroute hrestore hproject (mem_of_mem_take hw)

include hgone

/-- Between the first write and the last one the route is empty. -/
theorem stopped_route (hk : 0 < k) (hlt : k < (d.writes P removing).length) :
    (stopped P s d removing k).value d.id .route = [] := by
  obtain ⟨hroute, hcur⟩ := route_value h hd hgone
  cases hrem : removing with
  | true =>
    subst hrem
    have hnone : d.route = none := by
      obtain ⟨-, hread, -⟩ := decision_spec hd
      rw [routeOf, if_pos rfl] at hread
      exact (Option.some.inj hread).symm
    have hsame : (stopped P s d true k).attrs d.id .route = s.attrs d.id .route :=
      stopped_frame hd (fun _ _ => rfl) (fun _ _ _ e => by cases e) fun _ _ _ => rfl
    rw [State.value, hsame, ← State.value, ← hroute, hnone]
    rfl
  | false =>
    subst hrem
    have hlast : (d.lastWrite false).length ≤ 1 := by
      rw [Decision.lastWrite, if_neg Bool.false_ne_true, write]
      split_ifs <;> simp
    have htake : (d.writes P false).take k = (d.firstWrites P).take k := by
      rw [writes_eq] at hlt ⊢
      rw [length_append] at hlt
      exact take_append_of_le_length (by omega)
    rw [stopped, htake]
    cases hr : d.revokes with
    | true =>
      refine State.value_eq (State.apply_attrs_const (fun w hw _ hn => ?_) (.inr ?_))
      · rcases mem_firstWrites (mem_of_mem_take hw) with ⟨rfl, -⟩ | ⟨r, -, rfl⟩ | ⟨p, -, -, hne, -⟩
        · rfl
        · cases hn
        · exact absurd hn hne
      · have hne : d.route ≠ some [] := by
          intro e
          rw [Decision.revokes, e] at hr
          simp at hr
        refine ⟨⟨d.id, .route, []⟩, ?_, rfl, rfl⟩
        rw [Decision.firstWrites, if_pos hr, write, if_neg hne]
        obtain ⟨k, rfl⟩ := Nat.exists_eq_succ_of_ne_zero hk.ne'
        exact mem_cons_self
    | false =>
      have hv : s.value d.id .route = [] := by
        by_contra hv
        have hdesired : s.value d.id .route = d.desired := by
          rw [Decision.revokes, hroute] at hr
          simpa [hv] using hr
        rw [(writes_eq_nil h hd hgone hv hdesired).1] at hlt
        simp at hlt
      rw [State.value, State.apply_attrs, ← State.value, hv]
      intro w hw
      rcases mem_firstWrites (mem_of_mem_take hw) with ⟨-, hr'⟩ | ⟨r, -, rfl⟩ | ⟨p, -, -, hne, -⟩
      · exact absurd (hr'.symm.trans hr) (by decide)
      · exact .inr fun e => by cases e
      · exact .inr (Ne.symm hne)

omit hgone in
/-- What the route says about the old profile. -/
theorem oldProfile_cases (hgone : removing → ∀ c ∈ s.configs, c.id ≠ d.id) :
    (s.value d.id .route = [] ∧ d.oldProfile = previous) ∨
      ∃ r : Reference, r.valid ∧ s.value d.id .route = encode r ∧ d.oldProfile = r.context_profile ∧
        (∃ t, target s r.context_profile = some t ∧ t.id = r.target_config) ∧
        r.service_id = service ∧ r.source_config = d.id ∧
        s.attrs r.target_config .persona = some (encode r) ∧ Fits P r (original s0 r.target_config) := by
  obtain ⟨hroute, -⟩ := route_value h hd hgone
  obtain ⟨-, -, ⟨oldRef, hdecode, hown, hprofile⟩, -⟩ := decision_spec hd
  by_cases hv : s.value d.id .route = []
  · left
    rw [hroute, if_pos hv] at hdecode
    rw [hprofile, ← Option.some.inj hdecode]
    exact ⟨hv, rfl⟩
  · right
    obtain ⟨c, hc, hid, r, hopen⟩ := h.opened d.id hv
    have hval : s.value d.id .route = encode r := hid ▸ State.value_eq hopen.route
    rw [hroute, if_neg hv, hval, decodePersona_encode hopen.valid, Option.some.injEq] at hdecode
    obtain ⟨hservice, hsource⟩ := hown r hdecode.symm
    obtain ⟨t, ht, htr, -⟩ := hopen.target
    refine ⟨r, hopen.valid, hval, ?_, ⟨t, ht, htr⟩, hservice, hsource, hopen.persona, hopen.bounded⟩
    rw [hprofile, ← hdecode]
    rfl

omit hgone in
/-- The plan of the new target, from what stands where the call stopped. -/
theorem project_again {p : Project} (hp : d.project = some p) (hinv : Inv P s0 L (stopped P s d removing k))
    (hsaved : (stopped P s d removing k).attrs p.ref.target_config .backup ≠ none →
      (stopped P s d removing k).attrs p.ref.target_config .metadata ≠ none) :
    ∃ p', projectPlan P (stopped P s d removing k) service d.id d.mapped = some p' ∧ p'.ref = p.ref ∧
      p'.original = p.original := by
  have hsame : Same s (stopped P s d removing k) := same_apply s _
  have hplan := (project_of hd hp).2
  obtain ⟨t, ht, href, hvalid, hpersona, hbackup, hmetadata, horiginal, hfits, hstands⟩ :=
    projectPlan_spec h.stage hplan
  obtain ⟨howners, -, -, hunits, hread, -, -⟩ := projectPlan_pieces hplan ht
  have htp : p.ref.target_config = t.id := by rw [href]
  have hmid := fun {a} (ha : a ≠ Attribute.route) => stopped_projected (k := k) h hd hp ha
  have hstage := hinv.stage t (hsame.configs ▸ (target_mem ht).1)
  rw [htp] at hmid hsaved
  generalize stopped P s d removing k = s' at *
  by_cases hb : s'.attrs t.id .backup = none
  · -- nothing was written at the target yet
    have hm : s'.attrs t.id .metadata = none := by
      by_contra hm
      obtain ⟨m, hm⟩ := ne_none_iff_exists'.1 hm
      obtain ⟨r, -, -, -, hb', -⟩ := hstage.of_metadata hm
      rw [hb] at hb'
      cases hb'
    have heq : ∀ a, a ≠ .route → s'.attrs t.id a = s.attrs t.id a := by
      intro a ha
      rcases hmid ha with e | e
      · exact e
      cases a with
      | route => exact absurd rfl ha
      | backup => rw [hb] at e; cases e
      | metadata => rw [hm] at e; cases e
      | persona =>
        have hvalue : s'.value t.id .persona = original s0 t.id := by
          cases hstage with
          | untouched _ _ persona => exact persona
          | saved backup => rw [hb] at backup; cases backup
          | projected _ _ _ _ backup => rw [hb] at backup; cases backup
        rw [State.value_eq e] at hvalue
        exact absurd hvalue (encode_ne_original P hvalid hfits.1)
    exact ⟨p, (projectPlan_congr hsame ht heq).trans hplan, rfl, rfl⟩
  · have hstood : ∀ a x, a ≠ .route → s'.attrs t.id a ≠ none → (s.attrs t.id a = none ∨ s.attrs t.id a = some x) →
        p.cell P a = x → s'.attrs t.id a = some x := by
      intro a x ha hne hs hx
      rcases hmid ha with e | e
      · rcases hs with hs | hs
        · exact absurd (e.trans hs) hne
        · exact e.trans hs
      · exact hx ▸ e
    rw [hbackup, hmetadata] at hstands
    have hb' : s'.attrs t.id .backup = some (original s0 t.id) :=
      hstood _ _ nofun hb (hstands.imp And.left And.left) horiginal
    have hm' : s'.attrs t.id .metadata = some (metadataText P p.ref (original s0 t.id)) :=
      hstood _ _ nofun (hsaved hb) (hstands.imp And.right And.right) (by rw [Project.cell, horiginal])
    obtain ⟨r, -, -, -, -, hmr, hpr⟩ := hstage.of_metadata hm'
    have hr : p.ref = r := metadataOk_text.1 (hmr ▸ metadataOk_text.2 rfl)
    rw [← hr] at hpr
    have hp' : (s'.attrs t.id .persona).getD [] = original s0 t.id ∨ s'.attrs t.id .persona = some (encode p.ref) :=
      hpr
    have hunits' : units ((s'.attrs t.id .persona).getD []) ≤ 1000 := by
      rcases hp' with e | e
      · rw [e]
        exact units_original hfits.1
      · rw [e]
        exact hunits
    rw [href] at hm' hfits hvalid hunits hp'
    refine ⟨_, projectPlan_of_backup ((target_same hsame _).trans ht) ((owners_congr hsame _ _ _).trans howners)
      hvalid hunits hfits (attributeOf_some hread rfl hunits') hb' hm' hp', href.symm, horiginal.symm⟩

end Stopped

/-! ## The repeated call -/

/-- A decision, from what it reads. -/
theorem decision_of {previous sourceConfig mapped : String} {removing : Bool} {route : Option Text}
    {d : Decision} (oldRef : Option Reference) (restore : Option Restore) (project : Option Project)
    (hd : decision P s service previous removing sourceConfig = some d)
    (hsource : sourceOf s' service removing sourceConfig = some (id, mapped))
    (hroute : routeOf s' id removing = some route)
    (hold : (if route.getD [] = [] then some none else decodePersona P (route.getD [])) = some oldRef)
    (hown : ∀ r, oldRef = some r → r.service_id = service ∧ r.source_config = id)
    (hrestore : (if oldRef.elim previous Reference.context_profile ≠ "" ∧
        oldRef.elim previous Reference.context_profile ≠ mapped then
      (restorePlan P s' service id (oldRef.elim previous Reference.context_profile)).map some else some none) =
        some restore)
    (hproject : (if mapped ≠ "" then (projectPlan P s' service id mapped).map some else some none) = some project) :
    decision P s' service previous removing sourceConfig =
      some ⟨id, route, oldRef.elim previous Reference.context_profile, mapped, restore, project⟩ := by
  have hguid : ¬(!isGuid service || previous ≠ "" && !isGuid previous) = true := by
    intro hif
    rw [decision, if_pos hif] at hd
    cases hd
  have hown' : ¬(oldRef.any fun r => r.service_id ≠ service || r.source_config ≠ id) = true := by
    cases oldRef with
    | none => exact Bool.false_ne_true
    | some r =>
      obtain ⟨h1, h2⟩ := hown r rfl
      simp [h1, h2]
  unfold decision
  rw [if_neg hguid]
  refine bind_eq_some_iff.2 ⟨(id, mapped), hsource, ?_⟩
  refine bind_eq_some_iff.2 ⟨route, hroute, ?_⟩
  refine bind_eq_some_iff.2 ⟨oldRef, hold, ?_⟩
  rw [if_neg hown']
  refine bind_eq_some_iff.2 ⟨restore, hrestore, ?_⟩
  exact bind_eq_some_iff.2 ⟨project, hproject, rfl⟩

/-- What the repeated call needs, where the first one was made in `s` and stopped in `s'`. -/
structure Resumable (P : Platform) (s s' : State) (id mapped service previous : String) : Prop where
  /-- The original of the new target was not saved without its metadata. -/
  saved : ∀ t, target s mapped = some t → s'.attrs t.id .backup ≠ none → s'.attrs t.id .metadata ≠ none
  /-- The profile of a route that was revoked is given; or it was restored, and there is nothing to restore for
  the profile that is given. -/
  named : ∀ r : Reference, r.valid → s.value id .route = encode r → s'.value id .route = [] →
    previous = r.context_profile ∨ s'.attrs r.target_config .persona ≠ some (encode r) ∧
      (previous = "" ∨ previous = mapped ∨ ∃ x, restorePlan P s service id previous = some x ∧ x.writes = [])

/-- The repeated call has a plan for the profile that it restores: it restores what stands there in the end, and all
that the first call was to restore and had not restored. -/
def RestoresAgain (P : Platform) (s : State) (d : Decision) (removing : Bool) (k : ℕ) (service previous : String) :
    Prop :=
  ∃ restore, (if previous ≠ "" ∧ previous ≠ d.mapped
      then (restorePlan P (stopped P s d removing k) service d.id previous).map some else some none) =
      some restore ∧
    (∀ r', restore = some r' →
      (s.apply (d.writes P removing)).attrs r'.ref.target_config .persona = some r'.original) ∧
    ∀ r, d.restore = some r → (∃ r', restore = some r' ∧ r'.ref.target_config = r.ref.target_config) ∨
      (stopped P s d removing k).attrs r.ref.target_config .persona = some r.original

section Repeat

variable {L : Prop} {service previous sourceConfig : String} {removing : Bool} {d : Decision}
  (h : Inv P s0 L s) (hd : decision P s service previous removing sourceConfig = some d)
  (hgone : removing → ∀ c ∈ s.configs, c.id ≠ d.id) {k : ℕ}
include h hd hgone

omit hd hgone in
/-- Different profiles have different targets. -/
theorem target_ne {profile profile' : String} {t t' : Config} (ht : target s profile = some t)
    (ht' : target s profile' = some t') (hne : profile ≠ profile') : t.id ≠ t'.id := by
  intro e
  obtain ⟨hmem, hprofile, -⟩ := target_mem ht
  obtain ⟨hmem', hprofile', -⟩ := target_mem ht'
  obtain rfl := config_eq_of_id h.nodup hmem hmem' e
  exact hne (hprofile.symm.trans hprofile')

omit hgone in
theorem restore_target {r : Restore} (hr : d.restore = some r) :
    ∃ t, target s d.oldProfile = some t ∧ r.ref.target_config = t.id := by
  obtain ⟨t, ht, href, -⟩ := restorePlan_spec h.stage (restore_of hd hr).2
  exact ⟨t, ht, by rw [href]⟩

omit hgone in
theorem project_target {p : Project} (hp : d.project = some p) :
    ∃ t, target s d.mapped = some t ∧ p.ref.target_config = t.id := by
  obtain ⟨t, ht, href, -⟩ := projectPlan_spec h.stage (project_of hd hp).2
  exact ⟨t, ht, by rw [href]⟩

omit hgone in
/-- A target that a call neither restores nor projects to. -/
theorem target_apart {profile : String} {t : Config} (ht : target s profile = some t) (hold : profile ≠ d.oldProfile)
    (hmapped : profile ≠ d.mapped) : (∀ r, d.restore = some r → t.id ≠ r.ref.target_config) ∧
      ∀ p, d.project = some p → t.id ≠ p.ref.target_config := by
  constructor
  · intro r hr
    obtain ⟨t', ht', e⟩ := restore_target h hd hr
    exact e ▸ target_ne h ht ht' hold
  · intro p hp
    obtain ⟨t', ht', e⟩ := project_target h hd hp
    exact e ▸ target_ne h ht ht' hmapped

omit h hgone in
/-- At a target that is not the new one, only the persona may have changed. -/
theorem stopped_elsewhere {c : String} {a : Attribute} (hc : ∀ p, d.project = some p → c ≠ p.ref.target_config)
    (ha : a ≠ .persona ∧ a ≠ .route) : (stopped P s d removing k).attrs c a = s.attrs c a :=
  stopped_frame hd (fun e => absurd e ha.2) (fun _ _ _ => ha.1) fun p hp e => absurd e (hc p hp)

/-- The profile that is restored is the same as before. -/
theorem restore_same (hold : d.oldProfile = previous) : RestoresAgain P s d removing k service previous := by
  unfold RestoresAgain
  obtain ⟨-, -, -, hrestore, -⟩ := decision_spec hd
  rw [hold] at hrestore
  by_cases hif : previous ≠ "" ∧ previous ≠ d.mapped
  · rw [if_pos hif] at hrestore ⊢
    obtain ⟨r, hplan, hr⟩ := map_eq_some_iff.1 hrestore
    obtain ⟨t, ht, href, -⟩ := restorePlan_spec h.stage hplan
    have htr : r.ref.target_config = t.id := by rw [href]
    have hne : ∀ p, d.project = some p → t.id ≠ p.ref.target_config :=
      fun p hp => htr ▸ targets_ne h hd hr.symm hp
    have hmid := stopped_restored (k := k) h hd hr.symm
    rw [htr] at hmid
    rw [restorePlan_again (same_apply s _) hplan ht (stopped_elsewhere hd hne ⟨nofun, nofun⟩)
      (stopped_elsewhere hd hne ⟨nofun, nofun⟩) hmid]
    refine ⟨_, rfl, fun r' hr' => ?_, fun r' hr' => .inl ⟨_, rfl, ?_⟩⟩
    · rw [← Option.some.inj hr']
      exact (final h hd hgone).restored r hr.symm
    · rw [← hr, Option.some.injEq] at hr'
      rw [← hr']
  · rw [if_neg hif] at hrestore ⊢
    exact ⟨none, rfl, nofun, fun r hr => by rw [← Option.some.inj hrestore] at hr; cases hr⟩

/-- What the repeated call restores: the same, or nothing that is not restored already. -/
theorem restore_again
    (hres : Resumable P s (stopped P s d removing k) d.id d.mapped service previous)
    (hroute : (stopped P s d removing k).value d.id .route = []) : RestoresAgain P s d removing k service previous := by
  unfold RestoresAgain
  have hfinal := final h hd hgone
  obtain ⟨-, -, -, hrestore, -⟩ := decision_spec hd
  rcases oldProfile_cases h hd hgone with ⟨-, hold⟩ | ⟨r, hvalid, hval, hold, hr⟩
  · exact restore_same h hd hgone hold
  by_cases hprev : previous = r.context_profile
  · exact restore_same h hd hgone (hold.trans hprev.symm)
  obtain ⟨hrestored, hprevious⟩ := (hres.named r hvalid hval hroute).resolve_left hprev
  -- the profile of the revoked route was restored
  obtain ⟨⟨t, ht, htr⟩, -, -, hpersona, hfits⟩ := hr
  have hdone : ∀ r', d.restore = some r' →
      (stopped P s d removing k).attrs r'.ref.target_config .persona = some r'.original := by
    intro r' hr'
    obtain ⟨t', ht', htarget⟩ := restore_target h hd hr'
    rw [hold, ht, Option.some.injEq] at ht'
    rw [← ht', htr] at htarget
    rcases stopped_restored h hd hr' with e | e
    · rw [htarget, hpersona] at e
      exact absurd e hrestored
    · exact e
  by_cases hif : previous ≠ "" ∧ previous ≠ d.mapped
  · obtain ⟨x, hx, hwrites⟩ := (hprevious.resolve_left hif.1).resolve_left hif.2
    obtain ⟨tz, htz, href, -, hpz, -⟩ := restorePlan_spec h.stage hx
    have hxz : x.ref.target_config = tz.id := by rw [href]
    have hcur : s.attrs tz.id .persona = some x.original := by
      rw [Restore.writes, write] at hwrites
      split_ifs at hwrites with hcur
      exact hpz.symm.trans hcur
    obtain ⟨hner, hnep⟩ := target_apart h hd htz (hold ▸ hprev) hif.2
    have hframe := stopped_frame (k := k) (c := tz.id) (a := .persona) hd nofun
      (fun r' hr' e => absurd e (hner r' hr')) fun p hp e => absurd e (hnep p hp)
    rw [if_pos hif, restorePlan_again (same_apply s _) hx htz (stopped_elsewhere hd hnep ⟨nofun, nofun⟩)
      (stopped_elsewhere hd hnep ⟨nofun, nofun⟩) (.inl hframe)]
    refine ⟨_, rfl, fun r' hr' => ?_, fun r' hr' => .inr (hdone r' hr')⟩
    have hlast := (final h hd hgone).frame tz.id .persona nofun (fun r' hr' e => absurd e (hner r' hr'))
      fun p hp e => absurd e (hnep p hp)
    rw [← Option.some.inj hr', hxz]
    exact hlast.trans hcur
  · rw [if_neg hif]
    exact ⟨none, rfl, nofun, fun r' hr' => .inr (hdone r' hr')⟩

/-- Where the route is empty, the repeated call has the same new target and ends in the same state. -/
theorem repeat_of_empty (hinv : Inv P s0 L (stopped P s d removing k))
    (hres : Resumable P s (stopped P s d removing k) d.id d.mapped service previous)
    (hroute : (stopped P s d removing k).value d.id .route = []) :
    ∃ d', decision P (stopped P s d removing k) service previous removing sourceConfig = some d' ∧
      (stopped P s d removing k).apply (d'.writes P removing) = s.apply (d.writes P removing) := by
  have hsame : Same s (stopped P s d removing k) := same_apply s _
  obtain ⟨restore, hrestore, hA, hB⟩ := restore_again h hd hgone hres hroute
  obtain ⟨hsource, hread, -, -, hplan⟩ := decision_spec hd
  -- the new target
  have hproject : ∃ project, (if d.mapped ≠ "" then (projectPlan P (stopped P s d removing k) service d.id
        d.mapped).map some else some none) = some project ∧
      (∀ p', project = some p' → ∃ p, d.project = some p ∧ p'.ref = p.ref ∧ p'.original = p.original) ∧
      ∀ p, d.project = some p → ∃ p', project = some p' ∧ p'.ref = p.ref ∧ p'.original = p.original := by
    by_cases hm : d.mapped ≠ ""
    · rw [if_pos hm] at hplan ⊢
      obtain ⟨p, hplan, hp⟩ := map_eq_some_iff.1 hplan
      obtain ⟨t, ht, href, -⟩ := projectPlan_spec h.stage hplan
      have hsaved := hres.saved t ht
      rw [show t.id = p.ref.target_config by rw [href]] at hsaved
      obtain ⟨p', hp', href', ho'⟩ := project_again h hd hp.symm hinv hsaved
      rw [hp']
      refine ⟨some p', rfl, fun x hx => ⟨p, hp.symm, ?_⟩, fun x hx => ⟨p', rfl, ?_⟩⟩
      · rw [← Option.some.inj hx]
        exact ⟨href', ho'⟩
      · rw [← hp, Option.some.injEq] at hx
        rw [← hx]
        exact ⟨href', ho'⟩
    · rw [if_neg hm] at hplan ⊢
      exact ⟨none, rfl, nofun, fun p hp => by rw [← Option.some.inj hplan] at hp; cases hp⟩
  obtain ⟨project, hproject, hC, hD⟩ := hproject
  -- the route
  have hroute' : ∃ route, routeOf (stopped P s d removing k) d.id removing = some route ∧ route.getD [] = [] := by
    unfold routeOf at hread ⊢
    split_ifs at hread ⊢ with hrem
    · exact ⟨none, rfl, rfl⟩
    · refine ⟨_, attributeOf_some hread rfl ?_, hroute⟩
      rw [show ((stopped P s d removing k).attrs d.id .route).getD [] = [] from hroute]
      decide
  obtain ⟨route, hroute', hempty⟩ := hroute'
  have hd' := decision_of none _ _ hd ((sourceOf_congr hsame _ _ _).trans hsource) hroute'
    (if_pos hempty) nofun hrestore hproject
  have hF := final h hd hgone
  have hF' := final hinv hd' fun hrem c hc => hgone hrem c (hsame.configs ▸ hc)
  refine ⟨_, hd', State.apply_ext (fun c a => ?_) ⟨s.apply_configs _, s.apply_deployments _, s.apply_mapped _⟩⟩
  -- an attribute that neither the first call nor the repeated one writes
  have hframe : (a = .route → c = d.id → removing) →
      (∀ r, d.restore = some r ∨ restore = some r → c = r.ref.target_config → a ≠ .persona) →
      (∀ p, d.project = some p → c = p.ref.target_config → a = .route) →
      ((stopped P s d removing k).apply (Decision.writes P ⟨d.id, route, previous, d.mapped, restore, project⟩
        removing)).attrs c a = (s.apply (d.writes P removing)).attrs c a := by
    intro h1 h2 h3
    refine (hF'.frame c a h1 (fun r hr => h2 r (.inr hr)) fun p' hp' e => ?_).trans ?_
    · obtain ⟨p, hp, href, -⟩ := hC p' hp'
      exact h3 p hp (e.trans (by rw [href]))
    · rw [stopped_frame hd h1 (fun r hr => h2 r (.inl hr)) h3]
      exact (hF.frame c a h1 (fun r hr => h2 r (.inl hr)) h3).symm
  by_cases ha : a = .route
  · subst ha
    by_cases hc : c = d.id ∧ removing = false
    · obtain ⟨rfl, hrem⟩ := hc
      refine (hF'.route hrem).trans ((congrArg some ?_).trans (hF.route hrem).symm)
      cases hp : d.project with
      | none =>
        have hnone : project = none := by
          by_contra hne
          obtain ⟨p', hp'⟩ := ne_none_iff_exists'.1 hne
          obtain ⟨p, hp', -⟩ := hC p' hp'
          rw [hp] at hp'
          cases hp'
        rw [Decision.desired, Decision.desired, hp, hnone]
      | some p =>
        obtain ⟨p', hp', href, -⟩ := hD p hp
        rw [Decision.desired, Decision.desired, hp, hp', elim_some, elim_some, href]
    · exact hframe (fun _ e => by_contra fun hrem => hc ⟨e, Bool.eq_false_of_not_eq_true hrem⟩)
        (fun _ _ _ => nofun) fun _ _ _ => rfl
  by_cases hp : ∃ p, d.project = some p ∧ c = p.ref.target_config
  · obtain ⟨p, hp, rfl⟩ := hp
    obtain ⟨p', hp', href, ho⟩ := hD p hp
    rw [hF.projected p hp a ha, ← href, hF'.projected p' hp' a ha]
    cases a with
    | route => exact absurd rfl ha
    | backup => exact congrArg some ho
    | metadata => rw [Project.cell, Project.cell, href, ho]
    | persona => exact congrArg (fun r => some (encode r)) href
  by_cases hr' : a = .persona ∧ ∃ r', restore = some r' ∧ c = r'.ref.target_config
  · obtain ⟨rfl, r', hr', rfl⟩ := hr'
    exact (hF'.restored r' hr').trans (hA r' hr').symm
  by_cases hr : a = .persona ∧ ∃ r, d.restore = some r ∧ c = r.ref.target_config
  · obtain ⟨rfl, r, hr, rfl⟩ := hr
    have hs' := (hB r hr).resolve_left fun ⟨r', hr'', e⟩ => hr' ⟨rfl, r', hr'', e.symm⟩
    refine (hF'.frame r.ref.target_config .persona nofun (fun r' hr'' e => absurd ⟨rfl, r', hr'', e⟩ hr')
      fun p' hp' e => ?_).trans (hs'.trans (hF.restored r hr).symm)
    obtain ⟨p, hp', href, -⟩ := hC p' hp'
    exact absurd ⟨p, hp', e.trans (by rw [href])⟩ hp
  · refine hframe (fun e => absurd e ha) (fun r hr'' e hpersona => ?_) fun p hp' e => absurd ⟨p, hp', e⟩ hp
    rcases hr'' with hr'' | hr''
    · exact hr ⟨hpersona, r, hr'', e⟩
    · exact hr' ⟨hpersona, r, hr'', e⟩

/-- After all writes, with a route that is not empty, the repeated call writes nothing. -/
theorem repeat_of_done (hinv : Inv P s0 L (s.apply (d.writes P removing)))
    (hroute : (s.apply (d.writes P removing)).value d.id .route ≠ []) :
    ∃ d', decision P (s.apply (d.writes P removing)) service previous removing sourceConfig = some d' ∧
      (s.apply (d.writes P removing)).apply (d'.writes P removing) = s.apply (d.writes P removing) := by
  have hsame : Same s (s.apply (d.writes P removing)) := same_apply s _
  have hF := final h hd hgone
  obtain ⟨hsource, hread, -, -, hplan⟩ := decision_spec hd
  have hgone' : removing → ∀ c ∈ (s.apply (d.writes P removing)).configs, c.id ≠ d.id :=
    fun hrem c hc => hgone hrem c (hsame.configs ▸ hc)
  have hrem : removing = false := by
    by_contra hrem
    obtain ⟨c, hc, hid, -⟩ := hinv.opened d.id hroute
    exact hgone' (Bool.eq_true_of_not_eq_false hrem) c hc hid
  rw [State.value_eq (hF.route hrem)] at hroute
  obtain ⟨p, hp⟩ : ∃ p, d.project = some p := by
    cases hp : d.project with
    | none =>
      rw [Decision.desired, hp] at hroute
      exact absurd rfl hroute
    | some p => exact ⟨p, rfl⟩
  have hdesired : d.desired = encode p.ref := by rw [Decision.desired, hp, elim_some]
  obtain ⟨hmapped, hproject⟩ := project_of hd hp
  obtain ⟨t, ht, href, hvalid, -⟩ := projectPlan_spec h.stage hproject
  obtain ⟨-, -, -, hunits, -⟩ := projectPlan_pieces hproject ht
  -- the plan of the new target
  have htake : s.apply (d.writes P removing) = stopped P s d removing (d.writes P removing).length := by
    rw [stopped, take_length]
  have hmeta : (s.apply (d.writes P removing)).attrs p.ref.target_config .metadata ≠ none := by
    rw [hF.projected p hp .metadata nofun]
    exact nofun
  have hagain := project_again (k := (d.writes P removing).length) h hd hp (htake ▸ hinv) fun _ => htake ▸ hmeta
  rw [← htake] at hagain
  obtain ⟨p', hp', href', ho'⟩ := hagain
  have hread' : routeOf (s.apply (d.writes P removing)) d.id removing = some (some (encode p.ref)) := by
    rw [routeOf, if_neg (by rw [hrem]; exact Bool.false_ne_true)] at hread ⊢
    exact attributeOf_some hread ((hF.route hrem).trans (by rw [hdesired])) hunits
  have hne : encode p.ref ≠ [] := hdesired ▸ hroute
  have hprofile : p.ref.context_profile = d.mapped := by rw [href]
  have hd' := decision_of (some p.ref) none (some p') hd
    ((sourceOf_congr hsame _ _ _).trans hsource) hread'
    ((if_neg (by rw [getD_some]; exact hne)).trans (decodePersona_encode hvalid))
    (fun r hr => by rw [← Option.some.inj hr, href]; exact ⟨rfl, rfl⟩)
    (if_neg fun hif => hif.2 hprofile) (by rw [if_pos hmapped, hp']; rfl)
  refine ⟨_, hd', ?_⟩
  have hnil := (writes_eq_nil hinv hd' hgone' (by rw [State.value_eq (hF.route hrem)]; exact hroute) ?_).1
  · rw [hnil]
    rfl
  · rw [State.value_eq (hF.route hrem), hdesired]
    show encode p.ref = encode p'.ref
    rw [href']

/-- The repeated call ends where the first one was to end. -/
theorem repeat_of_resumable (hsafe : Safe (Inv P s0 L) s (d.writes P removing))
    (hres : Resumable P s (stopped P s d removing k) d.id d.mapped service previous) :
    ∃ d', decision P (stopped P s d removing k) service previous removing sourceConfig = some d' ∧
      (stopped P s d removing k).apply (d'.writes P removing) = s.apply (d.writes P removing) := by
  by_cases hroute : (stopped P s d removing k).value d.id .route = []
  · exact repeat_of_empty h hd hgone (hsafe k) hres hroute
  rcases Nat.eq_zero_or_pos k with rfl | hk
  · rw [stopped, take_zero]
    exact ⟨d, hd, rfl⟩
  by_cases hlt : k < (d.writes P removing).length
  · exact absurd (stopped_route h hd hgone hk hlt) hroute
  · rw [stopped, take_of_length_le (Nat.le_of_not_lt hlt)] at hroute ⊢
    exact repeat_of_done h hd hgone hsafe.done hroute

/-- A route that a call has emptied is the one of another profile than the new one. -/
theorem profile_ne (hroute : (stopped P s d removing k).value d.id .route = []) {r : Reference}
    (hval : s.value d.id .route = encode r)
    (ht : ∃ t, target s r.context_profile = some t ∧ t.id = r.target_config) (hservice : r.service_id = service)
    (hsource : r.source_config = d.id) : r.context_profile ≠ d.mapped := by
  intro hmapped
  obtain ⟨t, ht, htr⟩ := ht
  have hne : s.value d.id .route ≠ [] := by
    rw [hval, encode_eq]
    exact cons_ne_nil _ _
  have hguid : d.mapped ≠ "" := by
    intro e
    obtain ⟨-, -, -, -, hguid, -⟩ := target_mem ht
    rw [hmapped, e] at hguid
    exact absurd hguid (by decide)
  obtain ⟨-, -, -, -, hplan⟩ := decision_spec hd
  rw [if_pos hguid] at hplan
  obtain ⟨p, hproject, hp⟩ := map_eq_some_iff.1 hplan
  obtain ⟨t', ht', href, -⟩ := projectPlan_spec h.stage hproject
  rw [← hmapped, ht, Option.some.injEq] at ht'
  have hpr : p.ref = r := by
    rw [href, ← ht', htr, ← hservice, ← hsource, ← hmapped]
  have hdesired : s.value d.id .route = d.desired := by
    rw [hval, Decision.desired, ← hp, elim_some, hpr]
  rw [stopped, (writes_eq_nil h hd hgone hne hdesired).1, take_nil] at hroute
  exact hne hroute

/-- What a repeated call needs that ends where the first one was to end. -/
theorem resumable_of_repeat (hinv : Inv P s0 L (stopped P s d removing k)) {d' : Decision}
    (hd' : decision P (stopped P s d removing k) service previous removing sourceConfig = some d')
    (hsame : (stopped P s d removing k).apply (d'.writes P removing) = s.apply (d.writes P removing)) :
    Resumable P s (stopped P s d removing k) d.id d.mapped service previous := by
  have hkeep : Same s (stopped P s d removing k) := same_apply s _
  obtain ⟨hsource, -⟩ := decision_spec hd
  obtain ⟨hsource', -, -, hrestore', hplan'⟩ := decision_spec hd'
  rw [sourceOf_congr hkeep, hsource, Option.some.injEq, Prod.mk.injEq] at hsource'
  obtain ⟨hid, hmapped⟩ := hsource'
  have hgone' : removing → ∀ c ∈ (stopped P s d removing k).configs, c.id ≠ d'.id :=
    fun hrem c hc => hid ▸ hgone hrem c (hkeep.configs ▸ hc)
  have hF := final h hd hgone
  have hF' := final hinv hd' hgone'
  rw [hsame] at hF'
  constructor
  · intro t ht hb hm
    obtain ⟨-, -, -, -, hguid, -⟩ := target_mem ht
    have hne : d'.mapped ≠ "" := by
      intro e
      rw [hmapped, e] at hguid
      exact absurd hguid (by decide)
    rw [if_pos hne] at hplan'
    obtain ⟨p', hproject, -⟩ := map_eq_some_iff.1 hplan'
    obtain ⟨t', ht', -, -, -, hbackup, hmetadata, -, -, hstands⟩ := projectPlan_spec hinv.stage hproject
    rw [target_same hkeep, ← hmapped, ht, Option.some.injEq] at ht'
    rw [hbackup, hmetadata, ← ht'] at hstands
    rcases hstands with ⟨hnone, -⟩ | ⟨-, hsome⟩
    · exact hb hnone
    · rw [hm] at hsome
      cases hsome
  · intro r hvalid hval hroute
    by_cases hprev : previous = r.context_profile
    · exact .inl hprev
    right
    have hne := encode_ne_nil r
    rcases oldProfile_cases h hd hgone with ⟨hv, -⟩ | ⟨r', -, hval', hold, ⟨t, ht, htr⟩, hservice, hsrc, -, hfits⟩
    · exact absurd (hval.symm.trans hv) hne
    obtain rfl := encode_injective hvalid (hval.symm.trans hval')
    have hX := profile_ne h hd hgone hroute hval ⟨t, ht, htr⟩ hservice hsrc
    have hold' : d'.oldProfile = previous := by
      rcases oldProfile_cases hinv hd' hgone' with ⟨-, hold'⟩ | ⟨r', -, hval', -⟩
      · exact hold'
      · rw [← hid, hroute] at hval'
        rw [encode_eq] at hval'
        cases hval'
    -- the target of the route that was revoked is none of the repeated call
    obtain ⟨hner, hnep⟩ := target_apart hinv hd' ((target_same hkeep _).trans ht) (hold' ▸ Ne.symm hprev) (hmapped ▸ hX)
    rw [htr] at hner hnep
    constructor
    · intro hpersona
      obtain ⟨x, hx⟩ := restore_isSome hd (hold ▸ hX) (hold ▸ ht)
      obtain ⟨t', ht', href, -, -, ho, -⟩ := restorePlan_spec h.stage (restore_of hd hx).2
      rw [hold, ht, Option.some.injEq] at ht'
      have hxr : x.ref.target_config = r.target_config := by rw [href, ← ht', htr]
      have hlast := hF.restored x hx
      rw [hxr, hF'.frame r.target_config .persona nofun (fun x hx e => absurd e (hner x hx))
        (fun p hp e => absurd e (hnep p hp)), hpersona, Option.some.injEq, ho, ← ht', htr] at hlast
      exact encode_ne_original P hvalid hfits.1 hlast
    · by_cases hif : previous ≠ "" ∧ previous ≠ d.mapped
      · right
        right
        rw [hold', ← hmapped, ← hid, if_pos hif] at hrestore'
        obtain ⟨x, hx, hxd⟩ := map_eq_some_iff.1 hrestore'
        obtain ⟨tz, htz, href, -⟩ := restorePlan_spec hinv.stage hx
        have hxz : x.ref.target_config = tz.id := by rw [href]
        rw [target_same hkeep] at htz
        obtain ⟨hner', hnep'⟩ := target_apart h hd htz (hold ▸ hprev) hif.2
        have hpersona := stopped_frame (k := k) (c := tz.id) (a := .persona) hd nofun
          (fun y hy e => absurd e (hner' y hy)) fun p hp e => absurd e (hnep' p hp)
        have hbackup := stopped_elsewhere (k := k) (a := .backup) hd hnep' ⟨nofun, nofun⟩
        have hmetadata := stopped_elsewhere (k := k) (a := .metadata) hd hnep' ⟨nofun, nofun⟩
        have hback : Same _ s := ⟨hkeep.configs.symm, hkeep.deployments.symm, hkeep.mapped.symm⟩
        have hplan := restorePlan_again hback hx ((target_same hkeep _).trans htz) hbackup.symm hmetadata.symm
          (.inl hpersona.symm)
        refine ⟨_, hplan, ?_⟩
        have hlast := hF'.restored x hxd.symm
        rw [hxz, hF.frame tz.id .persona nofun (fun y hy e => absurd e (hner' y hy))
          (fun p hp e => absurd e (hnep' p hp))] at hlast
        rw [Restore.writes, write, if_pos hlast]
      · rw [not_and_or, not_not, not_not] at hif
        exact hif.imp id .inl

end Repeat

/-! ## Runs -/

section Runs

variable (P) (service previous : String) (removing : Bool) (sourceConfig : String)

/-- The call succeeds where it does not stop, and ends in `s'`. -/
def Completes (s s' : State) : Prop :=
  ∃ d, decision P s service previous removing sourceConfig = some d ∧ s.apply (d.writes P removing) = s'

/-- After a call that stopped, it can be repeated. -/
def Resumes (s : State) (e : Event) : Prop :=
  ∀ id mapped, sourceOf s service removing sourceConfig = some (id, mapped) →
    Resumable P s (step P s e) id mapped service previous

variable {P service previous removing sourceConfig}

/-- One call, wherever it stopped. -/
theorem completes_iff {s' : State} (h : Inv P s0 False s)
    (hguard : ¬(removing && s.configs.any (·.id = sourceConfig)) = true)
    (hs' : Completes P service previous removing sourceConfig s s') (k : ℕ) :
    Completes P service previous removing sourceConfig
        (step P s (.sync service previous removing sourceConfig k)) s' ↔
      Resumes P service previous removing sourceConfig s (.sync service previous removing sourceConfig k) := by
  obtain ⟨d, hd, rfl⟩ := hs'
  have hgone := gone_of_deleted hd hguard
  have hsafe := (safe_writes h hd hgone False.elim).1
  obtain ⟨hsource, -⟩ := decision_spec hd
  unfold Resumes
  rw [step_sync k hd, hsource]
  constructor
  · rintro ⟨d', hd', hsame⟩ id mapped heq
    cases heq
    exact resumable_of_repeat h hd hgone (hsafe k) hd' hsame
  · intro hres
    exact repeat_of_resumable h hd hgone hsafe (hres _ _ rfl)

/-- After any calls, each of which may have stopped: a call that would succeed can be repeated after it
stopped, and ends where it would have, if and only if `Resumable` holds there; and if it holds wherever the
call and its repetitions stop, the last one ends there as well. -/
theorem repeatable (h0 : Start s0) (es : List Event) (hes : Admits (step P) Deleted s0 es) {s' : State}
    (hguard : ¬(removing && (run (step P) s0 es).configs.any (·.id = sourceConfig)) = true)
    (hs' : Completes P service previous removing sourceConfig (run (step P) s0 es) s') :
    (∀ k, Completes P service previous removing sourceConfig
        (step P (run (step P) s0 es) (.sync service previous removing sourceConfig k)) s' ↔
      Resumes P service previous removing sourceConfig (run (step P) s0 es)
        (.sync service previous removing sourceConfig k)) ∧
    ∀ ks : List ℕ, Admits (step P) (Resumes P service previous removing sourceConfig) (run (step P) s0 es)
        (ks.map (.sync service previous removing sourceConfig)) →
      Completes P service previous removing sourceConfig
        (run (step P) (run (step P) s0 es) (ks.map (.sync service previous removing sourceConfig))) s' := by
  have h : Inv P s0 False (run (step P) s0 es) := inv_run h0 hes
  generalize run (step P) s0 es = s at *
  refine ⟨completes_iff h hguard hs', fun ks hok => ?_⟩
  induction ks generalizing s with
  | nil => exact hs'
  | cons k ks ih =>
    rw [map_cons, admits_cons] at hok
    rw [map_cons, run_cons]
    refine ih _ ?_ ((completes_iff h hguard hs' k).2 hok.1) (inv_step h _ hguard False.elim) hok.2
    rw [configs_sync]
    exact hguard

end Runs

/-! ## On the sample -/

/-- The service is mapped, and its projection is still to come. -/
noncomputable def mappedOnce : State := run (step samplePlatform) (sample []) [.map sourceId profileId]

theorem completes_of_isSome {P : Platform} {s : State} {previous sourceConfig : String} {removing : Bool}
    (h : (decision P s service previous removing sourceConfig).isSome) :
    ∃ s', Completes P service previous removing sourceConfig s s' := by
  obtain ⟨d, hd⟩ := isSome_iff_exists.1 h
  exact ⟨_, d, hd, rfl⟩

theorem decision_sample : (decision samplePlatform mappedOnce serviceId "" false sourceId).isSome := by
  decide +kernel

/-- A call that would succeed, and that stops after it has saved the original: repeated, it is refused. -/
theorem refused_after_backup :
    (∃ s', Completes samplePlatform serviceId "" false sourceId mappedOnce s') ∧
      ∀ s', ¬Completes samplePlatform serviceId "" false sourceId
        (step samplePlatform mappedOnce (.sync serviceId "" false sourceId 1)) s' := by
  refine ⟨completes_of_isSome decision_sample, ?_⟩
  rintro s' ⟨d, hd, -⟩
  have hnone : (decision samplePlatform (step samplePlatform mappedOnce (.sync serviceId "" false sourceId 1))
      serviceId "" false sourceId).isSome = false := by decide +kernel
  rw [hd] at hnone
  cases hnone

theorem resumes_sample :
    Resumes samplePlatform serviceId "" false sourceId mappedOnce (.sync serviceId "" false sourceId 2) := by
  intro id mapped hsource
  have h : sourceOf mappedOnce serviceId false sourceId = some (sourceId, profileId) := by decide +kernel
  cases hsource.symm.trans h
  refine ⟨fun t ht _ => ?_, fun r _ hroute _ => ?_⟩
  · have h : target mappedOnce profileId = some ⟨targetId, assistantId, profileId⟩ := by decide +kernel
    cases ht.symm.trans h
    have hsaved : ((step samplePlatform mappedOnce (.sync serviceId "" false sourceId 2)).attrs
        targetId .metadata).isSome := by decide +kernel
    dsimp only
    exact isSome_iff_ne_none.1 hsaved
  · have h : mappedOnce.value sourceId .route = [] := by decide +kernel
    exact absurd (hroute.symm.trans h) (encode_ne_nil r)

/-- The same call can be repeated if it stops one write later. -/
theorem repeatable_sample : ∃ s', Completes samplePlatform serviceId "" false sourceId mappedOnce s' ∧
    Completes samplePlatform serviceId "" false sourceId
      (step samplePlatform mappedOnce (.sync serviceId "" false sourceId 2)) s' := by
  obtain ⟨s', hs'⟩ := completes_of_isSome decision_sample
  have hstart : Start (sample []) := start_sample (by decide)
  have hes : Admits (step samplePlatform) Deleted (sample []) [.map sourceId profileId] :=
    admits_cons.2 ⟨trivial, admits_nil⟩
  exact ⟨s', hs', ((repeatable hstart [.map sourceId profileId] hes (by decide) hs').1 2).2 resumes_sample⟩

end StrixAlloy.PersonaRoute

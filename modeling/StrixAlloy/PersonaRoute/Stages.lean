import StrixAlloy.PersonaRoute.Sync

/-!
# The stages of a target

A target is untouched, then its original is saved, then it is projected: the original and its metadata
stand, and its persona is the original or the reference (`Stage`). What a plan finds at a target that is in
one of the stages is what it writes (`projectPlan_spec`, `restorePlan_spec`), up to the attribute that is
still missing.
-/

namespace StrixAlloy.PersonaRoute

open Search List Option

/-! ## Writes -/

namespace State

variable (s : State) (w : Write)

@[simp]
theorem set_configs : (s.set w).configs = s.configs := rfl

@[simp]
theorem set_deployments : (s.set w).deployments = s.deployments := rfl

theorem set_attrs_same (c : String) (a : Attribute) (v : Text) : (s.set ⟨c, a, v⟩).attrs c a = some v :=
  if_pos ⟨rfl, rfl⟩

theorem set_attrs_of_name {c : String} {a : Attribute} (h : a ≠ w.name) : (s.set w).attrs c a = s.attrs c a :=
  if_neg fun e => h e.2

theorem set_attrs_of_config {c : String} {a : Attribute} (h : c ≠ w.config) :
    (s.set w).attrs c a = s.attrs c a :=
  if_neg fun e => h e.1

variable {s} in
/-- To write what stands there changes nothing. -/
theorem set_eq_self {c : String} {a : Attribute} {v : Text} (h : s.attrs c a = some v) :
    s.set ⟨c, a, v⟩ = s := by
  have hattrs : (s.set ⟨c, a, v⟩).attrs = s.attrs := by
    funext d b
    by_cases e : d = c ∧ b = a
    · obtain ⟨rfl, rfl⟩ := e
      rw [set_attrs_same, h]
    · exact if_neg e
  calc s.set ⟨c, a, v⟩ = { s with attrs := (s.set ⟨c, a, v⟩).attrs } := rfl
    _ = s := by rw [hattrs]

theorem apply_append (ws vs : List Write) : s.apply (ws ++ vs) = (s.apply ws).apply vs := foldl_append

/-- A write that is left out would change nothing. -/
theorem apply_write (c : String) (a : Attribute) (v : Text) :
    s.apply (write c a (s.attrs c a) v) = s.set ⟨c, a, v⟩ := by
  unfold write
  split_ifs with h
  · exact (set_eq_self h).symm
  · rfl

@[simp]
theorem apply_configs (ws : List Write) : (s.apply ws).configs = s.configs := by
  induction ws generalizing s with
  | nil => rfl
  | cons w ws ih => exact ih (s.set w)

@[simp]
theorem apply_deployments (ws : List Write) : (s.apply ws).deployments = s.deployments := by
  induction ws generalizing s with
  | nil => rfl
  | cons w ws ih => exact ih (s.set w)

/-- What no write names is left as it was. -/
theorem apply_attrs {ws : List Write} {c : String} {a : Attribute}
    (h : ∀ w ∈ ws, c ≠ w.config ∨ a ≠ w.name) : (s.apply ws).attrs c a = s.attrs c a := by
  induction ws generalizing s with
  | nil => rfl
  | cons w ws ih =>
    have hw : (s.set w).attrs c a = s.attrs c a := by
      rcases h w mem_cons_self with hc | ha
      · exact s.set_attrs_of_config w hc
      · exact s.set_attrs_of_name w ha
    exact (ih (s.set w) fun v hv => h v (mem_cons_of_mem _ hv)).trans hw

variable {s} in
theorem value_eq {c : String} {a : Attribute} {v : Text} (h : s.attrs c a = some v) : s.value c a = v := by
  rw [value, h, getD_some]

end State

theorem mem_write {c : String} {a : Attribute} {cur : Option Text} {v : Text} {w : Write}
    (h : w ∈ write c a cur v) : w = ⟨c, a, v⟩ := by
  unfold write at h
  split_ifs at h
  · cases h
  · exact mem_singleton.1 h

theorem mem_restore {r : Restore} {w : Write} (h : w ∈ r.writes) :
    w.config = r.ref.target_config ∧ w.name = .persona := by
  rw [mem_write h]
  exact ⟨rfl, rfl⟩

theorem mem_project {P : Platform} {p : Project} {w : Write} (h : w ∈ p.writes P) :
    w.config = p.ref.target_config ∧ w.name ≠ .route := by
  unfold Project.writes at h
  rcases mem_append.1 h with h | h
  · rw [mem_write h]
    exact ⟨rfl, nofun⟩
  rcases mem_append.1 h with h | h
  · rw [mem_write h]
    exact ⟨rfl, nofun⟩
  · rw [mem_write h]
    exact ⟨rfl, nofun⟩

/-! ## Metadata -/

theorem regular_metadataJson (r : Reference) (sha : String) : (metadataJson r sha).regular := by
  simp [metadataJson, Json.regular, Json.regularMembers]

variable {P : Platform}

/-- The metadata that is written agrees with one reference only. -/
theorem metadataOk_text {r r' : Reference} {t : Text} : metadataOk P r t (metadataText P r' t) ↔ r = r' := by
  have hkeys : keysOf [("version", .int 2), ("service_id", .str r'.service_id),
      ("source_config", .str r'.source_config), ("target_config", .str r'.target_config),
      ("context_profile", .str r'.context_profile), ("sha256", .str (P.hash t))] =
      "context_profile,service_id,sha256,source_config,target_config,version" := by
    unfold keysOf
    simp only [map_cons, map_nil]
    decide
  unfold metadataOk metadataText
  rw [P.reader.parse_text _ (regular_metadataJson r' _)]
  unfold metadataJson
  simp only [hkeys, strOf, Json.get?, List.find?, String.reduceEq, decide_true, decide_false, map_some,
    Bool.true_and, Bool.and_true, Bool.and_eq_true, decide_eq_true_eq, Option.some.injEq]
  cases r
  cases r'
  simp only [Reference.mk.injEq]
  tauto

/-- A reference in a persona that the platform can read. -/
theorem decodePersona_encode {r : Reference} (h : r.valid) : decodePersona P (encode r) = some (some r) := by
  have hopen : contains openTag (encode r) := by
    apply contains_of_infix (cons_ne_nil _ _)
    exact ⟨[], '\n' :: (r.json.text ++ closing), by rw [encode_eq]; rfl⟩
  unfold decodePersona
  rw [hopen, decode_encode h]
  rfl

theorem encode_injective {r r' : Reference} (hr : r.valid) (h : encode r = encode r') : r = r' := by
  have htext : r.json.text ++ closing = r'.json.text ++ closing := append_cancel_left h
  have hjson := Json.text_injective (append_cancel_right htext)
  cases r
  cases r'
  simpa [Reference.json] using hjson

/-! ## Stages -/

/-- The original and its metadata are within the bounds. -/
def Fits (P : Platform) (r : Reference) (o : Text) : Prop :=
  originalOk o ∧ units (metadataText P r o) ≤ 1000

/-- What stands at a target whose original is `o`. -/
inductive Stage (P : Platform) (s : State) (t : String) (o : Text) : Prop where
  | untouched (backup : s.attrs t .backup = none) (metadata : s.attrs t .metadata = none)
    (persona : s.value t .persona = o)
  | saved (backup : s.attrs t .backup = some o) (metadata : s.attrs t .metadata = none)
    (persona : s.value t .persona = o)
  | projected (r : Reference) (valid : r.valid) (target : r.target_config = t) (original : Fits P r o)
    (backup : s.attrs t .backup = some o) (metadata : s.attrs t .metadata = some (metadataText P r o))
    (persona : s.value t .persona = o ∨ s.attrs t .persona = some (encode r))

variable {s : State} {o : Text}

/-- Attributes that the writes leave alone keep their stage. -/
theorem Stage.congr {s' : State} {t : String} (h : Stage P s t o)
    (e : ∀ a, a ≠ .route → s'.attrs t a = s.attrs t a) : Stage P s' t o := by
  have hv : s'.value t .persona = s.value t .persona := by
    rw [State.value, State.value, e _ (by decide)]
  cases h with
  | untouched backup metadata persona =>
    exact .untouched (by rw [e _ (by decide), backup]) (by rw [e _ (by decide), metadata])
      (by rw [hv, persona])
  | saved backup metadata persona =>
    exact .saved (by rw [e _ (by decide), backup]) (by rw [e _ (by decide), metadata]) (by rw [hv, persona])
  | projected r valid target original backup metadata persona =>
    refine .projected r valid target original (by rw [e _ (by decide), backup])
      (by rw [e _ (by decide), metadata]) ?_
    rw [hv, e _ (by decide)]
    exact persona

/-- Metadata stands only beside the original that it is of. -/
theorem Stage.of_metadata {t : String} {m : Text} (h : Stage P s t o) (hm : s.attrs t .metadata = some m) :
    ∃ r : Reference, r.valid ∧ r.target_config = t ∧ Fits P r o ∧ s.attrs t .backup = some o ∧
      m = metadataText P r o ∧ (s.value t .persona = o ∨ s.attrs t .persona = some (encode r)) := by
  cases h with
  | untouched _ metadata =>
    rw [metadata] at hm
    cases hm
  | saved _ metadata =>
    rw [metadata] at hm
    cases hm
  | projected r valid target original backup metadata persona =>
    rw [metadata] at hm
    exact ⟨r, valid, target, original, backup, (Option.some.inj hm).symm, persona⟩

/-! ## Plans -/

theorem target_mem {profile : String} {t : Config} (h : target s profile = some t) :
    t ∈ s.configs ∧ t.context_profile = profile ∧ s.isActive t.deployment .nava ∧
      s.configs.filter (fun c => c.context_profile = profile && s.isActive c.deployment .nava) = [t] ∧
      isGuid profile ∧ isGuid t.deployment := by
  unfold target at h
  split_ifs at h with hprofile
  split at h
  · rename_i c hc
    split_ifs at h with hguid
    obtain rfl := Option.some.inj h
    have hmem : c ∈ s.configs.filter
        (fun c => c.context_profile = profile && s.isActive c.deployment .nava) := by
      rw [hc]
      exact mem_singleton_self c
    obtain ⟨hmem, hp⟩ := mem_filter.1 hmem
    rw [Bool.and_eq_true, decide_eq_true_eq] at hp
    exact ⟨hmem, hp.1, hp.2, hc, hprofile, hguid⟩
  · cases h

theorem attributeOf_eq {c : String} {a : Attribute} {v : Option Text} (h : attributeOf s c a = some v) :
    v = s.attrs c a := by
  unfold attributeOf at h
  split_ifs at h
  exact (Option.some.inj h).symm

/-- A plan goes on from a backup only if it is the plan's own. -/
theorem backedUp_spec {ref : Reference} {t : String} {persona b m x : Text} {prior : Option Reference}
    (hs : Stage P s t o) (hb : s.attrs t .backup = some b) (hm : s.attrs t .metadata = some m)
    (h : backedUp P ref persona b m prior = some x) :
    x = o ∧ b = o ∧ Fits P ref o ∧ ref.valid ∧ m = metadataText P ref o := by
  obtain ⟨r, hvalid, -, horiginal, hbackup, rfl, -⟩ := hs.of_metadata hm
  rw [hb, Option.some.injEq] at hbackup
  subst hbackup
  unfold backedUp at h
  dsimp only at h
  split_ifs at h with hif
  have hok : backupOk P ref b (metadataText P r b) := (Bool.and_eq_true_iff.1 hif).1
  unfold backupOk at hok
  have hr : ref = r := metadataOk_text.1 (Bool.and_eq_true_iff.1 hok).2
  subst hr
  exact ⟨(Option.some.inj h).symm, rfl, horiginal, hvalid, rfl⟩

/-- What a call has found before it writes. -/
theorem decision_spec {service previous sourceConfig : String} {removing : Bool} {d : Decision}
    (h : decision P s service previous removing sourceConfig = some d) :
    sourceOf s service removing sourceConfig = some (d.id, d.mapped) ∧
    routeOf s d.id removing = some d.route ∧
    (∃ oldRef, (if d.route.getD [] = [] then some none else decodePersona P (d.route.getD [])) = some oldRef ∧
      (∀ r, oldRef = some r → r.service_id = service ∧ r.source_config = d.id) ∧
      d.oldProfile = oldRef.elim previous Reference.context_profile) ∧
    (if d.oldProfile ≠ "" ∧ d.oldProfile ≠ d.mapped
      then (restorePlan P s service d.id d.oldProfile).map some else some none) = some d.restore ∧
    (if d.mapped ≠ "" then (projectPlan P s service d.id d.mapped).map some else some none) =
      some d.project := by
  unfold decision at h
  split_ifs at h
  obtain ⟨⟨id, mapped⟩, hsource, h⟩ := bind_eq_some_iff.1 h
  obtain ⟨route, hroute, h⟩ := bind_eq_some_iff.1 h
  obtain ⟨oldRef, hold, h⟩ := bind_eq_some_iff.1 h
  split at h
  · cases h
  · rename_i hown
    obtain ⟨restore, hrestore, h⟩ := bind_eq_some_iff.1 h
    obtain ⟨project, hproject, h⟩ := bind_eq_some_iff.1 h
    cases h
    refine ⟨hsource, hroute, ⟨oldRef, hold, ?_, rfl⟩, hrestore, hproject⟩
    rintro r rfl
    simpa using hown

/-- The source of a call is the only config of its service. -/
theorem source_spec {service sourceConfig id mapped : String}
    (h : sourceOf s service false sourceConfig = some (id, mapped)) :
    ∃ c ∈ s.configs, c.id = id ∧ c.deployment = service ∧ s.configs.filter (·.deployment = service) = [c] ∧
      (mapped ≠ "" → s.isActive service .voice ∧ mapped = s.mapped c.id) := by
  unfold sourceOf at h
  rw [if_neg Bool.false_ne_true] at h
  obtain ⟨⟨c, active⟩, hs, h⟩ := bind_eq_some_iff.1 h
  dsimp only at h
  split_ifs at h with hid hactive
  all_goals
    cases h
    unfold source at hs
    split_ifs at hs
    split at hs
    · rename_i d hd
      split_ifs at hs
      obtain ⟨rfl, rfl⟩ := Prod.mk.inj (Option.some.inj hs)
      have hmem : d ∈ s.configs.filter (·.deployment = service) := by
        rw [hd]
        exact mem_singleton_self d
      obtain ⟨hmem, hdep⟩ := mem_filter.1 hmem
      rw [decide_eq_true_eq] at hdep
      refine ⟨d, hmem, rfl, hdep, hd, fun hne => ?_⟩
      first
        | exact ⟨hactive, rfl⟩
        | exact absurd rfl hne
    · cases hs

section Specs

variable {orig : String → Text} (hs : ∀ c ∈ s.configs, Stage P s c.id (orig c.id))
include hs

/-- What a projection has found at its target: nothing yet, or its own original and metadata. -/
theorem projectPlan_spec {service id profile : String} {p : Project}
    (h : projectPlan P s service id profile = some p) :
    ∃ t, target s profile = some t ∧ p.ref = ⟨service, id, t.id, profile⟩ ∧ p.ref.valid ∧
      p.persona = s.attrs t.id .persona ∧ p.backup = s.attrs t.id .backup ∧
      p.metadata = s.attrs t.id .metadata ∧ p.original = orig t.id ∧ Fits P p.ref (orig t.id) ∧
      ((p.backup = none ∧ p.metadata = none) ∨
        (p.backup = some (orig t.id) ∧ p.metadata = some (metadataText P p.ref (orig t.id)))) := by
  unfold projectPlan at h
  obtain ⟨t, ht, h⟩ := bind_eq_some_iff.1 h
  have hstage := hs t (target_mem ht).1
  dsimp only at h
  split_ifs at h with hvalid
  obtain ⟨persona, hp, h⟩ := bind_eq_some_iff.1 h
  obtain rfl := attributeOf_eq hp
  obtain ⟨backup, hb, h⟩ := bind_eq_some_iff.1 h
  obtain rfl := attributeOf_eq hb
  obtain ⟨metadata, hm, h⟩ := bind_eq_some_iff.1 h
  obtain rfl := attributeOf_eq hm
  obtain ⟨prior, -, h⟩ := bind_eq_some_iff.1 h
  obtain ⟨original, ho, h⟩ := bind_eq_some_iff.1 h
  split_ifs at h with hok
  cases h
  rw [Bool.and_eq_true, decide_eq_true_eq] at hok
  simp only [Bool.or_eq_true, Bool.not_eq_true', not_or, Bool.not_eq_false] at hvalid
  refine ⟨t, ht, rfl, hvalid.1.2, rfl, rfl, rfl, ?_⟩
  split at ho
  · rename_i hnb hnm
    split_ifs at ho
    have hoe : original = orig t.id := by
      cases hstage with
      | untouched _ _ persona => exact (Option.some.inj ho).symm.trans persona
      | saved backup =>
        rw [hnb] at backup
        cases backup
      | projected _ _ _ _ backup =>
        rw [hnb] at backup
        cases backup
    exact ⟨hoe, hoe ▸ hok, .inl ⟨hnb, hnm⟩⟩
  · rename_i b m hb' hm'
    obtain ⟨hoe, rfl, horiginal, -, rfl⟩ := backedUp_spec hstage hb' hm' ho
    exact ⟨hoe, horiginal, .inr ⟨hb', hm'⟩⟩
  · cases ho

/-- What a restoration has found at its target. -/
theorem restorePlan_spec {service id profile : String} {r : Restore}
    (h : restorePlan P s service id profile = some r) :
    ∃ t, target s profile = some t ∧ r.ref = ⟨service, id, t.id, profile⟩ ∧ r.ref.valid ∧
      r.persona = s.attrs t.id .persona ∧ r.original = orig t.id ∧ Fits P r.ref (orig t.id) ∧
      s.attrs t.id .backup = some (orig t.id) ∧
      s.attrs t.id .metadata = some (metadataText P r.ref (orig t.id)) := by
  unfold restorePlan at h
  obtain ⟨t, ht, h⟩ := bind_eq_some_iff.1 h
  have hstage := hs t (target_mem ht).1
  split_ifs at h
  obtain ⟨persona, hp, h⟩ := bind_eq_some_iff.1 h
  obtain rfl := attributeOf_eq hp
  obtain ⟨backup, hb, h⟩ := bind_eq_some_iff.1 h
  obtain rfl := attributeOf_eq hb
  obtain ⟨metadata, hm, h⟩ := bind_eq_some_iff.1 h
  obtain rfl := attributeOf_eq hm
  obtain ⟨b, hb', h⟩ := bind_eq_some_iff.1 h
  obtain ⟨m, hm', h⟩ := bind_eq_some_iff.1 h
  obtain ⟨prior, -, h⟩ := bind_eq_some_iff.1 h
  obtain ⟨original, ho, h⟩ := bind_eq_some_iff.1 h
  cases h
  obtain ⟨hoe, rfl, horiginal, hvalid, rfl⟩ := backedUp_spec hstage hb' hm' ho
  exact ⟨t, ht, rfl, hvalid, rfl, hoe, horiginal, hb', hm'⟩

end Specs

end StrixAlloy.PersonaRoute

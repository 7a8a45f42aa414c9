import StrixAlloy.PersonaRoute.Safety

/-!
# A call keeps the invariant

Every prefix of the writes of a call keeps the invariant, and after all of them the target of the profile
that the service had before has its original (`safe_writes`). So every step keeps it (`inv_step`).
-/

namespace StrixAlloy.PersonaRoute

open Option

variable {P : Platform} {s0 : State} {L : Prop} {s : State}

/-! ## One call -/

theorem target_congr {s' : State} (hc : s'.configs = s.configs) (hd : s'.deployments = s.deployments)
    (profile : String) : target s' profile = target s profile := by
  simp only [target, State.isActive, hc, hd]

section Call

variable {service previous sourceConfig : String} {removing : Bool} {d : Decision}
  (h : Inv P s0 L s) (hd : decision P s service previous removing sourceConfig = some d)
include hd

theorem restore_of {r : Restore} (hr : d.restore = some r) :
    d.oldProfile ≠ d.mapped ∧ restorePlan P s service d.id d.oldProfile = some r := by
  obtain ⟨-, -, -, h, -⟩ := decision_spec hd
  rw [hr] at h
  split_ifs at h with hne
  · exact ⟨hne.2, by simpa using h⟩
  · cases h

theorem project_of {p : Project} (hp : d.project = some p) :
    d.mapped ≠ "" ∧ projectPlan P s service d.id d.mapped = some p := by
  obtain ⟨-, -, -, -, h⟩ := decision_spec hd
  rw [hp] at h
  split_ifs at h with hne
  · exact ⟨hne, by simpa using h⟩
  · cases h

/-- A call that has to restore something has a plan for it. -/
theorem restore_isSome {t : Config} (hne : d.oldProfile ≠ d.mapped) (ht : target s d.oldProfile = some t) :
    ∃ r, d.restore = some r := by
  obtain ⟨-, -, -, h, -⟩ := decision_spec hd
  have hold : d.oldProfile ≠ "" := by
    intro e
    rw [e] at ht
    have hguid : isGuid "" = false := by decide
    rw [target, hguid, if_neg Bool.false_ne_true] at ht
    cases ht
  rw [if_pos ⟨hold, hne⟩] at h
  obtain ⟨r, -, hr⟩ := map_eq_some_iff.1 h
  exact ⟨r, hr.symm⟩

include h

section

variable (hgone : removing → ∀ c ∈ s.configs, c.id ≠ d.id)
include hgone

/-- The route that a call has read, none for a config that is removed. -/
theorem route_value :
    d.route.getD [] = s.value d.id .route ∧ (removing = false → d.route = s.attrs d.id .route) := by
  obtain ⟨-, hroute, -⟩ := decision_spec hd
  unfold routeOf at hroute
  split_ifs at hroute with hrem
  · obtain hr := Option.some.inj hroute
    have hv : s.value d.id .route = [] := by
      by_contra hv
      obtain ⟨c, hc, hid, -⟩ := h.opened d.id hv
      exact hgone hrem c hc hid
    exact ⟨by rw [← hr, hv]; rfl, fun hf => absurd hrem (by rw [hf]; exact Bool.false_ne_true)⟩
  · rw [attributeOf_eq hroute]
    exact ⟨rfl, fun _ => rfl⟩

omit hgone in
/-- The targets of the two plans are different. -/
theorem targets_ne {r : Restore} {p : Project} (hr : d.restore = some r) (hp : d.project = some p) :
    r.ref.target_config ≠ p.ref.target_config := by
  obtain ⟨hne, hr⟩ := restore_of hd hr
  obtain ⟨t, ht, href, -⟩ := restorePlan_spec h.stage hr
  obtain ⟨t', ht', href', -⟩ := projectPlan_spec h.stage (project_of hd hp).2
  rw [href, href']
  intro e
  obtain ⟨hmem, hprofile, -⟩ := target_mem ht
  obtain ⟨hmem', hprofile', -⟩ := target_mem ht'
  obtain rfl := config_eq_of_id h.nodup hmem hmem' e
  exact hne (hprofile.symm.trans hprofile')

/-- Where the route is what it is to become, nothing is written. -/
theorem writes_eq_nil (hv : s.value d.id .route ≠ []) (hsame : s.value d.id .route = d.desired) :
    d.writes P removing = [] ∧ d.oldProfile = d.mapped := by
  obtain ⟨hroute, hcur⟩ := route_value h hd hgone
  have hrem : removing = false := by
    by_contra hrem
    obtain ⟨c, hc, hid, -⟩ := h.opened d.id hv
    exact hgone (Bool.eq_true_of_not_eq_false hrem) c hc hid
  obtain ⟨c, hc, hid, r, hopen⟩ := h.opened d.id hv
  have hval : s.value d.id .route = encode r := by
    rw [← hid]
    exact State.value_eq hopen.route
  -- the plan is the one that stands
  obtain ⟨p, hp, hpr⟩ : ∃ p, d.project = some p ∧ p.ref = r := by
    unfold Decision.desired at hsame
    cases hproject : d.project with
    | none =>
      rw [hproject] at hsame
      exact absurd hsame hv
    | some p =>
      rw [hproject, hval] at hsame
      exact ⟨p, rfl, (encode_injective hopen.valid hsame).symm⟩
  obtain ⟨hmapped, hplan⟩ := project_of hd hp
  obtain ⟨t, ht, href, -, hpersona, hbackup, hmetadata, horiginal, -, -⟩ := projectPlan_spec h.stage hplan
  have htr : t.id = r.target_config := by rw [← hpr, href]
  have hold : d.oldProfile = d.mapped := by
    obtain ⟨-, -, ⟨oldRef, hdecode, -, hprofile⟩, -⟩ := decision_spec hd
    rw [hroute, if_neg hv, hval, decodePersona_encode hopen.valid, Option.some.injEq] at hdecode
    rw [hprofile, ← hdecode, elim_some, ← hpr, href]
  have hrestore : d.restore = none := by
    by_contra hne
    obtain ⟨x, hx⟩ := ne_none_iff_exists'.1 hne
    exact (restore_of hd hx).1 hold
  have hrevokes : d.revokes = false := by
    unfold Decision.revokes
    rw [hroute, hsame]
    simp
  refine ⟨?_, hold⟩
  have hw : p.writes P = [] := by
    unfold Project.writes write
    rw [horiginal, hpr, hpersona, hbackup, hmetadata, htr, hopen.backup, hopen.metadata, hopen.persona,
      if_pos rfl, if_pos rfl, if_pos rfl]
    rfl
  have hlast : write d.id .route d.route d.desired = [] := by
    unfold write
    rw [hcur hrem, ← hsame, hval, ← hid, hopen.route, if_pos rfl]
  unfold Decision.writes
  rw [hrevokes, hrestore, hp, if_neg Bool.false_ne_true, if_neg Bool.false_ne_true, hrem,
    if_neg Bool.false_ne_true, hlast, elim_some, hw]
  rfl

/-! ### The writes, one part after the other -/

/-- A route that is not to stay is revoked. -/
theorem safe_revoke (hne : s.value d.id .route ≠ [] → s.value d.id .route ≠ d.desired) :
    Safe (Inv P s0 L) s (if d.revokes then write d.id .route d.route [] else []) ∧
    (s.apply (if d.revokes then write d.id .route d.route [] else [])).value d.id .route = [] ∧
    (removing = false → (if d.revokes then some [] else d.route) =
      (s.apply (if d.revokes then write d.id .route d.route [] else [])).attrs d.id .route) := by
  obtain ⟨hroute, hcur⟩ := route_value h hd hgone
  by_cases hv : s.value d.id .route = []
  · have hrevokes : d.revokes = false := by
      unfold Decision.revokes
      rw [hroute, hv]
      simp
    rw [hrevokes, if_neg Bool.false_ne_true, if_neg Bool.false_ne_true]
    exact ⟨safe_nil h, hv, hcur⟩
  · have hrevokes : d.revokes := by
      unfold Decision.revokes
      rw [hroute]
      simp [hv, hne hv]
    have hrem : removing = false := by
      by_contra hrem
      obtain ⟨c, hc, hid, -⟩ := h.opened d.id hv
      exact hgone (Bool.eq_true_of_not_eq_false hrem) c hc hid
    rw [hrevokes, if_pos rfl, if_pos rfl, hcur hrem, s.apply_write]
    refine ⟨safe_write rfl h (h.set_route fun hn => absurd rfl hn), ?_, fun _ => ?_⟩
    · exact State.value_eq (s.set_attrs_same _ _ _)
    · exact (s.set_attrs_same _ _ _).symm

end

variable {s' : State} (h' : Inv P s0 L s') (hconfigs : s'.configs = s.configs)
  (hdeployments : s'.deployments = s.deployments) (hclosed : s'.value d.id .route = [])
include h' hclosed

/-- The target of the old profile gets its original back. -/
theorem safe_restored (hframe : ∀ c a, a ≠ .route → s'.attrs c a = s.attrs c a) :
    Safe (Inv P s0 L) s' (d.restore.elim [] Restore.writes) ∧ ∀ r, d.restore = some r →
      (s'.apply (d.restore.elim [] Restore.writes)).value r.ref.target_config .persona =
        original s0 r.ref.target_config := by
  cases hr : d.restore with
  | none => exact ⟨safe_nil h', nofun⟩
  | some r =>
    obtain ⟨-, hplan⟩ := restore_of hd hr
    obtain ⟨t, -, href, hvalid, hp, ho, hbound, hb, hm⟩ := restorePlan_spec h.stage hplan
    have ht : r.ref.target_config = t.id := by rw [href]
    have hsource : r.ref.source_config = d.id := by rw [href]
    obtain ⟨hsafe, happly⟩ := h'.safe_restore ht hvalid (by rw [hsource, hclosed])
      (by rw [hp, hframe _ _ (by decide)]) ho hbound (by rw [hframe _ _ (by decide), hb])
      (by rw [hframe _ _ (by decide), hm])
    refine ⟨hsafe, ?_⟩
    rintro x hx
    cases hx
    rw [elim_some, happly, ht]
    exact State.value_eq (s'.set_attrs_same _ _ _)

include hconfigs

/-- The target of the new profile gets the reference. -/
theorem safe_projected (hframe : ∀ p, d.project = some p → ∀ a, a ≠ .route →
      s'.attrs p.ref.target_config a = s.attrs p.ref.target_config a) :
    Safe (Inv P s0 L) s' (d.project.elim [] (Project.writes P)) ∧ ∀ p, d.project = some p →
      let s3 := s'.apply (d.project.elim [] (Project.writes P))
      s3.attrs p.ref.target_config .backup = some (original s0 p.ref.target_config) ∧
      s3.attrs p.ref.target_config .metadata =
        some (metadataText P p.ref (original s0 p.ref.target_config)) ∧
      s3.attrs p.ref.target_config .persona = some (encode p.ref) := by
  cases hp : d.project with
  | none => exact ⟨safe_nil h', nofun⟩
  | some p =>
    obtain ⟨t, htarget, href, hvalid, hpersona, hb, hm, ho, hbound, hstands⟩ :=
      projectPlan_spec h.stage (project_of hd hp).2
    have ht : p.ref.target_config = t.id := by rw [href]
    have hsource : p.ref.source_config = d.id := by rw [href]
    have hframe := hframe p hp
    rw [ht] at hframe
    obtain ⟨hsafe, hstand⟩ := h'.safe_project (hconfigs ▸ (target_mem htarget).1) ht hvalid
      (by rw [hsource, hclosed]) (by rw [hpersona, hframe _ (by decide)]) (by rw [hb, hframe _ (by decide)])
      (by rw [hm, hframe _ (by decide)]) ho hbound hstands
    refine ⟨hsafe, ?_⟩
    rintro x hx
    cases hx
    rw [ht]
    exact hstand

include hdeployments

omit hclosed in
/-- The route is set last. -/
theorem inv_commit (hrem : removing = false) (hok : L → ∀ t, target s d.mapped = some t → Alone s t)
    (hstands : ∀ p, d.project = some p →
      s'.attrs p.ref.target_config .backup = some (original s0 p.ref.target_config) ∧
      s'.attrs p.ref.target_config .metadata =
        some (metadataText P p.ref (original s0 p.ref.target_config)) ∧
      s'.attrs p.ref.target_config .persona = some (encode p.ref)) :
    Inv P s0 L (s'.set ⟨d.id, .route, d.desired⟩) := by
  apply h'.set_route
  intro hne
  obtain ⟨p, hp⟩ : ∃ p, d.project = some p := by
    by_contra hnone
    have hp : d.project = none := by
      by_contra hp
      exact hnone (ne_none_iff_exists'.1 hp)
    unfold Decision.desired at hne
    rw [hp] at hne
    exact hne rfl
  obtain ⟨hmapped, hplan⟩ := project_of hd hp
  obtain ⟨t, ht, href, hvalid, -, -, -, -, hbound, -⟩ := projectPlan_spec h.stage hplan
  obtain ⟨hsource, -⟩ := decision_spec hd
  rw [hrem] at hsource
  obtain ⟨c, hc, hid, hdep, hsingle, hactive⟩ := source_spec hsource
  obtain ⟨hb, hm, hpersona⟩ := hstands p hp
  have hdesired : d.desired = encode p.ref := by
    unfold Decision.desired
    rw [hp]
    rfl
  have hkeep : ∀ a, a ≠ .route → (s'.set ⟨d.id, .route, d.desired⟩).attrs p.ref.target_config a =
      s'.attrs p.ref.target_config a := fun a ha => s'.set_attrs_of_name _ ha
  refine ⟨c, hconfigs ▸ hc, hid, p.ref, ?_⟩
  exact {
    route := by rw [hid, s'.set_attrs_same, hdesired]
    valid := hvalid
    config := by rw [href, hid]
    service := by rw [href, hdep]
    single := by rw [State.set_configs, hconfigs, hdep, hsingle]
    active := by
      rw [hdep]
      unfold State.isActive
      rw [State.set_deployments, hdeployments]
      exact (hactive hmapped).1
    target := by
      refine ⟨t, ?_, by rw [href], fun hl => ?_⟩
      · rw [href]
        exact (target_congr hconfigs hdeployments _).trans ht
      · unfold Alone
        rw [State.set_configs, hconfigs]
        exact hok hl t ht
    bounded := by
      rw [href] at hbound ⊢
      exact hbound
    backup := (hkeep _ (by decide)).trans hb
    metadata := (hkeep _ (by decide)).trans hm
    persona := (hkeep _ (by decide)).trans hpersona }

omit h' hconfigs hdeployments hclosed

/-- Every prefix of the writes of a call keeps the invariant, and after all of them the target of the old
profile has its original. -/
theorem safe_writes (hgone : removing → ∀ c ∈ s.configs, c.id ≠ d.id)
    (hok : L → ∀ t, target s d.mapped = some t → Alone s t) :
    Safe (Inv P s0 L) s (d.writes P removing) ∧ ∀ t, d.oldProfile ≠ d.mapped →
      target s d.oldProfile = some t →
      (s.apply (d.writes P removing)).value t.id .persona = original s0 t.id := by
  by_cases hsame : s.value d.id .route ≠ [] ∧ s.value d.id .route = d.desired
  · obtain ⟨hw, hold⟩ := writes_eq_nil h hd hgone hsame.1 hsame.2
    rw [hw]
    exact ⟨safe_nil h, fun t hne => absurd hold hne⟩
  obtain ⟨hsafe1, hclosed1, hcur1⟩ := safe_revoke h hd hgone fun hv e => hsame ⟨hv, e⟩
  unfold Decision.writes
  generalize hws1 : (if d.revokes then write d.id .route d.route [] else []) = ws1 at *
  have hframe1 : ∀ c a, a ≠ .route → (s.apply ws1).attrs c a = s.attrs c a := by
    intro c a ha
    apply s.apply_attrs
    intro w hw
    right
    rw [← hws1] at hw
    split_ifs at hw
    · rw [mem_write hw]
      exact ha
    · cases hw
  obtain ⟨hsafe2, hrest⟩ := safe_restored h hd hsafe1.done hclosed1 hframe1
  generalize hws2 : d.restore.elim [] Restore.writes = ws2 at *
  generalize hs1 : s.apply ws1 = s1 at *
  have hmem2 : ∀ w ∈ ws2, ∃ r, d.restore = some r ∧ w.config = r.ref.target_config ∧ w.name = .persona := by
    intro w hw
    cases hr : d.restore with
    | none =>
      rw [← hws2, hr] at hw
      cases hw
    | some r =>
      rw [← hws2, hr] at hw
      exact ⟨r, rfl, mem_restore hw⟩
  have hroute2 : (s1.apply ws2).attrs d.id .route = s1.attrs d.id .route := by
    apply s1.apply_attrs
    intro w hw
    obtain ⟨r, -, -, hn⟩ := hmem2 w hw
    exact .inr (by rw [hn]; decide)
  have hframe2 : ∀ p, d.project = some p → ∀ a, a ≠ .route →
      (s1.apply ws2).attrs p.ref.target_config a = s.attrs p.ref.target_config a := by
    intro p hp a ha
    rw [s1.apply_attrs, hframe1 _ _ ha]
    intro w hw
    obtain ⟨r, hr, hc, -⟩ := hmem2 w hw
    exact .inl (by rw [hc]; exact (targets_ne h hd hr hp).symm)
  have hclosed2 : (s1.apply ws2).value d.id .route = [] := by
    rw [State.value, hroute2]
    exact hclosed1
  have hconfigs : (s1.apply ws2).configs = s.configs := by
    rw [State.apply_configs, ← hs1, State.apply_configs]
  have hdeployments : (s1.apply ws2).deployments = s.deployments := by
    rw [State.apply_deployments, ← hs1, State.apply_deployments]
  obtain ⟨hsafe3, hstands⟩ := safe_projected h hd hsafe2.done hconfigs hclosed2 hframe2
  generalize hws3 : d.project.elim [] (Project.writes P) = ws3 at *
  generalize hs2 : s1.apply ws2 = s2 at *
  have hmem3 : ∀ w ∈ ws3, ∃ p, d.project = some p ∧ w.config = p.ref.target_config ∧ w.name ≠ .route := by
    intro w hw
    cases hp : d.project with
    | none =>
      rw [← hws3, hp] at hw
      cases hw
    | some p =>
      rw [← hws3, hp] at hw
      exact ⟨p, rfl, mem_project hw⟩
  have hroute3 : (s2.apply ws3).attrs d.id .route = s1.attrs d.id .route := by
    rw [s2.apply_attrs, hroute2]
    intro w hw
    obtain ⟨p, -, -, hn⟩ := hmem3 w hw
    exact .inr (Ne.symm hn)
  have hrest3 : ∀ r, d.restore = some r →
      (s2.apply ws3).value r.ref.target_config .persona = original s0 r.ref.target_config := by
    intro r hr
    rw [State.value, s2.apply_attrs]
    · exact hrest r hr
    intro w hw
    obtain ⟨p, hp, hc, -⟩ := hmem3 w hw
    exact .inl (by rw [hc]; exact targets_ne h hd hr hp)
  generalize hws4 : (if removing then []
    else write d.id .route (if d.revokes then some [] else d.route) d.desired) = ws4 at *
  have hsafe4 : Safe (Inv P s0 L) (s2.apply ws3) ws4 := by
    rw [← hws4]
    cases hrem : removing with
    | true => exact safe_nil hsafe3.done
    | false =>
      apply safe_write ((hcur1 hrem).trans hroute3.symm) hsafe3.done
      apply inv_commit h hd hsafe3.done _ _ hrem hok hstands
      · rw [State.apply_configs, hconfigs]
      · rw [State.apply_deployments, hdeployments]
  constructor
  · apply safe_append hsafe1
    rw [hs1]
    apply safe_append hsafe2
    rw [hs2]
    exact safe_append hsafe3 hsafe4
  · intro t hne ht
    obtain ⟨r, hr⟩ := restore_isSome hd hne ht
    obtain ⟨t', ht', href, -⟩ := restorePlan_spec h.stage (restore_of hd hr).2
    obtain rfl : t' = t := Option.some.inj (ht'.symm.trans ht)
    have hpersona := hrest3 r hr
    rw [href] at hpersona
    rw [State.apply_append, hs1, State.apply_append, hs2, State.apply_append, State.value, State.apply_attrs]
    · exact hpersona
    intro w hw
    rw [← hws4] at hw
    cases hrem : removing with
    | true =>
      rw [hrem] at hw
      cases hw
    | false =>
      rw [hrem] at hw
      rw [mem_write hw]
      exact .inr fun e => by cases e

end Call

/-! ## Runs -/

/-- A call for a removed source comes after the deletion of its config, as the rule of the deletion makes it. -/
def Deleted (s : State) : Event → Prop
  | .sync _ _ removing sourceConfig _ => ¬(removing && s.configs.any (·.id = sourceConfig))
  | _ => True

/-- The assistant of the target that a call maps its service to has no other config. -/
def Admitted (s : State) : Event → Prop
  | .sync service _ removing _ _ => removing = false → s.isActive service .voice →
    ∀ c ∈ s.configs, c.deployment = service → ∀ t ∈ s.configs, t.context_profile = s.mapped c.id →
      s.isActive t.deployment .nava → Alone s t
  | _ => True

section Conditions

variable {service previous sourceConfig : String} {removing : Bool} {d : Decision}
  (hd : decision P s service previous removing sourceConfig = some d)
include hd

theorem gone_of_deleted (hguard : ¬(removing && s.configs.any (·.id = sourceConfig)) = true) :
    removing → ∀ c ∈ s.configs, c.id ≠ d.id := by
  rintro rfl c hc e
  obtain ⟨hsource, -⟩ := decision_spec hd
  unfold sourceOf at hsource
  rw [if_pos rfl] at hsource
  split_ifs at hsource
  have hid : sourceConfig = d.id := (Prod.mk.inj (Option.some.inj hsource)).1
  rw [Bool.true_and] at hguard
  exact hguard (List.any_eq_true.2 ⟨c, hc, decide_eq_true (e.trans hid.symm)⟩)

theorem alone_of_admitted {stop : ℕ} (hok : L → Admitted s (.sync service previous removing sourceConfig stop)) :
    L → ∀ t, target s d.mapped = some t → Alone s t := by
  intro hl t ht
  obtain ⟨hmem, hprofile, hactive, -, hguid, -⟩ := target_mem ht
  have hmapped : d.mapped ≠ "" := by
    intro e
    rw [e] at hguid
    exact absurd hguid (by decide)
  obtain ⟨hsource, -⟩ := decision_spec hd
  cases hrem : removing with
  | true =>
    rw [hrem] at hsource
    unfold sourceOf at hsource
    rw [if_pos rfl] at hsource
    split_ifs at hsource
    exact absurd (Prod.mk.inj (Option.some.inj hsource)).2.symm hmapped
  | false =>
    rw [hrem] at hsource
    obtain ⟨c, hc, -, hdep, -, hvoice⟩ := source_spec hsource
    obtain ⟨hvoice, hprof⟩ := hvoice hmapped
    exact hok hl hrem hvoice c hc hdep t hmem (hprofile.trans hprof) hactive

end Conditions

theorem filter_remove {l : List Config} {p : Config → Bool} {c : Config} {id : String} (hp : l.filter p = [c])
    (hc : c.id ≠ id) : (l.filter (·.id ≠ id)).filter p = [c] := by
  rw [List.filter_comm, hp, List.filter_cons_of_pos (by simpa using hc), List.filter_nil]

/-- A target outlives the deletion of a source, whose assistant is of the other kind. -/
theorem target_remove (h : Inv P s0 L s) {x t : Config} {profile : String} (hx : x ∈ s.configs)
    (hkind : s.isKind x.deployment .voice) (ht : target s profile = some t) :
    t.id ≠ x.id ∧ ∀ attrs, target { s with configs := s.configs.filter (·.id ≠ x.id), attrs := attrs } profile =
      some t := by
  obtain ⟨hmem, -, hactive, hfilter, hguid, hdguid⟩ := target_mem ht
  have htx : t.id ≠ x.id := by
    intro e
    obtain rfl := config_eq_of_id h.nodup hmem hx e
    unfold State.isActive at hactive
    unfold State.isKind at hkind
    cases hfind : s.deployments.find? (·.id = t.deployment) with
    | none =>
      rw [hfind] at hkind
      cases hkind
    | some =>
      rw [hfind] at hkind hactive
      simp only [any_some, Bool.and_eq_true, decide_eq_true_eq] at hkind hactive
      rw [hkind] at hactive
      cases hactive.1
  refine ⟨htx, fun attrs => ?_⟩
  unfold target
  rw [if_pos hguid]
  generalize hl : List.filter _ _ = l
  obtain rfl : l = [t] := hl.symm.trans (filter_remove hfilter htx)
  exact if_pos hdguid

/-- An open route of another service outlives the deletion of a config. -/
theorem Open.remove (h : Inv P s0 L s) {x : Config} (hx : x ∈ s.configs) (hkind : s.isKind x.deployment .voice)
    {c : Config} {r : Reference} (hopen : Open P s0 L s c r) (hc : c.id ≠ x.id) :
    Open P s0 L { s with
      configs := s.configs.filter (·.id ≠ x.id)
      attrs := fun d a => if d = x.id then none else s.attrs d a } c r := by
  obtain ⟨t, ht, htr, halone⟩ := hopen.target
  obtain ⟨htx, htarget⟩ := target_remove h hx hkind ht
  have hat : ∀ a, (if r.target_config = x.id then none else s.attrs r.target_config a) =
      s.attrs r.target_config a := by
    intro a
    rw [if_neg (htr ▸ htx)]
  exact { hopen with
    route := (if_neg hc).trans hopen.route
    single := filter_remove hopen.single hc
    target := ⟨t, htarget _, htr, fun hl u hu => halone hl u (List.mem_filter.1 hu).1⟩
    backup := (hat _).trans hopen.backup
    metadata := (hat _).trans hopen.metadata
    persona := (hat _).trans hopen.persona }

theorem inv_remove (h : Inv P s0 L s) (config : String) : Inv P s0 L (s.remove config) := by
  unfold State.remove
  split_ifs with hany
  · obtain ⟨x, hx, hp⟩ := List.any_eq_true.1 hany
    rw [Bool.and_eq_true, decide_eq_true_eq] at hp
    obtain ⟨rfl, hkind⟩ := hp
    exact {
      nodup := h.nodup.sublist (List.filter_sublist.map _)
      stage := by
        intro c hc
        obtain ⟨hmem, hne⟩ := List.mem_filter.1 hc
        exact (h.stage c hmem).congr fun a _ => if_neg (by simpa using hne)
      opened := by
        intro c hc
        by_cases e : c = x.id
        · refine absurd ?_ hc
          unfold State.value
          dsimp only
          rw [if_pos e]
          rfl
        · have hv : s.value c .route ≠ [] := by
            unfold State.value at hc ⊢
            dsimp only at hc
            rwa [if_neg e] at hc
          obtain ⟨d, hd, rfl, r, hopen⟩ := h.opened c hv
          exact ⟨d, List.mem_filter.2 ⟨hd, by simpa using e⟩, rfl, r, hopen.remove h hx hkind e⟩ }
  · exact h

/-- What a step preserves. -/
theorem inv_step (h : Inv P s0 L s) (e : Event) (hgone : Deleted s e) (hok : L → Admitted s e) :
    Inv P s0 L (step P s e) := by
  cases e with
  | map =>
    exact {
      nodup := h.nodup
      stage := fun c hc => (h.stage c hc).congr fun _ _ => rfl
      opened := fun c hc => by
        obtain ⟨d, hd, hid, r, hopen⟩ := h.opened c hc
        exact ⟨d, hd, hid, r, { hopen with }⟩ }
  | remove config => exact inv_remove h config
  | sync service previous removing sourceConfig stop =>
    unfold step
    dsimp only
    split
    · rename_i d hd
      exact (safe_writes h hd (gone_of_deleted hd hgone) (alone_of_admitted hd hok)).1 stop
    · exact h

end StrixAlloy.PersonaRoute

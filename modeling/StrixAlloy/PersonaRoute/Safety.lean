import StrixAlloy.Lib.Runs
import StrixAlloy.PersonaRoute.Stages

/-!
# No write authorises a stale persona

The invariant of the records: every target is in one of its stages, and where the route of a config is not
empty, its reference stands complete at its target (`Inv`). Every write of `syncService` keeps it, also when
the call stops right after (`safe_writes`): the route is revoked before its targets are touched, and set when
nothing is missing.
-/

namespace StrixAlloy.PersonaRoute

open Runs

/-! ## Writes that may stop -/

/-- Whatever is left out at the end of the writes, the state is good. -/
def Safe (Q : State → Prop) (s : State) (ws : List Write) : Prop := ∀ n, Q (s.apply (ws.take n))

section Safe

variable {Q : State → Prop} {s : State}

theorem Safe.done {ws : List Write} (h : Safe Q s ws) : Q (s.apply ws) := by
  have := h ws.length
  rwa [List.take_length] at this

theorem safe_nil (h : Q s) : Safe Q s [] := by
  intro n
  rw [List.take_nil]
  exact h

theorem safe_append {ws vs : List Write} (h : Safe Q s ws) (h' : Safe Q (s.apply ws) vs) :
    Safe Q s (ws ++ vs) := by
  intro n
  rw [List.take_append]
  by_cases hn : n ≤ ws.length
  · rw [Nat.sub_eq_zero_of_le hn, List.take_zero, List.append_nil]
    exact h n
  · rw [List.take_of_length_le (Nat.le_of_not_le hn), State.apply_append]
    exact h' _

theorem safe_write {c : String} {a : Attribute} {cur : Option Text} {v : Text} (hcur : cur = s.attrs c a)
    (h : Q s) (h' : Q (s.set ⟨c, a, v⟩)) : Safe Q s (write c a cur v) := by
  subst hcur
  intro n
  unfold write
  split_ifs
  · rw [List.take_nil]
    exact h
  · cases n with
    | zero => exact h
    | succ =>
      rw [List.take_succ_cons, List.take_nil]
      exact h'

end Safe

/-! ## The invariant -/

/-- The persona of a target before anything was projected onto it. -/
def original (s0 : State) (t : String) : Text := s0.value t .persona

/-- Records onto which nothing was projected yet. -/
structure Start (s : State) : Prop where
  nodup : (s.configs.map Config.id).Nodup
  clean : ∀ c a, a ≠ .persona → s.attrs c a = none

/-- The assistant of a target has no other config. -/
def Alone (s : State) (t : Config) : Prop := ∀ u ∈ s.configs, u.deployment = t.deployment → u = t

section Invariant

variable (P : Platform) (s0 : State) (L : Prop)

/-- What stands where the route of a config is open. `L` says whether the condition on targets was met. -/
structure Open (s : State) (c : Config) (r : Reference) : Prop where
  route : s.attrs c.id .route = some (encode r)
  valid : r.valid
  config : r.source_config = c.id
  service : r.service_id = c.deployment
  single : s.configs.filter (·.deployment = c.deployment) = [c]
  active : s.isActive c.deployment .voice
  target : ∃ t, target s r.context_profile = some t ∧ t.id = r.target_config ∧ (L → Alone s t)
  bounded : Fits P r (original s0 r.target_config)
  backup : s.attrs r.target_config .backup = some (original s0 r.target_config)
  metadata : s.attrs r.target_config .metadata = some (metadataText P r (original s0 r.target_config))
  persona : s.attrs r.target_config .persona = some (encode r)

structure Inv (s : State) : Prop where
  nodup : (s.configs.map Config.id).Nodup
  stage : ∀ c ∈ s.configs, Stage P s c.id (original s0 c.id)
  opened : ∀ c, s.value c .route ≠ [] → ∃ d ∈ s.configs, d.id = c ∧ ∃ r, Open P s0 L s d r

variable {P s0 L} {s : State}

theorem inv_start (h : Start s0) : Inv P s0 L s0 where
  nodup := h.nodup
  stage c _ := .untouched (h.clean _ _ (by decide)) (h.clean _ _ (by decide)) rfl
  opened c hc := by
    rw [State.value, h.clean _ _ (by decide)] at hc
    exact absurd rfl hc

theorem Open.value_ne {c : Config} {r : Reference} (h : Open P s0 L s c r) : s.value c.id .route ≠ [] := by
  rw [State.value_eq h.route, encode_eq]
  exact List.cons_ne_nil _ _

/-- A write elsewhere leaves a route open. -/
theorem Open.set {c : Config} {r : Reference} (h : Open P s0 L s c r) {w : Write}
    (hroute : w.name = .route → c.id ≠ w.config) (htarget : w.name ≠ .route → r.target_config ≠ w.config) :
    Open P s0 L (s.set w) c r := by
  have hat : ∀ a, a ≠ .route → (s.set w).attrs r.target_config a = s.attrs r.target_config a := by
    intro a ha
    by_cases hw : w.name = .route
    · exact s.set_attrs_of_name w (hw ▸ ha)
    · exact s.set_attrs_of_config w (htarget hw)
  have hr : (s.set w).attrs c.id .route = s.attrs c.id .route := by
    by_cases hw : w.name = .route
    · exact s.set_attrs_of_config w (hroute hw)
    · exact s.set_attrs_of_name w (Ne.symm hw)
  exact { h with
    route := hr.trans h.route
    backup := (hat _ (by decide)).trans h.backup
    metadata := (hat _ (by decide)).trans h.metadata
    persona := (hat _ (by decide)).trans h.persona }

theorem config_eq_of_id (h : (s.configs.map Config.id).Nodup) {c d : Config} (hc : c ∈ s.configs)
    (hd : d ∈ s.configs) (e : c.id = d.id) : c = d :=
  List.inj_on_of_nodup_map h hc hd e

namespace Inv

variable (h : Inv P s0 L s)
include h

/-- A write of a route. -/
theorem set_route {c : String} {v : Text}
    (hv : v ≠ [] → ∃ d ∈ s.configs, d.id = c ∧ ∃ r, Open P s0 L (s.set ⟨c, .route, v⟩) d r) :
    Inv P s0 L (s.set ⟨c, .route, v⟩) where
  nodup := h.nodup
  stage d hd := (h.stage d hd).congr fun a ha => s.set_attrs_of_name _ ha
  opened d hd := by
    by_cases e : d = c
    · subst e
      rw [State.value_eq (s.set_attrs_same d .route v)] at hd
      exact hv hd
    · have hd' : s.value d .route ≠ [] := by
        rwa [State.value, s.set_attrs_of_config _ e] at hd
      obtain ⟨f, hf, rfl, r, hopen⟩ := h.opened d hd'
      exact ⟨f, hf, rfl, r, hopen.set (fun _ => e) fun hn => absurd rfl hn⟩

/-- A write at a target onto which no open route refers. -/
theorem set_target {t : Config} {a : Attribute} {v : Text} (ha : a ≠ .route)
    (hclosed : ∀ c r, Open P s0 L s c r → r.target_config ≠ t.id)
    (hst : Stage P (s.set ⟨t.id, a, v⟩) t.id (original s0 t.id)) : Inv P s0 L (s.set ⟨t.id, a, v⟩) where
  nodup := h.nodup
  stage c hc := by
    by_cases e : c.id = t.id
    · rw [e]
      exact hst
    · exact (h.stage c hc).congr fun _ _ => s.set_attrs_of_config _ e
  opened c hc := by
    rw [State.value, s.set_attrs_of_name _ (Ne.symm ha)] at hc
    obtain ⟨d, hd, rfl, r, hopen⟩ := h.opened c hc
    exact ⟨d, hd, rfl, r, hopen.set (fun e => absurd e ha) fun _ => hclosed d r hopen⟩

omit h in
/-- While the route of the owner is empty, no open route refers to its target. -/
theorem closed {t : String} {ref : Reference} (hroute : s.value ref.source_config .route = [])
    (hm : s.attrs t .metadata = none ∨ s.attrs t .metadata = some (metadataText P ref (original s0 t))) :
    ∀ c r, Open P s0 L s c r → r.target_config ≠ t := by
  rintro c r hopen rfl
  rcases hm with hm | hm
  · rw [hopen.metadata] at hm
    cases hm
  · rw [hopen.metadata, Option.some.injEq] at hm
    have hok : metadataOk P ref (original s0 r.target_config)
        (metadataText P r (original s0 r.target_config)) := by
      rw [hm]
      exact metadataOk_text.2 rfl
    obtain rfl := metadataOk_text.1 hok
    rw [hopen.config] at hroute
    exact hopen.value_ne hroute

/-- The original returns to a target whose owner has no route. -/
theorem safe_restore {t : Config} {r : Restore} (ht : r.ref.target_config = t.id) (hvalid : r.ref.valid)
    (hroute : s.value r.ref.source_config .route = []) (hp : r.persona = s.attrs t.id .persona)
    (ho : r.original = original s0 t.id) (hbound : Fits P r.ref (original s0 t.id))
    (hb : s.attrs t.id .backup = some (original s0 t.id))
    (hm : s.attrs t.id .metadata = some (metadataText P r.ref (original s0 t.id))) :
    Safe (Inv P s0 L) s r.writes ∧ s.apply r.writes = s.set ⟨t.id, .persona, original s0 t.id⟩ := by
  unfold Restore.writes
  rw [ht, ho, hp]
  refine ⟨safe_write rfl h ?_, s.apply_write _ _ _⟩
  apply h.set_target (by decide) (closed hroute (.inr hm))
  refine .projected r.ref hvalid ht hbound ?_ ?_ (.inl (State.value_eq (s.set_attrs_same _ _ _)))
  · rw [s.set_attrs_of_name _ (by simp), hb]
  · rw [s.set_attrs_of_name _ (by simp), hm]

/-- A target is projected while its owner has no route: first its original is saved, then the metadata, and
its persona is written last. -/
theorem safe_project {t : Config} (htmem : t ∈ s.configs) {p : Project} (ht : p.ref.target_config = t.id)
    (hvalid : p.ref.valid) (hroute : s.value p.ref.source_config .route = [])
    (hp : p.persona = s.attrs t.id .persona) (hb : p.backup = s.attrs t.id .backup)
    (hm : p.metadata = s.attrs t.id .metadata) (ho : p.original = original s0 t.id)
    (hbound : Fits P p.ref (original s0 t.id))
    (hstands : (p.backup = none ∧ p.metadata = none) ∨ (p.backup = some (original s0 t.id) ∧
      p.metadata = some (metadataText P p.ref (original s0 t.id)))) :
    Safe (Inv P s0 L) s (p.writes P) ∧
      (s.apply (p.writes P)).attrs t.id .backup = some (original s0 t.id) ∧
      (s.apply (p.writes P)).attrs t.id .metadata = some (metadataText P p.ref (original s0 t.id)) ∧
      (s.apply (p.writes P)).attrs t.id .persona = some (encode p.ref) := by
  unfold Project.writes
  rw [ht, ho]
  -- after the first write, and after the second
  let s1 := s.set ⟨t.id, .backup, original s0 t.id⟩
  let s2 := s1.set ⟨t.id, .metadata, metadataText P p.ref (original s0 t.id)⟩
  have hm1 : s1.attrs t.id .metadata = s.attrs t.id .metadata := s.set_attrs_of_name _ (by simp)
  have hp2 : s2.attrs t.id .persona = s.attrs t.id .persona := by
    calc s2.attrs t.id .persona = s1.attrs t.id .persona := s1.set_attrs_of_name _ (by simp)
      _ = s.attrs t.id .persona := s.set_attrs_of_name _ (by simp)
  have hroute1 : s1.value p.ref.source_config .route = [] := by
    rwa [State.value, s.set_attrs_of_name _ (by simp)]
  have hroute2 : s2.value p.ref.source_config .route = [] := by
    rwa [State.value, s1.set_attrs_of_name _ (by simp)]
  have hb2 : s2.attrs t.id .backup = some (original s0 t.id) := by
    rw [s1.set_attrs_of_name _ (by simp)]
    exact s.set_attrs_same _ _ _
  have hm2 : s2.attrs t.id .metadata = some (metadataText P p.ref (original s0 t.id)) :=
    s1.set_attrs_same _ _ _
  have h12 : Inv P s0 L s1 ∧ Inv P s0 L s2 := by
    rcases hstands with ⟨hnb, hnm⟩ | ⟨hsb, hsm⟩
    · rw [hb] at hnb
      rw [hm] at hnm
      have hv : s.value t.id .persona = original s0 t.id := by
        cases h.stage t htmem with
        | untouched _ _ persona => exact persona
        | saved backup =>
          rw [hnb] at backup
          cases backup
        | projected _ _ _ _ backup =>
          rw [hnb] at backup
          cases backup
      have h1 : Inv P s0 L s1 := by
        apply h.set_target (by decide) (closed hroute (.inl hnm))
        refine .saved (s.set_attrs_same _ _ _) (hm1.trans hnm) ?_
        rwa [State.value, s.set_attrs_of_name _ (by simp)]
      refine ⟨h1, h1.set_target (by decide) (closed hroute1 (.inl (hm1.trans hnm))) ?_⟩
      refine .projected p.ref hvalid ht hbound hb2 hm2 (.inl ?_)
      rwa [State.value, hp2]
    · -- both stand already
      rw [hb] at hsb
      rw [hm] at hsm
      have e1 : s1 = s := State.set_eq_self hsb
      have e2 : s2 = s1 := State.set_eq_self (hm1.trans hsm)
      rw [e2, e1]
      exact ⟨h, h⟩
  have hb3 : (s2.set ⟨t.id, .persona, encode p.ref⟩).attrs t.id .backup = some (original s0 t.id) := by
    rw [s2.set_attrs_of_name _ (by simp), hb2]
  have hm3 : (s2.set ⟨t.id, .persona, encode p.ref⟩).attrs t.id .metadata =
      some (metadataText P p.ref (original s0 t.id)) := by
    rw [s2.set_attrs_of_name _ (by simp), hm2]
  have h3 : Inv P s0 L (s2.set ⟨t.id, .persona, encode p.ref⟩) := by
    apply h12.2.set_target (by decide) (closed hroute2 (.inr hm2))
    exact .projected p.ref hvalid ht hbound hb3 hm3 (.inr (s2.set_attrs_same _ _ _))
  have a1 : s.apply (write t.id .backup p.backup (original s0 t.id)) = s1 := by
    rw [hb]
    exact s.apply_write _ _ _
  have a2 : s1.apply (write t.id .metadata p.metadata (metadataText P p.ref (original s0 t.id))) = s2 := by
    rw [hm, ← hm1]
    exact s1.apply_write _ _ _
  have a3 : s2.apply (write t.id .persona p.persona (encode p.ref)) =
      s2.set ⟨t.id, .persona, encode p.ref⟩ := by
    rw [hp, ← hp2]
    exact s2.apply_write _ _ _
  constructor
  · apply safe_append (safe_write hb h h12.1)
    rw [a1]
    apply safe_append (safe_write (hm.trans hm1.symm) h12.1 h12.2)
    rw [a2]
    exact safe_write (hp.trans hp2.symm) h12.2 h3
  · rw [State.apply_append, a1, State.apply_append, a2, a3]
    exact ⟨hb3, hm3, s2.set_attrs_same _ _ _⟩

end Inv

end Invariant

end StrixAlloy.PersonaRoute

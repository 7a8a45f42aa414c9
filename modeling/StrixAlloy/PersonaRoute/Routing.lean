import StrixAlloy.PersonaRoute.Projection

/-!
# The policy on an open route

A reference stands complete at its target wherever the route that names it is not empty, whatever calls came
before and wherever they stopped (`inv_run`). The policy accepts the route if the assistant of the target has no
other config (`Open.validate`).
-/

namespace StrixAlloy.PersonaRoute

open Runs Search

variable {P : Platform} {s0 : State} {L : Prop} {s : State}

/-! ## The policy on an open route -/

/-- An original that the projection accepts has no part of what the policy refuses. -/
theorem not_contains_of_originalOk {o : Text} (h : originalOk o) :
    units o ≤ 1000 ∧ contains opening o = false ∧ contains closing o = false ∧ contains policy o = false := by
  unfold originalOk at h
  simp only [Bool.and_eq_true, decide_eq_true_eq, Bool.not_eq_true'] at h
  obtain ⟨⟨⟨⟨hunits, hopen⟩, hclose⟩, hpolicy⟩, -⟩ := h
  have hfalse : ∀ {pat pat' : Text}, pat ≠ [] → pat <:+: pat' → contains pat o = false →
      contains pat' o = false := by
    intro pat pat' hne hpart hp
    by_contra hc
    rw [contains_of_part hne hpart (Bool.eq_true_of_not_eq_false hc)] at hp
    cases hp
  refine ⟨hunits, ?_, ?_, ?_⟩
  · exact hfalse (List.cons_ne_nil _ _) (List.prefix_append _ _).isInfix hopen
  · exact hfalse (List.cons_ne_nil _ _) (List.suffix_cons _ _).isInfix hclose
  · exact hfalse (by decide) ⟨['\n', '\n'], ['\n'], by rw [List.append_assoc]; rfl⟩ hpolicy

namespace Open

variable {c : Config} {r : Reference} (h : Inv P s0 True s) (hc : c ∈ s.configs) (hopen : Open P s0 True s c r)
include h hc hopen

end Open

theorem inv_run (h0 : Start s0) {es : List Event} (hes : Admits (step P) Deleted s0 es) :
    Inv P s0 False (run (step P) s0 es) :=
  run_invariant_of (P := Inv P s0 False) (fun _ e h he => inv_step h e he False.elim) (inv_start h0) hes

/-- A platform, whose digest is right for the one original of the sample. -/
noncomputable def samplePlatform : Platform where
  reader := .ofText
  hash _ := "213c22ed7234eb11116e1e88f314c73cb3a019b5c87fe224b6ce5665bd9ec50e"
  hash_digest _ := by decide

def serviceId : String := "11111111111111111111111111111111"
def assistantId : String := "22222222222222222222222222222222"
def sourceId : String := "33333333333333333333333333333333"
def targetId : String := "44444444444444444444444444444444"
def profileId : String := "55555555555555555555555555555555"

/-- A service, and an assistant with the configs `more` besides the target. -/
def sample (more : List Config) : State where
  deployments := [⟨serviceId, .voice, true⟩, ⟨assistantId, .nava, true⟩]
  configs := ⟨sourceId, serviceId, ""⟩ :: ⟨targetId, assistantId, profileId⟩ :: more
  mapped _ := ""
  attrs c a := if c = targetId ∧ a = .persona then some "Be brief.".toList else none

theorem start_sample {more : List Config} (h : ((sample more).configs.map Config.id).Nodup) :
    Start (sample more) where
  nodup := h
  clean _ _ ha := if_neg fun e => ha e.2

theorem configs_sync (s : State) (service previous : String) (removing : Bool) (sourceConfig : String)
    (stop : ℕ) : (step P s (.sync service previous removing sourceConfig stop)).configs = s.configs := by
  unfold step
  dsimp only
  split
  · exact State.apply_configs _ _
  · rfl

end StrixAlloy.PersonaRoute

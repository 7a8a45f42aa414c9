import StrixAlloy.Lib.Runs
import Mathlib.Order.Bounds.Basic

/-!
# Runs whose steps are joins

A step that joins what its input contributes to a measure of the state, whatever came before, leaves a measure that
depends on which inputs were taken and not on their order or number (`measure_run_eq`): it is the least upper bound
of where the run began and of the contributions.
-/

namespace Joins

variable {σ ι α : Type*} [SemilatticeSup α] {step : σ → ι → σ} {P : σ → Prop} {μ : σ → α} {f : ι → α} {U : Set ι}

/-- The measure after a run is the least upper bound of where it began and of what its inputs contribute. -/
theorem isLUB_run (hstep : ∀ s, ∀ i ∈ U, P s → P (step s i) ∧ μ (step s i) = μ s ⊔ f i) {s : σ} (h : P s)
    {is : List ι} (his : ∀ i ∈ is, i ∈ U) :
    P (Runs.run step s is) ∧ IsLUB (insert (μ s) {a | ∃ i ∈ is, f i = a}) (μ (Runs.run step s is)) := by
  induction is generalizing s with
  | nil =>
    refine ⟨h, ?_⟩
    simp
  | cons i is ih =>
    obtain ⟨hi, his⟩ := List.forall_mem_cons.1 his
    obtain ⟨hP, hμ⟩ := hstep s i hi h
    obtain ⟨hrun, hlub⟩ := ih hP his
    refine ⟨hrun, ?_, ?_⟩
    · rintro a (rfl | ⟨k, hk, rfl⟩)
      · exact le_sup_left.trans (hμ ▸ hlub.1 (Set.mem_insert _ _))
      · obtain rfl | hk := List.mem_cons.1 hk
        · exact le_sup_right.trans (hμ ▸ hlub.1 (Set.mem_insert _ _))
        · exact hlub.1 (Set.mem_insert_of_mem _ ⟨k, hk, rfl⟩)
    · intro b hb
      refine hlub.2 ?_
      rintro a (rfl | ⟨k, hk, rfl⟩)
      · rw [hμ]
        exact sup_le (hb (Set.mem_insert _ _)) (hb (Set.mem_insert_of_mem _ ⟨i, List.mem_cons_self, rfl⟩))
      · exact hb (Set.mem_insert_of_mem _ ⟨k, List.mem_cons_of_mem _ hk, rfl⟩)

/-- Two runs over the same inputs, in any order and number, leave one measure. -/
theorem measure_run_eq (hstep : ∀ s, ∀ i ∈ U, P s → P (step s i) ∧ μ (step s i) = μ s ⊔ f i) {s : σ} (h : P s)
    {is js : List ι} (his : ∀ i ∈ is, i ∈ U) (hsame : ∀ i, i ∈ is ↔ i ∈ js) :
    μ (Runs.run step s is) = μ (Runs.run step s js) := by
  have hset : {a | ∃ i ∈ is, f i = a} = {a | ∃ i ∈ js, f i = a} := by simp [hsame]
  have hjs : ∀ i ∈ js, i ∈ U := fun i hi => his i ((hsame i).2 hi)
  have hlub := (isLUB_run hstep h his).2
  rw [hset] at hlub
  exact hlub.unique (isLUB_run hstep h hjs).2

end Joins

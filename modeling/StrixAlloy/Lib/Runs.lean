import Mathlib.Data.List.Basic
import Mathlib.Data.List.Induction
import Mathlib.Order.Basic

/-!
# Runs of a transition function

`run step s is` takes the inputs `is` one after another from the state `s`. What one step preserves
a whole run preserves (`run_invariant`), also when the steps meet a condition (`Admits`). What a run
made true was made true by one of its steps (`exists_step`), the entries of a log were added one by one
(`exists_log_step`), and a measure that no step lowers and that ends where it began was raised by none
(`measure_eq_of_eq`).
-/

namespace Runs

open List

variable {σ ι : Type*} (step : σ → ι → σ)

/-- The state after the inputs `is`, taken in order from `s`. -/
def run (s : σ) (is : List ι) : σ := is.foldl step s

@[simp]
theorem run_nil (s : σ) : run step s [] = s := rfl

@[simp]
theorem run_cons (s : σ) (i : ι) (is : List ι) :
    run step s (i :: is) = run step (step s i) is := rfl

/-- A run over two lists of inputs is the second run from the state that the first leaves. -/
theorem run_append (s : σ) (is js : List ι) :
    run step s (is ++ js) = run step (run step s is) js := foldl_append

/-- The last step of a run. -/
theorem run_concat (s : σ) (is : List ι) (i : ι) :
    run step s (is ++ [i]) = step (run step s is) i := by
  rw [run_append]
  rfl

/-- Every step of the run from `s` meets the condition `ok` in the state before it. -/
def Admits (ok : σ → ι → Prop) (s : σ) (is : List ι) : Prop :=
  ∀ pre i post, is = pre ++ i :: post → ok (run step s pre) i

variable {step}

/-- No step breaks the condition of a run without steps. -/
theorem admits_nil {ok : σ → ι → Prop} {s : σ} : Admits step ok s [] := by
  intro pre i post e
  cases pre <;> cases e

/-- The condition of a run is that of its first step and of the rest from there. -/
theorem admits_cons {ok : σ → ι → Prop} {s : σ} {i : ι} {is : List ι} :
    Admits step ok s (i :: is) ↔ ok s i ∧ Admits step ok (step s i) is := by
  constructor
  · intro h
    refine ⟨h [] i is rfl, fun pre j post e => ?_⟩
    exact h (i :: pre) j post (by rw [e, cons_append])
  · rintro ⟨h, hs⟩ pre j post e
    cases pre with
    | nil =>
      obtain ⟨rfl, rfl⟩ := List.cons.inj e
      exact h
    | cons k pre =>
      obtain ⟨rfl, rfl⟩ := List.cons.inj e
      exact hs pre j post rfl

/-- The condition of a run over two lists of inputs is that of the first run, and of the second from
the state that the first leaves. -/
theorem admits_append {ok : σ → ι → Prop} {s : σ} {is js : List ι} :
    Admits step ok s (is ++ js) ↔ Admits step ok s is ∧ Admits step ok (run step s is) js := by
  induction is generalizing s with
  | nil => simp [admits_nil]
  | cons i is ih => rw [cons_append, admits_cons, admits_cons, ih, run_cons, and_assoc]

/-- Whether every step of the run from `s` meets a condition that can be computed. -/
def check (step : σ → ι → σ) (ok : σ → ι → Bool) (s : σ) : List ι → Bool
  | [] => true
  | i :: is => ok s i && check step ok (step s i) is

theorem admits_of_check {ok : σ → ι → Bool} {s : σ} {is : List ι} (h : check step ok s is) :
    Admits step (fun s i => ok s i) s is := by
  induction is generalizing s with
  | nil => exact admits_nil
  | cons i is ih =>
    rw [check, Bool.and_eq_true] at h
    exact admits_cons.2 ⟨h.1, ih h.2⟩

/-- A run of one step again and again. -/
theorem run_replicate {f : ℕ → σ} {i : ι} (h : ∀ n, step (f n) i = f (n + 1)) (n : ℕ) :
    run step (f 0) (List.replicate n i) = f n := by
  induction n with
  | zero => rfl
  | succ n ih => rw [List.replicate_succ', run_concat, ih, h]

/-- What every admitted step preserves, an admitted run preserves. -/
theorem run_invariant_of {G : σ → ι → Prop} {P : σ → Prop}
    (hstep : ∀ s i, P s → G s i → P (step s i)) {s : σ} {is : List ι} (h : P s)
    (hok : Admits step G s is) : P (run step s is) := by
  induction is generalizing s with
  | nil => exact h
  | cons i is ih =>
    obtain ⟨hi, his⟩ := admits_cons.1 hok
    exact ih (hstep s i h hi) his

/-- What every step preserves, a run preserves. -/
theorem run_invariant {P : σ → Prop} (hstep : ∀ s i, P s → P (step s i)) {s : σ} (is : List ι)
    (h : P s) : P (run step s is) := by
  have hok : Admits step (fun _ _ => True) s is := fun _ _ _ _ => trivial
  exact run_invariant_of (fun s i hs _ => hstep s i hs) h hok

/-- What a run made true, one of its steps made true. -/
theorem exists_step {P : σ → Prop} {s : σ} {is : List ι} (h0 : ¬ P s) (h : P (run step s is)) :
    ∃ pre i post, is = pre ++ i :: post ∧ ¬ P (run step s pre) ∧ P (step (run step s pre) i) := by
  induction is generalizing s with
  | nil => exact absurd h h0
  | cons i is ih =>
    by_cases hi : P (step s i)
    · exact ⟨[], i, is, rfl, h0, hi⟩
    · obtain ⟨pre, j, post, rfl, hpre, hj⟩ := ih hi h
      exact ⟨i :: pre, j, post, rfl, hpre, hj⟩

section Log

variable {β : Type*} {log : σ → List β} {P : σ → Prop} (hstep : ∀ s i, P s → P (step s i))
include hstep

/-- Where every step adds at most one entry to a log, each entry of the log was added by a step, to the
entries before it. -/
theorem exists_log_step
    (hlog : ∀ s i, P s → log (step s i) = log s ∨ ∃ x, log (step s i) = log s ++ [x])
    {s : σ} (h : P s) (h0 : log s = []) {is : List ι} {before after : List β} {x : β}
    (e : log (run step s is) = before ++ x :: after) :
    ∃ pre i post, is = pre ++ i :: post ∧ log (run step s pre) = before ∧
      log (step (run step s pre) i) = before ++ [x] := by
  induction is using List.reverseRecOn generalizing after with
  | nil =>
    rw [run_nil, h0] at e
    exact absurd e.symm (append_ne_nil_of_right_ne_nil _ (cons_ne_nil _ _))
  | append_singleton is i ih =>
    rw [run_concat] at e
    rcases hlog (run step s is) i (run_invariant hstep is h) with hi | ⟨y, hi⟩
    · rw [hi] at e
      obtain ⟨pre, j, post, rfl, hpre, hj⟩ := ih e
      exact ⟨pre, j, post ++ [i], by rw [append_assoc, cons_append], hpre, hj⟩
    · rw [e] at hi
      rcases eq_nil_or_concat after with rfl | ⟨after, z, rfl⟩
      · -- the entry is the last one
        obtain ⟨hlast, hx⟩ := append_inj' hi rfl
        exact ⟨is, i, [], rfl, hlast.symm, e⟩
      · rw [concat_eq_append, ← cons_append, ← append_assoc] at hi
        obtain ⟨hlast, -⟩ := append_inj' hi rfl
        obtain ⟨pre, j, post, rfl, hpre, hj⟩ := ih hlast.symm
        exact ⟨pre, j, post ++ [i], by rw [append_assoc, cons_append], hpre, hj⟩

/-- A run adds to a log what its steps add. -/
theorem log_run {Q : β → Prop}
    (hlog : ∀ s i, P s → log (step s i) = log s ∨ ∃ x, log (step s i) = log s ++ [x] ∧ Q x) {s : σ}
    (h : P s) (is : List ι) : ∃ l, log (run step s is) = log s ++ l ∧ ∀ x ∈ l, Q x := by
  induction is generalizing s with
  | nil => exact ⟨[], (append_nil _).symm, nofun⟩
  | cons i is ih =>
    obtain ⟨l, hl, hq⟩ := ih (hstep s i h)
    rw [run_cons]
    rcases hlog s i h with h' | ⟨x, h', hx⟩
    · exact ⟨l, by rw [hl, h'], hq⟩
    · refine ⟨x :: l, by rw [hl, h', append_assoc, singleton_append], ?_⟩
      exact forall_mem_cons.2 ⟨hx, hq⟩

end Log

section Measure

variable {β : Type*} [PartialOrder β] {P : σ → Prop} {μ : σ → β} (hP : ∀ s i, P s → P (step s i))
  (hμ : ∀ s i, P s → μ s ≤ μ (step s i))
include hP hμ

/-- A measure that no step lowers is not lowered by a run. -/
theorem measure_le {s : σ} (h : P s) (is : List ι) : μ s ≤ μ (run step s is) := by
  induction is generalizing s with
  | nil => exact le_rfl
  | cons i is ih => exact (hμ s i h).trans (ih (hP s i h))

/-- A measure that no step lowers, and that has one value at the two ends of a run, was raised by
no step in between. -/
theorem measure_eq_of_eq {s : σ} (h : P s) {pre post : List ι} {i : ι}
    (e : μ (run step s (pre ++ i :: post)) = μ s) :
    μ (step (run step s pre) i) = μ (run step s pre) := by
  have hpre := run_invariant hP pre h
  have h1 := measure_le hP hμ h pre
  have h2 := hμ _ i hpre
  have h3 := measure_le hP hμ (hP _ i hpre) post
  rw [run_append, run_cons] at e
  exact le_antisymm (h3.trans (e.le.trans h1)) h2

end Measure

end Runs

import Mathlib.Data.List.Forall2

/-!
# Checked computations

A computation that may refuse its input is an `Except`. `require` and `orThrow` are its two checks,
and the lemmas read a successful run backwards: a sequence that succeeded passed every check in it.
-/

namespace Checked

universe u v

variable {ε : Type u} {α β : Type v}

/-- Refuse with `e` unless `p` holds. -/
def require (p : Prop) [Decidable p] (e : ε) : Except ε Unit :=
  if p then .ok () else .error e

/-- The value of `o`, or a refusal with `e` when there is none. -/
def orThrow (o : Option α) (e : ε) : Except ε α :=
  match o with
  | some a => .ok a
  | none => .error e

variable {x : Except ε α}

/-- A sequence succeeds exactly when its first part does and its rest does on that result. -/
@[simp]
theorem bind_eq_ok {f : α → Except ε β} {b : β} : (x >>= f) = .ok b ↔ ∃ a, x = .ok a ∧ f a = .ok b := by
  cases x <;> simp [bind, Except.bind]

/-- A sequence that ends in a value succeeds exactly when its first part does. -/
@[simp]
theorem map_eq_ok {f : α → β} {b : β} : f <$> x = .ok b ↔ ∃ a, x = .ok a ∧ f a = b := by
  cases x <;> simp [Functor.map, Except.map]

/-- The second part of a result. -/
theorem map_snd_eq_ok {x : Except ε (α × β)} {b : β} :
    Prod.snd <$> x = .ok b ↔ ∃ a, x = .ok (a, b) := by
  simp [Prod.exists]

/-- A check that succeeded held. -/
@[simp]
theorem require_eq_ok {p : Prop} [Decidable p] {e : ε} {u : Unit} :
    require p e = .ok u ↔ p := by
  unfold require
  split_ifs with h <;> simp [h]

/-- A lookup that succeeded found its value. -/
@[simp]
theorem orThrow_eq_ok {o : Option α} {e : ε} {a : α} : orThrow o e = .ok a ↔ o = some a := by
  cases o <;> simp [orThrow]

/-- A check before a computation: either the computation runs, or its refusal is that of the check. -/
theorem require_bind {γ : Type} {p : Prop} [Decidable p] {e : ε} {f : Unit → Except ε γ} :
    (require p e >>= f) = if p then f () else .error e := by
  unfold require
  split_ifs <;> rfl

/-- A computation without checks succeeds with its value. -/
@[simp]
theorem pure_eq_ok {a b : α} : (pure a : Except ε α) = .ok b ↔ a = b := by
  simp [pure, Except.pure]

/-- A result that is there is that of a success. -/
theorem ok_of_toOption {a : α} (h : x.toOption = some a) : x = .ok a := by
  cases x with
  | ok => exact congrArg _ (Option.some.inj h)
  | error => cases h

/-- A refusal is no success. -/
@[simp]
theorem throw_eq_ok {e : ε} {a : α} : (throw e : Except ε α) = .ok a ↔ False := by
  simp [throw, throwThe, MonadExceptOf.throw]

/-- A computation under another name for its refusals succeeds as before. -/
@[simp]
theorem mapError_eq_ok {ε' : Type u} {f : ε → ε'} {a : α} : x.mapError f = .ok a ↔ x = .ok a := by
  cases x <;> simp [Except.mapError]

/-! ## Lists -/

/-- A list of which every element is accepted gives one result for each. -/
theorem forall₂_of_mapM {α β : Type} {f : α → Option β} {l : List α} {r : List β} (h : l.mapM f = some r) :
    List.Forall₂ (fun a b => f a = some b) l r := by
  induction l generalizing r with
  | nil =>
    cases h
    exact .nil
  | cons a l ih =>
    rw [List.mapM_cons] at h
    obtain ⟨b, hb, h⟩ := Option.bind_eq_some_iff.1 h
    obtain ⟨bs, hbs, h⟩ := Option.bind_eq_some_iff.1 h
    cases h
    exact .cons hb (ih hbs)

/-! ## Refusals -/

/-- Every refusal of the computation meets `P`. -/
def Refuses (P : ε → Prop) (x : Except ε α) : Prop := ∀ e, x = .error e → P e

variable {P : ε → Prop}

/-- A sequence refuses as its parts do. -/
theorem Refuses.bind {f : α → Except ε β} (hx : Refuses P x) (hf : ∀ a, x = .ok a → Refuses P (f a)) :
    Refuses P (x >>= f) := by
  intro e h
  cases x with
  | ok a => exact hf a rfl e h
  | error e' =>
    obtain rfl := Except.error.inj h
    exact hx e' rfl

/-- A check refuses with its error only. -/
theorem Refuses.require {p : Prop} [Decidable p] {e : ε} (h : P e) : Refuses P (require p e) := by
  intro e' h'
  unfold Checked.require at h'
  split_ifs at h'
  exact Except.error.inj h' ▸ h

/-- A refusal is the one it says. -/
theorem Refuses.throw {e : ε} (h : P e) : Refuses P (throw e : Except ε α) := by
  intro e' h'
  exact Except.error.inj h' ▸ h

end Checked

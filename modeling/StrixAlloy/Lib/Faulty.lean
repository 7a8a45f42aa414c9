import Mathlib.Tactic.Common

/-!
# Programs that may fail or stop at any step

A program here works on a state `σ` in an environment `φ` that it asks, one question after another. It
returns, raises an exception, or is stopped. A stop is final: no handler and no final clause runs after it,
so what holds of every state in which a program can be stopped holds at every point of it. `Ends o s m P`
says that `m`, run from `s` in the environment `o`, ends as `P` demands whatever was asked before; the rules
`Ends.bind`, `Ends.attempt` and `Ends.ensure` follow the program's text.
-/

namespace Faulty

/-- How a program ends. -/
inductive Ending (ε α : Type)
  | returned (a : α)
  | raised (e : ε)
  | stopped
  deriving DecidableEq

/-- A program: from the environment, the number of questions asked so far and the state, how it ends, the
questions asked by then and the state it leaves. -/
def Prog (φ σ ε α : Type) := φ → ℕ → σ → Ending ε α × ℕ × σ

variable {φ σ ε α β : Type}

namespace Prog

/-- Run `m`, and `f` on what it returns. -/
def bind (m : Prog φ σ ε α) (f : α → Prog φ σ ε β) : Prog φ σ ε β := fun o n s =>
  match m o n s with
  | (.returned a, n, s) => f a o n s
  | (.raised e, n, s) => (.raised e, n, s)
  | (.stopped, n, s) => (.stopped, n, s)

instance : Monad (Prog φ σ ε) where
  pure a := fun _ n s => (.returned a, n, s)
  bind := Prog.bind

/-- Raise `e`. -/
def raise (e : ε) : Prog φ σ ε α := fun _ n s => (.raised e, n, s)

/-- The process is gone. -/
def stop : Prog φ σ ε α := fun _ n s => (.stopped, n, s)

/-- The state. -/
def get : Prog φ σ ε σ := fun _ n s => (.returned s, n, s)

/-- Change the state. -/
def modify (f : σ → σ) : Prog φ σ ε Unit := fun _ n s => (.returned (), n, f s)

/-- The environment's next answer. -/
def ask (f : φ → ℕ → β) : Prog φ σ ε β := fun o n s => (.returned (f o n), n + 1, s)

/-- Raise `e` unless `p` holds. -/
def require (p : Prop) [Decidable p] (e : ε) : Prog φ σ ε Unit := if p then pure () else raise e

/-- The value of `v`, or raise `e` when there is none. -/
def orRaise (v : Option α) (e : ε) : Prog φ σ ε α :=
  match v with
  | some a => pure a
  | none => raise e

/-- Run `m`, and the handler `h` on what it raises. -/
def attempt (m : Prog φ σ ε α) (h : ε → Prog φ σ ε α) : Prog φ σ ε α := fun o n s =>
  match m o n s with
  | (.returned a, n, s) => (.returned a, n, s)
  | (.raised e, n, s) => h e o n s
  | (.stopped, n, s) => (.stopped, n, s)

/-- Run `m`, and the final clause `c` after it, whether `m` returns or raises. What `c` raises replaces what
`m` returned or raised. -/
def ensure (m : Prog φ σ ε α) (c : Prog φ σ ε Unit) : Prog φ σ ε α := fun o n s =>
  match m o n s with
  | (.returned a, n, s) => (do c; pure a : Prog φ σ ε α) o n s
  | (.raised e, n, s) => (do c; raise e : Prog φ σ ε α) o n s
  | (.stopped, n, s) => (.stopped, n, s)

end Prog

/-- What the environment does to one step: nothing, the step raises without effect, it takes effect and
raises, or the process is stopped before it. -/
inductive Fault
  | quiet | raises | late | stops

namespace Prog

/-- One step with the effect `f`, which raises `e` where the environment says so. -/
def step (fault : φ → ℕ → Fault) (e : ε) (f : σ → σ) : Prog φ σ ε Unit := do
  match ← ask fault with
  | .quiet => modify f
  | .raises => raise e
  | .late => do
    modify f
    raise e
  | .stops => stop

end Prog

/-- What the environment does to a step that is atomic: it is done, fails without effect, or the process is
stopped before it. -/
inductive Answer
  | done | fails | stops

def Answer.fault : Answer → Fault
  | .done => .quiet
  | .fails => .raises
  | .stops => .stops

/-! ## Endings -/

/-- A demand on the ways a program ends. -/
structure Post (σ ε α : Type) where
  returned : α → σ → Prop
  raised : ε → σ → Prop
  stopped : σ → Prop

/-- The demand of `P` on one ending. -/
def Post.Holds (P : Post σ ε α) : Ending ε α × ℕ × σ → Prop
  | (.returned a, _, s) => P.returned a s
  | (.raised e, _, s) => P.raised e s
  | (.stopped, _, s) => P.stopped s

/-- The same demand on every way to end. -/
def Post.always (I : σ → Prop) : Post σ ε α := ⟨fun _ => I, fun _ => I, I⟩

/-- A program that always returns, in a state as `Q` demands. -/
def Post.returns (Q : α → σ → Prop) : Post σ ε α := ⟨Q, fun _ _ => False, fun _ => False⟩

/-- Run in the environment `o` from `s`, `m` ends as `P` demands. -/
def Ends (o : φ) (s : σ) (m : Prog φ σ ε α) (P : Post σ ε α) : Prop := ∀ n, P.Holds (m o n s)

open Prog

variable {o : φ} {s : σ} {m : Prog φ σ ε α} {f : α → Prog φ σ ε β} {P W : Post σ ε α} {R : Post σ ε β}

/-- A weaker demand is met as well. -/
theorem Ends.mono (h : Ends o s m W) (hr : ∀ a t, W.returned a t → P.returned a t)
    (he : ∀ e t, W.raised e t → P.raised e t) (hs : ∀ t, W.stopped t → P.stopped t) : Ends o s m P := by
  intro n
  have hn := h n
  generalize m o n s = r at hn ⊢
  obtain ⟨a | e | _, k, t⟩ := r
  · exact hr a t hn
  · exact he e t hn
  · exact hs t hn

/-- Two demands that are met are met together. -/
theorem Ends.and (h : Ends o s m P) (h' : Ends o s m W) :
    Ends o s m ⟨fun a t => P.returned a t ∧ W.returned a t, fun e t => P.raised e t ∧ W.raised e t,
      fun t => P.stopped t ∧ W.stopped t⟩ := by
  intro n
  have hn := h n
  have hn' := h' n
  generalize m o n s = r at hn hn' ⊢
  obtain ⟨a | e | _, k, t⟩ := r
  · exact ⟨hn, hn'⟩
  · exact ⟨hn, hn'⟩
  · exact ⟨hn, hn'⟩

theorem Ends.pure {a : α} (h : P.returned a s) : Ends o s (pure a) P := fun _ => h

theorem Ends.raise {e : ε} (h : P.raised e s) : Ends o s (raise e) P := fun _ => h

theorem Ends.stop (h : P.stopped s) : Ends o s stop P := fun _ => h

theorem Ends.get {P : Post σ ε σ} (h : P.returned s s) : Ends o s get P := fun _ => h

theorem Ends.modify {g : σ → σ} {P : Post σ ε Unit} (h : P.returned () (g s)) : Ends o s (modify g) P :=
  fun _ => h

/-- An answer may be any that the environment can give. -/
theorem Ends.ask {g : φ → ℕ → α} (h : ∀ n, P.returned (g o n) s) : Ends o s (ask g) P := fun n => h n

/-- A sequence ends as its second part does from where the first returns, or as the first does. -/
theorem Ends.bind (h : Ends o s m ⟨fun a t => Ends o t (f a) R, R.raised, R.stopped⟩) :
    Ends o s (m >>= f) R := by
  intro n
  have hn := h n
  show R.Holds (Prog.bind m f o n s)
  unfold Prog.bind
  generalize m o n s = r at hn ⊢
  obtain ⟨a | e | _, k, t⟩ := r
  · exact hn k
  · exact hn
  · exact hn

/-- A sequence, from what is known of its first part. -/
theorem Ends.seq (h : Ends o s m P) (hk : ∀ a t, P.returned a t → Ends o t (f a) R)
    (he : ∀ e t, P.raised e t → R.raised e t) (hs : ∀ t, P.stopped t → R.stopped t) :
    Ends o s (m >>= f) R :=
  Ends.bind (h.mono hk he hs)

/-- A check that fails raises, and one that holds may be used after it. -/
theorem Ends.require {p : Prop} [Decidable p] {e : ε} {P : Post σ ε Unit} (ht : p → P.returned () s)
    (hf : ¬ p → P.raised e s) : Ends o s (require p e) P := by
  unfold Prog.require
  split_ifs with hp
  · exact Ends.pure (ht hp)
  · exact Ends.raise (hf hp)

/-- A missing value raises. -/
theorem Ends.orRaise {v : Option α} {e : ε} (hv : ∀ a, v = some a → P.returned a s)
    (hn : v = none → P.raised e s) : Ends o s (orRaise v e) P := by
  cases v with
  | some a => exact Ends.pure (hv a rfl)
  | none => exact Ends.raise (hn rfl)

/-- A handler starts where the exception was raised. -/
theorem Ends.attempt {h : ε → Prog φ σ ε α}
    (hm : Ends o s m ⟨P.returned, fun e t => Ends o t (h e) P, P.stopped⟩) : Ends o s (attempt m h) P := by
  intro n
  have hn := hm n
  unfold Prog.attempt
  generalize m o n s = r at hn ⊢
  obtain ⟨a | e | _, k, t⟩ := r
  · exact hn
  · exact hn k
  · exact hn

/-- A final clause runs where the program returned or raised. -/
theorem Ends.ensure {c : Prog φ σ ε Unit}
    (hm : Ends o s m ⟨fun a t => Ends o t c ⟨fun _ => P.returned a, P.raised, P.stopped⟩,
      fun e t => Ends o t c ⟨fun _ => P.raised e, P.raised, P.stopped⟩, P.stopped⟩) :
    Ends o s (ensure m c) P := by
  intro n
  have hn := hm n
  unfold Prog.ensure
  generalize m o n s = r at hn ⊢
  obtain ⟨a | e | _, k, t⟩ := r
  · have hc : Ends o t (do c; Pure.pure a : Prog φ σ ε α) P :=
      Ends.seq hn (fun _ _ h => Ends.pure h) (fun _ _ h => h) (fun _ h => h)
    exact hc k
  · have hc : Ends o t (do c; Prog.raise e : Prog φ σ ε α) P :=
      Ends.seq hn (fun _ _ h => Ends.raise h) (fun _ _ h => h) (fun _ h => h)
    exact hc k
  · exact hn

/-- A step raises or stops before its effect, or returns or raises after it. -/
theorem Ends.step {fault : φ → ℕ → Fault} {e : ε} {g : σ → σ} {P : Post σ ε Unit}
    (hd : P.returned () (g s)) (he : (∃ n, fault o n = .raises) → P.raised e s)
    (hl : (∃ n, fault o n = .late) → P.raised e (g s)) (hs : (∃ n, fault o n = .stops) → P.stopped s) :
    Ends o s (Prog.step fault e g) P := by
  refine Ends.bind (Ends.ask fun n => ?_)
  cases hf : fault o n with
  | quiet => exact Ends.modify hd
  | raises => exact Ends.raise (he ⟨n, hf⟩)
  | late => exact Ends.bind (Ends.modify (Ends.raise (hl ⟨n, hf⟩)))
  | stops => exact Ends.stop (hs ⟨n, hf⟩)

/-- An atomic step that fails or is stopped leaves the state. -/
theorem Ends.atomic {answer : φ → ℕ → Answer} {e : ε} {g : σ → σ} {P : Post σ ε Unit}
    (hd : P.returned () (g s)) (he : (∃ n, answer o n = .fails) → P.raised e s)
    (hs : (∃ n, answer o n = .stops) → P.stopped s) :
    Ends o s (Prog.step (fun o n => (answer o n).fault) e g) P := by
  refine Ends.step hd ?_ ?_ ?_
  · rintro ⟨n, hn⟩
    refine he ⟨n, ?_⟩
    cases ha : answer o n <;> simp [ha, Answer.fault] at hn ⊢
  · rintro ⟨n, hn⟩
    cases ha : answer o n <;> simp [ha, Answer.fault] at hn
  · rintro ⟨n, hn⟩
    refine hs ⟨n, ?_⟩
    cases ha : answer o n <;> simp [ha, Answer.fault] at hn ⊢

/-- A step without effect leaves the state, however it ends. -/
theorem Ends.check {fault : φ → ℕ → Fault} {e : ε} {P : Post σ ε Unit} (hd : P.returned () s)
    (he : P.raised e s) (hs : P.stopped s) : Ends o s (Prog.step fault e id) P :=
  Ends.step hd (fun _ => he) (fun _ => he) fun _ => hs

/-! ## Programs that only read -/

/-- `m` leaves the state, returns only what meets `Q` and raises only what meets `E`. -/
def Reads (o : φ) (s : σ) (m : Prog φ σ ε α) (Q : α → Prop) (E : ε → Prop) : Prop :=
  Ends o s m ⟨fun a t => t = s ∧ Q a, fun e t => t = s ∧ E e, fun t => t = s⟩

section Reads

variable {Q Q' : α → Prop} {E : ε → Prop} {T : β → Prop}

theorem Reads.pure {a : α} (h : Q a) : Reads o s (pure a) Q E := Ends.pure ⟨rfl, h⟩

/-- A sequence of reads is a read. -/
theorem Reads.bind (h : Reads o s m Q E) (hk : ∀ a, Q a → Reads o s (f a) T E) : Reads o s (m >>= f) T E := by
  refine Ends.seq h ?_ (fun _ _ he => he) (fun _ hs => hs)
  rintro a t ⟨rfl, ha⟩
  exact hk a ha

/-- A weaker demand on the result. -/
theorem Reads.imp (h : Reads o s m Q' E) (hq : ∀ a, Q' a → Q a) : Reads o s m Q E :=
  Ends.mono h (fun a _ ha => ⟨ha.1, hq a ha.2⟩) (fun _ _ he => he) (fun _ hs => hs)

theorem Reads.require {p : Prop} [Decidable p] {e : ε} {Q : Unit → Prop} (ht : p → Q ()) (he : E e) :
    Reads o s (require p e) Q E :=
  Ends.require (fun hp => ⟨rfl, ht hp⟩) (fun _ => ⟨rfl, he⟩)

theorem Reads.orRaise {v : Option α} {e : ε} (hv : ∀ a, v = some a → Q a) (he : E e) :
    Reads o s (orRaise v e) Q E :=
  Ends.orRaise (fun a ha => ⟨rfl, hv a ha⟩) (fun _ => ⟨rfl, he⟩)

theorem Reads.ask {g : φ → ℕ → α} (h : ∀ n, Q (g o n)) : Reads o s (ask g) Q E :=
  Ends.ask fun n => ⟨rfl, h n⟩

theorem Reads.get {Q : σ → Prop} (h : Q s) : Reads o s get Q E := Ends.get ⟨rfl, h⟩

theorem Reads.check {fault : φ → ℕ → Fault} {e : ε} {Q : Unit → Prop} (hq : Q ()) (he : E e) :
    Reads o s (Prog.step fault e id) Q E :=
  Ends.check ⟨rfl, hq⟩ ⟨rfl, he⟩ rfl

/-- A read that goes on after a step without effect. -/
theorem Reads.skip {fault : φ → ℕ → Fault} {e : ε} {f : Unit → Prog φ σ ε β} (he : E e)
    (hk : Reads o s (f ()) T E) : Reads o s (Prog.step fault e id >>= f) T E :=
  Reads.bind (Reads.check (Q := fun _ => True) trivial he) fun _ _ => hk

/-- A read that goes on after a check. -/
theorem Reads.guard {p : Prop} [Decidable p] {e : ε} {f : Unit → Prog φ σ ε β} (he : E e)
    (hk : p → Reads o s (f ()) T E) : Reads o s (Prog.require p e >>= f) T E :=
  Reads.bind (Reads.require id he) fun _ hp => hk hp

/-- A read that goes on with a value that is there. -/
theorem Reads.found {v : Option α} {e : ε} (he : E e) (hk : ∀ a, v = some a → Reads o s (f a) T E) :
    Reads o s (Prog.orRaise v e >>= f) T E :=
  Reads.bind (Reads.orRaise (fun _ h => h) he) fun a ha => hk a ha

/-- A read that goes on with an answer of the environment. -/
theorem Reads.answer {g : φ → ℕ → α} (hk : ∀ n, Reads o s (f (g o n)) T E) :
    Reads o s (Prog.ask g >>= f) T E := by
  refine Reads.bind (Reads.ask (Q := fun a => ∃ n, a = g o n) fun n => ⟨n, rfl⟩) ?_
  rintro a ⟨n, rfl⟩
  exact hk n

/-- A read that goes on with the state. -/
theorem Reads.look {f : σ → Prog φ σ ε β} (hk : Reads o s (f s) T E) : Reads o s (Prog.get >>= f) T E := by
  refine Reads.bind (Reads.get rfl) ?_
  rintro a rfl
  exact hk

/-- A program that goes on after a read. -/
theorem Ends.read (h : Reads o s m Q E) (hk : ∀ a, Q a → Ends o s (f a) R) (he : ∀ e, E e → R.raised e s)
    (hs : R.stopped s) : Ends o s (m >>= f) R := by
  refine Ends.seq h ?_ ?_ ?_
  · rintro a t ⟨rfl, ha⟩
    exact hk a ha
  · rintro e t ⟨rfl, hE⟩
    exact he e hE
  · rintro t rfl
    exact hs

/-- A program that goes on after a check. -/
theorem Ends.guard {p : Prop} [Decidable p] {e : ε} {f : Unit → Prog φ σ ε β} (he : R.raised e s)
    (hk : p → Ends o s (f ()) R) : Ends o s (Prog.require p e >>= f) R :=
  Ends.bind (Ends.require hk fun _ => he)

/-- A program that goes on with a value that is there. -/
theorem Ends.found {v : Option α} {e : ε} (he : R.raised e s) (hk : ∀ a, v = some a → Ends o s (f a) R) :
    Ends o s (Prog.orRaise v e >>= f) R :=
  Ends.bind (Ends.orRaise hk fun _ => he)

/-- A program that goes on with an answer of the environment. -/
theorem Ends.answer {g : φ → ℕ → α} (hk : ∀ n, Ends o s (f (g o n)) R) : Ends o s (Prog.ask g >>= f) R :=
  Ends.bind (Ends.ask hk)

/-- A program that goes on with the state. -/
theorem Ends.look {f : σ → Prog φ σ ε β} (hk : Ends o s (f s) R) : Ends o s (Prog.get >>= f) R :=
  Ends.bind (Ends.get hk)

/-- A program that goes on after a check that holds. -/
theorem Ends.holds {p : Prop} [Decidable p] {e : ε} {f : Unit → Prog φ σ ε β} (hp : p) (hk : Ends o s (f ()) R) :
    Ends o s (Prog.require p e >>= f) R :=
  Ends.bind (Ends.require (fun _ => hk) fun hn => absurd hp hn)

/-- A program that goes on with the value that is there. -/
theorem Ends.given {v : Option α} {a : α} {e : ε} (hv : v = some a) (hk : Ends o s (f a) R) :
    Ends o s (Prog.orRaise v e >>= f) R := by
  subst hv
  exact Ends.bind (Ends.pure hk)

/-- A program that goes on after one that returns. -/
theorem Ends.after {Q : α → σ → Prop} (h : Ends o s m (Post.returns Q)) (hk : ∀ a t, Q a t → Ends o t (f a) R) :
    Ends o s (m >>= f) R :=
  Ends.seq h hk (fun _ _ h => h.elim) fun _ h => h.elim

/-- The handler of a program that returns does not run. -/
theorem Ends.tried {h : ε → Prog φ σ ε α} (hm : Ends o s m (Post.returns P.returned)) : Ends o s (Prog.attempt m h) P :=
  Ends.attempt (Ends.mono hm (fun _ _ h => h) (fun _ _ h => h.elim) fun _ h => h.elim)

/-- A program that goes on after a step without effect. -/
theorem Ends.skip {fault : φ → ℕ → Fault} {e : ε} {f : Unit → Prog φ σ ε β} (hk : Ends o s (f ()) R)
    (he : R.raised e s) (hs : R.stopped s) : Ends o s (Prog.step fault e id >>= f) R :=
  Ends.bind (Ends.check hk he hs)

end Reads

/-! ## What a program does not change -/

/-- However `m` ends, `g` of the state is as before. -/
def Keeps {γ : Type} (g : σ → γ) (m : Prog φ σ ε α) : Prop := ∀ o s, Ends o s m (Post.always fun t => g t = g s)

section Keeps

variable {γ : Type} {g : σ → γ}

theorem Keeps.pure {a : α} : Keeps g (pure a : Prog φ σ ε α) := fun _ _ => Ends.pure rfl

theorem Keeps.raise {e : ε} : Keeps g (raise e : Prog φ σ ε α) := fun _ _ => Ends.raise rfl

theorem Keeps.get : Keeps g (get : Prog φ σ ε σ) := fun _ _ => Ends.get rfl

theorem Keeps.ask {q : φ → ℕ → α} : Keeps g (ask q : Prog φ σ ε α) := fun _ _ => Ends.ask fun _ => rfl

theorem Keeps.modify {f : σ → σ} (h : ∀ s, g (f s) = g s) : Keeps g (modify f : Prog φ σ ε Unit) :=
  fun _ s => Ends.modify (h s)

theorem Keeps.bind (h : Keeps g m) (hk : ∀ a, Keeps g (f a)) : Keeps g (m >>= f) := by
  refine fun o s => Ends.seq (h o s) (fun a t ht => ?_) (fun _ _ ht => ht) fun _ ht => ht
  have ht : g t = g s := ht
  exact Ends.mono (hk a o t) (fun _ _ hu => hu.trans ht) (fun _ _ hu => hu.trans ht) fun _ hu => hu.trans ht

theorem Keeps.require {p : Prop} [Decidable p] {e : ε} : Keeps g (require p e : Prog φ σ ε Unit) :=
  fun _ _ => Ends.require (fun _ => rfl) fun _ => rfl

theorem Keeps.orRaise {v : Option α} {e : ε} : Keeps g (orRaise v e : Prog φ σ ε α) :=
  fun _ _ => Ends.orRaise (fun _ _ => rfl) fun _ => rfl

theorem Keeps.attempt {h : ε → Prog φ σ ε α} (hm : Keeps g m) (hh : ∀ e, Keeps g (h e)) : Keeps g (attempt m h) := by
  refine fun o s => Ends.attempt (Ends.mono (hm o s) (fun _ _ ht => ht) (fun e t ht => ?_) fun _ ht => ht)
  have ht : g t = g s := ht
  exact Ends.mono (hh e o t) (fun _ _ hu => hu.trans ht) (fun _ _ hu => hu.trans ht) fun _ hu => hu.trans ht

theorem Keeps.ensure {c : Prog φ σ ε Unit} (hm : Keeps g m) (hc : Keeps g c) : Keeps g (ensure m c) := by
  have hafter : ∀ {o : φ} {s t : σ} {R : Unit → σ → Prop} {E : ε → σ → Prop} {S : σ → Prop},
      g t = g s → (∀ u, g u = g s → R () u ∧ (∀ e, E e u) ∧ S u) → Ends o t c ⟨R, E, S⟩ := by
    intro o s t R E S ht hu
    exact Ends.mono (hc o t) (fun _ u h => (hu u (h.trans ht)).1) (fun e u h => (hu u (h.trans ht)).2.1 e)
      fun u h => (hu u (h.trans ht)).2.2
  exact fun o s => Ends.ensure (Ends.mono (hm o s) (fun _ _ ht => hafter ht fun _ hu => ⟨hu, fun _ => hu, hu⟩)
    (fun _ _ ht => hafter ht fun _ hu => ⟨hu, fun _ => hu, hu⟩) fun _ ht => ht)

theorem Keeps.step {fault : φ → ℕ → Fault} {e : ε} {f : σ → σ} (h : ∀ s, g (f s) = g s) :
    Keeps g (Prog.step fault e f) :=
  fun _ s => Ends.step (h s) (fun _ => rfl) (fun _ => h s) fun _ => rfl

end Keeps

end Faulty

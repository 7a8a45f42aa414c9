import StrixAlloy.Lib.Runs

/-!
# Interleaved programs

A program asks questions of a shared state, one atomic step a question (`Prog`). Any number of threads
run such programs, in any order, and any of them may never go on (`Pool`). What holds of all of them is
proved one program at a time: `Rules` states what the questions keep (`inv`) and what a thread may rely
on while others run (`env`), and `Rules.wp` is the precondition under which a program keeps its part and
ends with a postcondition. `pool_run` puts the programs together.
-/

namespace Interleave

open Runs

/-- A program over the questions `Q`, which are answered in `A`. -/
inductive Prog (Q : Type) (A : Q → Type) (α : Type) where
  | done (a : α)
  | ask (q : Q) (next : A q → Prog Q A α)

variable {Q : Type} {A : Q → Type} {α β ε : Type}

namespace Prog

/-- One program after the other. -/
def bind : Prog Q A α → (α → Prog Q A β) → Prog Q A β
  | done a, f => f a
  | ask q next, f => ask q fun a => (next a).bind f

instance : Monad (Prog Q A) where
  pure := done
  bind := bind

end Prog

/-- A program that may end with an error. -/
abbrev Action (Q : Type) (A : Q → Type) (ε α : Type) := ExceptT ε (Prog Q A) α

/-- The answer to a question. -/
def ask (q : Q) : Action Q A ε (A q) := ExceptT.mk (.ask q fun a => .done (.ok a))

/-- An error unless the condition holds. -/
def ensure (p : Prop) [Decidable p] (e : ε) : Action Q A ε Unit := if p then pure () else throw e

/-- The value, if there is one, or an error. -/
def getSome (o : Option α) (e : ε) : Action Q A ε α :=
  match o with
  | some a => pure a
  | none => throw e

/-! ## Threads -/

section Pool

variable {σ C Rq : Type} (prog : Rq → Prog Q A α) (exec : ℕ → C → σ → (q : Q) → A q × σ)

/-- The shared state, and the threads with what is left of their programs. -/
structure Pool (Q : Type) (A : Q → Type) (α σ Rq : Type) where
  state : σ
  threads : List (Rq × Prog Q A α)

/-- A new thread for a request, or the next question of the thread `i`; `c` is what the environment
decides about the answer. -/
inductive Act (C Rq : Type) where
  | start (r : Rq)
  | go (i : ℕ) (c : C)

/-- One step. A thread that has ended does nothing more. -/
def Pool.step (p : Pool Q A α σ Rq) : Act C Rq → Pool Q A α σ Rq
  | .start r => { p with threads := p.threads ++ [(r, prog r)] }
  | .go i c =>
    match p.threads[i]? with
    | some (r, .ask q next) =>
      { state := (exec i c p.state q).2
        threads := p.threads.set i (r, next (exec i c p.state q).1) }
    | _ => p

end Pool

/-! ## Rules -/

/-- What the questions keep, and what a thread relies on while the others run. -/
structure Rules (σ C : Type) (exec : ℕ → C → σ → (q : Q) → A q × σ) where
  /-- What holds of the state between any two steps. -/
  inv : σ → Prop
  /-- What the other threads may do to the state, for the thread `i`. -/
  env : ℕ → σ → σ → Prop
  /-- What any thread may do to the state. -/
  later : σ → σ → Prop
  env_refl : ∀ i s, env i s s
  env_trans : ∀ {i s s' s''}, env i s s' → env i s' s'' → env i s s''
  later_of_env : ∀ {i s s'}, env i s s' → later s s'
  later_trans : ∀ {s s' s''}, later s s' → later s' s'' → later s s''

section Wp

variable {σ C : Type} {exec : ℕ → C → σ → (q : Q) → A q × σ}

/-- The step of the thread `i` that asks `q` keeps the invariant, and does no more than the others may
rely on. -/
def Rules.Keeps (R : Rules σ C exec) (i : ℕ) (s : σ) (q : Q) : Prop :=
  ∀ c, R.inv (exec i c s q).2 ∧ ∀ j ≠ i, R.env j s (exec i c s q).2

/-- From the state `s`, and whatever the others do, every question of the program keeps its part, and the
program ends in a state with `post`. -/
def Rules.wp (R : Rules σ C exec) (i : ℕ) : Prog Q A α → (α → σ → Prop) → σ → Prop
  | .done a, post, s => post a s
  | .ask q next, post, s => ∀ s', R.env i s s' → R.inv s' →
      R.Keeps i s' q ∧ ∀ c, R.wp i (next (exec i c s' q).1) post (exec i c s' q).2

/-- What the others do does not end. -/
def Rules.Stable (R : Rules σ C exec) (i : ℕ) (post : α → σ → Prop) : Prop :=
  ∀ a s s', R.env i s s' → R.inv s' → post a s → post a s'

variable {R : Rules σ C exec} {i : ℕ} {p : Prog Q A α} {post post' : α → σ → Prop} {s s' : σ}

/-- The precondition is kept by the others. -/
theorem wp_env (hstable : R.Stable i post) (h : R.wp i p post s) (he : R.env i s s') (hi : R.inv s') :
    R.wp i p post s' := by
  cases p with
  | done a => exact hstable a s s' he hi h
  | ask => exact fun t ht hinv => h t (R.env_trans he ht) hinv

theorem wp_mono (h : R.wp i p post s) (hp : ∀ a s, post a s → post' a s) : R.wp i p post' s := by
  induction p generalizing s with
  | done a => exact hp a s h
  | ask q next ih =>
    intro t ht hinv
    obtain ⟨hkeeps, hnext⟩ := h t ht hinv
    exact ⟨hkeeps, fun c => ih _ (hnext c)⟩

/-- The second program starts where the first one ends. -/
theorem wp_bind {f : α → Prog Q A β} {post : β → σ → Prop}
    (h : R.wp i p (fun a s => R.wp i (f a) post s) s) : R.wp i (p.bind f) post s := by
  induction p generalizing s with
  | done => exact h
  | ask q next ih =>
    intro t ht hinv
    obtain ⟨hkeeps, hnext⟩ := h t ht hinv
    exact ⟨hkeeps, fun c => ih _ (hnext c)⟩

/-- What the thread and the others do together. -/
theorem wp_later (h : R.wp i p post s) (hi : R.inv s) :
    R.wp i p (fun a s' => post a s' ∧ R.later s s' ∧ R.inv s') s := by
  induction p generalizing s with
  | done => exact ⟨h, R.later_of_env (R.env_refl i s), hi⟩
  | ask q next ih =>
    intro t ht hinv
    obtain ⟨hkeeps, hnext⟩ := h t ht hinv
    refine ⟨hkeeps, fun c => wp_mono (ih _ (hnext c) (hkeeps c).1) fun a s' h => ⟨h.1, ?_, h.2.2⟩⟩
    have hstep := R.later_of_env ((hkeeps c).2 (i + 1) (Nat.succ_ne_self i))
    exact R.later_trans (R.later_of_env ht) (R.later_trans hstep h.2.1)

end Wp

/-! ## Errors -/

section Action

variable {σ C : Type} {exec : ℕ → C → σ → (q : Q) → A q × σ} (R : Rules σ C exec)

/-- The precondition of a program that may end with an error, of which nothing is asked. -/
def Rules.run (i : ℕ) (x : Action Q A ε α) (post : α → σ → Prop) (s : σ) : Prop :=
  R.wp i x.run (fun r s => ∀ a, r = .ok a → post a s) s

variable {R} {i : ℕ} {x : Action Q A ε α} {f : α → Action Q A ε β} {s : σ}

theorem run_pure {a : α} {post : α → σ → Prop} (h : post a s) :
    R.run i (pure a : Action Q A ε α) post s := by
  intro b hb
  cases hb
  exact h

theorem run_throw {e : ε} {post : α → σ → Prop} : R.run i (throw e : Action Q A ε α) post s := by
  intro b hb
  cases hb

theorem run_bind {post : β → σ → Prop} (h : R.run i x (fun a s => R.run i (f a) post s) s) :
    R.run i (x >>= f) post s := by
  refine wp_bind (wp_mono h fun r s hr => ?_)
  cases r with
  | ok a => exact hr a rfl
  | error => exact fun b hb => by cases hb

theorem run_mono {post post' : α → σ → Prop} (h : R.run i x post s)
    (hp : ∀ a s, post a s → post' a s) : R.run i x post' s :=
  wp_mono h fun _ _ hr a ha => hp a _ (hr a ha)

/-- The second program starts with `mid`. -/
theorem run_seq (mid : α → σ → Prop) {post : β → σ → Prop} (h : R.run i x mid s)
    (hf : ∀ a s', mid a s' → R.run i (f a) post s') : R.run i (x >>= f) post s :=
  run_bind (run_mono h hf)

/-- A question, in whatever state the others have left. -/
theorem run_ask {q : Q} {post : A q → σ → Prop}
    (h : ∀ s', R.env i s s' → R.inv s' →
      R.Keeps i s' q ∧ ∀ c, post (exec i c s' q).1 (exec i c s' q).2) :
    R.run i (ask q : Action Q A ε (A q)) post s := by
  intro s' he hinv
  obtain ⟨hkeeps, hpost⟩ := h s' he hinv
  refine ⟨hkeeps, fun c a ha => ?_⟩
  cases ha
  exact hpost c

theorem run_ensure {p : Prop} [Decidable p] {e : ε} {post : Unit → σ → Prop} (h : p → post () s) :
    R.run i (ensure p e : Action Q A ε Unit) post s := by
  unfold ensure
  split
  · exact run_pure (h ‹_›)
  · exact run_throw

theorem run_getSome {o : Option α} {e : ε} {post : α → σ → Prop} (h : ∀ a, o = some a → post a s) :
    R.run i (getSome o e : Action Q A ε α) post s := by
  cases o with
  | some a => exact run_pure (h a rfl)
  | none => exact run_throw

/-- After an error, the handler. -/
theorem run_tryCatch {y : ε → Action Q A ε α} {post : α → σ → Prop} (hi : R.inv s) (hx : R.run i x post s)
    (hy : ∀ e s', R.later s s' → R.inv s' → R.run i (y e) post s') : R.run i (tryCatch x y) post s := by
  refine wp_bind (wp_mono (wp_later hx hi) fun r s' ⟨hr, hlater, hi'⟩ => ?_)
  cases r with
  | ok a => exact run_pure (hr a rfl)
  | error e => exact hy e s' hlater hi'

/-! A program that asks nothing ends where it starts. -/

/-- The program asks nothing. -/
def Silent (x : Action Q A ε α) : Prop := ∃ r, x.run = .done r

theorem silent_pure (a : α) : Silent (pure a : Action Q A ε α) := ⟨.ok a, rfl⟩

theorem silent_throw (e : ε) : Silent (throw e : Action Q A ε α) := ⟨.error e, rfl⟩

theorem silent_ensure {p : Prop} [Decidable p] (e : ε) : Silent (ensure p e : Action Q A ε Unit) := by
  unfold ensure
  split
  · exact silent_pure ()
  · exact silent_throw e

theorem silent_getSome (o : Option α) (e : ε) : Silent (getSome o e : Action Q A ε α) := by
  cases o with
  | some a => exact silent_pure a
  | none => exact silent_throw e

theorem silent_bind (hx : Silent x) (hf : ∀ a, Silent (f a)) : Silent (x >>= f) := by
  obtain ⟨r, hr⟩ := hx
  cases r with
  | ok a =>
    obtain ⟨r', hr'⟩ := hf a
    refine ⟨r', ?_⟩
    show (x.run.bind _) = _
    rw [hr]
    exact hr'
  | error e =>
    refine ⟨.error e, ?_⟩
    show (x.run.bind _) = _
    rw [hr]
    rfl

theorem run_silent {post : α → σ → Prop} (hx : Silent x) (h : ∀ a, post a s) : R.run i x post s := by
  obtain ⟨r, hr⟩ := hx
  unfold Rules.run
  rw [hr]
  exact fun a _ => h a

end Action

/-! ## All threads together -/

section Sound

variable {σ C Rq : Type} {prog : Rq → Prog Q A α} {exec : ℕ → C → σ → (q : Q) → A q × σ}
  (R : Rules σ C exec) (post : ℕ → Rq → α → σ → Prop)

/-- Every thread keeps its part, and has ended as it should if it has ended. -/
def Rules.PoolOk (p : Pool Q A α σ Rq) : Prop :=
  R.inv p.state ∧ ∀ i r x, p.threads[i]? = some (r, x) → R.wp i x (post i r) p.state

variable {R post}

/-- A step of any thread, or a new thread. -/
theorem pool_step (hstable : ∀ i r, R.Stable i (post i r))
    (hprog : ∀ i r s, R.inv s → R.wp i (prog r) (post i r) s) {p : Pool Q A α σ Rq}
    (h : R.PoolOk post p) (a : Act C Rq) : R.PoolOk post (p.step prog exec a) := by
  obtain ⟨hinv, hthreads⟩ := h
  cases a with
  | start r =>
    refine ⟨hinv, fun i r' x hx => ?_⟩
    have hx : (p.threads ++ [(r, prog r)])[i]? = some (r', x) := hx
    by_cases hi : i < p.threads.length
    · rw [List.getElem?_append_left hi] at hx
      exact hthreads i r' x hx
    · rw [List.getElem?_append_right (Nat.le_of_not_lt hi)] at hx
      cases (List.mem_singleton.1 (List.mem_of_getElem? hx))
      exact hprog i _ _ hinv
  | go i c =>
    rw [Pool.step]
    split
    · rename_i r q next hi
      obtain ⟨hkeeps, hnext⟩ := hthreads i r _ hi p.state (R.env_refl i _) hinv
      obtain ⟨hinv', henv⟩ := hkeeps c
      refine ⟨hinv', fun j r' x hx => ?_⟩
      by_cases hj : j = i
      · subst hj
        rw [List.getElem?_set_self (List.getElem?_eq_some_iff.1 hi).1] at hx
        cases hx
        exact hnext c
      · rw [List.getElem?_set_ne (Ne.symm hj)] at hx
        exact wp_env (hstable j r') (hthreads j r' x hx) (henv j hj) hinv'
    · exact ⟨hinv, hthreads⟩

/-- In every run, of any requests in any order. -/
theorem pool_run (hstable : ∀ i r, R.Stable i (post i r))
    (hprog : ∀ i r s, R.inv s → R.wp i (prog r) (post i r) s) {s : σ} (hinv : R.inv s)
    (as : List (Act C Rq)) : R.PoolOk post (run (Pool.step prog exec) ⟨s, []⟩ as) := by
  refine run_invariant (P := R.PoolOk post) (fun _ a h => pool_step hstable hprog h a) as ⟨hinv, ?_⟩
  intro i r x h
  cases h

end Sound

/-! ## One program alone -/

section Alone

variable {σ C Rq : Type} (exec : ℕ → C → σ → (q : Q) → A q × σ) (i : ℕ)

/-- The program, run from `s` while nobody else does anything, may end with `a` in the state `s'`. -/
inductive Prog.Ends : Prog Q A α → σ → α → σ → Prop where
  | done (a : α) (s : σ) : Ends (.done a) s a s
  | ask (q : Q) (next : A q → Prog Q A α) (s : σ) (c : C) (a : α) (s' : σ)
      (h : Ends (next (exec i c s q).1) (exec i c s q).2 a s') : Ends (.ask q next) s a s'

variable {exec i} {s s' : σ}

theorem ends_done {a b : α} : Prog.Ends exec i (.done a : Prog Q A α) s b s' ↔ b = a ∧ s' = s := by
  constructor
  · intro h
    cases h
    exact ⟨rfl, rfl⟩
  · rintro ⟨rfl, rfl⟩
    exact .done _ _

theorem ends_ask {q : Q} {next : A q → Prog Q A α} {a : α} :
    Prog.Ends exec i (.ask q next) s a s' ↔
      ∃ c, Prog.Ends exec i (next (exec i c s q).1) (exec i c s q).2 a s' := by
  constructor
  · intro h
    cases h with
    | ask q next s c a s' h => exact ⟨c, h⟩
  · rintro ⟨c, h⟩
    exact .ask q next s c a s' h

/-- The second program runs from where the first one ends. -/
theorem ends_bind {p : Prog Q A α} {f : α → Prog Q A β} {b : β} :
    Prog.Ends exec i (p.bind f) s b s' ↔
      ∃ a s₁, Prog.Ends exec i p s a s₁ ∧ Prog.Ends exec i (f a) s₁ b s' := by
  induction p generalizing s with
  | done a =>
    rw [Prog.bind]
    constructor
    · exact fun h => ⟨a, s, .done a s, h⟩
    · rintro ⟨a', s₁, h, hf⟩
      obtain ⟨rfl, rfl⟩ := ends_done.1 h
      exact hf
  | ask q next ih =>
    rw [Prog.bind, ends_ask]
    constructor
    · rintro ⟨c, h⟩
      obtain ⟨a, s₁, ha, hf⟩ := (ih _).1 h
      exact ⟨a, s₁, ends_ask.2 ⟨c, ha⟩, hf⟩
    · rintro ⟨a, s₁, h, hf⟩
      obtain ⟨c, ha⟩ := ends_ask.1 h
      exact ⟨c, (ih _).2 ⟨a, s₁, ha, hf⟩⟩

/-- A thread of a pool that goes on alone. -/
theorem run_of_ends {g : Rq → Prog Q A α} {p : Pool Q A α σ Rq} {r : Rq} {x : Prog Q A α} {a : α}
    (h : Prog.Ends exec i x p.state a s') (hi : p.threads[i]? = some (r, x)) :
    ∃ cs : List C, run (Pool.step g exec) p (cs.map (Act.go i)) =
      ⟨s', p.threads.set i (r, .done a)⟩ := by
  obtain ⟨s, threads⟩ := p
  change Prog.Ends exec i x s a s' at h
  change threads[i]? = some (r, x) at hi
  induction h generalizing threads with
  | done =>
    refine ⟨[], ?_⟩
    obtain ⟨hlen, hget⟩ := List.getElem?_eq_some_iff.1 hi
    rw [← hget, List.set_getElem_self]
    rfl
  | ask q next s c a s' h ih =>
    have hlen := (List.getElem?_eq_some_iff.1 hi).1
    obtain ⟨cs, hcs⟩ := ih (threads.set i (r, next (exec i c s q).1)) (List.getElem?_set_self hlen)
    refine ⟨c :: cs, ?_⟩
    rw [List.map_cons, run_cons, Pool.step]
    simp only [hi]
    rw [hcs, List.set_set]

/-- What is proved of a program among others holds of it alone. -/
theorem wp_sound {R : Rules σ C exec} {p : Prog Q A α} {post : α → σ → Prop} {a : α}
    (h : Prog.Ends exec i p s a s') (hi : R.inv s) (hwp : R.wp i p post s) : post a s' := by
  induction h with
  | done => exact hwp
  | ask q next s c a s' _ ih =>
    obtain ⟨hkeeps, hnext⟩ := hwp s (R.env_refl i s) hi
    exact ih (hkeeps c).1 (hnext c)

end Alone

/-! A program that may end with an error, alone. -/

section Ends

variable {σ C : Type} {exec : ℕ → C → σ → (q : Q) → A q × σ} {i : ℕ} {s s' : σ}

theorem ends_pure {a : α} {r : Except ε α} :
    Prog.Ends exec i (pure a : Action Q A ε α).run s r s' ↔ r = .ok a ∧ s' = s := ends_done

theorem ends_throw {e : ε} {r : Except ε α} :
    Prog.Ends exec i (throw e : Action Q A ε α).run s r s' ↔ r = .error e ∧ s' = s := ends_done

theorem ends_seq {x : Action Q A ε α} {f : α → Action Q A ε β} {r : Except ε β} :
    Prog.Ends exec i (x >>= f).run s r s' ↔
      (∃ a s₁, Prog.Ends exec i x.run s (.ok a) s₁ ∧ Prog.Ends exec i (f a).run s₁ r s') ∨
        ∃ e, Prog.Ends exec i x.run s (.error e) s' ∧ r = .error e := by
  refine ends_bind.trans ⟨?_, ?_⟩
  · rintro ⟨a | a, s₁, h, hf⟩
    · obtain ⟨rfl, rfl⟩ := ends_done.1 hf
      exact .inr ⟨a, h, rfl⟩
    · exact .inl ⟨a, s₁, h, hf⟩
  · rintro (⟨a, s₁, h, hf⟩ | ⟨e, h, rfl⟩)
    · exact ⟨.ok a, s₁, h, hf⟩
    · exact ⟨.error e, s', h, ends_done.2 ⟨rfl, rfl⟩⟩

/-- After a program that ends with one value and changes nothing. -/
theorem ends_seq_of {x : Action Q A ε α} {f : α → Action Q A ε β} {a : α} {r : Except ε β}
    (hx : ∀ {r s'}, Prog.Ends exec i x.run s r s' ↔ r = .ok a ∧ s' = s) :
    Prog.Ends exec i (x >>= f).run s r s' ↔ Prog.Ends exec i (f a).run s r s' := by
  rw [ends_seq]
  constructor
  · rintro (⟨a', s₁, h, hf⟩ | ⟨e, h, -⟩)
    · obtain ⟨heq, rfl⟩ := hx.1 h
      cases heq
      exact hf
    · cases (hx.1 h).1
  · exact fun h => .inl ⟨a, s, hx.2 ⟨rfl, rfl⟩, h⟩

theorem ends_question {q : Q} {r : Except ε (A q)} :
    Prog.Ends exec i (ask q : Action Q A ε (A q)).run s r s' ↔
      ∃ c, r = .ok (exec i c s q).1 ∧ s' = (exec i c s q).2 :=
  ends_ask.trans (exists_congr fun _ => ends_done)

theorem ends_ensure {p : Prop} [Decidable p] {e : ε} {r : Except ε Unit} :
    Prog.Ends exec i (ensure p e : Action Q A ε Unit).run s r s' ↔
      s' = s ∧ r = if p then .ok () else .error e := by
  unfold ensure
  split
  · exact ends_pure.trans and_comm
  · exact ends_throw.trans and_comm

theorem ends_getSome {o : Option α} {e : ε} {r : Except ε α} :
    Prog.Ends exec i (getSome o e : Action Q A ε α).run s r s' ↔
      s' = s ∧ r = o.elim (.error e) .ok := by
  cases o with
  | none => exact ends_throw.trans and_comm
  | some => exact ends_pure.trans and_comm

/-! One way to end. -/

theorem ends_then {x : Action Q A ε α} {f : α → Action Q A ε β} {a : α} {t : σ} {r : Except ε β}
    (h : Prog.Ends exec i x.run s (.ok a) t) (hf : Prog.Ends exec i (f a).run t r s') :
    Prog.Ends exec i (x >>= f).run s r s' := ends_seq.2 (.inl ⟨a, t, h, hf⟩)

theorem ends_answer {q : Q} {a : A q} (c : C) (h : exec i c s q = (a, s')) :
    Prog.Ends exec i (ask q : Action Q A ε (A q)).run s (.ok a) s' :=
  ends_question.2 ⟨c, by rw [h], by rw [h]⟩

theorem ends_ensured {p : Prop} [Decidable p] {e : ε} (h : p) :
    Prog.Ends exec i (ensure p e : Action Q A ε Unit).run s (.ok ()) s :=
  ends_ensure.2 ⟨rfl, by rw [if_pos h]⟩

theorem ends_some {o : Option α} {a : α} {e : ε} (h : o = some a) :
    Prog.Ends exec i (getSome o e : Action Q A ε α).run s (.ok a) s :=
  ends_getSome.2 ⟨rfl, by rw [h]; rfl⟩

theorem ends_value {a : α} : Prog.Ends exec i (pure a : Action Q A ε α).run s (.ok a) s :=
  ends_pure.2 ⟨rfl, rfl⟩

end Ends

/-! ## Which errors a program may end with -/

/-- Whatever is answered, the program ends with a value that satisfies `P`. -/
def Prog.All (P : α → Prop) : Prog Q A α → Prop
  | .done a => P a
  | .ask _ next => ∀ a, (next a).All P

/-- The program never ends with the error. -/
def Avoids (e : ε) (x : Action Q A ε α) : Prop := x.run.All (· ≠ .error e)

section Avoids

variable {e e' : ε} {x : Action Q A ε α} {f : α → Action Q A ε β}

theorem all_bind {P : α → Prop} {P' : β → Prop} {p : Prog Q A α} {f : α → Prog Q A β} (h : p.All P)
    (hf : ∀ a, P a → (f a).All P') : (p.bind f).All P' := by
  induction p with
  | done a => exact hf a h
  | ask q next ih => exact fun a => ih a (h a)

theorem all_true (p : Prog Q A α) : p.All fun _ => True := by
  induction p with
  | done => exact trivial
  | ask q next ih => exact ih

theorem avoids_pure (a : α) : Avoids e (pure a : Action Q A ε α) := nofun

theorem avoids_throw (h : e' ≠ e) : Avoids e (throw e' : Action Q A ε α) :=
  fun heq => h (Except.error.inj heq)

theorem avoids_bind (h : Avoids e x) (hf : ∀ a, Avoids e (f a)) : Avoids e (x >>= f) := by
  refine all_bind h fun r hr => ?_
  cases r with
  | ok a => exact hf a
  | error => exact fun heq => hr (congrArg _ (Except.error.inj heq))

theorem avoids_ask (q : Q) : Avoids e (ask q : Action Q A ε (A q)) := fun _ => nofun

theorem avoids_ensure {p : Prop} [Decidable p] (h : e' ≠ e) :
    Avoids e (ensure p e' : Action Q A ε Unit) := by
  unfold ensure
  split
  · exact avoids_pure ()
  · exact avoids_throw h

theorem avoids_getSome {o : Option α} (h : e' ≠ e) : Avoids e (getSome o e' : Action Q A ε α) := by
  cases o with
  | none => exact avoids_throw h
  | some a => exact avoids_pure a

/-- What the handler does after an error matters, not the error. -/
theorem avoids_tryCatch {y : ε → Action Q A ε α} (hy : ∀ e', Avoids e (y e')) :
    Avoids e (tryCatch x y) := by
  refine all_bind (all_true x.run) fun r _ => ?_
  cases r with
  | ok a => exact avoids_pure (e := e) a
  | error e' => exact hy e'

theorem Avoids.not_ends {σ C : Type} {exec : ℕ → C → σ → (q : Q) → A q × σ} {i : ℕ} {s s' : σ}
    (h : Avoids e x) : ¬ Prog.Ends exec i x.run s (.error e) s' := by
  have hall : ∀ (p : Prog Q A (Except ε α)) s r, p.All (· ≠ .error e) →
      Prog.Ends exec i p s r s' → r ≠ .error e := by
    intro p s r hp hends
    induction hends with
    | done => exact hp
    | ask q next s c a s' _ ih => exact ih (hp _)
  exact fun hends => hall _ s _ h hends rfl

theorem Avoids.error_ne {σ C : Type} {exec : ℕ → C → σ → (q : Q) → A q × σ} {i : ℕ} {s s' : σ}
    (h : Avoids e x) (hends : Prog.Ends exec i x.run s (.error e') s') : e' ≠ e := by
  rintro rfl
  exact h.not_ends hends

end Avoids

end Interleave

import StrixAlloy.OrderTasks.Dispatch

/-!
# Requests and their answers

The four requests as programs of one type (`prog`), and what holds of an answer in every state after it
(`Answered`): a command reports a stored transition, and an operation in an answer is a stored one. In every
run of any requests the invariant holds, and every answer given so far is as `Answered` states
(`pool_answered`).
-/

namespace StrixAlloy.OrderTasks

open Interleave

inductive Request where
  | create (input : Json)
  | status (id : String)
  | operation (key : String)
  | command (id : String) (input : Json)

/-- The answers. The authority of the caller is the one that the request has checked. -/
inductive Response where
  | created (r : Created)
  | status (r : Status) (a : Authority)
  | operation (r : Operation) (a : Authority)
  | command (r : CommandResult) (a : Authority)

/-- The method of a request. -/
def action (hash : List Char → String) : Request → Action Response
  | .create input => do
    let r ← create hash input
    pure (.created r)
  | .status id => do
    let (r, a) ← status id
    pure (.status r a)
  | .operation key => do
    let (r, a) ← operation key
    pure (.operation r a)
  | .command id input => do
    let (r, a) ← command hash id input
    pure (.command r a)

def prog (hash : List Char → String) (r : Request) : Prog Query Answer (Except String Response) :=
  (action hash r).run

/-- The requests, the tables, and who asks when. -/
abbrev Server := Pool Query Answer (Except String Response) Store Request

/-- A run of the requests, from empty tables. -/
def serve (hash : List Char → String) (clock : ℚ) (as : List (Act Choice Request)) : Server :=
  Runs.run (Pool.step (prog hash) exec) ⟨Store.init clock, []⟩ as

/-- The request has ended with the answer. -/
def Gives (p : Server) (r : Request) (a : Response) : Prop := (r, Prog.done (.ok a)) ∈ p.threads

/-! ## What an answer states -/

/-- The answer of a command reports the transition. -/
structure Reports (x : Transition) (r : CommandResult) : Prop where
  command_id : r.command_id = x.command_id
  revision : r.revision = x.id
  kind : r.kind = x.kind
  version : r.version = x.version
  proposal : r.proposal = x.proposal

/-- The digest that stands for a command of a caller with the binding. -/
def commandHash (hash : List Char → String) (id : String) (b : Binding) (input : Json) : String :=
  fingerprint hash (.dict [("task_id", .str id), ("binding", bindingJson b), ("input", input)])

/-- The operation belongs to the task, which is the caller's. -/
structure Visible (s : Store) (b : Binding) (t : String) (op : Operation) : Prop where
  shows : Shows s op
  task_id : op.task_id = t
  owner : Owns s t b

/-- Commits of two tasks carry one operation key. -/
def Reused (s : Store) : Prop :=
  ∃ x ∈ s.transitions, ∃ y ∈ s.transitions, x.kind = .commit ∧ y.kind = .commit ∧
    x.task_id ≠ y.task_id ∧ x.operation_key = y.operation_key

/-- What is stored of an answer. -/
def Answered (hash : List Char → String) : Request → Response → Store → Prop
  | .create _, .created r, s => ∃ task ∈ s.tasks, task.id = r.task_id
  | .status id, .status r a, s => r.task_id = id ∧ Owns s id a.binding ∧
    ∀ op, r.operation = some op → Shows s op ∧ (¬Reused s → op.task_id = id)
  | .operation key, .operation op a, s => Visible s a.binding op.task_id op ∧ op.operation_key = key
  | .command id input, .command r a, s => r.task_id = id ∧ Owns s id a.binding ∧
    (∃ x ∈ s.transitions, Reports x r ∧ x.command_hash = commandHash hash id a.binding input) ∧
    ∀ op, r.operation = some op → Visible s a.binding id op
  | _, _, _ => False

section Grows

variable {s s' : Store} (hg : Grows s s')

include hg

theorem Visible.grows {b : Binding} {t : String} {op : Operation} (h : Visible s b t op) :
    Visible s' b t op := ⟨h.shows.grows hg, h.task_id, h.owner.grows hg⟩

theorem Reused.grows (h : Reused s) : Reused s' := by
  obtain ⟨x, hx, y, hy, h⟩ := h
  exact ⟨x, hg.transitions hx, y, hg.transitions hy, h⟩

/-- An answer stays true. -/
theorem answered_grows {hash : List Char → String} {r : Request} {a : Response} (h : Answered hash r a s) :
    Answered hash r a s' := by
  unfold Answered at h
  split at h
  · obtain ⟨task, htask, h⟩ := h
    exact ⟨task, hg.tasks htask, h⟩
  · obtain ⟨hid, howns, hop⟩ := h
    refine ⟨hid, howns.grows hg, fun op h => ⟨(hop op h).1.grows hg, fun hr => ?_⟩⟩
    exact (hop op h).2 fun hr' => hr (hr'.grows hg)
  · exact ⟨h.1.grows hg, h.2⟩
  · obtain ⟨hid, howns, ⟨x, hx, hreports⟩, hop⟩ := h
    exact ⟨hid, howns.grows hg, ⟨x, hg.transitions hx, hreports⟩, fun op h => (hop op h).grows hg⟩
  · exact h.elim

end Grows

/-! ## The requests -/

section Rules

variable {i : ℕ} {s s' : Store}

theorem run_ensureEvent {task : Task} {row : Transition} {post : Unit → Store → Prop}
    (h : ∀ s', Env i s s' → Inv s' → post () s') : rules.run i (ensureEvent task row) post s := by
  refine run_bind (run_get _ (fun _ _ => rfl) fun event s₁ he₁ hi₁ _ => ?_)
  cases event with
  | some => exact run_pure (h s₁ he₁ hi₁)
  | none =>
    refine run_bind (run_id fun id s₂ he₂ hi₂ => ?_)
    refine run_bind (run_requireTask fun s₃ he₃ hi₃ => ?_)
    refine run_bind (run_insertEvent fun stored s₄ he₄ hi₄ => ?_)
    have he₄ := ((he₁.trans he₂).trans he₃).trans he₄
    cases stored with
    | true => exact run_pure (h s₄ he₄ hi₄)
    | false =>
      refine run_bind (run_get _ (fun _ _ => rfl) fun event s₅ he₅ hi₅ _ => ?_)
      exact run_ensure fun _ => h s₅ (he₄.trans he₅) hi₅

theorem run_resultOf {task : Task} {row : Transition} {post : CommandResult → Store → Prop}
    (h : ∀ r s', Grows s s' → Inv s' → r.task_id = task.id → Reports row r →
      (∀ op, r.operation = some op → Shows s' op ∧ op.task_id = task.id) → post r s') :
    rules.run i (resultOf task row) post s := by
  -- after the operation was settled
  have hend : ∀ o s', Grows s s' → (∀ op, o = some op → Shows s' op ∧ op.task_id = task.id) →
      rules.run i (ensureEvent task row) (fun _ s'' => ∀ r : CommandResult, r.task_id = task.id →
        Reports row r → r.operation = o → post r s'') s' := by
    intro o s' hg ho
    refine run_ensureEvent fun s'' he'' hi'' r hid hreports hop => ?_
    refine h r s'' (hg.trans he''.toGrows) hi'' hid hreports fun op h => ?_
    obtain ⟨hshow, htask⟩ := ho op (hop.symm.trans h)
    exact ⟨hshow.grows he''.toGrows, htask⟩
  unfold resultOf
  split
  · refine run_bind (run_dispatch fun o s' hg hi' ho => ?_)
    refine run_bind (run_mono (hend o s' hg ho) fun _ s'' hpost => run_pure ?_)
    exact hpost _ rfl ⟨rfl, rfl, rfl, rfl, rfl⟩ rfl
  · refine run_bind (run_pure (run_bind (run_mono (hend none s (Grows.refl s) nofun)
      fun _ s'' hpost => run_pure ?_)))
    exact hpost _ rfl ⟨rfl, rfl, rfl, rfl, rfl⟩ rfl

variable {hash : List Char → String}

theorem run_command {id : String} {input : Json} :
    rules.run i (action hash (.command id input)) (fun a s' => Answered hash (.command id input) a s') s := by
  refine run_bind (run_bind (run_silent (silent_commandOf _) fun c => ?_))
  refine run_bind (run_taskOf fun task a s₁ he₁ hi₁ htask hid hb => ?_)
  -- the transition that is reported, and the end
  have hend : ∀ x s', Grows s₁ s' → x ∈ s'.transitions →
      x.command_hash = commandHash hash id task.binding input → rules.run i (resultOf task x)
        (fun r s'' => Answered hash (.command id input) (.command r a) s'') s' := by
    intro x s' hg hx hhash
    refine run_resultOf fun r s'' hg' hi'' htask_id hreports hop => ?_
    have howns : Owns s'' id a.binding := ⟨task, hg'.tasks (hg.tasks htask), hid, hb⟩
    refine ⟨htask_id.trans hid, howns, ⟨x, hg'.transitions hx, hreports, by rw [hhash, hb]⟩, fun op h => ?_⟩
    exact ⟨(hop op h).1, (hop op h).2.trans hid, howns⟩
  refine run_bind (run_get _ (fun _ _ => rfl) fun prior s₂ he₂ hi₂ hprior => ?_)
  cases prior with
  | some prior =>
    refine run_bind (run_ensure fun hsame => ?_)
    refine run_bind (run_mono (hend prior s₂ he₂.toGrows (List.mem_of_find?_eq_some hprior.symm)
      hsame.2) fun r s'' hpost => run_pure (run_pure hpost))
  | none =>
    refine run_bind (run_headOf fun head s₃ he₃ hi₃ hhead => ?_)
    refine run_bind (run_ensure fun _ => ?_)
    refine run_bind (run_ensure fun hcommit => ?_)
    refine run_bind (run_ensure fun hcancel => ?_)
    refine run_bind (run_ensure fun _ => ?_)
    refine run_bind (run_id fun guid s₄ he₄ hi₄ => ?_)
    refine run_bind (run_completed hi₄ guid.2 ⟨hcommit, hcancel⟩ fun row s₅ he₅ hi₅ hrow => ?_)
    have hhead : head ∈ s₅.chain row.task_id := by
      rw [hrow.task_id]
      exact mem_chain_grows hhead (he₄.trans he₅).toGrows
    refine run_bind (run_storeTransition hhead hrow.successor hrow.not_root fun x s₆ he₆ hi₆ hx hcid hhash => ?_)
    have hg₆ : Grows s₁ s₆ := ((((he₂.trans he₃).trans he₄).trans he₅).trans he₆).toGrows
    exact run_bind (run_mono (hend x s₆ hg₆ hx (hhash.trans hrow.command_hash))
      fun r s'' hpost => run_pure (run_pure hpost))

theorem run_status {id : String} :
    rules.run i (action hash (.status id)) (fun a s' => Answered hash (.status id) a s') s := by
  refine run_bind (run_bind (run_taskOf fun task a s₁ he₁ hi₁ htask hid hb => ?_))
  refine run_bind (run_headOf fun head s₂ he₂ hi₂ hhead => ?_)
  -- the operation and the end
  have hend : ∀ get, (get = pure none ∨ ∃ key, get = getOperation key ∧ head.kind = .commit ∧
      head.operation_key = some key) → ∀ event s', Env i s₂ s' → Inv s' → rules.run i (do
      let operation ← get
      pure ((⟨task.id, head.id, head.kind, head.version, task.binding.registry_revision, operation, event⟩,
        a) : Status × Authority))
      (fun r s'' => Answered hash (.status id) (.status r.1 r.2) s'') s' := by
    intro get hget event s' he' hi'
    have howns : Owns s' id a.binding := ⟨task, he'.tasks (he₂.tasks htask), hid, hb⟩
    have hnone : ∀ r : Status, r.task_id = task.id → r.operation = none →
        Answered hash (.status id) (.status r a) s' := fun r htask_id hop =>
      ⟨htask_id.trans hid, howns, fun op h => by rw [hop] at h; cases h⟩
    rcases hget with rfl | ⟨key, rfl, hkind, hkey⟩
    · exact run_bind (run_pure (run_pure (hnone _ rfl rfl)))
    · refine run_bind (run_getOperation fun o s₃ he₃ hi₃ ho => run_pure ?_)
      refine ⟨hid, howns.grows he₃.toGrows, fun op hop => ⟨(ho op hop).1, fun hreused => ?_⟩⟩
      obtain ⟨⟨row, hrow, hs⟩, hkey'⟩ := ho op hop
      obtain ⟨f, hf, hfences⟩ := hi₃.fenced row hrow
      -- the fence of the operation and the head carry one key
      by_contra hne
      rcases mem_chain.1 hhead with hroot | ⟨hmem, htask_id⟩
      · rw [hroot] at hkind
        cases hkind
      · refine hreused ⟨f, hf, head, he₃.transitions (he'.transitions hmem), hfences.kind, hkind, ?_, ?_⟩
        · rw [hfences.task_id, htask_id, hid]
          intro heq
          rw [hs] at hne
          exact hne heq
        · rw [hfences.operation_key, hkey, ← hkey', hs]
  split
  · refine run_bind (run_pure (run_mono (hend _ ?_ none s₂ (Env.refl i s₂) hi₂) fun _ _ hpost => run_pure hpost))
    split
    · rename_i key hkind hkey
      exact .inr ⟨key, rfl, hkind, hkey⟩
    · exact .inl rfl
  · refine run_bind (run_get _ (fun _ _ => rfl) fun event s₃ he₃ hi₃ _ => ?_)
    refine run_mono (hend _ ?_ event s₃ he₃ hi₃) fun _ _ hpost => run_pure hpost
    split
    · rename_i key hkind hkey
      exact .inr ⟨key, rfl, hkind, hkey⟩
    · exact .inl rfl

theorem run_operation {key : String} :
    rules.run i (action hash (.operation key)) (fun a s' => Answered hash (.operation key) a s') s := by
  refine run_bind (run_bind (run_ensure fun _ => ?_))
  refine run_bind (run_getOperation fun o s₁ he₁ hi₁ ho => ?_)
  refine run_bind (run_getSome fun op hop => ?_)
  refine run_bind (run_taskOf fun task a s₂ he₂ hi₂ htask hid hb => run_pure (run_pure ?_))
  obtain ⟨hshow, hkey⟩ := ho op hop
  exact ⟨⟨hshow.grows he₂.toGrows, rfl, task, htask, hid, hb⟩, hkey⟩

theorem run_create {input : Json} :
    rules.run i (action hash (.create input)) (fun a s' => Answered hash (.create input) a s') s := by
  refine run_bind (run_bind (run_silent (silent_schema _ _) fun members => ?_))
  refine run_bind (run_silent (silent_idOf _) fun command_id => ?_)
  refine run_bind (run_getSome fun objective _ => ?_)
  refine run_bind (run_ensure fun _ => ?_)
  refine run_bind (run_actor fun a s₁ he₁ hi₁ _ => ?_)
  refine run_bind (run_get _ (fun _ _ => rfl) fun prior s₂ he₂ hi₂ hprior => ?_)
  cases prior with
  | some prior =>
    refine run_bind (run_actor fun b s₃ he₃ hi₃ _ => ?_)
    refine run_bind (run_ensure fun _ => run_pure (run_pure ?_))
    exact ⟨prior, he₃.tasks (List.mem_of_find?_eq_some hprior.symm), rfl⟩
  | none =>
    refine run_bind (run_id fun id s₃ he₃ hi₃ => ?_)
    refine run_bind (run_now fun now s₄ he₄ hi₄ => ?_)
    refine run_bind (run_insert (fun _ _ hi' => keeps_insertTask hi' _) (fun _ _ => rfl)
      fun c s₅ stored s₆ he₅ hi₅ heq he₆ hi₆ => ?_)
    obtain ⟨hstored, rfl⟩ := Prod.mk.inj heq
    refine run_bind (run_ensure fun htrue => run_pure (run_pure ?_))
    exact ⟨_, (mem_of_insert (hstored.trans htrue)).1, rfl⟩

theorem run_action (r : Request) : rules.run i (action hash r) (fun a s' => Answered hash r a s') s := by
  cases r with
  | create => exact run_create
  | status => exact run_status
  | operation => exact run_operation
  | command => exact run_command

end Rules

/-- What holds at the end of a request. -/
def ends (hash : List Char → String) (_ : ℕ) (r : Request) (e : Except String Response) (s : Store) : Prop :=
  ∀ a, e = .ok a → Answered hash r a s

/-- In every run, the invariant holds, and what was answered is stored. -/
theorem serve_ok (hash : List Char → String) (clock : ℚ) (as : List (Act Choice Request)) :
    Inv (serve hash clock as).state ∧ ∀ r a, Gives (serve hash clock as) r a →
      Answered hash r a (serve hash clock as).state := by
  have hstable : ∀ i r, rules.Stable i (ends hash i r) := fun _ _ _ _ _ he _ h a ha =>
    answered_grows he.toGrows (h a ha)
  have hok : rules.PoolOk (ends hash) (serve hash clock as) :=
    pool_run hstable (fun _ r _ _ => run_action r) (inv_init clock) as
  refine ⟨hok.1, fun r a h => ?_⟩
  obtain ⟨i, hi⟩ := List.mem_iff_getElem?.1 h
  exact hok.2 i r _ hi a rfl

end StrixAlloy.OrderTasks

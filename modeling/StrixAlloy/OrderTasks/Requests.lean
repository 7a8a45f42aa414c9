import StrixAlloy.OrderTasks.Chain

/-!
# What a request relies on and leaves

One rule for each program of the control: what it has found when it goes on, in a state that others may have
changed since (`Env`) or that it has changed itself (`Grows`). From these, every request keeps the
invariant, and what it answers is stored (`Answered`).
-/

namespace StrixAlloy.OrderTasks

open Interleave

section Rules

variable {i : ℕ} {s s' s'' : Store} {α : Type}

/-! ## Steps -/

/-- A step that only reads. -/
theorem run_get {q : Query} (found : Store → Answer q) (hq : ∀ c s, exec i c s q = (found s, s))
    {post : Answer q → Store → Prop} (h : ∀ r s', Env i s s' → Inv s' → r = found s' → post r s') :
    rules.run i (step q) post s := by
  refine run_ask fun s' he hi => ⟨keeps_same (fun c => ?_) hi, fun c => ?_⟩
  · rw [hq]
    exact ⟨rfl, rfl, rfl, rfl, rfl⟩
  · rw [hq]
    exact h _ s' he hi rfl

theorem run_authorize {write : Bool} {post : Option Authority → Store → Prop}
    (h : ∀ a s', Env i s s' → Inv s' → post a s') : rules.run i (step (.authorize write)) post s :=
  run_ask fun s' he hi => ⟨keeps_same (fun _ => ⟨rfl, rfl, rfl, rfl, rfl⟩) hi, fun _ => h _ s' he hi⟩

theorem run_id {post : Guid → Store → Prop} (h : ∀ g s', Env i s s' → Inv s' → post g s') :
    rules.run i (step .id) post s :=
  run_ask fun s' he hi => ⟨keeps_same (fun _ => ⟨rfl, rfl, rfl, rfl, rfl⟩) hi, fun _ => h _ s' he hi⟩

/-- What a step leaves that keeps the invariant and does not call `submit`. -/
theorem env_of_keeps {q : Query} {c : Choice} (hk : rules.Keeps i s q)
    (hq : (exec i c s q).2.submits = s.submits) : Env i s (exec i c s q).2 :=
  ⟨((hk c).2 (i + 1) (Nat.succ_ne_self i)).toGrows, fun _ hx _ => hq ▸ hx⟩

theorem run_now {post : ℚ → Store → Prop} (h : ∀ t s', Env i s s' → Inv s' → post t s') :
    rules.run i (step .now) post s := by
  refine run_ask fun s' he hi => ?_
  have hk : rules.Keeps i s' .now := keeps_same (fun _ => ⟨rfl, rfl, rfl, rfl, rfl⟩) hi
  exact ⟨hk, fun c => h _ _ (he.trans (env_of_keeps hk rfl)) (hk c).1⟩

/-- An insert. -/
theorem run_insert {q : Query} {post : Answer q → Store → Prop}
    (hk : ∀ s', Env i s s' → Inv s' → rules.Keeps i s' q)
    (hq : ∀ c s, (exec i c s q).2.submits = s.submits)
    (h : ∀ c s₁ r s₂, Env i s s₁ → Inv s₁ → exec i c s₁ q = (r, s₂) → Env i s s₂ → Inv s₂ → post r s₂) :
    rules.run i (step q) post s := by
  refine run_ask fun s₁ he hi => ⟨hk s₁ he hi, fun c => ?_⟩
  exact h c s₁ _ _ he hi rfl (he.trans (env_of_keeps (hk s₁ he hi) (hq c s₁))) ((hk s₁ he hi) c).1

/-- A row that was stored. -/
theorem mem_of_insert {c : Choice} {clash : α → α → Bool} {rows : List α} {row : α}
    (h : (insert c clash rows row).1) :
    row ∈ (insert c clash rows row).2 ∧ ∀ y ∈ rows, clash row y = false := by
  rcases insert_cases c clash rows row with hr | ⟨hr, hnew⟩
  · rw [hr] at h
    cases h
  · rw [hr]
    exact ⟨List.mem_append_right _ (List.mem_singleton_self _), hnew⟩

/-! ## Checks -/

theorem silent_idOf (v : Option Json) : Silent (idOf v) := by
  unfold idOf
  split
  · exact silent_bind (silent_ensure _) fun _ => silent_pure _
  · exact silent_throw _

theorem silent_schema (v : Option Json) (required : List String) : Silent (schema v required) := by
  unfold schema
  split
  · exact silent_bind (silent_ensure _) fun _ => silent_pure _
  · exact silent_throw _

theorem silent_proposalOf (v : Option Json) : Silent (proposalOf v) :=
  silent_bind (silent_schema _ _) fun _ => silent_bind (silent_getSome _ _) fun _ =>
    silent_bind (silent_ensure _) fun _ => silent_pure _

theorem silent_reference (r : String) : Silent (reference r) :=
  silent_bind (silent_ensure _) fun _ => silent_pure _

theorem silent_commandOf (input : Json) : Silent (commandOf input) :=
  silent_bind (silent_getSome _ _) fun _ => silent_bind (silent_schema _ _) fun _ =>
    silent_bind (silent_idOf _) fun _ => silent_bind (silent_idOf _) fun _ =>
      silent_bind (silent_getSome _ _) fun _ => silent_pure _

/-! ## Owners -/

/-- A task that is not refused has the caller's binding. -/
theorem binding_of_refusal {b : Binding} {task : Task} (h : b.refusal (some task) = none) : task.binding = b := by
  have hfield : ∀ field ∈ Binding.fields, field task.binding = field b := by
    intro field hmem
    have hnone := List.findSome?_eq_none_iff.1 h field hmem
    split_ifs at hnone with hid hne
    simpa using hne
  simp only [Binding.fields, List.forall_mem_cons] at hfield
  obtain ⟨h1, h2, h3, h4, h5, -⟩ := hfield
  cases b
  cases hb : task.binding
  simp_all

theorem run_actor {task : Option Task} {write : Bool} {post : Authority → Store → Prop}
    (h : ∀ a s', Env i s s' → Inv s' → (∀ t, task = some t → t.binding = a.binding) → post a s') :
    rules.run i (actor task write) post s := by
  refine run_bind (run_authorize fun answer s₁ he₁ hi₁ => ?_)
  refine run_bind (run_getSome fun a _ => ?_)
  refine run_bind (run_ensure fun _ => ?_)
  refine run_bind (run_now fun now s₂ he₂ hi₂ => ?_)
  refine run_bind (run_ensure fun _ => ?_)
  refine run_bind (run_ensure fun hb => ?_)
  have he₂ := he₁.trans he₂
  cases task with
  | none => exact run_pure (h a s₂ he₂ hi₂ fun t ht => by cases ht)
  | some =>
    refine run_bind (run_now fun now s₃ he₃ hi₃ => ?_)
    refine run_bind (run_ensure fun _ => ?_)
    refine run_pure (h a s₃ (he₂.trans he₃) hi₃ fun t ht => ?_)
    rw [← Option.some.inj ht]
    exact binding_of_refusal hb

/-- A task and its owner. -/
def Owns (s : Store) (id : String) (b : Binding) : Prop := ∃ task ∈ s.tasks, task.id = id ∧ task.binding = b

variable {fp id : String}

theorem Owns.grows {b : Binding} (h : Owns s id b) (hg : Grows s s') : Owns s' id b := by
  obtain ⟨task, htask, h⟩ := h
  exact ⟨task, hg.tasks htask, h⟩

theorem run_taskOf {write : Bool} {post : Task × Authority → Store → Prop}
    (h : ∀ task a s', Env i s s' → Inv s' → task ∈ s'.tasks → task.id = id → task.binding = a.binding → post (task,
      a) s') :
    rules.run i (taskOf id write) post s := by
  refine run_bind (run_ensure fun _ => ?_)
  refine run_bind (run_get _ (fun _ _ => rfl) fun found s₁ he₁ hi₁ hfound => ?_)
  refine run_bind (run_getSome fun task htask => ?_)
  rw [hfound] at htask
  refine run_bind (run_actor fun a s₂ he₂ hi₂ hb => ?_)
  have hid : task.id = id := by simpa using List.find?_some htask
  exact run_pure (h task a s₂ (he₁.trans he₂) hi₂ (he₂.tasks (List.mem_of_find?_eq_some htask)) hid
    (hb task rfl))

theorem run_requireTask_of {post : Unit → Store → Prop}
    (h : ∀ s', Env i s s' → Inv s' → (∃ task ∈ s'.tasks, task.id = id) → post () s') :
    rules.run i (requireTask id) post s := by
  refine run_bind (run_get _ (fun _ _ => rfl) fun found s₁ he₁ hi₁ hfound => ?_)
  refine run_ensure fun hsome => ?_
  rw [hfound] at hsome
  obtain ⟨task, htask⟩ := Option.isSome_iff_exists.1 hsome
  exact h s₁ he₁ hi₁ ⟨task, List.mem_of_find?_eq_some htask, by simpa using List.find?_some htask⟩

theorem run_requireTask {post : Unit → Store → Prop} (h : ∀ s', Env i s s' → Inv s' → post () s') :
    rules.run i (requireTask id) post s :=
  run_requireTask_of fun s' he hi _ => h s' he hi

/-! ## Operations -/

/-- What a lookup of an operation shows: a stored row, with the receipt. -/
def Shows (s : Store) (op : Operation) : Prop :=
  ∃ row ∈ s.operations, op = { row with receipt := op.receipt, state := op.state }

theorem Shows.grows {op : Operation} (h : Shows s op) (hg : Grows s s') : Shows s' op := by
  obtain ⟨row, hrow, h⟩ := h
  exact ⟨row, hg.operations hrow, h⟩

/-- A lookup of an operation by its key, where it finds one. -/
def Found (s : Store) (key : String) (o : Option Operation) : Prop :=
  ∀ op, o = some op → Shows s op ∧ op.operation_key = key

theorem run_getOperation {key : String} {post : Option Operation → Store → Prop}
    (h : ∀ o s', Env i s s' → Inv s' → Found s' key o → post o s') :
    rules.run i (getOperation key) post s := by
  refine run_bind (run_get _ (fun _ _ => rfl) fun found s₁ he₁ hi₁ hfound => ?_)
  cases found with
  | none => exact run_pure (h none s₁ he₁ hi₁ fun op hop => by cases hop)
  | some data =>
    refine run_bind (run_get _ (fun _ _ => rfl) fun event s₂ he₂ hi₂ _ => ?_)
    have hmem : data ∈ s₂.operations := he₂.operations (List.mem_of_find?_eq_some hfound.symm)
    have hkey : data.operation_key = key := by simpa using List.find?_some hfound.symm
    have he₂ := he₁.trans he₂
    cases event.bind Event.receipt with
    | none =>
      refine run_pure (h _ s₂ he₂ hi₂ fun op hop => ?_)
      rw [← Option.some.inj hop]
      exact ⟨⟨data, hmem, rfl⟩, hkey⟩
    | some =>
      refine run_pure (h _ s₂ he₂ hi₂ fun op hop => ?_)
      rw [← Option.some.inj hop]
      exact ⟨⟨data, hmem, rfl⟩, hkey⟩

theorem keeps_insertEvent (hi : Inv s) (row : Event) : rules.Keeps i s (.insertEvent row) :=
  keeps_same (fun _ => ⟨rfl, rfl, rfl, rfl, rfl⟩) hi

theorem run_insertEvent {row : Event} {post : Bool → Store → Prop}
    (h : ∀ r s', Env i s s' → Inv s' → post r s') : rules.run i (step (.insertEvent row)) post s :=
  run_insert (fun _ _ hi => keeps_insertEvent hi row) (fun _ _ => rfl)
    fun _ _ _ _ _ _ _ he' hi' => h _ _ he' hi'

theorem run_storeReceipt {key : String} {receipt : Receipt} {post : Operation → Store → Prop}
    (h : ∀ op s', Env i s s' → Inv s' → Shows s' op → op.operation_key = key → post op s') :
    rules.run i (storeReceipt key receipt) post s := by
  refine run_bind (run_getOperation fun o s₁ he₁ hi₁ ho => ?_)
  refine run_bind (run_getSome fun op hop => ?_)
  obtain ⟨⟨row, hrow, hshow⟩, hkey⟩ := ho op hop
  have hend : ∀ s', Env i s₁ s' → Inv s' → rules.run i
      (pure { op with receipt := some receipt, state := receipt.state } : Action Operation) post s' := by
    intro s' he' hi'
    refine run_pure (h _ s' (he₁.trans he') hi' ⟨row, he'.operations hrow, ?_⟩ hkey)
    rw [hshow]
  refine run_bind (run_get _ (fun _ _ => rfl) fun existing s₂ he₂ hi₂ _ => ?_)
  cases existing with
  | some => exact run_bind (run_ensure fun _ => hend s₂ he₂ hi₂)
  | none =>
    refine run_bind (run_id fun id s₃ he₃ hi₃ => ?_)
    refine run_bind (run_requireTask fun s₄ he₄ hi₄ => ?_)
    refine run_bind (run_insertEvent fun stored s₅ he₅ hi₅ => ?_)
    have he₅ : Env i s₁ s₅ := ((he₂.trans he₃).trans he₄).trans he₅
    cases stored with
    | true => exact run_bind (run_pure (hend s₅ he₅ hi₅))
    | false =>
      refine run_bind (run_get _ (fun _ _ => rfl) fun existing s₆ he₆ hi₆ _ => ?_)
      refine run_bind (run_getSome fun existing _ => ?_)
      exact run_bind (run_ensure fun _ => hend s₆ (he₅.trans he₆) hi₆)

/-! ## Chains -/

theorem mem_chain_grows {t : String} {x : Transition} (h : x ∈ s.chain t) (hg : Grows s s') :
    x ∈ s'.chain t := by
  rw [mem_chain] at h ⊢
  exact h.imp_right fun h => ⟨hg.transitions h.1, h.2⟩

/-- The loop ends at a transition of the chain. -/
theorem run_headFrom {task : Task} {n : ℕ} {head : Transition} {post : Transition → Store → Prop}
    (hhead : head ∈ s.chain task.id)
    (h : ∀ x s', Env i s s' → Inv s' → x ∈ s'.chain task.id → post x s') :
    rules.run i (headFrom task n head) post s := by
  induction n generalizing head s with
  | zero =>
    refine run_bind (run_get _ (fun _ _ => rfl) fun next s₁ he₁ hi₁ _ => ?_)
    cases next with
    | none => exact run_pure (h head s₁ he₁ hi₁ (mem_chain_grows hhead he₁.toGrows))
    | some => exact run_throw
  | succ n ih =>
    refine run_bind (run_get _ (fun _ _ => rfl) fun next s₁ he₁ hi₁ hnext => ?_)
    cases next with
    | none => exact run_pure (h head s₁ he₁ hi₁ (mem_chain_grows hhead he₁.toGrows))
    | some next =>
      refine run_bind (run_ensure fun hok => ?_)
      have hmem : next ∈ s₁.chain task.id :=
        mem_chain.2 (.inr ⟨List.mem_of_find?_eq_some hnext.symm, hok.1⟩)
      exact ih hmem fun x s' he' => h x s' (he₁.trans he')

theorem run_headOf {task : Task} {post : Transition → Store → Prop}
    (h : ∀ x s', Env i s s' → Inv s' → x ∈ s'.chain task.id → post x s') :
    rules.run i (headOf task) post s :=
  run_headFrom (mem_chain.2 (.inl rfl)) h

/-- The row that a command stores after its head. -/
structure Built (c : Command) (task : Task) (head : Transition) (fp : String) (x : Transition) : Prop where
  successor : Successor head x
  not_root : x.id ≠ "root"
  task_id : x.task_id = task.id
  command_id : x.command_id = c.command_id
  command_hash : x.command_hash = fp

theorem run_confirmRow {c : Command} {task : Task} {head : Transition} {post : Transition → Store → Prop}
    (hkind : c.kind = .confirm) (hroot : id ≠ "root")
    (h : ∀ x s', Env i s s' → Inv s' → Built c task head fp x → post x s') :
    rules.run i (confirmRow c head (c.row task head id fp)) post s := by
  refine run_bind (run_silent (silent_idOf _) fun proposal_id => ?_)
  refine run_bind (run_silent (silent_idOf _) fun utterance_ref => ?_)
  refine run_bind (run_ensure fun hhead => ?_)
  refine run_bind (run_now fun now s₁ he₁ hi₁ => ?_)
  refine run_bind (run_ensure fun hexp => ?_)
  obtain ⟨e, he, hlt⟩ := (Option.any_eq_true _ _).1 hexp
  refine run_pure (h _ s₁ he₁ hi₁ ⟨⟨rfl, rfl, rfl, ?_, fun _ => ?_, fun hc => ?_⟩, hroot, rfl, rfl, rfl⟩)
  · rw [hhead.1]
    exact ⟨nofun, nofun⟩
  · exact ⟨hhead.1, rfl, ⟨rfl, rfl, rfl⟩, now, e, rfl, he, of_decide_eq_true hlt⟩
  · exact absurd (hkind.symm.trans hc) nofun

theorem run_commitRow {c : Command} {task : Task} {head : Transition} {post : Transition → Store → Prop}
    (hkind : c.kind = .commit) (hroot : id ≠ "root")
    (h : ∀ x s', Env i s s' → Inv s' → Built c task head fp x → post x s') :
    rules.run i (commitRow c head (c.row task head id fp)) post s := by
  refine run_bind (run_silent (silent_idOf _) fun proposal_id => ?_)
  refine run_bind (run_silent (silent_idOf _) fun confirmation_id => ?_)
  refine run_bind (run_silent (silent_idOf _) fun operation_key => ?_)
  refine run_bind (run_ensure fun hhead => ?_)
  refine run_bind (run_now fun now s₁ he₁ hi₁ => ?_)
  refine run_bind (run_ensure fun hexp => ?_)
  refine run_bind (run_getOperation fun used s₂ he₂ hi₂ _ => ?_)
  refine run_bind (run_ensure fun _ => ?_)
  obtain ⟨e, he, hlt⟩ := (Option.any_eq_true _ _).1 hexp
  refine run_pure (h _ s₂ (he₁.trans he₂) hi₂ ⟨⟨rfl, rfl, rfl, ?_, fun hc => ?_, fun _ => ?_⟩, hroot, rfl, rfl, rfl⟩)
  · rw [hhead.1]
    exact ⟨nofun, nofun⟩
  · exact absurd (hkind.symm.trans hc) nofun
  · exact ⟨hhead.1, rfl, rfl, ⟨rfl, rfl, rfl⟩, now, e, rfl, he, of_decide_eq_true hlt⟩

theorem run_completed {hash : List Char → String} {c : Command} {task : Task} {head : Transition}
    {post : Transition → Store → Prop} (hi : Inv s) (hroot : id ≠ "root")
    (hopen : head.kind ≠ .commit ∧ head.kind ≠ .cancel)
    (h : ∀ x s', Env i s s' → Inv s' → Built c task head fp x → post x s') :
    rules.run i (completed hash c task head (c.row task head id fp)) post s := by
  -- a row that neither confirms nor commits
  have hplain : ∀ s' x, Env i s s' → Inv s' → x.id = id → x.predecessor = head.id →
      x.predecessor_slot = slot x.task_id head.id → x.version = head.version + 1 → x.kind ≠ .confirm →
      x.kind ≠ .commit → x.task_id = task.id → x.command_id = c.command_id → x.command_hash = fp →
      post x s' := by
    intro s' x he' hi' hid h1 h2 h3 h4 h5 h6 h7 h8
    exact h x s' he' hi' ⟨⟨h1, h2, h3, hopen, fun hc => absurd hc h4, fun hc => absurd hc h5⟩,
      hid.trans_ne hroot, h6, h7, h8⟩
  unfold completed
  split
  all_goals rename_i hkind
  · refine run_bind (run_silent (silent_proposalOf _) fun p => ?_)
    refine run_bind (run_now fun now s₁ he₁ hi₁ => run_pure ?_)
    refine hplain s₁ _ he₁ hi₁ rfl rfl rfl rfl ?_ ?_ rfl rfl rfl
    all_goals exact fun hc => absurd (hkind.symm.trans hc) nofun
  · refine run_bind (run_silent (silent_proposalOf _) fun p => ?_)
    refine run_bind (run_now fun now s₁ he₁ hi₁ => run_pure ?_)
    refine hplain s₁ _ he₁ hi₁ rfl rfl rfl rfl ?_ ?_ rfl rfl rfl
    all_goals exact fun hc => absurd (hkind.symm.trans hc) nofun
  · exact run_confirmRow hkind hroot h
  · exact run_commitRow hkind hroot h
  · refine run_pure (hplain s _ (Env.refl i s) hi rfl rfl rfl rfl ?_ ?_ rfl rfl rfl)
    all_goals exact fun hc => absurd (hkind.symm.trans hc) nofun
  · refine run_pure (hplain s _ (Env.refl i s) hi rfl rfl rfl rfl ?_ ?_ rfl rfl rfl)
    all_goals exact fun hc => absurd (hkind.symm.trans hc) nofun

theorem run_storeTransition {row y : Transition} {post : Transition → Store → Prop}
    (hy : y ∈ s.chain row.task_id) (hsucc : Successor y row) (hroot : row.id ≠ "root")
    (h : ∀ x s', Env i s s' → Inv s' → x ∈ s'.transitions → x.command_id = row.command_id →
      x.command_hash = row.command_hash → post x s') :
    rules.run i (storeTransition row) post s := by
  refine run_bind (run_requireTask_of fun s₁ he₁ hi₁ ⟨task, htask, hid⟩ => ?_)
  refine run_bind (run_insert
    (fun s' he' hi' => keeps_insertTransition hi' (mem_chain_grows hy (he₁.trans he').toGrows) hsucc hroot
      ⟨task, he'.tasks htask, hid⟩)
    (fun _ _ => rfl) fun c s₂ stored s₃ he₂ hi₂ heq he₃ hi₃ => ?_)
  have he₃ := he₁.trans he₃
  cases stored with
  | true =>
    obtain ⟨hstored, rfl⟩ := Prod.mk.inj heq
    exact run_pure (h row _ he₃ hi₃ (mem_of_insert hstored).1 rfl rfl)
  | false =>
    refine run_bind (run_get _ (fun _ _ => rfl) fun winner s₄ he₄ hi₄ hwinner => ?_)
    refine run_bind (run_getSome fun w hw => ?_)
    rw [hwinner] at hw
    refine run_bind (run_ensure fun hsame => ?_)
    exact run_pure (h w s₄ (he₃.trans he₄) hi₄ (List.mem_of_find?_eq_some hw) hsame.1 hsame.2)

end Rules

end StrixAlloy.OrderTasks

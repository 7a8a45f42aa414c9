import Mathlib.Data.List.Chain
import StrixAlloy.OrderTasks.Control

/-!
# What every step on the tables keeps

The transitions of a task are one chain from its root, in which each follows an open one and a confirmation
or a commit carries what it names (`Successor`); operations belong to the commit that is their fence,
claims to an operation, and every call of `submit` to a claim of its own (`Inv`). A request relies on rows
that stay and on nobody else calling `submit` for its claims (`Env`). The unique columns are what makes an
insert keep this (`keeps_insertTransition`, …).
-/

namespace StrixAlloy.OrderTasks

open Interleave List

/-! ## Chains -/

/-- An element of a chain is the last one, or another one follows. -/
theorem eq_last_or_rel {α : Type} {R : α → α → Prop} {a : α} {l : List α} (h : (a :: l).IsChain R) {y : α}
    (hy : y ∈ a :: l) : (a :: l).getLast? = some y ∨ ∃ z ∈ l, R y z := by
  induction l generalizing a with
  | nil =>
    rw [mem_singleton.1 hy]
    exact .inl rfl
  | cons b l ih =>
    rw [isChain_cons_cons] at h
    rcases mem_cons.1 hy with rfl | hy
    · exact .inr ⟨b, mem_cons_self, h.1⟩
    · rw [List.getLast?_cons_cons]
      exact (ih h.2 hy).imp_right fun ⟨z, hz, hr⟩ => ⟨z, mem_cons_of_mem _ hz, hr⟩

/-- A chain and one more element, which its last one is related to. -/
theorem isChain_concat {α : Type} {R : α → α → Prop} {l : List α} {x y : α} (h : l.IsChain R)
    (hy : l.getLast? = some y) (hr : R y x) : (l ++ [x]).IsChain R := by
  refine h.append (isChain_singleton x) fun a ha b hb => ?_
  rw [hy, Option.mem_some_iff] at ha
  rw [List.head?_cons, Option.mem_some_iff] at hb
  rw [← ha, ← hb]
  exact hr

/-- A decision that the head had not expired. -/
def Unexpired (y x : Transition) : Prop :=
  ∃ t e, x.checked_at = some t ∧ y.expires_at = some e ∧ t < e

/-- The transition carries the proposal of its head. -/
def Carries (y x : Transition) : Prop :=
  x.proposal = y.proposal ∧ x.payload_hash = y.payload_hash ∧ x.expires_at = y.expires_at

/-- The transition `x` may follow `y`. -/
structure Successor (y x : Transition) : Prop where
  predecessor : x.predecessor = y.id
  predecessor_slot : x.predecessor_slot = slot x.task_id y.id
  version : x.version = y.version + 1
  still_open : y.kind ≠ .commit ∧ y.kind ≠ .cancel
  confirms : x.kind = .confirm → y.kind = .prepare ∧ x.proposal_id = some y.id ∧ Carries y x ∧ Unexpired y x
  commits : x.kind = .commit → y.kind = .confirm ∧ x.confirmation_id = some y.id ∧
    x.proposal_id = y.proposal_id ∧ Carries y x ∧ Unexpired y x

/-- The transitions of a task, from its root. -/
def Store.chain (s : Store) (task_id : String) : List Transition :=
  root task_id :: s.transitions.filter (·.task_id = task_id)

/-! ## The invariant -/

/-- The operation of a commit. -/
structure Fences (f : Transition) (op : Operation) : Prop where
  kind : f.kind = .commit
  id : f.id = op.fence_id
  task_id : f.task_id = op.task_id
  operation_key : f.operation_key = some op.operation_key
  proposal : f.proposal = op.proposal
  payload_hash : f.payload_hash = op.payload_hash

/-- The operation of a claim. -/
structure Claims (op : Operation) (c : Claim) : Prop where
  operation_key : op.operation_key = c.operation_key
  task_id : op.task_id = c.task_id
  id : op.id = c.operation_id

/-- What holds of the tables between any two steps. -/
structure Inv (s : Store) : Prop where
  task_ids : (s.tasks.map Task.id).Nodup
  chain : ∀ t, (s.chain t).IsChain Successor
  transition_ids : (s.transitions.map Transition.id).Nodup
  command_ids : (s.transitions.map Transition.command_id).Nodup
  slots : (s.transitions.map Transition.predecessor_slot).Nodup
  homed : ∀ x ∈ s.transitions, x.id ≠ "root" ∧ ∃ task ∈ s.tasks, task.id = x.task_id
  operation_keys : (s.operations.map Operation.operation_key).Nodup
  fenced : ∀ op ∈ s.operations, ∃ f ∈ s.transitions, Fences f op
  owned : ∀ op ∈ s.operations, ∃ task ∈ s.tasks, task.id = op.task_id ∧ task.binding = op.binding
  claim_keys : (s.claims.map Claim.operation_key).Nodup
  claimed : ∀ c ∈ s.claims, ∃ op ∈ s.operations, Claims op c
  submitted : ∀ x ∈ s.submits, x.claim ∈ s.claims ∧
    ∃ op ∈ s.operations, Claims op x.claim ∧ x.input = submitInput op.proposal
  once : (s.submits.map Submission.claim).Nodup

/-- Rows stay. -/
structure Grows (s s' : Store) : Prop where
  tasks : s.tasks ⊆ s'.tasks
  transitions : s.transitions ⊆ s'.transitions
  operations : s.operations ⊆ s'.operations
  claims : s.claims ⊆ s'.claims

/-- What the other requests may do, for the thread `i`. -/
structure Env (i : ℕ) (s s' : Store) : Prop extends Grows s s' where
  submits : ∀ x ∈ s'.submits, x.claim.thread = i → x ∈ s.submits

theorem Grows.refl (s : Store) : Grows s s where
  tasks := List.Subset.refl _
  transitions := List.Subset.refl _
  operations := List.Subset.refl _
  claims := List.Subset.refl _

theorem Grows.trans {s s' s'' : Store} (h : Grows s s') (h' : Grows s' s'') : Grows s s'' where
  tasks := List.Subset.trans h.tasks h'.tasks
  transitions := List.Subset.trans h.transitions h'.transitions
  operations := List.Subset.trans h.operations h'.operations
  claims := List.Subset.trans h.claims h'.claims

theorem Env.refl (i : ℕ) (s : Store) : Env i s s := ⟨Grows.refl s, fun _ h _ => h⟩

theorem Env.trans {i : ℕ} {s s' s'' : Store} (h : Env i s s') (h' : Env i s' s'') : Env i s s'' :=
  ⟨h.toGrows.trans h'.toGrows, fun x hx hi => h.submits x (h'.submits x hx hi) hi⟩

/-- The rules of the tables. -/
def rules : Rules Store Choice exec where
  inv := Inv
  env := Env
  later := Grows
  env_refl := Env.refl
  env_trans := Env.trans
  later_of_env := Env.toGrows
  later_trans := Grows.trans

theorem inv_init (clock : ℚ) : Inv (Store.init clock) where
  task_ids := nodup_nil
  chain _ := isChain_singleton _
  transition_ids := nodup_nil
  command_ids := nodup_nil
  slots := nodup_nil
  homed _ h := by cases h
  operation_keys := nodup_nil
  fenced _ h := by cases h
  owned _ h := by cases h
  claim_keys := nodup_nil
  claimed _ h := by cases h
  submitted _ h := by cases h
  once := nodup_nil

variable {s s' : Store} {i : ℕ}

/-- Two rows of a column without repetitions. -/
theorem eq_of_nodup {α β : Type} {f : α → β} {l : List α} (h : (l.map f).Nodup) {x y : α} (hx : x ∈ l)
    (hy : y ∈ l) (he : f x = f y) : x = y := inj_on_of_nodup_map h hx hy he

/-- Members of a chain. -/
theorem mem_chain {t : String} {x : Transition} :
    x ∈ s.chain t ↔ x = root t ∨ x ∈ s.transitions ∧ x.task_id = t := by
  unfold Store.chain
  rw [mem_cons, mem_filter, decide_eq_true_eq]

/-! ## Inserts -/

theorem insert_cases {α : Type} (c : Choice) (clash : α → α → Bool) (rows : List α) (row : α) :
    insert c clash rows row = (false, rows) ∨
      insert c clash rows row = (true, rows ++ [row]) ∧ ∀ y ∈ rows, clash row y = false := by
  unfold insert
  split_ifs with h
  · exact .inl rfl
  · rw [Bool.or_eq_true, not_or, any_eq_true] at h
    refine .inr ⟨rfl, fun y hy => ?_⟩
    exact Bool.eq_false_iff.2 fun hc => h.2 ⟨y, hy, hc⟩

/-- A column without repetitions, and a row that does not repeat it. -/
theorem nodup_concat {α β : Type} {f : α → β} {l : List α} {x : α} (h : (l.map f).Nodup)
    (hx : ∀ y ∈ l, f x ≠ f y) : ((l ++ [x]).map f).Nodup := by
  rw [map_append, map_singleton]
  refine List.Nodup.append h (nodup_singleton _) ?_
  rw [disjoint_singleton]
  intro hmem
  obtain ⟨y, hy, he⟩ := mem_map.1 hmem
  exact hx y hy he.symm

/-- A state with the same tables. -/
theorem keeps_same {q : Query} (h : ∀ c, (exec i c s q).2.tasks = s.tasks ∧
    (exec i c s q).2.transitions = s.transitions ∧ (exec i c s q).2.operations = s.operations ∧
    (exec i c s q).2.claims = s.claims ∧ (exec i c s q).2.submits = s.submits) (hi : Inv s) :
    rules.Keeps i s q := by
  intro c
  obtain ⟨h1, h2, h3, h4, h5⟩ := h c
  generalize (exec i c s q).2 = s' at h1 h2 h3 h4 h5
  constructor
  · have hchain : ∀ t, s'.chain t = s.chain t := fun t => by rw [Store.chain, h2, Store.chain]
    exact ⟨h1 ▸ hi.task_ids, fun t => hchain t ▸ hi.chain t, h2 ▸ hi.transition_ids, h2 ▸ hi.command_ids,
      h2 ▸ hi.slots, by rw [h2, h1]; exact hi.homed,
      h3 ▸ hi.operation_keys, by rw [h3, h2]; exact hi.fenced, by rw [h3, h1]; exact hi.owned,
      h4 ▸ hi.claim_keys, by rw [h4, h3]; exact hi.claimed, by rw [h5, h4, h3]; exact hi.submitted,
      h5 ▸ hi.once⟩
  · intro j _
    exact ⟨⟨h1 ▸ List.Subset.refl _, h2 ▸ List.Subset.refl _, h3 ▸ List.Subset.refl _,
      h4 ▸ List.Subset.refl _⟩, fun x hx _ => h5 ▸ hx⟩

theorem keeps_insertTask (hi : Inv s) (row : Task) : rules.Keeps i s (.insertTask row) := by
  intro c
  show Inv { s with tasks := (insert c Task.clash s.tasks row).2 } ∧
    ∀ j ≠ i, Env j s { s with tasks := (insert c Task.clash s.tasks row).2 }
  rcases insert_cases c Task.clash s.tasks row with h | ⟨h, hnew⟩
  · rw [h]
    exact ⟨hi, fun j _ => Env.refl j s⟩
  · rw [h]
    have hsub : s.tasks ⊆ s.tasks ++ [row] := subset_append_left _ _
    refine ⟨{ hi with
      task_ids := nodup_concat hi.task_ids fun y hy he => ?_
      homed := fun x hx => ?_
      owned := fun op hop => ?_ },
      fun j _ => ⟨⟨hsub, List.Subset.refl _, List.Subset.refl _, List.Subset.refl _⟩, fun x hx _ => hx⟩⟩
    · have hclash := hnew y hy
      simp only [Task.clash, he, decide_true, Bool.true_or] at hclash
      cases hclash
    · obtain ⟨hroot, task, htask, h⟩ := hi.homed x hx
      exact ⟨hroot, task, hsub htask, h⟩
    · obtain ⟨task, htask, h⟩ := hi.owned op hop
      exact ⟨task, hsub htask, h⟩

/-- Where a transition may be stored: it follows one of its task's chain. -/
theorem keeps_insertTransition (hi : Inv s) {row y : Transition} (hy : y ∈ s.chain row.task_id)
    (hsucc : Successor y row) (hrow : row.id ≠ "root") (hhome : ∃ task ∈ s.tasks, task.id = row.task_id) : rules.Keeps i s (.insertTransition row) := by
  intro c
  show Inv { s with transitions := (insert c Transition.clash s.transitions row).2 } ∧
    ∀ j ≠ i, Env j s { s with transitions := (insert c Transition.clash s.transitions row).2 }
  rcases insert_cases c Transition.clash s.transitions row with h | ⟨h, hnew⟩
  · rw [h]
    exact ⟨hi, fun j _ => Env.refl j s⟩
  · rw [h]
    have hclash : ∀ z ∈ s.transitions, row.id ≠ z.id ∧ row.command_id ≠ z.command_id ∧
        row.predecessor_slot ≠ z.predecessor_slot := by
      intro z hz
      have hz := hnew z hz
      simp only [Transition.clash, Bool.or_eq_false_iff, decide_eq_false_iff_not] at hz
      exact ⟨hz.1.1, hz.1.2, hz.2⟩
    have hsub : s.transitions ⊆ s.transitions ++ [row] := subset_append_left _ _
    refine ⟨{ hi with
      chain := fun t => ?_
      transition_ids := nodup_concat hi.transition_ids fun z hz => (hclash z hz).1
      command_ids := nodup_concat hi.command_ids fun z hz => (hclash z hz).2.1
      slots := nodup_concat hi.slots fun z hz => (hclash z hz).2.2
      homed := fun x hx => ?_
      fenced := fun op hop => ?_ },
      fun j _ => ⟨⟨List.Subset.refl _, hsub, List.Subset.refl _, List.Subset.refl _⟩, fun x hx _ => hx⟩⟩
    · show (root t :: (s.transitions ++ [row]).filter (·.task_id = t)).IsChain Successor
      rw [filter_append]
      by_cases ht : row.task_id = t
      · subst ht
        rw [filter_cons_of_pos (by simp), filter_nil]
        -- the predecessor is the last one, since its slot is free
        rcases eq_last_or_rel (hi.chain row.task_id) hy with hlast | ⟨z, hz, hr⟩
        · exact isChain_concat (hi.chain row.task_id) hlast hsucc
        · obtain ⟨hz, htask⟩ := mem_filter.1 hz
          refine absurd ?_ (hclash z hz).2.2
          rw [hsucc.predecessor_slot, hr.predecessor_slot, of_decide_eq_true htask]
      · rw [filter_cons_of_neg (by simpa using ht), filter_nil, append_nil]
        exact hi.chain t
    · rcases mem_append.1 hx with hx | hx
      · exact hi.homed x hx
      · rw [mem_singleton.1 hx]
        exact ⟨hrow, hhome⟩
    · obtain ⟨f, hf, h⟩ := hi.fenced op hop
      exact ⟨f, hsub hf, h⟩

/-- Where an operation may be stored: it is the operation of a stored commit, for its task. -/
theorem keeps_insertOperation (hi : Inv s) {row : Operation} (hfence : ∃ f ∈ s.transitions, Fences f row)
    (howner : ∃ task ∈ s.tasks, task.id = row.task_id ∧ task.binding = row.binding) :
    rules.Keeps i s (.insertOperation row) := by
  intro c
  show Inv { s with operations := (insert c Operation.clash s.operations row).2 } ∧
    ∀ j ≠ i, Env j s { s with operations := (insert c Operation.clash s.operations row).2 }
  rcases insert_cases c Operation.clash s.operations row with h | ⟨h, hnew⟩
  · rw [h]
    exact ⟨hi, fun j _ => Env.refl j s⟩
  · rw [h]
    have hsub : s.operations ⊆ s.operations ++ [row] := subset_append_left _ _
    refine ⟨{ hi with
      operation_keys := nodup_concat hi.operation_keys fun y hy he => ?_
      fenced := fun op hop => ?_
      owned := fun op hop => ?_
      claimed := fun x hx => ?_
      submitted := fun x hx => ?_ },
      fun j _ => ⟨⟨List.Subset.refl _, List.Subset.refl _, hsub, List.Subset.refl _⟩, fun x hx _ => hx⟩⟩
    · have hclash := hnew y hy
      simp only [Operation.clash, he, decide_true, Bool.or_true] at hclash
      cases hclash
    · rcases mem_append.1 hop with hop | hop
      · exact hi.fenced op hop
      · rw [mem_singleton.1 hop]
        exact hfence
    · rcases mem_append.1 hop with hop | hop
      · exact hi.owned op hop
      · rw [mem_singleton.1 hop]
        exact howner
    · obtain ⟨op, hop, h⟩ := hi.claimed x hx
      exact ⟨op, hsub hop, h⟩
    · obtain ⟨hclaim, op, hop, h⟩ := hi.submitted x hx
      exact ⟨hclaim, op, hsub hop, h⟩

/-- Where a claim may be stored: for a stored operation. -/
theorem keeps_insertClaim (hi : Inv s) {row : Claim}
    (hop : ∃ op ∈ s.operations, Claims op row) : rules.Keeps i s (.insertClaim row) := by
  intro c
  show Inv { s with claims := (insert c Claim.clash s.claims { row with thread := i }).2 } ∧
    ∀ j ≠ i, Env j s { s with claims := (insert c Claim.clash s.claims { row with thread := i }).2 }
  rcases insert_cases c Claim.clash s.claims { row with thread := i } with h | ⟨h, hnew⟩
  · rw [h]
    exact ⟨hi, fun j _ => Env.refl j s⟩
  · rw [h]
    have hsub : s.claims ⊆ s.claims ++ [{ row with thread := i }] := subset_append_left _ _
    refine ⟨{ hi with
      claim_keys := nodup_concat hi.claim_keys fun y hy he => ?_
      claimed := fun x hx => ?_
      submitted := fun x hx => ?_ },
      fun j _ => ⟨⟨List.Subset.refl _, List.Subset.refl _, List.Subset.refl _, hsub⟩, fun x hx _ => hx⟩⟩
    · have hclash := hnew y hy
      simp only [Claim.clash, show row.operation_key = y.operation_key from he, decide_true,
        Bool.or_true] at hclash
      cases hclash
    · rcases mem_append.1 hx with hx | hx
      · exact hi.claimed x hx
      · obtain ⟨op, hop, h⟩ := hop
        rw [mem_singleton.1 hx]
        exact ⟨op, hop, h.operation_key, h.task_id, h.id⟩
    · obtain ⟨hclaim, h⟩ := hi.submitted x hx
      exact ⟨hsub hclaim, h⟩

/-- A claim that the thread has stored, and for which `submit` was not called. -/
def Unused (s : Store) (claim : Claim) : Prop := claim ∈ s.claims ∧ ∀ x ∈ s.submits, x.claim ≠ claim

/-- Where `submit` may be called: for an unused claim of the thread, with the proposal of its
operation. -/
theorem keeps_submit (hi : Inv s) {input : SubmitInput} {claim : Claim}
    (hclaim : Unused s { claim with thread := i })
    (hop : ∃ op ∈ s.operations, Claims op claim ∧ input = submitInput op.proposal) :
    rules.Keeps i s (.submit input claim) := by
  intro c
  refine ⟨{ hi with submitted := fun x hx => ?_, once := ?_ }, fun j hj => ⟨⟨List.Subset.refl _, List.Subset.refl _,
    List.Subset.refl _, List.Subset.refl _⟩, fun x hx hthread => ?_⟩⟩
  · rcases mem_append.1 hx with hx | hx
    · exact hi.submitted x hx
    · obtain ⟨op, hop, h, hinput⟩ := hop
      rw [mem_singleton.1 hx]
      exact ⟨hclaim.1, op, hop, ⟨h.operation_key, h.task_id, h.id⟩, hinput⟩
  · exact nodup_concat hi.once fun y hy he => hclaim.2 y hy he.symm
  · rcases mem_append.1 hx with hx | hx
    · exact hx
    · rw [mem_singleton.1 hx] at hthread
      exact absurd hthread.symm hj

/-- What `submit` was not called for stays so, while the others run. -/
theorem Unused.env {claim : Claim} (h : Unused s claim) (hthread : claim.thread = i)
    (he : Env i s s') : Unused s' claim := by
  refine ⟨he.claims h.1, fun x hx hc => ?_⟩
  subst hc
  exact h.2 x (he.submits x hx hthread) rfl

/-- A claim that was just stored. -/
theorem unused_of_new (hi : Inv s) {claim : Claim}
    (hnew : ∀ y ∈ s.claims, claim.operation_key ≠ y.operation_key) :
    ∀ x ∈ s.submits, x.claim ≠ claim := by
  intro x hx hc
  have hmem := (hi.submitted x hx).1
  rw [hc] at hmem
  exact hnew claim hmem rfl

end StrixAlloy.OrderTasks

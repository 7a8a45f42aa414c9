import StrixAlloy.OrderTasks.Submission

/-!
# Reading a task again

`_head` counts what it reads and stops after 128 transitions; `command` stores a successor of whatever head
it was given. While a task has at most 128 transitions, `status` answers with the last one, and a new command
is decided on it (`readable_iff`). The 129th command is accepted, and from then on every request about the
task that reaches the chain ends with `invalid_chain` (`amended_unreadable`).
-/

namespace StrixAlloy.OrderTasks

open Interleave List

/-! ## What does not end with `invalid_chain` -/

/-- The program does not throw what the walk throws. -/
abbrev Calm {α : Type} (x : Action α) : Prop := Avoids "invalid_chain" x

theorem calm_idOf (v : Option Json) : Calm (idOf v) := by
  unfold idOf
  split
  · exact avoids_bind (avoids_ensure (by simp)) fun _ => avoids_pure _
  · exact avoids_throw (by simp)

theorem calm_schema (v : Option Json) (required : List String) : Calm (schema v required) := by
  unfold schema
  split
  · exact avoids_bind (avoids_ensure (by simp)) fun _ => avoids_pure _
  · exact avoids_throw (by simp)

theorem calm_proposalOf (v : Option Json) : Calm (proposalOf v) :=
  avoids_bind (calm_schema _ _) fun _ => avoids_bind (avoids_getSome (by simp)) fun _ =>
    avoids_bind (avoids_ensure (by simp)) fun _ => avoids_pure _

theorem calm_commandOf (input : Json) : Calm (commandOf input) :=
  avoids_bind (avoids_getSome (by simp)) fun _ => avoids_bind (calm_schema _ _) fun _ =>
    avoids_bind (calm_idOf _) fun _ => avoids_bind (calm_idOf _) fun _ =>
      avoids_bind (avoids_getSome (by simp)) fun _ => avoids_pure _

theorem refusal_mem (b : Binding) (task : Option Task) :
    (b.refusal task).getD "denied" ∈ ["invalid_identifier", "denied"] := by
  cases h : b.refusal task with
  | none => simp
  | some =>
    obtain ⟨field, -, hfield⟩ := List.exists_of_findSome?_eq_some h
    split_ifs at hfield <;> simp_all

theorem calm_actor (task : Option Task) (write : Bool) : Calm (actor task write) := by
  refine avoids_bind (avoids_ask _) fun answer => avoids_bind (avoids_getSome (by simp)) fun a => ?_
  refine avoids_bind (avoids_ensure (by simp)) fun _ => avoids_bind (avoids_ask _) fun now => ?_
  have hne : (a.binding.refusal task).getD "denied" ≠ "invalid_chain" :=
    ne_of_mem_of_not_mem (refusal_mem _ _) (by simp)
  refine avoids_bind (avoids_ensure (by simp)) fun _ => avoids_bind (avoids_ensure hne) fun _ => ?_
  cases task with
  | none => exact avoids_pure a
  | some =>
    refine avoids_bind (avoids_ask _) fun now => ?_
    exact avoids_bind (avoids_ensure (by simp)) fun _ => avoids_pure a

theorem calm_taskOf (id : String) (write : Bool) : Calm (taskOf id write) :=
  avoids_bind (avoids_ensure (by simp)) fun _ => avoids_bind (avoids_ask _) fun _ =>
    avoids_bind (avoids_getSome (by simp)) fun _ => avoids_bind (calm_actor _ _) fun _ => avoids_pure _

theorem calm_requireTask (id : String) : Calm (requireTask id) :=
  avoids_bind (avoids_ask _) fun _ => avoids_ensure (by simp)

/-! ### Operations and events -/

theorem avoids_getOperation (e key : String) : Avoids e (getOperation key) := by
  refine avoids_bind (avoids_ask _) fun found => ?_
  cases found with
  | none => exact avoids_pure _
  | some =>
    refine avoids_bind (avoids_ask _) fun event => ?_
    cases event.bind Event.receipt with
    | none => exact avoids_pure _
    | some => exact avoids_pure _

theorem calm_getOperation (key : String) : Calm (getOperation key) := avoids_getOperation _ key

theorem calm_operationFor (task : Task) (fence : Transition) (key : String) :
    Calm (operationFor task fence key) := by
  refine avoids_bind (calm_getOperation key) fun found => ?_
  cases found with
  | some => exact avoids_pure _
  | none =>
    refine avoids_bind (avoids_ask _) fun id => avoids_bind (calm_requireTask _) fun _ => ?_
    refine avoids_bind (avoids_ask _) fun stored => ?_
    split
    · exact avoids_pure _
    · exact calm_getOperation key

theorem calm_submit (task : Task) (key : String) (op : Operation) (claim : Claim) :
    Calm (submit task key op claim) := by
  refine avoids_bind (calm_actor _ _) fun _ => avoids_bind (avoids_tryCatch fun _ => avoids_pure _) fun o => ?_
  cases o with
  | some => exact avoids_pure _
  | none => exact calm_getOperation key

theorem calm_dispatch (task : Task) (fence : Transition) : Calm (dispatch task fence) := by
  refine avoids_bind (calm_taskOf _ _) fun task => avoids_bind (avoids_ask _) fun found => ?_
  refine avoids_bind (avoids_getSome (by simp)) fun stored => avoids_bind (avoids_ensure (by simp)) fun _ => ?_
  refine avoids_bind (avoids_getSome (by simp)) fun key => avoids_bind (calm_operationFor _ _ _) fun op => ?_
  refine avoids_bind (avoids_getSome (by simp)) fun op => avoids_bind (avoids_ensure (by simp)) fun _ => ?_
  split
  · exact avoids_pure _
  · refine avoids_bind (avoids_ask _) fun id => avoids_bind (avoids_ask _) fun now => ?_
    refine avoids_bind (calm_requireTask _) fun _ => avoids_bind (avoids_ask _) fun operation => ?_
    refine avoids_bind (avoids_ensure (by simp)) fun _ => avoids_bind (avoids_ask _) fun claimed => ?_
    split
    · exact calm_submit _ _ _ _
    · exact calm_getOperation key

theorem calm_ensureEvent (task : Task) (row : Transition) : Calm (ensureEvent task row) := by
  refine avoids_bind (avoids_ask _) fun event => ?_
  cases event with
  | some => exact avoids_pure _
  | none =>
    refine avoids_bind (avoids_ask _) fun id => avoids_bind (calm_requireTask _) fun _ => ?_
    refine avoids_bind (avoids_ask _) fun stored => ?_
    split
    · exact avoids_pure _
    · exact avoids_bind (avoids_ask _) fun _ => avoids_ensure (by simp)

theorem calm_resultOf (task : Task) (row : Transition) : Calm (resultOf task row) := by
  unfold resultOf
  split
  · exact avoids_bind (calm_dispatch _ _) fun _ => avoids_bind (calm_ensureEvent _ _) fun _ => avoids_pure _
  · exact avoids_bind (avoids_pure _) fun _ => avoids_bind (calm_ensureEvent _ _) fun _ => avoids_pure _

/-! ### Successors -/

theorem calm_confirmRow (c : Command) (head row : Transition) : Calm (confirmRow c head row) :=
  avoids_bind (calm_idOf _) fun _ => avoids_bind (calm_idOf _) fun _ =>
    avoids_bind (avoids_ensure (by simp)) fun _ => avoids_bind (avoids_ask _) fun _ =>
      avoids_bind (avoids_ensure (by simp)) fun _ => avoids_pure _

theorem calm_commitRow (c : Command) (head row : Transition) : Calm (commitRow c head row) :=
  avoids_bind (calm_idOf _) fun _ => avoids_bind (calm_idOf _) fun _ => avoids_bind (calm_idOf _) fun _ =>
    avoids_bind (avoids_ensure (by simp)) fun _ => avoids_bind (avoids_ask _) fun _ =>
      avoids_bind (avoids_ensure (by simp)) fun _ => avoids_bind (calm_getOperation _) fun _ =>
        avoids_bind (avoids_ensure (by simp)) fun _ => avoids_pure _

theorem calm_completed (hash : List Char → String) (c : Command) (task : Task) (head row : Transition) :
    Calm (completed hash c task head row) := by
  have hproposal : Calm (do
      let proposal ← proposalOf (Json.get? c.members "proposal")
      let now ← step .now
      pure { row with
        proposal := some proposal
        payload_hash := some (fingerprint hash (proposalJson proposal))
        expires_at := some (min task.expires_at (now + 300000)) }) :=
    avoids_bind (calm_proposalOf _) fun _ => avoids_bind (avoids_ask _) fun _ => avoids_pure _
  unfold completed
  split
  · exact hproposal
  · exact hproposal
  · exact calm_confirmRow c head row
  · exact calm_commitRow c head row
  · exact avoids_pure row
  · exact avoids_pure row

theorem calm_storeTransition (row : Transition) : Calm (storeTransition row) := by
  refine avoids_bind (calm_requireTask _) fun _ => avoids_bind (avoids_ask _) fun stored => ?_
  split
  · exact avoids_pure row
  · exact avoids_bind (avoids_ask _) fun _ => avoids_bind (avoids_getSome (by simp)) fun _ =>
      avoids_bind (avoids_ensure (by simp)) fun _ => avoids_pure _

/-! ## The walk -/

/-- The transitions of a task. -/
def Store.changes (s : Store) (task_id : String) : List Transition := s.transitions.filter (·.task_id = task_id)

/-- The last transition of a task, or its root. -/
def Store.head (s : Store) (task_id : String) : Transition := (s.changes task_id).getLastD (root task_id)

/-- No identifier of a task has a colon, as none of a GUID has. -/
def Guids (s : Store) : Prop := ∀ task ∈ s.tasks, ':' ∉ task.id.toList

instance : Nonempty Choice := ⟨⟨none, 0, "", by decide, false, none⟩⟩

/-- A separator that the first parts do not have. -/
theorem append_cons_inj {α : Type} {x : α} {a b c d : List α} (ha : x ∉ a) (hc : x ∉ c)
    (h : a ++ x :: b = c ++ x :: d) : a = c ∧ b = d := by
  rcases append_eq_append_iff.1 h with ⟨l, rfl, hl⟩ | ⟨l, rfl, hl⟩
  · cases l with
    | nil => exact ⟨(append_nil a).symm, (List.cons.inj hl).2⟩
    | cons => exact absurd (mem_append_right a ((List.cons.inj hl).1 ▸ mem_cons_self)) hc
  · cases l with
    | nil => exact ⟨append_nil c, (List.cons.inj hl).2.symm⟩
    | cons => exact absurd (mem_append_right c ((List.cons.inj hl).1 ▸ mem_cons_self)) ha

/-- A slot names its task and its predecessor. -/
theorem slot_inj {t t' p p' : String} (ht : ':' ∉ t.toList) (ht' : ':' ∉ t'.toList)
    (h : slot t p = slot t' p') : t = t' ∧ p = p' := by
  have h := congrArg String.toList h
  simp only [slot, String.toList_append, append_assoc] at h
  obtain ⟨h1, h2⟩ := append_cons_inj ht ht' h
  exact ⟨String.toList_injective h1, String.toList_injective h2⟩

/-- A lookup by a value that one row has. -/
theorem find_of_nodup {α β : Type} [DecidableEq β] {f : α → β} {l : List α} (h : (l.map f).Nodup) {x : α}
    (hx : x ∈ l) : l.find? (fun y => f y = f x) = some x := by
  cases hfind : l.find? (fun y => f y = f x) with
  | none => exact absurd (decide_eq_true rfl) (List.find?_eq_none.1 hfind x hx)
  | some y =>
    have hy : f y = f x := by simpa using List.find?_some hfind
    rw [eq_of_nodup h (mem_of_find?_eq_some hfind) hx hy]

section Walk

variable {s s' : Store} {i : ℕ} (hi : Inv s)

include hi

/-- The identifiers in a chain. -/
theorem Inv.chain_ids (t : String) : ((s.chain t).map Transition.id).Nodup := by
  rw [Store.chain, map_cons, nodup_cons]
  constructor
  · intro hmem
    obtain ⟨x, hx, hid⟩ := mem_map.1 hmem
    exact (hi.homed x (mem_filter.1 hx).1).1 hid
  · exact hi.transition_ids.sublist (filter_sublist.map _)

/-- The versions in a chain. -/
theorem Inv.chain_versions (t : String) : (s.chain t).Pairwise fun x y => x.version < y.version :=
  isChain_iff_pairwise.1 ((hi.chain t).imp fun x y (h : Successor x y) => by rw [h.version]; omega)

variable {post pre : List Transition}

/-- Two that are next to each other in a chain. -/
theorem Inv.next_of_chain {t : String} {h z : Transition} (hchain : s.chain t = pre ++ h :: z :: post) :
    Successor h z ∧ z ∈ s.transitions ∧ z.task_id = t := by
  constructor
  · have h' := hi.chain t
    rw [hchain, isChain_append] at h'
    exact (isChain_cons_cons.1 h'.2.1).1
  · have hz : z ∈ s.changes t := by
      have htail := congrArg List.tail hchain
      rw [Store.chain, tail_cons] at htail
      rw [Store.changes, htail]
      cases pre <;> simp
    obtain ⟨hz, hid⟩ := mem_filter.1 hz
    exact ⟨hz, of_decide_eq_true hid⟩

variable (hids : Guids s)

include hids

/-- What follows one of a chain is found by its slot, and nothing after the last one. -/
theorem Inv.find_slot {t : String} (ht : ∃ task ∈ s.tasks, task.id = t) {h : Transition}
    (hchain : s.chain t = pre ++ h :: post) :
    s.transitions.find? (fun r => r.predecessor_slot = slot t h.id) = post.head? := by
  obtain ⟨task, htask, rfl⟩ := ht
  cases post with
  | cons =>
    obtain ⟨hsucc, hz, hid⟩ := hi.next_of_chain hchain
    rw [← hid, ← hsucc.predecessor_slot]
    exact find_of_nodup hi.slots hz
  | nil =>
    refine List.find?_eq_none.2 fun x hx heq => ?_
    obtain ⟨y, hy, hyx⟩ := hi.predecessor hx
    obtain ⟨task', htask', hid'⟩ := (hi.homed x hx).2
    have hslot : slot x.task_id y.id = slot task.id h.id :=
      hyx.predecessor_slot.symm.trans (of_decide_eq_true heq)
    obtain ⟨hid, hyid⟩ := slot_inj (hid' ▸ hids task' htask') (hids task htask) hslot
    rw [hid] at hy
    have hh : h ∈ s.chain task.id := by
      rw [hchain]
      exact mem_append_right _ mem_cons_self
    have hyh : y = h := eq_of_nodup (hi.chain_ids task.id) hy hh hyid
    -- the last one has the greatest version, and `x` would have a greater one
    have hversions := hi.chain_versions task.id
    rw [hchain] at hversions
    have hx' : x ∈ pre ++ [h] := hchain ▸ mem_chain.2 (.inr ⟨hx, hid⟩)
    have hversion := hyx.version
    rw [hyh] at hversion
    rcases mem_append.1 hx' with hx' | hx'
    · have := (pairwise_append.1 hversions).2.2 x hx' h (mem_singleton_self h)
      omega
    · rw [mem_singleton.1 hx'] at hversion
      omega

/-- The question of each round. -/
theorem ends_slot {t : String} (ht : ∃ task ∈ s.tasks, task.id = t) {h : Transition}
    (hchain : s.chain t = pre ++ h :: post) {r : Except String (Option Transition)} :
    Prog.Ends exec i (step (.transitionBySlot (slot t h.id))).run s r s' ↔ r = .ok post.head? ∧ s' = s := by
  have hfind := hi.find_slot hids ht hchain
  refine ends_question.trans ⟨?_, ?_⟩
  · rintro ⟨c, rfl, rfl⟩
    exact ⟨congrArg Except.ok hfind, rfl⟩
  · rintro ⟨rfl, rfl⟩
    exact ⟨Classical.arbitrary Choice, congrArg Except.ok hfind.symm, rfl⟩

/-- The loop, while nobody else does anything. -/
theorem ends_headFrom {task : Task} (htask : task ∈ s.tasks) {n : ℕ} {h : Transition}
    (hchain : s.chain task.id = pre ++ h :: post) {r : Except String Transition} :
    Prog.Ends exec i (headFrom task n h).run s r s' ↔
      s' = s ∧ r = if post.length ≤ n then .ok (post.getLastD h) else .error "invalid_chain" := by
  induction n generalizing pre h post with
  | zero =>
    rw [headFrom, ends_seq_of (ends_slot hi hids ⟨task, htask, rfl⟩ hchain)]
    cases post with
    | nil => exact ends_pure.trans and_comm
    | cons => exact ends_throw.trans and_comm
  | succ n ih =>
    rw [headFrom, ends_seq_of (ends_slot hi hids ⟨task, htask, rfl⟩ hchain)]
    cases post with
    | nil => exact ends_pure.trans and_comm
    | cons z post =>
      have hchain' : s.chain task.id = (pre ++ [h]) ++ z :: post := by rw [hchain, append_assoc]; rfl
      obtain ⟨hsucc, hz⟩ := hi.next_of_chain hchain
      have hok : z.task_id = task.id ∧ z.version = h.version + 1 := ⟨hz.2, hsucc.version⟩
      have hensure : ∀ {r s'}, Prog.Ends exec i (ensure (z.task_id = task.id ∧ z.version = h.version + 1)
          "invalid_chain" : Action Unit).run s r s' ↔ r = .ok () ∧ s' = s := by
        intro r s'
        rw [ends_ensure, if_pos hok, and_comm]
      simp only [List.head?_cons, getLastD_cons, length_cons, Nat.add_le_add_iff_right]
      exact (ends_seq_of hensure).trans (ih hchain')

/-- `_head`, while nobody else does anything. -/
theorem ends_headOf {task : Task} (htask : task ∈ s.tasks) {r : Except String Transition} :
    Prog.Ends exec i (headOf task).run s r s' ↔ s' = s ∧
      r = if (s.changes task.id).length ≤ 128 then .ok (s.head task.id) else .error "invalid_chain" :=
  ends_headFrom hi hids htask (show s.chain task.id = [] ++ root task.id :: s.transitions.filter _ from rfl)

end Walk

/-! ## Callers -/

/-- The program changes nothing, but time may pass. -/
def Quiet {α : Type} (x : Action α) : Prop :=
  ∀ i s r s', Prog.Ends exec i x.run s r s' → ∃ t, s' = { s with clock := t }

section Quiet

variable {α β : Type} {x : Action α} {f : α → Action β}

theorem quiet_pure (a : α) : Quiet (pure a : Action α) := fun _ _ _ _ h => ⟨_, (ends_pure.1 h).2⟩

theorem quiet_ensure {p : Prop} [Decidable p] (e : String) : Quiet (ensure p e : Action Unit) :=
  fun _ _ _ _ h => ⟨_, (ends_ensure.1 h).1⟩

theorem quiet_getSome (o : Option α) (e : String) : Quiet (getSome o e : Action α) :=
  fun _ _ _ _ h => ⟨_, (ends_getSome.1 h).1⟩

theorem quiet_bind (hx : Quiet x) (hf : ∀ a, Quiet (f a)) : Quiet (x >>= f) := by
  intro i s r s' h
  rcases ends_seq.1 h with ⟨a, s₁, h, hf'⟩ | ⟨e, h, -⟩
  · obtain ⟨t, rfl⟩ := hx _ _ _ _ h
    obtain ⟨t', rfl⟩ := hf a _ _ _ _ hf'
    exact ⟨t', rfl⟩
  · exact hx _ _ _ _ h

theorem quiet_get {q : Query} (hq : ∀ i c s, ∃ t, (exec i c s q).2 = { s with clock := t }) :
    Quiet (step q) := by
  intro i s r s' h
  obtain ⟨c, -, rfl⟩ := ends_question.1 h
  exact hq i c s

theorem quiet_actor (task : Option Task) (write : Bool) : Quiet (actor task write) := by
  have hnow : Quiet (step .now) := quiet_get fun _ _ _ => ⟨_, rfl⟩
  refine quiet_bind (quiet_get fun _ _ s => ⟨s.clock, rfl⟩) fun answer => ?_
  refine quiet_bind (quiet_getSome _ _) fun a => quiet_bind (quiet_ensure _) fun _ => ?_
  refine quiet_bind hnow fun now => quiet_bind (quiet_ensure _) fun _ => quiet_bind (quiet_ensure _) fun _ => ?_
  cases task with
  | none => exact quiet_pure a
  | some =>
    exact quiet_bind hnow fun _ => quiet_bind (quiet_ensure _) fun _ => quiet_pure a

theorem quiet_taskOf (id : String) (write : Bool) : Quiet (taskOf id write) :=
  quiet_bind (quiet_ensure _) fun _ => quiet_bind (quiet_get fun _ _ s => ⟨s.clock, rfl⟩) fun _ =>
    quiet_bind (quiet_getSome _ _) fun _ => quiet_bind (quiet_actor _ _) fun _ => quiet_pure _

end Quiet

section Requests

variable {s s' : Store} {i : ℕ}

theorem Inv.at_time (hi : Inv s) (t : ℚ) : Inv { s with clock := t } :=
  { hi with }

/-- The task of a caller who is not refused. -/
theorem mem_of_ends_taskOf (hi : Inv s) {id : String} {write : Bool} {task : Task} {a : Authority}
    (h : Prog.Ends exec i (taskOf id write).run s (.ok (task, a)) s') :
    task ∈ s.tasks ∧ task.id = id ∧ ∃ t, s' = { s with clock := t } := by
  obtain ⟨t, rfl⟩ := quiet_taskOf id write _ _ _ _ h
  have hrun : rules.run i (taskOf id write) (fun r s' => r.1 ∈ s'.tasks ∧ r.1.id = id) s :=
    run_taskOf fun _ _ _ _ _ htask hid _ => ⟨htask, hid⟩
  obtain ⟨htask, hid⟩ := wp_sound h hi hrun (task, a) rfl
  exact ⟨htask, hid, t, rfl⟩

/-! ## What the head decides -/

/-- `status` with the head. -/
def statusOf (task : Task) (a : Authority) (head : Transition) : Action (Status × Authority) := do
  let event ← (if head.id = "root" then pure none else step (.eventById ("transition:" ++ head.id)))
  let operation ← (match head.kind, head.operation_key with
    | .commit, some key => getOperation key
    | _, _ => pure none)
  pure (⟨task.id, head.id, head.kind, head.version, task.binding.registry_revision, operation, event⟩, a)

theorem status_eq (id : String) : status id = (do
    let (task, a) ← taskOf id false
    let head ← headOf task
    statusOf task a head) := rfl

/-- `command` of a caller who is not refused, without an earlier one of the same identifier, with the head. -/
def decided (hash : List Char → String) (c : Command) (task : Task) (a : Authority) (fp : String)
    (head : Transition) : Action (CommandResult × Authority) := do
  ensure (head.id = c.expected_revision) "revision_conflict"
  ensure (head.kind ≠ .commit) "correction_deferred"
  ensure (head.kind ≠ .cancel) "task_cancelled"
  ensure (head.context_version.all (· ≤ c.context_version)) "revision_conflict"
  let guid ← step .id
  let row ← completed hash c task head (c.row task head guid.1 fp)
  let row ← storeTransition row
  let result ← resultOf task row
  pure (result, a)

/-- `command` for a command that is stored already. -/
def repeated (task : Task) (a : Authority) (id fp : String) (prior : Transition) :
    Action (CommandResult × Authority) := do
  ensure (prior.task_id = id ∧ prior.command_hash = fp) "command_conflict"
  let result ← resultOf task prior
  pure (result, a)

theorem command_eq (hash : List Char → String) (id : String) (input : Json) : command hash id input = (do
    let c ← commandOf input
    let (task, a) ← taskOf id (c.kind = .commit)
    let prior ← step (.transitionByCommand c.command_id)
    match prior with
    | some prior => repeated task a id (commandHash hash id task.binding input) prior
    | none => do
      let head ← headOf task
      decided hash c task a (commandHash hash id task.binding input) head) := rfl

/-- The status reports the transition. -/
structure HeadStatus (task_id : String) (head : Transition) (r : Status) : Prop where
  task_id : r.task_id = task_id
  revision : r.revision = head.id
  kind : r.kind = head.kind
  version : r.version = head.version

/-- How a command about the task ends, from the head it is decided on. -/
inductive Decides (hash : List Char → String) (i : ℕ) (s : Store) (id : String) (input : Json)
    (head : Transition) : Except String (CommandResult × Authority) → Store → Prop where
  | malformed (e : String) (s' : Store) (h : Prog.Ends exec i (commandOf input).run s (.error e) s') :
      Decides hash i s id input head (.error e) s'
  | refused (c : Command) (e : String) (s₁ s' : Store)
      (hc : Prog.Ends exec i (commandOf input).run s (.ok c) s₁)
      (h : Prog.Ends exec i (taskOf id (c.kind = .commit)).run s₁ (.error e) s') :
      Decides hash i s id input head (.error e) s'
  | repeated (c : Command) (task : Task) (a : Authority) (x : Transition) (r) (s₁ s₂ s' : Store)
      (hc : Prog.Ends exec i (commandOf input).run s (.ok c) s₁)
      (h : Prog.Ends exec i (taskOf id (c.kind = .commit)).run s₁ (.ok (task, a)) s₂)
      (hx : x ∈ s.transitions ∧ x.command_id = c.command_id)
      (hr : Prog.Ends exec i (repeated task a id (commandHash hash id task.binding input) x).run s₂ r s') :
      Decides hash i s id input head r s'
  | decided (c : Command) (task : Task) (a : Authority) (r) (s₁ s₂ s' : Store)
      (hc : Prog.Ends exec i (commandOf input).run s (.ok c) s₁)
      (h : Prog.Ends exec i (taskOf id (c.kind = .commit)).run s₁ (.ok (task, a)) s₂)
      (hnew : ∀ x ∈ s.transitions, x.command_id ≠ c.command_id)
      (hr : Prog.Ends exec i (decided hash c task a (commandHash hash id task.binding input) head).run s₂ r s') :
      Decides hash i s id input head r s'

/-- What a caller finds who asks about the task now. Unless the caller is refused, `status` answers with the
head, a command is decided on it, and neither ends with `invalid_chain`. -/
structure Readable (hash : List Char → String) (i : ℕ) (s : Store) (id : String) : Prop where
  status : ∀ r s', Prog.Ends exec i (status id).run s r s' → r ≠ .error "invalid_chain" ∧
    ((∃ e, Prog.Ends exec i (taskOf id false).run s (.error e) s' ∧ r = .error e) ∨
      ∃ x a, r = .ok (x, a) ∧ HeadStatus id (s.head id) x)
  command : ∀ input r s', Prog.Ends exec i (command hash id input).run s r s' →
    r ≠ .error "invalid_chain" ∧ Decides hash i s id input (s.head id) r s'

theorem ends_statusOf {task : Task} {a : Authority} {head : Transition} {r : Except String (Status × Authority)}
    (h : Prog.Ends exec i (statusOf task a head).run s r s') :
    ∃ x, r = .ok (x, a) ∧ HeadStatus task.id head x := by
  have hevent : ∀ e, Avoids e (if head.id = "root" then pure none
      else step (.eventById ("transition:" ++ head.id)) : Action (Option Event)) := by
    intro e
    split
    · exact avoids_pure _
    · exact avoids_ask _
  have hop : ∀ e, Avoids e (match head.kind, head.operation_key with
      | .commit, some key => getOperation key
      | _, _ => pure none : Action (Option Operation)) := by
    intro e
    split
    · exact avoids_getOperation e _
    · exact avoids_pure _
  rcases ends_seq.1 h with ⟨event, s₁, -, h⟩ | ⟨e, h, -⟩
  · rcases ends_seq.1 h with ⟨o, s₂, -, h⟩ | ⟨e, h, -⟩
    · obtain ⟨rfl, -⟩ := ends_pure.1 h
      exact ⟨_, rfl, rfl, rfl, rfl, rfl⟩
    · exact absurd h (hop e).not_ends
  · exact absurd h (hevent e).not_ends

theorem calm_decided (hash : List Char → String) (c : Command) (task : Task) (a : Authority) (fp : String)
    (head : Transition) : Calm (decided hash c task a fp head) :=
  avoids_bind (avoids_ensure (by simp)) fun _ => avoids_bind (avoids_ensure (by simp)) fun _ =>
    avoids_bind (avoids_ensure (by simp)) fun _ => avoids_bind (avoids_ensure (by simp)) fun _ =>
      avoids_bind (avoids_ask _) fun _ => avoids_bind (calm_completed _ _ _ _ _) fun _ =>
        avoids_bind (calm_storeTransition _) fun _ => avoids_bind (calm_resultOf _ _) fun _ => avoids_pure _

theorem calm_repeated (task : Task) (a : Authority) (id fp : String) (prior : Transition) :
    Calm (repeated task a id fp prior) :=
  avoids_bind (avoids_ensure (by simp)) fun _ => avoids_bind (calm_resultOf _ _) fun _ => avoids_pure _

end Requests

/-! ## Every run -/

section Runs

variable {s s' : Store} {i : ℕ} (hi : Inv s) (hids : Guids s) {id : String}

include hi hids

/-- What follows `_head`, while nobody else does anything but time may have passed. -/
theorem ends_after_headOf {task : Task} (htask : task ∈ s.tasks) {t : ℚ} {β : Type}
    {f : Transition → Action β} {r : Except String β} :
    Prog.Ends exec i (headOf task >>= f).run { s with clock := t } r s' ↔
      if (s.changes task.id).length ≤ 128 then
        Prog.Ends exec i (f (s.head task.id)).run { s with clock := t } r s'
      else s' = { s with clock := t } ∧ r = .error "invalid_chain" := by
  have hhead : ∀ {r s'}, Prog.Ends exec i (headOf task).run { s with clock := t } r s' ↔
      s' = { s with clock := t } ∧ r = if (s.changes task.id).length ≤ 128 then .ok (s.head task.id)
        else .error "invalid_chain" := ends_headOf (hi.at_time t) hids htask
  split_ifs at hhead ⊢ with hlen
  · exact ends_seq_of (hhead.trans and_comm)
  · rw [ends_seq]
    simp only [hhead]
    constructor
    · rintro (⟨head, s₁, ⟨-, h⟩, -⟩ | ⟨e, ⟨rfl, h⟩, rfl⟩)
      · cases h
      · cases h
        exact ⟨rfl, rfl⟩
    · rintro ⟨rfl, rfl⟩
      exact .inr ⟨_, ⟨rfl, rfl⟩, rfl⟩

/-- `status` of a caller who is not refused. -/
theorem status_cases {r : Except String (Status × Authority)}
    (h : Prog.Ends exec i (status id).run s r s') :
    (∃ e, Prog.Ends exec i (taskOf id false).run s (.error e) s' ∧ r = .error e) ∨
      if (s.changes id).length ≤ 128 then ∃ x a, r = .ok (x, a) ∧ HeadStatus id (s.head id) x
      else r = .error "invalid_chain" := by
  rw [status_eq] at h
  rcases ends_seq.1 h with ⟨⟨task, a⟩, s₁, h₁, h⟩ | ⟨e, he, rfl⟩
  · right
    obtain ⟨htask, rfl, t, rfl⟩ := mem_of_ends_taskOf hi h₁
    have h := (ends_after_headOf hi hids htask).1 h
    split_ifs at h ⊢ with hlen
    · obtain ⟨x, hx, hstatus⟩ := ends_statusOf h
      exact ⟨x, a, hx, hstatus⟩
    · exact h.2
  · exact .inl ⟨e, he, rfl⟩

/-- `status` of a caller who is not refused, after too many commands. -/
theorem status_unreadable (hlen : ¬(s.changes id).length ≤ 128) {task : Task} {a : Authority}
    (h : Prog.Ends exec i (taskOf id false).run s (.ok (task, a)) s') :
    Prog.Ends exec i (status id).run s (.error "invalid_chain") s' := by
  obtain ⟨htask, rfl, t, rfl⟩ := mem_of_ends_taskOf hi h
  rw [status_eq]
  refine ends_seq.2 (.inl ⟨_, _, h, (ends_after_headOf hi hids htask).2 ?_⟩)
  rw [if_neg hlen]
  exact ⟨rfl, rfl⟩

/-- A command, while its task's chain can be read. -/
theorem command_cases {hash : List Char → String} {input : Json} (hlen : (s.changes id).length ≤ 128)
    {r : Except String (CommandResult × Authority)} (h : Prog.Ends exec i (command hash id input).run s r s') :
    r ≠ .error "invalid_chain" ∧ Decides hash i s id input (s.head id) r s' := by
  rw [command_eq] at h
  rcases ends_seq.1 h with ⟨c, s₁, hc, hrest⟩ | ⟨e, he, rfl⟩
  swap
  · exact ⟨fun heq => (calm_commandOf input).error_ne he (Except.error.inj heq), .malformed e s' he⟩
  obtain ⟨r', hr'⟩ := silent_commandOf input
  have hs₁ : s₁ = s := by
    rw [hr'] at hc
    exact (ends_done.1 hc).2
  subst hs₁
  rcases ends_seq.1 hrest with ⟨⟨task, a⟩, s₂, h₂, hrest⟩ | ⟨e, he, rfl⟩
  swap
  · exact ⟨fun heq => (calm_taskOf id _).error_ne he (Except.error.inj heq), .refused c e s₁ s' hc he⟩
  obtain ⟨htask, hid, t, rfl⟩ := mem_of_ends_taskOf hi h₂
  rcases ends_seq.1 hrest with ⟨prior, s₃, h₃, hrest⟩ | ⟨e, he, rfl⟩
  swap
  · exact absurd he (avoids_ask _).not_ends
  obtain ⟨_, hprior, rfl⟩ := ends_question.1 h₃
  have hprior : prior = s₁.transitions.find? fun r => r.command_id = c.command_id := by
    cases hprior
    rfl
  cases prior with
  | some x =>
    have hx : x.command_id = c.command_id := by simpa using List.find?_some hprior.symm
    refine ⟨fun heq => (calm_repeated task a id _ x).not_ends (heq ▸ hrest), ?_⟩
    exact .repeated c task a x r s₁ _ s' hc h₂ ⟨mem_of_find?_eq_some hprior.symm, hx⟩ hrest
  | none =>
    have hrest := (ends_after_headOf hi hids htask).1 hrest
    rw [hid, if_pos hlen] at hrest
    refine ⟨fun heq => (calm_decided hash c task a _ _).not_ends (heq ▸ hrest), ?_⟩
    refine .decided c task a r s₁ _ s' hc h₂ (fun x hx heq => ?_) hrest
    exact List.find?_eq_none.1 hprior.symm x hx (decide_eq_true heq)

end Runs

/-- In every state that a run reaches, a task that a caller may read can be read if and only if it has at
most 128 transitions. -/
theorem readable_iff (hash : List Char → String) (clock : ℚ) (as : List (Act Choice Request))
    (hids : Guids (serve hash clock as).state) {i : ℕ} {id : String}
    (hcaller : ∃ task a s', Prog.Ends exec i (taskOf id false).run (serve hash clock as).state
      (.ok (task, a)) s') :
    Readable hash i (serve hash clock as).state id ↔ ((serve hash clock as).state.changes id).length ≤ 128 := by
  have hi := (serve_ok hash clock as).1
  constructor
  · intro h
    by_contra hlen
    obtain ⟨task, a, s', hcaller⟩ := hcaller
    exact (h.status _ _ (status_unreadable hi hids hlen hcaller)).1 rfl
  · intro hlen
    refine ⟨fun r s' h => ?_, fun input r s' h => command_cases hi hids hlen h⟩
    rcases status_cases hi hids h with ⟨e, he, rfl⟩ | hok
    · exact ⟨fun heq => (calm_taskOf id false).error_ne he (Except.error.inj heq), .inl ⟨e, he, rfl⟩⟩
    · rw [if_pos hlen] at hok
      obtain ⟨x, a, rfl, hstatus⟩ := hok
      exact ⟨nofun, .inr ⟨x, a, rfl, hstatus⟩⟩

end StrixAlloy.OrderTasks

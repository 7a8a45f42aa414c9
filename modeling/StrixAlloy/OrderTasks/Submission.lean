import StrixAlloy.OrderTasks.Answers

/-!
# An order is submitted once, as confirmed

From the invariant: a call of `submit` is for the proposal of a prepare, which is followed by the
confirmation that names it, which is followed by the commit that names both (`Confirmed`); no two calls are
for one task or for one operation key; a command is one transition, whatever is repeated (`OrderLaw`).
-/

namespace StrixAlloy.OrderTasks

open Interleave

/-! ## Predecessors -/

/-- Each element of a chain but the first follows another one. -/
theorem pred_of_isChain {α : Type} {R : α → α → Prop} {a : α} {l : List α} (h : (a :: l).IsChain R) {x : α}
    (hx : x ∈ l) : ∃ y ∈ a :: l, R y x := by
  induction l generalizing a with
  | nil => cases hx
  | cons b l ih =>
    rw [List.isChain_cons_cons] at h
    rcases List.mem_cons.1 hx with rfl | hx
    · exact ⟨a, List.mem_cons_self, h.1⟩
    · obtain ⟨y, hy, hr⟩ := ih h.2 hx
      exact ⟨y, List.mem_cons_of_mem _ hy, hr⟩

section Law

variable {s : Store} (hi : Inv s)

include hi

/-- A transition follows one of its task's chain. -/
theorem Inv.predecessor {x : Transition} (hx : x ∈ s.transitions) :
    ∃ y ∈ s.chain x.task_id, Successor y x :=
  pred_of_isChain (hi.chain x.task_id) (List.mem_filter.2 ⟨hx, decide_eq_true rfl⟩)

/-- After a transition that closes its task there is no other. -/
theorem Inv.last_of_closed {x : Transition} (hx : x ∈ s.transitions)
    (hclosed : x.kind = .commit ∨ x.kind = .cancel) : (s.chain x.task_id).getLast? = some x := by
  rcases eq_last_or_rel (hi.chain x.task_id) (mem_chain.2 (.inr ⟨hx, rfl⟩)) with h | ⟨z, _, hr⟩
  · exact h
  · rcases hclosed with hc | hc
    · exact absurd hc hr.still_open.1
    · exact absurd hc hr.still_open.2

/-- A task has one commit. -/
theorem Inv.commit_unique {x y : Transition} (hx : x ∈ s.transitions) (hy : y ∈ s.transitions)
    (hkx : x.kind = .commit) (hky : y.kind = .commit) (ht : x.task_id = y.task_id) : x = y := by
  have hlast := hi.last_of_closed hx (.inl hkx)
  rw [ht, hi.last_of_closed hy (.inl hky)] at hlast
  exact (Option.some.inj hlast).symm

/-- Two transitions of a task do not follow the same one. -/
theorem Inv.no_fork {x y : Transition} (hx : x ∈ s.transitions) (hy : y ∈ s.transitions)
    (ht : x.task_id = y.task_id) (hp : x.predecessor = y.predecessor) : x = y := by
  obtain ⟨x', _, hx'⟩ := hi.predecessor hx
  obtain ⟨y', _, hy'⟩ := hi.predecessor hy
  refine eq_of_nodup hi.slots hx hy ?_
  rw [hx'.predecessor_slot, hy'.predecessor_slot, ht, ← hx'.predecessor, ← hy'.predecessor, hp]

/-- An operation is the only one of its task. -/
theorem Inv.operation_unique {x y : Operation} (hx : x ∈ s.operations) (hy : y ∈ s.operations)
    (ht : x.task_id = y.task_id) : x = y := by
  obtain ⟨f, hf, hfx⟩ := hi.fenced x hx
  obtain ⟨g, hg, hgy⟩ := hi.fenced y hy
  have hfg : f = g := hi.commit_unique hf hg hfx.kind hgy.kind (by rw [hfx.task_id, hgy.task_id, ht])
  refine eq_of_nodup hi.operation_keys hx hy (Option.some.inj ?_)
  rw [← hfx.operation_key, ← hgy.operation_key, hfg]

/-- The claims of one operation key are one claim. -/
theorem Inv.submits_keys : (s.submits.map (·.claim.operation_key)).Nodup := by
  have hmap : s.submits.map (·.claim.operation_key) = (s.submits.map Submission.claim).map
      Claim.operation_key := by rw [List.map_map]; rfl
  rw [hmap]
  refine hi.once.map_on fun a ha b hb heq => ?_
  obtain ⟨x, hx, rfl⟩ := List.mem_map.1 ha
  obtain ⟨y, hy, rfl⟩ := List.mem_map.1 hb
  exact eq_of_nodup hi.claim_keys (hi.submitted x hx).1 (hi.submitted y hy).1 heq

/-- The claims of one task are one claim. -/
theorem Inv.submits_tasks : (s.submits.map (·.claim.task_id)).Nodup := by
  have hmap : s.submits.map (·.claim.task_id) = (s.submits.map Submission.claim).map Claim.task_id := by
    rw [List.map_map]; rfl
  rw [hmap]
  refine hi.once.map_on fun a ha b hb heq => ?_
  obtain ⟨x, hx, rfl⟩ := List.mem_map.1 ha
  obtain ⟨y, hy, rfl⟩ := List.mem_map.1 hb
  obtain ⟨hxc, o, ho, hox, -⟩ := hi.submitted x hx
  obtain ⟨hyc, p, hp, hpy, -⟩ := hi.submitted y hy
  have hop : o = p := hi.operation_unique ho hp (by rw [hox.task_id, hpy.task_id, heq])
  refine eq_of_nodup hi.claim_keys hxc hyc ?_
  rw [← hox.operation_key, ← hpy.operation_key, hop]

end Law

/-! ## What a call of `submit` is for -/

/-- The proposal `p` of the task was confirmed by `c`, and committed by `m` with the key, each following
the other and decided before it had expired. -/
structure Confirmed (p c m : Transition) (task_id key : String) : Prop where
  prepare : p.kind = .prepare ∧ p.task_id = task_id
  confirm : c.kind = .confirm ∧ c.task_id = task_id ∧ c.predecessor = p.id ∧ c.proposal_id = some p.id
  commit : m.kind = .commit ∧ m.task_id = task_id ∧ m.predecessor = c.id ∧ m.proposal_id = some p.id ∧
    m.confirmation_id = some c.id ∧ m.operation_key = some key
  unexpired : Unexpired p c ∧ Unexpired c m

/-- The claim of a call is stored, and its input is the proposal that was confirmed and committed. -/
theorem Inv.confirmed {s : Store} (hi : Inv s) {x : Submission} (hx : x ∈ s.submits) :
    ∃ p ∈ s.transitions, ∃ c ∈ s.transitions, ∃ m ∈ s.transitions,
      Confirmed p c m x.claim.task_id x.claim.operation_key ∧ x.input = submitInput p.proposal := by
  obtain ⟨-, op, hop, hclaims, hinput⟩ := hi.submitted x hx
  obtain ⟨m, hm, hfences⟩ := hi.fenced op hop
  have htask : m.task_id = x.claim.task_id := hfences.task_id.trans hclaims.task_id
  -- the confirmation before the commit
  obtain ⟨c, hc, hcm⟩ := hi.predecessor hm
  obtain ⟨hckind, hconfirmation, hproposal_id, hccarries, hcexp⟩ := hcm.commits hfences.kind
  rcases mem_chain.1 hc with rfl | ⟨hc, hctask⟩
  · cases hckind
  -- the proposal before the confirmation
  obtain ⟨p, hp, hpc⟩ := hi.predecessor hc
  obtain ⟨hpkind, hcproposal, hpcarries, hpexp⟩ := hpc.confirms hckind
  rcases mem_chain.1 hp with rfl | ⟨hp, hptask⟩
  · cases hpkind
  refine ⟨p, hp, c, hc, m, hm, ⟨⟨hpkind, ?_⟩, ⟨hckind, ?_, hpc.predecessor, hcproposal⟩, ⟨hfences.kind, htask,
    hcm.predecessor, hproposal_id.trans hcproposal, hconfirmation, ?_⟩, hpexp, hcexp⟩, ?_⟩
  · rw [hptask, hctask, htask]
  · rw [hctask, htask]
  · rw [hfences.operation_key, hclaims.operation_key]
  · rw [hinput, ← hfences.proposal, hccarries.1, hpcarries.1]

/-- A call of `submit` in a step is for a claim that was stored before it. -/
theorem claim_before_submit {hash : List Char → String} {p : Server} {a : Act Choice Request}
    (hi : Inv (p.step (prog hash) exec a).state) {x : Submission}
    (hx : x ∈ (p.step (prog hash) exec a).state.submits) : x ∈ p.state.submits ∨ x.claim ∈ p.state.claims := by
  have hclaim := (hi.submitted x hx).1
  cases a with
  | start => exact .inl hx
  | go i =>
    unfold Pool.step at hx hclaim
    rcases hthread : p.threads[i]? with _ | ⟨r, x | ⟨q, next⟩⟩
    all_goals simp only [hthread] at hx hclaim
    · exact .inl hx
    · exact .inl hx
    · cases q with
      | submit => exact .inr hclaim
      | _ => exact .inl hx

/-- What holds of the orders in every state of the server. -/
structure OrderLaw (hash : List Char → String) (p : Server) : Prop where
  chain : ∀ t, (p.state.chain t).IsChain Successor
  no_fork : ∀ x ∈ p.state.transitions, ∀ y ∈ p.state.transitions, x.task_id = y.task_id →
    x.predecessor = y.predecessor → x = y
  closed : ∀ x ∈ p.state.transitions, x.kind = .commit ∨ x.kind = .cancel →
    (p.state.chain x.task_id).getLast? = some x
  once_for_task : (p.state.submits.map (·.claim.task_id)).Nodup
  once_for_key : (p.state.submits.map (·.claim.operation_key)).Nodup
  confirmed : ∀ x ∈ p.state.submits, x.claim ∈ p.state.claims ∧
    ∃ q ∈ p.state.transitions, ∃ c ∈ p.state.transitions, ∃ m ∈ p.state.transitions,
      Confirmed q c m x.claim.task_id x.claim.operation_key ∧ x.input = submitInput q.proposal
  one_command : (p.state.transitions.map Transition.command_id).Nodup
  reported : ∀ id input r a, Gives p (.command id input) (.command r a) →
    ∃ x ∈ p.state.transitions, Reports x r ∧ x.command_hash = commandHash hash id a.binding input

/-- In every run, also one that stops in the middle of requests and repeats them. -/
theorem order_submitted_once (hash : List Char → String) (clock : ℚ) (as : List (Act Choice Request)) :
    OrderLaw hash (serve hash clock as) ∧
      ∀ a, ∀ x ∈ (serve hash clock (as ++ [a])).state.submits,
        x ∈ (serve hash clock as).state.submits ∨ x.claim ∈ (serve hash clock as).state.claims := by
  obtain ⟨hi, hanswers⟩ := serve_ok hash clock as
  refine ⟨⟨hi.chain, fun x hx y hy => hi.no_fork hx hy, fun x hx => hi.last_of_closed hx, hi.submits_tasks,
    hi.submits_keys, fun x hx => ⟨(hi.submitted x hx).1, hi.confirmed hx⟩, hi.command_ids,
    fun id input r a h => (hanswers _ _ h).2.2.1⟩, fun a x hx => ?_⟩
  have hi' := (serve_ok hash clock (as ++ [a])).1
  have hrun : serve hash clock (as ++ [a]) = (serve hash clock as).step (prog hash) exec a :=
    Runs.run_append _ _ _ _
  rw [hrun] at hi' hx
  exact claim_before_submit hi' hx

end StrixAlloy.OrderTasks

import StrixAlloy.OrderTasks.Requests

/-!
# From a commit to the call of `submit`

What `dispatch` relies on and leaves, and with it each of the four requests: `submit` is called for a claim
that the request has stored and that nobody used, with the proposal of the operation it claims, and what a
request answers is stored (`Answered`).
-/

namespace StrixAlloy.OrderTasks

open Interleave

section Rules

variable {i : ℕ} {s s' : Store}

/-! ## The guard -/

/-- Where the key of an operation is known, every lookup shows an operation of the same task. -/
theorem Found.task_id {key : String} {o : Option Operation} {op : Operation} (hi : Inv s)
    (h : Found s key o) (hop : Shows s op) (hkey : op.operation_key = key) :
    ∀ op', o = some op' → Shows s op' ∧ op'.task_id = op.task_id := by
  intro op' hop'
  obtain ⟨hshow, hkey'⟩ := h op' hop'
  refine ⟨hshow, ?_⟩
  obtain ⟨row', hrow', hs'⟩ := hshow
  obtain ⟨row, hrow, hs⟩ := hop
  have heq : row'.operation_key = row.operation_key := by
    calc row'.operation_key = op'.operation_key := by rw [hs']
      _ = op.operation_key := by rw [hkey', hkey]
      _ = row.operation_key := by rw [hs]
  rw [hs', hs, eq_of_nodup hi.operation_keys hrow' hrow heq]

theorem run_settle {key : String} {result : Option SubmitResult} {post : Option Operation → Store → Prop}
    (h : ∀ o s', Env i s s' → Inv s' → Found s' key o → post o s') (hi : Inv s) :
    rules.run i (settle key result) post s := by
  have hstored : ∀ op s', Env i s s' → Inv s' → Shows s' op → op.operation_key = key →
      rules.run i (pure (some op) : Action (Option Operation)) post s' := by
    intro op s' he' hi' hshow hkey
    refine run_pure (h _ s' he' hi' fun op' hop' => ?_)
    rw [← Option.some.inj hop']
    exact ⟨hshow, hkey⟩
  refine run_bind (run_getSome fun result _ => ?_)
  split
  · refine run_bind (run_silent (silent_reference _) fun request_ref => ?_)
    refine run_bind (run_silent (silent_reference _) fun execution_ref => ?_)
    exact run_bind (run_storeReceipt hstored)
  · refine run_bind (run_silent (silent_reference _) fun request_ref => ?_)
    exact run_bind (run_storeReceipt hstored)
  · exact run_pure (h none s (Env.refl i s) hi fun op hop => by cases hop)

theorem run_operationFor {task : Task} {fence : Transition} {key : String}
    {post : Option Operation → Store → Prop} (htask : task ∈ s.tasks) (hfence : fence ∈ s.transitions)
    (hkind : fence.kind = .commit) (htask_id : fence.task_id = task.id)
    (hkey : fence.operation_key = some key)
    (h : ∀ o s', Env i s s' → Inv s' → Found s' key o → post o s') :
    rules.run i (operationFor task fence key) post s := by
  refine run_bind (run_getOperation fun found s₁ he₁ hi₁ hfound => ?_)
  cases found with
  | some => exact run_pure (h _ s₁ he₁ hi₁ hfound)
  | none =>
    refine run_bind (run_id fun id s₂ he₂ hi₂ => ?_)
    refine run_bind (run_requireTask fun s₃ he₃ hi₃ => ?_)
    have he₃ := (he₁.trans he₂).trans he₃
    refine run_bind (run_insert (fun s' he' hi' => keeps_insertOperation hi'
      ⟨fence, (he₃.trans he').transitions hfence, hkind, rfl, htask_id, hkey, rfl, rfl⟩
      ⟨task, (he₃.trans he').tasks htask, rfl, rfl⟩) (fun _ _ => rfl)
      fun c s₄ stored s₅ he₄ hi₄ heq he₅ hi₅ => ?_)
    have he₅ := he₃.trans he₅
    cases stored with
    | true =>
      obtain ⟨hstored, rfl⟩ := Prod.mk.inj heq
      refine run_pure (h _ _ he₅ hi₅ fun op hop => ?_)
      rw [← Option.some.inj hop]
      exact ⟨⟨_, (mem_of_insert hstored).1, rfl⟩, rfl⟩
    | false => exact run_getOperation fun o s₆ he₆ hi₆ hfound => h o s₆ (he₅.trans he₆) hi₆ hfound

/-- The part after the claim: `submit` is called for it at most once. -/
theorem run_submit {task : Task} {key : String} {op : Operation} {claim : Claim}
    {post : Option Operation → Store → Prop} (hclaim : Unused s { claim with thread := i })
    (hop : ∃ row ∈ s.operations, Claims row claim ∧ row.proposal = op.proposal)
    (h : ∀ o s', Grows s s' → Inv s' → Found s' key o → post o s') :
    rules.run i (submit task key op claim) post s := by
  obtain ⟨row, hrow, hclaims, hproposal⟩ := hop
  refine run_bind (run_actor fun a s₁ he₁ hi₁ _ => ?_)
  refine run_seq (fun o s' => Grows s s' ∧ Inv s' ∧ Found s' key o)
    (run_tryCatch hi₁ (run_bind (run_ask fun s₂ he₂ hi₂ => ?_)) fun e s₂ hg hi₂ => ?_) fun o s₃ h₃ => ?_
  · have he₂ := he₁.trans he₂
    have hk : rules.Keeps i s₂ (.submit (submitInput op.proposal) claim) :=
      keeps_submit hi₂ (hclaim.env rfl he₂) ⟨row, he₂.operations hrow, hclaims, by rw [hproposal]⟩
    refine ⟨hk, fun c => run_settle (fun o s' he' hi' ho => ⟨?_, hi', ho⟩) (hk c).1⟩
    exact (he₂.toGrows.trans ((hk c).2 (i + 1) (Nat.succ_ne_self i)).toGrows).trans he'.toGrows
  · exact run_pure ⟨he₁.toGrows.trans hg, hi₂, fun op hop => by cases hop⟩
  · obtain ⟨hg, hi₃, ho⟩ := h₃
    cases o with
    | some => exact run_pure (h _ s₃ hg hi₃ ho)
    | none => exact run_getOperation fun o s' he' hi' ho => h o s' (hg.trans he'.toGrows) hi' ho

theorem run_insertClaim {row : Claim} {post : Bool → Store → Prop}
    (hop : ∃ op ∈ s.operations, Claims op row)
    (h : ∀ r s', Env i s s' → Inv s' → (r = true → Unused s' { row with thread := i }) → post r s') :
    rules.run i (step (.insertClaim row)) post s := by
  obtain ⟨op, hop, hclaims⟩ := hop
  refine run_insert (fun s' he' hi' => keeps_insertClaim hi' ⟨op, he'.operations hop, hclaims⟩)
    (fun _ _ => rfl) fun c s₁ stored s₂ he₁ hi₁ heq he₂ hi₂ => ?_
  obtain ⟨hstored, rfl⟩ := Prod.mk.inj heq
  refine h stored _ he₂ hi₂ fun htrue => ?_
  obtain ⟨hmem, hnew⟩ := mem_of_insert (hstored.trans htrue)
  refine ⟨hmem, unused_of_new hi₁ fun y hy hkey => ?_⟩
  have hclash := hnew y hy
  simp only [Claim.clash, Bool.or_eq_false_iff, decide_eq_false_iff_not] at hclash
  exact hclash.2 hkey

/-- `dispatch` ends with an operation of the task, if with any. -/
theorem run_dispatch {task : Task} {fence : Transition} {post : Option Operation → Store → Prop}
    (h : ∀ o s', Grows s s' → Inv s' → (∀ op, o = some op → Shows s' op ∧ op.task_id = task.id) →
      post o s') : rules.run i (dispatch task fence) post s := by
  refine run_bind (run_taskOf fun task' a s₁ he₁ hi₁ htask hid _ => ?_)
  refine run_bind (run_get _ (fun _ _ => rfl) fun found s₂ he₂ hi₂ hfound => ?_)
  refine run_bind (run_getSome fun stored hstored => ?_)
  rw [hfound] at hstored
  refine run_bind (run_ensure fun hfence => ?_)
  refine run_bind (run_getSome fun key hkey => ?_)
  refine run_bind (run_operationFor (he₂.tasks htask) (List.mem_of_find?_eq_some hstored) hfence.1
    hfence.2.1 hkey fun o s₃ he₃ hi₃ ho => ?_)
  refine run_bind (run_getSome fun op hop => ?_)
  refine run_bind (run_ensure fun howner => ?_)
  obtain ⟨hshow, hkey'⟩ := ho op hop
  have htask_id : op.task_id = task.id := howner.1.trans hid
  have he₃ := (he₁.trans he₂).trans he₃
  -- any later lookup of the key shows the same operation
  have hlast : ∀ o s', Grows s s' → Grows s₃ s' → Inv s' → Found s' key o → post o s' := by
    intro o s' hg hg₃ hi' ho'
    refine h o s' hg hi' fun op' hop' => ?_
    obtain ⟨hshow', heq⟩ := ho'.task_id hi' (hshow.grows hg₃) hkey' op' hop'
    exact ⟨hshow', heq.trans htask_id⟩
  split
  · refine run_pure (h _ s₃ he₃.toGrows hi₃ fun op' hop' => ?_)
    rw [← Option.some.inj hop']
    exact ⟨hshow, htask_id⟩
  · refine run_bind (run_id fun id s₄ he₄ hi₄ => ?_)
    refine run_bind (run_now fun now s₅ he₅ hi₅ => ?_)
    refine run_bind (run_requireTask fun s₆ he₆ hi₆ => ?_)
    refine run_bind (run_get _ (fun _ _ => rfl) fun operation s₇ he₇ hi₇ _ => ?_)
    refine run_bind (run_ensure fun _ => ?_)
    have he₇ : Env i s₃ s₇ := ((he₄.trans he₅).trans he₆).trans he₇
    obtain ⟨row, hrow, hs⟩ := hshow
    have hclaims : Claims row ⟨id.1, key, op.id, task'.id, now, 0⟩ := by
      refine ⟨?_, ?_, ?_⟩
      · rw [← hkey', hs]
      · rw [← howner.1, hs]
      · rw [hs]
    refine run_bind (run_insertClaim ⟨row, he₇.operations hrow, hclaims⟩ fun claimed s₈ he₈ hi₈ hnew => ?_)
    have he₈ := he₇.trans he₈
    have hg₈ := (he₃.trans he₈).toGrows
    split
    · refine run_submit (hnew ‹_›) ⟨row, he₈.operations hrow, hclaims, by rw [hs]⟩ fun o s' hg hi' ho' => ?_
      exact hlast o s' (hg₈.trans hg) (he₈.toGrows.trans hg) hi' ho'
    · exact run_getOperation fun o s' he' hi' ho' =>
        hlast o s' (hg₈.trans he'.toGrows) (he₈.trans he').toGrows hi' ho'

end Rules

end StrixAlloy.OrderTasks

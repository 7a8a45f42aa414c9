import StrixAlloy.Lib.Runs
import StrixAlloy.Pld.Transaction

/-!
# Appending and rebuilding

A coordinator that appends and one that rebuilds stay `Alike`: they differ in the engine's context at most, and while a
state is held not in that either (`Fed`). Rebuilding looks at the logits of the last window only, so the calls where an
earlier refusal decides are left out (`Covered`).
-/

namespace StrixAlloy.Pld.Transaction

open Checked Runs TransactionCoordinator List

variable {V : Type} {F : Floats V} {raw : List ℤ → List V} {h : Hmac} {c a r : TransactionCoordinator V}

/-- The drafts of a pending proposal that the engine has consumed. -/
def TransactionCoordinator.fed (c : TransactionCoordinator V) : List ℤ :=
  match c.pending with
  | none => []
  | some p => p.ids.dropLast

/-- A held state: its logits are those of its ids, and the engine has consumed these and the drafts fed. -/
structure Held (F : Floats V) (raw : List ℤ → List V) (c : TransactionCoordinator V) (st : CommittedState V) :
    Prop where
  logits : ownedLogits F (raw st.ids) = .ok st.logits
  count : (st.ids.length : ℤ) = st.binding.committed_prefix_length - st.binding.window_origin
  context : c.context = st.ids ++ c.fed
  drafts : ∀ p, c.pending = some p → p.ids ≠ [] ∧ ownedLogits F (raw c.context) = .ok p.logits

/-- The engine has consumed what the held state says. -/
def Fed (F : Floats V) (raw : List ℤ → List V) (c : TransactionCoordinator V) : Prop :=
  ∀ st, c.state = some st → Held F raw c st

/-- The coordinator that always rebuilds. -/
def TransactionCoordinator.rebuilding (c : TransactionCoordinator V) : TransactionCoordinator V :=
  { c with append_when_authoritative := false }

/-- The second coordinator is the first one that always rebuilds, up to the context when no state is held. -/
def Alike (a r : TransactionCoordinator V) : Prop :=
  ∃ context, r = { a.rebuilding with context := context } ∧ (a.state ≠ none → context = a.context)

/-- Two calls leave coordinators that are alike, and return the same. -/
structure Agree (x y : TransactionCoordinator V × Except String (Result V)) : Prop where
  alike : Alike x.1 y.1
  answer : x.2.toOption = y.2.toOption

theorem fed_retired (hs : c.state = none) : Fed F raw c := fun _ h => absurd (hs.symm.trans h) nofun

@[simp]
theorem rebuilding_enabled : a.rebuilding.enabled = a.enabled := rfl

/-! ## Loops -/

variable {context tokens : List ℤ}

/-- The drafts are those of one context, and the last of them is not consumed. -/
theorem draft_ok {n : ℕ} {logits : List V} {d : List ℤ × List V} (hl : ownedLogits F (raw context) = .ok logits)
    (hd : (draft F raw (n + 1) logits context).2 = .ok d) :
    d.1 ≠ [] ∧ (draft F raw (n + 1) logits context).1 = context ++ d.1.dropLast ∧
      ownedLogits F (raw (context ++ d.1.dropLast)) = .ok d.2 := by
  induction n generalizing logits context d with
  | zero =>
    obtain rfl := Except.ok.inj hd
    refine ⟨cons_ne_nil _ _, (append_nil _).symm, ?_⟩
    rw [dropLast_singleton, append_nil]
    exact hl
  | succ n ih =>
    rw [draft] at hd ⊢
    cases ho : ownedLogits F (raw (context ++ [(bestToken F logits : ℤ)])) with
    | error => simp only [ho, reduceCtorEq] at hd
    | ok logits' =>
      simp only [ho] at hd ⊢
      cases hr : (draft F raw (n + 1) logits' (context ++ [(bestToken F logits : ℤ)])).2 with
      | error => simp only [hr, Except.map, reduceCtorEq] at hd
      | ok =>
        obtain ⟨hne, hctx, howned⟩ := ih ho hr
        rw [hr] at hd
        obtain rfl := Except.ok.inj hd
        simp only [dropLast_cons_of_ne_nil hne]
        refine ⟨cons_ne_nil _ _, ?_, ?_⟩
        · rw [hctx, append_assoc, singleton_append]
        · rw [← howned, append_assoc, singleton_append]

/-- Feeding ids gives the logits of the context with them, unless a refusal in between decides. -/
theorem feed_toOption {logits : List V} (hl : ownedLogits F (raw context) = .ok logits)
    (hcovered : ∀ before after, tokens = before ++ after → before ≠ [] → after ≠ [] →
      (ownedLogits F (raw (context ++ before))).toOption = none →
      (ownedLogits F (raw (context ++ tokens))).toOption = none) :
    (feed F raw tokens logits context).2.toOption = (ownedLogits F (raw (context ++ tokens))).toOption := by
  induction tokens generalizing logits context with
  | nil => rw [feed, append_nil, hl]
  | cons token tokens ih =>
    rw [feed]
    cases ho : ownedLogits F (raw (context ++ [token])) with
    | error =>
      show none = _
      cases tokens with
      | nil => rw [ho]; rfl
      | cons x xs =>
        refine (hcovered [token] (x :: xs) rfl (cons_ne_nil _ _) (cons_ne_nil _ _) ?_).symm
        rw [ho]
        rfl
    | ok =>
      have heq : context ++ token :: tokens = context ++ [token] ++ tokens := by simp
      rw [heq]
      refine ih ho fun before after ht hb ha hn => ?_
      rw [← heq]
      refine hcovered (token :: before) after (by rw [ht, cons_append]) (cons_ne_nil _ _) ha ?_
      rw [← hn, append_assoc, singleton_append]

/-- A feed that succeeds consumes its ids. -/
theorem feed_context {logits logits' : List V} (hf : (feed F raw tokens logits context).2 = .ok logits') :
    (feed F raw tokens logits context).1 = context ++ tokens := by
  induction tokens generalizing logits context with
  | nil => rw [feed, append_nil]
  | cons token tokens ih =>
    rw [feed] at hf ⊢
    cases ho : ownedLogits F (raw (context ++ [token])) with
    | error => simp [ho] at hf
    | ok =>
      simp only [ho] at hf ⊢
      rw [ih hf, append_assoc, singleton_append]

theorem feed_ok {logits logits' : List V} (hl : ownedLogits F (raw context) = .ok logits)
    (hf : (feed F raw tokens logits context).2 = .ok logits') :
    ownedLogits F (raw (context ++ tokens)) = .ok logits' := by
  induction tokens generalizing logits context with
  | nil =>
    rw [append_nil, hl]
    exact hf
  | cons token tokens ih =>
    rw [feed] at hf
    cases ho : ownedLogits F (raw (context ++ [token])) with
    | error => simp [ho] at hf
    | ok =>
      simp only [ho] at hf
      rw [← ih ho hf, append_assoc, singleton_append]

/-! ## Calls -/

theorem trusted_alike (context : List ℤ) (binding : Option ProposalBinding) :
    trusted { a.rebuilding with context := context } binding = a.trusted binding := by
  cases binding <;> rfl

theorem alike_retired (hs : a.state = none) : Alike a { a.rebuilding with context := context } :=
  ⟨context, rfl, fun hn => absurd hs hn⟩

/-- Both rebuild alike. -/
theorem agree_rebuild (context : List ℤ) (b : ProposalBinding) (ids : List ℤ) :
    Agree (a.rebuild F raw b ids) (rebuild F raw { a.rebuilding with context := context } b ids) := by
  unfold rebuild
  cases ownedLogits F (raw ids) with
  | error => exact ⟨⟨ids, rfl, fun _ => rfl⟩, rfl⟩
  | ok => exact ⟨⟨ids, rfl, fun _ => rfl⟩, rfl⟩

theorem fed_rebuild {b : ProposalBinding} {ids : List ℤ}
    (hlen : (ids.length : ℤ) = b.committed_prefix_length - b.window_origin) : Fed F raw (c.rebuild F raw b ids).1 := by
  unfold rebuild
  cases ho : ownedLogits F (raw ids) with
  | error => exact fed_retired rfl
  | ok =>
    intro st hs
    cases hs
    exact ⟨ho, hlen, (append_nil _).symm, nofun⟩

/-- A window is of its binding, and short. -/
theorem window_ok {b : ProposalBinding} {ids : Option (List ℤ)} {l : List ℤ} (hw : window b ids = .ok l) :
    ids = some l ∧ l.length ≤ MAX_WINDOW_TOKENS ∧ (l.length : ℤ) = b.committed_prefix_length - b.window_origin := by
  cases ids with
  | none => cases hw
  | some =>
    simp only [window, bind_eq_ok, require_eq_ok, exists_and_left, exists_const, pure_eq_ok] at hw
    obtain ⟨⟨-, hmax, hlen, -⟩, -, rfl⟩ := hw
    exact ⟨rfl, hmax, hlen⟩

/-- A reset answers alike and leaves both alike. -/
theorem agree_reset (ha : Alike a r) (binding : Option ProposalBinding) (ids : Option (List ℤ)) :
    Agree (a.reset F raw binding ids) (r.reset F raw binding ids) := by
  obtain ⟨context, rfl, hctx⟩ := ha
  unfold reset
  simp only [trusted_alike]
  split
  · rename_i he
    rw [if_pos (by exact he)]
    exact ⟨⟨context, rfl, hctx⟩, rfl⟩
  · rename_i he
    rw [if_neg (by exact he)]
    cases a.trusted binding with
    | error => exact ⟨alike_retired rfl, rfl⟩
    | ok b =>
      simp only
      split
      · rename_i hn
        rw [if_pos (by exact hn)]
        exact ⟨alike_retired rfl, rfl⟩
      · rename_i hn
        rw [if_neg (by exact hn)]
        cases window b ids with
        | error => exact ⟨alike_retired rfl, rfl⟩
        | ok ids => exact agree_rebuild context b ids

theorem fed_reset (hf : Fed F raw c) (binding : Option ProposalBinding) (ids : Option (List ℤ)) :
    Fed F raw (c.reset F raw binding ids).1 := by
  unfold reset
  split
  · exact hf
  · split
    · exact fed_retired rfl
    · simp only
      split
      · exact fed_retired rfl
      · split
        · exact fed_retired rfl
        · rename_i hw
          exact fed_rebuild (window_ok hw).2.2

/-- A prediction is the same on both sides. -/
theorem agree_predict (st : CommittedState V) (b : ProposalBinding) (drafts : ℕ) :
    Agree (a.predict F raw h st b drafts) (a.rebuilding.predict F raw h st b drafts) := by
  have hr : a.rebuilding.predict F raw h st b drafts =
      predict F raw h { a with append_when_authoritative := false } st b drafts := rfl
  rw [hr]
  unfold predict
  simp only
  generalize draft F raw drafts st.logits a.context = x
  cases x.2 with
  | error => exact ⟨alike_retired rfl, rfl⟩
  | ok d =>
    simp only
    cases encodeProposal h b d.1 a.key_id a.integrity_key with
    | error => exact ⟨alike_retired rfl, rfl⟩
    | ok => exact ⟨⟨x.1, rfl, fun _ => rfl⟩, rfl⟩

variable {st : CommittedState V}

/-- While a state is held, the contexts are the same. -/
theorem alike_held (ha : Alike a r) (hs : a.state = some st) : r = a.rebuilding := by
  obtain ⟨context, rfl, hctx⟩ := ha
  obtain rfl := hctx (by rw [hs]; exact Option.some_ne_none st)
  rfl

theorem alike_none (ha : Alike a r) (hs : a.state = none) : r.state = none := by
  obtain ⟨context, rfl, -⟩ := ha
  exact hs

theorem proposable_rebuilding (st : CommittedState V) (binding : Option ProposalBinding) (max_drafts : Option ℤ) :
    a.rebuilding.proposable st binding max_drafts = a.proposable st binding max_drafts := by
  cases binding <;> rfl

theorem propose_none (hs : c.state = none) (binding : Option ProposalBinding) (max_drafts : Option ℤ) :
    c.propose F raw h binding max_drafts = (c, .ok (.proposal none)) := by
  rw [propose, hs]

/-- A proposal from a state that is held. -/
theorem propose_held (hs : c.state = some st) (binding : Option ProposalBinding) (max_drafts : Option ℤ) :
    c.propose F raw h binding max_drafts =
      if !c.enabled then (c, .ok (.proposal none))
      else
        match c.proposable st binding max_drafts with
        | .error e => (c, .error e)
        | .ok (b, drafts) => c.predict F raw h st b drafts := by
  cases c
  cases hs
  rfl

/-- A proposal answers alike and leaves both alike. -/
theorem agree_propose (ha : Alike a r) (binding : Option ProposalBinding) (max_drafts : Option ℤ) :
    Agree (a.propose F raw h binding max_drafts) (r.propose F raw h binding max_drafts) := by
  cases hs : a.state with
  | none =>
    rw [propose_none hs, propose_none (alike_none ha hs)]
    exact ⟨ha, rfl⟩
  | some st =>
    obtain rfl := alike_held ha hs
    rw [propose_held hs, propose_held (c := a.rebuilding) hs, proposable_rebuilding]
    rw [rebuilding_enabled]
    split
    · exact ⟨ha, rfl⟩
    · cases a.proposable st binding max_drafts with
      | error => exact ⟨ha, rfl⟩
      | ok d => exact agree_predict st d.1 d.2

theorem fed_predict (hs : c.state = some st) (hheld : Held F raw c st) (hp : c.pending = none) (b : ProposalBinding)
    (n : ℕ) : Fed F raw (c.predict F raw h st b (n + 1)).1 := by
  have hctx : c.context = st.ids := by rw [hheld.context, TransactionCoordinator.fed, hp, append_nil]
  unfold predict
  simp only
  split
  · exact fed_retired rfl
  · rename_i d hd
    obtain ⟨hne, hdraft, howned⟩ := draft_ok (hctx ▸ hheld.logits) hd
    split
    · exact fed_retired rfl
    · intro st' hs'
      obtain rfl : st = st' := Option.some.inj (hs.symm.trans hs')
      refine ⟨hheld.logits, hheld.count, ?_, fun p hp' => ?_⟩
      · show (draft F raw (n + 1) st.logits c.context).1 = st.ids ++ d.1.dropLast
        rw [hdraft, hctx]
      · cases hp'
        refine ⟨hne, ?_⟩
        rw [hdraft, howned]

theorem proposable_ok {binding : Option ProposalBinding} {max_drafts : Option ℤ} {b : ProposalBinding} {n : ℕ}
    (hp : c.proposable st binding max_drafts = .ok (b, n)) : c.pending = none ∧ 1 ≤ n := by
  simp only [proposable, bind_eq_ok, require_eq_ok, orThrow_eq_ok, exists_and_left, exists_const, pure_eq_ok,
    Option.filter_eq_some_iff, decide_eq_true_eq, Prod.mk.injEq, Option.isNone_iff_eq_none] at hp
  obtain ⟨-, -, ⟨hnone, -⟩, k, ⟨-, hk, -⟩, -, -, rfl⟩ := hp
  exact ⟨hnone, by omega⟩

theorem fed_propose (hf : Fed F raw c) (binding : Option ProposalBinding) (max_drafts : Option ℤ) :
    Fed F raw (c.propose F raw h binding max_drafts).1 := by
  unfold propose
  split
  · exact hf
  · rename_i st hs
    split
    · exact hf
    · split
      · exact hf
      · rename_i b n hp
        obtain ⟨hnone, hn⟩ := proposable_ok hp
        obtain ⟨m, rfl⟩ := Nat.exists_eq_add_of_le' hn
        exact fed_predict hs (hf st hs) hnone b m

/-- What `judge` has checked. -/
structure Advances (c : TransactionCoordinator V) (st : CommittedState V) (p : PendingProposal V)
    (outcome : AuthoritativeOutcome) (next : ProposalBinding) (ids : List ℤ) : Prop where
  pending : c.pending = some p
  accepted : outcome.accepted_ids = p.ids.take outcome.accepted_ids.length
  window_eq : ids = (st.ids ++ outcome.outputs).rtake MAX_WINDOW_TOKENS
  length : next.committed_prefix_length = st.binding.committed_prefix_length + outcome.outputs.length
  window : (ids.length : ℤ) = next.committed_prefix_length - next.window_origin
  bounded : ids.length ≤ MAX_WINDOW_TOKENS

/-- An outcome that advances is the one passed, and is consistent. -/
theorem judge_advance {outcome : Option AuthoritativeOutcome} {next_binding : Option ProposalBinding}
    {authority : Option (Option Bool)} {p : PendingProposal V} {o : AuthoritativeOutcome} {next : ProposalBinding}
    {ids : List ℤ} (hj : c.judge st outcome next_binding authority = .advance p o next ids) :
    outcome = some o ∧ Advances c st p o next ids := by
  unfold judge at hj
  split at hj
  · rename_i outcome p' hp
    split at hj
    · cases hj
    · split at hj
      · cases hj
      · split at hj
        · cases hj
        · rename_i hacc
          split at hj
          · cases hj
          · split at hj
            · cases hj
            · simp only at hj
              split at hj
              · cases hj
              · rename_i hadv
                split at hj
                · cases hj
                · rename_i hw
                  obtain ⟨heq, hmax, hlen⟩ := window_ok hw
                  cases hj
                  simp only [advances, Bool.and_eq_true, decide_eq_true_eq, Bool.not_eq_true',
                    Bool.not_eq_false] at hadv
                  exact ⟨rfl, hp, not_not.1 hacc, (Option.some.inj heq).symm, hadv.1.1.1.1.2, hlen, hmax⟩
  · cases hj

/-! ## Synchronization -/

/-- A call is no acceptance of all drafts with a further id where the logits after the drafts are refused and those
after that id are not. -/
def Covered (F : Floats V) (raw : List ℤ → List V) (c : TransactionCoordinator V) (call : Call) : Prop :=
  ∀ st p outcome next authority token, c.state = some st → c.pending = some p →
    call = .apply (some outcome) next authority → outcome.accepted_ids = p.ids →
    outcome.correction_or_bonus = some token → st.ids.length + p.ids.length + 1 ≤ MAX_WINDOW_TOKENS →
    (ownedLogits F (raw (st.ids ++ p.ids))).toOption = none →
    (ownedLogits F (raw (st.ids ++ p.ids ++ [token]))).toOption = none

section Append

variable {st : CommittedState V} {p : PendingProposal V} {o : AuthoritativeOutcome} {next : ProposalBinding}
  {ids : List ℤ}

/-- A window that keeps its origin drops nothing. -/
theorem ids_appended (hheld : Held F raw c st) (hadv : Advances c st p o next ids)
    (horigin : next.window_origin = st.binding.window_origin) : ids = st.ids ++ o.outputs := by
  have hlen : ids.length = (st.ids ++ o.outputs).length := by
    have h1 := hheld.count
    have h2 := hadv.window
    have h3 := hadv.length
    rw [length_append]
    omega
  have hids := hadv.window_eq
  rw [hids, List.rtake, length_drop] at hlen
  rw [hids, List.rtake]
  by_cases hn : (st.ids ++ o.outputs).length - MAX_WINDOW_TOKENS = 0
  · rw [hn, drop_zero]
  · omega

/-- The outputs begin with the drafts that were fed. -/
theorem outputs_fed (hadv : Advances c st p o next ids) (hacc : p.ids.length - 1 ≤ o.accepted_ids.length) :
    p.ids.dropLast ++ o.outputs.drop (p.ids.length - 1) = o.outputs := by
  have htake : o.outputs.take (p.ids.length - 1) = p.ids.dropLast := by
    rw [AuthoritativeOutcome.outputs, take_append_of_le_length hacc, hadv.accepted, take_take,
      dropLast_eq_take, min_eq_left hacc]
  rw [← htake, take_append_drop]

/-- The ids fed and those left to feed are the committed ones and the outputs. -/
theorem context_outputs (hheld : Held F raw c st) (hadv : Advances c st p o next ids)
    (hacc : p.ids.length - 1 ≤ o.accepted_ids.length) :
    c.context ++ o.outputs.drop (p.ids.length - 1) = st.ids ++ o.outputs := by
  rw [hheld.context, TransactionCoordinator.fed, hadv.pending, append_assoc, outputs_fed hadv hacc]

/-- Of the ids that are fed only the last draft has others after it. -/
theorem covered_feed (hadv : Advances c st p o next ids) (hacc : p.ids.length - 1 ≤ o.accepted_ids.length)
    (hne : p.ids ≠ []) {before after : List ℤ} (heq : o.outputs.drop (p.ids.length - 1) = before ++ after)
    (hb : before ≠ []) (ha : after ≠ []) :
    o.accepted_ids = p.ids ∧ p.ids.dropLast ++ before = p.ids ∧
      ∃ token, o.correction_or_bonus = some token ∧ o.outputs = p.ids ++ [token] := by
  have hlen := congrArg List.length heq
  have hpos := length_pos_iff.2 hne
  have hbpos := length_pos_iff.2 hb
  have hapos := length_pos_iff.2 ha
  have htake := congrArg List.length hadv.accepted
  rw [length_take] at htake
  rw [length_drop, length_append, AuthoritativeOutcome.outputs, length_append] at hlen
  cases hbonus : o.correction_or_bonus with
  | none =>
    rw [hbonus, Option.toList_none, length_nil] at hlen
    omega
  | some token =>
    rw [hbonus, Option.toList_some, length_singleton] at hlen
    have hall : o.accepted_ids = p.ids := by
      rw [hadv.accepted, take_of_length_le (by omega)]
    have hout : o.outputs = p.ids ++ [token] := by
      rw [AuthoritativeOutcome.outputs, hbonus, hall]
      rfl
    refine ⟨hall, ?_, token, rfl, hout⟩
    have hfed := outputs_fed hadv hacc
    rw [heq, hout, ← append_assoc] at hfed
    have hlast := congrArg List.length hfed
    rw [length_append, length_append, length_append, length_dropLast,
      length_singleton] at hlast
    exact (append_inj' hfed (by rw [length_singleton]; omega)).1

/-- A covered synchronization answers alike. -/
theorem agree_synchronize (hheld : Held F raw c st)
    (hadv : Advances c st p o next ids)
    (hcov : ∀ token, o.accepted_ids = p.ids → o.correction_or_bonus = some token →
      st.ids.length + p.ids.length + 1 ≤ MAX_WINDOW_TOKENS → (ownedLogits F (raw (st.ids ++ p.ids))).toOption = none →
      (ownedLogits F (raw (st.ids ++ p.ids ++ [token]))).toOption = none) :
    Agree (c.synchronize F raw st p o next ids) (c.rebuilding.synchronize F raw st p o next ids) := by
  have hr : c.rebuilding.synchronize F raw st p o next ids =
      rebuild F raw { c.rebuilding with context := c.context } next ids := rfl
  rw [hr]
  unfold synchronize
  split
  · rename_i happends
    simp only [appends, Bool.and_eq_true, decide_eq_true_eq] at happends
    obtain ⟨⟨-, hacc⟩, horigin⟩ := happends
    have hids := ids_appended hheld hadv horigin
    have hctx := context_outputs hheld hadv hacc
    obtain ⟨hne, hlogits⟩ := hheld.drafts p hadv.pending
    have hcovered : ∀ before after, o.outputs.drop (p.ids.length - 1) = before ++ after → before ≠ [] → after ≠ [] →
        (ownedLogits F (raw (c.context ++ before))).toOption = none →
        (ownedLogits F (raw (c.context ++ o.outputs.drop (p.ids.length - 1)))).toOption = none := by
      intro before after heq hb ha hn
      obtain ⟨hall, hlast, token, hbonus, hout⟩ := covered_feed hadv hacc hne heq hb ha
      have hmax := hadv.bounded
      rw [hids, hout, length_append, length_append, length_singleton] at hmax
      rw [hctx, hout, ← append_assoc]
      refine hcov token hall hbonus (by omega) ?_
      rw [← hn, hheld.context, TransactionCoordinator.fed, hadv.pending, append_assoc, hlast]
    have hfeed := feed_toOption hlogits hcovered
    rw [hctx, ← hids] at hfeed
    unfold rebuild
    simp only
    cases hr : (feed F raw (o.outputs.drop (p.ids.length - 1)) p.logits c.context).2 with
    | error =>
      rw [hr] at hfeed
      cases ho : ownedLogits F (raw ids) with
      | error => exact ⟨alike_retired rfl, rfl⟩
      | ok =>
        rw [ho] at hfeed
        cases hfeed
    | ok logits =>
      rw [hr] at hfeed
      have hcontext := feed_context hr
      rw [hctx, ← hids] at hcontext
      cases ho : ownedLogits F (raw ids) with
      | error =>
        rw [ho] at hfeed
        cases hfeed
      | ok logits' =>
        rw [ho] at hfeed
        obtain rfl : logits = logits' := Option.some.inj hfeed
        exact ⟨⟨ids, rfl, fun _ => hcontext.symm⟩, rfl⟩
  · exact agree_rebuild c.context next ids

theorem fed_synchronize (hheld : Held F raw c st) (hadv : Advances c st p o next ids) :
    Fed F raw (c.synchronize F raw st p o next ids).1 := by
  unfold synchronize
  split
  · rename_i happends
    simp only [appends, Bool.and_eq_true, decide_eq_true_eq] at happends
    obtain ⟨⟨-, hacc⟩, horigin⟩ := happends
    have hctx := context_outputs hheld hadv hacc
    rw [← ids_appended hheld hadv horigin] at hctx
    simp only
    split
    · exact fed_retired rfl
    · rename_i logits hr
      intro st' hs'
      cases hs'
      refine ⟨?_, hadv.window, ?_, nofun⟩
      · rw [← hctx]
        exact feed_ok (hheld.drafts p hadv.pending).2 hr
      · show (feed F raw (o.outputs.drop (p.ids.length - 1)) p.logits c.context).1 = ids ++ []
        rw [feed_context hr, hctx, append_nil]
  · exact fed_rebuild hadv.window

end Append

theorem apply_none (hs : c.state = none) (outcome : Option AuthoritativeOutcome)
    (next_binding : Option ProposalBinding) (authority : Option (Option Bool)) :
    c.apply F raw outcome next_binding authority = (c, .ok (.answer false)) := by
  rw [apply, hs]

/-- An outcome for a state that is held. -/
theorem apply_held (hs : c.state = some st) (outcome : Option AuthoritativeOutcome)
    (next_binding : Option ProposalBinding) (authority : Option (Option Bool)) :
    c.apply F raw outcome next_binding authority =
      if !c.enabled then (c, .ok (.answer false))
      else
        match c.judge st outcome next_binding authority with
        | .refuse e => (c, .error e)
        | .decline => (c, .ok (.answer false))
        | .unsupported => (c.retire, .ok (.answer false))
        | .advance p outcome next ids => c.synchronize F raw st p outcome next ids := by
  cases c
  cases hs
  rfl

theorem judge_rebuilding (st : CommittedState V) (outcome : Option AuthoritativeOutcome)
    (next_binding : Option ProposalBinding) (authority : Option (Option Bool)) :
    a.rebuilding.judge st outcome next_binding authority = a.judge st outcome next_binding authority := by
  cases next_binding <;> rfl

/-- A covered outcome answers alike and leaves both alike. -/
theorem agree_apply (ha : Alike a r) (hf : Fed F raw a) {outcome : Option AuthoritativeOutcome}
    {next_binding : Option ProposalBinding} {authority : Option (Option Bool)}
    (hcov : Covered F raw a (.apply outcome next_binding authority)) :
    Agree (a.apply F raw outcome next_binding authority) (r.apply F raw outcome next_binding authority) := by
  cases hs : a.state with
  | none =>
    rw [apply_none hs, apply_none (alike_none ha hs)]
    exact ⟨ha, rfl⟩
  | some st =>
    obtain rfl := alike_held ha hs
    rw [apply_held hs, apply_held (c := a.rebuilding) hs, judge_rebuilding, rebuilding_enabled]
    split
    · exact ⟨ha, rfl⟩
    · cases hj : a.judge st outcome next_binding authority with
      | refuse => exact ⟨ha, rfl⟩
      | decline => exact ⟨ha, rfl⟩
      | unsupported => exact ⟨⟨a.context, rfl, fun _ => rfl⟩, rfl⟩
      | advance p o =>
        obtain ⟨rfl, hadv⟩ := judge_advance hj
        refine agree_synchronize (hf st hs) hadv fun token hall hbonus hroom => ?_
        exact hcov st p o next_binding authority token hs hadv.pending rfl hall hbonus hroom

theorem fed_apply (hf : Fed F raw c) (outcome : Option AuthoritativeOutcome) (next_binding : Option ProposalBinding)
    (authority : Option (Option Bool)) : Fed F raw (c.apply F raw outcome next_binding authority).1 := by
  cases hs : c.state with
  | none =>
    rw [apply_none hs]
    exact hf
  | some st =>
    rw [apply_held hs]
    split
    · exact hf
    · split
      · exact hf
      · exact hf
      · exact fed_retired rfl
      · rename_i hj
        exact fed_synchronize (hf st hs) (judge_advance hj).2

/-! ## Runs -/

theorem agree_call (ha : Alike a r) (hf : Fed F raw a) {call : Call} (hcov : Covered F raw a call) :
    Agree (a.call F raw h call) (r.call F raw h call) := by
  cases call with
  | reset binding ids => exact agree_reset ha binding ids
  | propose binding max_drafts => exact agree_propose ha binding max_drafts
  | apply => exact agree_apply ha hf hcov
  | invalidate =>
    obtain ⟨context, rfl, -⟩ := ha
    exact ⟨alike_retired rfl, rfl⟩

/-- Every call leaves the engine fed. -/
theorem fed_step (hf : Fed F raw c) (call : Call) : Fed F raw (c.step F raw h call) := by
  cases call with
  | reset binding ids => exact fed_reset hf binding ids
  | propose binding max_drafts => exact fed_propose hf binding max_drafts
  | apply outcome next_binding authority => exact fed_apply hf outcome next_binding authority
  | invalidate => exact fed_retired rfl

/-- Covered calls answer alike, one after the other. -/
theorem agree_run (ha : Alike a r) (hf : Fed F raw a) {calls : List Call}
    (hcov : Admits (step F raw h) (Covered F raw) a calls) :
    answers F raw h a calls = answers F raw h r calls ∧
      Alike (run (step F raw h) a calls) (run (step F raw h) r calls) := by
  induction calls generalizing a r with
  | nil => exact ⟨rfl, ha⟩
  | cons call calls ih =>
    obtain ⟨hcall, hcalls⟩ := admits_cons.1 hcov
    have hagree := agree_call (h := h) ha hf hcall
    obtain ⟨hanswers, halike⟩ := ih hagree.alike (fed_step hf call) hcalls
    refine ⟨?_, halike⟩
    rw [answers, answers, hagree.answer]
    exact congrArg _ hanswers

theorem alike_state (ha : Alike a r) : r.state = a.state := by
  obtain ⟨context, rfl, -⟩ := ha
  rfl

/-- What a constructor that returns makes. -/
theorem create_ok {enabled append : Bool} {model tokenizer key_id key : Bytes}
    (hc : create enabled append model tokenizer key_id key = .ok c) : c =
      { enabled := enabled, append_when_authoritative := append, model_binding := model, tokenizer_binding := tokenizer,
        key_id := key_id, integrity_key := key } := by
  simp only [create, bind_eq_ok, require_eq_ok, exists_and_left, exists_const, pure_eq_ok] at hc
  exact hc.2.symm

/-- In every covered run, an appending coordinator answers and holds what one that rebuilds does; in every run, its
engine has consumed the committed ids and the drafts fed. -/
theorem appends_as_rebuilds (F : Floats V) (raw : List ℤ → List V) (h : Hmac) {enabled : Bool}
    {model tokenizer key_id key : Bytes} (ha : create enabled true model tokenizer key_id key = .ok a)
    (hr : create enabled false model tokenizer key_id key = .ok r) (calls : List Call) :
    (Admits (step F raw h) (Covered F raw) a calls → answers F raw h a calls = answers F raw h r calls ∧
      (run (step F raw h) a calls).state = (run (step F raw h) r calls).state) ∧
      ∀ st, (run (step F raw h) a calls).state = some st →
        (run (step F raw h) a calls).context = st.ids ++ (run (step F raw h) a calls).fed := by
  have hnone : a.state = none := by rw [create_ok ha]
  have halike : Alike a r := by
    rw [create_ok ha, create_ok hr]
    exact ⟨[], rfl, fun _ => rfl⟩
  have hf : Fed F raw (run (step F raw h) a calls) :=
    run_invariant (P := Fed F raw) (fun _ call hf => fed_step hf call) calls (fed_retired hnone)
  refine ⟨fun hcov => ?_, fun st hs => (hf st hs).context⟩
  obtain ⟨hanswers, hrun⟩ := agree_run halike (fed_retired hnone) hcov
  exact ⟨hanswers, (alike_state hrun).symm⟩

/-! ## The logits after the drafts -/

def sampleHmac : Hmac := ⟨fun _ _ => List.replicate 32 1, fun _ _ => rfl⟩

/-- A binding of a window from the start of the request. -/
def sampleBinding (round : UInt8) (n : ℕ) (token : ℤ) : ProposalBinding where
  model_binding := List.replicate 32 1
  tokenizer_binding := List.replicate 32 2
  request_nonce := List.replicate 16 3
  round_id := List.replicate 16 round
  committed_prefix_fingerprint := List.replicate 32 4
  committed_prefix_length := n
  target_position := n
  current_token := token
  window_origin := 0

def sampleOutcome : AuthoritativeOutcome := ⟨sampleBinding 2 1 1, [0], some 2⟩

/-- One draft, which is accepted with a further id. -/
def sampleCalls : List Call :=
  [.reset (some (sampleBinding 1 1 1)) (some [1]), .propose (some (sampleBinding 2 1 1)) (some 1),
    .apply (some sampleOutcome) (some (sampleBinding 3 3 2)) (some (some true))]

/-- A coordinator that was constructed. -/
def sampleCoordinator (V : Type) (append : Bool) : TransactionCoordinator V where
  enabled := true
  append_when_authoritative := append
  model_binding := List.replicate 32 1
  tokenizer_binding := List.replicate 32 2
  key_id := List.replicate 16 5
  integrity_key := List.replicate 32 6

theorem create_sample (append : Bool) : create true append (List.replicate 32 1) (List.replicate 32 2)
    (List.replicate 16 5) (List.replicate 32 6) = .ok (sampleCoordinator V append) := rfl

def samplePacket : Bytes := frame (sampleBinding 2 1 1) [0] (List.replicate 16 5) ++ List.replicate 32 1

section Sample

variable {logits : List V}

/-- It holds the first id, which the engine has consumed. -/
def sampleHeld (append : Bool) (logits : List V) : TransactionCoordinator V :=
  { sampleCoordinator V append with
    state := some ⟨sampleBinding 1 1 1, [1], logits⟩, nonces := [List.replicate 16 3], context := [1] }

theorem reset_sample (append : Bool) (hl : ownedLogits F (raw [1]) = .ok logits) :
    (sampleCoordinator V append).reset F raw (some (sampleBinding 1 1 1)) (some [1]) =
      (sampleHeld append logits, .ok (.answer true)) := by
  have ht : (sampleCoordinator V append).trusted (some (sampleBinding 1 1 1)) = .ok (sampleBinding 1 1 1) := rfl
  have hw : window (sampleBinding 1 1 1) (some [1]) = .ok [1] := by decide +kernel
  simp only [reset, ht, hw, rebuild, hl]
  rfl

def sampleProposal (logits : List V) : PendingProposal V := ⟨sampleBinding 2 1 1, [0], samplePacket, logits⟩

/-- A proposal of it is pending. -/
def samplePending (append : Bool) (logits : List V) : TransactionCoordinator V :=
  { sampleHeld append logits with pending := some (sampleProposal logits), rounds := [List.replicate 16 2] }

theorem predict_ok {st : CommittedState V} {b : ProposalBinding} {n : ℕ} {context : List ℤ} {d : List ℤ × List V}
    {packet : Bytes} (hd : draft F raw n st.logits c.context = (context, .ok d))
    (he : encodeProposal h b d.1 c.key_id c.integrity_key = .ok packet) : c.predict F raw h st b n =
      ({ c with rounds := b.round_id :: c.rounds, context := context, pending := some ⟨b, d.1, packet, d.2⟩ },
        .ok (.proposal (some ⟨b, d.1, packet, d.2⟩))) := by
  simp only [predict, hd, he]

theorem propose_sample (append : Bool) (hb : bestToken F logits = 0) :
    (sampleHeld append logits).propose F raw sampleHmac (some (sampleBinding 2 1 1)) (some 1) =
      (samplePending append logits, .ok (.proposal (some (sampleProposal logits)))) := by
  have hs : (sampleHeld append logits).state = some ⟨sampleBinding 1 1 1, [1], logits⟩ := rfl
  have hen : (!(sampleHeld append logits).enabled) = false := rfl
  have hp : (sampleHeld append logits).proposable ⟨sampleBinding 1 1 1, [1], logits⟩ (some (sampleBinding 2 1 1))
      (some 1) = .ok (sampleBinding 2 1 1, 1) := rfl
  have hd : draft F raw 1 logits [1] = ([1], .ok ([0], logits)) := by rw [draft, hb, Nat.cast_zero]
  have he : encodeProposal sampleHmac (sampleBinding 2 1 1) [0] (List.replicate 16 5) (List.replicate 32 6) =
      .ok samplePacket := by decide +kernel
  rw [propose_held hs, hen, if_neg Bool.false_ne_true, hp]
  simp only
  rw [predict_ok (d := ([0], logits)) hd he]
  rfl

theorem judge_sample (append : Bool) :
    (samplePending append logits).judge ⟨sampleBinding 1 1 1, [1], logits⟩ (some sampleOutcome)
      (some (sampleBinding 3 3 2)) (some (some true)) =
    .advance (sampleProposal logits) sampleOutcome (sampleBinding 3 3 2) [1, 0, 2] := by
  have hp : (samplePending append logits).pending = some (sampleProposal logits) := rfl
  have ht : (samplePending append logits).trusted (some (sampleBinding 3 3 2)) = .ok (sampleBinding 3 3 2) := rfl
  have hids : ([1] ++ [0, 2] : List ℤ).rtake MAX_WINDOW_TOKENS = [1, 0, 2] := by decide
  have hw : window (sampleBinding 3 3 2) (some [1, 0, 2]) = .ok [1, 0, 2] := by decide +kernel
  have hout : sampleOutcome.outputs = [0, 2] := rfl
  have hadv : (samplePending append logits).advances ⟨sampleBinding 1 1 1, [1], logits⟩ (sampleBinding 3 3 2) [0, 2]
      [1, 0, 2] := rfl
  simp only [judge, hp, ht, hout, hids, hadv, hw]
  rfl

/-- The last call of the sample, which synchronizes. -/
theorem answers_sample (append : Bool) (hl : ownedLogits F (raw [1]) = .ok logits) (hb : bestToken F logits = 0) :
    answers F raw sampleHmac (sampleCoordinator V append) sampleCalls =
      [some (.answer true), some (.proposal (some (sampleProposal logits))),
        ((samplePending append logits).synchronize F raw ⟨sampleBinding 1 1 1, [1], logits⟩ (sampleProposal logits)
          sampleOutcome (sampleBinding 3 3 2) [1, 0, 2]).2.toOption] := by
  have hs : (samplePending append logits).state = some ⟨sampleBinding 1 1 1, [1], logits⟩ := rfl
  have hen : (!(samplePending append logits).enabled) = false := rfl
  simp only [sampleCalls, answers, TransactionCoordinator.call, TransactionCoordinator.step, reset_sample append hl,
    propose_sample append hb, apply_held hs, judge_sample, hen, if_neg Bool.false_ne_true]
  rfl

/-- The appending side fails at the logits after the drafts. -/
theorem synchronize_append {e : String} (hr : ownedLogits F (raw [1, 0]) = .error e) :
    ((samplePending true logits).synchronize F raw ⟨sampleBinding 1 1 1, [1], logits⟩ (sampleProposal logits)
      sampleOutcome (sampleBinding 3 3 2) [1, 0, 2]).2.toOption = none := by
  have happ : (samplePending true logits).appends ⟨sampleBinding 1 1 1, [1], logits⟩ (sampleProposal logits)
      sampleOutcome (sampleBinding 3 3 2) := rfl
  have hf : feed F raw [0, 2] logits [1] = ([1, 0], .error e) := by
    simp only [feed, cons_append, nil_append, hr]
  have hd : sampleOutcome.outputs.drop ((sampleProposal logits).ids.length - 1) = [0, 2] := rfl
  have hctx : (samplePending true logits).context = [1] := rfl
  have hlog : (sampleProposal logits).logits = logits := rfl
  simp only [synchronize, happ, if_true, hd, hctx, hlog, hf]
  rfl

/-- The rebuilding side looks at the last logits only. -/
theorem synchronize_rebuild {logits' : List V} (hr : ownedLogits F (raw [1, 0, 2]) = .ok logits') :
    ((samplePending false logits).synchronize F raw ⟨sampleBinding 1 1 1, [1], logits⟩ (sampleProposal logits)
      sampleOutcome (sampleBinding 3 3 2) [1, 0, 2]).2.toOption = some (.answer true) := by
  have happ : (samplePending false logits).appends ⟨sampleBinding 1 1 1, [1], logits⟩ (sampleProposal logits)
      sampleOutcome (sampleBinding 3 3 2) = false := rfl
  simp only [synchronize, happ, Bool.false_eq_true, if_false, rebuild, hr]
  rfl

end Sample

/-- Logits that are all alike, and that are not finite for some contexts. -/
def sampleRaw (refused : List ℤ → Bool) (ids : List ℤ) : List Bool := List.replicate SHARED_ID_COUNT (!refused ids)

def sampleFloats : Floats Bool := ⟨id, fun _ _ => false⟩

theorem ownedLogits_sampleRaw (refused : List ℤ → Bool) (ids : List ℤ) :
    ownedLogits sampleFloats (sampleRaw refused ids) =
      if refused ids then .error "nonfinite raw logits" else .ok (List.replicate SHARED_ID_COUNT true) := by
  have hlen : SHARED_ID_COUNT ≤ MAX_HEAD_ROWS := by decide
  have hne : SHARED_ID_COUNT ≠ 0 := by decide
  unfold ownedLogits sampleRaw
  simp only [length_replicate, take_replicate, min_self, all_replicate, sampleFloats]
  cases refused ids <;> simp [hlen, hne, require, bind, Except.bind, pure, Except.pure]

theorem bestToken_replicate (n : ℕ) : bestToken sampleFloats (List.replicate n true) = 0 := by
  have hlarger : ∀ i j, larger sampleFloats (List.replicate n true) i j = false := by
    intro i j
    unfold larger sampleFloats
    split <;> rfl
  unfold bestToken
  simp only [hlarger, Bool.false_eq_true, if_false]
  exact foldl_fixed _

/-- Where only the logits after the draft are not finite, appending raises and rebuilding does not. -/
theorem answers_differ :
    answers sampleFloats (sampleRaw (· = [1, 0])) sampleHmac (sampleCoordinator Bool true) sampleCalls ≠
      answers sampleFloats (sampleRaw (· = [1, 0])) sampleHmac (sampleCoordinator Bool false) sampleCalls := by
  have hl : ownedLogits sampleFloats (sampleRaw (· = [1, 0]) [1]) = .ok (List.replicate SHARED_ID_COUNT true) := by
    rw [ownedLogits_sampleRaw]
    rfl
  have hdraft : ownedLogits sampleFloats (sampleRaw (· = [1, 0]) [1, 0]) = .error "nonfinite raw logits" := by
    rw [ownedLogits_sampleRaw]
    rfl
  have hlast : ownedLogits sampleFloats (sampleRaw (· = [1, 0]) [1, 0, 2]) =
      .ok (List.replicate SHARED_ID_COUNT true) := by
    rw [ownedLogits_sampleRaw]
    rfl
  rw [answers_sample true hl (bestToken_replicate _), answers_sample false hl (bestToken_replicate _),
    synchronize_append hdraft, synchronize_rebuild hlast]
  simp

theorem appends_as_rebuilds_sample :
    answers sampleFloats (sampleRaw fun _ => false) sampleHmac (sampleCoordinator Bool true) sampleCalls =
      answers sampleFloats (sampleRaw fun _ => false) sampleHmac (sampleCoordinator Bool false) sampleCalls := by
  refine ((appends_as_rebuilds sampleFloats (sampleRaw fun _ => false) sampleHmac (create_sample true)
    (create_sample false) sampleCalls).1 fun pre call post heq => ?_).1
  intro st p outcome next authority token _ _ _ _ _ _ hrefused
  rw [ownedLogits_sampleRaw] at hrefused
  cases hrefused

end StrixAlloy.Pld.Transaction

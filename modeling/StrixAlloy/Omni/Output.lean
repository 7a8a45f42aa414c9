import StrixAlloy.Omni.Currency

/-!
# What a conversation puts out

A step delivers at most one delta or returns at most one reply (`Outputs`), a reply without a failure only
as the newest one of the current epoch (`Fresh`). With the invariant this tells what a run puts out, and
what it never does after an invalidation or after the server broke the protocol.
-/

namespace StrixAlloy.Omni

open Runs Checked
open Routing (strip)

namespace Conversation

variable {s s' : Conversation}

/-- The reply `x` with the identity `i` is the newest one, of the current epoch. -/
structure Fresh (s : Conversation) (x : Returned) (i : Identity) : Prop where
  identity : x.reply.identity = some i
  state : s.state = .ready
  invalidating : s.invalidating = 0
  key : s.key = some i.key
  output_epoch : i.key.output_epoch = s.output_epoch
  socket : i.socket_instance = s.socket_instance ∧ i.server_session_id = s.server_session_id ∧
    ∃ o, s.socket = some o ∧ o.closed = false ∧ o.last_turn = i.turn_id ∧ o.last_generation = i.generation_id
  newest : ∀ y ∈ s.replies, ∀ j, y.reply.identity = some j →
    j.turn_id < i.turn_id ∧ j.generation_id < i.generation_id
  text : ∀ deltas, x.deltas = some deltas → strip (String.join deltas) = strip x.reply.text
  violated : s.violated = false

/-- What a step puts out. -/
inductive Outputs (s s' : Conversation) : Prop where
  | silent (hcalls : s'.calls = s.calls) (hreplies : s'.replies = s.replies)
  | delta (d : String) (i : Identity) (hcur : s.isStreamCurrent i) (hcalls : s'.calls = s.calls ++ [(d, i)])
      (hreplies : s'.replies = s.replies)
  | reply (x : Returned) (hcalls : s'.calls = s.calls) (hreplies : s'.replies = s.replies ++ [x])
      (hfresh : x.reply.failure = none → ∃ i, s.Fresh x i ∧ s'.isCurrent i)

/-- What a step does to the history. Before `start` there is no epoch. -/
structure Evolves (s s' : Conversation) : Prop where
  started : s.state ≠ .new → s'.state ≠ .new ∧ s.output_epoch ≤ s'.output_epoch
  violated : s.violated → s'.violated
  outputs : Outputs s s'

/-- A step that puts nothing out. -/
theorem Evolves.quiet (hstate : s.state ≠ .new → s'.state ≠ .new ∧ s.output_epoch ≤ s'.output_epoch)
    (hviolated : s.violated → s'.violated) (hcalls : s'.calls = s.calls)
    (hreplies : s'.replies = s.replies) : Evolves s s' :=
  ⟨hstate, hviolated, .silent hcalls hreplies⟩

/-- A step that leaves the state and the epoch as they are. -/
theorem Evolves.kept (hstate : s'.state = s.state) (hepoch : s'.output_epoch = s.output_epoch)
    (hviolated : s.violated → s'.violated) (hcalls : s'.calls = s.calls)
    (hreplies : s'.replies = s.replies) : Evolves s s' :=
  .quiet (fun h => ⟨hstate ▸ h, hepoch.ge⟩) hviolated hcalls hreplies

theorem Evolves.same (s : Conversation) : Evolves s s := .kept rfl rfl id rfl rfl

/-- A step that ends the conversation. -/
theorem Evolves.ended (hstate : s'.state = .unavailable) (hepoch : s.output_epoch ≤ s'.output_epoch)
    (hviolated : s.violated → s'.violated) (hcalls : s'.calls = s.calls)
    (hreplies : s'.replies = s.replies) : Evolves s s' := by
  refine .quiet (fun _ => ⟨?_, hepoch⟩) hviolated hcalls hreplies
  rw [hstate]
  exact nofun

/-- A reply with a failure. -/
theorem Evolves.refuse (s : Conversation) (failure : Failure) : Evolves s (s.refuse failure) :=
  ⟨fun h => ⟨h, le_rfl⟩, fun h => h, .reply _ rfl rfl fun h => by cases h⟩

/-- The end of `respond`. -/
theorem Evolves.finish (r : Respond) {reply : Option Reply}
    (h : ∀ x, reply = some x → x.failure = none → ∃ i,
      s.Fresh ⟨x, if r.on_delta then some r.deltas else none⟩ i ∧ s.isCurrent i) :
    Evolves s (s.finish r reply) := by
  refine ⟨fun h => ⟨h, le_rfl⟩, fun h => h, ?_⟩
  cases reply with
  | none => exact .silent rfl (List.append_nil _)
  | some x => exact .reply _ rfl rfl (h x rfl)

/-- The end of `respond` with a failure. -/
theorem Evolves.finish_failed (r r' : Respond) (text : String) (cancelled : Bool) (failure : Failure) :
    Evolves s (s.finish r (some (s.candidate r' text cancelled (some failure)))) := by
  refine .finish r fun x hx hnone => ?_
  rw [← Option.some.inj hx] at hnone
  cases hnone

theorem evolves_start (call_id : String) (output_epoch : ℤ) (seed_rules socket_instance : String) :
    Evolves s (s.start call_id output_epoch seed_rules socket_instance) := by
  unfold start
  split_ifs with h
  · exact .same s
  · rw [not_or, not_not] at h
    exact .quiet (fun hs => absurd h.1 hs) id rfl rfl

theorem evolves_startHears (small : FloatText → Bool) (now : Option ℚ) (event : Json) :
    Evolves s (s.startHears small now event) := by
  unfold startHears
  split
  · split
    · exact .kept rfl rfl id rfl rfl
    · exact .kept rfl rfl id rfl rfl
    · exact .kept rfl rfl (fun _ => rfl) rfl rfl
  · exact .same s

theorem evolves_startEnds : Evolves s s.startEnds := by
  unfold startEnds
  split
  · exact .same s
  · exact .same s
  · exact .ended rfl le_rfl id rfl rfl
  · split
    · exact .ended rfl le_rfl (fun _ => rfl) rfl rfl
    · split_ifs
      · exact .ended rfl le_rfl (fun _ => rfl) rfl rfl
      · exact .ended rfl le_rfl id rfl rfl
      · exact .quiet (fun _ => ⟨nofun, le_rfl⟩) id rfl rfl

theorem evolves_begin (raw : String) (patch : Option String) (key : Key) (on_delta : Bool)
    (now : Option ℚ) : Evolves s (s.begin raw patch key on_delta now) := by
  unfold begin
  split_ifs
  · exact .refuse s _
  · exact .refuse s _
  · split
    · exact .refuse s _
    · split_ifs
      · exact .refuse s _
      · dsimp only
        split
        · exact .ended rfl le_rfl id rfl rfl
        · exact .kept rfl rfl id rfl rfl

theorem evolves_updateEnds : Evolves s s.updateEnds := by
  unfold updateEnds
  split
  · split_ifs
    · exact .same s
    · exact .kept rfl rfl id rfl rfl
    · exact .finish_failed _ _ _ _ _
    · exact .kept rfl rfl id rfl rfl
  · exact .same s

theorem evolves_updateFails : Evolves s s.updateFails := by
  unfold updateFails
  split
  · split_ifs
    · exact .same s
    · exact .kept rfl rfl id rfl rfl
  · exact .same s

theorem evolves_turnStarts : Evolves s s.turnStarts := by
  unfold turnStarts
  split
  · split
    · split_ifs
      · exact .kept rfl rfl id rfl rfl
      · exact .kept rfl rfl id rfl rfl
    · exact .same s
  · exact .same s

theorem evolves_turnSends : Evolves s s.turnSends := by
  unfold turnSends
  split
  · split
    · split_ifs
      · exact .kept rfl rfl id rfl rfl
      · exact .kept rfl rfl id rfl rfl
    · exact .same s
  · exact .same s

theorem evolves_turnHears (small : FloatText → Bool) (now : Option ℚ) (event : Json) :
    Evolves s (s.turnHears small now event) := by
  unfold turnHears
  split
  · split
    · split
      · exact .kept rfl rfl id rfl rfl
      · exact .kept rfl rfl id rfl rfl
      · exact .kept rfl rfl (fun _ => rfl) rfl rfl
    · split
      · exact .kept rfl rfl id rfl rfl
      · exact .kept rfl rfl (fun _ => rfl) rfl rfl
    · exact .same s
  · exact .same s

theorem evolves_stream (r : Respond) (t : TurnTask) (delta : String) :
    Evolves s (s.stream r t delta) := by
  unfold stream
  split
  · rename_i i _
    split_ifs with hcur
    · exact ⟨fun h => ⟨h, le_rfl⟩, fun h => h, .delta delta i hcur rfl rfl⟩
    · exact .kept rfl rfl id rfl rfl
  · exact .kept rfl rfl id rfl rfl

theorem evolves_turnTakes : Evolves s s.turnTakes := by
  unfold turnTakes
  split
  · split
    · exact .kept rfl rfl id rfl rfl
    · split
      · exact .kept rfl rfl (fun _ => rfl) rfl rfl
      · exact .kept rfl rfl id rfl rfl
      · exact evolves_stream _ _ _
      · exact .kept rfl rfl id rfl rfl
    · exact .same s
  · exact .same s

theorem evolves_turnDelivers : Evolves s s.turnDelivers := by
  unfold turnDelivers
  split
  · split
    · exact .kept rfl rfl id rfl rfl
    · exact .same s
  · exact .same s

theorem evolves_turnFails : Evolves s s.turnFails := by
  unfold turnFails
  split
  · split
    · exact .same s
    · exact .same s
    · exact .kept rfl rfl id rfl rfl
    · exact .kept rfl rfl id rfl rfl
  · exact .same s

theorem evolves_abortRespond (r : Respond) (why : Aborting) : Evolves s (s.abortRespond r why) :=
  .ended rfl le_rfl id rfl rfl

/-- What `isCurrent` has checked. -/
theorem of_isCurrent {i : Identity} (h : s.isCurrent i) : s.state = .ready ∧ s.key = some i.key ∧
    s.invalidating = 0 ∧ i.key.output_epoch = s.output_epoch ∧ i.socket_instance = s.socket_instance ∧
    i.server_session_id = s.server_session_id ∧ ∃ o, s.socket = some o ∧ o.closed = false ∧
      o.last_turn = i.turn_id ∧ o.last_generation = i.generation_id := by
  unfold isCurrent currentFor at h
  simp only [Bool.and_eq_true, decide_eq_true_eq, Option.any_eq_true, Bool.not_eq_true',
    Option.some.injEq] at h
  obtain ⟨⟨⟨⟨⟨⟨h1, h2⟩, h3⟩, h4⟩, h5⟩, h6⟩, o, ho, ⟨h7, h8⟩, h9⟩ := h
  exact ⟨h1, h2, h3, h4, h5, h6, o, ho, h7, h8, h9⟩

/-- A delta is delivered only for the current epoch. -/
theorem epoch_of_stream_current {i : Identity} (h : s.isStreamCurrent i) :
    i.key.output_epoch = s.output_epoch := by
  unfold isStreamCurrent currentFor at h
  simp only [Bool.and_eq_true, decide_eq_true_eq] at h
  exact h.1.1.1.2

/-- A reply that is current when the turn has returned. -/
theorem fresh_of_returned (hi : Inv s) {r : Respond} (hr : s.respond = some r) {t : TurnTask}
    (ht : s.active_turn = some t) {result : Result} (hp : t.phase = .returned result)
    (hcancelled : result.cancelled = false) {i : Identity} (hid : s.identity r.key = some i)
    (hcur : s.isCurrent i) {x : Returned} (hx : x.reply.identity = some i)
    (htext : x.reply.text = result.text) (hdeltas : x.deltas = if r.on_delta then some r.deltas else none) :
    s.Fresh x i := by
  obtain ⟨hs, hkey, hinvalidating, hepoch, hinstance, hserver, o, ho, hclosed, hlast, hgen⟩ :=
    of_isCurrent hcur
  obtain ⟨hk, -, -, o1, ho1, hturn, hgeneration⟩ := identity_eq hid
  cases ho.symm.trans ho1
  obtain ⟨o1, ho1, hserving⟩ := hi.ready hs
  cases ho.symm.trans ho1
  obtain ⟨-, -, hnew, hok⟩ := hserving.of_returned hr ht hp
  unfold TurnOk at hok
  rw [hp] at hok
  obtain ⟨-, -, -, -, -, -, hstrip⟩ := hok
  refine ⟨hx, hs, hinvalidating, hkey, hepoch, ⟨hinstance, hserver, o, ho, hclosed, hlast, hgen⟩, ?_, ?_, ?_⟩
  · intro y hy j hj
    obtain ⟨h1, h2⟩ := hnew y hy j hj
    exact ⟨h1 _ hturn, h2 _ hgeneration⟩
  · intro deltas h
    rw [hdeltas] at h
    split_ifs at h with hon
    cases h
    rw [htext]
    refine hstrip ⟨?_, hclosed⟩ hcancelled hon
    rw [hkey, hk]
  · refine not_violated hi hs fun t' ht' h => ?_
    cases ht.symm.trans ht'
    rw [hp] at h
    rcases h with h | h <;> cases h

theorem evolves_respondEnds (hi : Inv s) : Evolves s s.respondEnds := by
  unfold respondEnds
  split
  · rename_i r t hr ht
    by_cases hturning : r.phase ≠ .turning
    · rw [if_pos hturning]
      exact .same s
    · rw [if_neg hturning]
      split
      · exact evolves_abortRespond _ _
      · rename_i result hp
        dsimp only
        split_ifs with hcancelled
        · exact .finish_failed r r _ _ _
        · exact evolves_abortRespond _ _
        · -- the one reply without a failure
          rw [not_or, Bool.not_eq_true, Bool.not_eq_true', Bool.not_eq_false, Option.any_eq_true]
            at hcancelled
          obtain ⟨hc, i, hid, hcur⟩ := hcancelled
          refine .finish r fun x hx _ => ⟨i, ?_, hcur⟩
          cases hx
          exact fresh_of_returned hi hr ht hp hc hid hcur hid rfl rfl
      · exact .same s
  · exact .same s

theorem evolves_respondFails : Evolves s s.respondFails := by
  unfold respondFails
  split
  · split_ifs
    · exact evolves_abortRespond _ _
    · exact .same s
  · exact .same s

theorem evolves_respondCancelled : Evolves s s.respondCancelled := by
  unfold respondCancelled
  split
  · split
    · exact .same s
    · exact evolves_abortRespond _ _
  · exact .same s

theorem evolves_respondReturns : Evolves s s.respondReturns := by
  unfold respondReturns
  split
  · split
    · exact .finish_failed _ _ _ _ _
    · exact .finish_failed _ _ _ _ _
    · exact .finish _ fun x hx => by cases hx
    · exact .same s
  · exact .same s

theorem evolves_invalidate (new_epoch : ℤ) (reason : String) :
    Evolves s (s.invalidate new_epoch reason) := by
  unfold invalidate
  split_ifs with h
  · unfold invalidates at h
    simp only [Bool.and_eq_true, decide_eq_true_eq] at h
    exact .quiet (fun hs => ⟨hs, h.1.2.le⟩) id rfl rfl
  · exact .same s

theorem evolves_drain (d : Drain) (fails : Bool) : Evolves s (s.drain d fails) := by
  have haborts : Evolves s (s.abort.drainGoto d .aborting) := .ended rfl le_rfl id rfl rfl
  have hgoto : ∀ d', Evolves s (s.drainGoto d d') := fun _ => .kept rfl rfl id rfl rfl
  have hends : Evolves s (s.drainEnds d) := .kept rfl rfl id rfl rfl
  unfold drain
  by_cases hd : d ∉ s.drains
  · rw [if_pos hd]
    exact .same s
  · rw [if_neg hd]
    split
    · split_ifs
      · exact hgoto _
      · exact hgoto _
      · exact hends
    · split_ifs
      · exact haborts
      · exact .kept rfl rfl id rfl rfl
      · exact hgoto _
    · exact haborts
    · exact hgoto _
    · exact .kept rfl rfl id rfl rfl
    · exact haborts
    · split_ifs
      · exact .same s
      · exact haborts
      · exact hends
    · exact haborts
    · exact hends

theorem evolves_step (hi : Inv s) (small : FloatText → Bool) (a : Act) : Evolves s (s.step small a) := by
  cases a with
  | start => exact evolves_start _ _ _ _
  | startHears now event => exact evolves_startHears small now event
  | startEnds => exact evolves_startEnds
  | startFails =>
    show Evolves s s.startFails
    unfold startFails
    split_ifs
    · exact .ended rfl le_rfl id rfl rfl
    · exact .same s
  | respond raw patch key on_delta now => exact evolves_begin raw patch key on_delta now
  | updateEnds => exact evolves_updateEnds
  | updateFails => exact evolves_updateFails
  | turnStarts => exact evolves_turnStarts
  | turnSends => exact evolves_turnSends
  | turnHears now event => exact evolves_turnHears small now event
  | turnTakes => exact evolves_turnTakes
  | turnDelivers => exact evolves_turnDelivers
  | turnFails => exact evolves_turnFails
  | respondEnds => exact evolves_respondEnds hi
  | respondFails => exact evolves_respondFails
  | respondCancelled => exact evolves_respondCancelled
  | respondReturns => exact evolves_respondReturns
  | invalidate new_epoch reason => exact evolves_invalidate new_epoch reason
  | drain d fails => exact evolves_drain d fails
  | close =>
    show Evolves s s.close
    unfold close
    split_ifs
    · exact .same s
    · exact .ended rfl (Int.le_add_one le_rfl) id rfl rfl
  | sessionCloses =>
    show Evolves s (if s.state = .unavailable then s.failed else s)
    split_ifs
    · exact .kept rfl rfl id rfl rfl
    · exact .same s
  | socketCloses =>
    show Evolves s (if s.closing then _ else s)
    split_ifs
    · exact .kept rfl rfl id rfl rfl
    · exact .same s

/-! ## Runs -/

section Log

variable (small : FloatText → Bool)

/-- A step returns at most one reply. -/
theorem replies_step (hi : Inv s) (a : Act) : (s.step small a).replies = s.replies ∨
    ∃ x, (s.step small a).replies = s.replies ++ [x] ∧
      (x.reply.failure = none → ∃ i, s.Fresh x i ∧ (s.step small a).isCurrent i) := by
  cases (evolves_step hi small a).outputs with
  | silent _ h => exact .inl h
  | delta _ _ _ _ h => exact .inl h
  | reply x _ h hfresh => exact .inr ⟨x, h, hfresh⟩

/-- A step delivers at most one delta, for the current epoch. -/
theorem calls_step (hi : Inv s) (a : Act) : (s.step small a).calls = s.calls ∨
    ∃ c, (s.step small a).calls = s.calls ++ [c] ∧ c.2.key.output_epoch = s.output_epoch := by
  cases (evolves_step hi small a).outputs with
  | silent h => exact .inl h
  | delta d i hcur h => exact .inr ⟨(d, i), h, epoch_of_stream_current hcur⟩
  | reply _ h => exact .inl h

/-- From a state in which the epoch is at least `e`, deltas are delivered only for such epochs, and no
identity of an earlier one is current. -/
theorem later_epochs (hi : Inv s) (hs : s.state ≠ .new) {e : ℤ} (he : e ≤ s.output_epoch) (as : List Act) :
    (∀ i : Identity, i.key.output_epoch < e → ¬ (run (step small) s as).isCurrent i) ∧
      ∃ calls, (run (step small) s as).calls = s.calls ++ calls ∧ ∀ c ∈ calls, e ≤ c.2.key.output_epoch := by
  let P : Conversation → Prop := fun s => Inv s ∧ s.state ≠ .new ∧ e ≤ s.output_epoch
  have hstep : ∀ s a, P s → P (step small s a) := by
    rintro s a ⟨hi, hs, he⟩
    obtain ⟨hs', hle⟩ := (evolves_step hi small a).started hs
    exact ⟨inv_step hi small a, hs', he.trans hle⟩
  have hP : P s := ⟨hi, hs, he⟩
  constructor
  · intro i hlt hcur
    obtain ⟨-, -, -, hepoch, -⟩ := of_isCurrent hcur
    have hrun := (run_invariant hstep as hP).2.2
    omega
  · refine log_run hstep (fun s a h => ?_) hP as
    rcases calls_step small h.1 a with h' | ⟨c, h', hc⟩
    · exact .inl h'
    · exact .inr ⟨c, h', h.2.2.trans hc.ge⟩

/-- After a violation of the protocol there is no reply without a failure. -/
theorem replies_violated (hi : Inv s) (hv : s.violated) (as : List Act) :
    ∃ replies, (run (step small) s as).replies = s.replies ++ replies ∧
      ∀ x ∈ replies, x.reply.failure ≠ none := by
  refine log_run (P := fun s => Inv s ∧ s.violated = true) ?_ (fun s a h => ?_) ⟨hi, hv⟩ as
  · rintro s a ⟨hi, hv⟩
    exact ⟨inv_step hi small a, (evolves_step hi small a).violated hv⟩
  · rcases replies_step small h.1 a with h' | ⟨x, h', hfresh⟩
    · exact .inl h'
    · refine .inr ⟨x, h', fun hnone => ?_⟩
      obtain ⟨i, hfresh, -⟩ := hfresh hnone
      exact absurd h.2 (Bool.eq_false_iff.1 hfresh.violated)

end Log

/-- An epoch that is accepted is the new one. -/
theorem invalidate_epoch {new_epoch : ℤ} {reason : String} (h : s.invalidates new_epoch reason) :
    (s.invalidate new_epoch reason).output_epoch = new_epoch ∧ s.output_epoch < new_epoch ∧
      (s.invalidate new_epoch reason).state = s.state := by
  unfold invalidate
  rw [if_pos h]
  unfold invalidates at h
  simp only [Bool.and_eq_true, decide_eq_true_eq] at h
  exact ⟨rfl, h.1.2, rfl⟩

/-- In every run: a reply without a failure was returned when it was the newest one, of the current epoch,
of a session that was ready, and its deltas make up its text; after an invalidation nothing that was issued
before is current, and once the conversation was started nothing of an earlier epoch is current or
delivered; and after a violation of the protocol there is no reply without a failure. -/
theorem no_stale_output (small : FloatText → Bool) (as : List Act) :
    (∀ before x after, (run (step small) init as).replies = before ++ x :: after →
      x.reply.failure = none → ∃ pre a post i, as = pre ++ a :: post ∧
        (run (step small) init pre).replies = before ∧
        (run (step small) init (pre ++ [a])).replies = before ++ [x] ∧
        (run (step small) init pre).Fresh x i ∧ (run (step small) init (pre ++ [a])).isCurrent i) ∧
    (∀ pre e reason post, as = pre ++ .invalidate e reason :: post →
      (run (step small) init pre).invalidates e reason →
        (∀ i ∈ (run (step small) init pre).issued, ¬ (run (step small) init as).isCurrent i) ∧
        ((run (step small) init pre).state ≠ .new →
          (∀ i : Identity, i.key.output_epoch < e → ¬ (run (step small) init as).isCurrent i) ∧
          ∃ calls, (run (step small) init as).calls = (run (step small) init pre).calls ++ calls ∧
            ∀ c ∈ calls, e ≤ c.2.key.output_epoch)) ∧
    (∀ pre post, as = pre ++ post → (run (step small) init pre).violated →
      ∃ replies, (run (step small) init as).replies = (run (step small) init pre).replies ++ replies ∧
        ∀ x ∈ replies, x.reply.failure ≠ none) := by
  refine ⟨?_, ?_, ?_⟩
  · intro before x after e hnone
    obtain ⟨pre, a, post, rfl, hpre, ha⟩ := exists_log_step (fun s a h => inv_step h small a)
      (fun s a h => (replies_step small h a).imp_right fun ⟨x, h, _⟩ => ⟨x, h⟩) inv_init rfl e
    rcases replies_step small (inv_run small pre) a with h | ⟨y, h, hfresh⟩
    · rw [ha, hpre] at h
      exact absurd h (by simp)
    · rw [ha, hpre] at h
      obtain rfl : x = y := by simpa using h
      obtain ⟨i, hfresh, hcur⟩ := hfresh hnone
      refine ⟨pre, a, post, i, rfl, hpre, ?_, hfresh, ?_⟩
      · rw [run_concat]
        exact ha
      · rw [run_concat]
        exact hcur
  · rintro pre e reason post rfl haccepts
    have hi := inv_run small pre
    obtain ⟨hepoch, hlt, hstate⟩ := invalidate_epoch haccepts
    rw [run_append, run_cons]
    by_cases hs : (run (step small) init pre).state = .new
    · -- nothing has been issued
      refine ⟨fun i h => ?_, fun h => absurd hs h⟩
      rw [(hi.fresh (.inl hs)).2.2.2.2.2] at h
      cases h
    · obtain ⟨hcur, calls, hcalls, hle⟩ := later_epochs small (inv_invalidate hi e reason)
        (by rwa [hstate]) hepoch.ge post
      refine ⟨fun i h => hcur i ((hi.issued i h).trans_lt hlt), fun _ => ⟨hcur, calls, ?_, hle⟩⟩
      refine hcalls.trans (congrArg (· ++ calls) ?_)
      unfold invalidate
      rw [if_pos haccepts]
  · rintro pre post rfl hv
    rw [run_append]
    exact replies_violated small (inv_run small pre) hv post

/-! ## An invalidation before `start` -/

/-- The events of a session and of its first response. -/
def serverEvents : List Json :=
  [.dict [("type", .str "input.committed"), ("turn_id", .int 1), ("text", .bool true)],
   .dict [("type", .str "response.created"), ("turn_id", .int 1), ("generation_id", .int 1)],
   .dict [("type", .str "response.text.delta"), ("turn_id", .int 1), ("generation_id", .int 1),
     ("delta", .str "ok")],
   .dict [("type", .str "response.text.done"), ("turn_id", .int 1), ("generation_id", .int 1),
     ("text", .str "ok")],
   .dict [("type", .str "metrics"), ("turn_id", .int 1), ("generation_id", .int 1),
     ("cancelled", .bool false)]]

def sessionReadyEvent : Json :=
  .dict [("type", .str "session.ready"), ("mode", .str "text"), ("session_id", .str "s")]

def firstKey : Key := ⟨⟨"call", "task", 0, 0, 0⟩, 3, "request"⟩

/-- The conversation is started with epoch 3, and answers a request. -/
def firstResponse : List Act :=
  [.start "call" 3 "rules" "socket", .startHears (some 0) sessionReadyEvent, .startEnds,
    .respond "question" (some "patch") firstKey true (some 0), .updateEnds, .turnStarts, .turnSends] ++
  serverEvents.flatMap (fun event => [.turnHears (some 0) event, .turnTakes, .turnDelivers]) ++
  [.respondEnds]

/-- An invalidation before `start` does not bind the epoch that `start` sets: after epoch 5 was called for,
deltas and replies of epoch 3 are current. -/
theorem start_forgets_epoch :
    let before : List Act := []
    let i : Identity := ⟨firstKey, some "socket", some "s", 1, 1⟩
    let final := run (step fun _ => true) init
      (before ++ .invalidate 5 "stop" :: ([.drain .created false] ++ firstResponse))
    (run (step fun _ => true) init before).invalidates 5 "stop" ∧ i.key.output_epoch < 5 ∧
      final.isCurrent i ∧ final.calls = [("ok", i)] ∧
      final.replies.map (fun x => (x.reply.identity, x.reply.failure)) = [(some i, none)] := by
  decide +kernel

end Conversation

end StrixAlloy.Omni

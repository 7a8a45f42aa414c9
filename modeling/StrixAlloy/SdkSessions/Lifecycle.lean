import StrixAlloy.Lib.Runs
import StrixAlloy.SdkSessions.Manager

/-!
# The life of a voice session

The set of holders never has two members, and a session holds the capacity until its call is closed. At
most one offer of a session reaches its peer, what is accepted reaches it in order, and nothing of a session
moves any more once its closing has begun. A candidate that was accepted before the answer is still in the
backlog then, and is dropped with it when the session closes first.
-/

namespace StrixAlloy.SdkSessions

open Runs List

variable {C : Type}

namespace Session

/-! ## The invariant of a session -/

/-- The offer's handler is inside the lock and has not answered. -/
def negotiating (s : Session C) : Prop :=
  s.holding = some .describing ∨ s.holding = some .flushing ∨ s.holding = some .answering ∨
    s.holding = some .localizing

/-- What a session keeps: until its answer, what it accepted is what it added and its backlog, which is
empty once the answer is being made; afterwards a candidate is added before it is accepted. -/
structure Inv (s : Session C) : Prop where
  task : s.closing = s.close_task.isSome
  backlog : s.closing = false → s.offered = false → s.accepted = s.added ++ s.pending
  emptied : s.closing = false → (s.holding = some .answering ∨ s.holding = some .localizing) →
    s.pending = []
  order : s.offered = false → s.added <+: s.accepted
  adding : ∀ c, s.holding = some (.adding c) → s.offered ∧ s.added = s.accepted ++ [c]
  answered : s.offered → s.added = s.accepted ∨ ∃ c, s.added = s.accepted ++ [c]
  level : s.offered → s.closing = false → (∀ c, s.holding ≠ some (.adding c)) →
    s.added = s.accepted
  described : s.described.length ≤ 1
  fresh : s.closing = false → s.offered = false → s.holding = none → s.described = []
  offering : s.negotiating → s.offered = false
  observing : s.holding = some .observing → s.offered
  closed : s.closed → s.close_complete ∧ s.closing

theorem inv_init : Inv (init : Session C) where
  task := rfl
  backlog _ _ := rfl
  emptied _ _ := rfl
  order _ := nil_prefix
  adding c h := by cases h
  answered h := by cases h
  level h := by cases h
  described := Nat.zero_le _
  fresh _ _ _ := rfl
  offering _ := rfl
  observing h := by cases h
  closed h := by cases h

variable {s s' : Session C}

section

variable (hi : Inv s)
include hi

/-- The fields that a closing session may still change. -/
theorem Inv.frozen (hc : s'.closing) (htask : s'.close_task.isSome) (hoffered : s'.offered = s.offered)
    (hadded : s'.added = s.added) (haccepted : s'.accepted = s.accepted) (hdescribed : s'.described = s.described)
    (hholding : s'.holding = s.holding ∨ s'.holding = none) (hclosed : s'.closed → s'.close_complete) : Inv s' where
  task := by rw [hc, htask]
  backlog h := by
    rw [hc] at h
    cases h
  emptied h := by
    rw [hc] at h
    cases h
  order h := by
    rw [hadded, haccepted]
    exact hi.order (hoffered ▸ h)
  adding c h := by
    rcases hholding with e | e
    · rw [hoffered, hadded, haccepted]
      exact hi.adding c (e ▸ h)
    · rw [e] at h
      cases h
  answered h := by
    rw [hadded, haccepted]
    exact hi.answered (hoffered ▸ h)
  level _ h := by
    rw [hc] at h
    cases h
  described := by
    rw [hdescribed]
    exact hi.described
  fresh h := by
    rw [hc] at h
    cases h
  offering h := by
    rw [hoffered]
    rcases hholding with e | e
    · unfold negotiating at h
      rw [e] at h
      exact hi.offering h
    · simp [negotiating, e] at h
  observing h := by
    rw [hoffered]
    rcases hholding with e | e
    · exact hi.observing (e ▸ h)
    · rw [e] at h
      cases h
  closed h := ⟨hclosed h, hc⟩

omit hi in
theorem closing_beginClose (s : Session C) (hi : Inv s) : s.beginClose.closing := by
  unfold beginClose
  split_ifs with h
  · rfl
  · rw [hi.task, Option.isSome_iff_ne_none]
    simpa using h

theorem Inv.beginClose : Inv s.beginClose := by
  have hc := closing_beginClose s hi
  unfold Session.beginClose at hc ⊢
  split_ifs with h
  · exact hi.frozen rfl rfl rfl rfl rfl rfl (Or.inl rfl) fun hcl => (hi.closed hcl).1
  · exact hi

theorem Inv.answer (op : Operation) (status : ℕ) : Inv (s.answer op status) :=
  { hi with }

/-- A handler that leaves a closing session. -/
theorem Inv.leave (hc : s.closing) (op : Operation) (status : ℕ) :
    Inv (s.leave op status) := by
  refine hi.frozen hc ?_ rfl rfl rfl rfl (Or.inr rfl) fun h => (hi.closed h).1
  have h := hi.task
  rw [hc] at h
  exact h.symm

theorem Inv.offer (hfree : s.holding = none) (sdp : String) : Inv (s.offer sdp) := by
  unfold Session.offer
  split_ifs with hc ho
  · exact hi.answer _ _
  · exact hi.answer _ _
  · rw [Bool.not_eq_true] at hc ho
    have hd := hi.fresh hc ho hfree
    exact
      { hi with
        emptied := fun _ h => by simp at h
        adding := fun c h => by simp at h
        level := fun h => absurd h (by rw [ho]; exact Bool.false_ne_true)
        described := by simp [hd]
        fresh := fun _ _ h => by cases h
        offering := fun _ => ho
        observing := fun h => by cases h }

theorem Inv.flush (hc : s.closing = false) (hneg : s.negotiating) : Inv s.flush := by
  have ho := hi.offering hneg
  have hb := hi.backlog hc ho
  unfold Session.flush
  split
  · rename_i c cs hp
    rw [hp] at hb
    exact
      { hi with
        backlog := fun _ _ => by simpa using hb
        emptied := fun _ h => by simp at h
        order := fun _ => ⟨cs, by simpa using hb.symm⟩
        adding := fun c h => by simp at h
        answered := fun h => absurd h (by rw [ho]; exact Bool.false_ne_true)
        level := fun h => absurd h (by rw [ho]; exact Bool.false_ne_true)
        fresh := fun _ _ h => by cases h
        offering := fun _ => ho
        observing := fun h => by cases h }
  · rename_i hp
    exact
      { hi with
        emptied := fun _ _ => hp
        adding := fun c h => by simp at h
        level := fun h => absurd h (by rw [ho]; exact Bool.false_ne_true)
        fresh := fun _ _ h => by cases h
        offering := fun _ => ho
        observing := fun h => by cases h }

theorem Inv.candidate (hfree : s.holding = none) (c : C) : Inv (s.candidate c) := by
  have hlocked : ¬ (s.holding = some .answering ∨ s.holding = some .localizing) := by simp [hfree]
  unfold Session.candidate
  split_ifs with hc hfull ho
  · exact hi.answer _ _
  · exact hi.answer _ _
  · -- before the answer the candidate joins the backlog
    rw [Bool.not_eq_true] at hc
    rw [Bool.not_eq_true'] at ho
    have hb := hi.backlog hc ho
    have hi' : Inv { s with candidate_count := s.candidate_count + 1, pending := s.pending ++ [c]
                            accepted := s.accepted ++ [c] } :=
      { hi with
        backlog := fun _ _ => by
          rw [hb, append_assoc]
        emptied := fun _ h => absurd h hlocked
        order := fun _ => (hi.order ho).trans (prefix_append _ _)
        adding := fun c' h => by
          rw [show s.holding = some _ from h] at hfree
          cases hfree
        answered := fun h => absurd h (by rw [ho]; exact Bool.false_ne_true)
        level := fun h => absurd h (by rw [ho]; exact Bool.false_ne_true) }
    exact hi'.answer _ _
  · -- after it the handler adds the candidate itself
    rw [Bool.not_eq_true] at hc
    have ho' : s.offered := by simpa using ho
    have hlevel := hi.level ho' hc fun c' h => by
      rw [hfree] at h
      cases h
    exact
      { hi with
        backlog := fun _ h => absurd h (by simp [ho'])
        emptied := fun _ h => by simp at h
        order := fun h => absurd h (by simp [ho'])
        adding := fun c' h => by
          cases h
          exact ⟨ho', by rw [← hlevel]⟩
        answered := fun _ => Or.inr ⟨c, by rw [← hlevel]⟩
        level := fun _ _ h => absurd rfl (h c)
        fresh := fun _ h => absurd h (by simp [ho'])
        offering := fun h => by simp [negotiating] at h
        observing := fun _ => ho' }

/-- The answer passed its check: everything accepted so far was added. -/
theorem Inv.passed (hc : s.closing = false) (hl : s.holding = some .localizing) :
    Inv { s with offered := true, holding := some .observing } := by
  have ho := hi.offering (Or.inr (Or.inr (Or.inr hl)))
  have hb := hi.backlog hc ho
  rw [hi.emptied hc (Or.inr hl), append_nil] at hb
  exact
    { hi with
      backlog := fun _ h => by cases h
      emptied := fun _ h => by simp at h
      order := fun h => by cases h
      adding := fun c h => by cases h
      answered := fun _ => Or.inl hb.symm
      level := fun _ _ _ => hb.symm
      fresh := fun _ h => by cases h
      offering := fun h => by simp [negotiating] at h
      observing := fun _ => rfl }

/-- A candidate whose `addIceCandidate` has returned is accepted. -/
theorem Inv.added {c : C} (hl : s.holding = some (.adding c)) :
    Inv ({ s with accepted := s.accepted ++ [c] }.leave .candidate 200) := by
  obtain ⟨ho, hadd⟩ := hi.adding c hl
  exact
    { hi with
      backlog := fun _ h => absurd h (by simp [Session.leave, Session.answer, ho])
      emptied := fun _ h => by simp [Session.leave] at h
      order := fun h => absurd h (by simp [Session.leave, Session.answer, ho])
      adding := fun c h => by cases h
      answered := fun _ => Or.inl hadd
      level := fun _ _ _ => hadd
      fresh := fun _ h => absurd h (by simp [Session.leave, Session.answer, ho])
      offering := fun h => by simp [negotiating, Session.leave] at h
      observing := fun _ => ho }

/-- The next await of the offer's handler. -/
theorem Inv.localize (hl : s.holding = some .answering) :
    Inv { s with holding := some .localizing } := by
  have ho := hi.offering (Or.inr (Or.inr (Or.inl hl)))
  exact
    { hi with
      emptied := fun hc _ => hi.emptied hc (Or.inl hl)
      adding := fun c h => by cases h
      level := fun h => absurd h (by simp [ho])
      fresh := fun _ _ h => by cases h
      offering := fun _ => ho
      observing := fun h => by cases h }

/-- The observed answer is sent. -/
theorem Inv.sent (ho : s.offered) (hl : ∀ c, s.holding ≠ some (.adding c)) :
    Inv (s.leave .offer 200) where
  __ := hi
  backlog _ h := absurd h (by simp [Session.leave, Session.answer, ho])
  emptied _ h := by simp [Session.leave] at h
  order h := absurd h (by simp [Session.leave, Session.answer, ho])
  adding c h := by cases h
  level _ hc _ := hi.level ho hc hl
  fresh _ h := absurd h (by simp [Session.leave, Session.answer, ho])
  offering h := by simp [negotiating, Session.leave] at h
  observing _ := ho

theorem Inv.proceed (checked : Checked) : Inv (s.proceed checked) := by
  unfold Session.proceed
  split
  · exact hi
  · rename_i hl
    split_ifs with hc
    · exact hi.leave hc _ _
    · exact hi.flush (Bool.eq_false_iff.2 hc) (Or.inl hl)
  · rename_i hl
    split_ifs with hc
    · exact hi.leave hc _ _
    · exact hi.flush (Bool.eq_false_iff.2 hc) (Or.inr (Or.inl hl))
  · rename_i hl
    split_ifs with hc
    · exact hi.leave hc _ _
    · exact hi.localize hl
  · rename_i hl
    split_ifs with hc
    · exact hi.leave hc _ _
    · cases checked with
      | passed => exact hi.passed (Bool.eq_false_iff.2 hc) hl
      | failed => exact hi.beginClose.leave (closing_beginClose s hi) _ _
      | relayUnavailable => exact hi.beginClose.leave (closing_beginClose s hi) _ _
  · rename_i hl
    refine hi.sent (hi.observing hl) fun c h => ?_
    rw [hl] at h
    cases h
  · rename_i c hl
    split_ifs with hc
    · exact hi.leave hc _ _
    · exact hi.added hl

theorem Inv.fail : Inv s.fail := by
  unfold Session.fail
  split
  · exact hi
  · exact hi.beginClose.leave (closing_beginClose s hi) _ _
  · exact hi.beginClose.leave (closing_beginClose s hi) _ _

theorem Inv.cancelled : Inv s.cancelled := by
  have hc := closing_beginClose s hi
  have htask := hi.beginClose.task
  rw [hc] at htask
  unfold Session.cancelled
  split_ifs
  · exact hi
  · exact hi.beginClose.frozen hc htask.symm rfl rfl rfl rfl (Or.inr rfl) fun h =>
      (hi.beginClose.closed h).1

/-- The steps of `_finish_close`. -/
theorem Inv.ofTask {stage : CloseStage} (hs : s.close_task = some stage) (htask : s'.close_task.isSome)
    (hclosing : s'.closing = s.closing) (hoffered : s'.offered = s.offered) (hadded : s'.added = s.added)
    (haccepted : s'.accepted = s.accepted) (hdescribed : s'.described = s.described)
    (hholding : s'.holding = s.holding) (hclosed : s'.closed → s'.close_complete) : Inv s' := by
  have hc : s.closing := by
    rw [hi.task, hs]
    rfl
  exact hi.frozen (hclosing.trans hc) htask hoffered hadded haccepted hdescribed (Or.inl hholding) hclosed

theorem Inv.finish {stage : CloseStage} (hs : s.close_task = some stage) : Inv s.finish := by
  unfold Session.finish
  split_ifs with h
  · exact hi.ofTask hs rfl rfl rfl rfl rfl rfl rfl fun _ => h
  · exact hi.ofTask hs rfl rfl rfl rfl rfl rfl rfl fun hcl => (hi.closed hcl).1

theorem Inv.closeStep : Inv s.closeStep := by
  have hcl := fun h => (hi.closed h).1
  unfold Session.closeStep
  split
  · rename_i hs
    exact hi.ofTask hs rfl rfl rfl rfl rfl rfl rfl hcl
  · rename_i hs
    split_ifs
    · exact hi
    · exact hi.ofTask hs rfl rfl rfl rfl rfl rfl rfl hcl
  · rename_i hs
    exact hi.ofTask hs rfl rfl rfl rfl rfl rfl rfl hcl
  · rename_i hs
    exact hi.ofTask hs rfl rfl rfl rfl rfl rfl rfl hcl
  · rename_i hs
    split_ifs
    · exact hi.finish hs
    · exact hi
  · exact hi

theorem Inv.closeFail : Inv s.closeFail := by
  unfold Session.closeFail
  split
  · rename_i hs
    exact hi.finish hs
  · exact hi

theorem Inv.complete : Inv { s with close_complete := true } :=
  { hi with closed := fun h => ⟨rfl, (hi.closed h).2⟩ }

end

/-! ## A closing session -/

/-- Nothing of the session's state towards its clients and its peer has changed. -/
structure Frozen (s s' : Session C) : Prop where
  closing : s'.closing = s.closing
  offered : s'.offered = s.offered
  described : s'.described = s.described
  added : s'.added = s.added
  accepted : s'.accepted = s.accepted

theorem Frozen.refl (s : Session C) : Frozen s s := ⟨rfl, rfl, rfl, rfl, rfl⟩

theorem Frozen.trans {s'' : Session C} (h : Frozen s s') (h' : Frozen s' s'') : Frozen s s'' :=
  ⟨h'.closing.trans h.closing, h'.offered.trans h.offered, h'.described.trans h.described,
    h'.added.trans h.added, h'.accepted.trans h.accepted⟩

/-- The functions that a step applies to a session. -/
inductive Move (c : Config C) : (Session C → Session C) → Prop
  | offer (body : List (String × Json)) : Move c (Manager.offerRequest body)
  | candidate (body : List (String × Json)) : Move c (Manager.candidateRequest c body)
  | proceed (checked : Checked) : Move c fun s => s.proceed checked
  | fail : Move c fail
  | cancelled : Move c cancelled
  | close : Move c beginClose
  | closeStep : Move c closeStep
  | closeFail : Move c closeFail
  | complete : Move c fun s => { s with close_complete := true }

theorem Move.inv {c : Config C} {f : Session C → Session C} (hf : Move c f) (hi : Inv s) : Inv (f s) := by
  cases hf with
  | offer =>
    unfold Manager.offerRequest
    split
    · exact hi.answer _ _
    · split_ifs with hl
      · exact hi
      · exact hi.offer (by simpa using hl) _
  | candidate =>
    unfold Manager.candidateRequest
    split
    · exact hi.answer _ _
    · split_ifs with hl
      · exact hi
      · exact hi.candidate (by simpa using hl) _
  | proceed checked => exact hi.proceed checked
  | fail => exact hi.fail
  | cancelled => exact hi.cancelled
  | close => exact hi.beginClose
  | closeStep => exact hi.closeStep
  | closeFail => exact hi.closeFail
  | complete => exact hi.complete

theorem frozen_beginClose (hi : Inv s) (hc : s.closing) : s.beginClose = s := by
  have h := hi.task
  rw [hc] at h
  unfold beginClose
  rw [if_neg (by rw [Option.isNone_iff_eq_none]; intro e; rw [e] at h; cases h)]

/-- Once closing has begun, only the answers, the lock, the backlog and the closing itself move. -/
theorem Move.frozen {c : Config C} {f : Session C → Session C} (hf : Move c f) (hi : Inv s) (hc : s.closing) :
    Frozen s (f s) := by
  have hbegin := frozen_beginClose hi hc
  cases hf with
  | offer =>
    unfold Manager.offerRequest
    split
    · exact ⟨rfl, rfl, rfl, rfl, rfl⟩
    · split_ifs
      · exact Frozen.refl s
      · unfold Session.offer
        rw [if_pos hc]
        exact ⟨rfl, rfl, rfl, rfl, rfl⟩
  | candidate =>
    unfold Manager.candidateRequest
    split
    · exact ⟨rfl, rfl, rfl, rfl, rfl⟩
    · split_ifs
      · exact Frozen.refl s
      · unfold Session.candidate
        rw [if_pos hc]
        exact ⟨rfl, rfl, rfl, rfl, rfl⟩
  | proceed =>
    dsimp only
    unfold Session.proceed
    split
    · exact Frozen.refl s
    all_goals first | rw [if_pos hc] | skip
    all_goals exact ⟨rfl, rfl, rfl, rfl, rfl⟩
  | fail =>
    unfold Session.fail
    rw [hbegin]
    split
    · exact Frozen.refl s
    · exact ⟨rfl, rfl, rfl, rfl, rfl⟩
    · exact ⟨rfl, rfl, rfl, rfl, rfl⟩
  | cancelled =>
    unfold Session.cancelled
    rw [hbegin]
    split_ifs
    · exact Frozen.refl s
    · exact ⟨rfl, rfl, rfl, rfl, rfl⟩
  | close =>
    rw [hbegin]
    exact Frozen.refl s
  | closeStep =>
    unfold Session.closeStep Session.finish
    split
    all_goals try split_ifs
    all_goals exact ⟨rfl, rfl, rfl, rfl, rfl⟩
  | closeFail =>
    unfold Session.closeFail Session.finish
    split
    all_goals try split_ifs
    all_goals exact ⟨rfl, rfl, rfl, rfl, rfl⟩
  | complete => exact ⟨rfl, rfl, rfl, rfl, rfl⟩

end Session

namespace Manager

open Session (Move Frozen)

/-! ## The invariant of the manager -/

/-- The capacity is one, and a session holds it until it is closed. -/
structure Inv (m : Manager C) : Prop where
  capacity : m.active.length ≤ 1
  reserved : ∀ o ∈ m.creating, Holder.reservation o.1 ∈ m.active
  held : ∀ i s, m.sessions[i]? = some s → (s.closed = false ↔ Holder.call i ∈ m.active)
  sessions : ∀ s ∈ m.sessions, s.Inv

theorem inv_init : Inv (init : Manager C) where
  capacity := Nat.zero_le _
  reserved o h := by cases h
  held i s h := by cases h
  sessions s h := by cases h

variable {m : Manager C}

theorem active_eq (hi : Inv m) {h : Holder} (hm : h ∈ m.active) : m.active = [h] := by
  obtain ⟨l, hl⟩ : ∃ x, m.active = [x] := by
    rw [← length_eq_one_iff]
    have := length_pos_of_mem hm
    have := hi.capacity
    omega
  rw [hl, mem_singleton] at hm
  rw [hl, hm]

theorem Inv.release (hi : Inv m) (operation : ℕ) : Inv (m.release operation) where
  capacity := (length_erase_le).trans hi.capacity
  reserved o ho := by
    obtain ⟨hmem, hne⟩ := mem_filter.1 ho
    have hne' : o.1 ≠ operation := by simpa using hne
    exact (mem_erase_of_ne (by simpa using hne')).2 (hi.reserved o hmem)
  held i s hs := by
    rw [hi.held i s hs]
    exact (mem_erase_of_ne (by simp)).symm
  sessions := hi.sessions

variable {s : Session C}

/-- The reservation of a `create` becomes the call of its session in one step. -/
theorem Inv.add (hi : Inv m) {operation : ℕ} (hr : Holder.reservation operation ∈ m.active) (hs : s.Inv)
    (hopen : s.closed = false) : Inv ((m.add s).release operation) := by
  have hactive := active_eq hi hr
  have hnew : ((m.add s).release operation).active = [.call m.sessions.length] := by
    simp [Manager.release, Manager.add, hactive]
  refine ⟨by rw [hnew]; exact le_rfl, ?_, ?_, ?_⟩
  · intro o ho
    obtain ⟨hmem, hne⟩ := mem_filter.1 ho
    have h := hi.reserved o hmem
    rw [hactive, mem_singleton] at h
    have hne' : o.1 ≠ operation := by simpa using hne
    exact absurd (by simpa using h) hne'
  · intro i s' hs'
    rw [hnew, mem_singleton]
    have hs'' : (m.sessions ++ [s])[i]? = some s' := hs'
    rcases Nat.lt_trichotomy i m.sessions.length with h | h | h
    · rw [List.getElem?_append_left h] at hs''
      rw [hi.held i s' hs'', hactive, mem_singleton]
      simp [h.ne]
    · subst h
      rw [List.getElem?_concat_length, Option.some_inj] at hs''
      subst hs''
      simp [hopen]
    · have hlen : (m.sessions ++ [s]).length ≤ i := by
        rw [length_append, length_singleton]
        omega
      rw [List.getElem?_eq_none hlen] at hs''
      cases hs''
  · intro s' hs'
    rcases mem_append.1 (show s' ∈ m.sessions ++ [s] from hs') with h | h
    · exact hi.sessions s' h
    · rw [mem_singleton.1 h]
      exact hs

theorem Inv.make (hi : Inv m) {operation : ℕ} (hr : Holder.reservation operation ∈ m.active) (made : Made) :
    Inv (m.make operation made) := by
  cases made with
  | failed => exact hi.release operation
  | unbound => exact hi.add hr Session.inv_init.beginClose rfl
  | opened => exact hi.add hr Session.inv_init rfl

theorem Inv.allocate {c : Config C} (hi : Inv m) {operation : ℕ} (hr : Holder.reservation operation ∈ m.active)
    (enabled : Bool) (made : Made) : Inv (m.allocate c operation enabled made) := by
  unfold Manager.allocate
  split_ifs
  · exact hi.release operation
  · refine ⟨hi.capacity, fun o ho => ?_, hi.held, hi.sessions⟩
    rcases mem_append.1 ho with h | h
    · exact hi.reserved o (mem_filter.1 h).1
    · rw [mem_singleton.1 h]
      exact hr
  · exact hi.make hr made

theorem Inv.create {c : Config C} (hi : Inv m) (enabled running : Bool) (made : Made) :
    Inv (m.create c enabled running made) := by
  unfold Manager.create
  split_ifs with hfull hprep
  · exact hi
  all_goals
    have hempty : m.active = [] := by
      by_contra h
      exact hfull (Or.inr (Or.inr (Or.inl h)))
    have hi' : Inv { m with active := m.active ++ [.reservation m.operations]
                            creating := m.creating ++ [(m.operations, .preparing)]
                            operations := m.operations + 1 } := by
      refine ⟨by simp [hempty], fun o ho => ?_, fun i s hs => ?_, hi.sessions⟩
      · rcases mem_append.1 ho with h | h
        · have := hi.reserved o h
          rw [hempty] at this
          cases this
        · rw [mem_singleton.1 h]
          exact mem_append_right _ (mem_singleton.2 rfl)
      · rw [hi.held i s hs]
        simp [hempty]
  · exact hi'
  · exact hi'.allocate (mem_append_right _ (mem_singleton.2 rfl)) enabled made

variable {f : Session C → Session C}

/-- The sessions after a step of one. -/
theorem get_modify {i j : ℕ} (h : (m.modify i f).sessions[j]? = some s) :
    ∃ s', m.sessions[j]? = some s' ∧ s = if i = j then f s' else s' := by
  have h' : (m.sessions.modify i f)[j]? = some s := h
  rw [List.getElem?_modify, Option.map_eq_map, Option.map_eq_some_iff] at h'
  obtain ⟨s', hs', e⟩ := h'
  exact ⟨s', hs', e.symm⟩

theorem Inv.sessions_modify {c : Config C} (hi : Inv m) (i : ℕ) (hf : Move c f) :
    ∀ s ∈ (m.modify i f).sessions, s.Inv := by
  intro s hs
  obtain ⟨j, hj⟩ := mem_iff_getElem?.1 hs
  obtain ⟨s', hs', rfl⟩ := get_modify hj
  have h := hi.sessions s' (mem_of_getElem? hs')
  split_ifs
  · exact hf.inv h
  · exact h

/-- A step of a session that leaves `closed` alone. -/
theorem Inv.modify {c : Config C} (hi : Inv m) (i : ℕ) (hf : Move c f) (hclosed : ∀ s, (f s).closed = s.closed) :
    Inv (m.modify i f) where
  __ := hi
  held j s hs := by
    obtain ⟨s', hs', rfl⟩ := get_modify hs
    have h := hi.held j s' hs'
    split_ifs
    · rw [hclosed]
      exact h
    · exact h
  sessions := hi.sessions_modify i hf

/-- A step of `_finish_close`: where it closes the session, the call leaves the set with it. -/
theorem Inv.discard {c : Config C} (hi : Inv m) (i : ℕ) (hf : Move c f)
    (hclosed : ∀ s, s.closed → (f s).closed) : Inv ((m.modify i f).discard i) := by
  have hsessions := hi.sessions_modify i hf
  unfold Manager.discard
  split_ifs with hany
  · refine ⟨(length_erase_le).trans hi.capacity, fun o ho => ?_, fun j s hs => ?_, hsessions⟩
    · exact (mem_erase_of_ne (by simp)).2 (hi.reserved o ho)
    · by_cases hij : i = j
      · subst hij
        have hs' : (m.modify i f).sessions[i]? = some s := hs
        rw [hs'] at hany
        have hnot : Holder.call i ∉ m.active.erase (.call i) := by
          intro h
          have hmem := mem_of_mem_erase h
          rw [active_eq hi hmem, erase_cons_head] at h
          cases h
        have hs1 : s.closed := hany
        simp only [hs1, Bool.true_eq_false, false_iff]
        exact hnot
      · obtain ⟨s', hs', e⟩ := get_modify hs
        rw [if_neg hij] at e
        subst e
        rw [hi.held j s hs']
        exact (mem_erase_of_ne (by simpa using Ne.symm hij)).symm
  · refine ⟨hi.capacity, hi.reserved, fun j s hs => ?_, hsessions⟩
    obtain ⟨s', hs', e⟩ := get_modify hs
    have h := hi.held j s' hs'
    by_cases hij : i = j
    · subst hij
      rw [if_pos rfl] at e
      rw [hs] at hany
      have hopen : s.closed = false := by simpa using hany
      have hopen' : s'.closed = false := by
        by_contra hcl
        have hs1 := hclosed s' (by simpa using hcl)
        rw [← e, hopen] at hs1
        cases hs1
      exact ⟨fun _ => h.1 hopen', fun _ => hopen⟩
    · rw [if_neg hij] at e
      subst e
      exact h

theorem closed_beginClose (s : Session C) : s.beginClose.closed = s.closed := by
  unfold Session.beginClose
  split_ifs <;> rfl

theorem closed_offerRequest (body : List (String × Json)) (s : Session C) :
    (offerRequest body s).closed = s.closed := by
  unfold offerRequest Session.offer
  split
  · rfl
  · split_ifs <;> rfl

theorem closed_candidateRequest (c : Config C) (body : List (String × Json)) (s : Session C) :
    (candidateRequest c body s).closed = s.closed := by
  unfold candidateRequest Session.candidate
  split
  · rfl
  · split_ifs <;> rfl

theorem closed_proceed (checked : Checked) (s : Session C) : (s.proceed checked).closed = s.closed := by
  have hleave : ∀ op status, (s.beginClose.leave op status).closed = s.closed := fun _ _ =>
    closed_beginClose s
  have hflush : s.flush.closed = s.closed := by
    unfold Session.flush
    split <;> rfl
  unfold Session.proceed
  split
  · rfl
  · split_ifs
    · rfl
    · exact hflush
  · split_ifs
    · rfl
    · exact hflush
  · split_ifs <;> rfl
  · split_ifs
    · rfl
    · cases checked with
      | passed => rfl
      | failed => exact hleave _ _
      | relayUnavailable => exact hleave _ _
  · rfl
  · split_ifs <;> rfl

theorem closed_fail (s : Session C) : s.fail.closed = s.closed := by
  unfold Session.fail
  split
  · rfl
  · exact closed_beginClose s
  · exact closed_beginClose s

theorem closed_cancelled (s : Session C) : s.cancelled.closed = s.closed := by
  unfold Session.cancelled
  split_ifs
  · rfl
  · exact closed_beginClose s

theorem closed_closeStep (h : s.closed) : s.closeStep.closed := by
  unfold Session.closeStep Session.finish
  split
  all_goals try split_ifs
  all_goals first | exact h | rfl

theorem closed_closeFail (h : s.closed) : s.closeFail.closed := by
  unfold Session.closeFail Session.finish
  split
  all_goals try split_ifs
  all_goals first | exact h | rfl

/-! ## Steps and runs -/

theorem inv_step (c : Config C) (hi : Inv m) (e : Event) : Inv (m.step c e) := by
  cases e with
  | create enabled running made => exact hi.create enabled running made
  | prepared operation passed enabled made =>
    dsimp only [step]
    split_ifs with hin hp
    · exact hi.allocate (hi.reserved _ hin) enabled made
    · exact hi.release operation
    · exact hi
  | bootstrapped operation passed enabled made =>
    dsimp only [step]
    split_ifs with hin hp
    · exact hi.make (hi.reserved _ hin) made
    · exact hi.release operation
    · exact hi
  | cancelCreate operation => exact hi.release operation
  | offer i body => exact hi.modify i (Move.offer (c := c) body) (closed_offerRequest body)
  | candidate i body => exact hi.modify i (Move.candidate body) (closed_candidateRequest c body)
  | proceed i checked => exact hi.modify i (Move.proceed (c := c) checked) (closed_proceed checked)
  | fail i => exact hi.modify i (Move.fail (c := c)) closed_fail
  | cancelled i => exact hi.modify i (Move.cancelled (c := c)) closed_cancelled
  | close i => exact hi.modify i (Move.close (c := c)) closed_beginClose
  | closeStep i => exact hi.discard i (Move.closeStep (c := c)) fun _ => closed_closeStep
  | closeFail i => exact hi.discard i (Move.closeFail (c := c)) fun _ => closed_closeFail
  | closeComplete i => exact hi.modify i (Move.complete (c := c)) fun _ => rfl
  | stop => exact { hi with }
  | shutdownSessions =>
    refine ⟨hi.capacity, hi.reserved, fun i s hs => ?_, fun s hs => ?_⟩
    · have hs' : (m.sessions.map Session.beginClose)[i]? = some s := hs
      rw [List.getElem?_map, Option.map_eq_some_iff] at hs'
      obtain ⟨s', hs', rfl⟩ := hs'
      rw [closed_beginClose]
      exact hi.held i s' hs'
    · obtain ⟨s', hs', rfl⟩ := mem_map.1 hs
      exact (hi.sessions s' hs').beginClose
  | browserEnter =>
    dsimp only [step]
    split_ifs with hempty
    · refine ⟨le_rfl, fun o ho => ?_, fun i s hs => ?_, hi.sessions⟩
      · have h := hi.reserved o ho
        rw [hempty] at h
        cases h
      · rw [hi.held i s hs, hempty]
        simp
    · exact hi
  | browserLeave =>
    refine ⟨(length_erase_le).trans hi.capacity, fun o ho => ?_, fun i s hs => ?_, hi.sessions⟩
    · exact (mem_erase_of_ne (by simp)).2 (hi.reserved o ho)
    · rw [hi.held i s hs]
      exact (mem_erase_of_ne (by simp)).symm

theorem inv_run (c : Config C) (es : List Event) : Inv (run (step c) init es) :=
  run_invariant (P := fun m => Inv m) (fun _ e h => inv_step c h e) es inv_init

/-- A `create` appends at most one session. -/
theorem sessions_make (m : Manager C) (operation : ℕ) (made : Made) :
    ∃ l, (m.make operation made).sessions = m.sessions ++ l := by
  cases made with
  | failed => exact ⟨[], (append_nil _).symm⟩
  | unbound => exact ⟨_, rfl⟩
  | opened => exact ⟨_, rfl⟩

theorem sessions_allocate (c : Config C) (m : Manager C) (operation : ℕ) (enabled : Bool)
    (made : Made) : ∃ l, (m.allocate c operation enabled made).sessions = m.sessions ++ l := by
  unfold allocate
  split_ifs
  · exact ⟨[], (append_nil _).symm⟩
  · exact ⟨[], (append_nil _).symm⟩
  · exact sessions_make m operation made

theorem sessions_create (c : Config C) (m : Manager C) (enabled running : Bool) (made : Made) :
    ∃ l, (m.create c enabled running made).sessions = m.sessions ++ l := by
  unfold create
  split_ifs
  · exact ⟨[], (append_nil _).symm⟩
  · exact ⟨[], (append_nil _).symm⟩
  · exact sessions_allocate c _ m.operations enabled made

theorem sessions_discard (m : Manager C) (i : ℕ) : (m.discard i).sessions = m.sessions := by
  unfold discard
  split_ifs <;> rfl

/-- What a step does to the sessions: it appends some, moves one, or begins to close all. -/
theorem sessions_step (c : Config C) (m : Manager C) (e : Event) :
    (∃ l, (m.step c e).sessions = m.sessions ++ l) ∨
      (∃ i f, Move c f ∧ (m.step c e).sessions = (m.modify i f).sessions) ∨
      (m.step c e).sessions = m.sessions.map Session.beginClose := by
  have hsame : ∃ l, m.sessions = m.sessions ++ l := ⟨[], (append_nil _).symm⟩
  cases e with
  | create enabled running made => exact Or.inl (sessions_create c m enabled running made)
  | prepared operation passed enabled made =>
    refine Or.inl ?_
    dsimp only [step]
    split_ifs
    · exact sessions_allocate c m operation enabled made
    · exact hsame
    · exact hsame
  | bootstrapped operation passed enabled made =>
    refine Or.inl ?_
    dsimp only [step]
    split_ifs
    · exact sessions_make m operation made
    · exact hsame
    · exact hsame
  | cancelCreate => exact Or.inl hsame
  | offer i body => exact Or.inr (Or.inl ⟨i, _, Move.offer body, rfl⟩)
  | candidate i body => exact Or.inr (Or.inl ⟨i, _, Move.candidate body, rfl⟩)
  | proceed i checked => exact Or.inr (Or.inl ⟨i, _, Move.proceed checked, rfl⟩)
  | fail i => exact Or.inr (Or.inl ⟨i, _, Move.fail, rfl⟩)
  | cancelled i => exact Or.inr (Or.inl ⟨i, _, Move.cancelled, rfl⟩)
  | close i => exact Or.inr (Or.inl ⟨i, _, Move.close, rfl⟩)
  | closeStep i => exact Or.inr (Or.inl ⟨i, _, Move.closeStep, sessions_discard _ i⟩)
  | closeFail i => exact Or.inr (Or.inl ⟨i, _, Move.closeFail, sessions_discard _ i⟩)
  | closeComplete i => exact Or.inr (Or.inl ⟨i, _, Move.complete, rfl⟩)
  | stop => exact Or.inl hsame
  | shutdownSessions => exact Or.inr (Or.inr rfl)
  | browserEnter =>
    refine Or.inl ?_
    dsimp only [step]
    split_ifs
    · exact hsame
    · exact hsame
  | browserLeave => exact Or.inl hsame

/-- A closing session of a reached manager is frozen by every step. -/
theorem frozen_step (c : Config C) (hi : Inv m) (e : Event) {i : ℕ} (hs : m.sessions[i]? = some s)
    (hc : s.closing) : ∃ s', (m.step c e).sessions[i]? = some s' ∧ Frozen s s' := by
  have hinv := hi.sessions s (mem_of_getElem? hs)
  rcases sessions_step c m e with ⟨l, h⟩ | ⟨j, f, hf, h⟩ | h
  · rw [h]
    have hlt := (List.getElem?_eq_some_iff.1 hs).1
    exact ⟨s, by rw [List.getElem?_append_left hlt, hs], Frozen.refl s⟩
  · refine ⟨if j = i then f s else s, ?_, ?_⟩
    · rw [h, show (m.modify j f).sessions = m.sessions.modify j f from rfl, List.getElem?_modify, hs]
      rfl
    · split_ifs
      · exact hf.frozen hinv hc
      · exact Frozen.refl s
  · refine ⟨s.beginClose, ?_, ?_⟩
    · rw [h, List.getElem?_map, hs]
      rfl
    · rw [Session.frozen_beginClose hinv hc]
      exact Frozen.refl s

/-- A closing session is frozen in every run from there on. -/
theorem frozen_run (c : Config C) (hi : Inv m) {i : ℕ} (hs : m.sessions[i]? = some s) (hc : s.closing)
    (es : List Event) : ∃ s', (run (step c) m es).sessions[i]? = some s' ∧ Frozen s s' := by
  induction es generalizing m s with
  | nil => exact ⟨s, hs, Frozen.refl s⟩
  | cons e es ih =>
    obtain ⟨s1, hs1, h1⟩ := frozen_step c hi e hs hc
    obtain ⟨s2, hs2, h2⟩ := ih (inv_step c hi e) hs1 (h1.closing.trans hc)
    exact ⟨s2, hs2, h1.trans h2⟩

end Manager

open Manager

/-- How the accepted candidates of a session stand to those given to its peer: each at most once and in
the order of their acceptance; all of them as soon as there is an answer; and before it, in an open
session, all but the backlog. At most one candidate is given to the peer without having been accepted: the
last one, whose handler has not answered or was refused because of the closing. -/
structure Session.Delivered (s : Session C) : Prop where
  order : s.added <+: s.accepted ∨ ∃ c, s.added = s.accepted ++ [c]
  answered : s.offered → s.accepted <+: s.added
  backlog : s.offered = false → s.closing = false → s.accepted = s.added ++ s.pending

theorem Session.Inv.delivered {s : Session C} (hi : s.Inv) : s.Delivered where
  order := by
    cases ho : s.offered with
    | false => exact Or.inl (hi.order ho)
    | true =>
      rcases hi.answered ho with h | h
      · exact Or.inl (h ▸ prefix_refl _)
      · exact Or.inr h
  answered ho := by
    rcases hi.answered ho with h | ⟨c, h⟩
    · exact h ▸ prefix_refl _
    · rw [h]
      exact prefix_append _ _
  backlog ho hc := hi.backlog hc ho

/-- The voice sessions after any steps of any clients: at most one member of `active` holds the capacity, a
`create` holds it while it prepares its call, and a session holds it exactly until it is closed, which its
call has then completed; at most one offer of a session reaches its peer; the candidates are delivered; and
what is closing stays so, with no further offer or candidate. -/
theorem session_lifecycle (c : Config C) (es : List Event) :
    let m := run (step c) init es
    m.active.length ≤ 1 ∧
    (∀ o ∈ m.creating, Holder.reservation o.1 ∈ m.active) ∧
    (∀ (i : ℕ) (s : Session C), m.sessions[i]? = some s →
      (s.closed = false ↔ Holder.call i ∈ m.active) ∧
      (s.closed → s.close_complete ∧ s.closing) ∧
      s.described.length ≤ 1 ∧ s.Delivered) ∧
    ∀ (i : ℕ) (s : Session C) (fs : List Event), m.sessions[i]? = some s → s.closing →
      ∃ s', (run (step c) m fs).sessions[i]? = some s' ∧ s.Frozen s' := by
  intro m
  have hi : m.Inv := inv_run c es
  refine ⟨hi.capacity, hi.reserved, fun i s hs => ?_, fun i s fs hs hc => frozen_run c hi hs hc fs⟩
  have hinv := hi.sessions s (mem_of_getElem? hs)
  exact ⟨hi.held i s hs, hinv.closed, hinv.described, hinv.delivered⟩

/-! ## A candidate that is dropped -/

def sampleConfig : Config String where
  prepares := false
  managed := false
  ice_candidate body := some body.candidate

/-- The body of a candidate. -/
def candidateSample : List (String × Json) :=
  [("candidate", .str "candidate:1 1 udp 2122260223 192.0.2.1 5000 typ host"), ("sdpMid", .str "0"),
   ("sdpMLineIndex", .int 0)]

/-- One candidate before the offer and one after the answer: both are given to the peer in order. -/
example :
    let offer : List (String × Json) := [("type", .str "offer"), ("sdp", .str "v=0\r\n")]
    let m := run (step sampleConfig) init
      ([.create true true .opened, .candidate 0 candidateSample, .offer 0 offer] ++
        List.replicate 5 (.proceed 0 .passed) ++ [.candidate 0 candidateSample, .proceed 0 .passed])
    m.sessions.map (fun s => (s.added.length, s.accepted.length, s.pending.length)) = [(2, 2, 0)] ∧
      m.active = [.call 0] := by
  decide +kernel

/-- A session that accepts a candidate and is deleted before any offer. -/
def abandoned : List Event :=
  [.create true true .opened, .candidate 0 candidateSample, .close 0, .closeStep 0, .closeStep 0,
   .closeComplete 0, .closeStep 0, .closeStep 0]

/-- The candidate was answered with success, and whatever comes it is never given to the peer. -/
theorem abandoned_candidate_dropped :
    (run (step sampleConfig) init abandoned).sessions[0]?.map (fun s => (s.closing, s.accepted, s.added)) =
      some (true, ["candidate:1 1 udp 2122260223 192.0.2.1 5000 typ host"], []) ∧
    ∀ fs, ∃ s : Session String, (run (step sampleConfig) init (abandoned ++ fs)).sessions[0]? = some s ∧
      s.accepted = ["candidate:1 1 udp 2122260223 192.0.2.1 5000 typ host"] ∧ s.added = [] := by
  have h : (run (step sampleConfig) init abandoned).sessions[0]?.map
      (fun s => (s.closing, s.accepted, s.added)) =
      some (true, ["candidate:1 1 udp 2122260223 192.0.2.1 5000 typ host"], []) := by decide +kernel
  refine ⟨h, fun fs => ?_⟩
  obtain ⟨s, hs, e⟩ := Option.map_eq_some_iff.1 h
  obtain ⟨hc, e⟩ := Prod.mk.inj e
  obtain ⟨haccepted, hadded⟩ := Prod.mk.inj e
  obtain ⟨s', hs', hfrozen⟩ := frozen_run sampleConfig (inv_run sampleConfig abandoned) hs hc fs
  refine ⟨s', ?_, hfrozen.accepted.trans haccepted, hfrozen.added.trans hadded⟩
  rw [run_append]
  exact hs'

end StrixAlloy.SdkSessions

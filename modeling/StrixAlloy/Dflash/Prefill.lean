import StrixAlloy.Dflash.Owner
import StrixAlloy.Dflash.Quarantine

/-!
# The invariant of a prefill

What the owner, its lease and what was copied for it have to do with one another (`Owner.Inv`), and that every
part of a call keeps it.
-/

namespace StrixAlloy.Dflash

open List

namespace Owner

/-- The lane as an owner left it, while its generation is the owner's. -/
def Joined (l : Lane) (b : Binding) (state : OwnerState) (waiting materialized : Bool) : Prop :=
  l.bound = b.pending ∧
    match state with
    | .idle => True
    | .pending => l.phase = .pending ∧ b.request = 0 ∧ b.birth = 0
    | .materialized => l.phase = .pending ∧ b.request = 0 ∧ b.birth = 0 ∧ l.materialized
    | .request => l.phase = .request ∧ b.request ≠ 0 ∧ l.request = b.request ∧ l.birth = b.birth
    | .retired =>
      waiting →
        (l.phase = .pending ∧ b.request = 0 ∧ b.birth = 0 ∧ (materialized → l.materialized)) ∨
          (l.phase = .request ∧ b.request ≠ 0 ∧ l.request = b.request ∧ l.birth = b.birth ∧ materialized = false)

/-- The chunks are contiguous from the first row on, and each was copied at all five taps. -/
structure Captured (copies : List Copy) (generation : ℕ) (chunks : List ℕ) (rows : ℕ) : Prop where
  sum : chunks.sum = rows
  pos : ∀ r ∈ chunks, r ≠ 0
  taps : ∀ i (h : i < chunks.length), ∀ tap < 5, (⟨generation, tap, (chunks.take i).sum, chunks[i]⟩ : Copy) ∈ copies

/-- A chunk that follows the captured rows is open, and is copied at the taps that are marked. -/
structure Opened (copies : List Copy) (generation : ℕ) (taps : List ℕ) (state : OwnerState)
    (captured start rows : ℕ) : Prop where
  at_pending : state = .pending
  follows : start = captured
  nonempty : rows ≠ 0
  copied : ∀ tap ∈ taps, (⟨generation, tap, start, rows⟩ : Copy) ∈ copies

structure Inv (s : Owner) : Prop where
  started : s.state ≠ .idle → s.generation ≠ 0
  configured : s.generation ≠ 0 → s.lane.configured
  own : s.generation ≠ 0 → s.binding.lease_generation = s.generation ∧ s.generation ≤ s.lane.generation
  joined : s.generation ≠ 0 → s.lane.generation = s.generation →
    Joined s.lane s.binding s.state s.retirement_waiting s.retirement_materialized
  waiting : s.retirement_waiting → s.state = .retired ∧ s.retirement_binding = s.binding
  ids : s.generation ≠ 0 → s.ids.length = s.binding.total
  transferred : s.state = .request → s.transferred = s.ids
  unqueued : s.copy_queued = false → s.finished = s.queued
  completed : s.copy_queued → s.fence_complete → s.finished = s.queued
  recorded : s.copy_queued → s.fence_recorded → s.fence_failed = false → s.fenced = s.queued
  early : s.state = .pending → s.feature_valid → s.fence_recorded = false ∧ s.fence_complete = false
  live : s.feature_valid → s.state = .pending ∨ s.state = .materialized ∨ s.state = .request
  seen : s.feature_valid → s.seen_loss = word s.losses_at_publish
  losses : s.losses_at_publish ≤ s.losses
  lane_loss : s.lane_loss_at_publish ≤ s.lane.loss
  arm : s.generation ≠ 0 → s.loss_at_arm = word s.lane_loss_at_publish
  captured : s.feature_valid → Captured s.copies s.generation s.chunks s.captured
  opened : s.feature_valid → s.chunk_open →
    Opened s.copies s.generation s.taps s.state s.captured s.chunk_start s.chunk_rows
  whole : s.feature_valid → s.state = .materialized ∨ s.state = .request → s.captured = s.binding.total

variable {s : Owner} {e : Env}

/-! ## Losses -/

theorem inv_markLoss (h : Inv s) : Inv { s with lane := s.lane.markLoss } :=
  { h with lane_loss := Nat.le_succ_of_le h.lane_loss }

theorem inv_lossOf (h : Inv s) (g : ℕ) : Inv { s with lane := s.lane.lossOf g } := by
  unfold Lane.lossOf
  split
  · exact inv_markLoss h
  · exact h

theorem inv_sourceLoss (h : Inv s) : Inv s.sourceLoss := by
  have hl : Inv { s with lane := if s.generation ≠ 0 then s.lane.lossOf s.generation else s.lane } := by
    split
    · exact inv_lossOf h _
    · exact h
  exact { hl with losses := Nat.le_succ_of_le h.losses }

theorem inv_invalid (h : Inv s) : Inv { s with feature_valid := false } :=
  { h with
    early := nofun
    live := nofun
    seen := nofun
    captured := nofun
    opened := nofun
    whole := nofun }

theorem inv_invalidate (h : Inv s) : Inv s.invalidate := inv_sourceLoss (inv_invalid h)

theorem inv_checkLosses (h : Inv s) : Inv s.checkLosses := by
  unfold checkLosses
  split
  · exact { inv_invalid h with seen := nofun }
  · exact h

/-! ## Retirement -/

/-- The owner is published and not retired. -/
def Live (state : OwnerState) : Prop := state = .pending ∨ state = .materialized ∨ state = .request

theorem inv_retired (h : Inv s) (hs : Live s.state) :
    Inv { s with feature_valid := false, chunk_open := false, retirement_binding := s.binding,
                 retirement_materialized := s.state = .materialized, retirement_waiting := true,
                 state := .retired } := by
  have hg : s.generation ≠ 0 := h.started (by rcases hs with hs | hs | hs <;> simp [hs])
  have hi := inv_invalid h
  refine { hi with started := fun _ => hg, joined := ?_, waiting := fun _ => ⟨rfl, rfl⟩, transferred := nofun,
                   early := nofun, live := nofun, captured := nofun, opened := nofun, whole := nofun }
  intro _ hl
  obtain ⟨hb, hj⟩ := h.joined hg hl
  refine ⟨hb, fun _ => ?_⟩
  rcases hs with hs | hs | hs
  · rw [hs] at hj ⊢
    exact .inl ⟨hj.1, hj.2.1, hj.2.2, nofun⟩
  · rw [hs] at hj ⊢
    exact .inl ⟨hj.1, hj.2.1, hj.2.2.1, fun _ => hj.2.2.2⟩
  · rw [hs] at hj ⊢
    exact .inr ⟨hj.1, hj.2.1, hj.2.2.1, hj.2.2.2, rfl⟩

/-- The fence that a retirement records for its copies. -/
theorem inv_refence (h : Inv s) (ok : Bool) :
    Inv { s.record ok with fence_failed := !ok, feature_valid := false } := by
  have hi := inv_invalid h
  refine { hi with recorded := ?_, early := nofun }
  intro _ hrec _
  have hok : ok := hrec
  subst hok
  rfl

/-- The retirement of a live owner. -/
theorem inv_retireLocal (h : Inv s) (hs : Live s.state) (ok : Bool) :
    Inv (s.retireLocal (s.state = .materialized) ok) := by
  have hr : s.state ≠ .retired := by rcases hs with hs | hs | hs <;> simp [hs]
  rw [retireLocal, if_neg hr]
  split
  · have ht := inv_retired (inv_refence h ok) hs
    exact ht
  · exact inv_retired h hs

theorem inv_unrecorded (h : Inv s) (live : Bool) : Inv (s.unrecorded live) := { h with }

theorem retireLocal_state (materialized ok : Bool) : (s.retireLocal materialized ok).state = .retired := by
  unfold retireLocal
  split
  · assumption
  · rfl

theorem drainRequests_eq (s : Owner) (request materialized : Bool) (ok : ℕ → Bool) :
    s.drainRequests request materialized ok = s ∨
      Live s.state ∧ ∃ i, s.drainRequests request materialized ok = s.retireLocal (s.state = .materialized) (ok i) := by
  unfold drainRequests
  dsimp only
  by_cases hr : request && s.state = .request
  · -- the request is dead, and the owner retired
    rw [if_pos hr]
    simp only [Bool.and_eq_true, decide_eq_true_eq] at hr
    right
    refine ⟨Or.inr (Or.inr hr.2), 1, ?_⟩
    have hm : decide (s.state = .materialized) = false := by simp [hr.2]
    rw [hm]
    simp [retireLocal_state]
  · rw [if_neg hr]
    split
    · next hm =>
      simp only [Bool.and_eq_true, Bool.or_eq_true, decide_eq_true_eq] at hm
      exact .inr ⟨.inr hm.2, 2, rfl⟩
    · exact .inl rfl

theorem drainRequests_retired (h : s.state = .retired) (request materialized : Bool) (ok : ℕ → Bool) :
    s.drainRequests request materialized ok = s := by
  unfold drainRequests
  simp [h]

/-- What the records come to: nothing, or the retirement of a live owner. -/
theorem drainRecords_eq (s : Owner) (ok : ℕ → Bool) :
    ∃ live, s.drainRecords ok = s.unrecorded live ∨
      Live s.state ∧ ∃ i, s.drainRecords ok =
        (s.unrecorded live).retireLocal ((s.unrecorded live).state = .materialized) (ok i) := by
  unfold drainRecords
  cases hc : s.marked s.pending_holder_retirement with
  | false =>
    refine ⟨s.holder_live && !s.marked s.holder_retirement, ?_⟩
    exact drainRequests_eq (s.unrecorded _) _ _ ok
  | true =>
    refine ⟨false, ?_⟩
    by_cases hl : s.state = .pending || s.state = .materialized || s.state = .request
    · right
      have hd : ∀ live, (s.unrecorded live).drainHolder true (ok 0) =
          (s.unrecorded false).retireLocal ((s.unrecorded false).state = .materialized) (ok 0) := by
        intro live
        rw [drainHolder, if_pos rfl]
        exact if_pos hl
      refine ⟨?_, 0, ?_⟩
      · simp only [Bool.or_eq_true, decide_eq_true_eq] at hl
        exact or_assoc.1 hl
      · rw [hd]
        exact drainRequests_retired (retireLocal_state _ _) _ _ ok
    · left
      have hd : ∀ live, (s.unrecorded live).drainHolder true (ok 0) = s.unrecorded false := by
        intro live
        rw [drainHolder, if_pos rfl]
        exact if_neg hl
      rw [hd]
      rcases drainRequests_eq (s.unrecorded false) (s.marked s.request_retirement)
        (s.marked s.materialized_retirement) ok with h | ⟨h, -⟩
      · exact h
      · simp only [Bool.or_eq_true, decide_eq_true_eq] at hl
        exact absurd (or_assoc.2 h) hl

theorem inv_drainRecords (h : Inv s) (ok : ℕ → Bool) : Inv (s.drainRecords ok) := by
  obtain ⟨live, he | ⟨hl, i, he⟩⟩ := drainRecords_eq s ok
  · rw [he]
    exact inv_unrecorded h live
  · rw [he]
    exact inv_retireLocal (inv_unrecorded h live) hl (ok i)

/-- The disposal of a lease that is waited for. -/
def disposal (s : Owner) (held again : Bool) : Lane × Bool :=
  if s.retirement_materialized then s.lane.abandon held s.retirement_binding again
  else s.lane.retire held s.retirement_binding again

theorem disposal_spec (s : Owner) (held again : Bool) : s.lane.Disposal (s.disposal held again) := by
  unfold disposal
  split
  · exact Lane.disposal_abandon ..
  · exact Lane.disposal_retire ..

theorem inv_acknowledge (h : Inv s) (held again : Bool) : Inv (s.acknowledge held again) := by
  unfold acknowledge
  split
  · next hw =>
    obtain ⟨hret, hbind⟩ := h.waiting hw
    have hd := disposal_spec s held again
    change Inv { s with lane := (s.disposal held again).1, retirement_waiting := !(s.disposal held again).2 }
    generalize s.disposal held again = r at hd
    obtain ⟨l, done⟩ := r
    cases done with
    | false =>
      rw [Bool.not_false, ← hw]
      rcases hd.refused rfl with hl | hl
      · obtain rfl : l = s.lane := hl
        exact h
      · obtain rfl : l = s.lane.markLoss := hl
        exact inv_markLoss h
    | true =>
      refine { h with configured := ?_, own := ?_, joined := ?_, waiting := nofun, lane_loss := ?_ }
      · intro hg
        exact hd.configured.trans (h.configured hg)
      · intro hg
        exact ⟨(h.own hg).1, Nat.le_trans (h.own hg).2 (Nat.le_of_eq hd.generation.symm)⟩
      · intro hg hl
        unfold Joined
        rw [hret]
        exact ⟨hd.bound.trans (h.joined hg (hd.generation.symm.trans hl)).1, nofun⟩
      · exact Nat.le_trans h.lane_loss hd.loss
  · exact h

theorem inv_drain (h : Inv s) (k : ℕ) : Inv (s.drainRetirements e k) :=
  inv_acknowledge (inv_drainRecords h _) _ _

theorem inv_enter (h : Inv s) : Inv (s.enter e) := inv_drain (inv_checkLosses h) 0

theorem inv_leave (h : Inv s) : Inv (s.leave e) := inv_drain h 3

/-- A retirement is acknowledged when the lock of the lane is free. -/
theorem acknowledged (h : Inv s) : (s.acknowledge true true).retirement_waiting = false := by
  unfold acknowledge
  split
  · next hw =>
    obtain ⟨hret, hbind⟩ := h.waiting hw
    have hg : s.generation ≠ 0 := h.started (by simp [hret])
    obtain ⟨hown, hle⟩ := h.own hg
    change (!(s.disposal true true).2) = false
    rw [Bool.not_eq_false']
    unfold disposal
    rw [hbind]
    rcases Nat.lt_or_eq_of_le hle with hlt | heq
    · rw [← hown] at hlt
      split
      · exact Lane.abandon_past hlt
      · exact Lane.retire_past hlt
    · have hgen := heq.symm.trans hown.symm
      obtain ⟨hb, hj⟩ := h.joined hg heq.symm
      rw [hret] at hj
      rcases hj hw with ⟨hp, hr, hbirth, hm⟩ | ⟨hp, hr, hreq, hbirth, hm⟩
      · split
        · next hmat => exact Lane.abandonMaterialized hgen hb hp (hm hmat) hr hbirth
        · exact Lane.retire_unborn hgen hb hp hr hbirth
      · rw [hm, if_neg Bool.false_ne_true]
        exact Lane.retire_born hgen hb hp hr hreq hbirth
  · next hw => exact Bool.of_not_eq_true hw

/-- The invariant holds at the end of a call that entered, and no retirement waits when the lane was free. -/
def Settled (e : Env) (enters : Prop) (s : Owner) : Prop :=
  Inv s ∧ (enters → e.busy = false → (∀ n, e.lane n) → s.retirement_waiting = false)

theorem settled_leave {enters : Prop} (h : Inv s) : Settled e enters (s.leave e) := by
  refine ⟨inv_leave h, fun _ _ hl => ?_⟩
  rw [leave, drainRetirements, hl, hl]
  exact acknowledged (inv_drainRecords h _)

theorem settled_out {enters : Prop} (h : Inv s) (hn : ¬ enters) : Settled e enters s :=
  ⟨h, fun hp => absurd hp hn⟩

theorem settled_busy {enters : Prop} (h : Inv s) (hb : e.busy) : Settled e enters s :=
  ⟨h, fun _ hb' => absurd (hb.symm.trans hb') Bool.noConfusion⟩

/-! ## The fence -/

theorem inv_finishFence (h : Inv s) (hs : s.state ≠ .pending) : Inv (s.finishFence e).1 := by
  unfold finishFence
  split
  · exact h
  split
  · exact h
  · next hc hr =>
    simp only [Bool.or_eq_true, Bool.not_eq_true', not_or, Bool.not_eq_false, Bool.not_eq_true] at hc hr
    split
    · have hf : Inv { s with fence_failed := true } := { h with recorded := nofun }
      exact inv_invalidate hf
    · have hfin := h.recorded hc.1 hr.1 hr.2
      refine { h with unqueued := ?_, completed := fun _ _ => hfin, early := fun hp => absurd hp hs }
      intro hq
      exact absurd hc.1 (by simp [show s.copy_queued = false from hq])
    · exact h

/-- A fence that is finished has finished every copy. -/
theorem finished_of_finishFence (h : Inv s) (hok : (s.finishFence e).2) :
    (s.finishFence e).1.finished = (s.finishFence e).1.queued := by
  unfold finishFence at hok ⊢
  split
  · next hc =>
    simp only [Bool.or_eq_true, Bool.not_eq_true'] at hc
    cases hq : s.copy_queued with
    | false => exact h.unqueued hq
    | true => exact h.completed hq (hc.resolve_left (by simp [hq]))
  · next hc =>
    rw [if_neg hc] at hok
    split at hok
    · cases hok
    · next hr =>
      rw [if_neg hr]
      simp only [Bool.or_eq_true, Bool.not_eq_true', not_or, Bool.not_eq_false, Bool.not_eq_true] at hc hr
      split at hok
      · cases hok
      · exact h.recorded hc.1 hr.1 hr.2
      · cases hok

/-! ## The lease -/

theorem inv_leaseValid (h : Inv s) (held : Bool) : Inv (s.leaseValid held).1 := by
  unfold leaseValid Lane.valid
  cases held with
  | true => exact h
  | false => exact inv_markLoss h

theorem inv_leaseHealthy (h : Inv s) (held : Bool) : Inv (s.leaseHealthy held).1 := by
  unfold leaseHealthy Lane.healthy
  cases held with
  | true => exact h
  | false => exact inv_markLoss h

/-- A lease that is valid is looked at only. -/
theorem leaseValid_eq {held : Bool} (h : (s.leaseValid held).2) :
    (s.leaseValid held).1 = s ∧ s.lane.matched s.binding := by
  unfold leaseValid Lane.valid at h ⊢
  cases held with
  | true => exact ⟨rfl, h⟩
  | false => cases h

theorem leaseHealthy_eq {held : Bool} (h : (s.leaseHealthy held).2) :
    (s.leaseHealthy held).1 = s ∧ word s.lane.loss = s.loss_at_arm := by
  unfold leaseHealthy Lane.healthy at h ⊢
  cases held with
  | true =>
    have hb : (s.lane.matched s.binding && decide (word s.lane.loss = s.loss_at_arm)) = true := h
    simp only [Bool.and_eq_true, decide_eq_true_eq] at hb
    exact ⟨rfl, hb.2⟩
  | false => cases h

/-! ## Chunks -/

/-- A call keeps the invariant when its body does. -/
theorem settled_call {body : Owner → Owner × Bool} (h : Inv s) (hb : ∀ t, Inv t → Inv (body t).1) :
    Settled e (s.generation ≠ 0) (s.call e body).1 := by
  unfold call
  split
  · next hg => exact settled_out h (not_not.2 hg)
  split
  · next hbusy => exact settled_busy (inv_sourceLoss h) hbusy
  · exact settled_leave (hb _ (inv_enter h))

theorem settled_beginChunk (h : Inv s) (holder model processed count : ℕ) (position : ℤ) (stream : ℕ) :
    Settled e (s.generation ≠ 0) (s.beginChunk e holder model processed count position stream).1 := by
  apply settled_call h
  intro t ht
  split
  · exact ht
  · next hs =>
    simp only [Bool.or_eq_true, decide_eq_true_eq, not_or, not_not] at hs
    dsimp only
    split
    · exact inv_leaseValid ht _
    · next hv =>
      rw [Bool.not_eq_true', Bool.not_eq_false] at hv
      rw [(leaseValid_eq hv).1]
      split
      · exact inv_invalidate ht
      · next hg =>
        simp only [Bool.or_eq_true, decide_eq_true_eq, not_or, not_not] at hg
        exact { ht with opened := fun _ _ => ⟨hs.1.1.1, hg.1.1.1.1.2, hg.1.1.1.1.1.2, nofun⟩ }

/-- A copy into the open chunk. -/
theorem inv_copied (h : Inv s) (hp : s.state = .pending) (hv : s.feature_valid) (tap : ℕ) :
    Inv ({ s with taps := tap :: s.taps }.copy tap true) := by
  obtain ⟨hrec, hcomp⟩ := h.early hp hv
  refine { h with unqueued := nofun, completed := ?_, recorded := ?_, captured := ?_, opened := ?_ }
  · intro _ hc
    exact absurd (hcomp.symm.trans hc) Bool.false_ne_true
  · intro _ hr
    exact absurd (hrec.symm.trans hr) Bool.false_ne_true
  · intro _
    obtain ⟨hsum, hpos, htaps⟩ := h.captured hv
    exact ⟨hsum, hpos, fun i hi t ht => mem_cons_of_mem _ (htaps i hi t ht)⟩
  · intro _ ho
    obtain ⟨hst, hstart, hrows, htaps⟩ := h.opened hv ho
    refine ⟨hst, hstart, hrows, fun t ht => ?_⟩
    rcases mem_cons.1 ht with rfl | ht
    · exact mem_cons_self ..
    · exact mem_cons_of_mem _ (htaps t ht)

/-- A copy that failed. -/
theorem inv_uncopied (h : Inv s) (hp : s.state = .pending) (hv : s.feature_valid) (tap : ℕ) :
    Inv ({ s with taps := tap :: s.taps }.copy tap false).invalidate := by
  obtain ⟨hrec, hcomp⟩ := h.early hp hv
  apply inv_sourceLoss
  refine { inv_invalid h with unqueued := nofun, completed := ?_, recorded := ?_, early := nofun, opened := nofun }
  · intro _ hc
    exact absurd (hcomp.symm.trans hc) Bool.false_ne_true
  · intro _ hr
    exact absurd (hrec.symm.trans hr) Bool.false_ne_true

/-- A tap that is marked for an owner that is not valid. -/
theorem inv_marked (h : Inv s) (tap : ℕ) : Inv { s with taps := tap :: s.taps, feature_valid := false } :=
  { inv_invalid h with opened := nofun }

theorem settled_captureHc (h : Inv s) (model layer rows source stream : ℕ) :
    Settled e (s.generation ≠ 0) (s.captureHc e model layer rows source stream).1 := by
  apply settled_call h
  intro t ht
  split
  · exact ht
  · next tap _ =>
    split
    · exact ht
    · next hs =>
      simp only [Bool.or_eq_true, decide_eq_true_eq, not_or, not_not] at hs
      split
      · exact inv_invalidate ht
      dsimp only
      split
      · exact inv_invalidate (inv_leaseValid ht _)
      · next hv =>
        rw [Bool.not_eq_true', Bool.not_eq_false] at hv
        rw [(leaseValid_eq hv).1]
        split
        · exact inv_invalidate ht
        cases hh : ({ t with taps := tap :: t.taps }.leaseHealthy (e.lane 7)).2 with
        | false =>
          -- the lease is not healthy
          have hi : Inv ({ t with taps := tap :: t.taps }.leaseHealthy (e.lane 7)).1.invalidate := by
            apply inv_sourceLoss
            exact inv_leaseHealthy (inv_marked ht tap) (e.lane 7)
          simpa only [Bool.false_eq_true, if_false, invalidate, sourceLoss, Bool.not_false, if_true] using hi
        | true =>
          rw [if_pos rfl, (leaseHealthy_eq hh).1]
          cases hf : t.feature_valid with
          | false =>
            have hi := inv_marked ht tap
            rw [← hf] at hi
            simpa only [hf, Bool.not_false, if_true] using hi
          | true =>
            simp only [Bool.not_true, Bool.false_eq_true, if_false]
            have hc := inv_copied ht hs.1 hf tap
            have hu := inv_uncopied ht hs.1 hf tap
            rw [hf] at hc hu
            split
            · exact hc
            · exact hu

/-- The rows of one more chunk. -/
theorem captured_append {copies : List Copy} {generation rows : ℕ} {chunks : List ℕ} {n : ℕ}
    (h : Captured copies generation chunks n) (hr : rows ≠ 0)
    (htaps : ∀ tap < 5, (⟨generation, tap, n, rows⟩ : Copy) ∈ copies) :
    Captured copies generation (chunks ++ [rows]) (n + rows) := by
  refine ⟨by simp [h.sum], ?_, ?_⟩
  · intro r hr'
    rcases mem_append.1 hr' with hr' | hr'
    · exact h.pos r hr'
    · rw [mem_singleton.1 hr']
      exact hr
  · intro i hi tap ht
    rw [length_append, length_singleton] at hi
    rcases Nat.lt_or_eq_of_le (Nat.le_of_lt_succ hi) with hlt | rfl
    · rw [take_append_of_le_length (Nat.le_of_lt hlt), getElem_append_left hlt]
      exact h.taps i hlt tap ht
    · rw [take_left', getElem_concat_length rfl, h.sum]
      · exact htaps tap ht
      · rfl

theorem settled_endChunk (h : Inv s) (holder processed : ℕ) (position : ℤ) :
    Settled e (s.generation ≠ 0) (s.endChunk e holder processed position).1 := by
  apply settled_call h
  intro t ht
  split
  · exact inv_invalidate ht
  · next hs =>
    simp only [Bool.or_eq_true, decide_eq_true_eq, Bool.not_eq_true', not_or, not_not, Bool.not_eq_false] at hs
    dsimp only
    split
    · next hok =>
      simp only [Bool.and_eq_true, decide_eq_true_eq, all_eq_true, mem_range] at hok
      refine { ht with captured := ?_, opened := nofun, whole := ?_ }
      · intro hv
        obtain ⟨-, hstart, hrows, htaps⟩ := ht.opened hv hs.2
        have hcopies : ∀ tap < 5, (⟨t.generation, tap, t.captured, t.chunk_rows⟩ : Copy) ∈ t.copies := by
          intro tap htap
          rw [← hstart]
          exact htaps tap (hok.2 tap htap)
        have hc := captured_append (ht.captured hv) hrows hcopies
        rwa [← hstart, hok.1.1.1] at hc
      · intro _ hst
        rcases hst with hst | hst <;> exact absurd (hs.1.1.symm.trans hst) (by simp)
    · apply inv_sourceLoss
      exact { inv_invalid ht with captured := nofun, opened := nofun, whole := nofun }

/-! ## The record and the request -/

/-- The fence of an owner that is not valid any more. -/
theorem inv_fence_invalid (h : Inv s) : Inv { s.materializeFence e with feature_valid := false } := by
  unfold materializeFence
  split
  · next hq =>
    split
    · next hr =>
      rw [hr]
      exact { inv_invalid h with recorded := fun _ _ _ => rfl, early := nofun }
    · next hr =>
      have hf : Inv { s with feature_valid := false, fence_recorded := false, fence_failed := true } :=
        { inv_invalid h with recorded := nofun, early := nofun }
      rw [Bool.of_not_eq_true hr]
      exact inv_sourceLoss hf
  · next hq =>
    refine { inv_invalid h with completed := ?_, early := nofun }
    exact fun hq' => absurd hq' hq

/-- The fence leaves the owner pending, with at most a loss noted. -/
theorem materializeFence_spec (h : Inv s) : Inv { s with lane := (s.materializeFence e).lane } ∧
    (s.materializeFence e).generation = s.generation ∧ (s.materializeFence e).binding = s.binding := by
  unfold materializeFence
  split
  · dsimp only
    split
    · exact ⟨h, rfl, rfl⟩
    · refine ⟨?_, rfl, rfl⟩
      have hl := inv_sourceLoss h
      exact { hl with losses := h.losses }
  · exact ⟨h, rfl, rfl⟩

/-- A pending owner that is materialised. -/
theorem inv_fence_materialized (h : Inv s) (hp : s.state = .pending)
    (hw : s.feature_valid → s.captured = s.binding.total) (ho : s.chunk_open = false) {l : Lane}
    (hc : l.configured) (hle : s.generation ≤ l.generation)
    (hj : l.generation = s.generation →
      Joined l s.binding .materialized s.retirement_waiting s.retirement_materialized)
    (hl : s.lane_loss_at_publish ≤ l.loss) :
    Inv { s.materializeFence e with lane := l, state := .materialized } := by
  have hg : s.generation ≠ 0 := h.started (by simp [hp])
  have hnw : s.retirement_waiting → False := fun hw' => by
    have := (h.waiting hw').1
    rw [hp] at this
    cases this
  -- whatever the fence, the rest is as before
  have hrest : Inv { s with lane := l, state := .materialized, fence_complete := true, copy_queued := false,
                            finished := s.queued } :=
    { h with
      started := fun _ => hg
      configured := fun _ => hc
      own := fun _ => ⟨(h.own hg).1, hle⟩
      joined := fun _ => hj
      waiting := fun hw' => (hnw hw').elim
      transferred := nofun
      unqueued := fun _ => rfl
      completed := nofun
      recorded := nofun
      early := nofun
      live := fun _ => .inr (.inl rfl)
      lane_loss := hl
      opened := fun _ ho' => absurd (ho.symm.trans ho') Bool.false_ne_true
      whole := fun hv _ => hw hv }
  unfold materializeFence
  split
  · next hq =>
    split
    · next hr =>
      rw [hr]
      exact { hrest with
        unqueued := fun hq' => absurd (hq.symm.trans hq') (by simp)
        completed := fun _ hcomp => h.completed hq hcomp
        recorded := fun _ _ _ => rfl
        early := nofun }
    · next hr =>
      rw [Bool.of_not_eq_true hr]
      exact { hrest with
        unqueued := fun hq' => absurd (hq.symm.trans hq') (by simp)
        completed := fun _ hcomp => h.completed hq hcomp
        recorded := nofun
        early := nofun
        live := nofun
        seen := nofun
        losses := Nat.le_succ_of_le h.losses
        captured := nofun
        opened := nofun
        whole := nofun }
  · next hq =>
    exact { hrest with
      unqueued := fun hq' => h.unqueued hq'
      completed := fun hq' => absurd hq' hq
      recorded := fun hq' => absurd hq' hq
      early := nofun }

theorem materializePending_cases (l : Lane) (held : Bool) (g holder : ℕ) :
    (l.materializePending held g holder = (l.markLoss, false) ∨ l.materializePending held g holder = (l, false)) ∨
      l.materializePending held g holder = ({ l with materialized := true }, true) ∧ l.generation = g ∧
        l.phase = .pending := by
  unfold Lane.materializePending
  split
  · exact .inl (.inl rfl)
  split
  · exact .inl (.inr rfl)
  · next hg =>
    simp only [Bool.or_eq_true, decide_eq_true_eq, not_or, not_not] at hg
    exact .inr ⟨rfl, hg.1.1, hg.2⟩

theorem inv_materialize_body (h : Inv s) (hp : s.state = .pending)
    (hw : s.feature_valid → s.captured = s.binding.total) (ho : s.chunk_open = false) :
    let t := s.materializeFence e
    let m := t.lane.materializePending (e.lane 7) t.binding.lease_generation t.binding.holder
    Inv (if !m.2 then { t with lane := m.1 }.invalidate else { t with lane := m.1, state := .materialized }) := by
  intro t m
  obtain ⟨hlane, hgen, hbind⟩ := materializeFence_spec (e := e) h
  have hg : s.generation ≠ 0 := h.started (by simp [hp])
  have hinv := inv_fence_invalid (e := e) h
  rcases materializePending_cases t.lane (e.lane 7) t.binding.lease_generation t.binding.holder with
    (hm | hm) | ⟨hm, hlg, hph⟩
  · have he : m = (t.lane.markLoss, false) := hm
    rw [he, if_pos (by rfl)]
    exact inv_sourceLoss (inv_markLoss hinv)
  · have he : m = (t.lane, false) := hm
    rw [he, if_pos (by rfl)]
    exact inv_sourceLoss hinv
  · have he : m = ({ t.lane with materialized := true }, true) := hm
    rw [he, if_neg (by simp)]
    refine inv_fence_materialized h hp hw ho (hlane.configured hg) (hlane.own hg).2 ?_ hlane.lane_loss
    intro hl
    have hj := hlane.joined hg hl
    rw [show ({ s with lane := (s.materializeFence e).lane } : Owner).state = .pending from hp] at hj
    exact ⟨hj.1, hj.2.1, hj.2.2.1, hj.2.2.2, rfl⟩

theorem settled_materialize (h : Inv s) (holder wire : ℕ) (slot : ℤ) (processed : ℕ) :
    Settled e (s.generation ≠ 0) (s.materialize e holder wire slot processed).1 := by
  apply settled_call h
  intro t ht
  split
  · exact ht
  · next hs =>
    simp only [Bool.or_eq_true, decide_eq_true_eq, not_or, not_not] at hs
    dsimp only
    split
    · exact inv_leaseValid ht _
    · next hv =>
      rw [Bool.not_eq_true', Bool.not_eq_false] at hv
      rw [(leaseValid_eq hv).1]
      -- an open chunk or a missing row invalidates
      have hu : Inv { (if (t.chunk_open || decide (t.captured ≠ t.binding.total)) = true then t.invalidate else t)
          with chunk_open := false } := by
        split
        · exact { inv_invalidate ht with opened := nofun }
        · exact { ht with opened := nofun }
      have hb := inv_materialize_body (e := e) hu (by split <;> exact hs.1.1.1.1) (by
        split
        · exact nofun
        · next hc =>
          simp only [Bool.or_eq_true, decide_eq_true_eq, not_or, not_not] at hc
          exact fun _ => hc.2) rfl
      rw [apply_ite Prod.fst]
      exact hb

theorem transferPending_cases (l : Lane) (held : Bool) (g : ℕ) (p : PendingBinding) (request birth : ℕ) :
    (l.transferPending held g p request birth = (l.markLoss, false) ∨
      l.transferPending held g p request birth = (l, false)) ∨
      l.transferPending held g p request birth =
        ({ l with request := request, birth := birth, ready_enabled := false, phase := .request }, true) := by
  unfold Lane.transferPending
  split
  · exact .inl (.inl rfl)
  split
  · exact .inl (.inr rfl)
  · exact .inr rfl

theorem settled_transfer (h : Inv s) (request birth model wire : ℕ) (slot : ℤ) (mode : ℕ) (ids : Option (List ℤ)) :
    Settled e (s.generation ≠ 0) (s.transfer e request birth model wire slot mode ids).1 := by
  apply settled_call h
  intro t ht
  split
  · exact inv_invalidate ht
  · next hs =>
    simp only [Bool.or_eq_true, decide_eq_true_eq, Bool.not_eq_true', not_or, not_not, Bool.not_eq_false] at hs
    obtain ⟨⟨⟨⟨hst, hreq⟩, hbirth⟩, -⟩, hproof⟩ := hs
    have hids : ids = some t.ids := by
      simp only [proves, Bool.and_eq_true, decide_eq_true_eq] at hproof
      exact hproof.1.2
    have hg : t.generation ≠ 0 := ht.started (by simp [hst])
    rcases transferPending_cases t.lane (e.lane 6) t.binding.lease_generation t.binding.pending request birth with
      (hm | hm) | hm
    · rw [hm]
      exact inv_invalidate (inv_markLoss ht)
    · rw [hm]
      exact inv_invalidate ht
    · rw [hm, hids]
      refine { ht with started := fun _ => hg, joined := ?_, waiting := ?_, transferred := fun _ => rfl,
                       early := nofun, live := fun _ => .inr (.inr rfl), opened := ?_, whole := ?_ }
      · intro _ hl
        exact ⟨(ht.joined hg hl).1, rfl, hreq, rfl, rfl⟩
      · intro hw
        exact absurd (hst.symm.trans (ht.waiting hw).1) (by simp)
      · intro hv ho
        exact absurd (hst.symm.trans (ht.opened hv ho).at_pending) (by simp)
      · intro hv _
        exact ht.whole hv (.inl hst)

/-! ## Ends -/

theorem inv_retirePending (h : Inv s) (hs : s.state = .pending) (ok : Bool) : Inv (s.retireLocal false ok) := by
  have hm : decide (s.state = .materialized) = false := by simp [hs]
  rw [← hm]
  exact inv_retireLocal h (.inl hs) ok

theorem settled_holderDestructor (h : Inv s) (holder : ℕ) :
    Settled e (s.generation ≠ 0) (s.holderDestructor e holder) := by
  unfold holderDestructor
  split
  · next hg => exact settled_out h (not_not.2 hg)
  split
  · next hbusy =>
    refine settled_busy ?_ hbusy
    split
    · exact h
    split
    · exact { h with }
    split
    · exact { h with }
    · exact h
  · apply settled_leave
    have ht := inv_enter (e := e) h
    generalize s.enter e = t at ht ⊢
    split
    · have hu : Inv { t with holder_live := false } := { ht with }
      dsimp only
      split
      · next hp => exact inv_retirePending hu hp _
      · exact hu
    · exact ht

theorem settled_abandonMaterialized (h : Inv s) (wire : ℕ) (slot : ℤ) (mode : ℕ) (ids : Option (List ℤ)) :
    Settled e (s.generation ≠ 0) (s.abandonMaterialized e wire slot mode ids).1 := by
  unfold abandonMaterialized
  split
  · next hg => exact settled_out h (not_not.2 hg)
  split
  · next hbusy =>
    refine settled_busy ?_ hbusy
    split
    · exact h
    split
    · exact { h with }
    · exact h
  · have ht := inv_enter (e := e) h
    dsimp only
    generalize s.enter e = t at ht ⊢
    split
    · next hm =>
      simp only [Bool.and_eq_true, decide_eq_true_eq] at hm
      apply settled_leave
      have hd : decide (t.state = .materialized) = true := decide_eq_true hm.1
      rw [← hd]
      exact inv_retireLocal ht (.inr (.inl hm.1)) _
    · exact settled_leave ht

theorem settled_requestDestructor (h : Inv s) (request : ℕ) :
    Settled e (s.generation ≠ 0) (s.requestDestructor e request) := by
  unfold requestDestructor
  split
  · next hg => exact settled_out h (not_not.2 hg)
  split
  · next hbusy =>
    refine settled_busy ?_ hbusy
    split
    · exact h
    split
    · exact { h with }
    · exact h
  · apply settled_leave
    have ht := inv_enter (e := e) h
    generalize s.enter e = t at ht ⊢
    split
    · next hm =>
      simp only [Bool.and_eq_true, decide_eq_true_eq] at hm
      have hd : decide (t.state = .materialized) = false := by simp [hm.1]
      rw [← hd]
      exact inv_retireLocal ht (.inr (.inr hm.1)) _
    · exact ht

/-! ## Features -/

theorem settled_forceSerial (h : Inv s) (holder model : ℕ) (slot : ℤ) :
    Settled e (s.generation ≠ 0) (s.forceSerial e holder model slot).1 := by
  apply settled_call h
  intro t ht
  split
  · exact inv_leaseValid ht _
  · exact ht

theorem inv_ready (h : Inv s) : Inv (s.ready e).1 := by
  unfold ready
  split
  · exact h
  · next hs =>
    simp only [Bool.or_eq_true, decide_eq_true_eq, not_or, not_not] at hs
    dsimp only
    split
    · exact inv_leaseValid h _
    · next hv =>
      rw [Bool.not_eq_true', Bool.not_eq_false] at hv
      rw [(leaseValid_eq hv).1]
      split
      · exact inv_leaseHealthy h _
      · next hh =>
        rw [Bool.not_eq_true', Bool.not_eq_false] at hh
        rw [(leaseHealthy_eq hh).1]
        exact inv_finishFence h (by simp [hs.1.1])

theorem settled_acquireFeatures (h : Inv s) : Settled e (s.generation ≠ 0) (s.acquireFeatures e).1 := by
  unfold acquireFeatures
  split
  · next hg => exact settled_out h (not_not.2 hg)
  split
  · next hbusy => exact settled_busy (inv_sourceLoss h) hbusy
  · have ht : Inv (((s.enter e).ready e).1.drainRetirements e 8) := inv_drain (inv_ready (inv_enter h)) 8
    dsimp only
    generalize ((s.enter e).ready e).1.drainRetirements e 8 = t at ht ⊢
    split
    · have hb : Inv { t with borrowed := true } := { ht with }
      exact settled_leave hb
    · exact settled_leave ht

theorem settled_releaseFeatures (h : Inv s) (ticket : ℕ) :
    Settled e (s.generation ≠ 0) (s.releaseFeatures e ticket).1 := by
  apply settled_call h
  intro t ht
  split
  · exact { ht with }
  · exact ht

theorem vacant_spec (h : s.vacant) :
    (s.state = .idle ∨ s.state = .retired) ∧ s.retirement_waiting = false ∧ s.borrowed = false := by
  simpa only [vacant, Bool.and_eq_true, Bool.or_eq_true, decide_eq_true_eq, Bool.not_eq_true', and_assoc] using h

theorem settled_storageReclaimable (h : Inv s) : Settled e True (s.storageReclaimable e).1 := by
  unfold storageReclaimable
  split
  · next hbusy => exact settled_busy (inv_sourceLoss h) hbusy
  · have ht := inv_enter (e := e) h
    dsimp only
    generalize s.enter e = t at ht ⊢
    split
    · next hv =>
      have hne : t.state ≠ .pending := by rcases (vacant_spec hv).1 with hi | hi <;> simp [hi]
      apply settled_leave
      exact { inv_finishFence ht hne with }
    · exact settled_leave ht

theorem settled_pollBinding (h : Inv s) : Settled e True (s.pollBinding e).1 := by
  unfold pollBinding
  split
  · next hbusy => exact settled_busy (inv_sourceLoss h) hbusy
  · exact settled_leave (inv_enter h)

/-! ## Publication -/

theorem inv_settle (h : Inv s) (hv : s.vacant) : Inv (s.settle e).1 := by
  unfold settle
  split
  · exact inv_finishFence h (by rcases (vacant_spec hv).1 with hi | hi <;> simp [hi])
  · exact h

/-- Before a publication every copy is finished. -/
theorem finished_of_settle (h : Inv s) (hok : (s.settle e).2) :
    (s.settle e).1.finished = (s.settle e).1.queued := by
  unfold settle at hok ⊢
  split
  · next hq =>
    rw [if_pos hq] at hok
    exact finished_of_finishFence h hok
  · next hq => exact h.unqueued (Bool.of_not_eq_true hq)

theorem armPending_cases (l : Lane) (held : Bool) (p : PendingBinding) :
    (l.armPending held p = (l.markLoss, 0) ∨ l.armPending held p = (l, 0)) ∨
      l.configured ∧ (l.armPending held p).2 = l.generation + 1 ∧
        (l.armPending held p).1.generation = l.generation + 1 ∧ (l.armPending held p).1.configured ∧
        (l.armPending held p).1.bound = p ∧ (l.armPending held p).1.phase = .pending ∧
        (l.armPending held p).1.loss = l.loss := by
  unfold Lane.armPending
  split
  · exact .inl (.inl rfl)
  split
  · exact .inl (.inr rfl)
  · next h =>
    simp only [Bool.or_eq_true, decide_eq_true_eq, Bool.not_eq_true', not_or, not_not, Bool.not_eq_false] at h
    obtain ⟨⟨⟨⟨⟨⟨⟨⟨hc, hm⟩, hs⟩, -⟩, -⟩, -⟩, -⟩, -⟩, -⟩ := h
    refine .inr ⟨hc, rfl, rfl, hc, ?_, rfl, rfl⟩
    simp [Lane.bound, ← hm, ← hs]

theorem inv_published {ids : List ℤ} {b : Binding} (hg : s.generation ≠ 0) (hc : s.lane.configured)
    (hgen : s.lane.generation = s.generation) (hb : s.lane.bound = b.pending) (hp : s.lane.phase = .pending)
    (hr : b.request = 0) (hbirth : b.birth = 0) (htotal : ids.length = b.total)
    (hw : s.retirement_waiting = false) (hfin : s.finished = s.queued) (harm : s.loss_at_arm = word s.lane.loss) :
    Inv (s.published ids b) where
  started := fun _ => hg
  configured := fun _ => hc
  own := fun _ => ⟨rfl, Nat.le_of_eq hgen.symm⟩
  joined := fun _ _ => ⟨hb, hp, hr, hbirth⟩
  waiting := fun hw' => absurd (hw.symm.trans hw') Bool.false_ne_true
  ids := fun _ => htotal
  transferred := nofun
  unqueued := fun _ => hfin
  completed := nofun
  recorded := nofun
  early := fun _ _ => ⟨rfl, rfl⟩
  live := fun _ => .inl rfl
  seen := fun _ => rfl
  losses := Nat.le_refl _
  lane_loss := Nat.le_refl _
  arm := fun _ => harm
  captured := fun _ => ⟨rfl, nofun, nofun⟩
  opened := nofun
  whole := nofun

theorem settle_vacant (hv : s.vacant) : (s.settle e).1.retirement_waiting = false := by
  have hw := (vacant_spec hv).2.1
  unfold settle finishFence
  split_ifs
  · exact hw
  · exact hw
  · split
    · exact hw
    · exact hw
    · exact hw
  · exact hw

theorem inv_publishBody (h : Inv s) (a : Admission) : Inv (s.publishBody e a).1 := by
  unfold publishBody
  cases a.ids with
  | none =>
    dsimp only
    split
    · next hv => exact inv_settle h hv
    · exact h
  | some ids =>
    dsimp only
    split
    · exact h
    · next hv =>
      rw [Bool.not_eq_true', Bool.not_eq_false] at hv
      have ht := inv_settle (e := e) h hv
      have hw := settle_vacant (e := e) hv
      split
      · exact ht
      · next hok =>
        simp only [Bool.or_eq_true, Bool.not_eq_true', not_or, Bool.not_eq_false] at hok
        have hfin := finished_of_settle h hok.1
        generalize (s.settle e).1 = t at ht hw hfin ⊢
        rcases armPending_cases t.lane (e.lane 6) (t.bindingOf a ids.length).pending with
          (hm | hm) | ⟨-, hg, hgen, hc, hbound, hp, hloss⟩
        · rw [hm, if_pos rfl]
          exact { inv_markLoss ht with }
        · rw [hm, if_pos rfl]
          exact { ht with }
        · rw [hg, if_neg (Nat.succ_ne_zero _)]
          exact inv_published (Nat.succ_ne_zero _) hc hgen hbound hp rfl rfl rfl hw hfin rfl

theorem settled_publish (h : Inv s) (a : Admission) : Settled e (s.enabled) (s.publish e a).1 := by
  unfold publish
  split
  · next hd =>
    rw [Bool.not_eq_true'] at hd
    exact settled_out h (by simp [hd])
  split
  · next hbusy => exact settled_busy (inv_sourceLoss h) hbusy
  · exact settled_leave (inv_publishBody (inv_enter h) a)

end Owner

end StrixAlloy.Dflash

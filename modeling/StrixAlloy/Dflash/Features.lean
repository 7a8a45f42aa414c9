import StrixAlloy.Dflash.Prefill

/-!
# Features that are handed out

Over every run of an owner, its lease and the lane: what an acquisition of the features, a publication and the
acknowledgement of a retirement come to.
-/

namespace StrixAlloy.Dflash

open Runs

/-! ## The lane's own operations -/

/-- The lane as an owner sees it: nothing moved, or the generation passed. -/
def Lane.Passed (l l' : Lane) : Prop :=
  l.generation < l'.generation ∨
    l'.generation = l.generation ∧ l'.bound = l.bound ∧ l'.phase = l.phase ∧ l'.request = l.request ∧
      l'.birth = l.birth ∧ l'.materialized = l.materialized

theorem Lane.passed_refl (l : Lane) : l.Passed l := .inr ⟨rfl, rfl, rfl, rfl, rfl, rfl⟩

theorem full_reset_passed (l : Lane) (held : Bool) (r : Reset) :
    (l.fullResetComplete held r).1.configured = l.configured ∧ (l.fullResetComplete held r).1.loss = l.loss ∧
      l.Passed (l.fullResetComplete held r).1 := by
  unfold Lane.fullResetComplete
  split
  · exact ⟨rfl, rfl, l.passed_refl⟩
  split
  · exact ⟨rfl, rfl, l.passed_refl⟩
  split
  · exact ⟨rfl, rfl, l.passed_refl⟩
  · exact ⟨rfl, rfl, .inl (Nat.lt_succ_self _)⟩

theorem beginTransaction_passed (l : Lane) (won : Bool) :
    (l.beginTransaction won).1.configured = l.configured ∧ l.loss ≤ (l.beginTransaction won).1.loss ∧
      l.Passed (l.beginTransaction won).1 := by
  unfold Lane.beginTransaction
  split
  · exact ⟨rfl, Nat.le_succ _, l.passed_refl⟩
  split
  · exact ⟨rfl, Nat.le_succ _, l.passed_refl⟩
  · exact ⟨rfl, Nat.le_refl _, l.passed_refl⟩

/-- What no owner does to the lane leaves a configured lane as it is, or passes its generation. -/
theorem native_step {op : LaneOp} (hop : op.native) (l : Lane) :
    l.loss ≤ (l.step op).loss ∧
      (l.configured → (l.step op).configured ∧ l.Passed (l.step op)) := by
  cases op with
  | pinLane =>
    unfold Lane.step Lane.pinLane
    dsimp only
    split
    · exact ⟨Nat.le_refl _, fun hc => ⟨hc, l.passed_refl⟩⟩
    · next h =>
      refine ⟨Nat.le_refl _, fun hc => absurd ?_ h⟩
      simp [hc]
  | enableReady => exact ⟨Nat.le_refl _, fun hc => ⟨hc, l.passed_refl⟩⟩
  | fullResetComplete held r =>
    obtain ⟨hc, hl, hp⟩ := full_reset_passed l held r
    exact ⟨Nat.le_of_eq hl.symm, fun h => ⟨hc.trans h, hp⟩⟩
  | beginTransaction won =>
    obtain ⟨hc, hl, hp⟩ := beginTransaction_passed l won
    exact ⟨hl, fun h => ⟨hc.trans h, hp⟩⟩
  | markLoss => exact ⟨Nat.le_succ _, fun hc => ⟨hc, l.passed_refl⟩⟩
  | mandatoryDispatch held won site f m =>
    unfold Lane.step
    dsimp only
    rcases lane_dispatch held won site f m with h | h | ⟨r, -, h⟩
    · rw [h]
      exact ⟨Nat.le_refl _, fun hc => ⟨hc, l.passed_refl⟩⟩
    · rw [h]
      obtain ⟨hc, hl, hp⟩ := beginTransaction_passed l won
      exact ⟨hl, fun h => ⟨hc.trans h, hp⟩⟩
    · rw [h]
      obtain ⟨hc, hl, hp⟩ := full_reset_passed l held r
      exact ⟨Nat.le_of_eq hl.symm, fun h => ⟨hc.trans h, hp⟩⟩
  | armPending => cases hop
  | materializePending => cases hop
  | transferPending => cases hop
  | retirePending => cases hop
  | retireRequest => cases hop
  | retireMaterialized => cases hop

namespace Owner

variable {s : Owner} {e : Env}

/-- A lane of the same generation is joined as before. -/
theorem joined_passed {l l' : Lane} {b : Binding} {state : OwnerState} {waiting materialized : Bool}
    (h : Joined l b state waiting materialized) (hb : l'.bound = l.bound) (hp : l'.phase = l.phase)
    (hr : l'.request = l.request) (hbirth : l'.birth = l.birth) (hm : l'.materialized = l.materialized) :
    Joined l' b state waiting materialized := by
  unfold Joined at h ⊢
  rw [hb, hp, hr, hbirth, hm]
  exact h

theorem inv_lane (h : Inv s) {op : LaneOp} (hop : op.native) : Inv { s with lane := s.lane.step op } := by
  obtain ⟨hl, hc⟩ := native_step hop s.lane
  refine { h with configured := ?_, own := ?_, joined := ?_, lane_loss := Nat.le_trans h.lane_loss hl }
  · exact fun hg => (hc (h.configured hg)).1
  · intro hg
    refine ⟨(h.own hg).1, Nat.le_trans (h.own hg).2 ?_⟩
    rcases (hc (h.configured hg)).2 with hlt | ⟨heq, -⟩
    · exact Nat.le_of_lt hlt
    · exact Nat.le_of_eq heq.symm
  · intro hg hgen
    have hle := (h.own hg).2
    rcases (hc (h.configured hg)).2 with hlt | ⟨heq, hb, hp, hr, hbirth, hm⟩
    · -- the generation has passed
      have hgen' : (s.lane.step op).generation = s.generation := hgen
      omega
    · exact joined_passed (h.joined hg (heq.symm.trans hgen)) hb hp hr hbirth hm

/-! ## Runs -/

/-- The operation enters an owner that is not busy. -/
def enters (s : Owner) : OwnerOp → Prop
  | .publish _ => s.enabled
  | .sourceLoss => False
  | .disableNew => False
  | .lane _ => False
  | .storageReclaimable => True
  | .binding => True
  | _ => s.generation ≠ 0

theorem settled_step (h : Inv s) (op : OwnerOp) (e : Env) : Settled e (s.enters op) (s.step (op, e)) := by
  cases op with
  | publish a => exact settled_publish h a
  | beginChunk => exact settled_beginChunk h ..
  | captureHc => exact settled_captureHc h ..
  | endChunk => exact settled_endChunk h ..
  | materialize => exact settled_materialize h ..
  | transfer => exact settled_transfer h ..
  | holderDestructor holder => exact settled_holderDestructor h holder
  | abandonMaterialized => exact settled_abandonMaterialized h ..
  | requestDestructor request => exact settled_requestDestructor h request
  | forceSerial => exact settled_forceSerial h ..
  | acquireFeatures => exact settled_acquireFeatures h
  | releaseFeatures ticket => exact settled_releaseFeatures h ticket
  | sourceLoss => exact settled_out (inv_sourceLoss h) id
  | disableNew =>
    have hd : Inv { s with enabled := false } := { h with }
    exact settled_out hd id
  | storageReclaimable => exact settled_storageReclaimable h
  | binding => exact settled_pollBinding h
  | lane op =>
    have hl : Inv (if op.native = true then { s with lane := s.lane.step op } else s) := by
      split
      · next hop => exact inv_lane h hop
      · exact h
    exact settled_out hl id

/-- A configured owner before its first publication. -/
def start (session : List ℕ) (id_capacity : ℕ) (lane : Lane) : Owner :=
  { session := session, id_capacity := id_capacity, lane := lane }

theorem inv_start (session : List ℕ) (id_capacity : ℕ) (lane : Lane) : Inv (start session id_capacity lane) where
  started := fun h => absurd rfl h
  configured := fun h => absurd rfl h
  own := fun h => absurd rfl h
  joined := fun h => absurd rfl h
  waiting := nofun
  ids := fun _ => rfl
  transferred := nofun
  unqueued := fun _ => rfl
  completed := nofun
  recorded := nofun
  early := nofun
  live := nofun
  seen := nofun
  losses := Nat.le_refl _
  lane_loss := Nat.zero_le _
  arm := fun h => absurd rfl h
  captured := nofun
  opened := nofun
  whole := nofun

/-- The owner after the operations. -/
def after (session : List ℕ) (id_capacity : ℕ) (lane : Lane) (is : List (OwnerOp × Env)) : Owner :=
  run step (start session id_capacity lane) is

theorem inv_after (session : List ℕ) (id_capacity : ℕ) (lane : Lane) (is : List (OwnerOp × Env)) :
    Inv (after session id_capacity lane is) :=
  run_invariant (P := Inv) (fun _ i h => (settled_step h i.1 i.2).1) is (inv_start session id_capacity lane)

/-! ## Acquisition -/

theorem acknowledge_state (s : Owner) (held again : Bool) : (s.acknowledge held again).state = s.state := by
  unfold acknowledge
  split
  · rfl
  · rfl

/-- A drain that leaves a request has found no retirement. -/
theorem drain_request (h : Inv s) {k : ℕ} (hs : (s.drainRetirements e k).state = .request) :
    ∃ live, s.drainRetirements e k = s.unrecorded live := by
  unfold drainRetirements at hs ⊢
  rw [acknowledge_state] at hs
  have hinv := inv_drainRecords h fun i => e.recorded (k + i)
  obtain ⟨live, he | ⟨-, i, he⟩⟩ := drainRecords_eq s fun i => e.recorded (k + i)
  · have hw : (s.unrecorded live).retirement_waiting ≠ true := by
      intro hw
      rw [he] at hs hinv
      exact absurd (hs.symm.trans (hinv.waiting hw).1) OwnerState.noConfusion
    refine ⟨live, ?_⟩
    rw [he, acknowledge, if_neg hw]
  · rw [he, retireLocal_state] at hs
    cases hs

/-- A drain without records and without a retirement changes nothing. -/
theorem drain_nothing (hh : s.holder_retirement = 0) (hp : s.pending_holder_retirement = 0)
    (hr : s.request_retirement = 0) (hm : s.materialized_retirement = 0) (hw : s.retirement_waiting = false)
    (k : ℕ) : s.drainRetirements e k = s := by
  have hz : s.marked 0 = false := by
    cases hg : s.generation with
    | zero => simp [marked, hg]
    | succ => simp [marked, hg]
  have hu : s.unrecorded s.holder_live = s := by
    cases s
    simp only at hh hp hr hm
    subst hh hp hr hm
    rfl
  unfold drainRetirements drainRecords
  rw [hh, hp, hr, hm, hz, Bool.not_false, Bool.and_true, hu]
  simp [drainHolder, drainRequests, acknowledge, hw]

/-- What the first checks of an acquisition find. -/
theorem ready_spec (hok : (s.ready e).2) :
    s.state = .request ∧ s.borrowed = false ∧ s.feature_valid ∧ word s.lane.loss = s.loss_at_arm ∧
      (s.finishFence e).2 ∧ (s.ready e).1 = (s.finishFence e).1 := by
  unfold ready at hok ⊢
  split at hok
  · cases hok
  · next hs =>
    rw [if_neg hs]
    simp only [Bool.or_eq_true, decide_eq_true_eq, Bool.not_eq_true', not_or, not_not, Bool.not_eq_false,
      Bool.not_eq_true] at hs
    dsimp only at hok ⊢
    split at hok
    · next hv =>
      rw [hok] at hv
      cases hv
    · next hv =>
      rw [if_neg hv]
      rw [Bool.not_eq_true', Bool.not_eq_false] at hv
      rw [(leaseValid_eq hv).1] at hok ⊢
      split at hok
      · next hh =>
        rw [hok] at hh
        cases hh
      · next hh =>
        rw [if_neg hh]
        rw [Bool.not_eq_true', Bool.not_eq_false] at hh
        rw [(leaseHealthy_eq hh).1] at hok ⊢
        exact ⟨hs.1.1, hs.1.2, hs.2, (leaseHealthy_eq hh).2, hok, rfl⟩

/-- A fence that is finished leaves the rest of the owner. -/
theorem finishFence_eq (hok : (s.finishFence e).2) :
    (s.finishFence e).1 = s ∨ (s.finishFence e).1 = { s with fence_complete := true, finished := s.fenced } := by
  unfold finishFence at hok ⊢
  split
  · exact .inl rfl
  · next hc =>
    rw [if_neg hc] at hok
    split
    · exact .inl rfl
    · next hr =>
      rw [if_neg hr] at hok
      split
      · next hp =>
        rw [hp] at hok
        cases hok
      · exact .inr rfl
      · exact .inl rfl

/-- What is handed out. -/
structure Owned (s : Owner) (view : FeatureView) : Prop where
  rows : ∃ chunks, Captured s.copies view.binding.lease_generation chunks view.rows
  fenced : s.finished = s.queued
  transferred : s.transferred = view.ids ∧ view.ids.length = view.rows
  losses : s.losses < s.losses_at_publish + 2 ^ 64 → s.losses = s.losses_at_publish
  lane_loss : s.lane.loss < s.lane_loss_at_publish + 2 ^ 64 → s.lane.loss = s.lane_loss_at_publish

theorem eq_of_word {a b : ℕ} (h : word a = word b) (hle : b ≤ a) (hlt : a < b + 2 ^ 64) : a = b := by
  unfold word at h
  omega

theorem acquire_owned (h : Inv s) {view : FeatureView} (hv : (s.acquireFeatures e).2 = some view) :
    Owned (s.acquireFeatures e).1 view := by
  unfold acquireFeatures at hv ⊢
  split at hv
  · cases hv
  · next hg =>
    rw [if_neg hg]
    split at hv
    · cases hv
    · next hb =>
      rw [if_neg hb]
      have hu := inv_enter (e := e) h
      generalize s.enter e = u at hv hu ⊢
      dsimp only at hv ⊢
      split at hv
      · next hok =>
        rw [if_pos hok]
        simp only [Bool.and_eq_true, decide_eq_true_eq] at hok
        obtain ⟨⟨⟨hready, hstate⟩, hvalid⟩, hseen⟩ := hok
        obtain ⟨hs, -, hf, hloss, hfence, he⟩ := ready_spec hready
        have hi := inv_ready (e := e) hu
        have hfin := finished_of_finishFence hu hfence
        obtain ⟨live, hd⟩ := drain_request hi hstate
        rw [hd, he] at hv hseen ⊢
        rw [he] at hi
        -- the fence and the drains leave all but the fence's flags and the holder's life
        have hlane : (u.finishFence e).1.lane = u.lane := by
          rcases finishFence_eq hfence with h' | h' <;> rw [h']
        have hstate' : (u.finishFence e).1.state = .request := by
          rcases finishFence_eq hfence with h' | h' <;> rw [h'] <;> exact hs
        have hvalid' : (u.finishFence e).1.feature_valid := by
          rcases finishFence_eq hfence with h' | h' <;> rw [h'] <;> exact hf
        have harm : (u.finishFence e).1.loss_at_arm = u.loss_at_arm := by
          rcases finishFence_eq hfence with h' | h' <;> rw [h']
        generalize (u.finishFence e).1 = t at hv hseen hi hfin hlane hstate' hvalid' harm ⊢
        have hgen : t.generation ≠ 0 := hi.started (by simp [hstate'])
        have hw : t.retirement_waiting = false := by
          apply Bool.of_not_eq_true
          intro hw
          exact absurd (hstate'.symm.trans (hi.waiting hw).1) OwnerState.noConfusion
        have hleave : ({ t.unrecorded live with borrowed := true } : Owner).leave e =
            { t.unrecorded live with borrowed := true } :=
          drain_nothing (s := { t.unrecorded live with borrowed := true }) rfl rfl rfl rfl hw 3
        rw [hleave]
        cases hv
        constructor
        · refine ⟨t.chunks, ?_⟩
          have hc := hi.captured hvalid'
          rw [hi.whole hvalid' (.inr hstate'), ← (hi.own hgen).1] at hc
          exact hc
        · exact hfin
        · exact ⟨hi.transferred hstate', hi.ids hgen⟩
        · intro hlt
          exact eq_of_word (hseen.symm.trans (hi.seen hvalid')) hi.losses hlt
        · intro hlt
          refine eq_of_word ?_ hi.lane_loss hlt
          calc word t.lane.loss = u.loss_at_arm := by rw [hlane, hloss]
            _ = word t.lane_loss_at_publish := by rw [← harm, hi.arm hgen]
      · cases hv

/-! ## Publication -/

/-- What a publication has found. -/
structure Reclaimed (s : Owner) (e : Env) (s' : Owner) : Prop where
  borrowed : (s.enter e).borrowed = false
  acknowledged : (s.enter e).retirement_waiting = false
  finished : s'.queued = (s.enter e).queued ∧ s'.finished = (s.enter e).queued

theorem finishFence_queued (s : Owner) (e : Env) : (s.finishFence e).1.queued = s.queued := by
  unfold finishFence
  split_ifs
  · rfl
  · rfl
  · split <;> rfl

theorem drain_keeps (s : Owner) (e : Env) (k : ℕ) : (s.drainRetirements e k).borrowed = s.borrowed ∧
    (s.drainRetirements e k).queued = s.queued ∧ (s.drainRetirements e k).finished = s.finished := by
  have ha : ∀ (t : Owner) held again, (t.acknowledge held again).borrowed = t.borrowed ∧
      (t.acknowledge held again).queued = t.queued ∧ (t.acknowledge held again).finished = t.finished := by
    intro t held again
    unfold acknowledge
    split <;> exact ⟨rfl, rfl, rfl⟩
  unfold drainRetirements
  obtain ⟨h1, h2, h3⟩ := ha (s.drainRecords fun i => e.recorded (k + i)) (e.lane k) (e.lane (k + 1))
  rw [h1, h2, h3]
  obtain ⟨live, he | ⟨-, i, he⟩⟩ := drainRecords_eq s fun i => e.recorded (k + i)
  · rw [he]
    exact ⟨rfl, rfl, rfl⟩
  · rw [he, retireLocal]
    split
    · exact ⟨rfl, rfl, rfl⟩
    · dsimp only
      split <;> exact ⟨rfl, rfl, rfl⟩

theorem publish_reclaimed (h : Inv s) {a : Admission} (hok : (s.publish e a).2) :
    s.borrowed = false ∧ Reclaimed s e (s.publish e a).1 := by
  unfold publish at hok ⊢
  split at hok
  · cases hok
  · next hen =>
    rw [if_neg hen]
    split at hok
    · cases hok
    · next hb =>
      rw [if_neg hb]
      have hu := inv_enter (e := e) h
      have hbor : (s.enter e).borrowed = s.borrowed := by
        refine (drain_keeps s.checkLosses e 0).1.trans ?_
        unfold checkLosses
        split <;> rfl
      generalize hue : s.enter e = u at hok hu hbor ⊢
      dsimp only at hok ⊢
      obtain ⟨-, hq, hf⟩ := drain_keeps (u.publishBody e a).1 e 3
      unfold publishBody at hok hq hf ⊢
      cases hids : a.ids with
      | none =>
        rw [hids] at hok
        cases hok
      | some =>
        rw [hids] at hok hq hf
        dsimp only at hok hq hf ⊢
        split at hok
        · cases hok
        · next hv =>
          rw [if_neg hv] at hq hf ⊢
          rw [Bool.not_eq_true', Bool.not_eq_false] at hv
          obtain ⟨-, hw, hborrowed⟩ := vacant_spec hv
          split at hok
          · cases hok
          · next hset =>
            rw [if_neg hset] at hq hf ⊢
            split at hok
            · cases hok
            · next harm =>
              rw [if_neg harm] at hq hf ⊢
              simp only [Bool.or_eq_true, Bool.not_eq_true', not_or, Bool.not_eq_false] at hset
              have hfin := finished_of_settle hu hset.1
              have hqueue : (u.settle e).1.queued = u.queued := by
                unfold settle
                split
                · exact finishFence_queued u e
                · rfl
              refine ⟨hbor.symm.trans hborrowed, hue ▸ hborrowed, hue ▸ hw, ?_, ?_⟩
              · rw [hue]
                exact hq.trans hqueue
              · rw [hue]
                exact hf.trans (hfin.trans hqueue)

/-! ## The claim -/

/-- Features are handed out only when they are complete and owned, as long as fewer losses than a word counts
happened since the publication. A publication finds nothing borrowed, no retirement waited for, and every copy
finished. A drain that finds the lane free leaves no retirement waiting, and so does what enters then. -/
theorem features_owned (session : List ℕ) (id_capacity : ℕ) (lane : Lane) (is : List (OwnerOp × Env)) (e : Env) :
    (∀ view, ((after session id_capacity lane is).acquireFeatures e).2 = some view →
      Owned ((after session id_capacity lane is).acquireFeatures e).1 view) ∧
    (∀ a, ((after session id_capacity lane is).publish e a).2 →
      (after session id_capacity lane is).borrowed = false ∧
        Reclaimed (after session id_capacity lane is) e ((after session id_capacity lane is).publish e a).1) ∧
    (∀ k, e.lane k → e.lane (k + 1) →
      ((after session id_capacity lane is).drainRetirements e k).retirement_waiting = false) ∧
    ∀ op, (after session id_capacity lane is).enters op → e.busy = false → (∀ n, e.lane n) →
      ((after session id_capacity lane is).step (op, e)).retirement_waiting = false := by
  have h := inv_after session id_capacity lane is
  refine ⟨fun view hv => acquire_owned h hv, fun a ha => publish_reclaimed h ha, ?_, ?_⟩
  · intro k hk hk'
    unfold drainRetirements
    rw [hk, hk']
    exact acknowledged (inv_drainRecords h _)
  · intro op henters hbusy hlane
    exact (settled_step h op e).2 henters hbusy hlane

/-! ## A run in which the losses wrap -/

theorem run_sourceLoss {s : Owner} (hg : s.generation ≠ 0) (hl : s.lane.generation = s.generation)
    (hr : s.lane.ready_enabled = false) (e : Env) (n : ℕ) :
    run step s (List.replicate n (.sourceLoss, e)) =
      { s with losses := s.losses + n, lane := { s.lane with loss := s.lane.loss + n } } := by
  refine run_replicate
    (f := fun n => { s with losses := s.losses + n, lane := { s.lane with loss := s.lane.loss + n } }) (fun n => ?_) n
  unfold step sourceLoss
  rw [if_pos hg, Lane.lossOf, if_pos hl, Lane.markLoss, ← hr]
  rfl

/-- Nothing is in the way. -/
def sampleEnv : Env := ⟨false, fun _ => true, true, fun _ => true, fun _ => .complete⟩

/-- A publication of one id, its capture and its transfer. -/
def sampleRun : List (OwnerOp × Env) :=
  ([.publish ⟨5, 1, 3, 4, 0, 0, 1, 1, some [7], true, true, true⟩, .beginChunk 5 1 0 1 0 0, .captureHc 1 4 1 9 0,
    .captureHc 1 16 1 9 0, .captureHc 1 24 1 9 0, .captureHc 1 36 1 9 0, .captureHc 1 44 1 9 0,
    .endChunk 5 1 1, .lane (.fullResetComplete true ⟨1, 1, 0, true, true⟩), .materialize 5 3 0 1,
    .transfer 6 8 1 3 0 1 (some [7])] : List OwnerOp).map fun op => (op, sampleEnv)

def sampleLane : Lane := { model := 1, configured := true }

/-- The owner after the sample. -/
def sampleOwner : Owner := after [1] 4 sampleLane sampleRun

/-- The sample after losses. -/
def lossyOwner (n : ℕ) : Owner :=
  { sampleOwner with losses := sampleOwner.losses + n,
                     lane := { sampleOwner.lane with loss := sampleOwner.lane.loss + n } }

theorem after_losses (n : ℕ) :
    after [1] 4 sampleLane (sampleRun ++ List.replicate n (.sourceLoss, sampleEnv)) = lossyOwner n := by
  have hg : sampleOwner.generation ≠ 0 := by decide +kernel
  have hl : sampleOwner.lane.generation = sampleOwner.generation := by decide +kernel
  have hr : sampleOwner.lane.ready_enabled = false := by decide +kernel
  unfold after
  rw [run_append]
  exact run_sourceLoss hg hl hr sampleEnv n

/-- After as many losses as a word counts, the features are handed out. -/
theorem losses_wrap : ∃ is e view, ((after [1] 4 sampleLane is).acquireFeatures e).2 = some view ∧
    ((after [1] 4 sampleLane is).acquireFeatures e).1.losses_at_publish <
      ((after [1] 4 sampleLane is).acquireFeatures e).1.losses := by
  have hview : ((lossyOwner (2 ^ 64)).acquireFeatures sampleEnv).2.isSome = true := by decide +kernel
  have hlost : ((lossyOwner (2 ^ 64)).acquireFeatures sampleEnv).1.losses_at_publish <
      ((lossyOwner (2 ^ 64)).acquireFeatures sampleEnv).1.losses := by decide +kernel
  obtain ⟨view, hv⟩ := Option.isSome_iff_exists.1 hview
  refine ⟨sampleRun ++ List.replicate (2 ^ 64) (.sourceLoss, sampleEnv), sampleEnv, view, ?_⟩
  rw [after_losses]
  exact ⟨hv, hlost⟩

end Owner

end StrixAlloy.Dflash

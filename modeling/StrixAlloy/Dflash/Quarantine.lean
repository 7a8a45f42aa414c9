import Mathlib.Algebra.GroupWithZero.Nat
import StrixAlloy.Dflash.Lane
import StrixAlloy.Lib.Runs

/-!
# The quarantine of a slot

What a step can do to the gate of a lane (`Effect`), and what follows for its runs: a generation is armed once,
and from its arming on the gate stays closed until a fresh reset finds the lane in a request or in quarantine.
-/

namespace StrixAlloy.Dflash

open Runs

/-! ## Effects -/

/-- What the step `op` from `l` to `l'` does to the gate. -/
inductive Effect (l : Lane) (op : LaneOp) (l' : Lane) : Prop
  | keep (phase : l'.phase = l.phase) (generation : l'.generation = l.generation) (request : l'.request = l.request)
      (materialized : l'.materialized = l.materialized)
      (fresh : l'.fresh_reset_generation = l.fresh_reset_generation)
  | arm (armed : op.armed l = some (l.generation + 1)) (before : l.phase ≠ .pending ∧ l.phase ≠ .request)
      (phase : l'.phase = .pending) (generation : l'.generation = l.generation + 1)
      (materialized : l'.materialized = false) (fresh : l'.fresh_reset_generation = 0)
  | materialize (materializes : op.materializes l) (carried : op.carried = some l.generation)
      (before : l.phase = .pending) (phase : l'.phase = .pending) (generation : l'.generation = l.generation)
      (request : l'.request = l.request) (fresh : l'.fresh_reset_generation = l.fresh_reset_generation)
  | fresh (reset : op.freshReset l) (before : l.phase = .pending) (phase : l'.phase = .pending)
      (generation : l'.generation = l.generation) (request : l'.request = l.request)
      (materialized : l'.materialized = l.materialized)
  | transfer (carried : op.carried = some l.generation) (before : l.phase = .pending)
      (materialized : l.materialized ∧ l'.materialized) (fresh : l.fresh_reset_generation = l.generation ∧
        l'.fresh_reset_generation = l.generation) (phase : l'.phase = .request)
      (generation : l'.generation = l.generation)
  | retire (carried : op.carried = some l.generation) (before : l.phase ≠ .idle) (phase : l'.phase = .quarantined)
      (generation : l'.generation = l.generation) (materialized : l'.materialized = l.materialized)
      (fresh : l'.fresh_reset_generation = l.fresh_reset_generation)
  | release (reset : op.freshReset l) (before : l.phase = .request ∨ l.phase = .quarantined)
      (phase : l'.phase = .idle) (generation : l'.generation = l.generation + 1)

variable {l : Lane}

theorem effect_beginTransaction (op : LaneOp) (won : Bool) : Effect l op (l.beginTransaction won).1 := by
  unfold Lane.beginTransaction
  split
  · exact .keep rfl rfl rfl rfl rfl
  split
  · exact .keep rfl rfl rfl rfl rfl
  · exact .keep rfl rfl rfl rfl rfl

theorem Lane.freshened_generation {r : Reset} (h : l.freshened r) : r.generation = l.generation := by
  unfold Lane.freshened at h
  simp only [Bool.and_eq_true, decide_eq_true_eq] at h
  exact h.2.symm

variable {op : LaneOp}

/-- A reset that is executed. -/
theorem effect_reset {held : Bool} {r : Reset} (hop : held → op.reset l = some r) :
    Effect l op (l.fullResetComplete held r).1 := by
  unfold Lane.fullResetComplete
  split
  · exact .keep rfl rfl rfl rfl rfl
  · next hr =>
    simp only [Bool.or_eq_true, Bool.not_eq_true', not_or, Bool.not_eq_false] at hr
    have hfresh : op.freshReset l := ⟨r, hop hr.1, hr.2⟩
    split
    · next hp => exact .fresh hfresh hp hp rfl rfl rfl
    split
    · exact .keep rfl rfl rfl rfl rfl
    · next hp hi =>
      simp only [Bool.or_eq_true, decide_eq_true_eq, not_or] at hi
      refine .release hfresh ?_ rfl rfl
      cases hl : l.phase with
      | idle => exact absurd hl hi.1
      | pending => exact absurd hl hp
      | request => exact .inl rfl
      | quarantined => exact .inr rfl

theorem effect_arm (held : Bool) (p : PendingBinding) :
    Effect l (.armPending held p) (l.armPending held p).1 := by
  have harmed : (LaneOp.armPending held p).armed l =
      if (l.armPending held p).2 = 0 then none else some (l.armPending held p).2 := rfl
  unfold Lane.armPending at harmed ⊢
  split
  · exact .keep rfl rfl rfl rfl rfl
  · next hheld =>
    rw [if_neg hheld] at harmed
    split
    · exact .keep rfl rfl rfl rfl rfl
    · next hp =>
      rw [if_neg hp] at harmed
      simp only [Bool.or_eq_true, decide_eq_true_eq, not_or] at hp
      exact .arm (harmed.trans (if_neg (Nat.succ_ne_zero _))) ⟨hp.1.1.2, hp.1.2⟩ rfl rfl rfl rfl

theorem effect_materialize (held : Bool) (generation holder : ℕ) :
    Effect l (.materializePending held generation holder) (l.materializePending held generation holder).1 := by
  have hop : (LaneOp.materializePending held generation holder).materializes l =
      (l.materializePending held generation holder).2 := rfl
  unfold Lane.materializePending at hop ⊢
  split
  · exact .keep rfl rfl rfl rfl rfl
  · next hheld =>
    rw [if_neg hheld] at hop
    split
    · exact .keep rfl rfl rfl rfl rfl
    · next h =>
      rw [if_neg h] at hop
      simp only [Bool.or_eq_true, decide_eq_true_eq, not_or, not_not] at h
      exact .materialize hop (congrArg some h.1.1.symm) h.2 h.2 rfl rfl rfl

theorem effect_transfer (held : Bool) (generation : ℕ) (p : PendingBinding) (request birth : ℕ) :
    Effect l (.transferPending held generation p request birth)
      (l.transferPending held generation p request birth).1 := by
  unfold Lane.transferPending
  split
  · exact .keep rfl rfl rfl rfl rfl
  split
  · exact .keep rfl rfl rfl rfl rfl
  · next h =>
    simp only [Bool.or_eq_true, decide_eq_true_eq, not_or, not_not, Bool.not_eq_true', Bool.not_eq_false] at h
    obtain ⟨⟨⟨⟨⟨⟨-, -⟩, hg⟩, hp⟩, hm⟩, hf⟩, -⟩ := h
    have hfresh := hf.trans hg.symm
    exact .transfer (congrArg some hg.symm) hp ⟨hm, hm⟩ ⟨hfresh, hfresh⟩ rfl rfl

theorem effect_retirePending (held : Bool) (generation holder : ℕ) :
    Effect l (.retirePending held generation holder) (l.retirePending held generation holder).1 := by
  unfold Lane.retirePending
  split
  · exact .keep rfl rfl rfl rfl rfl
  split
  · exact .keep rfl rfl rfl rfl rfl
  · next h =>
    simp only [Bool.or_eq_true, decide_eq_true_eq, not_or, not_not] at h
    split
    · exact .keep rfl rfl rfl rfl rfl
    split
    · exact .keep rfl rfl rfl rfl rfl
    · next hp =>
      have hidle : l.phase ≠ .idle := by simp [not_not.1 hp]
      exact .retire (congrArg some h.1.symm) hidle rfl rfl rfl rfl

theorem effect_retireRequest (held : Bool) (generation request birth : ℕ) :
    Effect l (.retireRequest held generation request birth)
      (l.retireRequest held generation request birth).1 := by
  unfold Lane.retireRequest
  split
  · exact .keep rfl rfl rfl rfl rfl
  split
  · exact .keep rfl rfl rfl rfl rfl
  · next h =>
    simp only [Bool.or_eq_true, decide_eq_true_eq, not_or, not_not] at h
    have hidle : l.phase ≠ .idle := by simp [h.1.1.2]
    exact .retire (congrArg some h.1.1.1.symm) hidle rfl rfl rfl rfl

theorem effect_retireMaterialized (held : Bool) (generation : ℕ) (p : PendingBinding) :
    Effect l (.retireMaterialized held generation p) (l.retireMaterialized held generation p).1 := by
  unfold Lane.retireMaterialized
  split
  · exact .keep rfl rfl rfl rfl rfl
  split
  · exact .keep rfl rfl rfl rfl rfl
  · next h =>
    simp only [Bool.or_eq_true, decide_eq_true_eq, not_or, not_not] at h
    have hidle : l.phase ≠ .idle := by simp [h.1.1.2]
    exact .retire (congrArg some h.1.1.1.symm) hidle rfl rfl rfl rfl

/-- What a dispatch does to the lane. -/
theorem lane_dispatch (held won : Bool) (site : Site) (f : Frame) (m : Memory) :
    (l.mandatoryDispatch held won site f m).lane = l ∨
      (l.mandatoryDispatch held won site f m).lane = (l.beginTransaction won).1 ∨
      ∃ r, l.dispatchedReset site f m = some r ∧
        (l.mandatoryDispatch held won site f m).lane = (l.fullResetComplete held r).1 := by
  cases site with
  | initialFlag => exact .inl rfl
  | chunkFlag => exact .inl rfl
  | prepare =>
    left
    rw [Lane.mandatoryDispatch]
    split
    · rfl
    · rfl
  | entry =>
    rw [Lane.mandatoryDispatch]
    split
    · exact .inl rfl
    · exact .inr (.inl rfl)
  | postReset =>
    rw [Lane.mandatoryDispatch]
    cases hr : l.dispatchedReset .postReset f m with
    | none => exact .inl rfl
    | some r => exact .inr (.inr ⟨r, rfl, rfl⟩)

theorem effect_dispatch (held won : Bool) (site : Site) (f : Frame) (m : Memory) :
    Effect l (.mandatoryDispatch held won site f m) (l.mandatoryDispatch held won site f m).lane := by
  rcases lane_dispatch held won site f m with h | h | ⟨r, hr, h⟩
  · rw [h]
    exact .keep rfl rfl rfl rfl rfl
  · rw [h]
    exact effect_beginTransaction _ won
  · rw [h]
    apply effect_reset
    rintro rfl
    exact hr

/-- Every step has one of the effects. -/
theorem step_effect (l : Lane) (op : LaneOp) : Effect l op (l.step op) := by
  cases op with
  | pinLane =>
    unfold Lane.step Lane.pinLane
    dsimp only
    split
    · exact .keep rfl rfl rfl rfl rfl
    · exact .keep rfl rfl rfl rfl rfl
  | armPending held p => exact effect_arm held p
  | materializePending held generation holder => exact effect_materialize held generation holder
  | transferPending held generation p request birth => exact effect_transfer held generation p request birth
  | retirePending held generation holder => exact effect_retirePending held generation holder
  | retireRequest held generation request birth => exact effect_retireRequest held generation request birth
  | retireMaterialized held generation p => exact effect_retireMaterialized held generation p
  | enableReady => exact .keep rfl rfl rfl rfl rfl
  | fullResetComplete =>
    apply effect_reset
    rintro rfl
    rfl
  | beginTransaction won => exact effect_beginTransaction _ won
  | markLoss => exact .keep rfl rfl rfl rfl rfl
  | mandatoryDispatch held won site f m => exact effect_dispatch held won site f m

/-- A step leaves the configuration, or pins a model. -/
theorem step_configured (l : Lane) (op : LaneOp) :
    (l.step op).configured = l.configured ∧ (l.step op).model = l.model ∧ (l.step op).slot = l.slot ∨
      l.configured = false ∧ (l.step op).configured ∧ (l.step op).model ≠ 0 := by
  cases op with
  | pinLane =>
    unfold Lane.step Lane.pinLane
    dsimp only
    split
    · exact Or.inl ⟨rfl, rfl, rfl⟩
    · next h =>
      simp only [Bool.or_eq_true, Bool.not_eq_true', decide_eq_true_eq, not_or, Bool.not_eq_true] at h
      exact Or.inr ⟨h.2, rfl, h.1.1.2⟩
  | mandatoryDispatch held won site f m =>
    left
    rcases lane_dispatch held won site f m with h | h | ⟨r, -, h⟩
    · rw [Lane.step, h]
      exact ⟨rfl, rfl, rfl⟩
    · rw [Lane.step, h, Lane.beginTransaction]
      split_ifs <;> exact ⟨rfl, rfl, rfl⟩
    · rw [Lane.step, h, Lane.fullResetComplete]
      split_ifs <;> exact ⟨rfl, rfl, rfl⟩
  | _ =>
    left
    simp only [Lane.step, Lane.armPending, Lane.materializePending, Lane.transferPending, Lane.retirePending,
      Lane.retireRequest, Lane.retireMaterialized, Lane.fullResetComplete, Lane.beginTransaction,
      Lane.enableReady, Lane.markLoss, Lane.quarantine]
    try split_ifs
    all_goals simp

theorem configured_of_armed {g : ℕ} (h : op.armed l = some g) : l.configured := by
  cases op with
  | armPending held =>
    simp only [LaneOp.armed, Lane.armPending] at h
    cases hc : l.configured
    · cases held <;> simp [hc] at h
    · rfl
  | _ => cases h

/-! ## One step -/

theorem generation_le_step (l : Lane) (op : LaneOp) : l.generation ≤ (l.step op).generation := by
  cases step_effect l op with
  | keep _ h => exact Nat.le_of_eq h.symm
  | arm => omega
  | materialize _ _ _ _ h => exact Nat.le_of_eq h.symm
  | fresh _ _ _ h => exact Nat.le_of_eq h.symm
  | transfer _ _ _ _ _ h => exact Nat.le_of_eq h.symm
  | retire _ _ _ h => exact Nat.le_of_eq h.symm
  | release => omega

theorem armed_eq {g : ℕ} (h : op.armed l = some g) :
    g = l.generation + 1 ∧ (l.step op).phase = .pending ∧ (l.step op).generation = l.generation + 1 := by
  cases op with
  | armPending =>
    simp only [LaneOp.armed, Lane.step, Lane.armPending] at h ⊢
    split_ifs at h ⊢
    · simp_all
    · simp_all
    · exact ⟨(Option.some.inj h).symm, rfl, rfl⟩
  | _ => cases h

/-- The gate opens at a fresh reset of a request or a quarantine. -/
def LaneOp.releasing (l : Lane) (op : LaneOp) : Prop :=
  op.freshReset l ∧ (l.phase = .request ∨ l.phase = .quarantined)

theorem closed_step (h : l.phase ≠ .idle) (hop : ¬ op.releasing l) : (l.step op).phase ≠ .idle := by
  cases step_effect l op with
  | keep hp => rwa [hp]
  | arm _ _ hp => simp [hp]
  | materialize _ _ _ hp => simp [hp]
  | fresh _ _ hp => simp [hp]
  | transfer _ _ _ _ hp => simp [hp]
  | retire _ _ hp => simp [hp]
  | release hr hb => exact absurd ⟨hr, hb⟩ hop

/-- An operation of another generation leaves the gate. -/
theorem stale_step {g : ℕ} (hop : op.carried = some g) (hg : g ≠ l.generation) :
    (l.step op).phase = l.phase ∧ (l.step op).request = l.request ∧ (l.step op).generation = l.generation := by
  have hne : op.carried ≠ some l.generation := by
    rw [hop]
    exact fun e => hg (Option.some.inj e)
  have hfresh : ¬ op.freshReset l := by
    rintro ⟨r, hr, hf⟩
    cases op with
    | fullResetComplete held =>
      cases held with
      | true =>
        cases hr
        exact hne (congrArg some (Lane.freshened_generation hf))
      | false => cases hr
    | _ => first | cases hr | cases hop
  have harm : op.armed l = none := by
    cases op with
    | armPending => cases hop
    | _ => rfl
  cases step_effect l op with
  | keep hp hg hr => exact ⟨hp, hr, hg⟩
  | arm ha => rw [harm] at ha; cases ha
  | materialize _ hc => exact absurd hc hne
  | fresh hr => exact absurd hr hfresh
  | transfer hc => exact absurd hc hne
  | retire hc => exact absurd hc hne
  | release hr => exact absurd hr hfresh

local instance neZero_registers : NeZero 16 := ⟨Nat.succ_ne_zero _⟩

/-- The frame of an entry of the lane's model and slot. -/
def Lane.isEntry (l : Lane) (f : Frame) (m : Memory) : Prop :=
  f.gpr 4 ≠ 0 ∧ modelOf m (f.gpr 4) = l.model ∧ f.gpr 5 = l.model ∧ nativeI32 m (l.model + 0xc8) = l.slot

theorem entry_scalar (hc : l.configured) (hm : l.model ≠ 0) (hp : l.phase ≠ .idle) {f : Frame} {m : Memory}
    (hf : l.isEntry f m) (held won : Bool) :
    (l.mandatoryDispatch held won .entry f m).action = .scalar ∧
      (l.mandatoryDispatch held won .entry f m).memory = forced m (f.gpr 4) := by
  obtain ⟨h4, hmodel, h5, hslot⟩ := hf
  have hentered : l.entered m (f.gpr 4) := by
    rw [Lane.entered, Lane.matchesLane, hmodel]
    simp only [hc, hm, hp, h4, hslot, ne_eq, not_false_eq_true, decide_true, Bool.and_self]
  rw [Lane.mandatoryDispatch]
  simp only [hentered, hmodel, h5, Bool.not_true, ne_eq, not_true_eq_false, decide_false, Bool.or_self,
    Bool.false_eq_true, if_false, and_self]

/-! ## Runs -/

/-- The lane after the operations. -/
def laneAfter (is : List LaneOp) : Lane := run Lane.step {} is

theorem laneAfter_concat (is : List LaneOp) (op : LaneOp) : laneAfter (is ++ [op]) = (laneAfter is).step op :=
  run_concat ..

/-- One of the operations met the condition. -/
def Happened (is : List LaneOp) (P : Lane → LaneOp → Prop) : Prop :=
  ∃ pre op post, is = pre ++ op :: post ∧ P (laneAfter pre) op

theorem Happened.concat {is : List LaneOp} {P : Lane → LaneOp → Prop} (h : Happened is P) (op : LaneOp) :
    Happened (is ++ [op]) P := by
  obtain ⟨pre, i, post, rfl, hi⟩ := h
  exact ⟨pre, i, post ++ [op], by rw [List.append_assoc, List.cons_append], hi⟩

theorem happened_last {is : List LaneOp} {P : Lane → LaneOp → Prop} (h : P (laneAfter is) op) :
    Happened (is ++ [op]) P := ⟨is, op, [], rfl, h⟩

/-- A pending lane of the generation is materialised. -/
def materializing (g : ℕ) (l : Lane) (op : LaneOp) : Prop :=
  l.phase = .pending ∧ l.generation = g ∧ op.materializes l

/-- A pending lane of the generation is reset. -/
def freshening (g : ℕ) (l : Lane) (op : LaneOp) : Prop :=
  l.phase = .pending ∧ l.generation = g ∧ op.freshReset l

/-- What the fields of a lane tell of its past. -/
structure Lane.Past (is : List LaneOp) : Prop where
  configured : (laneAfter is).phase ≠ .idle → (laneAfter is).configured
  model : (laneAfter is).configured → (laneAfter is).model ≠ 0
  materialized : (laneAfter is).phase ≠ .idle → (laneAfter is).materialized →
    Happened is (materializing (laneAfter is).generation)
  fresh : (laneAfter is).phase ≠ .idle → (laneAfter is).fresh_reset_generation = (laneAfter is).generation →
    Happened is (freshening (laneAfter is).generation)
  request : (laneAfter is).phase = .request →
    (laneAfter is).materialized ∧ (laneAfter is).fresh_reset_generation = (laneAfter is).generation

theorem past_concat {is : List LaneOp} (h : Lane.Past is) (op : LaneOp) : Lane.Past (is ++ [op]) := by
  have hgate := step_effect (laneAfter is) op
  rw [← laneAfter_concat] at hgate
  have hpin := step_configured (laneAfter is) op
  rw [← laneAfter_concat] at hpin
  constructor
  · intro hp
    rcases hpin with ⟨hc, -, -⟩ | ⟨-, hc, -⟩
    · rw [hc]
      cases hgate with
      | keep hk => exact h.configured (hk ▸ hp)
      | arm ha => exact configured_of_armed ha
      | materialize _ _ hb => exact h.configured (by simp [hb])
      | fresh _ hb => exact h.configured (by simp [hb])
      | transfer _ hb => exact h.configured (by simp [hb])
      | retire _ hb => exact h.configured hb
      | release _ _ hi => exact absurd hi hp
    · exact hc
  · intro hc
    rcases hpin with ⟨hc', hm, -⟩ | ⟨-, -, hm⟩
    · rw [hm]
      exact h.model (hc' ▸ hc)
    · exact hm
  · intro hp hm
    cases hgate with
    | keep hk hg _ hmat =>
      rw [hg]
      exact (h.materialized (hk ▸ hp) (hmat ▸ hm)).concat op
    | arm _ _ _ _ hmat => rw [hmat] at hm; cases hm
    | materialize hop _ hb _ hg =>
      rw [hg]
      exact happened_last ⟨hb, rfl, hop⟩
    | fresh _ hb _ hg _ hmat =>
      rw [hg]
      exact (h.materialized (by simp [hb]) (hmat ▸ hm)).concat op
    | transfer _ hb hmat _ _ hg =>
      rw [hg]
      exact (h.materialized (by simp [hb]) hmat.1).concat op
    | retire _ hb _ hg hmat =>
      rw [hg]
      exact (h.materialized hb (hmat ▸ hm)).concat op
    | release _ _ hi => exact absurd hi hp
  · intro hp hf
    cases hgate with
    | keep hk hg _ _ hfresh =>
      rw [hg] at hf ⊢
      exact (h.fresh (hk ▸ hp) (hfresh ▸ hf)).concat op
    | arm _ _ _ hg _ hfresh =>
      rw [hg, hfresh] at hf
      exact absurd hf.symm (Nat.succ_ne_zero _)
    | materialize _ _ hb _ hg _ hfresh =>
      rw [hg] at hf ⊢
      exact (h.fresh (by simp [hb]) (hfresh ▸ hf)).concat op
    | fresh hop hb _ hg =>
      rw [hg]
      exact happened_last ⟨hb, rfl, hop⟩
    | transfer _ hb _ hfresh _ hg =>
      rw [hg]
      exact (h.fresh (by simp [hb]) hfresh.1).concat op
    | retire _ hb _ hg _ hfresh =>
      rw [hg] at hf ⊢
      exact (h.fresh hb (hfresh ▸ hf)).concat op
    | release _ _ hi => exact absurd hi hp
  · intro hp
    cases hgate with
    | keep hk hg _ hmat hfresh =>
      rw [hmat, hfresh, hg]
      exact h.request (hk ▸ hp)
    | transfer _ _ hmat hfresh _ hg =>
      rw [hg]
      exact ⟨hmat.2, hfresh.2⟩
    | arm _ _ hq => rw [hq] at hp; cases hp
    | materialize _ _ _ hq => rw [hq] at hp; cases hp
    | fresh _ _ hq => rw [hq] at hp; cases hp
    | retire _ _ hq => rw [hq] at hp; cases hp
    | release _ _ hq => rw [hq] at hp; cases hp

theorem past (is : List LaneOp) : Lane.Past is := by
  induction is using List.reverseRecOn with
  | nil =>
    constructor
    · exact fun h => absurd rfl h
    · intro h
      cases h
    · exact fun h => absurd rfl h
    · exact fun h => absurd rfl h
    · intro h
      cases h
  | append_singleton is op ih => exact past_concat ih op

theorem generation_le (pre post : List LaneOp) : (laneAfter pre).generation ≤ (laneAfter (pre ++ post)).generation := by
  induction post using List.reverseRecOn with
  | nil => exact Nat.le_of_eq (by rw [List.append_nil])
  | append_singleton post op ih =>
    rw [← List.append_assoc, laneAfter_concat]
    exact Nat.le_trans ih (generation_le_step _ op)

theorem closed_run {is post : List LaneOp} (h : (laneAfter is).phase ≠ .idle)
    (hpost : Admits Lane.step (fun l op => ¬ op.releasing l) (laneAfter is) post) :
    (laneAfter (is ++ post)).phase ≠ .idle := by
  rw [laneAfter, run_append]
  exact run_invariant_of (P := fun l => l.phase ≠ .idle) (fun _ _ => closed_step) h hpost

/-- The quarantine of a slot is not dropped early. The generation never falls, and is armed once. From an arming
on, as long as no fresh reset of the lane as it stands finds it in a request or in quarantine, the phase is not
idle, and every entry is decoded without drafts. A request was materialised and freshly reset while it was
pending, and an operation of another generation leaves the phase, the request and the generation. -/
theorem quarantine_kept (pre : List LaneOp) :
    (∀ post, (laneAfter pre).generation ≤ (laneAfter (pre ++ post)).generation) ∧
      (∀ (op : LaneOp) mid (later : LaneOp) g g', op.armed (laneAfter pre) = some g →
        later.armed (laneAfter (pre ++ op :: mid)) = some g' → g < g') ∧
      (∀ (op : LaneOp) mid g, op.armed (laneAfter pre) = some g →
        Admits Lane.step (fun l i => ¬ i.releasing l) (laneAfter (pre ++ [op])) mid →
        (laneAfter (pre ++ op :: mid)).phase ≠ .idle ∧
        ∀ held won f m, (laneAfter (pre ++ op :: mid)).isEntry f m →
          ((laneAfter (pre ++ op :: mid)).mandatoryDispatch held won .entry f m).action = .scalar ∧
          ((laneAfter (pre ++ op :: mid)).mandatoryDispatch held won .entry f m).memory = forced m (f.gpr 4)) ∧
      ((laneAfter pre).phase = .request → Happened pre (materializing (laneAfter pre).generation) ∧
        Happened pre (freshening (laneAfter pre).generation)) ∧
      ∀ (op : LaneOp) g, op.carried = some g → g ≠ (laneAfter pre).generation →
        (laneAfter (pre ++ [op])).phase = (laneAfter pre).phase ∧
        (laneAfter (pre ++ [op])).request = (laneAfter pre).request ∧
        (laneAfter (pre ++ [op])).generation = (laneAfter pre).generation := by
  refine ⟨generation_le pre, ?_, ?_, ?_, ?_⟩
  · intro op mid later g g' h h'
    obtain ⟨hg, -, hnext⟩ := armed_eq h
    have hle := generation_le (pre ++ [op]) mid
    rw [laneAfter_concat, hnext, List.append_assoc, List.singleton_append] at hle
    have hg' := (armed_eq h').1
    omega
  · intro op mid g h hmid
    have hp : (laneAfter (pre ++ [op])).phase ≠ .idle := by
      rw [laneAfter_concat, (armed_eq h).2.1]
      exact Phase.noConfusion
    have hclosed := closed_run hp hmid
    rw [List.append_assoc, List.singleton_append] at hclosed
    have hc := (past (pre ++ op :: mid)).configured hclosed
    exact ⟨hclosed, fun held won f m hf => entry_scalar hc ((past _).model hc) hclosed hf held won⟩
  · intro hp
    have hne : (laneAfter pre).phase ≠ .idle := by
      rw [hp]
      exact Phase.noConfusion
    obtain ⟨hm, hf⟩ := (past pre).request hp
    exact ⟨(past pre).materialized hne hm, (past pre).fresh hne hf⟩
  · intro op g hop hg
    rw [laneAfter_concat]
    exact stale_step hop hg

end StrixAlloy.Dflash

import StrixAlloy.Dflash.Lane

/-!
# The bridge to the lane

`RetainedLeaseBridge`: the lease of an owner on the lane. Each call may find the lock taken; a call that takes it
twice is given both.
-/

namespace StrixAlloy.Dflash

/-- `Binding` of an owner. -/
structure Binding where
  session : List ℕ := []
  ticket : ℕ := 0
  lease_generation : ℕ := 0
  cache_generation : ℕ := 0
  holder : ℕ := 0
  model : ℕ := 0
  wire : ℕ := 0
  request : ℕ := 0
  birth : ℕ := 0
  slot : ℤ := 0
  total : ℕ := 0
deriving DecidableEq

def Binding.pending (b : Binding) : PendingBinding :=
  ⟨b.model, b.holder, b.wire, b.cache_generation, b.ticket, b.slot⟩

namespace Lane

variable (l : Lane) (held : Bool) (b : Binding)

/-- `match`. -/
def matched : Bool :=
  l.generation = b.lease_generation && l.bound = b.pending &&
    ((l.phase = .pending && b.request = 0 && b.birth = 0) ||
      (l.phase = .request && l.request = b.request && l.birth = b.birth))

def valid : Lane × Bool := if !held then (l.markLoss, false) else (l, l.matched b)

def healthy (loss_at_arm : ℕ) : Lane × Bool :=
  if !held then (l.markLoss, false) else (l, l.matched b && word l.loss = loss_at_arm)

def retirementIdentity : Lane × Bool :=
  if !held then (l.markLoss, false)
  else if l.generation ≠ b.lease_generation then (l, b.lease_generation < l.generation)
  else if l.phase = .quarantined then (l, l.bound = b.pending && (b.request = 0 || l.birth = b.birth))
  else (l, l.matched b)

/-- The generation is disposed of: it is past, or in quarantine. -/
def disposed : Bool := l.generation ≠ b.lease_generation || l.phase = .quarantined

def retire (again : Bool) : Lane × Bool :=
  let known := l.retirementIdentity held b
  if !known.2 then (known.1, false)
  else if known.1.disposed b then (known.1, true)
  else if b.request ≠ 0 then known.1.retireRequest again b.lease_generation b.request b.birth
  else known.1.retirePending again b.lease_generation b.holder

def abandon (again : Bool) : Lane × Bool :=
  let known := l.retirementIdentity held b
  if !known.2 then (known.1, false)
  else if known.1.disposed b then (known.1, true)
  else known.1.retireMaterialized again b.lease_generation b.pending

/-- `loss` of the lease. -/
def lossOf (generation : ℕ) : Lane := if l.generation = generation then l.markLoss else l

end Lane

/-! ## Disposal -/

/-- What a disposal does to the lane: where it is not acknowledged, at most a loss. -/
structure Lane.Disposal (l : Lane) (r : Lane × Bool) : Prop where
  generation : r.1.generation = l.generation
  bound : r.1.bound = l.bound
  configured : r.1.configured = l.configured
  loss : l.loss ≤ r.1.loss
  refused : r.2 = false → r.1 = l ∨ r.1 = l.markLoss

section

variable (l : Lane)
include l

theorem Lane.disposal_keep (ok : Bool) : l.Disposal (l, ok) :=
  ⟨rfl, rfl, rfl, Nat.le_refl _, fun _ => .inl rfl⟩

theorem Lane.disposal_markLoss : l.Disposal (l.markLoss, false) :=
  ⟨rfl, rfl, rfl, Nat.le_succ _, fun _ => .inr rfl⟩

theorem Lane.disposal_retireRequest (held : Bool) (generation request birth : ℕ) :
    l.Disposal (l.retireRequest held generation request birth) := by
  unfold Lane.retireRequest
  split
  · exact l.disposal_markLoss
  split
  · exact l.disposal_keep false
  · exact ⟨rfl, rfl, rfl, Nat.le_refl _, nofun⟩

theorem Lane.disposal_retirePending (held : Bool) (generation holder : ℕ) :
    l.Disposal (l.retirePending held generation holder) := by
  unfold Lane.retirePending
  split
  · exact l.disposal_markLoss
  split
  · exact l.disposal_keep false
  split
  · exact l.disposal_keep true
  split
  · exact l.disposal_keep false
  · exact ⟨rfl, rfl, rfl, Nat.le_refl _, nofun⟩

theorem Lane.disposal_retireMaterialized (held : Bool) (generation : ℕ) (p : PendingBinding) :
    l.Disposal (l.retireMaterialized held generation p) := by
  unfold Lane.retireMaterialized
  split
  · exact l.disposal_markLoss
  split
  · exact l.disposal_keep false
  · exact ⟨rfl, rfl, rfl, Nat.le_refl _, nofun⟩

/-- The lock of the lane decides whether the identity is looked at. -/
theorem Lane.retirementIdentity_cases (held : Bool) (b : Binding) :
    l.retirementIdentity held b = (l.markLoss, false) ∨ ∃ ok, l.retirementIdentity held b = (l, ok) := by
  unfold Lane.retirementIdentity
  split
  · exact .inl rfl
  split
  · exact .inr ⟨_, rfl⟩
  split
  · exact .inr ⟨_, rfl⟩
  · exact .inr ⟨_, rfl⟩

theorem Lane.disposal_retire (held : Bool) (b : Binding) (again : Bool) :
    l.Disposal (l.retire held b again) := by
  unfold Lane.retire
  rcases l.retirementIdentity_cases held b with h | ⟨ok, h⟩
  · rw [h]
    exact l.disposal_markLoss
  · rw [h]
    cases ok with
    | false => exact l.disposal_keep false
    | true =>
      dsimp only
      rw [Bool.not_true, if_neg Bool.false_ne_true]
      split
      · exact l.disposal_keep true
      split
      · exact l.disposal_retireRequest _ _ _ _
      · exact l.disposal_retirePending _ _ _

theorem Lane.disposal_abandon (held : Bool) (b : Binding) (again : Bool) :
    l.Disposal (l.abandon held b again) := by
  unfold Lane.abandon
  rcases l.retirementIdentity_cases held b with h | ⟨ok, h⟩
  · rw [h]
    exact l.disposal_markLoss
  · rw [h]
    cases ok with
    | false => exact l.disposal_keep false
    | true =>
      dsimp only
      rw [Bool.not_true, if_neg Bool.false_ne_true]
      split
      · exact l.disposal_keep true
      · exact l.disposal_retireMaterialized _ _ _

end

/-! ## Acknowledgement -/

variable {l : Lane} {b : Binding}

/-- A generation that the lane has left is acknowledged. -/
theorem Lane.past_identity (h : b.lease_generation < l.generation) :
    l.retirementIdentity true b = (l, true) ∧ l.disposed b := by
  have hne : l.generation ≠ b.lease_generation := Nat.ne_of_gt h
  constructor
  · simp [Lane.retirementIdentity, hne, h]
  · simp [Lane.disposed, hne]

section

variable (hg : l.generation = b.lease_generation)
include hg

theorem Lane.matched_identity (hp : l.phase ≠ .quarantined) (hm : l.matched b) :
    l.retirementIdentity true b = (l, true) ∧ l.disposed b = false := by
  constructor
  · simp [Lane.retirementIdentity, hg, hp, hm]
  · simp [Lane.disposed, hg, hp]

omit hg in
/-- A past generation is disposed of. -/
theorem Lane.retire_past (h : b.lease_generation < l.generation) : (l.retire true b true).2 := by
  obtain ⟨hi, hd⟩ := Lane.past_identity h
  simp [Lane.retire, hi, hd]

omit hg in
theorem Lane.abandon_past (h : b.lease_generation < l.generation) : (l.abandon true b true).2 := by
  obtain ⟨hi, hd⟩ := Lane.past_identity h
  simp [Lane.abandon, hi, hd]

omit hg in
theorem Lane.holder_bound (h : l.bound = b.pending) : l.holder = b.holder := congrArg PendingBinding.holder h

/-- A pending owner is retired. -/
theorem Lane.retire_unborn (hb : l.bound = b.pending) (hp : l.phase = .pending) (hr : b.request = 0)
    (hbirth : b.birth = 0) : (l.retire true b true).2 := by
  have hm : l.matched b := by simp [Lane.matched, hg, hb, hp, hr, hbirth]
  obtain ⟨hi, hd⟩ := Lane.matched_identity hg (by simp [hp]) hm
  have hh := Lane.holder_bound hb
  cases hmat : l.materialized with
  | false => simp [Lane.retire, hi, hd, hr, Lane.retirePending, hg, hh, hp, hmat]
  | true => simp [Lane.retire, hi, hd, hr, Lane.retirePending, hg, hh, hp, hmat]

/-- The owner of a request is retired. -/
theorem Lane.retire_born (hb : l.bound = b.pending) (hp : l.phase = .request) (hr : b.request ≠ 0)
    (hreq : l.request = b.request) (hbirth : l.birth = b.birth) :
    (l.retire true b true).2 := by
  have hm : l.matched b := by simp [Lane.matched, hg, hb, hp, hreq, hbirth]
  obtain ⟨hi, hd⟩ := Lane.matched_identity hg (by simp [hp]) hm
  simp [Lane.retire, hi, hd, hr, Lane.retireRequest, hg, hp, hreq, hbirth]

/-- A materialised owner is abandoned. -/
theorem Lane.abandonMaterialized (hb : l.bound = b.pending) (hp : l.phase = .pending) (hmat : l.materialized)
    (hr : b.request = 0) (hbirth : b.birth = 0) :
    (l.abandon true b true).2 := by
  have hm : l.matched b := by simp [Lane.matched, hg, hb, hp, hr, hbirth]
  obtain ⟨hi, hd⟩ := Lane.matched_identity hg (by simp [hp]) hm
  simp [Lane.abandon, hi, hd, Lane.retireMaterialized, hg, hp, hmat, hb]

end

end StrixAlloy.Dflash

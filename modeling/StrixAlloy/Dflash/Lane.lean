import Mathlib.Algebra.Group.Int.Defs
import Mathlib.Algebra.Group.Nat.Defs
import Mathlib.Tactic.Common

/-!
# The lane

`Lane` of the retained controller and its operations. Each is one step, and whether it finds the lock free is
given with it (`held`). Words are natural numbers. The count of losses is the only one without a guard: it is kept
whole, and read as a word. Native memory is read and written byte by byte.
-/

namespace StrixAlloy.Dflash

/-- `~u64(0)`. -/
def maxWord : ℕ := 2 ^ 64 - 1

/-- A count in a word. -/
def word (n : ℕ) : ℕ := n % 2 ^ 64

inductive Phase
  | idle | pending | request | quarantined
deriving DecidableEq

inductive Action
  | stock | scalar | ready

inductive Site
  | entry | prepare | postReset | initialFlag | chunkFlag
deriving DecidableEq

inductive ResetResult
  | retained | released | freshPending

structure Lane where
  model : ℕ := 0
  slot : ℤ := 0
  configured : Bool := false
  generation : ℕ := 0
  phase : Phase := .idle
  request : ℕ := 0
  holder : ℕ := 0
  wire : ℕ := 0
  birth : ℕ := 0
  cache_generation : ℕ := 0
  pending_ticket : ℕ := 0
  round : ℕ := 0
  loss : ℕ := 0
  fresh_reset_generation : ℕ := 0
  materialized : Bool := false
  ready_enabled : Bool := false

structure PendingBinding where
  model : ℕ
  holder : ℕ
  wire : ℕ
  cache_generation : ℕ
  pending_ticket : ℕ
  slot : ℤ
deriving DecidableEq

namespace Lane

variable (l : Lane) (held : Bool)

/-- The binding that the lane was armed with. -/
def bound : PendingBinding := ⟨l.model, l.holder, l.wire, l.cache_generation, l.pending_ticket, l.slot⟩

def markLoss : Lane := { l with loss := l.loss + 1, ready_enabled := false }

/-- The exchange of the round, which may find that another won. -/
def beginTransaction (won : Bool) : Lane × ℕ :=
  if l.round = maxWord then (l.markLoss, 0)
  else if !won then (l.markLoss, 0)
  else ({ l with round := l.round + 1 }, l.round + 1)

def pinLane (model : ℕ) (slot : ℤ) : Lane × Bool :=
  if !held || model = 0 || slot < 0 || l.configured then (l, false)
  else ({ l with model := model, slot := slot, configured := true }, true)

def armPending (p : PendingBinding) : Lane × ℕ :=
  if !held then (l.markLoss, 0)
  else if !l.configured || p.model ≠ l.model || p.slot ≠ l.slot || p.holder = 0 || p.cache_generation = 0 ||
      p.pending_ticket = 0 || l.phase = .pending || l.phase = .request || l.generation = maxWord then (l, 0)
  else ({ l with generation := l.generation + 1, request := 0, birth := 0, holder := p.holder, wire := p.wire,
                 cache_generation := p.cache_generation, pending_ticket := p.pending_ticket, round := 0,
                 fresh_reset_generation := 0, materialized := false, ready_enabled := false, phase := .pending },
    l.generation + 1)

def materializePending (generation holder : ℕ) : Lane × Bool :=
  if !held then (l.markLoss, false)
  else if l.generation ≠ generation || l.holder ≠ holder || l.phase ≠ .pending then (l, false)
  else ({ l with materialized := true }, true)

def transferPending (generation : ℕ) (p : PendingBinding) (request birth : ℕ) : Lane × Bool :=
  if !held then (l.markLoss, false)
  else if request = 0 || birth = 0 || l.generation ≠ generation || l.phase ≠ .pending || !l.materialized ||
      l.fresh_reset_generation ≠ generation || l.bound ≠ p then (l, false)
  else ({ l with request := request, birth := birth, ready_enabled := false, phase := .request }, true)

/-- What the three retirements do to an owner that they accept. -/
def quarantine : Lane := { l with ready_enabled := false, phase := .quarantined }

def retirePending (generation holder : ℕ) : Lane × Bool :=
  if !held then (l.markLoss, false)
  else if l.generation ≠ generation || l.holder ≠ holder then (l, false)
  else if l.phase = .request || (l.phase = .pending && l.materialized) then (l, true)
  else if l.phase ≠ .pending then (l, false)
  else (l.quarantine, true)

def retireRequest (generation request birth : ℕ) : Lane × Bool :=
  if !held then (l.markLoss, false)
  else if l.generation ≠ generation || l.phase ≠ .request || l.request ≠ request || l.birth ≠ birth then (l, false)
  else ({ l.quarantine with request := 0 }, true)

def retireMaterialized (generation : ℕ) (p : PendingBinding) : Lane × Bool :=
  if !held then (l.markLoss, false)
  else if l.generation ≠ generation || l.phase ≠ .pending || !l.materialized || l.bound ≠ p then (l, false)
  else (l.quarantine, true)

def enableReady (enabled : Bool) : Lane := { l with ready_enabled := enabled && l.phase = .request }

end Lane

/-- The arguments of a reset. -/
structure Reset where
  generation : ℕ
  model : ℕ
  slot : ℤ
  cache_null : Bool
  fresh_native : Bool

namespace Lane

variable (l : Lane)

/-- The reset is fresh, and of the generation, model and slot of the lane. -/
def freshened (r : Reset) : Bool :=
  r.cache_null && r.fresh_native && l.model = r.model && l.slot = r.slot && l.generation = r.generation

def fullResetComplete (held : Bool) (r : Reset) : Lane × ResetResult :=
  if !held || !l.freshened r then (l, .retained)
  else if l.phase = .pending then
    ({ l with ready_enabled := false, fresh_reset_generation := r.generation }, .freshPending)
  else if l.phase = .idle || l.generation = maxWord then ({ l with ready_enabled := false }, .retained)
  else ({ l with ready_enabled := false, generation := l.generation + 1, request := 0, birth := 0, round := 0,
                 phase := .idle }, .released)

end Lane

/-! ## Native memory -/

abbrev Memory := ℕ → Fin 256

/-- `nativeRead` at an address. -/
def nativeRead (m : Memory) (ptr : ℕ) : ℕ → ℕ
  | 0 => 0
  | count + 1 => nativeRead m ptr count + (m (ptr + count)).val * 256 ^ count

/-- `nativeWrite` at an address. -/
def nativeWrite (m : Memory) (ptr value count : ℕ) : Memory := fun a =>
  if ptr ≤ a ∧ a < ptr + count then Fin.ofNat 256 (value / 256 ^ (a - ptr)) else m a

/-- A word of four bytes with its sign. -/
def nativeI32 (m : Memory) (ptr : ℕ) : ℤ :=
  if nativeRead m ptr 4 < 2 ^ 31 then nativeRead m ptr 4 else nativeRead m ptr 4 - 2 ^ 32

structure Frame where
  gpr : Fin 16 → ℕ

/-- What a dispatch leaves. -/
structure Dispatch where
  lane : Lane
  frame : Frame
  memory : Memory
  action : Action

namespace Lane

variable (l : Lane)

def matchesLane (m : Memory) (model : ℕ) : Bool :=
  model ≠ 0 && l.configured && l.phase ≠ .idle && l.model = model && nativeI32 m (model + 0xc8) = l.slot

/-- The reset that a dispatch completes. -/
def dispatchedReset (site : Site) (f : Frame) (m : Memory) : Option Reset :=
  if site ≠ .postReset then none
  else
    let aggregate := nativeRead m (f.gpr 7 + 8) 8
    let model := nativeRead m aggregate 8
    if aggregate = 0 then none
    else if model = l.model && model ≠ 0 && nativeRead m (aggregate + 8) 8 = 0 &&
        nativeI32 m (model + 0xc8) = l.slot then
      some ⟨l.generation, model, l.slot, true,
        nativeI32 m (model + 0x2e8) = 0 && nativeI32 m (model + 0x18) = 0 && nativeI32 m (model + 0x40) = -1 &&
          nativeI32 m (model + 0x48) = -1 && nativeI32 m (model + 0x58) = -1⟩
    else none

end Lane

/-- The model's switches for drafts of its own, off. -/
def suppressed (m : Memory) (model : ℕ) : Memory :=
  nativeWrite (nativeWrite m (model + 0xb7d) 0 1) (model + 0x40) 0xffffffff 4

/-- The model of a request. -/
def modelOf (m : Memory) (request : ℕ) : ℕ := nativeRead m (request + 0x108) 8

/-- The request's cooldown at its limit, and its model's switches off. -/
def forced (m : Memory) (request : ℕ) : Memory :=
  suppressed (nativeWrite m (request + 0x224) 0x7fffffff 4) (modelOf m request)

/-- The low byte of the third register, one. -/
def Frame.reset (f : Frame) : Frame := ⟨Function.update f.gpr 3 (f.gpr 3 / 256 * 256 + 1)⟩

namespace Lane

variable (l : Lane)

/-- A request of the lane's model. -/
def entered (m : Memory) (request : ℕ) : Bool := request ≠ 0 && l.matchesLane m (modelOf m request)

def mandatoryDispatch (held won : Bool) (site : Site) (f : Frame) (m : Memory) : Dispatch :=
  match site with
  | .initialFlag => ⟨l, f, if l.matchesLane m (f.gpr 2) then suppressed m (f.gpr 2) else m, .stock⟩
  | .chunkFlag => ⟨l, f, if l.matchesLane m (f.gpr 0) then suppressed m (f.gpr 0) else m, .stock⟩
  | .postReset => ⟨(l.dispatchedReset .postReset f m).elim l fun r => (l.fullResetComplete held r).1, f, m, .stock⟩
  | .entry =>
    if !l.entered m (f.gpr 4) || f.gpr 5 ≠ modelOf m (f.gpr 4) then ⟨l, f, m, .stock⟩
    else ⟨(l.beginTransaction won).1, f, forced m (f.gpr 4), .scalar⟩
  | .prepare => if !l.entered m (f.gpr 1) then ⟨l, f, m, .stock⟩ else ⟨l, f.reset, forced m (f.gpr 1), .stock⟩

end Lane

/-! ## Operations -/

/-- An operation on a lane, with what it finds. -/
inductive LaneOp
  | pinLane (held : Bool) (model : ℕ) (slot : ℤ)
  | armPending (held : Bool) (p : PendingBinding)
  | materializePending (held : Bool) (generation holder : ℕ)
  | transferPending (held : Bool) (generation : ℕ) (p : PendingBinding) (request birth : ℕ)
  | retirePending (held : Bool) (generation holder : ℕ)
  | retireRequest (held : Bool) (generation request birth : ℕ)
  | retireMaterialized (held : Bool) (generation : ℕ) (p : PendingBinding)
  | enableReady (enabled : Bool)
  | fullResetComplete (held : Bool) (r : Reset)
  | beginTransaction (won : Bool)
  | markLoss
  | mandatoryDispatch (held won : Bool) (site : Site) (f : Frame) (m : Memory)

namespace Lane

def step (l : Lane) : LaneOp → Lane
  | .pinLane held model slot => (l.pinLane held model slot).1
  | .armPending held p => (l.armPending held p).1
  | .materializePending held generation holder => (l.materializePending held generation holder).1
  | .transferPending held generation p request birth => (l.transferPending held generation p request birth).1
  | .retirePending held generation holder => (l.retirePending held generation holder).1
  | .retireRequest held generation request birth => (l.retireRequest held generation request birth).1
  | .retireMaterialized held generation p => (l.retireMaterialized held generation p).1
  | .enableReady enabled => l.enableReady enabled
  | .fullResetComplete held r => (l.fullResetComplete held r).1
  | .beginTransaction won => (l.beginTransaction won).1
  | .markLoss => l.markLoss
  | .mandatoryDispatch held won site f m => (l.mandatoryDispatch held won site f m).lane

end Lane

namespace LaneOp

variable (l : Lane)

/-- The generation that a successful arming returns. -/
def armed : LaneOp → Option ℕ
  | .armPending held p => if (l.armPending held p).2 = 0 then none else some (l.armPending held p).2
  | _ => none

/-- The operation materialises the lane's generation. -/
def materializes : LaneOp → Bool
  | .materializePending held generation holder => (l.materializePending held generation holder).2
  | _ => false

/-- The reset that the operation executes. -/
def reset : LaneOp → Option Reset
  | .fullResetComplete true r => some r
  | .mandatoryDispatch true _ site f m => l.dispatchedReset site f m
  | _ => none

/-- The generation that the operation carries. -/
def carried : LaneOp → Option ℕ
  | .materializePending _ generation _ => some generation
  | .transferPending _ generation _ _ _ => some generation
  | .retirePending _ generation _ => some generation
  | .retireRequest _ generation _ _ => some generation
  | .retireMaterialized _ generation _ => some generation
  | .fullResetComplete _ r => some r.generation
  | _ => none

/-- A fresh reset of the lane as it stands. -/
def freshReset (op : LaneOp) : Prop := ∃ r, op.reset l = some r ∧ l.freshened r

end LaneOp

end StrixAlloy.Dflash

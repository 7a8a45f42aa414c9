import StrixAlloy.PagePhase.Phase

/-!
# The invariant of the page phase

What the program counter of a call says about the phase is its `Fact`. Facts stay true while the phase
goes on (`Later`), also under the steps of other calls, since nothing that they speak of is taken back:
the failure, the plan and what was written. The two countdowns and the one planner are counted over the
calls (`Counts`); what belongs to the pages is `Pages`.
-/

namespace StrixAlloy.PagePhase

/-! ## Where a call is -/

namespace Pc

/-- The call has counted its IDs as written. -/
def arrived : Pc → Bool
  | testing .entry | arriving => false
  | failing _ next => next.arrived
  | _ => true

/-- The call has counted itself as done with the pages. -/
def left : Pc → Bool
  | testing .closing | testing .joining | testing .final => true
  | storing _ | signalling | joining | judging | judged | returned _ => true
  | failing _ next => next.left
  | _ => false

/-- The call is the planner, before the stage of copies. -/
def plans : Pc → Bool
  | testing .planning | testing (.preparing _ _) | electing | readying _ | publishing => true
  | failing _ next => next.plans
  | _ => false

/-- The call is the planner, before the plan is ready. -/
def unplanned : Pc → Bool
  | testing .planning | testing (.preparing _ _) | electing | readying _ => true
  | failing _ next => next.unplanned
  | _ => false

theorem plans_of_unplanned {pc : Pc} (h : pc.unplanned) : pc.plans := by
  induction pc with
  | testing point => cases point <;> first | rfl | cases h
  | failing reason next ih => exact ih h
  | electing | readying => rfl
  | _ => cases h

/-- The call left last, and has not said so. -/
def closes : Pc → Bool
  | testing .closing | storing _ | signalling => true
  | failing _ next => next.closes
  | _ => false

/-- The call is about to latch a failure that it met before it left. -/
def breaks : Pc → Bool
  | failing _ next => !next.left
  | _ => false

/-- The page that the call copies. -/
def page : Pc → Option ℕ
  | testing (.called page) | testing (.opened page) | testing (.segment page _ _) => some page
  | copying page _ _ => some page
  | _ => none

/-- The two counters see no difference, and the planner does not turn back. -/
structure Same (pc pc' : Pc) : Prop where
  arrived : pc'.arrived = pc.arrived
  left : pc'.left = pc.left
  plans : pc'.plans = pc.plans
  closes : pc'.closes = pc.closes
  unplanned : pc'.unplanned → pc.unplanned

theorem Same.refl (pc : Pc) : Same pc pc := ⟨rfl, rfl, rfl, rfl, id⟩

theorem Same.trans {a b c : Pc} (h : Same a b) (h' : Same b c) : Same a c where
  arrived := h'.arrived.trans h.arrived
  left := h'.left.trans h.left
  plans := h'.plans.trans h.plans
  closes := h'.closes.trans h.closes
  unplanned := fun e => h.unplanned (h'.unplanned e)

theorem same_failing (reason : Failure) (next : Pc) : Same (failing reason next) next :=
  ⟨rfl, rfl, rfl, rfl, id⟩

theorem Same.failing {pc pc' : Pc} (h : Same pc pc') (reason : Failure) :
    Same pc (failing reason pc') := { h with }

/-- A call that copies a page has not left. -/
theorem left_of_page {pc : Pc} {n : ℕ} (h : pc.page = some n) : pc.left = false := by
  cases pc with
  | testing point => cases point <;> first | rfl | cases h
  | copying => rfl
  | _ => cases h

/-- A call that is about to latch a failure for the copies has not left. -/
theorem left_of_breaks {pc : Pc} (h : pc.breaks) : pc.left = false := by
  cases pc with
  | failing => simpa [breaks, left] using h
  | _ => cases h

end Pc

theorem same_stop (point : Point) : Pc.Same (.testing point) point.stop := by
  cases point <;> exact ⟨rfl, rfl, rfl, rfl, fun h => by first | exact h | rfl⟩

theorem same_prepared (o o' : Option Plan) (k k' : ℕ) :
    Pc.Same (.testing (.preparing o k)) (State.prepared o' k') := by
  cases k' with
  | succ => exact ⟨rfl, rfl, rfl, rfl, id⟩
  | zero => cases o' <;> exact ⟨rfl, rfl, rfl, rfl, fun _ => rfl⟩

theorem same_loop (s : State) (page i page' i' : ℕ) (primary q : Option Segment) :
    Pc.Same (.copying page i primary) (s.loop page' i' q) := by
  unfold State.loop
  split
  · split <;> exact ⟨rfl, rfl, rfl, rfl, nofun⟩
  · exact ⟨rfl, rfl, rfl, rfl, nofun⟩

theorem same_go (s : State) (allocated : Bool) (point : Point) :
    Pc.Same (.testing point) (s.go allocated point) := by
  cases point with
  | planning =>
    have h : Pc.Same (.testing .planning) (.testing (.preparing none 0)) := ⟨rfl, rfl, rfl, rfl, id⟩
    exact h.trans (same_prepared _ _ _ _)
  | preparing => exact same_prepared _ _ _ _
  | opened page =>
    have h : Pc.Same (.testing (.opened page)) (.copying page 0 none) := ⟨rfl, rfl, rfl, rfl, id⟩
    exact h.trans (same_loop s _ _ _ _ _ _)
  | _ => exact ⟨rfl, rfl, rfl, rfl, nofun⟩

/-! ## What a call knows -/

namespace State

/-- The plan is there for all calls. -/
def Published (s : State) : Prop := s.stage = .copying ∧ s.schedule.isSome

/-- The piece is written to its place. -/
def Has (s : State) (part : Segment) : Prop := part.Written s.args.table.bytes s.args.ids.ids s.output

/-- The pieces of the page before the piece `i` are written. -/
def Upto (s : State) (page i : ℕ) : Prop :=
  ∀ j part, s.plan.InPage page j → j < i → s.plan.segments[j]? = some part → s.Has part

/-- The page is written. -/
def Done (s : State) (page : ℕ) : Prop :=
  ∀ j part, s.plan.InPage page j → s.plan.segments[j]? = some part → s.Has part

/-- Every page was taken. -/
def Exhausted (s : State) : Prop := s.Published ∧ s.plan.pageCount ≤ s.page_cursor

/-- The plan is that of the IDs, which are rows of the table. -/
def Fits (s : State) (p : Plan) : Prop :=
  p = PagePhase.plan s.args.table.base s.args.ids.ids ∧
    ∀ id ∈ s.args.ids.ids, outside s.args.table id = false

/-- Every worker left, none was aborted and every page is written. -/
structure Complete (s : State) : Prop where
  workers_left : s.workers_left = 0
  aborted : s.aborted = 0
  published : s.Published
  done : ∀ page < s.plan.pageCount, s.Done page

/-- What a call knows of its page. -/
structure Copies (s : State) (page i : ℕ) (primary : Option Segment) : Prop where
  published : s.Published
  inside : i < (s.plan.page_starts[page + 1]?).getD 0
  upto : s.Upto page i
  primary : ∀ q, primary = some q → q ∈ s.plan.segments ∧ s.Has q

/-- What a call that is at `pc` knows, where `failed` says that a failure is latched. -/
def Fact (s : State) (failed : Prop) : Pc → Prop
  | .testing point =>
    match point with
    | .entry | .waiting | .joining => True
    | .planning => s.ids_left = 0
    | .preparing outcome _ => s.ids_left = 0 ∧ ∀ p, outcome = some p → s.Fits p
    | .next => failed ∨ s.Published
    | .called _ | .opened _ => s.Published
    | .segment page i primary => s.Copies page i primary
    | .last => failed ∨ s.Exhausted
    | .closing => s.workers_left = 0 ∧ (failed ∨ s.Exhausted)
    | .final => s.Complete
  | .failing reason next =>
    reason ≠ .none ∧ (next.page = none ∧ next ≠ .returned .success) ∧ s.Fact True next
  | .arriving | .waiting | .joining | .judging | .judged => True
  | .electing => s.ids_left = 0
  | .readying p => s.ids_left = 0 ∧ s.Fits p
  | .publishing => s.ids_left = 0 ∧ (failed ∨ s.schedule.isSome)
  | .claiming => s.Published
  | .copying page i primary => s.Copies page i primary
  | .leaving => failed ∨ s.Exhausted
  | .storing success => s.workers_left = 0 ∧ (success → s.Complete)
  | .signalling => s.workers_left = 0
  | .returned result => result = .success → s.Complete

end State

open State

/-- The phase went on from `s` to `t`, in one generation. -/
structure Later (s t : State) : Prop where
  failure : s.failure ≠ .none → t.failure ≠ .none
  ids_left : s.ids_left = 0 → t.ids_left = 0 ∧ t.args = s.args
  stage : s.stage = .copying → t.stage = .copying
  schedule : s.schedule.isSome → t.schedule = s.schedule
  args : s.Published → t.args = s.args
  cursor : s.page_cursor ≤ t.page_cursor
  has : s.Published → ∀ part, s.Has part → t.Has part
  left : s.workers_left = 0 → t.workers_left = 0 ∧ t.aborted = s.aborted

theorem Later.refl (s : State) : Later s s :=
  ⟨id, fun h => ⟨h, rfl⟩, id, fun _ => rfl, fun _ => rfl, Nat.le_refl _, fun _ _ h => h,
    fun h => ⟨h, rfl⟩⟩

/-- Where the calls are does not matter. -/
theorem Later.calls (s : State) (calls : List Pc) : Later s { s with calls := calls } :=
  ⟨id, fun h => ⟨h, rfl⟩, id, fun _ => rfl, fun _ => rfl, Nat.le_refl _, fun _ _ h => h,
    fun h => ⟨h, rfl⟩⟩

namespace Later

variable {s t : State} (l : Later s t)
include l

theorem published (h : s.Published) : t.Published :=
  ⟨l.stage h.1, by rw [l.schedule h.2]; exact h.2⟩

theorem plan (h : s.schedule.isSome) : t.plan = s.plan := by
  unfold State.plan
  rw [l.schedule h]

theorem upto (hp : s.Published) {page i : ℕ} (h : s.Upto page i) : t.Upto page i := by
  intro j part hj hlt hpart
  rw [l.plan hp.2] at hj hpart
  exact l.has hp part (h j part hj hlt hpart)

theorem done (hp : s.Published) {page : ℕ} (h : s.Done page) : t.Done page := by
  intro j part hj hpart
  rw [l.plan hp.2] at hj hpart
  exact l.has hp part (h j part hj hpart)

theorem exhausted (h : s.Exhausted) : t.Exhausted := by
  refine ⟨l.published h.1, ?_⟩
  rw [l.plan h.1.2]
  exact Nat.le_trans h.2 l.cursor

theorem complete (h : s.Complete) : t.Complete where
  workers_left := (l.left h.workers_left).1
  aborted := by rw [(l.left h.workers_left).2, h.aborted]
  published := l.published h.published
  done := by
    intro page hpage
    rw [l.plan h.published.2] at hpage
    exact l.done h.published (h.done page hpage)

theorem copies {page i : ℕ} {primary : Option Segment} (h : s.Copies page i primary) :
    t.Copies page i primary where
  published := l.published h.published
  inside := by
    rw [l.plan h.published.2]
    exact h.inside
  upto := l.upto h.published h.upto
  primary := by
    intro q hq
    rw [l.plan h.published.2]
    exact ⟨(h.primary q hq).1, l.has h.published q (h.primary q hq).2⟩

theorem fits (h0 : s.ids_left = 0) {p : Plan} (h : s.Fits p) : t.Fits p := by
  unfold Fits
  rw [(l.ids_left h0).2]
  exact h

/-- A fact stays true. -/
theorem fact {failed failed' : Prop} (hf : failed → failed') {pc : Pc} (h : s.Fact failed pc) :
    t.Fact failed' pc := by
  induction pc generalizing failed failed' with
  | testing point =>
    cases point with
    | entry | waiting | joining => trivial
    | planning => exact (l.ids_left h).1
    | preparing => exact ⟨(l.ids_left h.1).1, fun p e => l.fits h.1 (h.2 p e)⟩
    | next => exact Or.imp hf l.published h
    | called page | opened page => exact l.published h
    | segment => exact l.copies h
    | last => exact Or.imp hf l.exhausted h
    | closing => exact ⟨(l.left h.1).1, Or.imp hf l.exhausted h.2⟩
    | final => exact l.complete h
  | failing reason next ih => exact ⟨h.1, h.2.1, ih (fun _ => trivial) h.2.2⟩
  | arriving | waiting | joining | judging | judged => trivial
  | electing => exact (l.ids_left h).1
  | readying => exact ⟨(l.ids_left h.1).1, l.fits h.1 h.2⟩
  | publishing =>
    refine ⟨(l.ids_left h.1).1, Or.imp hf (fun e => ?_) h.2⟩
    rw [l.schedule e]
    exact e
  | claiming => exact l.published h
  | copying => exact l.copies h
  | leaving => exact Or.imp hf l.exhausted h
  | storing => exact ⟨(l.left h.1).1, fun e => l.complete (h.2 e)⟩
  | signalling => exact (l.left h).1
  | returned => exact fun e => l.complete (h e)

end Later

/-! ## The invariant -/

/-- How many calls are where `f` says. -/
def State.count (s : State) (f : Pc → Bool) : ℕ := s.calls.countP f

/-- What the countdowns count, and the planners. -/
structure Tallies (s : State) : Prop where
  arrived : s.ids_left + s.count Pc.arrived + s.aborted = s.workers
  left : s.workers_left + s.count Pc.left + s.aborted = s.workers
  assigned : s.calls.length + s.aborted ≤ s.workers
  planners : s.planners.length = s.count Pc.plans + if s.stage = .copying then 1 else 0

/-- The countdowns, and the one planner. -/
structure Counts (s : State) : Prop extends Tallies s where
  one : s.planners.length ≤ 1
  elected : 0 < s.planners.length → s.ids_left = 0
  unelected : s.ids_left = 0 → 0 < s.workers → 0 < s.planners.length ∨ s.failure ≠ .none
  unplanned : s.schedule.isSome → s.count Pc.unplanned = 0 ∧ 0 < s.planners.length
  copying : s.stage = .copying → s.schedule.isSome ∨ s.failure ≠ .none
  aborted : 0 < s.aborted → s.failure ≠ .none
  done : s.terminal_done → s.workers_left = 0
  closed : s.workers_left = 0 → 0 < s.workers →
    s.failure ≠ .none ∨ s.terminal_done ∨ 0 < s.count Pc.closes

/-- The pages that were taken are copied by a call or written. -/
structure Pages (s : State) : Prop where
  fits : ∀ p, s.schedule = some p → s.Fits p
  cursor : 0 < s.page_cursor → s.Published
  pages : ∀ page < s.page_cursor, page < s.plan.pageCount → s.failure ≠ .none ∨
    (∃ pc ∈ s.calls, pc.breaks ∨ pc.page = some page) ∨ s.Done page
  nodup : (s.taken.map Prod.fst).Nodup
  taken : ∀ x ∈ s.taken, x.1 < s.page_cursor
  owner : ∀ i pc page, s.calls[i]? = some pc → pc.page = some page → (page, i) ∈ s.taken
  success : s.terminal_success → s.Complete

structure Inv (s : State) : Prop where
  facts : ∀ pc ∈ s.calls, s.Fact (s.failure ≠ .none) pc
  counts : Counts s
  pages : Pages s

end StrixAlloy.PagePhase

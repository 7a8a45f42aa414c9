import StrixAlloy.PagePhase.Schedule

/-!
# The page phase

`page_phase_0172.h`. The workers of a generation enter `runPhase` with their IDs written. The last to
arrive plans the pages for all; then each takes pages from a shared cursor and copies them, and the last
to leave says whether the phase succeeded.

A call to `runPhase` is a program counter `Pc`, and each atomic operation on the phase is a step of its
own. A question whether to stop is two: the load of the failure with the answer of the callback, and the
exchange that latches a cancellation. The other entry points hold the lifecycle mutex and are one step
each. `State.advance` takes a step of a call; the order of the steps is that of the operations of a run.

The counters never leave the word (they count workers, of which there are at most 256, and pages), and
are natural numbers.
-/

namespace StrixAlloy.PagePhase

inductive Result where
  | success | abort
deriving DecidableEq

inductive Failure where
  | none | cancelled | schedule | copy | synchronization | stale_generation
deriving DecidableEq

inductive Stage where
  | ids | planning | copying
deriving DecidableEq

structure Arguments where
  native_context : ℕ
  token_count : ℕ
  context_rows : ℕ
  ids : Ids
  table : TableView
  raw : OutputView
  native_stride : ℕ
  native_table_encoding : ℤ

structure Qualification where
  exact_native_sites_and_once_per_state : Bool
  selected_mapping_owner_extent_and_lifetime : Bool
  native_raw_and_ids_lifetime : Bool
  cancellation_failure_and_join_bound : Bool
  terminal_consumer_check_bound : Bool
  prior_workers_joined : Bool
  explicitly_selected : Bool

def Qualification.complete (q : Qualification) : Bool :=
  q.exact_native_sites_and_once_per_state && q.selected_mapping_owner_extent_and_lifetime &&
    q.native_raw_and_ids_lifetime && q.cancellation_failure_and_join_bound &&
    q.terminal_consumer_check_bound && q.prior_workers_joined && q.explicitly_selected

/-- The context of the callbacks, and whether there is a callback. What it answers is part of a step. -/
structure Callbacks where
  context : ℕ
  cancel_requested : Bool

def maxTokens : ℕ := 8192
def maxScratch : ℕ := 6 * 1024 * 1024

def canSelect (args : Arguments) (qualified : Qualification) (policy : Policy) (workers : ℕ)
    (callbacks : Callbacks) (generation : ℕ) : Bool :=
  let rows := args.ids.ids.length
  qualified.complete && policy.allow_page_order && generation ≠ 0 && workers ≠ 0 && workers ≤ 256 &&
    args.native_context ≠ 0 && callbacks.context = args.native_context && callbacks.cancel_requested &&
    args.token_count ≠ 0 && args.token_count ≤ maxTokens && args.context_rows = args.token_count * 16 &&
    rows = args.context_rows && policy.min_rows ≤ rows && rows ≤ policy.max_rows && rows ≤ maxRows &&
    args.native_stride = 160 && args.native_table_encoding = 0 && args.ids.data ≠ 0 &&
    args.raw.base ≠ 0 && args.table.base ≠ 0 && args.table.mapping_base ≠ 0 &&
    args.table.row_count ≠ 0 && args.table.row_count ≤ addressMax / 160 &&
    rows * 40 + 4 ≤ min policy.maxScratch_bytes maxScratch && rows * 160 ≤ args.raw.capacity_bytes &&
    match endAddress args.table.mapping_base args.table.mapping_bytes,
      endAddress args.table.base (args.table.row_count * 160),
      endAddress args.raw.base args.raw.capacity_bytes, endAddress args.ids.data (rows * 8) with
    | some map_end, some table_end, some raw_end, some ids_end =>
      args.table.mapping_base ≤ args.table.base && table_end ≤ map_end &&
        !overlap args.raw.base raw_end args.table.mapping_base map_end &&
        !overlap args.raw.base raw_end args.ids.data ids_end &&
        !overlap args.ids.data ids_end args.table.mapping_base map_end
    | _, _, _, _ => false

/-! ## Calls to `runPhase` -/

/-- The questions whether to stop, by what asks. -/
inductive Point where
  /-- The one before the arrival. Its answer is dropped. -/
  | entry
  /-- The one of the planner before `prepare`. -/
  | planning
  /-- Of `prepare`, which ends with `outcome` after `left` more of them. -/
  | preparing (outcome : Option Plan) (left : ℕ)
  /-- In the loop that waits for the plan. -/
  | waiting
  /-- Before a page is taken. -/
  | next
  /-- Of `copyPages`: at the call, at the page and at every 64th piece. -/
  | called (page : ℕ)
  | opened (page : ℕ)
  | segment (page i : ℕ) (primary : Option Segment)
  /-- After the copies. Its answer is dropped. -/
  | last
  /-- Of the last worker to leave. -/
  | closing
  /-- In the loop that waits for the end of the phase. -/
  | joining
  /-- Of the return. -/
  | final
deriving DecidableEq

/-- What a call does next. -/
inductive Pc where
  | testing (point : Point)
  /-- The exchange that latches a failure, with what comes after it. -/
  | failing (reason : Failure) (next : Pc)
  /-- `ids_left_.fetch_sub`. -/
  | arriving
  /-- `stage_.store(Stage::planning)`, of the planner. -/
  | electing
  /-- `ready_=true`. -/
  | readying (p : Plan)
  /-- `stage_.store(Stage::copying)`. -/
  | publishing
  /-- `stage_.load` in the loop that waits for the plan. -/
  | waiting
  /-- `page_cursor_.fetch_add`. -/
  | claiming
  /-- The copy of a piece. -/
  | copying (page i : ℕ) (primary : Option Segment)
  /-- `workers_left_.fetch_sub`. -/
  | leaving
  /-- `terminal_success_.store`. -/
  | storing (success : Bool)
  /-- `terminal_done_.store`. -/
  | signalling
  /-- `terminal_done_.load` in the loop that waits for the end of the phase. -/
  | joining
  /-- `terminal_done_.load` of the return. -/
  | judging
  /-- `terminal_success_.load` of the return. -/
  | judged
  | returned (result : Result)
deriving DecidableEq

/-- Where a call goes on when it is to stop. -/
def Point.stop : Point → Pc
  | .entry => .arriving
  | .planning => .publishing
  | .preparing _ _ => .failing .cancelled .publishing
  | .waiting => .testing .next
  | .next => .testing .last
  | .called _ | .opened _ | .segment _ _ _ => .failing .cancelled (.testing .last)
  | .last => .leaving
  | .closing => .storing false
  | .joining => .judging
  | .final => .returned .abort

/-- What happens in one step of a call, apart from the phase. -/
structure Answer where
  /-- The callback requests to cancel. -/
  cancelled : Bool
  /-- A lock or a wait throws. -/
  throws : Bool
  /-- The reservations of `prepare` fit. -/
  allocated : Bool

/-! ## The phase -/

structure State where
  args : Arguments
  policy : Policy
  /-- What lies at the base of the output. -/
  output : Bytes
  /-- `schedule_`, where it is ready. -/
  schedule : Option Plan
  generation : ℕ
  ids_left : ℕ
  workers_left : ℕ
  page_cursor : ℕ
  stage : Stage
  failure : Failure
  active : Bool
  terminal_done : Bool
  terminal_success : Bool
  -- what the source does not keep: the calls of the generation, and what they and the launcher did
  workers : ℕ
  calls : List Pc
  aborted : ℕ
  planners : List ℕ
  /-- The pages, each with the call that took it. -/
  taken : List (ℕ × ℕ)

namespace State

def fail (s : State) (reason : Failure) : State :=
  { s with failure := if s.failure = .none then reason else s.failure }

/-- `stopping` as part of a longer step. -/
def stopping (s : State) (cancelled : Bool) : Bool × State :=
  if s.failure ≠ .none then (true, s)
  else if cancelled then (true, s.fail .cancelled)
  else (false, s)

/-- The pieces and pages, none where the schedule is not ready. -/
def plan (s : State) : Plan := s.schedule.getD ⟨[], []⟩

/-- What `prepare` does next, with `left` questions to ask. -/
def prepared (outcome : Option Plan) : ℕ → Pc
  | left + 1 => .testing (.preparing outcome left)
  | 0 =>
    match outcome with
    | some p => .readying p
    | none => .failing .schedule .publishing

/-- The head of the loop of `copyPages` over the pieces of a page. -/
def loop (s : State) (page i : ℕ) (primary : Option Segment) : Pc :=
  if i < (s.plan.page_starts[page + 1]?).getD 0 then
    if i % 64 = 0 then .testing (.segment page i primary) else .copying page i primary
  else .testing .next

/-- The checks of `copyPages` on one page. -/
def copyPages (s : State) (page : ℕ) : Pc :=
  if s.schedule.isNone || s.plan.pageCount < page + 1 then .failing .copy (.testing .last)
  else .testing (.called page)

/-- Where a call goes on when it is not to stop. -/
def go (s : State) (allocated : Bool) : Point → Pc
  | .entry => .arriving
  | .planning =>
    let r := prepare s.args.table s.args.raw s.args.ids s.policy allocated
    prepared r.2 r.1
  | .preparing outcome left => prepared outcome left
  | .waiting => .waiting
  | .next => .claiming
  | .called page => .testing (.opened page)
  | .opened page => s.loop page ((s.plan.page_starts[page]?).getD 0) none
  | .segment page i primary => .copying page i primary
  | .last => .leaving
  | .closing => .storing true
  | .joining => .joining
  | .final => .returned .success

/-- The copy of the piece `i` of a page: from the output where the one before had the same source. -/
def copy (s : State) (page i : ℕ) (primary : Option Segment) : State × Pc :=
  match s.plan.segments[i]? with
  | none => (s, .testing .next)
  | some part =>
    match primary.filter fun q => q.source_offset = part.source_offset && q.bytes = part.bytes with
    | some q =>
      let s := { s with output := move s.output part.start part.bytes fun k => s.output (q.start + k) }
      (s, s.loop page (i + 1) primary)
    | none =>
      let s := { s with
        output := move s.output part.start part.bytes fun k => s.args.table.bytes (part.source_offset + k) }
      (s, s.loop page (i + 1) (some part))

/-- One step of the call `i`, which is at `pc`. -/
def act (s : State) (i : ℕ) (a : Answer) : Pc → State × Pc
  | .testing point =>
    if s.failure ≠ .none then (s, point.stop)
    else if a.cancelled then (s, .failing .cancelled point.stop)
    else (s, s.go a.allocated point)
  | .failing reason next => (s.fail reason, next)
  | .arriving =>
    if s.ids_left = 1 then ({ s with ids_left := 0, planners := s.planners ++ [i] }, .electing)
    else ({ s with ids_left := s.ids_left - 1 }, .waiting)
  | .electing => ({ s with stage := .planning }, .testing .planning)
  | .readying p => ({ s with schedule := some p }, .publishing)
  | .publishing => ({ s with stage := .copying }, .testing .next)
  | .waiting =>
    if a.throws then (s, .failing .synchronization .leaving)
    else if s.stage = .copying then (s, .testing .next)
    else (s, .testing .waiting)
  | .claiming =>
    if s.plan.pageCount ≤ s.page_cursor then
      ({ s with page_cursor := s.page_cursor + 1 }, .testing .last)
    else
      ({ s with page_cursor := s.page_cursor + 1, taken := s.taken ++ [(s.page_cursor, i)] },
        s.copyPages s.page_cursor)
  | .copying page j primary => s.copy page j primary
  | .leaving =>
    ({ s with workers_left := s.workers_left - 1 },
      if s.workers_left = 1 then .testing .closing else .joining)
  | .storing success => ({ s with terminal_success := success }, .signalling)
  | .signalling => ({ s with terminal_done := true }, .joining)
  | .joining =>
    if a.throws then (s, .failing .synchronization .judging)
    else if s.terminal_done then (s, .judging)
    else (s, .testing .joining)
  | .judging => if s.terminal_done then (s, .judged) else (s, .returned .abort)
  | .judged => if s.terminal_success then (s, .testing .final) else (s, .returned .abort)
  | .returned result => (s, .returned result)

def advance (s : State) (i : ℕ) (a : Answer) : State :=
  match s.calls[i]? with
  | none => s
  | some pc =>
    let r := s.act i a pc
    { r.1 with calls := r.1.calls.set i r.2 }

/-! ## The entry points -/

/-- `begin`. The buffer of the output holds `output`. -/
def begin (s : State) (args : Arguments) (qualified : Qualification) (policy : Policy) (workers : ℕ)
    (callbacks : Callbacks) (generation : ℕ) (output : Bytes) : Bool × State :=
  if !canSelect args qualified policy workers callbacks generation then (false, s)
  else if s.workers_left ≠ 0 || generation ≤ s.generation then (false, s)
  else
    (true,
      { args := args
        policy := { policy with maxScratch_bytes := min policy.maxScratch_bytes maxScratch }
        output := output
        schedule := none
        generation := generation
        ids_left := workers
        workers_left := workers
        page_cursor := 0
        stage := .ids
        failure := .none
        active := true
        terminal_done := false
        terminal_success := false
        workers := workers
        calls := []
        aborted := 0
        planners := []
        taken := [] })

/-- A call with this generation is one of the current generation. -/
def current (s : State) (generation : ℕ) : Bool := s.active && generation = s.generation

/-- The locked section of `runPhase`. A call of another generation returns `abort` there. -/
def runPhase (s : State) (generation : ℕ) : State :=
  if s.current generation then { s with calls := s.calls ++ [.testing .entry] } else s

def cancel (s : State) (generation : ℕ) : State :=
  if s.current generation then s.fail .cancelled else s

def abortUnstarted (s : State) (generation count : ℕ) : Bool × State :=
  if !s.current generation || count = 0 || s.ids_left < count || s.workers_left < count then (false, s)
  else
    let t := s.fail .cancelled
    let t := { t with
      ids_left := t.ids_left - count
      workers_left := t.workers_left - count
      aborted := t.aborted + count }
    (true, if s.workers_left = count then { t with terminal_success := false, terminal_done := true } else t)

def permitH2d (s : State) (generation : ℕ) (native_workers_joined cancelled : Bool) : Bool × State :=
  if native_workers_joined && s.current generation && s.workers_left = 0 && s.terminal_done &&
      s.terminal_success then
    let r := s.stopping cancelled
    (!r.1, r.2)
  else (false, s)

/-- `failure`. -/
def failureOf (s : State) (generation : ℕ) : Failure :=
  if s.current generation then s.failure else .stale_generation

/-- A producer writes an ID. -/
def produce (s : State) (row : ℕ) (id : ℤ) : State :=
  { s with args := { s.args with ids := { s.args.ids with ids := s.args.ids.ids.set row id } } }

/-- A phase that no generation began. -/
def fresh : State where
  args := ⟨0, 0, 0, ⟨0, []⟩, ⟨0, 0, 0, 0, fun _ => 0⟩, ⟨0, 0⟩, 0, -1⟩
  policy := ⟨false, 4096, 131072, maxScratch⟩
  output := fun _ => 0
  schedule := none
  generation := 0
  ids_left := 0
  workers_left := 0
  page_cursor := 0
  stage := .ids
  failure := .none
  active := false
  terminal_done := false
  terminal_success := false
  workers := 0
  calls := []
  aborted := 0
  planners := []
  taken := []

/-- The states of the generation that a call or an abort accounts for. -/
def assigned (s : State) : ℕ := s.calls.length + s.aborted

end State

/-! ## Runs -/

inductive Op where
  | begin (args : Arguments) (qualified : Qualification) (policy : Policy) (workers : ℕ)
    (callbacks : Callbacks) (generation : ℕ) (output : Bytes)
  | runPhase (generation : ℕ)
  | advance (i : ℕ) (a : Answer)
  | cancel (generation : ℕ)
  | abortUnstarted (generation count : ℕ)
  | permitH2d (generation : ℕ) (native_workers_joined cancelled : Bool)
  | produce (row : ℕ) (id : ℤ)

def step (s : State) : Op → State
  | .begin args qualified policy workers callbacks generation output =>
    (s.begin args qualified policy workers callbacks generation output).2
  | .runPhase generation => s.runPhase generation
  | .advance i a => s.advance i a
  | .cancel generation => s.cancel generation
  | .abortUnstarted generation count => (s.abortUnstarted generation count).2
  | .permitH2d generation joined cancelled => (s.permitH2d generation joined cancelled).2
  | .produce row id => s.produce row id

/-- The call has returned. -/
def Pc.isReturned : Pc → Bool
  | .returned _ => true
  | _ => false

/-- What the owner of the phase keeps to: each state of a generation is accounted for once, by a call or
in the count of an abort; IDs are written by producers that did not enter yet; and a generation begins
after every call has returned. -/
def Legal (s : State) : Op → Prop
  | .begin .. => ∀ pc ∈ s.calls, pc.isReturned
  | .runPhase generation => s.current generation → s.assigned < s.workers
  | .abortUnstarted generation count => s.current generation → s.assigned + count ≤ s.workers
  | .produce _ _ => s.assigned < s.workers
  | _ => True

end StrixAlloy.PagePhase

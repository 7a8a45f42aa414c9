import Mathlib.Tactic.Linarith
import StrixAlloy.Lib.Json
import StrixAlloy.Lib.Runs

/-!
# The lease supervisor

`ProgressLease` follows a file that another process renews: the lease is fresh while a sequence number greater than
all before it was first seen less than 45 seconds ago, by the local clock. `main` launches its child once the lease
was renewed, and stops it when the lease is not fresh, when `observe` rejects a record, or on a signal.

`seen` is history: the records that `observe` accepted, with the readings of the clock at which it did.
-/

namespace StrixAlloy.Lease

def LEASE_AGE : ℚ := 45

/-- The sequence number of a record of the run, if it has the shape of one. -/
def sequence? (run_id : String) : Json → Option ℤ
  | .dict members =>
    match Json.get? members "schema", Json.get? members "run_id", Json.get? members "sequence" with
    | some (.int schema), some (.str id), some (.int sequence) =>
      if schema = 2 ∧ id = run_id ∧ 1 ≤ sequence then some sequence else none
    | _, _, _ => none
  | _ => none

structure ProgressLease where
  sequence : Option ℤ
  last_progress : Option ℚ
  renewed : Bool

namespace ProgressLease

def init : ProgressLease := ⟨none, none, false⟩

def isFresh (now : ℚ) (l : ProgressLease) : Bool :=
  match l.last_progress with
  | some last_progress => l.renewed && (0 ≤ now - last_progress && now - last_progress < LEASE_AGE)
  | none => false

/-- The expiry test of `observe`. -/
def expired (now : ℚ) (l : ProgressLease) : Except String Unit :=
  match l.last_progress with
  | some last_progress =>
    if now < last_progress then .error "local lease clock moved backwards"
    else if LEASE_AGE ≤ now - last_progress then .error "lease expired: no observed progress for 45 seconds"
    else .ok ()
  | none => .ok ()

/-- The lease after a sequence number. -/
def advance (sequence : ℤ) (now : ℚ) (l : ProgressLease) : Except String ProgressLease :=
  match l.sequence with
  | none => .ok { l with sequence := some sequence, last_progress := some now }
  | some last =>
    if sequence < last then .error "lease sequence moved backwards"
    else if last < sequence then .ok ⟨some sequence, some now, true⟩
    else .ok l

def observe (run_id : String) (record : Json) (now : ℚ) (l : ProgressLease) : Except String (Bool × ProgressLease) :=
  match sequence? run_id record with
  | none => .error "invalid lease schema, run identity or sequence"
  | some sequence => do
    l.expired now
    let l' ← l.advance sequence now
    .ok (l'.isFresh now, l')

end ProgressLease

/-! ## The supervisor -/

/-- How the file is read: a JSON value, an `OSError` by its name, a `ValueError` by its text, or another exception. -/
inductive Read
  | record (value : Json)
  | osError (name : String)
  | valueError (text : String)
  | raised

/-- One round of a loop of `main`: whether a signal has come, the reading of the deadline's clock, the file, the
readings of `observe` and of `isFresh`, whether a signal has come by then, whether the child can be launched,
whether it has exited, and the code with which it ends at last. -/
structure Tick where
  stopping : Bool
  gate : ℚ
  read : Read
  clock : ℚ
  check : ℚ
  stopped : Bool
  spawns : Bool
  exited : Bool
  returncode : ℤ

/-- Where `main` is. At its end the process group of a launched child has been killed; without a code an exception
ended it. -/
inductive Phase
  | waiting
  | running
  | ended (killed : Bool) (code : Option ℤ) (failure : Option String)

structure Supervisor where
  tracker : ProgressLease
  deadline : ℚ
  last_read_error : Option String
  phase : Phase
  seen : List (Json × ℚ)

namespace Supervisor

/-- `main` up to its first loop, with the reading from which the deadline is taken. -/
def start (now : ℚ) : Supervisor := ⟨.init, now + LEASE_AGE, none, .waiting, []⟩

/-- What `main` prints of the last read error. -/
def lastError (s : Supervisor) : String := "; last read error=" ++ s.last_read_error.getD "None"

/-- `main` after its first loop, up to the launch. -/
def launch (t : Tick) (s : Supervisor) : Supervisor :=
  { s with
    phase :=
      if t.stopped then .ended false (some 0) none
      else if ¬ s.tracker.isFresh t.check then
        .ended false (some 2) (some ("no renewed guard sequence" ++ s.lastError))
      else if t.spawns then .running
      else .ended false none none }

/-- A round of the first loop. -/
def await (run_id : String) (t : Tick) (s : Supervisor) : Supervisor :=
  if t.stopping then { s with phase := .ended false (some 0) none }
  else if s.deadline ≤ t.gate then s.launch t
  else
    match t.read with
    | .osError name => { s with last_read_error := some name }
    | .valueError text => { s with phase := .ended false (some 2) (some text) }
    | .raised => { s with phase := .ended false none none }
    | .record value =>
      match s.tracker.observe run_id value t.clock with
      | .error text => { s with phase := .ended false (some 2) (some text) }
      | .ok (fresh, tracker) =>
        let s := { s with tracker, seen := s.seen ++ [(value, t.clock)] }
        if fresh then s.launch t else s

/-- The freshness test of the second loop. -/
def check (t : Tick) (s : Supervisor) : Supervisor :=
  if s.tracker.isFresh t.check then s
  else
    { s with phase := .ended true (some 2) (some ("no guard progress for 45 seconds" ++ s.lastError)) }

/-- A round of the second loop; whatever ends it, the child is killed. -/
def supervise (run_id : String) (t : Tick) (s : Supervisor) : Supervisor :=
  if t.exited ∨ t.stopping then { s with phase := .ended true (some t.returncode) none }
  else
    match t.read with
    | .osError name => { s with last_read_error := some name }.check t
    | .valueError text => { s with phase := .ended true (some 2) (some text) }
    | .raised => { s with phase := .ended true none none }
    | .record value =>
      match s.tracker.observe run_id value t.clock with
      | .error text => { s with phase := .ended true (some 2) (some text) }
      | .ok (_, tracker) =>
        { s with tracker, seen := s.seen ++ [(value, t.clock)], last_read_error := none }.check t

/-- One round of `main`. -/
def step (run_id : String) (s : Supervisor) (t : Tick) : Supervisor :=
  match s.phase with
  | .waiting => s.await run_id t
  | .running => s.supervise run_id t
  | .ended _ _ _ => s

end Supervisor

/-! ## What an observation does -/

variable {run_id : String} {l l' : ProgressLease} {value : Json} {now : ℚ} {fresh : Bool}

/-- A lease that has not expired was extended less than its age ago. -/
theorem not_expired (h : l.expired now = .ok ()) {last_progress : ℚ} (hp : l.last_progress = some last_progress) :
    0 ≤ now - last_progress ∧ now - last_progress < LEASE_AGE := by
  unfold ProgressLease.expired at h
  rw [hp] at h
  dsimp only at h
  split_ifs at h with h1 h2
  exact ⟨by linarith, not_le.1 h2⟩

/-- An accepted record is the first, one with a greater number, or one with the same number, which changes nothing. -/
theorem observe_ok (h : l.observe run_id value now = .ok (fresh, l')) :
    ∃ n, sequence? run_id value = some n ∧ l.expired now = .ok () ∧ fresh = l'.isFresh now ∧
      (l.sequence = none ∧ l' = { l with sequence := some n, last_progress := some now } ∨
        (∃ m < n, l.sequence = some m ∧ l' = ⟨some n, some now, true⟩) ∨ l.sequence = some n ∧ l' = l) := by
  unfold ProgressLease.observe at h
  cases hn : sequence? run_id value with
  | none =>
    rw [hn] at h
    cases h
  | some n =>
    rw [hn] at h
    change (l.expired now >>= fun _ => l.advance n now >>= fun l' => .ok (l'.isFresh now, l')) = _ at h
    cases he : l.expired now with
    | error =>
      rw [he] at h
      cases h
    | ok =>
      rw [he] at h
      change (l.advance n now >>= fun l' => .ok (l'.isFresh now, l')) = _ at h
      cases ha : l.advance n now with
      | error =>
        rw [ha] at h
        cases h
      | ok =>
        rw [ha] at h
        cases h
        refine ⟨n, rfl, rfl, rfl, ?_⟩
        unfold ProgressLease.advance at ha
        cases hm : l.sequence with
        | none =>
          rw [hm] at ha
          exact .inl ⟨rfl, (Except.ok.inj ha).symm⟩
        | some m =>
          rw [hm] at ha
          dsimp only at ha
          split_ifs at ha with h1 h2
          · exact .inr (.inl ⟨m, h2, rfl, (Except.ok.inj ha).symm⟩)
          · obtain rfl : m = n := by omega
            exact .inr (.inr ⟨rfl, (Except.ok.inj ha).symm⟩)

/-! ## What the lease knows of the records -/

/-- The number of an accepted record. -/
def number (run_id : String) (o : Json × ℚ) : Option ℤ := sequence? run_id o.1

/-- The lease has the number `n`, first seen with `e`: the records before have smaller numbers, those after it the
same; and if the lease was renewed, one of those before was seen less than its age before. -/
structure Tracks (run_id : String) (l : ProgressLease) (n : ℤ) (old : List (Json × ℚ)) (e : Json × ℚ)
    (rest : List (Json × ℚ)) : Prop where
  sequence : l.sequence = some n
  last_progress : l.last_progress = some e.2
  number : number run_id e = some n
  smaller : ∀ o ∈ old, ∃ m < n, Lease.number run_id o = some m
  same : ∀ o ∈ rest, Lease.number run_id o = some n
  renewed : l.renewed → ∃ o ∈ old, 0 ≤ e.2 - o.2 ∧ e.2 - o.2 < LEASE_AGE

/-- The lease is as the accepted records make it. -/
def Follows (run_id : String) (l : ProgressLease) (seen : List (Json × ℚ)) : Prop :=
  l = .init ∧ seen = [] ∨ ∃ n old e rest, seen = old ++ e :: rest ∧ Tracks run_id l n old e rest

/-- The numbers of accepted records do not decrease. -/
def Sorted (run_id : String) (seen : List (Json × ℚ)) : Prop :=
  seen.Pairwise fun a b => ∃ m n, number run_id a = some m ∧ number run_id b = some n ∧ m ≤ n

variable {seen : List (Json × ℚ)}

/-- No accepted number exceeds that of the lease. -/
theorem Follows.le (h : Follows run_id l seen) {n : ℤ} (hn : l.sequence = some n) :
    ∀ o ∈ seen, ∃ m ≤ n, number run_id o = some m := by
  rcases h with ⟨rfl, -⟩ | ⟨n', old, e, rest, rfl, h⟩
  · cases hn
  · obtain rfl : n' = n := Option.some.inj (h.sequence.symm.trans hn)
    intro o ho
    rcases List.mem_append.1 ho with ho | ho
    · obtain ⟨m, hm, hnum⟩ := h.smaller o ho
      exact ⟨m, hm.le, hnum⟩
    · rcases List.mem_cons.1 ho with rfl | ho
      · exact ⟨n', le_rfl, h.number⟩
      · exact ⟨n', le_rfl, h.same o ho⟩

/-- A greater number is first seen now. -/
theorem Follows.advance (h : Follows run_id l seen) {m n : ℤ} (hm : l.sequence = some m) (hlt : m < n)
    (hn : sequence? run_id value = some n) (hexp : l.expired now = .ok ()) :
    Tracks run_id ⟨some n, some now, true⟩ n seen (value, now) [] := by
  have hle := h.le hm
  rcases h with ⟨rfl, -⟩ | ⟨m', old, e, rest, rfl, h⟩
  · cases hm
  · refine ⟨rfl, rfl, hn, fun o ho => ?_, nofun, fun _ => ⟨e, by simp, not_expired hexp h.last_progress⟩⟩
    obtain ⟨k, hk, hnum⟩ := hle o ho
    exact ⟨k, by omega, hnum⟩

theorem Follows.observe (h : Follows run_id l seen) (ho : l.observe run_id value now = .ok (fresh, l')) :
    Follows run_id l' (seen ++ [(value, now)]) := by
  obtain ⟨n, hn, hexp, -, ⟨hnone, rfl⟩ | ⟨m, hlt, hm, rfl⟩ | ⟨hsame, rfl⟩⟩ := observe_ok ho
  · rcases h with ⟨rfl, rfl⟩ | ⟨n', old, e, rest, -, h⟩
    · exact .inr ⟨n, [], (value, now), [], rfl, rfl, rfl, hn, nofun, nofun, nofun⟩
    · exact absurd (hnone.symm.trans h.sequence) nofun
  · exact .inr ⟨n, seen, (value, now), [], rfl, h.advance hm hlt hn hexp⟩
  · rcases h with ⟨rfl, rfl⟩ | ⟨n', old, e, rest, rfl, h⟩
    · cases hsame
    · obtain rfl : n' = n := Option.some.inj (h.sequence.symm.trans hsame)
      refine .inr ⟨n', old, e, rest ++ [(value, now)], by simp, h.sequence, h.last_progress, h.number, h.smaller, ?_,
        h.renewed⟩
      intro o ho
      rcases List.mem_append.1 ho with ho | ho
      · exact h.same o ho
      · rw [List.mem_singleton.1 ho]
        exact hn

theorem sorted_observe (h : Follows run_id l seen) (hs : Sorted run_id seen)
    (ho : l.observe run_id value now = .ok (fresh, l')) : Sorted run_id (seen ++ [(value, now)]) := by
  refine List.pairwise_append.2 ⟨hs, List.pairwise_singleton .., fun o hmem o' ho' => ?_⟩
  rw [List.mem_singleton.1 ho']
  obtain ⟨n, hn, -, -, ⟨hnone, -⟩ | ⟨m, hlt, hm, -⟩ | ⟨hsame, -⟩⟩ := observe_ok ho
  · rcases h with ⟨-, rfl⟩ | ⟨n', old, e, rest, -, h⟩
    · cases hmem
    · exact absurd (hnone.symm.trans h.sequence) nofun
  · obtain ⟨k, hk, hnum⟩ := h.le hm o hmem
    exact ⟨k, n, hnum, hn, by omega⟩
  · obtain ⟨k, hk, hnum⟩ := h.le hsame o hmem
    exact ⟨k, n, hnum, hn, hk⟩

/-- A fresh lease was renewed, and its number first seen less than its age ago. -/
theorem isFresh_iff (last_progress : ℚ) (hp : l.last_progress = some last_progress) :
    l.isFresh now ↔ l.renewed ∧ 0 ≤ now - last_progress ∧ now - last_progress < LEASE_AGE := by
  unfold ProgressLease.isFresh
  rw [hp]
  simp only [Bool.and_eq_true, decide_eq_true_eq]

/-! ## One round -/

namespace Supervisor

variable {s : Supervisor} {t : Tick}

/-- What holds between rounds: the lease follows the accepted records, in order, and is not renewed before the
launch. -/
structure Inv (run_id : String) (s : Supervisor) : Prop where
  follows : Follows run_id s.tracker s.seen
  sorted : Sorted run_id s.seen
  waiting : s.phase = .waiting → s.tracker.renewed = false

theorem start_inv : Inv run_id (start now) := ⟨.inl ⟨rfl, rfl⟩, .nil, fun _ => rfl⟩

/-- What a round does to the lease: nothing, or the observation of a record. -/
inductive Sees (run_id : String) (s : Supervisor) (t : Tick) : Supervisor → Prop
  | nothing {s' : Supervisor} (htracker : s'.tracker = s.tracker) (hseen : s'.seen = s.seen) : Sees run_id s t s'
  | record {s' : Supervisor} (value : Json) (fresh : Bool) (hread : t.read = .record value)
      (ho : s.tracker.observe run_id value t.clock = .ok (fresh, s'.tracker))
      (hseen : s'.seen = s.seen ++ [(value, t.clock)]) : Sees run_id s t s'

/-- What one round may do. It goes on with a child only under a fresh lease, waits on only if what it saw was not
fresh, and goes on from a rejected record only by the deadline of the first loop. -/
structure Goes (run_id : String) (s : Supervisor) (t : Tick) (s' : Supervisor) : Prop where
  sees : Sees run_id s t s'
  running : s'.phase = .running → s'.tracker.isFresh t.check
  waiting : s'.phase = .waiting →
    s.phase = .waiting ∧ (s'.tracker = s.tracker ∨ s'.tracker.isFresh t.clock = false)
  rejected : ∀ value text, t.read = .record value → s.tracker.observe run_id value t.clock = .error text →
    s'.phase = .running → s.phase = .waiting ∧ s'.tracker = s.tracker
  killed : s.phase = .running → s'.phase = .running ∨ ∃ code failure, s'.phase = .ended true code failure

/-- A round that ends `main`. -/
theorem goes_ended {killed : Bool} {code : Option ℤ} {failure : Option String}
    (h : s.phase = .running → killed) :
    Goes run_id s t { s with phase := .ended killed code failure } :=
  ⟨.nothing rfl rfl, nofun, nofun, nofun, fun hr => .inr ⟨code, failure, by rw [h hr]⟩⟩

theorem launch_phase : ((s.launch t).phase = .running → s.tracker.isFresh t.check) ∧
    (s.launch t).phase ≠ .waiting := by
  unfold launch
  split_ifs with h1 h2 h3
  · exact ⟨nofun, nofun⟩
  · exact ⟨fun _ => h2, nofun⟩
  · exact ⟨nofun, nofun⟩
  · exact ⟨nofun, nofun⟩

theorem check_phase (h : s.phase = .running) :
    (s.check t).tracker = s.tracker ∧ (s.check t).seen = s.seen ∧
      ((s.check t).phase = .running ∧ s.tracker.isFresh t.check ∨
        ∃ code failure, (s.check t).phase = .ended true code failure) := by
  unfold check
  split_ifs with hf
  · exact ⟨rfl, rfl, .inl ⟨h, hf⟩⟩
  · exact ⟨rfl, rfl, .inr ⟨_, _, rfl⟩⟩

/-- A round of the first loop. -/
theorem await_goes (hphase : s.phase = .waiting) : Goes run_id s t (s.await run_id t) := by
  have hnot : s.phase = .running → False := by
    rw [hphase]
    exact nofun
  unfold await
  split_ifs with hstop hgate
  · exact goes_ended fun h => (hnot h).elim
  · obtain ⟨hrun, hwait⟩ := launch_phase
    exact ⟨.nothing rfl rfl, hrun, fun h => absurd h hwait, fun _ _ _ _ _ => ⟨hphase, rfl⟩, fun h => (hnot h).elim⟩
  cases hread : t.read with
  | osError =>
    exact ⟨.nothing rfl rfl, fun h => (hnot h).elim, fun h => ⟨h, .inl rfl⟩, fun _ _ h => by simp [hread] at h,
      fun h => (hnot h).elim⟩
  | valueError => exact goes_ended fun h => (hnot h).elim
  | raised => exact goes_ended fun h => (hnot h).elim
  | record value =>
    dsimp only
    cases ho : s.tracker.observe run_id value t.clock with
    | error => exact goes_ended fun h => (hnot h).elim
    | ok r =>
      obtain ⟨fresh, tracker⟩ := r
      have hrejected : ∀ value text, t.read = .record value →
          s.tracker.observe run_id value t.clock ≠ .error text := by
        intro value' text h
        rw [hread] at h
        cases h
        rw [ho]
        exact nofun
      dsimp only
      split_ifs with hfresh
      · obtain ⟨hrun, hwait⟩ :=
          launch_phase (s := { s with tracker, seen := s.seen ++ [(value, t.clock)] })
        exact ⟨.record value fresh hread ho rfl, hrun, fun h => absurd h hwait,
          fun v e hv he => absurd he (hrejected v e hv), fun h => (hnot h).elim⟩
      · obtain ⟨n, -, -, hf, -⟩ := observe_ok ho
        refine ⟨.record value fresh hread ho rfl, fun h => (hnot h).elim, fun h => ⟨h, .inr ?_⟩,
          fun v e hv he => absurd he (hrejected v e hv), fun h => (hnot h).elim⟩
        rw [← hf]
        exact Bool.eq_false_of_not_eq_true hfresh

/-- A round of the second loop. -/
theorem supervise_goes (hphase : s.phase = .running) : Goes run_id s t (s.supervise run_id t) := by
  have hcheck : ∀ s₁ : Supervisor, s₁.phase = .running → Sees run_id s t s₁ →
      (∀ value text, t.read = .record value → s.tracker.observe run_id value t.clock ≠ .error text) →
      Goes run_id s t (s₁.check t) := by
    intro s₁ h₁ hsees hrejected
    obtain ⟨htracker, hseen, hend⟩ := check_phase h₁
    refine ⟨?_, fun h => ?_, fun h => ?_, fun v e hv he => absurd he (hrejected v e hv),
      fun _ => hend.imp And.left id⟩
    · cases hsees with
      | nothing h h' => exact .nothing (htracker.trans h) (hseen.trans h')
      | record value fresh hread ho h' => exact .record value fresh hread (htracker ▸ ho) (hseen.trans h')
    · rcases hend with ⟨-, hfresh⟩ | ⟨code, failure, hend⟩
      · rw [htracker]
        exact hfresh
      · exact absurd (hend.symm.trans h) nofun
    · rcases hend with ⟨hrun, -⟩ | ⟨code, failure, hend⟩
      · exact absurd (hrun.symm.trans h) nofun
      · exact absurd (hend.symm.trans h) nofun
  unfold supervise
  split_ifs with hstop
  · exact goes_ended fun _ => rfl
  cases hread : t.read with
  | osError name =>
    exact hcheck { s with last_read_error := some name } hphase (.nothing rfl rfl) fun _ _ h => by simp [hread] at h
  | valueError => exact goes_ended fun _ => rfl
  | raised => exact goes_ended fun _ => rfl
  | record value =>
    dsimp only
    cases ho : s.tracker.observe run_id value t.clock with
    | error => exact goes_ended fun _ => rfl
    | ok r =>
      obtain ⟨fresh, tracker⟩ := r
      refine hcheck { s with tracker, seen := s.seen ++ [(value, t.clock)], last_read_error := none } hphase
        (.record value fresh hread ho rfl) fun value' text h => ?_
      rw [hread] at h
      cases h
      rw [ho]
      exact nofun

theorem step_goes (h : ∀ killed code failure, s.phase ≠ .ended killed code failure) :
    Goes run_id s t (s.step run_id t) := by
  unfold step
  cases hphase : s.phase with
  | waiting => exact await_goes hphase
  | running => exact supervise_goes hphase
  | ended killed code failure => exact absurd hphase (h killed code failure)

theorem step_ended {killed : Bool} {code : Option ℤ} {failure : Option String}
    (h : s.phase = .ended killed code failure) : s.step run_id t = s := by
  unfold step
  rw [h]

/-- A lease that was not renewed is renewed only by a record that makes it fresh. -/
theorem observe_renewed (h : l.observe run_id value now = .ok (fresh, l')) (hl : l.renewed = false)
    (hfresh : l'.isFresh now = false) : l'.renewed = false := by
  obtain ⟨n, -, -, -, ⟨-, rfl⟩ | ⟨m, -, -, rfl⟩ | ⟨-, rfl⟩⟩ := observe_ok h
  · exact hl
  · have htrue : (⟨some n, some now, true⟩ : ProgressLease).isFresh now = true := by
      rw [isFresh_iff now rfl, sub_self]
      exact ⟨rfl, le_rfl, by norm_num [LEASE_AGE]⟩
    exact absurd (htrue.symm.trans hfresh) nofun
  · exact hl

theorem step_inv (hs : s.Inv run_id) : (s.step run_id t).Inv run_id := by
  by_cases hend : ∃ killed code failure, s.phase = .ended killed code failure
  · obtain ⟨killed, code, failure, hend⟩ := hend
    rw [step_ended hend]
    exact hs
  push Not at hend
  have hgoes : Goes run_id s t (s.step run_id t) := step_goes hend
  have hwait : (s.step run_id t).phase = .waiting → (s.step run_id t).tracker.renewed = false := by
    intro h
    obtain ⟨hphase, hcase⟩ := hgoes.waiting h
    rcases hcase with hsame | hstale
    · rw [hsame]
      exact hs.waiting hphase
    · cases hgoes.sees with
      | nothing htracker =>
        rw [htracker]
        exact hs.waiting hphase
      | record value fresh hread ho => exact observe_renewed ho (hs.waiting hphase) hstale
  cases hgoes.sees with
  | nothing htracker hseen => exact ⟨by rw [htracker, hseen]; exact hs.follows, hseen ▸ hs.sorted, hwait⟩
  | record value fresh hread ho hseen =>
    exact ⟨hseen ▸ hs.follows.observe ho, hseen ▸ sorted_observe hs.follows hs.sorted ho, hwait⟩

/-! ## Every run -/

/-- The newest number was first seen less than the lease's age before the reading `now`. -/
def Live (run_id : String) (seen : List (Json × ℚ)) (now : ℚ) : Prop :=
  ∃ n old e rest, seen = old ++ e :: rest ∧ number run_id e = some n ∧
    (∀ o ∈ old, ∃ m < n, number run_id o = some m) ∧ (∀ o ∈ rest, number run_id o = some n) ∧
    0 ≤ now - e.2 ∧ now - e.2 < LEASE_AGE

/-- Two records of the run with increasing numbers were seen less than the lease's age apart. -/
def Renewed (run_id : String) (seen : List (Json × ℚ)) : Prop :=
  ∃ a b m n, [a, b].Sublist seen ∧ number run_id a = some m ∧ number run_id b = some n ∧ m < n ∧
    0 ≤ b.2 - a.2 ∧ b.2 - a.2 < LEASE_AGE

theorem live_of_fresh (h : s.Inv run_id) (hfresh : s.tracker.isFresh now) :
    Live run_id s.seen now ∧ Renewed run_id s.seen := by
  rcases h.follows with ⟨hinit, -⟩ | ⟨n, old, e, rest, hseen, ht⟩
  · rw [hinit] at hfresh
    cases hfresh
  obtain ⟨hrenewed, hnow⟩ := (isFresh_iff e.2 ht.last_progress).1 hfresh
  refine ⟨⟨n, old, e, rest, hseen, ht.number, ht.smaller, ht.same, hnow⟩, ?_⟩
  obtain ⟨o, ho, hage⟩ := ht.renewed hrenewed
  obtain ⟨m, hm, hnum⟩ := ht.smaller o ho
  refine ⟨o, e, m, n, ?_, hnum, ht.number, hm, hage⟩
  rw [hseen]
  exact (List.singleton_sublist.2 ho).append (List.singleton_sublist.2 List.mem_cons_self)

/-- After any rounds, whatever the file and the clock were: accepted numbers have not decreased, and the next round
launches the child only on two records with increasing numbers less than 45 seconds apart, goes on with it only while
the newest number is less than 45 seconds old, extends the lease only by a greater number, and after a record that
`observe` rejects has no child running. A child that is not kept is killed, and `main` does not go on. -/
theorem lease_liveness (run_id : String) (now : ℚ) (ticks : List Tick) (t : Tick) :
    let s := Runs.run (step run_id) (start now) ticks
    let s' := s.step run_id t
    Sorted run_id s'.seen ∧
      (s.phase = .waiting → s'.phase = .running → Renewed run_id s'.seen) ∧
      (s'.phase = .running → s.phase = .running ∨ s.phase = .waiting) ∧
      (s'.phase = .running → Live run_id s'.seen t.check) ∧
      (s'.tracker.last_progress ≠ s.tracker.last_progress → ∃ value n, t.read = .record value ∧
        sequence? run_id value = some n ∧ (∀ o ∈ s.seen, ∃ m < n, number run_id o = some m) ∧
        s'.tracker.last_progress = some t.clock) ∧
      (∀ value text, t.read = .record value → s.tracker.observe run_id value t.clock = .error text →
        s'.phase ≠ .running) ∧
      (s.phase = .running → s'.phase = .running ∨ ∃ code failure, s'.phase = .ended true code failure) ∧
      ∀ killed code failure, s.phase = .ended killed code failure → s' = s := by
  intro s s'
  have hs : s.Inv run_id := Runs.run_invariant (fun s t h => step_inv h) ticks start_inv
  have hs' : s'.Inv run_id := step_inv hs
  by_cases hend : ∃ killed code failure, s.phase = .ended killed code failure
  · obtain ⟨killed, code, failure, hend⟩ := hend
    have hsame : s' = s := step_ended hend
    rw [hsame, hend]
    exact ⟨hs.sorted, nofun, nofun, nofun, fun h => absurd rfl h, fun _ _ _ _ => nofun, nofun, fun _ _ _ _ => rfl⟩
  push Not at hend
  have hgoes : Goes run_id s t s' := step_goes hend
  refine ⟨hs'.sorted, fun _ h => (live_of_fresh hs' (hgoes.running h)).2, fun _ => ?_,
    fun h => (live_of_fresh hs' (hgoes.running h)).1, fun hne => ?_, fun value text hread ho h => ?_, hgoes.killed,
    fun killed code failure h => absurd h (hend killed code failure)⟩
  · cases hphase : s.phase with
    | waiting => exact .inr rfl
    | running => exact .inl rfl
    | ended killed code failure => exact absurd hphase (hend killed code failure)
  · cases hgoes.sees with
    | nothing htracker => exact absurd (congrArg _ htracker) hne
    | record value fresh hread ho =>
      obtain ⟨n, hn, hexp, -, ⟨hnone, heq⟩ | ⟨m, hlt, hm, heq⟩ | ⟨-, heq⟩⟩ := observe_ok ho
      · refine ⟨value, n, hread, hn, ?_, by rw [heq]⟩
        rcases hs.follows with ⟨-, hempty⟩ | ⟨n', old, e, rest, -, ht⟩
        · rw [hempty]
          exact nofun
        · exact absurd (hnone.symm.trans ht.sequence) nofun
      · exact ⟨value, n, hread, hn, (hs.follows.advance hm hlt hn hexp).smaller, by rw [heq]⟩
      · exact absurd (congrArg _ heq) hne
  · obtain ⟨hphase, htracker⟩ := hgoes.rejected value text hread ho h
    have hfresh := hgoes.running h
    rcases hs'.follows with ⟨hinit, -⟩ | ⟨n, old, e, rest, -, ht⟩
    · rw [hinit] at hfresh
      cases hfresh
    · have hrenewed := ((isFresh_iff e.2 ht.last_progress).1 hfresh).1
      rw [htracker] at hrenewed
      exact absurd ((hs.waiting hphase).symm.trans hrenewed) nofun

end Supervisor

end StrixAlloy.Lease

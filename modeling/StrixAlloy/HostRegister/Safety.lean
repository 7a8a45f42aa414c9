import Mathlib.Algebra.BigOperators.Group.List.Basic
import StrixAlloy.HostRegister.Exact
import StrixAlloy.Lib.Runs

/-!
# Safety of the shim

The invariant of the static variables, and what each entry point does to a state that has it. No
calculation of an entry point wraps then, so that a call is a pure function of the state; a registration
that succeeds is the next entry of the accepted plan, and a state that is poisoned stays so.
-/

namespace StrixAlloy.HostRegister

open Words List Runs

/-! ## The invariant -/

/-- Two recorded ranges do not meet. -/
def Entry.Apart (a b : Entry) : Prop := a.host + a.bytes ≤ b.host ∨ b.host + b.bytes ≤ a.host

theorem Entry.Apart.symm {a b : Entry} (h : a.Apart b) : b.Apart a := Or.symm h

/-- The bytes that a part of a plan copies. -/
def copySum (ps : List Planned) : ℕ := ((ps.filter fun p => p.copy).map Planned.bytes).sum

/-- The bytes that a part of a plan registers with the driver. -/
def hostSum (ps : List Planned) : ℕ := ((ps.filter fun p => !p.copy).map Planned.bytes).sum

theorem copySum_append (ps qs : List Planned) : copySum (ps ++ qs) = copySum ps + copySum qs := by
  simp [copySum]

theorem hostSum_append (ps qs : List Planned) : hostSum (ps ++ qs) = hostSum ps + hostSum qs := by
  simp [hostSum]

/-- The totals of the shim are on their way to those of its plan. -/
structure OnPlan (s : Shim) : Prop where
  copied : s.total + copySum (s.planned.drop s.planned_next) = s.expected_copy
  hosted : s.host_total + hostSum (s.planned.drop s.planned_next) = s.expected_host
  executed_copy : s.executed_copy = s.total
  executed_host : s.executed_host = s.host_total
  expected_copy : s.expected_copy ≤ s.cap
  expected_host : s.expected_host ≤ hostCeiling

/-- The invariant of the static variables. -/
structure Inv (s : Shim) : Prop where
  apart : s.copies.Pairwise Entry.Apart
  bounded : ∀ c ∈ s.copies, c.host + c.bytes < 2 ^ 64
  number : s.copies.length ≤ 4096
  total : s.total = (s.copies.map Entry.bytes).sum
  total_le : s.total ≤ s.cap
  cap_le : s.cap ≤ 68719476736
  unconfigured : s.configured = false → s.cap = 0
  host_le : s.host_total ≤ hostCeiling
  next_le : s.planned_next ≤ s.planned.length
  planned_le : s.planned.length ≤ 252
  plan : s.preflight_poisoned = false → OnPlan s

theorem inv_init : Inv Shim.init where
  apart := List.Pairwise.nil
  bounded := by simp [Shim.init]
  number := Nat.zero_le _
  total := rfl
  total_le := Nat.zero_le _
  cap_le := Nat.zero_le _
  unconfigured _ := rfl
  host_le := Nat.zero_le _
  next_le := Nat.zero_le _
  planned_le := Nat.zero_le _
  plan _ := ⟨rfl, rfl, rfl, rfl, Nat.zero_le _, Nat.zero_le _⟩

theorem configure_cap_le (v2 : Bool) (getenv : String → Option String) :
    (configure v2 getenv).cap ≤ 68719476736 := by
  have hcap : copyCap v2 ≤ 68719476736 := by cases v2 <;> decide
  unfold configure
  dsimp only
  split_ifs
  · exact Nat.zero_le _
  · exact Nat.zero_le _
  · exact Nat.zero_le _
  · exact hcap

variable {v2 : Bool} {getenv : String → Option String} {s : Shim}

/-- The configuration is set while nothing is recorded. -/
theorem Inv.once (h : Inv s) : Inv (s.once v2 getenv) := by
  unfold Shim.once
  split_ifs with hconfigured
  · exact h
  · have hzero : s.cap = 0 := h.unconfigured (by simpa using hconfigured)
    have htotal : s.total = 0 := by
      have hle := h.total_le
      omega
    exact
      { h with
        total_le := by
          show s.total ≤ _
          omega
        cap_le := configure_cap_le v2 getenv
        unconfigured := by simp
        plan := fun hpoison =>
          { h.plan hpoison with
            expected_copy := by
              have hle := (h.plan hpoison).expected_copy
              show s.expected_copy ≤ _
              omega } }

theorem Inv.reject (h : Inv s) : Inv s.reject :=
  { h with plan := fun hpoison => by simp [Shim.reject] at hpoison }

theorem Inv.cap_lt (h : Inv s) : s.cap < 2 ^ 64 := by
  have hle := h.cap_le
  omega

/-! ## The plan -/

/-- The variables of the loop, for a shim with the given totals: they count the candidate. -/
structure Tally.Ok (cap total host : ℕ) (t : Tally) : Prop where
  sum_lt : t.sum < 2 ^ 64
  copied : t.copied = total + copySum t.candidate
  hosted : t.host = host + hostSum t.candidate
  copied_le : t.copied ≤ cap
  host_le : t.host ≤ hostCeiling
  phase_copy : t.phase_copy ≤ t.sum
  phase_host : t.phase_host ≤ t.sum
  entries : t.entries ≤ 4096

variable {cap total host : ℕ}

/-- A range is placed without a wrap, when it is copied only if it fits. -/
theorem Tally.Ok.place {t : Tally} (h : t.Ok cap total host) (hcap : cap ≤ 68719476736) {pointer bytes : ℕ}
    (hsum : t.sum + bytes < 2 ^ 64) {copy : Bool}
    (hcopy : copy → t.entries < 4096 ∧ t.copied + bytes ≤ cap) :
    ∃ r, t.place pointer bytes copy = pure r ∧ ∀ t', r = .ok t' →
      t'.Ok cap total host ∧ t'.candidate = t.candidate ++ [⟨pointer, bytes, copy⟩] := by
  have hphase_copy := h.phase_copy
  have hphase_host := h.phase_host
  have hcopied_le := h.copied_le
  have hhost_le := h.host_le
  have hceiling : hostCeiling = 25769803776 := rfl
  unfold Tally.place
  rw [add_of_lt hsum, pure_bind]
  dsimp only
  cases copy with
  | true =>
    obtain ⟨hentries, hfits⟩ := hcopy rfl
    rw [if_pos rfl, add_of_lt (by omega), pure_bind, add_of_lt (by omega), pure_bind,
      add_of_lt (by omega), pure_bind]
    refine ⟨_, rfl, ?_⟩
    rintro t' ⟨⟩
    refine ⟨⟨hsum, ?_, ?_, hfits, h.host_le, ?_, ?_, hentries⟩, rfl⟩
    · have hone : copySum [⟨pointer, bytes, true⟩] = bytes := by simp [copySum]
      rw [copySum_append, hone, h.copied, Nat.add_assoc]
    · have hnone : hostSum [⟨pointer, bytes, true⟩] = 0 := by simp [hostSum]
      rw [hostSum_append, hnone, h.hosted, Nat.add_zero]
    · show t.phase_copy + bytes ≤ t.sum + bytes
      omega
    · show t.phase_host ≤ t.sum + bytes
      omega
  | false =>
    rw [if_neg (by simp), if_neg (by omega), sub_of_le h.host_le (by omega), pure_bind]
    by_cases hroom : bytes > hostCeiling - t.host
    · rw [if_pos hroom]
      refine ⟨_, rfl, ?_⟩
      rintro t' ⟨⟩
    · rw [if_neg hroom, add_of_lt (by omega), pure_bind, add_of_lt (by omega), pure_bind]
      refine ⟨_, rfl, ?_⟩
      rintro t' ⟨⟩
      refine ⟨⟨hsum, ?_, ?_, h.copied_le, ?_, ?_, ?_, h.entries⟩, rfl⟩
      · have hnone : copySum [⟨pointer, bytes, false⟩] = 0 := by simp [copySum]
        rw [copySum_append, hnone, h.copied, Nat.add_zero]
      · have hone : hostSum [⟨pointer, bytes, false⟩] = bytes := by simp [hostSum]
        rw [hostSum_append, hone, h.hosted, Nat.add_assoc]
      · show t.host + bytes ≤ hostCeiling
        omega
      · show t.phase_copy ≤ t.sum + bytes
        omega
      · show t.phase_host + bytes ≤ t.sum + bytes
        omega

/-- The pointer and the bytes of a range of the call. -/
def PreflightCall.target (c : PreflightCall) (i : ℕ) : ℕ × ℕ :=
  (c.mapping_base.toNat + (c.range i).begin.toNat, (c.range i).end_.toNat - (c.range i).begin.toNat)

/-- The pointer and the bytes of an entry of a plan. -/
def Planned.target (p : Planned) : ℕ × ℕ := (p.pointer, p.bytes)

/-- The loop over the ranges does not wrap, and counts what it plans: the ranges in their order. -/
theorem planLoop_pure (hcap : cap ≤ 68719476736) (c : PreflightCall)
    (hmapping : c.mapping_base.toNat + c.mapping_bytes.toNat < 2 ^ 64) (n i : ℕ) {t : Tally}
    (ht : t.Ok cap total host) :
    ∃ r, planLoop cap c i n t = pure r ∧ ∀ t', r = .ok t' →
      t'.Ok cap total host ∧
        t'.candidate.map Planned.target = t.candidate.map Planned.target ++ (List.range' i n).map c.target := by
  induction n generalizing i t with
  | zero =>
    refine ⟨_, rfl, ?_⟩
    rintro t' ⟨⟩
    exact ⟨ht, by simp⟩
  | succ n ih =>
    unfold planLoop
    obtain ⟨begin, hbegin⟩ : ∃ begin, (c.range i).begin = begin := ⟨_, rfl⟩
    obtain ⟨stop, hstop⟩ : ∃ stop, (c.range i).end_ = stop := ⟨_, rfl⟩
    rw [hbegin, hstop]
    by_cases horder : begin ≥ stop ∨ stop > c.mapping_bytes ∨ (i ≠ 0 ∧ begin < (c.range (i - 1)).end_)
    · rw [if_pos horder]
      refine ⟨_, rfl, ?_⟩
      rintro t' ⟨⟩
    have hlt : begin.toNat < stop.toNat := by
      have hnot := (not_or.1 horder).1
      rw [ge_iff_le, UInt64.le_iff_toNat_le] at hnot
      omega
    have hle : stop.toNat ≤ c.mapping_bytes.toNat := by
      have hnot := (not_or.1 (not_or.1 horder).2).1
      rw [gt_iff_lt, UInt64.lt_iff_toNat_lt] at hnot
      omega
    have hsum_lt := ht.sum_lt
    obtain ⟨bytes, hbytes⟩ : ∃ bytes, stop.toNat - begin.toNat = bytes := ⟨_, rfl⟩
    rw [if_neg horder, sub_of_le hlt.le stop.toNat_lt, pure_bind, max_sub ht.sum_lt, pure_bind, hbytes]
    by_cases hleft : bytes > 2 ^ 64 - 1 - t.sum
    · rw [if_pos hleft]
      refine ⟨_, rfl, ?_⟩
      rintro t' ⟨⟩
    obtain ⟨eligible, heligible⟩ := immutableModel_pure
      (show c.mapping_base.toNat + begin.toNat + bytes < 2 ^ 64 by omega) (c.maps i)
    rw [if_neg hleft, add_of_lt (by omega), pure_bind, heligible, pure_bind]
    by_cases hnot : ¬ eligible
    · rw [if_pos hnot]
      refine ⟨_, rfl, ?_⟩
      rintro t' ⟨⟩
    rw [if_neg hnot, preflightCopyFits_eq (by omega), pure_bind]
    have hfits : decide (cap ≠ 0 ∧ t.entries < 4096 ∧ t.copied ≤ cap ∧ bytes ≤ cap - t.copied) = true →
        t.entries < 4096 ∧ t.copied + bytes ≤ cap := by
      intro hfits
      have hfits := of_decide_eq_true hfits
      omega
    obtain ⟨r, hr, hok⟩ := @Tally.Ok.place _ _ _ _ ht hcap (c.mapping_base.toNat + begin.toNat) bytes
      (by omega) _ hfits
    rw [hr, pure_bind]
    cases r with
    | error =>
      refine ⟨_, rfl, ?_⟩
      rintro t' ⟨⟩
    | ok t1 =>
      obtain ⟨ht1, hcandidate1⟩ := hok t1 rfl
      obtain ⟨r', hr', hok'⟩ := ih (i + 1) ht1
      refine ⟨r', hr', fun t' ht' => ?_⟩
      obtain ⟨ht'', hcandidate⟩ := hok' t' ht'
      refine ⟨ht'', ?_⟩
      have htarget : c.target i = (c.mapping_base.toNat + begin.toNat, bytes) := by
        unfold PreflightCall.target
        rw [hbegin, hstop, hbytes]
      rw [hcandidate, hcandidate1, map_append, List.range'_succ]
      simp [Planned.target, htarget]

/-- The state of an accepted plan, whose totals are those of the shim with those of the plan. -/
def Shim.withPlan (s : Shim) (planned : List Planned) : Shim :=
  { s with
    planned := planned
    planned_next := 0
    expected_copy := s.total + copySum planned
    expected_host := s.host_total + hostSum planned
    preflight_phase := s.preflight_phase + 1 }

theorem phaseShape_count (v2 : Bool) (phase : ℕ) : (phaseShape v2 phase).2.1 ≤ 252 := by
  unfold phaseShape
  split <;> decide

/-- The checks before the loop do not wrap. When none fails, the state may be planned, and the mapping and
the number of its ranges are in bounds. -/
theorem preflightFailure_pure (v2 : Bool) (s : Shim) (c : PreflightCall) :
    ∃ failure, preflightFailure v2 s c = pure failure ∧ (failure = none →
      s.preflight_poisoned = false ∧ c.mapping_base.toNat + c.mapping_bytes.toNat < 2 ^ 64 ∧
      c.range_count.toNat ≤ 252) := by
  unfold preflightFailure
  by_cases hstate : s.preflight_poisoned ∨ ¬ s.config_valid
  · exact ⟨some _, by rw [if_pos hstate], by simp⟩
  by_cases hphase : ¬ s.phaseReady v2
  · exact ⟨some _, by rw [if_neg hstate, if_pos hphase], by simp⟩
  rw [if_neg hstate, if_neg hphase, max_sub c.mapping_base.toNat_lt, pure_bind]
  by_cases hpointer : c.ranges = 0 ∨ c.host_required_bytes = 0 ∨ c.mapping_base = 0 ∨
      c.mapping_bytes.toNat > 2 ^ 64 - 1 - c.mapping_base.toNat
  · exact ⟨some _, by rw [if_pos hpointer], by simp⟩
  rw [if_neg hpointer]
  by_cases hshape : (c.mapping_bytes.toNat, c.range_count.toNat, c.aggregate_bytes.toNat) ≠
      phaseShape v2 s.preflight_phase
  · exact ⟨some _, by rw [if_pos hshape], by simp⟩
  have hcount : c.range_count.toNat ≤ 252 := by
    have hle := phaseShape_count v2 s.preflight_phase
    rw [← not_not.1 hshape] at hle
    exact hle
  have hmapping : c.mapping_base.toNat + c.mapping_bytes.toNat < 2 ^ 64 := by
    have hbase := c.mapping_base.toNat_lt
    simp only [not_or, gt_iff_lt, not_lt] at hpointer
    omega
  have htable : sub (2 ^ 64 - 1) (c.range_count.toNat * 16) =
      pure (2 ^ 64 - 1 - c.range_count.toNat * 16) := max_sub (by omega)
  have houtput : sub (2 ^ 64 - 1) 8 = pure (2 ^ 64 - 1 - 8) := max_sub (by omega)
  rw [if_neg hshape, mul_of_lt (by omega)]
  obtain ⟨tower, htower⟩ := towerMapped_pure v2 s c
  have hok : s.preflight_poisoned = false ∧ c.mapping_base.toNat + c.mapping_bytes.toNat < 2 ^ 64 ∧
      c.range_count.toNat ≤ 252 := ⟨by simpa using (not_or.1 hstate).1, hmapping, hcount⟩
  simp only [htower, pure_bind, htable, houtput]
  split_ifs
  · exact ⟨some _, rfl, by simp⟩
  · exact ⟨some _, rfl, by simp⟩
  · exact ⟨none, rfl, fun _ => hok⟩

/-- What `halogen_hybrid_preflight_v1` does: it poisons the shim, or accepts the plan of its ranges. -/
theorem preflight_pure (v2 : Bool) (h : Inv s) (c : PreflightCall) :
    ∃ r, halogenHybridPreflightV1 v2 s c = pure r ∧ Inv r.1 ∧
      (r = (s.reject, 1) ∨ s.preflight_poisoned = false ∧ ∃ planned,
        planned.map Planned.target = (List.range' 0 c.range_count.toNat).map c.target ∧
        r = (s.withPlan planned, 0)) := by
  unfold halogenHybridPreflightV1
  obtain ⟨failure, hfailure, hnone⟩ := preflightFailure_pure v2 s c
  rw [hfailure, pure_bind]
  cases failure with
  | some => exact ⟨_, rfl, h.reject, .inl rfl⟩
  | none =>
    obtain ⟨hpoison, hmapping, hcount⟩ := hnone rfl
    have hplan := h.plan hpoison
    have hstart : (⟨0, s.total, s.host_total, s.copies.length, 0, 0, []⟩ : Tally).Ok s.cap s.total
        s.host_total :=
      ⟨show 0 < 2 ^ 64 by omega, rfl, rfl, h.total_le, h.host_le, le_rfl, le_rfl, h.number⟩
    obtain ⟨r, hr, hok⟩ := planLoop_pure h.cap_le c hmapping c.range_count.toNat 0 hstart
    rw [hr, pure_bind]
    cases r with
    | error => exact ⟨_, rfl, h.reject, .inl rfl⟩
    | ok t =>
      dsimp only
      split_ifs with hfails
      · exact ⟨_, rfl, h.reject, .inl rfl⟩
      · obtain ⟨ht, hcandidate⟩ := hok t rfl
        have haccept : s.accept t = s.withPlan t.candidate := by
          unfold Shim.accept Shim.withPlan
          rw [ht.copied, ht.hosted]
        have hlen : t.candidate.length = c.range_count.toNat := by
          have hlen := congrArg List.length hcandidate
          simpa using hlen
        refine ⟨_, rfl, ?_, .inr ⟨hpoison, t.candidate, by simpa using hcandidate, by rw [haccept]⟩⟩
        rw [haccept]
        exact
          { h with
            next_le := Nat.zero_le _
            planned_le := hlen ▸ hcount
            plan := fun _ =>
              { hplan with
                copied := rfl
                hosted := rfl
                expected_copy := by
                  show s.total + copySum t.candidate ≤ s.cap
                  rw [← ht.copied]
                  exact ht.copied_le
                expected_host := by
                  show s.host_total + hostSum t.candidate ≤ hostCeiling
                  rw [← ht.hosted]
                  exact ht.host_le } }

/-! ## Registration -/

/-- The state after a range was copied. -/
def Shim.withCopy (s : Shim) (pointer device bytes : ℕ) : Shim :=
  { s with
    copies := s.copies ++ [⟨pointer, device, bytes⟩]
    total := s.total + bytes
    executed_copy := s.executed_copy + bytes
    planned_next := s.planned_next + 1 }

/-- The state after a range was registered with the driver. -/
def Shim.withHost (s : Shim) (bytes : ℕ) : Shim :=
  { s with
    host_total := s.host_total + bytes
    executed_host := s.executed_host + bytes
    planned_next := s.planned_next + 1 }

/-- The state fails a registration: it is poisoned, and no range and no total changes. -/
structure Shim.Fails (s s' : Shim) : Prop where
  poisoned : s'.preflight_poisoned
  copies : s'.copies = s.copies
  total : s'.total = s.total
  host_total : s'.host_total = s.host_total

/-- What a registration of a range does to the state, with its code. -/
inductive Registers (s : Shim) (pointer bytes : ℕ) : Shim × ℤ → Prop
  | fails {s' : Shim} {code : ℤ} (h : s.Fails s') (hcode : code ≠ 0) : Registers s pointer bytes (s', code)
  | copied (device : ℕ) (h : s.planned[s.planned_next]? = some ⟨pointer, bytes, true⟩) :
      Registers s pointer bytes (s.withCopy pointer device bytes, 0)
  | hosted (h : s.planned[s.planned_next]? = some ⟨pointer, bytes, false⟩) :
      Registers s pointer bytes (s.withHost bytes, 0)

/-- The part of a plan that is left before an entry is the entry and the part after it. -/
theorem drop_planned {p : Planned} (h : s.planned[s.planned_next]? = some p) :
    s.planned.drop s.planned_next = p :: s.planned.drop (s.planned_next + 1) := by
  obtain ⟨hlt, hp⟩ := List.getElem?_eq_some_iff.1 h
  rw [drop_eq_getElem_cons hlt, hp]

theorem copySum_cons (p : Planned) (ps : List Planned) :
    copySum (p :: ps) = (if p.copy then p.bytes else 0) + copySum ps := by
  cases hp : p.copy <;> simp [copySum, hp]

theorem hostSum_cons (p : Planned) (ps : List Planned) :
    hostSum (p :: ps) = (if p.copy then 0 else p.bytes) + hostSum ps := by
  cases hp : p.copy <;> simp [hostSum, hp]

/-- At the end of its plan, a state that is on its plan has the plan's totals. -/
theorem OnPlan.complete (h : OnPlan s) : s.complete = (s, 0) := by
  unfold Shim.complete
  rw [if_neg]
  rintro ⟨hend, hdiffer⟩
  have hcopied := h.copied
  have hhosted := h.hosted
  rw [hend, drop_length] at hcopied hhosted
  simp only [copySum, hostSum, filter_nil, map_nil, sum_nil] at hcopied hhosted
  omega

theorem OnPlan.withCopy (h : OnPlan s) {pointer bytes : ℕ} (device : ℕ)
    (hp : s.planned[s.planned_next]? = some ⟨pointer, bytes, true⟩) :
    OnPlan (s.withCopy pointer device bytes) := by
  have hcopied := h.copied
  have hhosted := h.hosted
  rw [drop_planned hp, copySum_cons, if_pos rfl] at hcopied
  rw [drop_planned hp, hostSum_cons, if_pos rfl] at hhosted
  dsimp only at hcopied hhosted
  refine { h with copied := ?_, hosted := ?_, executed_copy := ?_ }
  · show s.total + bytes + copySum (s.planned.drop (s.planned_next + 1)) = s.expected_copy
    omega
  · show s.host_total + hostSum (s.planned.drop (s.planned_next + 1)) = s.expected_host
    omega
  · show s.executed_copy + bytes = s.total + bytes
    rw [h.executed_copy]

theorem OnPlan.withHost (h : OnPlan s) {pointer bytes : ℕ}
    (hp : s.planned[s.planned_next]? = some ⟨pointer, bytes, false⟩) : OnPlan (s.withHost bytes) := by
  have hcopied := h.copied
  have hhosted := h.hosted
  rw [drop_planned hp, copySum_cons, if_neg (by simp)] at hcopied
  rw [drop_planned hp, hostSum_cons, if_neg (by simp)] at hhosted
  dsimp only at hcopied hhosted
  refine { h with copied := ?_, hosted := ?_, executed_host := ?_ }
  · show s.total + copySum (s.planned.drop (s.planned_next + 1)) = s.expected_copy
    omega
  · show s.host_total + bytes + hostSum (s.planned.drop (s.planned_next + 1)) = s.expected_host
    omega
  · show s.executed_host + bytes = s.host_total + bytes
    rw [h.executed_host]

theorem next_lt {p : Planned} (h : s.planned[s.planned_next]? = some p) :
    s.planned_next < s.planned.length :=
  (List.getElem?_eq_some_iff.1 h).1

theorem Inv.withCopy (h : Inv s) (hplan : OnPlan s) {pointer bytes : ℕ} (device : ℕ)
    (hp : s.planned[s.planned_next]? = some ⟨pointer, bytes, true⟩)
    (hrange : pointer + bytes < 2 ^ 64) (hnumber : s.copies.length < 4096)
    (hfits : s.total + bytes ≤ s.cap) (hfree : ∀ c ∈ s.copies, ¬ Meets pointer bytes c) :
    Inv (s.withCopy pointer device bytes) where
  __ := h
  apart := by
    refine pairwise_append.2 ⟨h.apart, pairwise_singleton _ _, fun c hc d hd => ?_⟩
    rw [mem_singleton.1 hd]
    have hnot := hfree c hc
    unfold Meets at hnot
    show c.host + c.bytes ≤ pointer ∨ pointer + bytes ≤ c.host
    omega
  bounded := by
    intro c hc
    rcases mem_append.1 hc with hc | hc
    · exact h.bounded c hc
    · rw [mem_singleton.1 hc]
      exact hrange
  number := by
    show (s.copies ++ [_]).length ≤ 4096
    rw [length_append, length_singleton]
    omega
  total := by
    show s.total + bytes = ((s.copies ++ [_]).map Entry.bytes).sum
    rw [h.total]
    simp
  total_le := hfits
  next_le := next_lt hp
  plan _ := hplan.withCopy device hp

theorem Inv.withHost (h : Inv s) (hplan : OnPlan s) {pointer bytes : ℕ}
    (hp : s.planned[s.planned_next]? = some ⟨pointer, bytes, false⟩) : Inv (s.withHost bytes) :=
  { h with
    host_le := by
      have hnext := (hplan.withHost hp).hosted
      have hceiling := hplan.expected_host
      show s.host_total + bytes ≤ hostCeiling
      have hsum : s.host_total + bytes + hostSum (s.planned.drop (s.planned_next + 1)) = s.expected_host :=
        hnext
      omega
    next_le := next_lt hp
    plan := fun _ => hplan.withHost hp }

theorem Shim.fails_reject (s : Shim) : s.Fails s.reject := ⟨rfl, rfl, rfl, rfl⟩

theorem Shim.fails_failCopy (s : Shim) (e : RegisterEnv) (pointer bytes : ℕ) :
    s.Fails (s.failCopy e pointer bytes) := by
  unfold Shim.failCopy
  split_ifs
  · exact ⟨rfl, rfl, rfl, rfl⟩
  · exact s.fails_reject

theorem Inv.failCopy (h : Inv s) (e : RegisterEnv) (pointer bytes : ℕ) : Inv (s.failCopy e pointer bytes) := by
  have hpoison := (s.fails_failCopy e pointer bytes).poisoned
  unfold Shim.failCopy at hpoison ⊢
  split_ifs
  · exact { h.reject with plan := fun hclean => by simp [Shim.reject] at hclean }
  · exact h.reject

/-- The end of a copy. -/
theorem preflightAdvance_copied (h : Inv s) (hplan : OnPlan s) {pointer bytes : ℕ} (device : ℕ)
    (hp : s.planned[s.planned_next]? = some ⟨pointer, bytes, true⟩) (hfits : s.total + bytes ≤ s.cap) :
    preflightAdvance { s with copies := s.copies ++ [⟨pointer, device, bytes⟩], total := s.total + bytes }
      true bytes = pure (s.withCopy pointer device bytes, 0) := by
  have hexecuted := hplan.executed_copy
  have hcap := h.cap_le
  have hnext := h.next_le
  have hplanned := h.planned_le
  unfold preflightAdvance
  rw [if_pos rfl, add_of_lt (show s.executed_copy + bytes < 2 ^ 64 by omega), pure_bind,
    add_of_lt (show s.planned_next + 1 < 2 ^ 64 by omega), pure_bind]
  exact congrArg pure (hplan.withCopy device hp).complete

/-- The end of a registration with the driver. -/
theorem preflightAdvance_hosted (h : Inv s) (hplan : OnPlan s) {pointer bytes : ℕ}
    (hp : s.planned[s.planned_next]? = some ⟨pointer, bytes, false⟩) :
    preflightAdvance s false bytes = pure (s.withHost bytes, 0) := by
  have hhost : s.host_total + bytes ≤ hostCeiling := (h.withHost hplan hp).host_le
  have hceiling : hostCeiling = 25769803776 := rfl
  have hexecuted := hplan.executed_host
  have hnext := h.next_le
  have hplanned := h.planned_le
  unfold preflightAdvance
  rw [if_neg (by simp), add_of_lt (show s.host_total + bytes < 2 ^ 64 by omega), pure_bind,
    add_of_lt (show s.executed_host + bytes < 2 ^ 64 by omega), pure_bind,
    add_of_lt (show s.planned_next + 1 < 2 ^ 64 by omega), pure_bind]
  exact congrArg pure (hplan.withHost hp).complete

/-- The copy of the next range of the plan, which fits and meets no recorded one. -/
theorem copyRange_pure (h : Inv s) (hplan : OnPlan s) (e : RegisterEnv) {pointer bytes : ℕ}
    (hp : s.planned[s.planned_next]? = some ⟨pointer, bytes, true⟩)
    (hrange : pointer + bytes < 2 ^ 64) (hnumber : s.copies.length < 4096)
    (hfits : s.total + bytes ≤ s.cap) (hfree : ∀ c ∈ s.copies, ¬ Meets pointer bytes c) :
    ∃ r, copyRange v2 s e pointer bytes = pure r ∧ Inv r.1 ∧ Registers s pointer bytes r := by
  have hkb := (e.meminfo 0).small
  have hcap := h.cap_le
  have hreject : ∀ code : ℤ, code ≠ 0 → Inv s.reject ∧ Registers s pointer bytes (s.reject, code) :=
    fun code hcode => ⟨h.reject, .fails s.fails_reject hcode⟩
  unfold copyRange
  rw [available_eq, pure_bind]
  by_cases hfree_host : (e.meminfo 0).kb * 1024 < reserve
  · rw [if_pos hfree_host]
    exact ⟨_, rfl, hreject 2 (by decide)⟩
  rw [if_neg hfree_host, sub_of_le (by omega) (by omega), pure_bind]
  by_cases hdemand : (if v2 then min bytes transferChunk else bytes) > (e.meminfo 0).kb * 1024 - reserve
  · rw [if_pos hdemand]
    exact ⟨_, rfl, hreject 2 (by decide)⟩
  rw [if_neg hdemand]
  by_cases hsymbols : ¬ e.symbols
  · rw [if_pos hsymbols]
    exact ⟨_, rfl, hreject 999 (by decide)⟩
  obtain ⟨result, hresult⟩ := upload_pure v2 s e hrange
  rw [if_neg hsymbols, hresult, pure_bind]
  by_cases hcode : result = 0
  · rw [if_pos hcode, add_of_lt (by omega), pure_bind]
    dsimp only
    rw [reclaimRange_eq v2 _ e hrange, pure_bind, preflightAdvance_copied h hplan _ hp hfits]
    exact ⟨_, rfl, h.withCopy hplan _ hp hrange hnumber hfits hfree, .copied _ hp⟩
  · rw [if_neg hcode]
    exact ⟨_, rfl, h.failCopy e _ _, .fails (s.fails_failCopy e _ _) hcode⟩

/-- What `hipHostRegister` does. It succeeds only for the next entry of the plan of a state that is not
poisoned, and poisons the state otherwise. -/
theorem register_pure (v2 : Bool) (h : Inv s) (e : RegisterEnv) (host bytes : UInt64) (flags : ℕ) :
    ∃ r, hipHostRegister v2 s e host bytes flags = pure r ∧ Inv r.1 ∧
      Registers s host.toNat bytes.toNat r ∧
      (s.preflight_poisoned ∨ s.preflight_phase = 0 → s.Fails r.1 ∧ r.2 ≠ 0) := by
  unfold hipHostRegister
  dsimp only
  rw [max_sub bytes.toNat_lt, pure_bind]
  obtain ⟨pointer, hpointer⟩ : ∃ pointer, host.toNat = pointer := ⟨_, rfl⟩
  obtain ⟨size, hsize⟩ : ∃ size, bytes.toNat = size := ⟨_, rfl⟩
  have hsize_lt : size < 2 ^ 64 := hsize ▸ bytes.toNat_lt
  rw [hpointer, hsize]
  cases hmay : s.mayRegister e pointer size flags (2 ^ 64 - 1 - size) with
  | none =>
    exact ⟨_, rfl, h.reject, .fails s.fails_reject (by decide), fun _ =>
      ⟨s.fails_reject, show (1 : ℤ) ≠ 0 by decide⟩⟩
  | some p =>
    unfold Shim.mayRegister at hmay
    split_ifs at hmay with hstate
    simp only [not_or, Bool.not_eq_true, gt_iff_lt, not_lt, Option.filter_eq_some_iff] at hstate hmay
    obtain ⟨hpoison, -, hnext, hphase, -, -, hlimit, -⟩ := hstate
    obtain ⟨hp, htarget⟩ := hmay
    have hplan := h.plan hpoison
    have hrange : pointer + size < 2 ^ 64 := by omega
    have hclean : ∀ r : Shim × ℤ, s.preflight_poisoned ∨ s.preflight_phase = 0 →
        s.Fails r.1 ∧ r.2 ≠ 0 := fun r hor => absurd hor (by simp [hpoison, hphase])
    have hreject : Inv s.reject ∧ Registers s pointer size (s.reject, 1) ∧ _ :=
      ⟨h.reject, .fails s.fails_reject (by decide), hclean (s.reject, 1)⟩
    obtain ⟨immutable, himmutable⟩ := registerImmutable_pure v2 s e hrange
    dsimp only
    rw [overlaps_eq hrange h.bounded, pure_bind]
    by_cases hmeets : ∃ c ∈ s.copies, Meets pointer size c
    · rw [decide_eq_true hmeets, if_pos rfl]
      exact ⟨_, rfl, hreject⟩
    rw [decide_eq_false hmeets, if_neg (by simp), himmutable, pure_bind, preflightCopyFits_eq h.cap_lt,
      pure_bind]
    obtain ⟨fits, hfits⟩ : ∃ b, decide (s.cap ≠ 0 ∧ s.copies.length < 4096 ∧ s.total ≤ s.cap ∧
        size ≤ s.cap - s.total) = b := ⟨_, rfl⟩
    rw [hfits]
    by_cases hdrift : ¬ immutable ∨ (fits && immutable) ≠ p.copy
    · rw [if_pos hdrift]
      exact ⟨_, rfl, hreject⟩
    rw [if_neg hdrift]
    have hentry : p = ⟨pointer, size, p.copy⟩ := by
      obtain ⟨ptr, sz, copy⟩ := p
      simp only [decide_eq_true_eq] at htarget
      obtain ⟨rfl, rfl⟩ := htarget
      rfl
    rw [hentry] at hp
    cases hcopy : p.copy with
    | true =>
      rw [hcopy] at hp
      have hfit : fits := by
        simp only [hcopy, not_or, not_not] at hdrift
        exact (Bool.and_eq_true_iff.1 hdrift.2).1
      have hbounds := of_decide_eq_true (hfits.trans hfit)
      rw [if_pos rfl]
      obtain ⟨r, hr, hinv, hregisters⟩ := @copyRange_pure v2 s h hplan e pointer size hp hrange hbounds.2.1
        (by omega) fun c hc hmeet => hmeets ⟨c, hc, hmeet⟩
      exact ⟨r, hr, hinv, hregisters, hclean r⟩
    | false =>
      rw [hcopy] at hp
      rw [if_neg (by simp)]
      by_cases hdriver : e.next = some 0
      · rw [if_pos hdriver, preflightAdvance_hosted h hplan hp]
        exact ⟨_, rfl, h.withHost hplan hp, .hosted hp, hclean _⟩
      · rw [if_neg hdriver]
        have hcode : e.next.getD 999 ≠ 0 := by
          intro hzero
          cases hn : e.next with
          | none => simp [hn] at hzero
          | some =>
            rw [hn, Option.getD_some] at hzero
            exact hdriver (by rw [hn, hzero])
        exact ⟨_, rfl, h.reject, .fails s.fails_reject hcode, hclean _⟩

/-! ## Device pointers and unregistration -/

theorem cleaning_pure {pointer : ℕ} (h : pointer < 2 ^ 64) (pending : Option Entry) :
    ∃ b, cleaning pointer pending = pure b := by
  cases pending with
  | none => exact ⟨false, rfl⟩
  | some c =>
    unfold cleaning
    dsimp only
    by_cases hhost : pointer ≥ c.host
    · exact ⟨_, by rw [if_pos hhost, sub_of_le hhost h, pure_bind]⟩
    · exact ⟨false, by rw [if_neg hhost]⟩

/-- A pointer that is translated lies in a recorded range, and is translated at its offset in it. -/
theorem translate_pure {pointer : ℕ} (h : pointer < 2 ^ 64) (flags : ℕ) (copies : List Entry) :
    ∃ a, translate pointer flags copies = pure a ∧ ∀ d, a = .translated d →
      ∃ c ∈ copies, c.host ≤ pointer ∧ pointer < c.host + c.bytes ∧ d = c.device + (pointer - c.host) := by
  induction copies with
  | nil => exact ⟨_, rfl, by rintro d ⟨⟩⟩
  | cons c cs ih =>
    obtain ⟨a, ha, hfound⟩ := ih
    have hrest : ∀ d, a = .translated d → ∃ c' ∈ c :: cs, c'.host ≤ pointer ∧
        pointer < c'.host + c'.bytes ∧ d = c'.device + (pointer - c'.host) := by
      intro d hd
      obtain ⟨c', hc', hin⟩ := hfound d hd
      exact ⟨c', mem_cons_of_mem _ hc', hin⟩
    unfold translate
    by_cases hhost : pointer ≥ c.host
    · rw [if_pos hhost, sub_of_le hhost h, pure_bind]
      by_cases hbytes : pointer - c.host < c.bytes
      · rw [if_pos hbytes]
        split_ifs
        · exact ⟨_, rfl, by rintro d ⟨⟩⟩
        · refine ⟨_, rfl, ?_⟩
          rintro d ⟨⟩
          exact ⟨c, mem_cons_self, hhost, by omega, rfl⟩
      · rw [if_neg hbytes]
        exact ⟨a, ha, hrest⟩
    · rw [if_neg hhost]
      exact ⟨a, ha, hrest⟩

theorem getDevicePointer_pure (s : Shim) (output : Bool) (host : UInt64) (flags : ℕ) :
    ∃ a, hipHostGetDevicePointer s output host flags = pure a ∧ ∀ d, a = .translated d →
      ∃ c ∈ s.copies, c.host ≤ host.toNat ∧ host.toNat < c.host + c.bytes ∧
        d = c.device + (host.toNat - c.host) := by
  unfold hipHostGetDevicePointer
  by_cases houtput : ¬ output
  · exact ⟨_, by rw [if_pos houtput], by rintro d ⟨⟩⟩
  obtain ⟨pending, hpending⟩ := cleaning_pure host.toNat_lt s.cleanup_pending
  rw [if_neg houtput, hpending, pure_bind]
  split_ifs
  · exact ⟨_, rfl, by rintro d ⟨⟩⟩
  · exact translate_pure host.toNat_lt flags s.copies

/-- The last entry takes the place of the removed one. -/
theorem swapRemove_perm {copies : List Entry} {i : ℕ} (h : i < copies.length) :
    (swapRemove copies i).Perm (copies.eraseIdx i) := by
  rcases eq_nil_or_concat copies with rfl | ⟨front, last, rfl⟩
  · simp at h
  rw [concat_eq_append] at h ⊢
  unfold swapRemove
  rw [List.getLast?_concat]
  dsimp only
  rw [length_append, length_singleton] at h
  by_cases hlast : i = front.length
  · subst hlast
    rw [set_append_right _ _ (le_refl _), eraseIdx_append_of_length_le (le_refl _)]
    simp
  · have hlt : i < front.length := by omega
    rw [set_append_left _ _ hlt, dropLast_concat, eraseIdx_append_of_lt_length hlt,
      set_eq_take_append_cons_drop, if_pos hlt, eraseIdx_eq_take_drop_succ, append_assoc]
    have hswap : ([last] ++ front.drop (i + 1)).Perm (front.drop (i + 1) ++ [last]) :=
      perm_append_comm
    exact hswap.append_left _

/-- A recorded range is removed with its bytes. -/
theorem Inv.remove (h : Inv s) {i : ℕ} {c : Entry} (hc : s.copies[i]? = some c) :
    c.bytes ≤ s.total ∧ Inv { s.reject with copies := swapRemove s.copies i, total := s.total - c.bytes } := by
  obtain ⟨hlt, hget⟩ := List.getElem?_eq_some_iff.1 hc
  have hperm := swapRemove_perm hlt
  have hsub : (s.copies.eraseIdx i).Sublist s.copies := eraseIdx_sublist _ _
  have hsum : c.bytes + ((swapRemove s.copies i).map Entry.bytes).sum = s.total := by
    have hcons : (c :: s.copies.eraseIdx i).Perm s.copies := hget ▸ getElem_cons_eraseIdx_perm hlt
    rw [(hperm.map _).sum_eq, h.total, ← (hcons.map _).sum_eq, map_cons, sum_cons]
  refine ⟨by omega, ?_⟩
  exact
    { h.reject with
      apart := (hperm.pairwise_iff Entry.Apart.symm).2 (h.apart.sublist hsub)
      bounded := fun d hd => h.bounded d (hsub.subset (hperm.mem_iff.1 hd))
      number := by
        have hle := hsub.length_le
        rw [← hperm.length_eq] at hle
        exact hle.trans h.number
      total := by
        show s.total - c.bytes = ((swapRemove s.copies i).map Entry.bytes).sum
        omega
      total_le := (Nat.sub_le _ _).trans h.total_le
      plan := fun hclean => by simp [Shim.reject] at hclean }

/-- An unregistration poisons the state, whatever becomes of its range. -/
theorem unregister_pure (h : Inv s) (host : UInt64) (release : Option ℤ) :
    ∃ r, hipHostUnregister s host release = pure r ∧ Inv r.1 ∧ r.1.preflight_poisoned := by
  have hreject := h.reject
  unfold hipHostUnregister
  by_cases hpending : s.reject.cleanup_pending.any fun c => c.host = host.toNat
  · rw [if_pos hpending]
    refine ⟨_, rfl, ?_⟩
    split_ifs
    · exact ⟨{ hreject with plan := fun hclean => by simp [Shim.reject] at hclean }, rfl⟩
    · exact ⟨hreject, rfl⟩
  rw [if_neg hpending]
  unfold unregisterCopy
  cases hfind : s.reject.copies.findIdx? fun c => c.host = host.toNat with
  | none => exact ⟨_, rfl, hreject, rfl⟩
  | some i =>
    dsimp only
    by_cases hrelease : release = some 0
    · obtain ⟨hlt, -⟩ := List.findIdx?_eq_some_iff_findIdx_eq.1 hfind
      obtain ⟨c, hc⟩ : ∃ c, s.copies[i]? = some c := ⟨_, List.getElem?_eq_getElem hlt⟩
      obtain ⟨hle, hinv⟩ := h.remove hc
      have htotal : s.reject.total < 2 ^ 64 := h.total_le.trans_lt h.cap_lt
      have hbytes : (s.reject.copies[i]?.map Entry.bytes).getD 0 = c.bytes := by
        show (s.copies[i]?.map Entry.bytes).getD 0 = _
        rw [hc]
        rfl
      have hremaining : sub s.reject.total c.bytes = pure (s.total - c.bytes) := sub_of_le hle htotal
      rw [if_pos hrelease, hbytes, hremaining, pure_bind]
      exact ⟨_, rfl, hinv, rfl⟩
    · rw [if_neg hrelease]
      exact ⟨_, rfl, hreject, rfl⟩

/-! ## Runs -/

@[simp]
theorem once_preflight_poisoned : (s.once v2 getenv).preflight_poisoned = s.preflight_poisoned := by
  unfold Shim.once
  split_ifs <;> rfl

@[simp]
theorem once_preflight_phase : (s.once v2 getenv).preflight_phase = s.preflight_phase := by
  unfold Shim.once
  split_ifs <;> rfl

@[simp]
theorem once_planned : (s.once v2 getenv).planned = s.planned := by
  unfold Shim.once
  split_ifs <;> rfl

@[simp]
theorem once_planned_next : (s.once v2 getenv).planned_next = s.planned_next := by
  unfold Shim.once
  split_ifs <;> rfl

/-- A call does not wrap, keeps the invariant, and leaves a poisoned state poisoned. -/
theorem call_pure (v2 : Bool) (getenv : String → Option String) (h : Inv s) (c : Call) :
    ∃ s', call v2 getenv s c = pure s' ∧ Inv s' ∧
      (s.preflight_poisoned → s'.preflight_poisoned) := by
  have honce : Inv (s.once v2 getenv) := h.once
  cases c with
  | preflight c =>
    obtain ⟨r, hr, hinv, hdoes⟩ := preflight_pure v2 honce c
    refine ⟨r.1, by rw [call, hr, map_pure], hinv, fun hpoison => ?_⟩
    rcases hdoes with rfl | ⟨hclean, -⟩
    · rfl
    · simp [hpoison] at hclean
  | register e host bytes flags =>
    obtain ⟨r, hr, hinv, -, hfails⟩ := register_pure v2 honce e host bytes flags
    refine ⟨r.1, by rw [call, hr, map_pure], hinv, fun hpoison => ?_⟩
    exact (hfails (.inl (by simpa using hpoison))).1.poisoned
  | getDevicePointer output host flags =>
    obtain ⟨a, ha, -⟩ := getDevicePointer_pure s output host flags
    exact ⟨s, by rw [call, ha, map_pure], h, id⟩
  | unregister host release =>
    obtain ⟨r, hr, hinv, hpoison⟩ := unregister_pure h host release
    exact ⟨r.1, by rw [call, hr, map_pure], hinv, fun _ => hpoison⟩

/-- The invariant of a run: no operation so far wrapped. -/
def Exact (r : Shim × Bool) : Prop := Inv r.1 ∧ r.2 = false

theorem Exact.step {r : Shim × Bool} (h : Exact r) (c : Call) : Exact (step v2 getenv r c) := by
  obtain ⟨s', hs', hinv, -⟩ := call_pure v2 getenv h.1 c
  unfold HostRegister.step
  rw [hs']
  exact ⟨hinv, h.2⟩

theorem exact_run (v2 : Bool) (getenv : String → Option String) (calls : List Call) {r : Shim × Bool}
    (h : Exact r) : Exact (run (step v2 getenv) r calls) :=
  run_invariant (fun _ c h => h.step c) calls h

/-- Poison is irreversible. -/
theorem poisoned_run (calls : List Call) {r : Shim × Bool} (h : Exact r)
    (hpoison : r.1.preflight_poisoned) :
    (run (step v2 getenv) r calls).1.preflight_poisoned := by
  refine (run_invariant (P := fun r => Exact r ∧ r.1.preflight_poisoned = true) ?_ calls
    ⟨h, hpoison⟩).2
  rintro r c ⟨h, hpoison⟩
  refine ⟨h.step c, ?_⟩
  obtain ⟨s', hs', -, hstays⟩ := call_pure v2 getenv h.1 c
  unfold HostRegister.step
  rw [hs']
  exact hstays hpoison

/-- A registration with the code 0 is the next entry of the plan of a clean state, and when it is the last
one the totals are the plan's. -/
theorem register_succeeds (h : Inv s) {e : RegisterEnv} {host bytes : UInt64} {flags : ℕ} {s' : Shim}
    (hr : hipHostRegister v2 s e host bytes flags = pure (s', 0)) :
    s.preflight_poisoned = false ∧ s.preflight_phase ≠ 0 ∧
      (∃ p, s.planned[s.planned_next]? = some p ∧ p.target = (host.toNat, bytes.toNat)) ∧
      s'.planned = s.planned ∧ s'.planned_next = s.planned_next + 1 ∧
      (s'.planned_next = s'.planned.length →
        s'.total = s'.expected_copy ∧ s'.host_total = s'.expected_host) := by
  obtain ⟨r, hr', hinv, hregisters, hfails⟩ := register_pure v2 h e host bytes flags
  obtain rfl : (s', 0) = r := congrArg Prod.fst (congrFun (hr.symm.trans hr') false)
  have hclean : ¬ (s.preflight_poisoned ∨ s.preflight_phase = 0) := fun hor => (hfails hor).2 rfl
  have hpoison : s.preflight_poisoned = false := by simpa using (not_or.1 hclean).1
  -- at its end a plan has nothing left to copy or to register
  have hend : ∀ s' : Shim, OnPlan s' → s'.planned_next = s'.planned.length →
      s'.total = s'.expected_copy ∧ s'.host_total = s'.expected_host := by
    intro s' hplan hlast
    have hcopied := hplan.copied
    have hhosted := hplan.hosted
    rw [hlast, drop_length] at hcopied hhosted
    exact ⟨hcopied, hhosted⟩
  refine ⟨hpoison, (not_or.1 hclean).2, ?_⟩
  cases hregisters with
  | fails hfail hcode => exact absurd rfl hcode
  | copied device hp =>
    exact ⟨⟨_, hp, rfl⟩, rfl, rfl, hend _ ((h.plan hpoison).withCopy device hp)⟩
  | hosted hp => exact ⟨⟨_, hp, rfl⟩, rfl, rfl, hend _ ((h.plan hpoison).withHost hp)⟩

/-- The law of the shim. After any calls, with any arguments and any answers from outside, no operation on an
address or a size has wrapped. The recorded ranges are disjoint and at most 4096, the totals count them
and stay under their ceilings. A plan that is accepted is that of its ranges, and its totals are those of
the shim with those of the plan. A registration succeeds only as the next entry of the plan of a clean state,
and the last one of a plan reaches its totals; once the state is poisoned, every later one fails and
records nothing. A device pointer is translated only inside one recorded range. -/
theorem registration_law (v2 : Bool) (getenv : String → Option String) (calls : List Call) :
    let r := run (step v2 getenv) (Shim.init, false) calls
    let s := r.1
    r.2 = false ∧
    s.copies.Pairwise Entry.Apart ∧ s.copies.length ≤ 4096 ∧
    s.total = (s.copies.map Entry.bytes).sum ∧ s.total ≤ s.cap ∧ s.host_total ≤ hostCeiling ∧
    (∀ c s', halogenHybridPreflightV1 v2 (s.once v2 getenv) c = pure (s', 0) → ∃ planned,
      planned.map Planned.target = (List.range' 0 c.range_count.toNat).map c.target ∧
      s'.planned = planned ∧ s'.planned_next = 0 ∧ s'.preflight_phase = s.preflight_phase + 1 ∧
      s'.expected_copy = s'.total + copySum planned ∧
      s'.expected_host = s'.host_total + hostSum planned) ∧
    (∀ e host bytes flags s',
      hipHostRegister v2 (s.once v2 getenv) e host bytes flags = pure (s', 0) →
      s.preflight_poisoned = false ∧ s.preflight_phase ≠ 0 ∧
      (∃ p, s.planned[s.planned_next]? = some p ∧ p.target = (host.toNat, bytes.toNat)) ∧
      s'.planned = s.planned ∧ s'.planned_next = s.planned_next + 1 ∧
      (s'.planned_next = s'.planned.length →
        s'.total = s'.expected_copy ∧ s'.host_total = s'.expected_host)) ∧
    (s.preflight_poisoned → ∀ more e host bytes flags,
      let s₁ := (run (step v2 getenv) r more).1.once v2 getenv
      ∃ s' code, hipHostRegister v2 s₁ e host bytes flags = pure (s', code) ∧ code ≠ 0 ∧ s₁.Fails s') ∧
    ∀ output host flags d, hipHostGetDevicePointer s output host flags = pure (.translated d) →
      ∃ c ∈ s.copies, c.host ≤ host.toNat ∧ host.toNat < c.host + c.bytes ∧
        d = c.device + (host.toNat - c.host) := by
  intro r s
  have hexact : Exact r := exact_run v2 getenv calls ⟨inv_init, rfl⟩
  obtain ⟨hinv, hwrapped⟩ := hexact
  have honce : Inv (s.once v2 getenv) := hinv.once
  refine ⟨hwrapped, hinv.apart, hinv.number, hinv.total, hinv.total_le, hinv.host_le, ?_, ?_, ?_, ?_⟩
  · intro c s' hc
    obtain ⟨r', hr', -, hdoes⟩ := preflight_pure v2 honce c
    obtain rfl : (s', 0) = r' := congrArg Prod.fst (congrFun (hc.symm.trans hr') false)
    rcases hdoes with heq | ⟨-, planned, htarget, heq⟩
    · exact absurd (congrArg Prod.snd heq) (show (0 : ℤ) ≠ 1 by decide)
    · obtain rfl : s' = (s.once v2 getenv).withPlan planned := congrArg Prod.fst heq
      exact ⟨planned, htarget, rfl, rfl, by simp [Shim.withPlan], rfl, rfl⟩
  · intro e host bytes flags s' hr
    have hsucceeds := register_succeeds honce hr
    simp only [once_preflight_poisoned, once_preflight_phase, once_planned, once_planned_next] at hsucceeds
    exact hsucceeds
  · intro hpoison more e host bytes flags s₁
    have hlater : Exact (run (step v2 getenv) r more) := exact_run v2 getenv more ⟨hinv, hwrapped⟩
    have hstays : s₁.preflight_poisoned := by
      rw [once_preflight_poisoned]
      exact poisoned_run more ⟨hinv, hwrapped⟩ hpoison
    have hinv₁ : Inv s₁ := hlater.1.once
    obtain ⟨⟨s', code⟩, hr, -, -, hfails⟩ := register_pure v2 hinv₁ e host bytes flags
    obtain ⟨hfail, hcode⟩ := hfails (.inl hstays)
    exact ⟨s', code, hr, hcode, hfail⟩
  · intro output host flags d hd
    obtain ⟨a, ha, hfound⟩ := getDevicePointer_pure s output host flags
    obtain rfl : .translated d = a := congrArg Prod.fst (congrFun (hd.symm.trans ha) false)
    exact hfound d rfl

/-! ## The first plan of a checkpoint -/

/-- The opt-ins of the launch. -/
def optIns : String → Option String
  | "HALOGEN_PREFLIGHT_PROFILE" => some (profile true)
  | "HALOGEN_HYBRID_COPY_BYTES" => some (copyCapText true)
  | "HALOGEN_HYBRID_RECLAIM_COPY" => some "1"
  | "HALOGEN_HYBRID_PROFILE" => some (allocationProfile true)
  | _ => none

/-- The weights of a checkpoint, mapped at 4 GiB. -/
def weights : PreflightCall where
  mapping_base := 0x100000000
  mapping_bytes := 66687678432
  ranges := 4096
  range_count := 1
  aggregate_bytes := 66687358944
  host_required_bytes := 8192
  range _ := ⟨319488, 66687678432⟩
  maps _ := [⟨0x100000000, 0x100000000 + 66687678432, "r--p", 0, (8, 1), 7, "/models/model.hgn"⟩]
  vision := ⟨none, []⟩

example :
    let s := (run (step true optIns) (Shim.init, false) [.preflight weights]).1
    s.preflight_phase = 1 ∧ s.planned = [⟨0x100000000 + 319488, 66687358944, true⟩] ∧
      s.expected_copy = 66687358944 ∧ s.expected_host = 0 := by
  decide +kernel

end StrixAlloy.HostRegister

import StrixAlloy.PagePhase.Invariant

/-!
# The steps of a call keep the invariant

Most steps of a call change only where it is (`Inv.quiet`); each operation on a shared word has its
lemma.
-/

namespace StrixAlloy.PagePhase

open State List

/-! ## Calls in the list -/

section Calls

variable {l : List Pc} {i : ℕ} {pc : Pc} (hi : l[i]? = some pc) (pc' : Pc)
include hi

theorem countP_set (f : Pc → Bool) :
    (l.set i pc').countP f + (f pc).toNat = l.countP f + (f pc').toNat := by
  induction l generalizing i with
  | nil => cases hi
  | cons a l ih =>
    cases i with
    | zero =>
      obtain rfl : a = pc := by simpa using hi
      rw [set_cons_zero, countP_cons, countP_cons]
      cases f a <;> cases f pc' <;> simp
    | succ =>
      have := ih (by simpa using hi)
      rw [set_cons_succ, countP_cons, countP_cons]
      omega

theorem countP_pos (f : Pc → Bool) (h : f pc) : 0 < l.countP f :=
  countP_pos_iff.2 ⟨pc, mem_of_getElem? hi, h⟩

theorem getElem?_set_of {j : ℕ} {q : Pc} (h : (l.set i pc')[j]? = some q) :
    j = i ∧ q = pc' ∨ j ≠ i ∧ l[j]? = some q := by
  rcases Nat.decEq j i with hne | rfl
  · right
    rw [List.getElem?_set_ne (Ne.symm hne)] at h
    exact ⟨hne, h⟩
  · left
    rw [List.getElem?_set_self (List.getElem?_eq_some_iff.1 hi).1] at h
    exact ⟨rfl, (Option.some.inj h).symm⟩

/-- Another call is still there, and the call itself has moved. -/
theorem mem_set_of {q : Pc} (h : q ∈ l) : q = pc ∨ q ∈ l.set i pc' := by
  obtain ⟨j, hj⟩ := mem_iff_getElem?.1 h
  rcases Nat.decEq j i with hne | rfl
  · right
    refine mem_of_getElem? (i := j) ?_
    rw [List.getElem?_set_ne (Ne.symm hne)]
    exact hj
  · left
    exact Option.some.inj (hj.symm.trans hi)

theorem mem_set_self : pc' ∈ l.set i pc' := by
  refine mem_of_getElem? (i := i) ?_
  rw [List.getElem?_set_self (List.getElem?_eq_some_iff.1 hi).1]

end Calls

/-! ## Steps of a call -/

section Step

variable {s t : State} {i : ℕ} {pc pc' : Pc}

/-- The facts after a step of the call `i`. -/
theorem facts_set (h : Inv s) (l : Later s t) (hc : t.calls = s.calls.set i pc')
    (hf : t.Fact (t.failure ≠ .none) pc') : ∀ q ∈ t.calls, t.Fact (t.failure ≠ .none) q := by
  intro q hq
  rw [hc] at hq
  rcases mem_or_eq_of_mem_set hq with hq | rfl
  · exact l.fact l.failure (h.facts q hq)
  · exact hf

/-- The pages after a step of the call `i`, where it took none. -/
theorem pages_set (h : Inv s) (hi : s.calls[i]? = some pc) (l : Later s t)
    (hc : t.calls = s.calls.set i pc') (hcursor : t.page_cursor = s.page_cursor)
    (hp : ∀ n, pc.breaks ∨ pc.page = some n →
      t.failure ≠ .none ∨ pc'.breaks ∨ pc'.page = some n ∨ t.Done n) :
    ∀ page < t.page_cursor, page < t.plan.pageCount → t.failure ≠ .none ∨
      (∃ q ∈ t.calls, q.breaks ∨ q.page = some page) ∨ t.Done page := by
  intro page hlt hpage
  rw [hcursor] at hlt
  have hpub := h.pages.cursor (Nat.lt_of_le_of_lt (Nat.zero_le _) hlt)
  rw [l.plan hpub.2] at hpage
  rcases h.pages.pages page hlt hpage with hf | ⟨q, hq, hb⟩ | hd
  · exact .inl (l.failure hf)
  · rcases mem_set_of hi pc' hq with rfl | hmem
    · rcases hp page hb with hf | hb | hpg | hd
      · exact .inl hf
      · exact .inr (.inl ⟨pc', by rw [hc]; exact mem_set_self hi pc', .inl hb⟩)
      · exact .inr (.inl ⟨pc', by rw [hc]; exact mem_set_self hi pc', .inr hpg⟩)
      · exact .inr (.inr hd)
    · exact .inr (.inl ⟨q, by rw [hc]; exact hmem, hb⟩)
  · exact .inr (.inr (l.done hpub hd))

/-- Who took the pages after a step of the call `i`, where it took none. -/
theorem owner_set (h : Inv s) (hi : s.calls[i]? = some pc) (hc : t.calls = s.calls.set i pc')
    (ht : t.taken = s.taken) (hpage : ∀ n, pc'.page = some n → pc.page = some n) :
    ∀ j q page, t.calls[j]? = some q → q.page = some page → (page, j) ∈ t.taken := by
  intro j q page hq hp
  rw [hc] at hq
  rw [ht]
  rcases getElem?_set_of hi pc' hq with ⟨rfl, rfl⟩ | ⟨-, hq⟩
  · exact h.pages.owner j pc page hi (hpage page hp)
  · exact h.pages.owner j q page hq hp

/-- What the counts depend on is left alone, apart from a failure. -/
structure Frame (s t : State) : Prop where
  workers : t.workers = s.workers
  ids_left : t.ids_left = s.ids_left
  workers_left : t.workers_left = s.workers_left
  aborted : t.aborted = s.aborted
  planners : t.planners = s.planners
  schedule : t.schedule = s.schedule
  done : t.terminal_done = s.terminal_done
  stage : t.stage = .copying ↔ s.stage = .copying
  failure : s.failure ≠ .none → t.failure ≠ .none

/-- A step of the call `i` after which it is not counted anew. -/
theorem count_le (hi : s.calls[i]? = some pc) (hc : t.calls = s.calls.set i pc') (f : Pc → Bool)
    (h : f pc' → f pc) : t.count f ≤ s.count f := by
  have e := countP_set hi pc' f
  have hle : (f pc').toNat ≤ (f pc).toNat := by
    cases hf : f pc' with
    | false => exact Nat.zero_le _
    | true => rw [h hf]
  rw [← hc] at e
  unfold State.count
  omega

/-- A step of the call `i` after which it is still counted. -/
theorem count_le' (hi : s.calls[i]? = some pc) (hc : t.calls = s.calls.set i pc') (f : Pc → Bool)
    (h : f pc → f pc') : s.count f ≤ t.count f := by
  have e := countP_set hi pc' f
  have hle : (f pc).toNat ≤ (f pc').toNat := by
    cases hf : f pc with
    | false => exact Nat.zero_le _
    | true => rw [h hf]
  rw [← hc] at e
  unfold State.count
  omega

/-- The tallies after a step of the call `i`, where the countdowns and the planners follow it. -/
theorem Tallies.move (c : Tallies s) (hi : s.calls[i]? = some pc) (hc : t.calls = s.calls.set i pc')
    (hw : t.workers = s.workers) (ha : t.aborted = s.aborted)
    (harrived : t.ids_left + pc'.arrived.toNat = s.ids_left + pc.arrived.toNat)
    (hleft : t.workers_left + pc'.left.toNat = s.workers_left + pc.left.toNat)
    (hplans : t.planners.length + pc.plans.toNat + (if s.stage = .copying then 1 else 0) =
      s.planners.length + pc'.plans.toNat + if t.stage = .copying then 1 else 0) : Tallies t where
  arrived := by
    have e := countP_set hi pc' Pc.arrived
    have := c.arrived
    unfold State.count at this ⊢
    rw [hc, hw, ha]
    omega
  left := by
    have e := countP_set hi pc' Pc.left
    have := c.left
    unfold State.count at this ⊢
    rw [hc, hw, ha]
    omega
  assigned := by
    rw [hc, length_set, hw, ha]
    exact c.assigned
  planners := by
    have e := countP_set hi pc' Pc.plans
    have := c.planners
    unfold State.count at this ⊢
    rw [hc]
    omega

/-- The counts after a step of the call `i` that they do not see. -/
theorem Counts.same (c : Counts s) (hi : s.calls[i]? = some pc) (same : pc.Same pc') (f : Frame s t)
    (hc : t.calls = s.calls.set i pc') : Counts t := by
  have hunplanned := count_le hi hc Pc.unplanned same.unplanned
  have hcloses := count_le' hi hc Pc.closes fun e => by rw [same.closes, e]
  constructor
  · refine c.move hi hc f.workers f.aborted ?_ ?_ ?_
    · rw [f.ids_left, same.arrived]
    · rw [f.workers_left, same.left]
    · rw [f.planners, same.plans, if_congr f.stage rfl rfl]
  · rw [f.planners]
    exact c.one
  · rw [f.planners, f.ids_left]
    exact c.elected
  · rw [f.planners, f.ids_left, f.workers]
    exact fun h0 hw => (c.unelected h0 hw).imp_right f.failure
  · rw [f.schedule, f.planners]
    exact fun hs => ⟨Nat.le_zero.1 (Nat.le_trans hunplanned (Nat.le_of_eq (c.unplanned hs).1)),
      (c.unplanned hs).2⟩
  · rw [f.stage, f.schedule]
    exact fun hs => (c.copying hs).imp_right f.failure
  · rw [f.aborted]
    exact fun ha => f.failure (c.aborted ha)
  · rw [f.done, f.workers_left]
    exact c.done
  · rw [f.done, f.workers_left, f.workers]
    exact fun h0 hw => (c.closed h0 hw).imp f.failure (Or.imp_right (Nat.lt_of_lt_of_le · hcloses))

/-- A step that changes where the call is, and may latch a failure. -/
theorem Inv.quiet (h : Inv s) (hi : s.calls[i]? = some pc) {f : Failure}
    (hf : s.failure ≠ .none → f ≠ .none) (same : pc.Same pc') (hfact : s.Fact (f ≠ .none) pc')
    (hpage : ∀ n, pc'.page = some n → pc.page = some n)
    (hp : ∀ n, pc.breaks ∨ pc.page = some n →
      f ≠ .none ∨ pc'.breaks ∨ pc'.page = some n ∨ s.Done n) :
    Inv { s with failure := f, calls := s.calls.set i pc' } := by
  have l : Later s { s with failure := f, calls := s.calls.set i pc' } :=
    ⟨hf, fun e => ⟨e, rfl⟩, id, fun _ => rfl, fun _ => rfl, Nat.le_refl _, fun _ _ e => e,
      fun e => ⟨e, rfl⟩⟩
  exact {
    facts := facts_set h l rfl (l.fact id hfact)
    counts := h.counts.same hi same ⟨rfl, rfl, rfl, rfl, rfl, rfl, rfl, Iff.rfl, hf⟩ rfl
    pages := {
      fits := h.pages.fits
      cursor := h.pages.cursor
      pages := pages_set h hi l rfl rfl hp
      nodup := h.pages.nodup
      taken := h.pages.taken
      owner := owner_set h hi rfl rfl hpage
      success := fun e => l.complete (h.pages.success e) } }

/-! ## Questions whether to stop -/

variable {s : State}

/-- Where a call stops, its fact holds with a failure latched. -/
theorem fact_stop {failed : Prop} {point : Point} (h : s.Fact failed (.testing point)) :
    s.Fact True point.stop := by
  cases point with
  | entry => trivial
  | planning => exact ⟨h, .inl trivial⟩
  | preparing => exact ⟨nofun, ⟨rfl, nofun⟩, h.1, .inl trivial⟩
  | waiting => exact .inl trivial
  | next => exact .inl trivial
  | called => exact ⟨nofun, ⟨rfl, nofun⟩, .inl trivial⟩
  | opened => exact ⟨nofun, ⟨rfl, nofun⟩, .inl trivial⟩
  | segment => exact ⟨nofun, ⟨rfl, nofun⟩, .inl trivial⟩
  | last => exact .inl trivial
  | closing => exact ⟨h.1, nofun⟩
  | joining => trivial
  | final => exact nofun

/-- A call that stops takes no page. -/
theorem page_stop (point : Point) : point.stop.page = none := by cases point <;> rfl

/-- A call that stops does not return success. -/
theorem stop_ne_success (point : Point) : point.stop ≠ .returned .success := by cases point <;> nofun

theorem fact_prepared {failed : Prop} {outcome : Option Plan} (h0 : s.ids_left = 0)
    (h : ∀ p, outcome = some p → s.Fits p) (k : ℕ) : s.Fact failed (prepared outcome k) := by
  cases k with
  | succ => exact ⟨h0, h⟩
  | zero =>
    cases outcome with
    | none => exact ⟨nofun, ⟨rfl, nofun⟩, h0, .inl trivial⟩
    | some p => exact ⟨h0, h p rfl⟩

theorem page_prepared (outcome : Option Plan) (k : ℕ) : (prepared outcome k).page = none := by
  cases k with
  | succ => rfl
  | zero => cases outcome <;> rfl

/-- `prepare` ends with the plan of the IDs, all of which are rows. -/
theorem fits_prepare {allocated : Bool} {p : Plan}
    (h : (prepare s.args.table s.args.raw s.args.ids s.policy allocated).2 = some p) : s.Fits p := by
  unfold prepare at h
  dsimp only at h
  split at h
  · cases h
  split at h
  · cases h
  split at h
  · cases h
  case isFalse hbad =>
    split at h
    · cases h
    · refine ⟨(Option.some.inj h).symm, fun id hid => ?_⟩
      by_contra hout
      have := findIdx_lt_length_of_exists ⟨id, hid, by simpa using hout⟩
      exact hbad this

variable {i : ℕ}

/-- The loop over a page goes on where the pieces so far are written. -/
theorem fact_loop {failed : Prop} {page : ℕ} {primary : Option Segment} (hp : s.Published) (hup : s.Upto page i)
    (hprimary : ∀ q, primary = some q → q ∈ s.plan.segments ∧ s.Has q) :
    s.Fact failed (s.loop page i primary) := by
  unfold loop
  split
  case isTrue hlt => split <;> exact ⟨hp, hlt, hup, hprimary⟩
  case isFalse => exact .inr hp

/-- The loop stays in its page until the page is written. -/
theorem page_loop {page : ℕ} (hup : s.Upto page i) (primary : Option Segment) :
    (s.loop page i primary).page = some page ∨
      (s.loop page i primary).page = none ∧ s.Done page := by
  unfold loop
  split
  case isTrue hlt =>
    left
    split <;> rfl
  case isFalse hge =>
    right
    refine ⟨rfl, fun j part hj hpart => hup j part hj ?_ hpart⟩
    obtain ⟨a, b, -, hb, -, hjb⟩ := hj
    rw [hb, Option.getD_some] at hge
    omega

/-- At its first piece nothing of a page has to be written. -/
theorem upto_first (s : State) (page : ℕ) : s.Upto page ((s.plan.page_starts[page]?).getD 0) := by
  rintro j part ⟨a, b, ha, -, haj, -⟩ hlt
  rw [ha, Option.getD_some] at hlt
  omega

/-- The calls left where the second countdown is at its end. -/
theorem Counts.all_left (c : Counts s) (h0 : s.workers_left = 0) : ∀ pc ∈ s.calls, pc.left := by
  have h1 := c.left
  have h2 := c.assigned
  have h3 : s.calls.countP Pc.left ≤ s.calls.length := countP_le_length
  unfold State.count at h1
  exact countP_eq_length.1 (by omega)

/-- Where no failure is latched and the last worker left with every page taken, the phase is complete. -/
theorem Inv.complete (h : Inv s) (h0 : s.workers_left = 0) (hf : s.failure = .none) (he : s.Exhausted) :
    s.Complete where
  workers_left := h0
  aborted := by
    by_contra hne
    exact h.counts.aborted (Nat.pos_of_ne_zero hne) hf
  published := he.1
  done := by
    intro page hpage
    rcases h.pages.pages page (Nat.lt_of_lt_of_le hpage he.2) hpage with hfail | ⟨pc, hpc, hb⟩ | hd
    · exact absurd hf hfail
    · have hleft := h.counts.all_left h0 pc hpc
      rcases hb with hb | hb
      · rw [Pc.left_of_breaks hb] at hleft
        cases hleft
      · rw [Pc.left_of_page hb] at hleft
        cases hleft
    · exact hd

/-- Where a call goes on, its fact holds. -/
theorem fact_go (h : Inv s) {point : Point} (hmem : .testing point ∈ s.calls) (hf : s.failure = .none)
    (allocated : Bool) : s.Fact (s.failure ≠ .none) (s.go allocated point) := by
  have hfact := h.facts _ hmem
  have hno : ¬ s.failure ≠ .none := fun e => e hf
  cases point with
  | entry | waiting | joining => trivial
  | planning => exact fact_prepared hfact (fun p e => fits_prepare e) _
  | preparing outcome k => exact fact_prepared hfact.1 hfact.2 k
  | next => exact hfact.resolve_left hno
  | called => exact hfact
  | opened page => exact fact_loop hfact (upto_first s page) nofun
  | segment => exact hfact
  | last => exact hfact
  | closing => exact ⟨hfact.1, fun _ => h.complete hfact.1 hf (hfact.2.resolve_left hno)⟩
  | final => exact fun _ => hfact

/-- A call that goes on stays in its page until the page is written. -/
theorem page_go (allocated : Bool) (point : Point) : (s.go allocated point).page = (Pc.testing point).page ∨
      (s.go allocated point).page = none ∧ ∀ n, (Pc.testing point).page = some n → s.Done n := by
  cases point with
  | planning => exact .inl (page_prepared _ _)
  | preparing => exact .inl (page_prepared _ _)
  | opened page =>
    rcases page_loop (upto_first s page) none with hl | ⟨hl, hd⟩
    · exact .inl hl
    · refine .inr ⟨hl, fun n e => ?_⟩
      cases e
      exact hd
  | _ => exact .inl rfl

theorem advance_of {pc : Pc} (hi : s.calls[i]? = some pc) (a : Answer) {t : State} {q : Pc}
    (e : s.act i a pc = (t, q)) : s.advance i a = { t with calls := t.calls.set i q } := by
  unfold advance
  rw [hi]
  dsimp only
  rw [e]

/-- A question whether to stop, and its answer. -/
theorem Inv.testing (h : Inv s) {point : Point} (hi : s.calls[i]? = some (.testing point)) (a : Answer) :
    Inv (s.advance i a) := by
  have hmem := mem_of_getElem? hi
  have hstop := fact_stop (h.facts _ hmem)
  by_cases hf : s.failure = .none
  · cases hc : a.cancelled with
    | true =>
      have e : s.act i a (.testing point) = (s, .failing .cancelled point.stop) := by
        simp only [act, hf, hc, ne_eq, not_true_eq_false, if_false, if_true]
      rw [advance_of hi a e]
      refine h.quiet hi id ((same_stop point).failing _)
        ⟨nofun, ⟨page_stop point, stop_ne_success point⟩, hstop⟩ nofun fun n hn => ?_
      have hpage : (Pc.testing point).page = some n := hn.resolve_left nofun
      right
      left
      cases point <;> first | rfl | cases hpage
    | false =>
      have e : s.act i a (.testing point) = (s, s.go a.allocated point) := by
        simp only [act, hf, hc, ne_eq, not_true_eq_false, if_false, Bool.false_eq_true]
      rw [advance_of hi a e]
      have hpage := page_go (s := s) a.allocated point
      refine h.quiet hi id (same_go s a.allocated point) (fact_go h hmem hf _) ?_ fun n hn => ?_
      · intro n hn
        rcases hpage with hp | ⟨hp, -⟩
        · rw [← hp, hn]
        · rw [hp] at hn
          cases hn
      · have hn := hn.resolve_left nofun
        rcases hpage with hp | ⟨-, hd⟩
        · exact .inr (.inr (.inl (hp.trans hn)))
        · exact .inr (.inr (.inr (hd n hn)))
  · have e : s.act i a (.testing point) = (s, point.stop) := if_pos hf
    rw [advance_of hi a e]
    refine h.quiet hi id (same_stop point) ?_ ?_ fun n _ => .inl hf
    · exact (Later.refl s).fact (fun _ => hf) hstop
    · intro n e
      rw [page_stop] at e
      cases e

/-- A failure is latched. -/
theorem Inv.failing (h : Inv s) {reason : Failure} {next : Pc} (hi : s.calls[i]? = some (.failing reason next))
    (a : Answer) : Inv (s.advance i a) := by
  have hfact := h.facts _ (mem_of_getElem? hi)
  rw [advance_of hi a rfl]
  have hf : (s.fail reason).failure ≠ .none := by
    unfold fail
    split
    · exact hfact.1
    · assumption
  refine h.quiet hi (fun _ => hf) (Pc.same_failing reason next) ?_ ?_ fun n _ => .inl hf
  · exact (Later.refl s).fact (fun _ => hf) hfact.2.2
  · intro n e
    rw [hfact.2.1.1] at e
    cases e

/-- A load that the loop of a wait or the return depends on. -/
theorem Inv.load (h : Inv s) {pc q : Pc} (hi : s.calls[i]? = some pc) (a : Answer) (e : s.act i a pc = (s, q))
    (same : pc.Same q) (hfact : s.Fact (s.failure ≠ .none) q) (hbreaks : pc.breaks = false) (hpc : pc.page = none)
    (hq : q.page = none) : Inv (s.advance i a) := by
  rw [advance_of hi a e]
  refine h.quiet hi id same hfact (fun n e => ?_) fun n e => ?_
  · rw [hq] at e
    cases e
  · rw [hbreaks, hpc] at e
    rcases e with e | e <;> cases e

theorem Inv.waiting (h : Inv s) (hi : s.calls[i]? = some .waiting) (a : Answer) : Inv (s.advance i a) := by
  by_cases ha : a.throws
  · refine h.load hi a (if_pos ha) ?_ ?_ rfl rfl rfl
    · exact ⟨rfl, rfl, rfl, rfl, nofun⟩
    · exact ⟨nofun, ⟨rfl, nofun⟩, .inl trivial⟩
  · by_cases hs : s.stage = .copying
    · refine h.load hi a ((if_neg ha).trans (if_pos hs)) ?_ ?_ rfl rfl rfl
      · exact ⟨rfl, rfl, rfl, rfl, nofun⟩
      · rcases h.counts.copying hs with hsome | hf
        · exact .inr ⟨hs, hsome⟩
        · exact .inl hf
    · refine h.load hi a ((if_neg ha).trans (if_neg hs)) ?_ ?_ rfl rfl rfl
      · exact ⟨rfl, rfl, rfl, rfl, nofun⟩
      · trivial

theorem Inv.joining (h : Inv s) (hi : s.calls[i]? = some .joining) (a : Answer) : Inv (s.advance i a) := by
  by_cases ha : a.throws
  · refine h.load hi a (if_pos ha) ?_ ?_ rfl rfl rfl
    · exact ⟨rfl, rfl, rfl, rfl, nofun⟩
    · exact ⟨nofun, ⟨rfl, nofun⟩, trivial⟩
  · by_cases hd : s.terminal_done
    · refine h.load hi a ((if_neg ha).trans (if_pos hd)) ?_ trivial rfl rfl rfl
      exact ⟨rfl, rfl, rfl, rfl, nofun⟩
    · refine h.load hi a ((if_neg ha).trans (if_neg hd)) ?_ trivial rfl rfl rfl
      exact ⟨rfl, rfl, rfl, rfl, nofun⟩

theorem Inv.judging (h : Inv s) (hi : s.calls[i]? = some .judging) (a : Answer) : Inv (s.advance i a) := by
  by_cases hd : s.terminal_done
  · refine h.load hi a (if_pos hd) ?_ trivial rfl rfl rfl
    exact ⟨rfl, rfl, rfl, rfl, nofun⟩
  · refine h.load hi a (if_neg hd) ?_ nofun rfl rfl rfl
    exact ⟨rfl, rfl, rfl, rfl, nofun⟩

theorem Inv.judged (h : Inv s) (hi : s.calls[i]? = some .judged) (a : Answer) : Inv (s.advance i a) := by
  by_cases hd : s.terminal_success
  · refine h.load hi a (if_pos hd) ?_ (h.pages.success hd) rfl rfl rfl
    exact ⟨rfl, rfl, rfl, rfl, nofun⟩
  · refine h.load hi a (if_neg hd) ?_ nofun rfl rfl rfl
    exact ⟨rfl, rfl, rfl, rfl, nofun⟩

theorem Inv.returned (h : Inv s) {r : Result} (hi : s.calls[i]? = some (.returned r)) (a : Answer) :
    Inv (s.advance i a) :=
  h.load hi a rfl (Pc.Same.refl _) (h.facts _ (mem_of_getElem? hi)) rfl rfl rfl

end Step

end StrixAlloy.PagePhase

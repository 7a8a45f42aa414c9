import StrixAlloy.Lib.Runs
import StrixAlloy.PagePhase.Atomics

/-!
# The page phase over all runs

The entry points keep the invariant, and with them every legal run (`inv_run`). What the owner of the
phase relies on is `Sound`: success means that every row was copied, a failure stays, calls of another
generation change nothing, and the calls do not all wait.
-/

namespace StrixAlloy.PagePhase

open State List Runs

/-! ## The entry points -/

section Entry

variable {s : State}

/-- A generation that begins satisfies the invariant. -/
theorem Inv.start (hcalls : s.calls = []) (haborted : s.aborted = 0) (hplanners : s.planners = [])
    (htaken : s.taken = []) (hids : s.ids_left = s.workers) (hworkers : s.workers_left = s.workers)
    (hstage : s.stage = .ids) (hschedule : s.schedule = none) (hcursor : s.page_cursor = 0)
    (hdone : s.terminal_done = false) (hsuccess : s.terminal_success = false) : Inv s where
  facts := by
    rw [hcalls]
    nofun
  counts := {
    arrived := by rw [State.count, hcalls, haborted, hids, countP_nil, Nat.add_zero]
    left := by rw [State.count, hcalls, haborted, hworkers, countP_nil, Nat.add_zero]
    assigned := by
      rw [hcalls, haborted]
      exact Nat.zero_le _
    planners := by
      rw [State.count, hcalls, hplanners, hstage]
      rfl
    one := by
      rw [hplanners]
      exact Nat.zero_le _
    elected := by
      rw [hplanners]
      nofun
    unelected := fun h0 hw => absurd (hids.symm.trans h0) (Nat.ne_of_gt hw)
    unplanned := by
      rw [hschedule]
      nofun
    copying := by
      rw [hstage]
      nofun
    aborted := by
      rw [haborted]
      nofun
    done := by
      rw [hdone]
      nofun
    closed := fun h0 hw => absurd (hworkers.symm.trans h0) (Nat.ne_of_gt hw) }
  pages := {
    fits := by
      rw [hschedule]
      nofun
    cursor := by
      rw [hcursor]
      nofun
    pages := by
      rw [hcursor]
      nofun
    nodup := by
      rw [htaken]
      exact nodup_nil
    taken := by
      rw [htaken]
      nofun
    owner := by
      rw [hcalls]
      nofun
    success := by
      rw [hsuccess]
      nofun }

theorem Inv.begin (h : Inv s) (args : Arguments) (qualified : Qualification) (policy : Policy)
    (workers : ℕ) (callbacks : Callbacks) (generation : ℕ) (output : Bytes) :
    Inv (s.begin args qualified policy workers callbacks generation output).2 := by
  unfold State.begin
  split
  · exact h
  · split
    · exact h
    · exact Inv.start rfl rfl rfl rfl rfl rfl rfl rfl rfl rfl rfl

/-- A latched failure. -/
theorem fail_failure {reason : Failure} (hr : reason ≠ .none) : (s.fail reason).failure ≠ .none := by
  unfold fail
  split
  · exact hr
  · assumption

theorem Inv.fail (h : Inv s) {reason : Failure} (hr : reason ≠ .none) : Inv (s.fail reason) := by
  have hf := fail_failure (s := s) hr
  have l : Later s (s.fail reason) :=
    ⟨fun _ => hf, fun e => ⟨e, rfl⟩, id, fun _ => rfl, fun _ => rfl, Nat.le_refl _, fun _ _ e => e,
      fun e => ⟨e, rfl⟩⟩
  have c := h.counts
  exact {
    facts := fun pc hpc => l.fact l.failure (h.facts pc hpc)
    counts := { c with
      unelected := fun _ _ => .inr hf
      copying := fun _ => .inr hf
      aborted := fun _ => hf
      closed := fun _ _ => .inl hf }
    pages := {
      fits := h.pages.fits
      cursor := h.pages.cursor
      pages := fun _ _ _ => .inl hf
      nodup := h.pages.nodup
      taken := h.pages.taken
      owner := h.pages.owner
      success := fun e => l.complete (h.pages.success e) } }

theorem Inv.cancel (h : Inv s) (generation : ℕ) : Inv (s.cancel generation) := by
  unfold State.cancel
  split
  · exact h.fail nofun
  · exact h

theorem Inv.permitH2d (h : Inv s) (generation : ℕ) (joined cancelled : Bool) :
    Inv (s.permitH2d generation joined cancelled).2 := by
  unfold State.permitH2d
  split
  · unfold stopping
    split
    · exact h
    · split
      · exact h.fail nofun
      · exact h
  · exact h

theorem Inv.runPhase (h : Inv s) {generation : ℕ} (hl : Legal s (.runPhase generation)) :
    Inv (s.runPhase generation) := by
  unfold State.runPhase
  split
  case isFalse => exact h
  case isTrue hg =>
    have hlt : s.calls.length + s.aborted < s.workers := hl hg
    have c := h.counts
    have l := Later.calls s (s.calls ++ [Pc.testing .entry])
    have hcount (f : Pc → Bool) (hf : f (.testing .entry) = false) :
        (s.calls ++ [Pc.testing .entry]).countP f = s.calls.countP f := by
      rw [countP_append, countP_singleton, hf]
      rfl
    refine ⟨?_, ?_, ?_⟩
    · intro pc hpc
      rcases mem_append.1 hpc with hpc | hpc
      · exact l.fact id (h.facts pc hpc)
      · obtain rfl := mem_singleton.1 hpc
        trivial
    · have harrived := hcount Pc.arrived rfl
      have hleft := hcount Pc.left rfl
      have hplans := hcount Pc.plans rfl
      have hcloses := hcount Pc.closes rfl
      have hunplanned := hcount Pc.unplanned rfl
      exact { c with
        arrived := (congrArg (s.ids_left + · + s.aborted) harrived).trans c.arrived
        left := (congrArg (s.workers_left + · + s.aborted) hleft).trans c.left
        assigned := by
          dsimp only
          rw [length_append, length_singleton]
          omega
        planners := c.planners.trans (congrArg (· + if s.stage = .copying then 1 else 0) hplans.symm)
        unplanned := fun e => ⟨hunplanned.trans (c.unplanned e).1, (c.unplanned e).2⟩
        closed := fun h0 hw =>
          (c.closed h0 hw).imp_right (Or.imp_right fun e => Nat.lt_of_lt_of_eq e hcloses.symm) }
    · exact {
        fits := h.pages.fits
        cursor := h.pages.cursor
        pages := by
          intro page hlt hpage
          refine (h.pages.pages page hlt hpage).imp id (Or.imp ?_ id)
          rintro ⟨pc, hpc, hb⟩
          exact ⟨pc, mem_append_left _ hpc, hb⟩
        nodup := h.pages.nodup
        taken := h.pages.taken
        owner := by
          intro i pc page hi hp
          rw [List.getElem?_append] at hi
          split at hi
          · exact h.pages.owner i pc page hi hp
          · obtain rfl := mem_singleton.1 (mem_of_getElem? hi)
            cases hp
        success := fun e => l.complete (h.pages.success e) }

theorem Inv.abortUnstarted (h : Inv s) {generation count : ℕ}
    (hl : Legal s (.abortUnstarted generation count)) :
    Inv (s.abortUnstarted generation count).2 := by
  by_cases hg : (!s.current generation || count = 0 || s.ids_left < count || s.workers_left < count) = true
  · unfold State.abortUnstarted
    rw [if_pos hg]
    exact h
  · have hg' := hg
    simp only [Bool.or_eq_true, Bool.not_eq_true', decide_eq_true_eq, not_or, Nat.not_lt,
      Bool.not_eq_false] at hg'
    obtain ⟨⟨⟨hcur, h0⟩, hids⟩, hworkers⟩ := hg'
    have hle : s.calls.length + s.aborted + count ≤ s.workers := hl hcur
    have hf : (s.fail .cancelled).failure ≠ .none := fail_failure nofun
    have c := h.counts
    have hsuccess : s.terminal_success = false := by
      by_contra e
      have := (h.pages.success (by simpa using e)).workers_left
      omega
    have hdone : s.terminal_done = false := by
      by_contra e
      have := c.done (by simpa using e)
      omega
    have key : ∀ success done : Bool, success = false → (done → s.workers_left = count) →
        Inv { s.fail .cancelled with
          ids_left := s.ids_left - count
          workers_left := s.workers_left - count
          aborted := s.aborted + count
          terminal_success := success
          terminal_done := done } := by
      intro success done hs hd
      set t : State := { s.fail .cancelled with
        ids_left := s.ids_left - count
        workers_left := s.workers_left - count
        aborted := s.aborted + count
        terminal_success := success
        terminal_done := done }
      have l : Later s t :=
        ⟨fun _ => hf, fun e => absurd e (by omega), id, fun _ => rfl, fun _ => rfl, Nat.le_refl _,
          fun _ _ e => e, fun e => absurd e (by omega)⟩
      have hone : s.planners.length = 0 := by
        by_contra hne
        have := c.elected (Nat.pos_of_ne_zero hne)
        omega
      exact {
        facts := fun pc hpc => l.fact l.failure (h.facts pc hpc)
        counts := { c with
          arrived := by
            have e := c.arrived
            change s.ids_left - count + s.count Pc.arrived + (s.aborted + count) = s.workers
            omega
          left := by
            have e := c.left
            change s.workers_left - count + s.count Pc.left + (s.aborted + count) = s.workers
            omega
          assigned := by
            change s.calls.length + (s.aborted + count) ≤ s.workers
            omega
          elected := fun e => absurd (show 0 < s.planners.length from e) (by omega)
          unelected := fun _ _ => .inr hf
          copying := fun _ => .inr hf
          aborted := fun _ => hf
          done := by
            intro e
            have := hd e
            change s.workers_left - count = 0
            omega
          closed := fun _ _ => .inl hf }
        pages := {
          fits := h.pages.fits
          cursor := h.pages.cursor
          pages := fun _ _ _ => .inl hf
          nodup := h.pages.nodup
          taken := h.pages.taken
          owner := h.pages.owner
          success := by
            rw [show t.terminal_success = false from hs]
            nofun } }
    unfold State.abortUnstarted
    rw [if_neg hg]
    split
    case isTrue he => exact key false true rfl fun _ => he
    case isFalse he =>
      refine key s.terminal_success s.terminal_done hsuccess fun e => ?_
      rw [hdone] at e
      cases e

theorem Inv.produce (h : Inv s) {row : ℕ} {value : ℤ} (hl : Legal s (.produce row value)) :
    Inv (s.produce row value) := by
  have hlt : s.calls.length + s.aborted < s.workers := hl
  have c := h.counts
  have hids : 0 < s.ids_left := by
    have h1 := c.arrived
    have h2 : s.count Pc.arrived ≤ s.calls.length := countP_le_length
    omega
  have hnone : ¬ s.schedule.isSome := fun e =>
    absurd (c.elected (c.unplanned e).2) (Nat.ne_of_gt hids)
  have hpub : ¬ s.Published := fun e => hnone e.2
  have l : Later s (s.produce row value) :=
    ⟨id, fun e => absurd e (Nat.ne_of_gt hids), id, fun _ => rfl, fun e => absurd e hpub, Nat.le_refl _,
      fun e => absurd e hpub, fun e => ⟨e, rfl⟩⟩
  exact {
    facts := fun pc hpc => l.fact id (h.facts pc hpc)
    counts := { c with }
    pages := {
      fits := fun p e => absurd (show s.schedule.isSome by rw [show s.schedule = some p from e]; rfl) hnone
      cursor := fun e => absurd (h.pages.cursor e) hpub
      pages := fun page hlt _ =>
        absurd (h.pages.cursor (Nat.lt_of_le_of_lt (Nat.zero_le _) hlt)) hpub
      nodup := h.pages.nodup
      taken := h.pages.taken
      owner := h.pages.owner
      success := fun e => absurd (h.pages.success e).published hpub } }

/-- A legal operation keeps the invariant. -/
theorem Inv.step (h : Inv s) {op : Op} (hl : Legal s op) : Inv (step s op) := by
  cases op with
  | begin => exact h.begin _ _ _ _ _ _ _
  | runPhase => exact h.runPhase hl
  | advance i a => exact h.advance i a
  | cancel generation => exact h.cancel generation
  | abortUnstarted => exact h.abortUnstarted hl
  | permitH2d generation joined cancelled => exact h.permitH2d generation joined cancelled
  | produce => exact h.produce hl

end Entry

/-! ## What holds of every state -/

/-- The plan was ready, no state was aborted, and each row of the output is the row of the table that its
ID names. -/
structure Copied (s : State) : Prop where
  ready : s.schedule.isSome
  aborted : s.aborted = 0
  valid : ∀ id ∈ s.args.ids.ids, 0 ≤ id ∧ id < s.args.table.row_count
  rows : ∀ (row : ℕ) (id : ℤ), s.args.ids.ids[row]? = some id → ∀ k < rowBytes,
    s.output (row * rowBytes + k) = s.args.table.bytes (id.toNat * rowBytes + k)

/-- The call waits for a word that is not written, and no failure lets it go. -/
def State.Waits (s : State) (pc : Pc) : Prop :=
  s.failure = .none ∧
    ((pc = .waiting ∨ pc = .testing .waiting) ∧ s.stage ≠ .copying ∨
      (pc = .joining ∨ pc = .testing .joining) ∧ s.terminal_done = false)

/-- A call with a generation that is not the current one changes nothing. -/
structure Stale (s : State) (generation : ℕ) : Prop where
  runPhase : s.runPhase generation = s
  cancel : s.cancel generation = s
  abortUnstarted : ∀ count, s.abortUnstarted generation count = (false, s)
  permitH2d : ∀ joined cancelled, s.permitH2d generation joined cancelled = (false, s)
  failure : s.failureOf generation = .stale_generation

/-- From `s` to `t`, which are of one generation, the failure stays: no call returned success that had not,
and the upload is not permitted. -/
structure Latched (s t : State) : Prop where
  failure : t.failure = s.failure
  success : ∀ i : ℕ, t.calls[i]? = some (Pc.returned .success) → s.calls[i]? = some (Pc.returned .success)
  permitH2d : ∀ joined cancelled, (t.permitH2d s.generation joined cancelled).1 = false

/-- What the owner of the phase relies on. -/
structure Sound (s : State) : Prop where
  one_planner : s.planners.length ≤ 1
  planner_last : s.planners ≠ [] → s.assigned = s.workers ∧ ∀ pc ∈ s.calls, pc.arrived
  copies_after : ∀ pc ∈ s.calls, ∀ page, pc.page = some page →
    s.stage = .copying ∧ ∀ q ∈ s.calls, q.plans = false
  page_once : (s.taken.map Prod.fst).Nodup
  page_owner : ∀ i pc page, s.calls[i]? = some pc → pc.page = some page → (page, i) ∈ s.taken
  success : Pc.returned .success ∈ s.calls → Copied s
  permit : ∀ generation joined cancelled,
    (s.permitH2d generation joined cancelled).1 → generation = s.generation ∧ Copied s
  latched : s.failure ≠ .none → ∀ ops, Runs.Admits step Legal s ops →
    (run step s ops).generation = s.generation → Latched s (run step s ops)
  stale : ∀ generation, s.current generation = false → Stale s generation
  progress : s.assigned = s.workers → (∃ pc ∈ s.calls, pc.isReturned = false) →
    ∃ pc ∈ s.calls, pc.isReturned = false ∧ ¬ s.Waits pc

section Sound

variable {s : State}

/-- A complete phase has copied every row. -/
theorem Inv.copied_of_complete (h : Inv s) (hc : s.Complete) : Copied s := by
  obtain ⟨p, hp⟩ := Option.isSome_iff_exists.1 hc.published.2
  have hplan : s.plan = p := by
    unfold State.plan
    rw [hp, Option.getD_some]
  obtain ⟨hfits, hvalid⟩ := h.pages.fits p hp
  have hdone := hc.done
  rw [hplan, hfits] at hdone
  refine ⟨hc.published.2, hc.aborted, fun id hid => ?_, fun row id hid k hk => ?_⟩
  · have hout := hvalid id hid
    simp only [outside, Bool.or_eq_false_iff, decide_eq_false_iff_not, not_lt, not_le] at hout
    exact hout
  · refine rows_of_written s.args.table.base (fun part hpart => ?_) hid hk
    obtain ⟨j, hj⟩ := mem_iff_getElem?.1 hpart
    have hlt : j < (plan s.args.table.base s.args.ids.ids).segments.length :=
      (List.getElem?_eq_some_iff.1 hj).1
    obtain ⟨page, hpage, hin⟩ := exists_page hlt
    refine hdone page hpage j part ?_ ?_
    · rw [hplan, hfits]
      exact hin
    · rw [hplan, hfits]
      exact hj

/-- Once a call plans, every state is assigned and arrived. -/
theorem Counts.planner_last (c : Counts s) (hp : s.planners ≠ []) :
    s.assigned = s.workers ∧ ∀ pc ∈ s.calls, pc.arrived := by
  have h0 := c.elected (length_pos_iff.2 hp)
  have h1 := c.arrived
  have h2 := c.assigned
  have h3 : s.calls.countP Pc.arrived ≤ s.calls.length := countP_le_length
  unfold State.count at h1
  unfold State.assigned
  exact ⟨by omega, countP_eq_length.1 (by omega)⟩

/-- A call copies pages after the stage of copies has begun, when no call plans. -/
theorem Inv.copies_after (h : Inv s) {pc : Pc} (hpc : pc ∈ s.calls) {page : ℕ}
    (hpage : pc.page = some page) : s.stage = .copying ∧ ∀ q ∈ s.calls, q.plans = false := by
  have hfact := h.facts pc hpc
  have hpub : s.Published := by
    cases pc with
    | testing point =>
      cases point with
      | called | opened => exact hfact
      | segment => exact hfact.published
      | _ => cases hpage
    | copying => exact hfact.published
    | _ => cases hpage
  refine ⟨hpub.1, fun q hq => ?_⟩
  by_contra hplans
  obtain ⟨i, hi⟩ := mem_iff_getElem?.1 hq
  exact h.counts.not_copying hi (by simpa using hplans) hpub.1

/-- The upload is permitted only where the phase succeeded and no failure is latched. -/
theorem permitH2d_spec {generation : ℕ} {joined cancelled : Bool}
    (hp : (s.permitH2d generation joined cancelled).1) :
    generation = s.generation ∧ s.terminal_success ∧ s.failure = .none := by
  unfold State.permitH2d at hp
  split at hp
  case isFalse => cases hp
  case isTrue hc =>
    simp only [Bool.and_eq_true, decide_eq_true_eq] at hc
    obtain ⟨⟨⟨⟨-, hcur⟩, -⟩, -⟩, hsuccess⟩ := hc
    unfold State.current at hcur
    rw [Bool.and_eq_true, decide_eq_true_eq] at hcur
    refine ⟨hcur.2, hsuccess, ?_⟩
    by_contra hf
    unfold stopping at hp
    rw [if_pos hf] at hp
    cases hp

theorem stale (generation : ℕ) (h : s.current generation = false) : Stale s generation := by
  have hn : ¬ s.current generation := by simp [h]
  refine ⟨if_neg hn, if_neg hn, fun count => ?_, fun joined cancelled => ?_, if_neg hn⟩
  · unfold State.abortUnstarted
    rw [h]
    rfl
  · unfold State.permitH2d
    rw [h, Bool.and_false]
    rfl

/-- The calls do not all wait for each other. -/
theorem Inv.progress (h : Inv s) (hall : s.assigned = s.workers)
    (hsome : ∃ pc ∈ s.calls, pc.isReturned = false) :
    ∃ pc ∈ s.calls, pc.isReturned = false ∧ ¬ s.Waits pc := by
  by_contra hno
  have hwait : ∀ pc ∈ s.calls, pc.isReturned = false → s.Waits pc := by
    intro pc hpc hr
    by_contra hw
    exact hno ⟨pc, hpc, hr, hw⟩
  obtain ⟨pc₀, hpc₀, hr₀⟩ := hsome
  have hnone := (hwait pc₀ hpc₀ hr₀).1
  have c := h.counts
  unfold State.assigned at hall
  have hpos : 0 < s.calls.length := length_pos_iff.2 (ne_nil_of_mem hpc₀)
  -- every call is past its arrival, so the planner was elected, and it is none of them
  have hshape : ∀ pc ∈ s.calls, pc.arrived ∧ pc.plans = false ∧ pc.closes = false := by
    intro pc hpc
    cases hr : pc.isReturned with
    | true =>
      cases pc <;> first | exact ⟨rfl, rfl, rfl⟩ | cases hr
    | false =>
      rcases (hwait pc hpc hr).2 with ⟨rfl | rfl, -⟩ | ⟨rfl | rfl, -⟩ <;> exact ⟨rfl, rfl, rfl⟩
  have harrived : s.count Pc.arrived = s.calls.length :=
    countP_eq_length.2 fun pc hpc => (hshape pc hpc).1
  have hplans : s.count Pc.plans = 0 :=
    countP_eq_zero.2 fun pc hpc => by simp [(hshape pc hpc).2.1]
  have hcloses : s.count Pc.closes = 0 :=
    countP_eq_zero.2 fun pc hpc => by simp [(hshape pc hpc).2.2]
  have hids : s.ids_left = 0 := by
    have := c.arrived
    omega
  have hplanners := (c.unelected hids (by omega)).resolve_right fun e => e hnone
  have hstage : s.stage = .copying := by
    by_contra hs
    have := c.planners
    rw [if_neg hs] at this
    omega
  -- so the calls wait for the end of the phase, and the last of them has announced it
  have hleft : ∀ pc ∈ s.calls, pc.left ∧ (pc.isReturned = false → s.terminal_done = false) := by
    intro pc hpc
    cases hr : pc.isReturned with
    | true =>
      cases pc <;> first | exact ⟨rfl, nofun⟩ | cases hr
    | false =>
      rcases (hwait pc hpc hr).2 with ⟨-, hs⟩ | ⟨rfl | rfl, hd⟩
      · exact absurd hstage hs
      · exact ⟨rfl, fun _ => hd⟩
      · exact ⟨rfl, fun _ => hd⟩
  have hcount : s.count Pc.left = s.calls.length :=
    countP_eq_length.2 fun pc hpc => (hleft pc hpc).1
  have hworkers : s.workers_left = 0 := by
    have := c.left
    omega
  rcases c.closed hworkers (by omega) with hf | hd | hpos
  · exact hf hnone
  · rw [(hleft pc₀ hpc₀).2 hr₀] at hd
    cases hd
  · omega

end Sound

/-! ## A latched failure -/

section Latched

variable {s : State}

/-- A step of a call leaves the generation, and where the calls are. -/
theorem act_frame (s : State) (i : ℕ) (a : Answer) (pc : Pc) :
    (s.act i a pc).1.generation = s.generation ∧ (s.act i a pc).1.calls = s.calls := by
  cases pc with
  | copying =>
    simp only [act, copy]
    split
    · exact ⟨rfl, rfl⟩
    · split <;> exact ⟨rfl, rfl⟩
  | testing | arriving | waiting | claiming | joining | judging | judged =>
    simp only [act]
    repeat' split
    all_goals exact ⟨rfl, rfl⟩
  | _ => exact ⟨rfl, rfl⟩

theorem advance_generation (s : State) (i : ℕ) (a : Answer) :
    (s.advance i a).generation = s.generation := by
  unfold State.advance
  split
  · rfl
  · exact (act_frame s i a _).1

theorem stopping_snd (s : State) (cancelled : Bool) :
    (s.stopping cancelled).2 = s ∨ (s.stopping cancelled).2 = s.fail .cancelled := by
  unfold stopping
  split
  · exact .inl rfl
  · split
    · exact .inr rfl
    · exact .inl rfl

theorem permitH2d_snd (s : State) (generation : ℕ) (joined cancelled : Bool) :
    (s.permitH2d generation joined cancelled).2 = s ∨
      (s.permitH2d generation joined cancelled).2 = s.fail .cancelled := by
  unfold State.permitH2d
  split
  · exact stopping_snd s cancelled
  · exact .inl rfl

/-- A generation that begins is a later one. -/
theorem begin_snd (s : State) (args : Arguments) (qualified : Qualification) (policy : Policy)
    (workers : ℕ) (callbacks : Callbacks) (generation : ℕ) (output : Bytes) :
    let t := (s.begin args qualified policy workers callbacks generation output).2
    t = s ∨ s.generation < t.generation := by
  unfold State.begin
  split
  · exact .inl rfl
  · split
    case isTrue => exact .inl rfl
    case isFalse hg =>
      right
      simp only [Bool.or_eq_true, decide_eq_true_eq, not_or, not_le] at hg
      exact hg.2

/-- What an operation within a generation does apart from a step of a call: the failure may be latched,
and a call may be added. -/
structure Enters (s t : State) : Prop where
  generation : t.generation = s.generation
  failure : s.failure ≠ .none → t.failure = s.failure
  calls : t.calls = s.calls ∨ t.calls = s.calls ++ [Pc.testing .entry]

theorem Enters.refl (s : State) : Enters s s := ⟨rfl, fun _ => rfl, .inl rfl⟩

theorem enters_fail (s : State) (reason : Failure) : Enters s (s.fail reason) :=
  ⟨rfl, fun h => if_neg h, .inl rfl⟩

/-- An operation takes a step of a call, begins a later generation, or stays within the generation. -/
theorem step_cases (s : State) (op : Op) :
    (∃ i a, op = .advance i a) ∨ s.generation < (step s op).generation ∨ Enters s (step s op) := by
  cases op with
  | begin args qualified policy workers callbacks generation output =>
    right
    rcases begin_snd s args qualified policy workers callbacks generation output with h | h
    · right
      change Enters s (s.begin args qualified policy workers callbacks generation output).2
      rw [h]
      exact Enters.refl s
    · exact .inl h
  | runPhase generation =>
    right
    right
    change Enters s (s.runPhase generation)
    unfold State.runPhase
    split
    · exact ⟨rfl, fun _ => rfl, .inr rfl⟩
    · exact Enters.refl s
  | advance i a => exact .inl ⟨i, a, rfl⟩
  | cancel generation =>
    right
    right
    change Enters s (s.cancel generation)
    unfold State.cancel
    split
    · exact enters_fail s _
    · exact Enters.refl s
  | abortUnstarted generation count =>
    right
    right
    change Enters s (s.abortUnstarted generation count).2
    unfold State.abortUnstarted
    split
    · exact Enters.refl s
    · dsimp only
      split <;> exact ⟨rfl, fun h => if_neg h, .inl rfl⟩
  | permitH2d generation joined cancelled =>
    right
    right
    change Enters s (s.permitH2d generation joined cancelled).2
    rcases permitH2d_snd s generation joined cancelled with h | h
    · rw [h]
      exact Enters.refl s
    · rw [h]
      exact enters_fail s _
  | produce => exact .inr (.inr ⟨rfl, fun _ => rfl, .inl rfl⟩)

/-- The generation never falls. -/
theorem generation_le (s : State) (op : Op) : s.generation ≤ (step s op).generation := by
  rcases step_cases s op with ⟨i, a, rfl⟩ | h | h
  · exact Nat.le_of_eq (advance_generation s i a).symm
  · exact Nat.le_of_lt h
  · exact Nat.le_of_eq h.generation.symm

theorem loop_ne_success (s : State) (page i : ℕ) (primary : Option Segment) :
    s.loop page i primary ≠ .returned .success := by
  intro e
  have := (same_loop s page i page i primary primary).left
  rw [e] at this
  cases this

/-- With a failure latched, no step of a call returns success. -/
theorem act_ne_success (h : Inv s) (hf : s.failure ≠ .none) {i : ℕ} {pc : Pc}
    (hi : s.calls[i]? = some pc) (a : Answer) :
    (s.act i a pc).1.failure = s.failure ∧
      ((s.act i a pc).2 = .returned .success → pc = .returned .success) := by
  have hfact := h.facts pc (mem_of_getElem? hi)
  cases pc with
  | testing point =>
    rw [show s.act i a (.testing point) = (s, point.stop) from if_pos hf]
    exact ⟨rfl, fun e => absurd e (stop_ne_success point)⟩
  | failing => exact ⟨if_neg hf, fun e => absurd e hfact.2.1.2⟩
  | copying =>
    simp only [act, copy]
    split
    · exact ⟨rfl, fun e => by cases e⟩
    · split <;> exact ⟨rfl, fun e => absurd e (loop_ne_success _ _ _ _)⟩
  | claiming =>
    simp only [act, copyPages]
    repeat' split
    all_goals exact ⟨rfl, fun e => by cases e⟩
  | leaving =>
    refine ⟨rfl, ?_⟩
    simp only [act]
    intro e
    split at e <;> cases e
  | arriving | waiting | joining | judging | judged =>
    simp only [act]
    repeat' split
    all_goals exact ⟨rfl, fun e => by cases e⟩
  | returned => exact ⟨rfl, id⟩
  | _ => exact ⟨rfl, fun e => by cases e⟩

/-- With a failure latched, a step within the generation keeps it, and lets no further call succeed. -/
theorem latched_step (h : Inv s) (hf : s.failure ≠ .none) {op : Op}
    (hg : (step s op).generation = s.generation) :
    (step s op).failure = s.failure ∧ ∀ i : ℕ, (step s op).calls[i]? = some (Pc.returned .success) →
      s.calls[i]? = some (Pc.returned .success) := by
  rcases step_cases s op with ⟨i, a, rfl⟩ | hlt | he
  · change (s.advance i a).failure = s.failure ∧ ∀ j : ℕ, (s.advance i a).calls[j]? = _ → _
    cases hi : s.calls[i]? with
    | none =>
      have e : s.advance i a = s := by
        unfold State.advance
        rw [hi]
      rw [e]
      exact ⟨rfl, fun _ => id⟩
    | some pc =>
      obtain ⟨hfail, hpc⟩ := act_ne_success h hf hi a
      rw [advance_of hi a (t := (s.act i a pc).1) (q := (s.act i a pc).2) rfl]
      refine ⟨hfail, fun j hj => ?_⟩
      rw [(act_frame s i a pc).2] at hj
      rcases getElem?_set_of hi _ hj with ⟨rfl, e⟩ | ⟨-, hj⟩
      · rw [hi, hpc e.symm]
      · exact hj
  · omega
  · refine ⟨he.failure hf, fun i hi => ?_⟩
    rcases he.calls with e | e
    · rw [← e]
      exact hi
    · rw [e, List.getElem?_append] at hi
      split at hi
      · exact hi
      · cases mem_singleton.1 (mem_of_getElem? hi)

/-- With a failure latched, so is a run within the generation. -/
theorem latched_run (h : Inv s) (hf : s.failure ≠ .none) {ops : List Op}
    (hl : Runs.Admits step Legal s ops) (hg : (run step s ops).generation = s.generation) :
    (run step s ops).failure = s.failure ∧
      ∀ i : ℕ, (run step s ops).calls[i]? = some (Pc.returned .success) →
        s.calls[i]? = some (Pc.returned .success) := by
  induction ops generalizing s with
  | nil => exact ⟨rfl, fun _ => id⟩
  | cons op ops ih =>
    obtain ⟨hop, hops⟩ := admits_cons.1 hl
    have hle : (step s op).generation ≤ (run step (step s op) ops).generation :=
      measure_le (P := fun _ => True) (fun _ _ _ => trivial) (fun s op _ => generation_le s op)
        trivial ops
    rw [run_cons] at hg ⊢
    have hfirst := generation_le s op
    have hsame : (step s op).generation = s.generation := by omega
    obtain ⟨hfail, hcalls⟩ := latched_step h hf hsame
    obtain ⟨hfail', hcalls'⟩ := ih (h.step hop) (by rw [hfail]; exact hf) hops (by omega)
    exact ⟨hfail'.trans hfail, fun i hi => hcalls i (hcalls' i hi)⟩

end Latched

/-! ## Runs -/

theorem inv_fresh : Inv fresh := Inv.start rfl rfl rfl rfl rfl rfl rfl rfl rfl rfl rfl

theorem inv_run {s : State} (h : Inv s) {ops : List Op} (hl : Runs.Admits step Legal s ops) :
    Inv (run step s ops) :=
  run_invariant_of (fun _ _ hs hop => hs.step hop) h hl

/-- The invariant says what the owner relies on. -/
theorem Inv.sound {s : State} (h : Inv s) : Sound s where
  one_planner := h.counts.one
  planner_last := h.counts.planner_last
  copies_after := fun _ hpc _ hpage => h.copies_after hpc hpage
  page_once := h.pages.nodup
  page_owner := h.pages.owner
  success := fun hmem => h.copied_of_complete (h.facts _ hmem rfl)
  permit := fun _ _ _ hp =>
    ⟨(permitH2d_spec hp).1, h.copied_of_complete (h.pages.success (permitH2d_spec hp).2.1)⟩
  latched := by
    intro hf ops hl hg
    obtain ⟨hfail, hcalls⟩ := latched_run h hf hl hg
    refine ⟨hfail, hcalls, fun joined cancelled => ?_⟩
    by_contra hp
    have := (permitH2d_spec (by simpa using hp)).2.2
    exact hf (hfail.symm.trans this)
  stale := stale
  progress := h.progress

/-- In every legal run, at every state. -/
theorem page_phase_sound {ops : List Op} (h : Runs.Admits step Legal fresh ops) :
    Sound (run step fresh ops) :=
  (inv_run inv_fresh h).sound

/-! ## A run that copies two pages -/

/-- The row 0, which a page of the table cuts, sixteen times. -/
def sampleArguments : Arguments where
  native_context := 1
  token_count := 1
  context_rows := 16
  ids := ⟨12288, List.replicate 16 0⟩
  table := ⟨8032, 1, 4096, 8192, fun k => UInt8.ofNat k⟩
  raw := ⟨16384, 2560⟩
  native_stride := 160
  native_table_encoding := 0

/-- Two workers take turns. -/
def sampleTurns : List Op :=
  (List.replicate 60 [Op.advance 0 ⟨false, false, true⟩, Op.advance 1 ⟨false, false, true⟩]).flatten

def sampleOps : List Op :=
  [.begin sampleArguments ⟨true, true, true, true, true, true, true⟩ ⟨true, 16, maxRows, maxScratch⟩ 2
    ⟨1, true⟩ 1 (fun _ => 0), .runPhase 1, .runPhase 1] ++ sampleTurns

theorem legal_advances (s : State) {ops : List Op} (h : ∀ op ∈ ops, ∃ i a, op = .advance i a) :
    Runs.Admits step Legal s ops := by
  rintro pre op post rfl
  obtain ⟨i, a, rfl⟩ := h op (mem_append_right _ mem_cons_self)
  trivial

theorem legal_sample : Runs.Admits step Legal fresh sampleOps := by
  refine admits_append.2 ⟨?_, legal_advances _ fun op hop => ?_⟩
  · refine admits_cons.2 ⟨nofun, admits_cons.2 ⟨fun _ => ?_, admits_cons.2 ⟨fun _ => ?_, ?_⟩⟩⟩
    · decide +kernel
    · decide +kernel
    · exact admits_nil
  · obtain ⟨l, hl, hop⟩ := mem_flatten.1 hop
    obtain rfl := eq_of_mem_replicate hl
    rcases mem_cons.1 hop with rfl | hop
    · exact ⟨_, _, rfl⟩
    · exact ⟨_, _, mem_singleton.1 hop⟩

theorem page_phase_sound_sample :
    (run step fresh sampleOps).calls = [.returned .success, .returned .success] ∧
      Sound (run step fresh sampleOps) :=
  ⟨by decide +kernel, page_phase_sound legal_sample⟩

end StrixAlloy.PagePhase

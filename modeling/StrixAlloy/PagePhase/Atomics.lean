import Mathlib.Data.List.Count
import StrixAlloy.PagePhase.Steps

/-!
# The operations on the shared words keep the invariant

The two countdowns, the stage, the plan, the cursor, the copy of a piece and the two terminal words. With
the steps of the module before, these are all steps of a call (`Inv.advance`).
-/

namespace StrixAlloy.PagePhase

open State List

variable {s t : State} {i : ℕ} {pc pc' : Pc}

/-- The pages after a step of a call that took and wrote none. -/
theorem Inv.pages_of (h : Inv s) (hi : s.calls[i]? = some pc) (l : Later s t)
    (hc : t.calls = s.calls.set i pc') (hbreaks : pc.breaks = false) (hpage : pc.page = none)
    (hpage' : pc'.page = none) (hcursor : t.page_cursor = s.page_cursor) (htaken : t.taken = s.taken)
    (hfits : ∀ p, t.schedule = some p → t.Fits p) (hsuccess : t.terminal_success → t.Complete) :
    Pages t where
  fits := hfits
  cursor := by
    rw [hcursor]
    exact fun e => l.published (h.pages.cursor e)
  pages := by
    refine pages_set h hi l hc hcursor fun n e => ?_
    rw [hbreaks, hpage] at e
    rcases e with e | e <;> cases e
  nodup := by
    rw [htaken]
    exact h.pages.nodup
  taken := by
    rw [htaken, hcursor]
    exact h.pages.taken
  owner := by
    refine owner_set h hi hc htaken fun n e => ?_
    rw [hpage'] at e
    cases e
  success := hsuccess

/-! ## The arrival and the plan -/

/-- A call that has not arrived is still to be counted. -/
theorem Counts.ids_pos (c : Counts s) (hi : s.calls[i]? = some pc) (hpc : pc.arrived = false) :
    0 < s.ids_left := by
  have h1 := c.arrived
  have h2 := c.assigned
  have h3 : s.count Pc.arrived < s.calls.length :=
    countP_lt_length_iff.2 ⟨pc, mem_of_getElem? hi, hpc⟩
  omega

/-- A call that has not left is still to be counted. -/
theorem Counts.workers_pos (c : Counts s) (hi : s.calls[i]? = some pc) (hpc : pc.left = false) :
    0 < s.workers_left := by
  have h1 := c.left
  have h2 := c.assigned
  have h3 : s.count Pc.left < s.calls.length :=
    countP_lt_length_iff.2 ⟨pc, mem_of_getElem? hi, hpc⟩
  omega

/-- While a call plans, the stage of copies has not begun. -/
theorem Counts.not_copying (c : Counts s) (hi : s.calls[i]? = some pc) (hpc : pc.plans) :
    s.stage ≠ .copying := by
  intro hs
  have h1 := c.planners
  have h2 := c.one
  have h3 : 0 < s.count Pc.plans := countP_pos hi _ hpc
  rw [if_pos hs] at h1
  omega

theorem Inv.arriving (h : Inv s) (hi : s.calls[i]? = some .arriving) (a : Answer) :
    Inv (s.advance i a) := by
  have hpos := h.counts.ids_pos hi rfl
  have c := h.counts
  by_cases h1 : s.ids_left = 1
  · rw [advance_of hi a (if_pos h1)]
    have hnone : s.planners.length = 0 := by
      by_contra hne
      have := c.elected (Nat.pos_of_ne_zero hne)
      omega
    set t : State := { s with
      ids_left := 0, planners := s.planners ++ [i], calls := s.calls.set i .electing }
    have hlen : t.planners.length = s.planners.length + 1 := length_append
    have l : Later s t :=
      ⟨id, fun e => absurd e (Nat.ne_of_gt hpos), id, fun _ => rfl, fun _ => rfl, Nat.le_refl _,
        fun _ _ e => e, fun e => ⟨e, rfl⟩⟩
    have hcloses := count_le' (t := t) hi rfl Pc.closes nofun
    refine ⟨facts_set h l rfl rfl, ?_, ?_⟩
    · exact { c with
        toTallies := by
          refine c.move hi rfl rfl rfl ?_ rfl ?_
          · exact (Nat.zero_add 1).trans h1.symm
          · rw [hlen]
            rfl
        one := by omega
        elected := fun _ => rfl
        unelected := fun _ _ => .inl (by omega)
        unplanned := fun e => absurd (c.unplanned e).2 (by omega)
        closed := fun h0 hw =>
          (c.closed h0 hw).imp_right (Or.imp_right (Nat.lt_of_lt_of_le · hcloses)) }
    · exact h.pages_of hi l rfl rfl rfl rfl rfl rfl h.pages.fits
        fun e => l.complete (h.pages.success e)
  · rw [advance_of hi a (if_neg h1)]
    set t : State := { s with ids_left := s.ids_left - 1, calls := s.calls.set i .waiting }
    have l : Later s t :=
      ⟨id, fun e => absurd e (Nat.ne_of_gt hpos), id, fun _ => rfl, fun _ => rfl, Nat.le_refl _,
        fun _ _ e => e, fun e => ⟨e, rfl⟩⟩
    have hcloses := count_le' (t := t) hi rfl Pc.closes nofun
    have hunplanned := count_le (t := t) hi rfl Pc.unplanned nofun
    refine ⟨facts_set h l rfl trivial, ?_, ?_⟩
    · exact { c with
        toTallies := by
          refine c.move hi rfl rfl rfl ?_ rfl rfl
          exact Nat.sub_add_cancel hpos
        elected := fun e => absurd (c.elected e) (Nat.ne_of_gt hpos)
        unelected := fun e => absurd (show s.ids_left - 1 = 0 from e) (by omega)
        unplanned := fun e => ⟨by have := (c.unplanned e).1; omega, (c.unplanned e).2⟩
        closed := fun h0 hw =>
          (c.closed h0 hw).imp_right (Or.imp_right (Nat.lt_of_lt_of_le · hcloses)) }
    · exact h.pages_of hi l rfl rfl rfl rfl rfl rfl h.pages.fits
        fun e => l.complete (h.pages.success e)

theorem Inv.electing (h : Inv s) (hi : s.calls[i]? = some .electing) (a : Answer) :
    Inv (s.advance i a) := by
  have hfact : s.ids_left = 0 := h.facts _ (mem_of_getElem? hi)
  have hstage := h.counts.not_copying hi rfl
  have c := h.counts
  rw [advance_of hi a rfl]
  set t : State := { s with stage := .planning, calls := s.calls.set i (.testing .planning) }
  have l : Later s t :=
    ⟨id, fun e => ⟨e, rfl⟩, fun e => absurd e hstage, fun _ => rfl, fun _ => rfl, Nat.le_refl _,
      fun _ _ e => e, fun e => ⟨e, rfl⟩⟩
  have frame : Frame s t :=
    ⟨rfl, rfl, rfl, rfl, rfl, rfl, rfl, ⟨nofun, fun e => absurd e hstage⟩, id⟩
  have hsame : Pc.Same .electing (.testing .planning) := ⟨rfl, rfl, rfl, rfl, fun _ => rfl⟩
  exact {
    facts := facts_set h l rfl hfact
    counts := c.same hi hsame frame rfl
    pages := h.pages_of hi l rfl rfl rfl rfl rfl rfl h.pages.fits
      fun e => l.complete (h.pages.success e) }

theorem Inv.readying (h : Inv s) {p : Plan} (hi : s.calls[i]? = some (.readying p)) (a : Answer) :
    Inv (s.advance i a) := by
  have hfact := h.facts _ (mem_of_getElem? hi)
  have hstage := h.counts.not_copying hi rfl
  have c := h.counts
  have hnone : ¬ s.schedule.isSome := by
    intro e
    have := countP_pos hi Pc.unplanned rfl
    exact absurd (c.unplanned e).1 (Nat.ne_of_gt this)
  have hplans : 0 < s.count Pc.plans := countP_pos hi Pc.plans rfl
  rw [advance_of hi a rfl]
  set t : State := { s with schedule := some p, calls := s.calls.set i .publishing }
  have l : Later s t :=
    ⟨id, fun e => ⟨e, rfl⟩, id, fun e => absurd e hnone, fun _ => rfl, Nat.le_refl _,
      fun _ _ e => e, fun e => ⟨e, rfl⟩⟩
  have hcloses := count_le' (t := t) hi rfl Pc.closes nofun
  have hunplanned : t.count Pc.unplanned = 0 := by
    have e : t.count Pc.unplanned + 1 = s.count Pc.unplanned + 0 := countP_set hi .publishing Pc.unplanned
    have hle : s.count Pc.unplanned ≤ s.count Pc.plans :=
      countP_mono_left fun q _ => Pc.plans_of_unplanned
    have h1 := c.one
    have h2 := c.planners
    omega
  have hfacts : t.Fact (t.failure ≠ .none) .publishing := ⟨hfact.1, .inr rfl⟩
  refine ⟨facts_set h l rfl hfacts, ?_, ?_⟩
  · exact { c with
      toTallies := c.move hi rfl rfl rfl rfl rfl rfl
      unplanned := by
        have h2 := c.planners
        refine fun _ => ⟨hunplanned, ?_⟩
        change 0 < s.planners.length
        omega
      copying := fun e => absurd e hstage
      closed := fun h0 hw =>
        (c.closed h0 hw).imp_right (Or.imp_right (Nat.lt_of_lt_of_le · hcloses)) }
  · refine h.pages_of hi l rfl rfl rfl rfl rfl rfl (fun q e => ?_) fun e => l.complete (h.pages.success e)
    cases e
    exact hfact.2

theorem Inv.publishing (h : Inv s) (hi : s.calls[i]? = some .publishing) (a : Answer) :
    Inv (s.advance i a) := by
  have hfact := h.facts _ (mem_of_getElem? hi)
  have hstage := h.counts.not_copying hi rfl
  have c := h.counts
  rw [advance_of hi a rfl]
  set t : State := { s with stage := .copying, calls := s.calls.set i (.testing .next) }
  have l : Later s t :=
    ⟨id, fun e => ⟨e, rfl⟩, fun _ => rfl, fun _ => rfl, fun _ => rfl, Nat.le_refl _,
      fun _ _ e => e, fun e => ⟨e, rfl⟩⟩
  have hcloses := count_le' (t := t) hi rfl Pc.closes nofun
  have hunplanned := count_le (t := t) hi rfl Pc.unplanned nofun
  have hfacts : t.Fact (t.failure ≠ .none) (.testing .next) := hfact.2.imp_right fun e => ⟨rfl, e⟩
  refine ⟨facts_set h l rfl hfacts, ?_, ?_⟩
  · exact { c with
      toTallies := by
        refine c.move hi rfl rfl rfl rfl rfl ?_
        rw [if_neg hstage]
        rfl
      unplanned := fun e => ⟨by have := (c.unplanned e).1; omega, (c.unplanned e).2⟩
      copying := fun _ => hfact.2.symm
      closed := fun h0 hw =>
        (c.closed h0 hw).imp_right (Or.imp_right (Nat.lt_of_lt_of_le · hcloses)) }
  · exact h.pages_of hi l rfl rfl rfl rfl rfl rfl h.pages.fits fun e => l.complete (h.pages.success e)

/-! ## The pages -/

theorem page_copyPages (s : State) (page : ℕ) :
    (s.copyPages page).breaks ∨ (s.copyPages page).page = some page := by
  unfold copyPages
  split
  · exact .inl rfl
  · exact .inr rfl

theorem Inv.claiming (h : Inv s) (hi : s.calls[i]? = some .claiming) (a : Answer) :
    Inv (s.advance i a) := by
  have hpub : s.Published := h.facts _ (mem_of_getElem? hi)
  have c := h.counts
  by_cases hall : s.plan.pageCount ≤ s.page_cursor
  · rw [advance_of hi a (if_pos hall)]
    set t : State := { s with
      page_cursor := s.page_cursor + 1, calls := s.calls.set i (.testing .last) }
    have l : Later s t :=
      ⟨id, fun e => ⟨e, rfl⟩, id, fun _ => rfl, fun _ => rfl, Nat.le_succ _, fun _ _ e => e,
        fun e => ⟨e, rfl⟩⟩
    have hex : t.Exhausted := ⟨hpub, Nat.le_succ_of_le hall⟩
    have hfacts : t.Fact (t.failure ≠ .none) (.testing .last) := .inr hex
    have hsame : Pc.Same .claiming (.testing .last) := ⟨rfl, rfl, rfl, rfl, nofun⟩
    refine ⟨facts_set h l rfl hfacts, c.same hi hsame ?_ rfl, ?_⟩
    · exact ⟨rfl, rfl, rfl, rfl, rfl, rfl, rfl, Iff.rfl, id⟩
    · exact {
        fits := h.pages.fits
        cursor := fun _ => hpub
        pages := by
          intro page hlt hpage
          have hpage' : page < s.page_cursor := Nat.lt_of_lt_of_le hpage hall
          have old := h.pages.pages page hpage' hpage
          refine old.imp id (Or.imp ?_ id)
          rintro ⟨q, hq, hb⟩
          rcases mem_set_of hi (.testing .last) hq with rfl | hmem
          · rcases hb with hb | hb <;> cases hb
          · exact ⟨q, hmem, hb⟩
        nodup := h.pages.nodup
        taken := fun x hx => Nat.lt_succ_of_lt (h.pages.taken x hx)
        owner := owner_set h hi rfl rfl nofun
        success := fun e => l.complete (h.pages.success e) }
  · rw [advance_of hi a (if_neg hall)]
    set t : State := { s with
      page_cursor := s.page_cursor + 1
      taken := s.taken ++ [(s.page_cursor, i)]
      calls := s.calls.set i (s.copyPages s.page_cursor) }
    have l : Later s t :=
      ⟨id, fun e => ⟨e, rfl⟩, id, fun _ => rfl, fun _ => rfl, Nat.le_succ _, fun _ _ e => e,
        fun e => ⟨e, rfl⟩⟩
    have hself := mem_set_self hi (s.copyPages s.page_cursor)
    have hsame : Pc.Same .claiming (s.copyPages s.page_cursor) := by
      unfold copyPages
      split <;> exact ⟨rfl, rfl, rfl, rfl, nofun⟩
    have hfacts : t.Fact (t.failure ≠ .none) (s.copyPages s.page_cursor) := by
      unfold copyPages
      split
      · exact ⟨nofun, ⟨rfl, nofun⟩, .inl trivial⟩
      · exact hpub
    refine ⟨facts_set h l rfl hfacts, c.same hi hsame ?_ rfl, ?_⟩
    · exact ⟨rfl, rfl, rfl, rfl, rfl, rfl, rfl, Iff.rfl, id⟩
    · exact {
        fits := h.pages.fits
        cursor := fun _ => hpub
        pages := by
          intro page hlt hpage
          rcases Nat.lt_succ_iff_lt_or_eq.1 hlt with hlt | rfl
          · refine (h.pages.pages page hlt hpage).imp id (Or.imp ?_ id)
            rintro ⟨q, hq, hb⟩
            rcases mem_set_of hi (s.copyPages s.page_cursor) hq with rfl | hmem
            · rcases hb with hb | hb <;> cases hb
            · exact ⟨q, hmem, hb⟩
          · exact .inr (.inl ⟨_, hself, page_copyPages s s.page_cursor⟩)
        nodup := by
          change ((s.taken ++ [(s.page_cursor, i)]).map Prod.fst).Nodup
          rw [map_append, nodup_append]
          refine ⟨h.pages.nodup, by simp, ?_⟩
          intro x hx y hy e
          obtain rfl : y = s.page_cursor := mem_singleton.1 hy
          obtain ⟨z, hz, rfl⟩ := mem_map.1 hx
          exact absurd e (Nat.ne_of_lt (h.pages.taken z hz))
        taken := by
          intro x hx
          rcases mem_append.1 hx with hx | hx
          · exact Nat.lt_succ_of_lt (h.pages.taken x hx)
          · obtain rfl := mem_singleton.1 hx
            exact Nat.lt_succ_self _
        owner := by
          intro j q page hq hp
          rcases getElem?_set_of hi (s.copyPages s.page_cursor) hq with ⟨rfl, rfl⟩ | ⟨-, hq⟩
          · refine mem_append_right _ (mem_singleton.2 ?_)
            unfold copyPages at hp
            split at hp
            · cases hp
            · cases hp
              rfl
          · exact mem_append_left _ (h.pages.owner j q page hq hp)
        success := fun e => l.complete (h.pages.success e) }

/-- A copy changes the output, and leaves what was written. -/
theorem later_copy (calls : List Pc) {part : Segment} {block : Bytes}
    (hblock : ∀ k < part.bytes, block k = target s.args.table.bytes s.args.ids.ids (part.start + k)) :
    Later s { s with output := move s.output part.start part.bytes block, calls := calls } where
  failure := id
  ids_left := fun e => ⟨e, rfl⟩
  stage := id
  schedule := fun _ => rfl
  args := fun _ => rfl
  cursor := Nat.le_refl _
  has := fun _ _ hq => Segment.Written.move hq hblock
  left := fun e => ⟨e, rfl⟩

/-- After the copy of its piece, a call goes on in its page. -/
theorem Inv.copied (h : Inv s) {page j : ℕ} {primary : Option Segment}
    (hi : s.calls[i]? = some (.copying page j primary)) {part : Segment} {block : Bytes}
    {primary' : Option Segment} (hpart : s.plan.segments[j]? = some part)
    (hblock : ∀ k < part.bytes, block k = target s.args.table.bytes s.args.ids.ids (part.start + k))
    (hprimary : primary' = primary ∨ primary' = some part) :
    let t : State := { s with output := move s.output part.start part.bytes block }
    Inv { t with calls := t.calls.set i (t.loop page (j + 1) primary') } := by
  intro t
  have hfact : s.Copies page j primary := h.facts _ (mem_of_getElem? hi)
  have hpub := hfact.published
  have l := later_copy s.calls hblock
  have hpart' : t.Has part := written_move hblock
  have hup : t.Upto page (j + 1) := by
    intro m q hm hlt hq
    rcases Nat.lt_succ_iff_lt_or_eq.1 hlt with hlt | rfl
    · exact l.has hpub q (hfact.upto m q hm hlt hq)
    · cases hq.symm.trans hpart
      exact hpart'
  have hprim : ∀ q, primary' = some q → q ∈ t.plan.segments ∧ t.Has q := by
    intro q e
    rcases hprimary with rfl | rfl
    · exact ⟨(hfact.primary q e).1, l.has hpub q (hfact.primary q e).2⟩
    · cases e
      exact ⟨mem_of_getElem? hpart, hpart'⟩
  have l' := later_copy (s.calls.set i (t.loop page (j + 1) primary')) hblock
  have hloop : t.Fact (t.failure ≠ .none) (t.loop page (j + 1) primary') := fact_loop hpub hup hprim
  have hpage := page_loop hup primary'
  refine ⟨facts_set h l' rfl ?_, ?_, ?_⟩
  · exact (Later.calls t _).fact id hloop
  · refine h.counts.same hi (same_loop t page j page (j + 1) primary primary') ?_ rfl
    exact ⟨rfl, rfl, rfl, rfl, rfl, rfl, rfl, Iff.rfl, id⟩
  · exact {
      fits := h.pages.fits
      cursor := h.pages.cursor
      pages := by
        refine pages_set h hi l' rfl rfl fun n hn => ?_
        obtain rfl : page = n := Option.some.inj (hn.resolve_left nofun)
        rcases hpage with hp | ⟨-, hd⟩
        · exact .inr (.inr (.inl hp))
        · exact .inr (.inr (.inr hd))
      nodup := h.pages.nodup
      taken := h.pages.taken
      owner := by
        refine owner_set h hi rfl rfl fun n hn => ?_
        rcases hpage with hp | ⟨hp, -⟩
        · rw [hp] at hn
          exact hn
        · rw [hp] at hn
          cases hn
      success := fun e => l'.complete (h.pages.success e) }

/-- The piece of a page is one of the plan. -/
theorem exists_part (h : Inv s) {page j : ℕ} {primary : Option Segment} (hc : s.Copies page j primary) :
    ∃ part, s.plan.segments[j]? = some part := by
  obtain ⟨p, hp⟩ := Option.isSome_iff_exists.1 hc.published.2
  have hplan : s.plan = p := by
    unfold State.plan
    rw [hp, Option.getD_some]
  have hin := hc.inside
  have hfits := (h.pages.fits p hp).1
  cases hb : s.plan.page_starts[page + 1]? with
  | none =>
    rw [hb] at hin
    cases hin
  | some =>
    rw [hb, Option.getD_some] at hin
    rw [hplan, hfits] at hb
    have hle := page_end_le hb
    rw [hplan, hfits]
    exact ⟨_, List.getElem?_eq_getElem (Nat.lt_of_lt_of_le hin hle)⟩

/-- The pieces of the plan are those of the IDs. -/
theorem mem_plan (h : Inv s) (hpub : s.Published) {part : Segment} (hm : part ∈ s.plan.segments) :
    part ∈ segments s.args.table.base s.args.ids.ids := by
  obtain ⟨p, hp⟩ := Option.isSome_iff_exists.1 hpub.2
  have hplan : s.plan = p := by
    unfold State.plan
    rw [hp, Option.getD_some]
  rw [hplan, (h.pages.fits p hp).1] at hm
  exact hm

theorem Inv.copying (h : Inv s) {page j : ℕ} {primary : Option Segment}
    (hi : s.calls[i]? = some (.copying page j primary)) (a : Answer) : Inv (s.advance i a) := by
  have hfact : s.Copies page j primary := h.facts _ (mem_of_getElem? hi)
  have hpub := hfact.published
  obtain ⟨part, hpart⟩ := exists_part h hfact
  have hmem := mem_plan h hpub (mem_of_getElem? hpart)
  set same := fun q : Segment => decide (q.source_offset = part.source_offset) && decide (q.bytes = part.bytes)
    with hsame
  cases hf : primary.filter same with
  | none =>
    let block : Bytes := fun k => s.args.table.bytes (part.source_offset + k)
    let t : State := { s with output := move s.output part.start part.bytes block }
    have e : s.act i a (.copying page j primary) = (t, t.loop page (j + 1) (some part)) := by
      simp only [act, copy, hpart, ← hsame, hf, t, block]
    rw [advance_of hi a e]
    exact h.copied hi hpart (fun k hk => (target_start hmem hk).symm) (.inr rfl)
  | some q =>
    let block : Bytes := fun k => s.output (q.start + k)
    let t : State := { s with output := move s.output part.start part.bytes block }
    have e : s.act i a (.copying page j primary) = (t, t.loop page (j + 1) primary) := by
      simp only [act, copy, hpart, ← hsame, hf, t, block]
    rw [advance_of hi a e]
    refine h.copied hi hpart (fun k hk => ?_) (.inl rfl)
    obtain ⟨hq, hqp⟩ := Option.filter_eq_some_iff.1 hf
    rw [hsame, Bool.and_eq_true, decide_eq_true_eq, decide_eq_true_eq] at hqp
    obtain ⟨hqmem, hqhas⟩ := hfact.primary q hq
    have hkq : k < q.bytes := by omega
    calc s.output (q.start + k) = target s.args.table.bytes s.args.ids.ids (q.start + k) := hqhas k hkq
      _ = s.args.table.bytes (q.source_offset + k) := target_start (mem_plan h hpub hqmem) hkq
      _ = s.args.table.bytes (part.source_offset + k) := by rw [hqp.1]
      _ = target s.args.table.bytes s.args.ids.ids (part.start + k) := (target_start hmem hk).symm

/-! ## The departure -/

theorem Inv.leaving (h : Inv s) (hi : s.calls[i]? = some .leaving) (a : Answer) :
    Inv (s.advance i a) := by
  have hpos := h.counts.workers_pos hi rfl
  have hfact : s.failure ≠ .none ∨ s.Exhausted := h.facts _ (mem_of_getElem? hi)
  have c := h.counts
  set pc' : Pc := if s.workers_left = 1 then .testing .closing else .joining with hpc'
  rw [advance_of hi a rfl]
  set t : State := { s with workers_left := s.workers_left - 1, calls := s.calls.set i pc' }
  have l : Later s t :=
    ⟨id, fun e => ⟨e, rfl⟩, id, fun _ => rfl, fun _ => rfl, Nat.le_refl _, fun _ _ e => e,
      fun e => absurd e (Nat.ne_of_gt hpos)⟩
  have hdone : s.terminal_done = false := by
    by_contra hd
    exact absurd (c.done (by simpa using hd)) (Nat.ne_of_gt hpos)
  have hflags : pc'.arrived ∧ pc'.left ∧ pc'.plans = false ∧ pc'.unplanned = false ∧
      pc'.page = none := by
    rw [hpc']
    split <;> exact ⟨rfl, rfl, rfl, rfl, rfl⟩
  obtain ⟨farrived, fleft, fplans, funplanned, fpage⟩ := hflags
  have hunplanned := count_le (t := t) hi rfl Pc.unplanned fun e => by
    rw [funplanned] at e
    cases e
  have hfacts : t.Fact (t.failure ≠ .none) pc' := by
    rw [hpc']
    split
    case isTrue h1 =>
      refine ⟨?_, hfact.imp_right l.exhausted⟩
      change s.workers_left - 1 = 0
      omega
    case isFalse => trivial
  refine ⟨facts_set h l rfl hfacts, ?_, ?_⟩
  · exact { c with
      toTallies := by
        refine c.move hi rfl rfl rfl ?_ ?_ ?_
        · rw [farrived]
          rfl
        · rw [fleft]
          exact Nat.sub_add_cancel hpos
        · rw [fplans]
          rfl
      unplanned := fun e => ⟨by have := (c.unplanned e).1; omega, (c.unplanned e).2⟩
      done := by
        intro e
        rw [show t.terminal_done = false from hdone] at e
        cases e
      closed := by
        intro h0 _
        have h1 : s.workers_left = 1 := by
          change s.workers_left - 1 = 0 at h0
          omega
        have e : pc' = .testing .closing := if_pos h1
        refine .inr (.inr (countP_pos_iff.2 ⟨pc', mem_set_self hi pc', ?_⟩))
        rw [e]
        rfl }
  · exact h.pages_of hi l rfl rfl rfl fpage rfl rfl h.pages.fits fun e => l.complete (h.pages.success e)

theorem Inv.storing (h : Inv s) {success : Bool} (hi : s.calls[i]? = some (.storing success))
    (a : Answer) : Inv (s.advance i a) := by
  have hfact := h.facts _ (mem_of_getElem? hi)
  rw [advance_of hi a rfl]
  set t : State := { s with terminal_success := success, calls := s.calls.set i .signalling }
  have l : Later s t :=
    ⟨id, fun e => ⟨e, rfl⟩, id, fun _ => rfl, fun _ => rfl, Nat.le_refl _, fun _ _ e => e,
      fun e => ⟨e, rfl⟩⟩
  have hsame : Pc.Same (.storing success) .signalling := ⟨rfl, rfl, rfl, rfl, nofun⟩
  have hfacts : t.Fact (t.failure ≠ .none) .signalling := hfact.1
  refine ⟨facts_set h l rfl hfacts, h.counts.same hi hsame ?_ rfl, ?_⟩
  · exact ⟨rfl, rfl, rfl, rfl, rfl, rfl, rfl, Iff.rfl, id⟩
  · exact h.pages_of hi l rfl rfl rfl rfl rfl rfl h.pages.fits fun e => l.complete (hfact.2 e)

theorem Inv.signalling (h : Inv s) (hi : s.calls[i]? = some .signalling) (a : Answer) :
    Inv (s.advance i a) := by
  have hfact : s.workers_left = 0 := h.facts _ (mem_of_getElem? hi)
  have c := h.counts
  rw [advance_of hi a rfl]
  set t : State := { s with terminal_done := true, calls := s.calls.set i .joining }
  have l : Later s t :=
    ⟨id, fun e => ⟨e, rfl⟩, id, fun _ => rfl, fun _ => rfl, Nat.le_refl _, fun _ _ e => e,
      fun e => ⟨e, rfl⟩⟩
  have hunplanned := count_le (t := t) hi rfl Pc.unplanned nofun
  refine ⟨facts_set h l rfl trivial, ?_, ?_⟩
  · exact { c with
      toTallies := c.move hi rfl rfl rfl rfl rfl rfl
      unplanned := fun e => ⟨by have := (c.unplanned e).1; omega, (c.unplanned e).2⟩
      done := fun _ => hfact
      closed := fun _ _ => .inr (.inl rfl) }
  · exact h.pages_of hi l rfl rfl rfl rfl rfl rfl h.pages.fits fun e => l.complete (h.pages.success e)

/-- A step of a call keeps the invariant. -/
theorem Inv.advance (h : Inv s) (i : ℕ) (a : Answer) : Inv (s.advance i a) := by
  cases hi : s.calls[i]? with
  | none =>
    unfold State.advance
    rw [hi]
    exact h
  | some pc =>
    cases pc with
    | testing => exact h.testing hi a
    | failing => exact h.failing hi a
    | arriving => exact h.arriving hi a
    | electing => exact h.electing hi a
    | readying => exact h.readying hi a
    | publishing => exact h.publishing hi a
    | waiting => exact h.waiting hi a
    | claiming => exact h.claiming hi a
    | copying => exact h.copying hi a
    | leaving => exact h.leaving hi a
    | storing => exact h.storing hi a
    | signalling => exact h.signalling hi a
    | joining => exact h.joining hi a
    | judging => exact h.judging hi a
    | judged => exact h.judged hi a
    | returned => exact h.returned hi a

end StrixAlloy.PagePhase

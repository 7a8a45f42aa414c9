import StrixAlloy.DeferredZ.Order

/-!
# The calls keep the order

While a context is enabled and not poisoned, `Live` says what its slots hold: a free slot was used by calls
only whose retirement the main stream has passed, a slot with a call on the side stream has its event
`done` behind the work of the call, and a retired slot has its event `retired` behind all of its calls.
-/

namespace StrixAlloy.DeferredZ

open Streams Streams.Device List Function

namespace State

/-! ## Slots -/

/-- The main stream has passed the retirement of every call that used the slot. -/
def Free (s : State) (i : ℕ) : Prop :=
  ∀ r ∈ s.records, r.event.opening = s.openings → r.event.slot = i →
    s.RetiredBefore r (s.device.done .main)

/-- The event `retired` of the slot marks a place behind the retirement of every call that used it. -/
def Retired (s : State) (i : ℕ) : Prop :=
  ∃ p, s.device.recorded (s.event i .retired) = some (.main, p) ∧
    ∀ r ∈ s.records, r.event.opening = s.openings → r.event.slot = i → s.RetiredBefore r (p + 1)

/-- The slot has the call that was captured last on the side stream. -/
structure Queued (s : State) (i : ℕ) : Prop where
  executed : s.serial ∈ s.executed
  done : ∃ d, s.device.recorded (s.event i .done) = some (s.sideStream, d) ∧
    ∀ q k, s.Holds s.serial q k → q = s.sideStream ∧ k < d
  records : ∀ r ∈ s.records, r.event.opening = s.openings → r.event.slot = i →
    s.RetiredBefore r (s.device.done .main) ∨ r.serial = s.serial ∧ r.event.mark ≠ .retired

/-- A context that is enabled and not poisoned. -/
structure Live (s : State) : Prop where
  side : s.side = some s.sideStream
  pending : ∀ i, s.pending = some i → i < s.slot_count ∧
    ((s.slots i).state = .captured ∨ (s.slots i).state = .side_queued)
  others : ∀ i < s.slot_count, (s.slots i).state = .captured ∨ (s.slots i).state = .side_queued →
    s.pending = some i
  captured : ∀ i < s.slot_count, (s.slots i).state = .captured →
    s.serial ∉ s.executed ∧ s.serial < s.captures ∧ s.Free i
  queued : ∀ i < s.slot_count, (s.slots i).state = .side_queued → s.Queued i
  retired : ∀ i < s.slot_count, (s.slots i).state = .retired → s.Retired i
  available : ∀ i < s.slot_count, (s.slots i).state = .available → s.Free i

/-- A context that is neither enabled nor poisoned. -/
structure Idle (s : State) : Prop where
  side : s.side = none
  pending : s.pending = none

structure Inv (s : State) : Prop where
  ordered : Ordered s
  live : s.poisoned = false → s.enabled → Live s
  idle : s.poisoned = false → s.enabled = false → Idle s

/-! ## What a step leaves of a slot -/

/-- From `s` to `t` nothing was recorded of the slots other than `i`. -/
structure Apart (i : ℕ) (s t : State) : Prop where
  openings : t.openings = s.openings
  retirements : ∀ x ∈ s.retirements, x ∈ t.retirements
  done : ∀ q, s.device.done q ≤ t.device.done q
  records : ∀ r ∈ t.records, r.event.slot ≠ i → r ∈ s.records
  recorded : ∀ e : Handle, e.slot ≠ i → t.device.recorded e = s.device.recorded e

variable {i l m w : ℕ} {s t u : State}

theorem Apart.trans (h : Apart i s t) (h' : Apart i t u) : Apart i s u where
  openings := h'.openings.trans h.openings
  retirements := fun x hx => h'.retirements x (h.retirements x hx)
  done := fun q => Nat.le_trans (h.done q) (h'.done q)
  records := fun r hr hne => h.records r (h'.records r hr hne) hne
  recorded := fun e he => (h'.recorded e he).trans (h.recorded e he)

theorem Keeps.apart (k : Keeps s t) (i : ℕ) : Apart i s t where
  openings := k.logs.openings
  retirements := by
    rw [k.logs.retirements]
    exact fun _ => id
  done := k.grows.done
  records := by
    rw [k.records]
    exact fun _ hr _ => hr
  recorded := fun e _ => congrFun k.recorded e

theorem Marked.apart {mark : Mark} (m : Marked s t i mark) : Apart i s t where
  openings := m.logs.openings
  retirements := by
    rw [m.logs.retirements]
    exact fun _ => id
  done := m.grows.done
  records := by
    obtain ⟨r, hrec, hevent, -, -⟩ := m.records
    rw [hrec]
    intro a ha hne
    rcases mem_append.1 ha with ha | ha
    · exact ha
    · obtain rfl := mem_singleton.1 ha
      rw [hevent] at hne
      exact absurd rfl hne
  recorded := fun e he => m.recorded e fun e' => he (by rw [e']; rfl)

theorem Free.apart {j : ℕ} (h : s.Free j) (a : Apart i s t) (hne : j ≠ i) : t.Free j := by
  intro r hr ho hj
  rw [a.openings] at ho
  have hr' := a.records r hr (by rw [hj]; exact hne)
  exact (h r hr' ho hj).mono a.retirements (a.done _)

theorem Retired.apart {j : ℕ} (h : s.Retired j) (a : Apart i s t) (hne : j ≠ i) : t.Retired j := by
  obtain ⟨p, hp, hrec⟩ := h
  have he : t.event j .retired = s.event j .retired := congrArg (Handle.mk · j .retired) a.openings
  refine ⟨p, ?_, fun r hr ho hj => ?_⟩
  · rw [he, a.recorded _ hne]
    exact hp
  · rw [a.openings] at ho
    exact (hrec r (a.records r hr (by rw [hj]; exact hne)) ho hj).mono a.retirements (Nat.le_refl _)

theorem Free.keeps (h : s.Free i) (k : Keeps s t) : t.Free i :=
  h.apart (k.apart (i + 1)) (Nat.ne_of_lt (Nat.lt_succ_self i))

theorem Retired.keeps (h : s.Retired i) (k : Keeps s t) : t.Retired i :=
  h.apart (k.apart (i + 1)) (Nat.ne_of_lt (Nat.lt_succ_self i))

theorem Queued.keeps (h : s.Queued i) (k : Keeps s t) : t.Queued i := by
  have hserial := k.logs.serial
  have hside := k.logs.sideStream
  refine ⟨?_, ?_, ?_⟩
  · rw [hserial, k.logs.executed]
    exact h.executed
  · obtain ⟨d, hd, hw⟩ := h.done
    refine ⟨d, ?_, fun q p e => ?_⟩
    · rw [k.recorded, hside, k.logs.event]
      exact hd
    · rw [hserial] at e
      rw [hside]
      exact hw q p (k.holds.1 e)
  · intro r hr ho hi
    rw [k.records] at hr
    rw [k.logs.openings] at ho
    rw [hserial]
    refine (h.records r hr ho hi).imp_left fun e => e.mono ?_ (k.grows.done _)
    rw [k.logs.retirements]
    exact fun _ => id

/-- The context itself is the same. -/
structure Same (s t : State) : Prop where
  side : t.side = s.side
  slots : t.slots = s.slots
  slot_count : t.slot_count = s.slot_count
  pending : t.pending = s.pending
  enabled : t.enabled = s.enabled
  poisoned : t.poisoned = s.poisoned

theorem Same.trans (h : Same s t) (h' : Same t u) : Same s u :=
  ⟨h'.side.trans h.side, h'.slots.trans h.slots, h'.slot_count.trans h.slot_count,
    h'.pending.trans h.pending, h'.enabled.trans h.enabled, h'.poisoned.trans h.poisoned⟩

theorem same_before (o : Oracle) (s : State) : Same s (s.before o) := ⟨rfl, rfl, rfl, rfl, rfl, rfl⟩

theorem Live.keeps (h : Live s) (k : Keeps s t) (c : Same s t) : Live t := by
  have hserial := k.logs.serial
  constructor
  · rw [c.side, h.side, k.logs.sideStream]
  · rw [c.pending, c.slot_count, c.slots]
    exact h.pending
  · rw [c.pending, c.slot_count, c.slots]
    exact h.others
  · rw [c.slot_count, c.slots, hserial, k.logs.executed, k.logs.captures]
    exact fun i hi e => ⟨(h.captured i hi e).1, (h.captured i hi e).2.1, (h.captured i hi e).2.2.keeps k⟩
  · rw [c.slot_count, c.slots]
    exact fun i hi e => (h.queued i hi e).keeps k
  · rw [c.slot_count, c.slots]
    exact fun i hi e => (h.retired i hi e).keeps k
  · rw [c.slot_count, c.slots]
    exact fun i hi e => (h.available i hi e).keeps k

theorem Inv.keeps (h : Inv s) (k : Keeps s t) (c : Same s t) : Inv t where
  ordered := h.ordered.keeps k
  live := by
    rw [c.poisoned, c.enabled]
    exact fun hp he => (h.live hp he).keeps k c
  idle := by
    rw [c.poisoned, c.enabled]
    exact fun hp he => ⟨c.side.trans (h.idle hp he).side, c.pending.trans (h.idle hp he).pending⟩

/-! ## What a call leaves -/

/-- A call of `capture`, `afterAb` or `joinPending` went from `s` to `t`, with a result. -/
structure Went (s : State) (r : Result) (t : State) : Prop where
  inv : Inv t
  pended : ∀ x ∈ s.pended, x ∈ t.pended
  joined : ∀ x ∈ s.joined, x ∈ t.joined
  fatal : r = .fatal → t.poisoned
  poisoned : s.poisoned → r = .fatal

theorem keeps_poison (s : State) : Keeps s { s with poisoned := true } :=
  ⟨Grows.refl _, id, fun _ _ _ => .inl, rfl, rfl, rfl, rfl, rfl, rfl, rfl, rfl⟩

/-- A failure keeps what holds at every moment. -/
theorem went_fail (h : Ordered t) (hp : t.pended = s.pended) (hj : t.joined = s.joined) :
    Went s t.fail.1 t.fail.2 where
  inv := ⟨h.keeps (keeps_poison t), nofun, nofun⟩
  pended := by
    change ∀ x ∈ s.pended, x ∈ t.pended
    rw [hp]
    exact fun _ => id
  joined := by
    change ∀ x ∈ s.joined, x ∈ t.joined
    rw [hj]
    exact fun _ => id
  fatal := fun _ => rfl
  poisoned := fun _ => rfl

theorem went_disabled (h : Inv s) : Went s s.disabled.1 s.disabled.2 := by
  refine ⟨h, fun _ => id, fun _ => id, fun e => ?_, fun hp => if_pos hp⟩
  by_contra hp
  have : s.disabled.1 = .stock := if_neg hp
  rw [this] at e
  cases e

/-- A call that returns where it did nothing. -/
theorem went_stay (h : Inv s) (hp : s.poisoned = false) : Went s .stock s :=
  ⟨h, fun _ => id, fun _ => id, nofun, fun e => by rw [hp] at e; cases e⟩

/-- What keeps the order before a call changes nothing about it. -/
theorem Went.after {r : Result} (h : Went t r u) (k : Keeps s t) (c : Same s t) : Went s r u where
  __ := h
  pended := by
    rw [← k.logs.pended]
    exact h.pended
  joined := by
    rw [← k.logs.joined]
    exact h.joined
  poisoned := by
    rw [← c.poisoned]
    exact h.poisoned

/-! ## `capture` -/

/-- A retired slot is free where its event `retired` is complete. -/
theorem Retired.free (h : s.Retired i) (hc : s.device.complete (s.event i .retired)) : s.Free i := by
  obtain ⟨p, hp, hrec⟩ := h
  unfold Device.complete at hc
  rw [hp] at hc
  have hlt : p < s.device.done .main := of_decide_eq_true hc
  exact fun r hr ho hi => (hrec r hr ho hi).mono (fun _ => id) hlt

theorem went_take (h : Inv s) (he : s.enabled) (hp : s.poisoned = false) (hnone : s.pending = none)
    (call : FcCall) (hi : i < s.slot_count) (hfree : s.Free i) : Went s .captured (s.take call i) := by
  have hl := h.live hp he
  have hself : ((s.take call i).slots i).state = .captured := by
    change (update s.slots i _ i).state = _
    rw [update_self]
  have hother {j : ℕ} (hne : j ≠ i) : (s.take call i).slots j = s.slots j := update_of_ne hne _ _
  have hidle {j : ℕ} (hj : j < s.slot_count)
      (e : (s.slots j).state = .captured ∨ (s.slots j).state = .side_queued) : False := by
    have := hl.others j hj e
    rw [hnone] at this
    cases this
  refine ⟨⟨?_, fun _ _ => ?_, fun _ e => ?_⟩, fun _ => id, fun _ => id, nofun, fun e => ?_⟩
  · exact ⟨h.ordered.sound, h.ordered.works, h.ordered.nodup,
      fun m hm => Nat.lt_succ_of_lt (h.ordered.captured m hm), h.ordered.behind, h.ordered.ahead,
      h.ordered.records, h.ordered.openings⟩
  · constructor
    · exact hl.side
    · intro j hj
      obtain rfl : i = j := Option.some.inj hj
      exact ⟨hi, .inl hself⟩
    · intro j hj hs
      by_cases hne : j = i
      · rw [hne]
        rfl
      · rw [hother hne] at hs
        exact (hidle hj hs).elim
    · intro j hj hs
      by_cases hne : j = i
      · subst hne
        have hserial : (s.take call j).serial = s.captures := Nat.add_sub_cancel _ 1
        refine ⟨fun hm => ?_, ?_, hfree⟩
        · rw [hserial] at hm
          exact absurd (h.ordered.captured _ hm) (Nat.lt_irrefl _)
        · rw [hserial]
          exact Nat.lt_succ_self _
      · rw [hother hne] at hs
        exact (hidle hj (.inl hs)).elim
    · intro j hj hs
      by_cases hne : j = i
      · rw [hne, hself] at hs
        cases hs
      · rw [hother hne] at hs
        exact (hidle hj (.inr hs)).elim
    · intro j hj hs
      by_cases hne : j = i
      · rw [hne, hself] at hs
        cases hs
      · rw [hother hne] at hs
        exact hl.retired j hj hs
    · intro j hj hs
      by_cases hne : j = i
      · rw [hne, hself] at hs
        cases hs
      · rw [hother hne] at hs
        exact hl.available j hj hs
  · rw [show (s.take call i).enabled = s.enabled from rfl, he] at e
    cases e
  · rw [hp] at e
    cases e

theorem went_pick {o : Oracle} {call : FcCall} {left : ℕ} (h : Inv s) (he : s.enabled)
    (hp : s.poisoned = false) (hnone : s.pending = none) (hle : i + left = s.slot_count) :
    Went s (pick o call i left s).1 (pick o call i left s).2 := by
  induction left generalizing i s with
  | zero => exact went_stay h hp
  | succ left ih =>
    have hl := h.live hp he
    have hi : i < s.slot_count := by omega
    rw [pick]
    split
    case h_1 hr =>
      -- the slot is asked for, and the query may find it still in use
      have k := keeps_query o s i .retired
      have c : Same s (s.eventQuery o i .retired).2 := same_before o s
      have ht := h.keeps k c
      set x := s.eventQuery o i .retired with hx
      have he' : x.2.enabled := c.enabled.trans he
      have hp' : x.2.poisoned = false := c.poisoned.trans hp
      have hnone' : x.2.pending = none := c.pending.trans hnone
      dsimp only
      split
      case isTrue hzero =>
        have hcomplete : x.2.device.complete (x.2.event i .retired) := by
          by_contra hn
          rw [Bool.not_eq_true] at hn
          rw [hx, eventQuery] at hzero hn
          rw [hn, Bool.not_false, Bool.and_true] at hzero
          split at hzero
          · cases hzero
          case isFalse hne => exact hne (decide_eq_true hzero)
        have hfree := ((hl.retired i hi hr).keeps k).free hcomplete
        refine (went_take ht he' hp' hnone' call ?_ hfree).after k c
        rw [c.slot_count]
        exact hi
      case isFalse =>
        split
        · exact went_fail ht.ordered k.logs.pended k.logs.joined
        · refine (ih ht he' hp' hnone' ?_).after k c
          rw [c.slot_count, ← hle]
          omega
    case h_2 ha => exact went_take h he hp hnone call hi (hl.available i hi ha)
    case h_3 => exact ih h he hp hnone (by omega)

theorem went_capture (h : Inv s) (o : Oracle) (by' : Caller) (call : FcCall) :
    Went s (s.capture o by' call).1 (s.capture o by' call).2 := by
  unfold capture
  by_cases he : s.enabled
  · rw [if_neg (by simp [he])]
    split
    · exact went_fail h.ordered rfl rfl
    case isFalse hguard =>
      simp only [Bool.or_eq_true, not_or, Bool.not_eq_true, Option.isSome_eq_false_iff,
        Option.isNone_iff_eq_none] at hguard
      obtain ⟨⟨⟨-, hp⟩, hnone⟩, -⟩ := hguard
      split
      · exact went_stay h hp
      · exact went_pick h he hp hnone (Nat.zero_add _)
  · rw [if_pos (by simp [he])]
    exact went_disabled h

/-! ## `afterAb` -/

/-- The captured call `m` ran from `s` to `t`, with its work on the side stream `q` behind `w`. -/
structure Ran (s t : State) (m : ℕ) (q : Stream) (w : ℕ) : Prop where
  ordered : Ordered t
  running : Running t m q w
  same : Same s t
  logs : Logs s t
  grows : Grows s.device t.device
  records : t.records = s.records
  recorded : t.device.recorded = s.device.recorded

theorem Ran.refl {q : Stream} (h : Ordered s) (r : Running s m q w) :
    Ran s s m q w := ⟨h, r, ⟨rfl, rfl, rfl, rfl, rfl, rfl⟩, Logs.refl s, Grows.refl _, rfl, rfl⟩

theorem Ran.trans {q : Stream} (h : Ran s t m q w) (h' : Ran t u m q w) : Ran s u m q w :=
  ⟨h'.ordered, h'.running, h.same.trans h'.same, h.logs.trans h'.logs, h.grows.trans h'.grows,
    h'.records.trans h.records, h'.recorded.trans h.recorded⟩

theorem ran_keeps {q : Stream} (h : Ordered s) (r : Running s m q w) (k : Keeps s t) (c : Same s t) : Ran s t m q w :=
  ⟨h.keeps k, r.keeps k, c, k.logs, k.grows, k.records, k.recorded⟩

/-- The stream that an interposer passes on is the side stream. -/
theorem prepare_fst {r r' : Redirect} {sub : Submission} {requested q : Stream}
    (h : s.prepare r sub requested = (some q, r')) : q = s.sideStream := by
  unfold prepare at h
  generalize (if sub.nested || !sub.observed then { r with failed := true } else r) = r at h
  dsimp only at h
  split at h
  · cases h
  · split at h
    · cases h
    · exact (Option.some.inj (congrArg Prod.fst h)).symm

theorem ran_launch (h : Ordered s) (r : Running s s.serial s.sideStream w) (o : Oracle) :
    Ran s (s.launch o s.sideStream s.serial).2 s.serial s.sideStream w := by
  obtain ⟨ho, hr⟩ := h.launch r o
  have k := keeps_before o s
  refine ⟨ho, hr, ?_, logs_launch o s _ _, grows_launch o s _ _, ?_, ?_⟩
  · unfold launch
    split <;> exact ⟨rfl, rfl, rfl, rfl, rfl, rfl⟩
  · unfold launch
    split <;> rfl
  · unfold launch
    split <;> exact k.recorded

theorem ran_submit (h : Ordered s) (r : Running s s.serial s.sideStream w) (o : Oracle) (x : Redirect)
    (sub : Submission) : Ran s (s.submit o x sub).1 s.serial s.sideStream w := by
  unfold submit
  cases sub.kind with
  | temporary => exact Ran.refl h r
  | enqueue =>
    dsimp only
    split
    · exact Ran.refl h r
    case h_2 hq =>
      obtain rfl := prepare_fst hq
      exact ran_launch h r o
  | synchronize =>
    dsimp only
    split
    · exact Ran.refl h r
    case h_2 q _ _ => exact ran_keeps h r (keeps_sync o s q) (same_before o s)

theorem ran_original (h : Ordered s) (r : Running s s.serial s.sideStream w) (o : Oracle) (x : Redirect)
    (subs : List Submission) : Ran s (s.original o x subs).1 s.serial s.sideStream w := by
  induction subs generalizing s x with
  | nil => exact Ran.refl h r
  | cons sub subs ih =>
    have hs := ran_submit h r o x sub
    have hserial := hs.logs.serial
    have hside := hs.logs.sideStream
    have := ih hs.ordered (by rw [hserial, hside]; exact hs.running) (s.submit o x sub).2
    rw [hserial, hside] at this
    exact hs.trans this

theorem Ran.apart {q : Stream} (h : Ran s t m q w) (i : ℕ) : Apart i s t where
  openings := h.logs.openings
  retirements := by
    rw [h.logs.retirements]
    exact fun _ => id
  done := h.grows.done
  records := by
    rw [h.records]
    exact fun _ hr _ => hr
  recorded := fun e _ => congrFun h.recorded e

/-- The records of a slot whose call is under way: the call of each is retired, or it is this call. -/
def Mine (s : State) (i : ℕ) (marks : Mark → Prop) : Prop :=
  ∀ r ∈ s.records, r.event.opening = s.openings → r.event.slot = i →
    s.RetiredBefore r (s.device.done .main) ∨ r.serial = s.serial ∧ marks r.event.mark

theorem Mine.keeps {marks : Mark → Prop} (h : s.Mine i marks) (hrecords : t.records = s.records) (l : Logs s t)
    (g : Grows s.device t.device) : t.Mine i marks := by
  intro r hr ho hi
  rw [hrecords] at hr
  rw [l.openings] at ho
  rw [l.serial]
  refine (h r hr ho hi).imp_left fun e => e.mono ?_ (g.done _)
  rw [l.retirements]
  exact fun _ => id

/-- A record of another event of the slot. -/
theorem Mine.marked {mark : Mark} {marks marks' : Mark → Prop} (h : s.Mine i marks) (m : Marked s t i mark)
    (hm : marks' mark) (hle : ∀ x, marks x → marks' x) : t.Mine i marks' := by
  obtain ⟨r', hrec, hevent, hserial, -⟩ := m.records
  intro r hr ho hi
  rw [hrec] at hr
  rw [m.logs.openings] at ho
  rw [m.logs.serial]
  rcases mem_append.1 hr with hr | hr
  · refine (h r hr ho hi).imp (fun e => e.mono ?_ (m.grows.done _)) fun e => ⟨e.1, hle _ e.2⟩
    rw [m.logs.retirements]
    exact fun _ => id
  · obtain rfl := mem_singleton.1 hr
    refine .inr ⟨hserial, ?_⟩
    rw [hevent]
    exact hm

/-- An event of the slot that this call has not recorded can be recorded. -/
theorem Mine.record {mark : Mark} {marks : Mark → Prop} (h : s.Mine i marks) (hm : ¬ marks mark) :
    ∀ r ∈ s.records, r.event = s.event i mark → s.RetiredBefore r (s.device.done .main) := by
  intro r hr e
  refine (h r hr (by rw [e]; rfl) (by rw [e]; rfl)).resolve_right fun hx => hm ?_
  rw [e] at hx
  exact hx.2

/-- The side stream waits at `w` for the place `l` of the main stream, and the call has not run. -/
structure Forked (s : State) (i l w : ℕ) : Prop where
  ordered : Ordered s
  fresh : s.serial ∉ s.executed
  captured : s.serial < s.captures
  place : w < (s.device.queue s.sideStream).length
  wait : (s.device.queue s.sideStream)[w]? = some (.wait (some (.main, l)))
  mine : s.Mine i (· = .fork)

/-- The call is counted as executed. -/
def execute (s : State) : State := { s with executed := s.executed ++ [s.serial] }

theorem Forked.execute (f : Forked s i l w) :
    Ordered s.execute ∧ Running s.execute s.serial s.sideStream w := by
  have h := f.ordered
  have hmem {m : ℕ} (hm : m ∈ s.executed) : m ∈ s.execute.executed := mem_append_left _ hm
  refine ⟨?_, ?_⟩
  · exact { h with
      works := fun m q k e => ⟨hmem (h.works m q k e).1, (h.works m q k e).2⟩
      nodup := by
        refine nodup_append.2 ⟨h.nodup, by simp, fun a ha b hb e => ?_⟩
        rw [mem_singleton.1 hb] at e
        rw [e] at ha
        exact f.fresh ha
      captured := by
        intro m hm
        rcases mem_append.1 hm with hm | hm
        · exact h.captured m hm
        · rw [mem_singleton.1 hm]
          exact f.captured
      behind := fun x hx => ⟨hmem (h.behind x hx).1, (h.behind x hx).2⟩
      ahead := fun x hx => ⟨hmem (h.ahead x hx).1, (h.ahead x hx).2⟩ }
  · exact {
      executed := mem_append_right _ (mem_singleton_self _)
      pended := fun x hx e => f.fresh (e ▸ (h.behind x hx).1)
      joined := fun x hx e => f.fresh (e ▸ (h.ahead x hx).1)
      side := nofun
      behind := fun p k e => absurd (h.works _ p k e).1 f.fresh
      place := f.place }

/-- A slot of another call stays as it is while the call of slot `i` is under way. -/
theorem Live.apart (h : Live s) (hpending : s.pending = some i) (a : Apart i s t) (hside : t.side = s.side)
    (hcount : t.slot_count = s.slot_count) (hpending' : t.pending = some i)
    (hslots : ∀ j, j ≠ i → t.slots j = s.slots j) (hstate : (t.slots i).state = .side_queued) (hqueued : t.Queued i) :
    Live t := by
  have hother {j : ℕ} (hj : j < s.slot_count) (hne : j ≠ i) :
      ¬ ((s.slots j).state = .captured ∨ (s.slots j).state = .side_queued) := by
    intro e
    have := (h.others j hj e).symm.trans hpending
    exact hne (Option.some.inj this)
  constructor
  · rw [hside, h.side]
    unfold sideStream
    rw [a.openings]
  · intro j hj
    obtain rfl : i = j := Option.some.inj (hpending'.symm.trans hj)
    rw [hcount]
    exact ⟨(h.pending i hpending).1, .inr hstate⟩
  · intro j hj e
    rw [hcount] at hj
    by_cases hne : j = i
    · rw [hne]
      exact hpending'
    · rw [hslots j hne] at e
      exact absurd e (hother hj hne)
  · intro j hj e
    rw [hcount] at hj
    by_cases hne : j = i
    · rw [hne, hstate] at e
      cases e
    · rw [hslots j hne] at e
      exact absurd (.inl e) (hother hj hne)
  · intro j hj e
    rw [hcount] at hj
    by_cases hne : j = i
    · rw [hne]
      exact hqueued
    · rw [hslots j hne] at e
      exact absurd (.inr e) (hother hj hne)
  · intro j hj e
    rw [hcount] at hj
    by_cases hne : j = i
    · rw [hne, hstate] at e
      cases e
    · rw [hslots j hne] at e
      exact (h.retired j hj e).apart a hne
  · intro j hj e
    rw [hcount] at hj
    by_cases hne : j = i
    · rw [hne, hstate] at e
      cases e
    · rw [hslots j hne] at e
      exact (h.available j hj e).apart a hne

/-- After its call ran and `done` was recorded behind it, the slot holds the call. -/
theorem queued_record {o : Oracle} (r : Running s s.serial s.sideStream w) (hmine : s.Mine i (· = .fork))
    (hok : (s.eventRecord o i .done s.sideStream).1 = 0) :
    (s.eventRecord o i .done s.sideStream).2.Queued i := by
  have m := marked_record o s i .done s.sideStream
  obtain ⟨hle, -, hrec⟩ := record_ok hok
  have hserial := m.logs.serial
  have hside := m.logs.sideStream
  refine ⟨?_, ⟨((s.before o).device.queue s.sideStream).length, ?_, ?_⟩, ?_⟩
  · rw [hserial, m.logs.executed]
    exact r.executed
  · rw [hside, m.logs.event]
    exact hrec
  · intro q k e
    rw [hserial] at e
    have e := m.holds.1 e
    obtain ⟨rfl, -⟩ := r.behind q k e
    refine ⟨hside.symm, Nat.lt_of_lt_of_le ?_ hle⟩
    exact (List.getElem?_eq_some_iff.1 e).1
  · have hrecords : (s.eventRecord o i .done s.sideStream).2.Mine i (· ≠ .retired) :=
      hmine.marked m nofun fun x hx => by
        rw [hx]
        nofun
    exact hrecords

theorem same_record (o : Oracle) (s : State) (i : ℕ) (mark : Mark) (q : Stream) :
    Same s (s.eventRecord o i mark q).2 := by
  unfold eventRecord
  split <;> exact ⟨rfl, rfl, rfl, rfl, rfl, rfl⟩

theorem same_wait (o : Oracle) (s : State) (q : Stream) (i : ℕ) (mark : Mark) :
    Same s (s.streamWait o q i mark).2 := by
  unfold streamWait
  split <;> exact ⟨rfl, rfl, rfl, rfl, rfl, rfl⟩

/-- The order of a call whose work is behind the wait at `w` is on record. -/
theorem ordered_pended {main_length : ℕ} (h : Ordered s) (r : Running s s.serial s.sideStream w)
    (hw : (s.device.queue s.sideStream)[w]? = some (.wait (some (.main, l)))) (hle : main_length ≤ l) :
    Ordered { s with pended := s.pended ++ [⟨s.serial, main_length⟩] } := by
  refine { h with behind := fun x hx => ?_ }
  rcases mem_append.1 hx with hx | hx
  · exact h.behind x hx
  · obtain rfl := mem_singleton.1 hx
    refine ⟨r.executed, fun q k e => ?_⟩
    obtain ⟨rfl, hlt⟩ := r.behind q k e
    exact ⟨w, l, hlt, hw, hle⟩

theorem went_runCall {s₀ : State} {main_length : ℕ} (hl : Live s₀) (he : s₀.enabled)
    (hp : s₀.poisoned = false) (hpending : s₀.pending = some i) (a : Apart i s₀ s) (c : Same s₀ s) (hlogs : Logs s₀ s)
    (f : Forked s i l w) (hle : main_length ≤ l) (o : Oracle) (redirecting : Bool) (subs : List Submission)
    (throws : Bool) : Went s₀ (s.runCall o i redirecting subs throws main_length).1
      (s.runCall o i redirecting subs throws main_length).2 := by
  set s₁ := s.setState i .side_queued with hs₁
  have k₁ : Keeps s s₁ := keeps_setSlot s i _
  have f₁ : Forked s₁ i l w := ⟨f.ordered.keeps k₁, f.fresh, f.captured, f.place, f.wait, f.mine⟩
  obtain ⟨ho₂, hr₂⟩ := f₁.execute
  have ran := ran_original ho₂ hr₂ o ⟨false, 0⟩ subs
  set t := (s₁.execute.original o ⟨false, 0⟩ subs).1 with ht
  have hpended : t.pended = s₀.pended := ran.logs.pended.trans hlogs.pended
  have hjoined : t.joined = s₀.joined := ran.logs.joined.trans hlogs.joined
  have hmine₂ : s₁.execute.Mine i (· = .fork) := f.mine
  have hmine : t.Mine i (· = .fork) := hmine₂.keeps ran.records ran.logs ran.grows
  have hfail {u : State} (hu : Ordered u) (h1 : u.pended = s₀.pended) (h2 : u.joined = s₀.joined) :
      Went s₀ u.fail.1 u.fail.2 := went_fail hu h1 h2
  unfold runCall
  rw [← hs₁]
  dsimp only
  split
  · exact hfail f₁.ordered hlogs.pended hlogs.joined
  · change Went s₀ (if _ then t.fail else _).1 (if _ then t.fail else _).2
    split
    · exact hfail ran.ordered hpended hjoined
    · have hserial : t.serial = s.serial := ran.logs.serial
      have hside : t.sideStream = s.sideStream := ran.logs.sideStream
      have hrunning : Running t t.serial t.sideStream w := by
        rw [hserial, hside]
        exact ran.running
      have m := marked_record o t i .done t.sideStream
      have hordered := ran.ordered.record o (i := i) (k := .done) t.sideStream (hmine.record nofun)
      split
      · exact hfail hordered (m.logs.pended.trans hpended) (m.logs.joined.trans hjoined)
      case isFalse hok =>
        have hok := not_not.1 hok
        have hqueued := queued_record hrunning hmine hok
        have hslots : ∀ j, j ≠ i → t.slots j = s₀.slots j := fun j hne =>
          (congrFun ran.same.slots j).trans ((update_of_ne hne _ _).trans (congrFun c.slots j))
        have hstate : (t.slots i).state = .side_queued := by
          rw [ran.same.slots]
          change (update s.slots i _ i).state = _
          rw [update_self]
        have hwait := m.grows.getElem? (ran.grows.getElem? f.wait)
        have a₂ : Apart i s₀ s₁.execute := { a with }
        have a₃ := (a₂.trans (ran.apart i)).trans m.apart
        have c₃ := ran.same.trans (same_record o t i .done t.sideStream)
        set u := (t.eventRecord o i .done t.sideStream).2 with hu
        have hrunning' : Running u u.serial u.sideStream w := by
          rw [m.logs.serial, m.logs.sideStream]
          refine ⟨?_, ?_, ?_, hrunning.side, fun p k e => hrunning.behind p k (m.holds.1 e),
            Nat.lt_of_lt_of_le hrunning.place (m.grows.length_le _)⟩
          · rw [m.logs.executed]
            exact hrunning.executed
          · rw [m.logs.pended]
            exact hrunning.pended
          · rw [m.logs.joined]
            exact hrunning.joined
        have huside : u.sideStream = s.sideStream := m.logs.sideStream.trans hside
        have hwait' : (u.device.queue u.sideStream)[w]? = some (.wait (some (.main, l))) := by
          rw [huside]
          exact hwait
        refine ⟨⟨ordered_pended hordered hrunning' hwait' hle, fun _ _ => ?_, fun _ e => ?_⟩, ?_, ?_, nofun,
          ?_⟩
        · refine Live.apart hl hpending ⟨a₃.openings, a₃.retirements, a₃.done, a₃.records, a₃.recorded⟩
            (c₃.side.trans c.side) (c₃.slot_count.trans c.slot_count)
            (c₃.pending.trans (c.pending.trans hpending)) (fun j hne => ?_) ?_
            ⟨hqueued.executed, hqueued.done, hqueued.records⟩
          · exact (congrFun (same_record o t i .done t.sideStream).slots j).trans (hslots j hne)
          · exact (congrArg Slot.state (congrFun (same_record o t i .done t.sideStream).slots i)).trans hstate
        · have := (c₃.enabled.trans c.enabled).trans he
          rw [show u.enabled = false from e] at this
          cases this
        · intro x hx
          refine mem_append_left _ ?_
          change x ∈ u.pended
          rw [m.logs.pended, hpended]
          exact hx
        · intro x hx
          change x ∈ u.joined
          rw [m.logs.joined, hjoined]
          exact hx
        · intro e
          rw [hp] at e
          cases e

theorem went_afterAb (h : Inv s) (o : Oracle) (by' : Caller) (subs : List Submission) (throws : Bool) :
    Went s (s.afterAb o by' subs throws).1 (s.afterAb o by' subs throws).2 := by
  unfold afterAb
  by_cases he : s.enabled
  · rw [if_neg (by simp [he])]
    split
    · exact went_fail h.ordered rfl rfl
    case isFalse hguard =>
      simp only [Bool.or_eq_true, not_or, Bool.not_eq_true] at hguard
      obtain ⟨-, hp⟩ := hguard
      have hl := h.live hp he
      split
      · exact went_fail h.ordered rfl rfl
      case h_2 i hpending =>
        split
        · exact went_fail h.ordered rfl rfl
        case isFalse hstate =>
          have hstate := not_not.1 hstate
          obtain ⟨hi, -⟩ := hl.pending i hpending
          obtain ⟨hfresh, hcaptured, hfree⟩ := hl.captured i hi hstate
          dsimp only
          -- the fork is recorded on the main stream, behind all that is enqueued there
          set s₀ : State := { s with touched := true } with hs₀
          have ho₀ : Ordered s₀ := ⟨h.ordered.sound, h.ordered.works, h.ordered.nodup, h.ordered.captured,
            h.ordered.behind, h.ordered.ahead, h.ordered.records, h.ordered.openings⟩
          have hmine₀ : s₀.Mine i fun _ => False := fun r hr ho hi => .inl (hfree r hr ho hi)
          have m := marked_record o s₀ i .fork .main
          have ho₁ := ho₀.record o (i := i) (k := .fork) .main (hmine₀.record id)
          have hmine₁ : (s₀.eventRecord o i .fork .main).2.Mine i (· = .fork) :=
            hmine₀.marked m rfl nofun
          have c₁ := same_record o s₀ i .fork .main
          split
          · exact went_fail ho₁ m.logs.pended m.logs.joined
          case isFalse hok =>
            obtain ⟨hle, -, hfork⟩ := record_ok (not_not.1 hok)
            set x := s₀.eventRecord o i .fork .main with hx
            have k₂ := keeps_wait o x.2 x.2.sideStream i .fork
            have c₂ := same_wait o x.2 x.2.sideStream i .fork
            split
            · refine went_fail (ho₁.keeps k₂) ?_ ?_
              · exact k₂.logs.pended.trans m.logs.pended
              · exact k₂.logs.joined.trans m.logs.joined
            case isFalse hok₂ =>
              obtain ⟨w, -, hlt, hwait⟩ := wait_ok (not_not.1 hok₂)
              set y := x.2.streamWait o x.2.sideStream i .fork with hy
              have hlogs : Logs s y.2 :=
                Logs.trans ⟨m.logs.openings, m.logs.captures, m.logs.executed, m.logs.retirements,
                  m.logs.pended, m.logs.joined⟩ k₂.logs
              have ha : Apart i s y.2 :=
                Apart.trans ⟨m.apart.openings, m.apart.retirements, m.apart.done, m.apart.records,
                  m.apart.recorded⟩ (k₂.apart i)
              have hc : Same s y.2 :=
                Same.trans ⟨c₁.side, c₁.slots, c₁.slot_count, c₁.pending, c₁.enabled, c₁.poisoned⟩ c₂
              rw [m.logs.event, hfork] at hwait
              have hforked : Forked y.2 i ((s₀.before o).device.queue .main).length w := {
                ordered := ho₁.keeps k₂
                fresh := by
                  rw [hlogs.serial, hlogs.executed]
                  exact hfresh
                captured := by
                  rw [hlogs.serial, hlogs.captures]
                  exact hcaptured
                place := by
                  rw [k₂.logs.sideStream]
                  exact hlt
                wait := by
                  rw [k₂.logs.sideStream]
                  exact hwait
                mine := hmine₁.keeps k₂.records k₂.logs k₂.grows }
              exact went_runCall hl he hp hpending ha hc hlogs hforked hle o by'.redirecting subs throws
  · rw [if_pos (by simp [he])]
    exact went_disabled h

/-! ## `joinPending` -/

/-- The context after its call was joined at a place of the main stream. -/
def retire (s : State) (i place : ℕ) : State :=
  { s.setState i .retired with
    pending := none
    call := none
    retirements := s.retirements ++ [(s.serial, place)]
    joined := s.joined ++ [⟨s.serial, (s.device.queue .main).length⟩] }

/-- What holds after the wait for `done` and the record of `retired` succeeded. -/
structure Joining (s : State) (i place : ℕ) : Prop where
  ordered : Ordered s
  executed : s.serial ∈ s.executed
  ahead : s.Ahead ⟨s.serial, (s.device.queue .main).length⟩
  recorded : s.device.recorded (s.event i .retired) = some (.main, place)
  records : ∀ r ∈ s.records, r.event.opening = s.openings → r.event.slot = i →
    s.RetiredBefore r place ∨ r.serial = s.serial

theorem Joining.ordered_retire {place : ℕ} (h : Joining s i place) : Ordered (s.retire i place) := by
  have ho := h.ordered
  refine { ho with ahead := fun x hx => ?_, records := ?_ }
  · rcases mem_append.1 hx with hx | hx
    · exact ho.ahead x hx
    · obtain rfl := mem_singleton.1 hx
      exact ⟨h.executed, h.ahead⟩
  · refine ho.records.imp fun hab e => (hab e).mono (fun x hx => ?_) (Nat.le_refl _)
    exact mem_append_left _ hx

theorem Joining.live {s₀ : State} {place : ℕ} (h : Joining s i place) (hl : Live s₀) (hpending : s₀.pending = some i)
    (a : Apart i s₀ s) (c : Same s₀ s) : Live (s.retire i place) := by
  have hself : ((s.retire i place).slots i).state = .retired := by
    change (update s.slots i _ i).state = _
    rw [update_self]
  have hslots {j : ℕ} (hne : j ≠ i) : (s.retire i place).slots j = s₀.slots j :=
    (update_of_ne hne _ _).trans (congrFun c.slots j)
  have hcount : (s.retire i place).slot_count = s₀.slot_count := c.slot_count
  have a' : Apart i s₀ (s.retire i place) :=
    ⟨a.openings, fun x hx => mem_append_left _ (a.retirements x hx), a.done, a.records, a.recorded⟩
  have hidle {j : ℕ} (hj : j < s₀.slot_count) (e : ((s.retire i place).slots j).state = .captured ∨
      ((s.retire i place).slots j).state = .side_queued) : False := by
    by_cases hne : j = i
    · rw [hne, hself] at e
      rcases e with e | e <;> cases e
    · rw [hslots hne] at e
      exact hne (Option.some.inj ((hl.others j hj e).symm.trans hpending))
  constructor
  · rw [show (s.retire i place).side = s₀.side from c.side, hl.side]
    exact congrArg (fun n => some (Stream.side n)) a.openings.symm
  · intro j hj
    cases hj
  · intro j hj e
    rw [hcount] at hj
    exact (hidle hj e).elim
  · intro j hj e
    rw [hcount] at hj
    exact (hidle hj (.inl e)).elim
  · intro j hj e
    rw [hcount] at hj
    exact (hidle hj (.inr e)).elim
  · intro j hj e
    rw [hcount] at hj
    by_cases hne : j = i
    · subst hne
      refine ⟨place, h.recorded, fun r hr ho hi => ?_⟩
      rcases h.records r hr ho hi with hr | hr
      · exact hr.mono (fun x hx => mem_append_left _ hx) (Nat.le_succ _)
      · exact ⟨place, mem_append_right _ (by rw [hr]; exact mem_singleton_self _),
          Nat.lt_succ_self _⟩
    · rw [hslots hne] at e
      exact (hl.retired j hj e).apart a' hne
  · intro j hj e
    rw [hcount] at hj
    by_cases hne : j = i
    · rw [hne, hself] at e
      cases e
    · rw [hslots hne] at e
      exact (hl.available j hj e).apart a' hne

theorem went_joinPending (h : Inv s) (o : Oracle) (by' : Caller) :
    Went s (s.joinPending o by').1 (s.joinPending o by').2 := by
  unfold joinPending
  by_cases he : s.enabled
  · rw [if_neg (by simp [he])]
    split
    · exact went_fail h.ordered rfl rfl
    case isFalse hguard =>
      simp only [Bool.or_eq_true, not_or, Bool.not_eq_true] at hguard
      obtain ⟨-, hp⟩ := hguard
      have hl := h.live hp he
      split
      · exact went_stay h hp
      case h_2 i hpending =>
        split
        · exact went_fail h.ordered rfl rfl
        case isFalse hstate =>
          have hq := hl.queued i (hl.pending i hpending).1 (not_not.1 hstate)
          dsimp only
          have k₁ := keeps_wait o s .main i .done
          have c₁ := same_wait o s .main i .done
          have ho₁ := h.ordered.keeps k₁
          have hmine₁ : (s.streamWait o .main i .done).2.Mine i (· ≠ .retired) :=
            Mine.keeps hq.records k₁.records k₁.logs k₁.grows
          split
          · exact went_fail ho₁ k₁.logs.pended k₁.logs.joined
          case isFalse hok₁ =>
            obtain ⟨w, -, hlt, hwait⟩ := wait_ok (not_not.1 hok₁)
            set x := s.streamWait o .main i .done with hx
            have m := marked_record o x.2 i .retired .main
            have c₂ := same_record o x.2 i .retired .main
            have ho₂ := ho₁.record o .main (hmine₁.record fun e => e rfl)
            split
            · refine went_fail ho₂ ?_ ?_
              · exact m.logs.pended.trans k₁.logs.pended
              · exact m.logs.joined.trans k₁.logs.joined
            case isFalse hok₂ =>
              obtain ⟨hle, -, hrecorded⟩ := record_ok (not_not.1 hok₂)
              set y := x.2.eventRecord o i .retired .main with hy
              set place := ((x.2.before o).device.queue .main).length
              have hlogs : Logs s y.2 := k₁.logs.trans m.logs
              have hj : Joining y.2 i place := by
                refine ⟨ho₂, ?_, ?_, ?_, ?_⟩
                · rw [hlogs.serial, hlogs.executed]
                  exact hq.executed
                · intro q k e
                  rw [hlogs.serial] at e
                  obtain ⟨d, hd, hwork⟩ := hq.done
                  obtain ⟨rfl, hk⟩ := hwork q k (k₁.holds.1 (m.holds.1 e))
                  rw [hd] at hwait
                  exact ⟨w, d, Nat.lt_of_lt_of_le hlt (m.grows.length_le _), m.grows.getElem? hwait, hk⟩
                · rw [m.logs.event]
                  exact hrecorded
                · intro r hr ho hi
                  obtain ⟨r', hrec, -, hserial, -⟩ := m.records
                  rw [hrec] at hr
                  rcases mem_append.1 hr with hr | hr
                  · rw [m.logs.openings] at ho
                    rw [m.logs.serial]
                    refine (hmine₁ r hr ho hi).imp (fun e => ?_) And.left
                    refine e.mono ?_ (Nat.le_trans (ho₁.sound.done_le .main) hle)
                    rw [m.logs.retirements]
                    exact fun _ => id
                  · obtain rfl := mem_singleton.1 hr
                    rw [m.logs.serial]
                    exact .inr hserial
              change Went s .joined (y.2.retire i place)
              refine ⟨⟨hj.ordered_retire, fun _ _ => ?_, fun _ e => ?_⟩, fun z hz => ?_, fun z hz => ?_, nofun,
                fun e => ?_⟩
              · exact hj.live hl hpending ((k₁.apart i).trans m.apart) (c₁.trans c₂)
              · have := ((c₁.trans c₂).enabled.trans he).symm.trans e
                cases this
              · change z ∈ y.2.pended
                rw [hlogs.pended]
                exact hz
              · refine mem_append_left _ ?_
                rw [hlogs.joined]
                exact hz
              · rw [hp] at e
                cases e
  · rw [if_pos (by simp [he])]
    exact went_disabled h

end State

end StrixAlloy.DeferredZ

import StrixAlloy.DeferredZ.Calls
import StrixAlloy.Lib.Runs

/-!
# The deferred projection over all runs

`open` and `close` keep the order as the other calls do (`Stepped`), and so does every run. The result is
stated on the queues: what may have started, and what is complete by then (`Sound`).
-/

namespace StrixAlloy.DeferredZ

open Streams Streams.Device Function

namespace State

/-! ## `close` -/

/-- Operations that enqueue nothing, and leave the context apart from its slots. -/
structure Handles (s t : State) : Prop where
  keeps : Keeps s t
  side : t.side = s.side
  slot_count : t.slot_count = s.slot_count
  pending : t.pending = s.pending
  enabled : t.enabled = s.enabled
  poisoned : t.poisoned = s.poisoned

theorem Handles.refl (s : State) : Handles s s := ⟨Keeps.refl s, rfl, rfl, rfl, rfl, rfl⟩

variable {s t : State}

theorem Handles.trans {u : State} (h : Handles s t) (h' : Handles t u) : Handles s u :=
  ⟨h.keeps.trans h'.keeps, h'.side.trans h.side, h'.slot_count.trans h.slot_count,
    h'.pending.trans h.pending, h'.enabled.trans h.enabled, h'.poisoned.trans h.poisoned⟩

theorem handles_plain (o : Oracle) (s : State) : Handles s (s.plain o).2 :=
  ⟨keeps_plain o s, rfl, rfl, rfl, rfl, rfl⟩

theorem handles_setSlot (s : State) (i : ℕ) (slot : Slot) : Handles s (s.setSlot i slot) :=
  ⟨keeps_setSlot s i slot, rfl, rfl, rfl, rfl, rfl⟩

theorem handles_destroyEvent (o : Oracle) (s : State) (held : Bool) :
    Handles s (s.destroyEvent o held).2.2 := by
  unfold destroyEvent
  split
  · exact handles_plain o s
  · exact Handles.refl s

theorem handles_destroySlot (o : Oracle) (s : State) (i : ℕ) : Handles s (s.destroySlot o i).2 := by
  unfold destroySlot
  refine Handles.trans ?_ (handles_setSlot _ i _)
  refine Handles.trans ?_ (handles_destroyEvent o _ _)
  exact (handles_destroyEvent o s _).trans (handles_destroyEvent o _ _)

theorem handles_destroySlots (o : Oracle) (i left : ℕ) (s : State) :
    Handles s (destroySlots o i left s).2 := by
  induction left generalizing i s with
  | zero => exact Handles.refl s
  | succ left ih => exact (handles_destroySlot o s i).trans (ih (i + 1) _)

/-- What `close` leaves: the order, and a context that is poisoned or no longer enabled. -/
structure Closed (s t : State) : Prop where
  keeps : Keeps s t
  poisoned : s.poisoned → t.poisoned
  idle : t.poisoned = false → t.enabled = false ∧ (s.side = none → t.pending = s.pending) ∧
    (s.side ≠ none → t.pending = none) ∧ t.side = none

theorem keeps_of_eq (hd : t.device = s.device) (hr : t.records = s.records) (l : Logs s t) : Keeps s t := by
  refine ⟨?_, ?_, ?_, congrArg Streams.Device.recorded hd, hr, l⟩
  · rw [hd]
    exact Grows.refl _
  · rw [hd]
    exact id
  · rw [hd]
    exact fun _ _ _ => .inl

theorem closed_poison (k : Keeps s t) : Closed s { t with poisoned := true } :=
  ⟨k.trans (keeps_poison t), fun _ => rfl, nofun⟩

theorem closed (o : Oracle) (s : State) (by' : Caller) : Closed s (s.close o by').2 := by
  unfold close
  split
  case h_1 hside =>
    exact ⟨keeps_of_eq rfl rfl ⟨rfl, rfl, rfl, rfl, rfl, rfl⟩, id, fun _ => ⟨rfl, fun _ => rfl,
      fun e => absurd hside e, hside⟩⟩
  case h_2 side hside =>
    split
    · exact closed_poison (Keeps.refl s)
    · dsimp only
      set s₁ : State := { s with enabled := false } with hs₁
      have k₁ : Keeps s s₁ := keeps_of_eq rfl rfl ⟨rfl, rfl, rfl, rfl, rfl, rfl⟩
      set x : ℤ × State := if s.touched then s₁.streamSync o side else (0, s₁) with hx
      have hx' : Handles s₁ x.2 := by
        rw [hx]
        split
        · exact handles_plain o s₁
        · exact Handles.refl s₁
      set y : ℤ × State := if s.touched then x.2.streamSync o .main else (0, x.2) with hy
      have hy' : Handles s₁ y.2 := by
        rw [hy]
        split
        · exact hx'.trans (handles_plain o x.2)
        · exact hx'
      split
      · exact closed_poison (k₁.trans hy'.keeps)
      · set s₂ : State := { y.2 with pending := none, call := none } with hs₂
        have k₂ : Keeps s s₂ := (k₁.trans hy'.keeps).trans (keeps_of_eq rfl rfl ⟨rfl, rfl, rfl, rfl, rfl, rfl⟩)
        have hz := handles_destroySlots o 0 poolSize s₂
        split
        · exact closed_poison (k₂.trans hz.keeps)
        · have hw := hz.trans (handles_plain o _)
          split
          · exact closed_poison (k₂.trans hw.keeps)
          · refine ⟨(k₂.trans hw.keeps).trans (keeps_of_eq rfl rfl ⟨rfl, rfl, rfl, rfl, rfl, rfl⟩), fun e => ?_,
              fun _ => ?_⟩
            · exact hw.poisoned.trans (hy'.poisoned.trans e)
            · refine ⟨hw.enabled.trans hy'.enabled, fun e => ?_, fun _ => hw.pending, rfl⟩
              rw [hside] at e
              cases e

theorem Inv.close (h : Inv s) (o : Oracle) (by' : Caller) : Inv (s.close o by').2 := by
  have c := closed o s by'
  refine ⟨h.ordered.keeps c.keeps, fun hp he => ?_, fun hp _ => ?_⟩
  · rw [(c.idle hp).1] at he
    cases he
  · obtain ⟨-, hnone, hsome, hside⟩ := c.idle hp
    refine ⟨hside, ?_⟩
    by_cases hs : s.side = none
    · have hp' : s.poisoned = false := by
        by_contra e
        rw [Bool.not_eq_false] at e
        rw [c.poisoned e] at hp
        cases hp
      rw [hnone hs]
      cases he : s.enabled with
      | false => exact (h.idle hp' he).pending
      | true =>
        have := (h.live hp' he).side
        rw [hs] at this
        cases this
    · exact hsome hs

/-! ## `open` -/

theorem handles_createEvent (o : Oracle) (s : State) : Handles s (s.createEvent o).2.2 := handles_plain o s

/-- What the creation of the events of a slot leaves. -/
theorem createSlot_spec (o : Oracle) (s : State) (i : ℕ) :
    Handles s (s.createSlot o i).2 ∧ (∀ j, j ≠ i → (s.createSlot o i).2.slots j = s.slots j) ∧
      ((s.createSlot o i).1 → ((s.createSlot o i).2.slots i).state = .available) := by
  have h1 := handles_createEvent o s
  have h2 := h1.trans (handles_createEvent o _)
  have h3 := h2.trans (handles_createEvent o _)
  unfold createSlot
  dsimp only
  split
  · exact ⟨h1.trans (handles_setSlot _ i _), fun j hne => update_of_ne hne _ _, nofun⟩
  · split
    · exact ⟨h2.trans (handles_setSlot _ i _), fun j hne => update_of_ne hne _ _, nofun⟩
    · split
      · exact ⟨h3.trans (handles_setSlot _ i _), fun j hne => update_of_ne hne _ _, nofun⟩
      · refine ⟨h3.trans (handles_setSlot _ i _), fun j hne => update_of_ne hne _ _, fun _ => ?_⟩
        unfold setSlot
        dsimp only
        rw [update_self]

theorem createSlots_spec (o : Oracle) (i left : ℕ) (s : State) :
    Handles s (createSlots o i left s).2 ∧
      ((createSlots o i left s).1 → (∀ j < i, (createSlots o i left s).2.slots j = s.slots j) ∧
        ∀ j, i ≤ j → j < i + left → ((createSlots o i left s).2.slots j).state = .available) := by
  induction left generalizing i s with
  | zero => exact ⟨Handles.refl s, fun _ => ⟨fun _ _ => rfl, fun j h1 h2 => by omega⟩⟩
  | succ left ih =>
    obtain ⟨hslot, hother, hself⟩ := createSlot_spec o s i
    rw [createSlots]
    split
    · exact ⟨hslot, nofun⟩
    case isFalse hok =>
      obtain ⟨hrest, hslots⟩ := ih (i + 1) (s.createSlot o i).2
      refine ⟨hslot.trans hrest, fun e => ?_⟩
      obtain ⟨hbefore, hafter⟩ := hslots e
      refine ⟨fun j hj => ?_, fun j hle hlt => ?_⟩
      · rw [hbefore j (by omega), hother j (by omega)]
      · by_cases hj : j = i
        · subst hj
          rw [hbefore j (by omega)]
          exact hself (by simpa using hok)
        · exact hafter j (by omega) (by omega)

theorem keeps_streamCreate (o : Oracle) (s : State) : Keeps s (s.streamCreate o).2 :=
  (keeps_plain o s).trans (keeps_of_eq rfl rfl ⟨rfl, rfl, rfl, rfl, rfl, rfl⟩)

/-- The stream that is created is that of the opening. -/
theorem streamCreate_side (o : Oracle) (s : State) (h : (s.streamCreate o).2.side.isNone = false) :
    (s.streamCreate o).2.side = some s.sideStream := by
  unfold streamCreate at h ⊢
  dsimp only at h ⊢
  split
  · rfl
  case isFalse hh =>
    rw [if_neg hh] at h
    cases h

/-- A context that opened: no slot was used since. -/
theorem live_open (h : Ordered s) (hrecords : t.records = s.records) (hopenings : t.openings = s.openings + 1)
    (hside : t.side = some t.sideStream) (hpending : t.pending = none)
    (hslots : ∀ i < t.slot_count, (t.slots i).state = .available) : Live t := by
  have hfree (i : ℕ) : t.Free i := by
    intro r hr ho
    rw [hrecords] at hr
    have := h.openings r hr
    omega
  have hne {i : ℕ} (hi : i < t.slot_count) {state : SlotState} (e : (t.slots i).state = state)
      (h : state ≠ .available) : False := h (e.symm.trans (hslots i hi))
  constructor
  · exact hside
  · rw [hpending]
    nofun
  · intro i hi e
    rcases e with e | e
    · exact (hne hi e nofun).elim
    · exact (hne hi e nofun).elim
  · exact fun i hi e => (hne hi e nofun).elim
  · exact fun i hi e => (hne hi e nofun).elim
  · exact fun i hi e => (hne hi e nofun).elim
  · exact fun i _ _ => hfree i

/-- A call of any kind, or of the device, went from `s` to `t`. -/
structure Stepped (s t : State) : Prop where
  inv : Inv t
  pended : ∀ x ∈ s.pended, x ∈ t.pended
  joined : ∀ x ∈ s.joined, x ∈ t.joined
  poisoned : s.poisoned → t.poisoned

theorem Stepped.refl (h : Inv s) : Stepped s s := ⟨h, fun _ => id, fun _ => id, id⟩

theorem Stepped.of_logs (h : Inv t) (hpended : t.pended = s.pended) (hjoined : t.joined = s.joined)
    (hp : s.poisoned → t.poisoned) : Stepped s t := by
  refine ⟨h, ?_, ?_, hp⟩
  · rw [hpended]
    exact fun _ => id
  · rw [hjoined]
    exact fun _ => id

theorem stepped_open (h : Inv s) (o : Oracle) (by' : Caller) (api : Api) (q : Qualification) :
    Stepped s (s.open o by' api q).2 := by
  unfold «open»
  split
  · exact Stepped.refl h
  case isFalse hguard =>
    simp only [Bool.or_eq_true, not_or, Bool.not_eq_true, Option.isSome_eq_false_iff,
      Option.isNone_iff_eq_none] at hguard
    obtain ⟨⟨he, hside⟩, hp⟩ := hguard
    have hidle := h.idle hp he
    split
    · exact Stepped.refl h
    · split
      · exact Stepped.refl h
      · dsimp only
        set s₁ : State :=
          { s with owner := by'.thread, slot_count := q.event_slots, openings := s.openings + 1 } with hs₁
        have ho := h.ordered
        have ho₁ : Ordered s₁ := { ho with openings := fun r hr => Nat.le_succ_of_le (ho.openings r hr) }
        have k₂ := keeps_streamCreate o s₁
        have hsome := streamCreate_side o s₁
        set x := s₁.streamCreate o with hx
        set t := x.2 with ht
        split
        · refine Stepped.of_logs ⟨(ho₁.keeps k₂).keeps (keeps_poison t), nofun, nofun⟩ k₂.logs.pended
            k₂.logs.joined fun _ => rfl
        case isFalse hcreated =>
          simp only [Bool.or_eq_true, not_or, Bool.not_eq_true] at hcreated
          obtain ⟨hhandles, hslots⟩ := createSlots_spec o 0 t.slot_count t
          set y := createSlots o 0 t.slot_count t with hy
          have k₃ := k₂.trans hhandles.keeps
          split
          · have hpoison := (keeps_poison y.2)
            have c := closed o { y.2 with poisoned := true } by'
            have k₄ := (k₃.trans hpoison).trans c.keeps
            have hpoisoned := c.poisoned rfl
            refine Stepped.of_logs ⟨ho₁.keeps k₄, ?_, ?_⟩ k₄.logs.pended k₄.logs.joined fun _ => hpoisoned
            · rw [hpoisoned]
              nofun
            · rw [hpoisoned]
              nofun
          case isFalse hok =>
            obtain ⟨-, havailable⟩ := hslots (by simpa using hok)
            have k₄ : Keeps s₁ { y.2 with enabled := true } :=
              k₃.trans (keeps_of_eq rfl rfl ⟨rfl, rfl, rfl, rfl, rfl, rfl⟩)
            refine Stepped.of_logs ⟨ho₁.keeps k₄, fun _ _ => ?_, nofun⟩ k₄.logs.pended k₄.logs.joined
              fun e => ?_
            · refine live_open ho k₄.records k₄.logs.openings ?_ ?_ ?_
              · change y.2.side = some y.2.sideStream
                rw [hhandles.side, hsome hcreated.2, k₃.logs.sideStream]
              · exact hhandles.pending.trans hidle.pending
              · intro i hi
                have hi : i < t.slot_count := by
                  rw [← hhandles.slot_count]
                  exact hi
                exact havailable i (Nat.zero_le i) (by omega)
            · rw [hp] at e
              cases e

theorem Went.stepped {r : Result} (h : Went s r t) : Stepped s t :=
  ⟨h.inv, h.pended, h.joined, fun e => h.fatal (h.poisoned e)⟩

/-! ## Runs -/

theorem stepped_step (h : Inv s) (o : Oracle) (call : Call) : Stepped s (step o s call) := by
  cases call with
  | «open» by' api q => exact stepped_open h o by' api q
  | capture by' call => exact (went_capture h o by' call).stepped
  | afterAb by' subs throws => exact (went_afterAb h o by' subs throws).stepped
  | joinPending by' => exact (went_joinPending h o by').stepped
  | close by' =>
    have c := closed o s by'
    exact Stepped.of_logs (h.close o by') c.keeps.logs.pended c.keeps.logs.joined c.poisoned
  | device event =>
    have k := keeps_happen s event
    exact Stepped.of_logs (h.keeps k ⟨rfl, rfl, rfl, rfl, rfl, rfl⟩) rfl rfl id

theorem stepped_run (h : Inv s) (o : Oracle) (calls : List Call) : Stepped s (Runs.run (step o) s calls) := by
  induction calls generalizing s with
  | nil => exact Stepped.refl h
  | cons call calls ih =>
    have h1 := stepped_step h o call
    have h2 := ih h1.inv
    exact ⟨h2.inv, fun x hx => h2.pended x (h1.pended x hx), fun x hx => h2.joined x (h1.joined x hx),
      fun e => h2.poisoned (h1.poisoned e)⟩

theorem inv_empty : Inv empty where
  ordered := ⟨sound_empty, nofun, List.nodup_nil, nofun, nofun, nofun, List.Pairwise.nil, nofun⟩
  live := nofun
  idle := fun _ _ => ⟨rfl, rfl⟩

/-! ## What the answers put on record -/

theorem serial_submit (o : Oracle) (s : State) (r : Redirect) (sub : Submission) :
    (s.submit o r sub).1.serial = s.serial := by
  unfold submit
  cases sub.kind with
  | temporary => rfl
  | enqueue =>
    dsimp only
    split
    · rfl
    · exact (logs_launch o s _ _).serial
  | synchronize =>
    dsimp only
    split
    · rfl
    case h_2 q _ _ => exact (keeps_sync o s q).logs.serial

theorem serial_original (o : Oracle) (s : State) (r : Redirect) (subs : List Submission) :
    (s.original o r subs).1.serial = s.serial := by
  induction subs generalizing s r with
  | nil => rfl
  | cons sub subs ih => exact (ih _ _).trans (serial_submit o s r sub)

theorem disabled_ne (s : State) : s.disabled.1 ≠ .pending ∧ s.disabled.1 ≠ .joined := by
  unfold disabled
  split <;> exact ⟨nofun, nofun⟩

theorem pended_runCall {o : Oracle} {i main_length : ℕ} {redirecting throws : Bool} {subs : List Submission}
    (h : (s.runCall o i redirecting subs throws main_length).1 = .pending) :
    ⟨s.serial, main_length⟩ ∈ (s.runCall o i redirecting subs throws main_length).2.pended := by
  unfold runCall at h ⊢
  dsimp only at h ⊢
  split at h
  · cases h
  case isFalse hr =>
    rw [if_neg hr]
    split at h
    · cases h
    case isFalse hx =>
      rw [if_neg hx]
      split at h
      · cases h
      case isFalse hy =>
        rw [if_neg hy]
        refine List.mem_append_right _ (List.mem_singleton.2 (congrArg (Order.mk · main_length) ?_))
        have hserial := serial_original o (s.setState i .side_queued).execute ⟨false, 0⟩ subs
        exact ((marked_record o _ i .done _).logs.serial.trans hserial).symm

/-- A call that is pending is on record with the main stream as it was. -/
theorem pended_of_pending {o : Oracle} {by' : Caller} {subs : List Submission} {throws : Bool}
    (h : (s.afterAb o by' subs throws).1 = .pending) :
    ⟨s.serial, (s.device.queue .main).length⟩ ∈ (s.afterAb o by' subs throws).2.pended := by
  obtain ⟨r, hr⟩ : ∃ r, s.afterAb o by' subs throws = r := ⟨_, rfl⟩
  rw [hr] at h ⊢
  unfold afterAb at hr
  split at hr
  · subst hr
    exact absurd h s.disabled_ne.1
  · split at hr
    · subst hr
      cases h
    · split at hr
      · subst hr
        cases h
      case h_2 i _ =>
        split at hr
        · subst hr
          cases h
        · dsimp only at hr
          split at hr
          · subst hr
            cases h
          · split at hr
            · subst hr
              cases h
            · subst hr
              have hmark := (marked_record o { s with touched := true } i .fork .main).logs.serial
              have := pended_runCall h
              rw [(keeps_wait o _ _ i .fork).logs.serial, hmark] at this
              exact this

/-- A call that is joined is on record with the main stream as it is then. -/
theorem joined_of_joined {o : Oracle} {by' : Caller} (h : (s.joinPending o by').1 = .joined) :
    ⟨s.serial, ((s.joinPending o by').2.device.queue .main).length⟩ ∈ (s.joinPending o by').2.joined := by
  obtain ⟨r, hr⟩ : ∃ r, s.joinPending o by' = r := ⟨_, rfl⟩
  rw [hr] at h ⊢
  unfold joinPending at hr
  split at hr
  · subst hr
    exact absurd h s.disabled_ne.2
  · split at hr
    · subst hr
      cases h
    · split at hr
      · subst hr
        cases h
      case h_2 i _ =>
        split at hr
        · subst hr
          cases h
        · dsimp only at hr
          split at hr
          · subst hr
            cases h
          · split at hr
            · subst hr
              cases h
            · subst hr
              refine List.mem_append_right _ (List.mem_singleton.2 ?_)
              have hserial := (marked_record o _ i .retired .main).logs.serial.trans
                (keeps_wait o s .main i .done).logs.serial
              exact congrArg (Order.mk · _) hserial.symm

end State

/-- What `capture`, `afterAb` and `joinPending` return. -/
def answer (o : Oracle) (s : State) : Call → Option Result
  | .capture by' call => some (s.capture o by' call).1
  | .afterAb by' submissions throws => some (s.afterAb o by' submissions throws).1
  | .joinPending by' => some (s.joinPending o by').1
  | _ => none

open State

/-- What the owner of the streams relies on, from a state on. -/
structure Sound (o : Oracle) (s : State) : Prop where
  once : s.executed.Nodup
  side : ∀ serial q k, s.Holds serial q k → ∃ n, q = .side n
  pending : ∀ by' submissions throws, (s.afterAb o by' submissions throws).1 = .pending → ∀ calls,
    let t := Runs.run (step o) (s.afterAb o by' submissions throws).2 calls
    ∀ q k, t.Holds s.serial q k → t.device.Started q k →
      (s.device.queue .main).length ≤ t.device.done .main
  joined : ∀ by', (s.joinPending o by').1 = .joined → ∀ calls,
    let t₀ := (s.joinPending o by').2
    let t := Runs.run (step o) t₀ calls
    ∀ k, (t₀.device.queue .main).length ≤ k → t.device.Started .main k →
      ∀ q i, t.Holds s.serial q i → i < t.device.done q
  reuse : s.records.Pairwise fun a b => a.event = b.event →
    ∃ place, (a.serial, place) ∈ s.retirements ∧ place < b.main_done
  fatal : ∀ call, answer o s call = some .fatal → ∀ calls call',
    let r := answer o (Runs.run (step o) (step o s call) calls) call'
    r = none ∨ r = some .fatal

/-- A poisoned context answers `fatal`. -/
theorem answer_poisoned {o : Oracle} {s : State} (h : Inv s) (hp : s.poisoned) (call : Call) :
    answer o s call = none ∨ answer o s call = some .fatal := by
  cases call with
  | capture by' call => exact .inr (congrArg some ((went_capture h o by' call).poisoned hp))
  | afterAb by' subs throws => exact .inr (congrArg some ((went_afterAb h o by' subs throws).poisoned hp))
  | joinPending by' => exact .inr (congrArg some ((went_joinPending h o by').poisoned hp))
  | _ => exact .inl rfl

/-- A call that answers `fatal` poisons the context. -/
theorem poisoned_of_fatal {o : Oracle} {s : State} (h : Inv s) {call : Call}
    (ha : answer o s call = some .fatal) : (step o s call).poisoned := by
  cases call with
  | capture by' call => exact (went_capture h o by' call).fatal (Option.some.inj ha)
  | afterAb by' subs throws => exact (went_afterAb h o by' subs throws).fatal (Option.some.inj ha)
  | joinPending by' => exact (went_joinPending h o by').fatal (Option.some.inj ha)
  | _ => cases ha

/-- The invariant says what the owner relies on. -/
theorem State.Inv.sound {s : State} (h : Inv s) (o : Oracle) : Sound o s where
  once := h.ordered.nodup
  side := by
    intro serial q k e
    have hne := (h.ordered.works serial q k e).2
    cases q with
    | main => exact absurd rfl hne
    | side n => exact ⟨n, rfl⟩
  pending := by
    intro by' subs throws hr calls t q k hk hs
    have h₁ := (went_afterAb h o by' subs throws).inv
    have ht := stepped_run h₁ o calls
    obtain ⟨-, hbehind⟩ := ht.inv.ordered.behind _ (ht.pended _ (pended_of_pending hr))
    obtain ⟨i, j, hlt, hi, hj⟩ := hbehind q k hk
    exact Nat.le_trans hj (Nat.le_of_lt (ht.inv.ordered.sound.before hi hlt hs))
  joined := by
    intro by' hr calls t₀ t k hle hs q i hi
    have h₁ := (went_joinPending h o by').inv
    have ht := stepped_run h₁ o calls
    obtain ⟨-, hahead⟩ := ht.inv.ordered.ahead _ (ht.joined _ (joined_of_joined hr))
    obtain ⟨w, j, hw, hwait, hlt⟩ := hahead q i hi
    exact Nat.lt_trans hlt (ht.inv.ordered.sound.before hwait (Nat.lt_of_lt_of_le hw hle) hs)
  reuse := h.ordered.records
  fatal := by
    intro call ha calls call'
    have h₁ := stepped_step h o call
    have ht := stepped_run h₁.inv o calls
    exact answer_poisoned ht.inv (ht.poisoned (poisoned_of_fatal h ha)) call'

/-- In every run of calls and of the device, with any answers. -/
theorem deferred_ordered (o : Oracle) (calls : List Call) : Sound o (Runs.run (step o) State.empty calls) :=
  (stepped_run inv_empty o calls).inv.sound o

/-- A device that does what it is asked, one command a stream before each operation. -/
def sampleOracle : Oracle := fun _ => ⟨[.advance .main, .advance (.side 1)], 0, true, true⟩

def sampleQualification : Qualification :=
  ⟨true, true, true, true, true, true, true, true, true, true, true, 1, some engineSha,
    some [⟨true, true, true⟩], some true⟩

/-- A context of one slot takes a call and runs it, with a launch that asks for the main stream. -/
def sampleCalls : List Call :=
  [.open ⟨7, false⟩ ⟨true, true, true, true, true, true, true, true⟩ sampleQualification,
    .device .submit, .capture ⟨7, false⟩ ⟨1, 2, 3, 4, 6144, 9, 2560⟩,
    .afterAb ⟨7, false⟩ [⟨.enqueue .main, false, true⟩] false]

example : let s := Runs.run (step sampleOracle) State.empty sampleCalls
    (s.joinPending sampleOracle ⟨7, false⟩).1 = .joined ∧ (s.device.queue (.side 1)).length = 3 := by
  decide +kernel

end StrixAlloy.DeferredZ

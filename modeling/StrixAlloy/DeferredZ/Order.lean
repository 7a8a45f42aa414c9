import StrixAlloy.DeferredZ.Context

/-!
# The order of the two streams

What holds of the queues at every moment is `Ordered`. It is about the commands and the ghosts only, and
is kept by everything that enqueues no work of a call (`Keeps`); the three places that record an event and
the launches are looked at one by one. What the context relies on between its calls is `Live`.
-/

namespace StrixAlloy.DeferredZ

open Streams Streams.Device

namespace State

/-- The command at a place is work of the call. -/
def Holds (s : State) (serial : ℕ) (q : Stream) (k : ℕ) : Prop :=
  (s.device.queue q)[k]? = some (.work (.call serial))

/-- The work of the call comes after a wait for all of the main stream up to a length. -/
def Behind (s : State) (x : Order) : Prop :=
  ∀ q k, s.Holds x.serial q k → ∃ i j, i < k ∧
    (s.device.queue q)[i]? = some (.wait (some (.main, j))) ∧ x.main_length ≤ j

/-- The main stream waits for all work of the call before it reaches a length. -/
def Ahead (s : State) (x : Order) : Prop :=
  ∀ q k, s.Holds x.serial q k → ∃ i j, i < x.main_length ∧
    (s.device.queue .main)[i]? = some (.wait (some (q, j))) ∧ k < j

/-- The call of the record was retired at a place before `n` of the main stream. -/
def RetiredBefore (s : State) (r : Record) (n : ℕ) : Prop :=
  ∃ j, (r.serial, j) ∈ s.retirements ∧ j < n

/-- What holds at every moment. -/
structure Ordered (s : State) : Prop where
  sound : s.device.Sound
  works : ∀ m q k, s.Holds m q k → m ∈ s.executed ∧ q ≠ .main
  nodup : s.executed.Nodup
  captured : ∀ m ∈ s.executed, m < s.captures
  behind : ∀ x ∈ s.pended, x.serial ∈ s.executed ∧ s.Behind x
  ahead : ∀ x ∈ s.joined, x.serial ∈ s.executed ∧ s.Ahead x
  records : s.records.Pairwise fun a b => a.event = b.event → s.RetiredBefore a b.main_done
  openings : ∀ r ∈ s.records, r.event.opening ≤ s.openings

/-- The command is no work of a call. -/
def Foreign (c : Command Stream Work Handle) : Prop := ∀ m : ℕ, c ≠ .work (.call m)

/-- What is kept of the calls is the same. -/
structure Logs (s t : State) : Prop where
  openings : t.openings = s.openings
  captures : t.captures = s.captures
  executed : t.executed = s.executed
  retirements : t.retirements = s.retirements
  pended : t.pended = s.pended
  joined : t.joined = s.joined

theorem Logs.refl (s : State) : Logs s s := ⟨rfl, rfl, rfl, rfl, rfl, rfl⟩

variable {s t : State}

/-- One after the other. -/
theorem Logs.trans {u : State} (h : Logs s t) (h' : Logs t u) : Logs s u :=
  ⟨h'.openings.trans h.openings, h'.captures.trans h.captures, h'.executed.trans h.executed,
    h'.retirements.trans h.retirements, h'.pended.trans h.pended, h'.joined.trans h.joined⟩

theorem Logs.serial (h : Logs s t) : t.serial = s.serial := congrArg (· - 1) h.captures

theorem Logs.sideStream (h : Logs s t) : t.sideStream = s.sideStream :=
  congrArg Stream.side h.openings

/-- The same events are seen. -/
theorem Logs.event (h : Logs s t) (i : ℕ) (mark : Mark) : t.event i mark = s.event i mark :=
  congrArg (Handle.mk · i mark) h.openings

/-- From `s` to `t` the context enqueued no work of a call, and recorded no event. -/
structure Keeps (s t : State) : Prop where
  grows : Grows s.device t.device
  sound : s.device.Sound → t.device.Sound
  calm : ∀ (q : Stream) (i : ℕ) (c : Command Stream Work Handle), (t.device.queue q)[i]? = some c →
    (s.device.queue q)[i]? = some c ∨ Foreign c
  recorded : t.device.recorded = s.device.recorded
  records : t.records = s.records
  logs : Logs s t

theorem Keeps.refl (s : State) : Keeps s s :=
  ⟨Grows.refl _, id, fun _ _ _ => .inl, rfl, rfl, Logs.refl s⟩

theorem Keeps.trans {u : State} (h : Keeps s t) (h' : Keeps t u) : Keeps s u where
  grows := h.grows.trans h'.grows
  sound := fun e => h'.sound (h.sound e)
  calm := by
    intro q i c hc
    rcases h'.calm q i c hc with hc | hc
    · exact h.calm q i c hc
    · exact .inr hc
  recorded := h'.recorded.trans h.recorded
  records := h'.records.trans h.records
  logs := h.logs.trans h'.logs

variable {i k m : ℕ} {q : Stream}

/-- The same work is held. -/
theorem Keeps.holds (h : Keeps s t) : t.Holds m q k ↔ s.Holds m q k := by
  constructor
  · intro e
    exact (h.calm q k _ e).resolve_right fun hne => hne m rfl
  · exact fun e => h.grows.getElem? e

/-- What an order is behind stays before it as the device grows. -/
theorem Behind.of_grows {x : Order} (h : s.Behind x) (g : Grows s.device t.device)
    (hw : ∀ q k, t.Holds x.serial q k → s.Holds x.serial q k) : t.Behind x := by
  intro q k hk
  obtain ⟨i, j, hlt, hi, hj⟩ := h q k (hw q k hk)
  exact ⟨i, j, hlt, g.getElem? hi, hj⟩

/-- What an order is ahead of stays after it as the device grows. -/
theorem Ahead.of_grows {x : Order} (h : s.Ahead x) (g : Grows s.device t.device)
    (hw : ∀ q k, t.Holds x.serial q k → s.Holds x.serial q k) : t.Ahead x := by
  intro q k hk
  obtain ⟨i, j, hlt, hi, hj⟩ := h q k (hw q k hk)
  exact ⟨i, j, hlt, g.getElem? hi, hj⟩

/-- A step that keeps the records keeps the order. -/
theorem Ordered.keeps (h : Ordered s) (k : Keeps s t) : Ordered t where
  sound := k.sound h.sound
  works := by
    intro m q i e
    rw [k.logs.executed]
    exact h.works m q i (k.holds.1 e)
  nodup := by
    rw [k.logs.executed]
    exact h.nodup
  captured := by
    rw [k.logs.executed, k.logs.captures]
    exact h.captured
  behind := by
    rw [k.logs.pended, k.logs.executed]
    exact fun x hx => ⟨(h.behind x hx).1, (h.behind x hx).2.of_grows k.grows fun _ _ => k.holds.1⟩
  ahead := by
    rw [k.logs.joined, k.logs.executed]
    exact fun x hx => ⟨(h.ahead x hx).1, (h.ahead x hx).2.of_grows k.grows fun _ _ => k.holds.1⟩
  records := by
    unfold RetiredBefore
    rw [k.records, k.logs.retirements]
    exact h.records
  openings := by
    rw [k.records, k.logs.openings]
    exact h.openings

/-! ## The operations on the device -/

/-- What happens on the device keeps it sound. -/
theorem happen_sound {d : Device} (h : d.Sound) (e : Event) : (happen d e).Sound := by
  cases e with
  | advance q => exact h.advance q
  | submit => exact h.push _ _

/-- What happens on the device takes no command back. -/
theorem grows_happen (d : Device) (e : Event) : Grows d (happen d e) := by
  cases e with
  | advance q => exact grows_advance d q
  | submit => exact grows_push d _ _

theorem recorded_happen (d : Device) (e : Event) : (happen d e).recorded = d.recorded := by
  cases e with
  | advance q => exact recorded_advance d q
  | submit => rfl

/-- A command in a queue was there before, or is foreign. -/
theorem calm_happen {d : Device} {e : Event} {c : Command Stream Work Handle}
    (h : ((happen d e).queue q)[i]? = some c) : (d.queue q)[i]? = some c ∨ Foreign c := by
  cases e with
  | advance =>
    rw [happen, queue_advance] at h
    exact .inl h
  | submit =>
    rcases getElem?_push h with h | ⟨-, -, rfl⟩
    · exact .inl h
    · exact .inr nofun

theorem keeps_happen (s : State) (e : Event) : Keeps s { s with device := happen s.device e } :=
  ⟨grows_happen _ e, fun h => happen_sound h e, fun _ _ _ => calm_happen, recorded_happen _ e, rfl,
    rfl, rfl, rfl, rfl, rfl, rfl⟩

theorem keeps_happens (s : State) (es : List Event) :
    Keeps s { s with device := es.foldl happen s.device } := by
  induction es generalizing s with
  | nil => exact Keeps.refl s
  | cons e es ih => exact (keeps_happen s e).trans (ih _)

/-- What happens before an answer keeps the records. -/
theorem keeps_before (o : Oracle) (s : State) : Keeps s (s.before o) := by
  have h := keeps_happens s (o s.operations).before
  exact ⟨h.grows, h.sound, h.calm, h.recorded, rfl, rfl, rfl, rfl, rfl, rfl, rfl⟩

theorem keeps_plain (o : Oracle) (s : State) : Keeps s (s.plain o).2 := keeps_before o s

theorem keeps_query (o : Oracle) (s : State) (i : ℕ) (mark : Mark) : Keeps s (s.eventQuery o i mark).2 :=
  keeps_before o s

theorem keeps_sync (o : Oracle) (s : State) (q : Stream) : Keeps s (s.streamSync o q).2 :=
  keeps_before o s

theorem keeps_wait (o : Oracle) (s : State) (q : Stream) (i : ℕ) (mark : Mark) :
    Keeps s (s.streamWait o q i mark).2 := by
  have h := keeps_before o s
  unfold streamWait
  split
  · refine h.trans ⟨grows_push _ _ _, fun hs => hs.push _ _, ?_, rfl, rfl, rfl, rfl, rfl, rfl, rfl, rfl⟩
    intro p k c hc
    rcases getElem?_push hc with hc | ⟨-, -, rfl⟩
    · exact .inl hc
    · exact .inr nofun
  · exact h

theorem keeps_setSlot (s : State) (i : ℕ) (slot : Slot) : Keeps s (s.setSlot i slot) :=
  ⟨Grows.refl _, id, fun _ _ _ => .inl, rfl, rfl, rfl, rfl, rfl, rfl, rfl, rfl⟩

/-- A wait that succeeds names the place that its event marked. -/
theorem wait_ok {o : Oracle} {mark : Mark} (h : (s.streamWait o q i mark).1 = 0) :
    ∃ place, (s.device.queue q).length ≤ place ∧
      place < ((s.streamWait o q i mark).2.device.queue q).length ∧
      ((s.streamWait o q i mark).2.device.queue q)[place]? =
        some (.wait (s.device.recorded (s.event i mark))) := by
  have hk := keeps_before o s
  have henq : s.enqueued o := by
    unfold enqueued
    rw [Bool.or_eq_true, decide_eq_true_eq]
    exact .inl h
  have e : (s.streamWait o q i mark).2.device = (s.before o).device.wait q (s.event i mark) := by
    unfold streamWait
    rw [henq]
    rfl
  rw [e, Device.wait, queue_push_self, hk.recorded]
  refine ⟨_, hk.grows.length_le q, ?_, List.getElem?_concat_length⟩
  rw [List.length_append]
  exact Nat.lt_succ_self _

/-- A record of an event: what is enqueued is no work. -/
structure Marked (s t : State) (i : ℕ) (mark : Mark) : Prop where
  grows : Grows s.device t.device
  sound : s.device.Sound → t.device.Sound
  calm : ∀ (q : Stream) (i : ℕ) (c : Command Stream Work Handle), (t.device.queue q)[i]? = some c →
    (s.device.queue q)[i]? = some c ∨ Foreign c
  recorded : ∀ e, e ≠ s.event i mark → t.device.recorded e = s.device.recorded e
  records : ∃ r : Record, t.records = s.records ++ [r] ∧ r.event = s.event i mark ∧
    r.serial = s.serial ∧ s.device.done .main ≤ r.main_done
  logs : Logs s t

/-- Recording an event marks it, and changes no other. -/
theorem marked_record (o : Oracle) (s : State) (i : ℕ) (mark : Mark) (q : Stream) :
    Marked s (s.eventRecord o i mark q).2 i mark := by
  have h := keeps_before o s
  unfold eventRecord
  split
  · refine ⟨h.grows.trans (grows_record _ _ _), fun hs => (h.sound hs).record _ _, ?_, ?_,
      ⟨_, rfl, rfl, rfl, h.grows.done .main⟩, rfl, rfl, rfl, rfl, rfl, rfl⟩
    · intro p k c hc
      rcases getElem?_push hc with hc | ⟨-, -, rfl⟩
      · exact h.calm p k c hc
      · exact .inr nofun
    · intro e he
      exact (Function.update_of_ne he _ _).trans (congrFun h.recorded e)
  · exact ⟨h.grows, h.sound, h.calm, fun e _ => congrFun h.recorded e,
      ⟨_, rfl, rfl, rfl, h.grows.done .main⟩, rfl, rfl, rfl, rfl, rfl, rfl⟩

/-- A record that succeeds marks the end of the stream. -/
theorem record_ok {o : Oracle} {mark : Mark} (h : (s.eventRecord o i mark q).1 = 0) :
    let t := (s.eventRecord o i mark q).2
    let place := ((s.before o).device.queue q).length
    (s.device.queue q).length ≤ place ∧ place < (t.device.queue q).length ∧
      t.device.recorded (s.event i mark) = some (q, place) := by
  have hk := keeps_before o s
  have henq : s.enqueued o := by
    unfold enqueued
    rw [Bool.or_eq_true, decide_eq_true_eq]
    exact .inl h
  intro t place
  have e : t.device = (s.before o).device.record q (s.event i mark) := by
    unfold t eventRecord
    rw [henq]
    rfl
  refine ⟨hk.grows.length_le q, ?_, ?_⟩
  · rw [e]
    change place < (((s.before o).device.push q (.record (s.event i mark))).queue q).length
    rw [queue_push_self, List.length_append]
    exact Nat.lt_succ_self _
  · rw [e]
    exact Function.update_self _ _ _

theorem Marked.holds {mark : Mark} (h : Marked s t i mark) : t.Holds m q k ↔ s.Holds m q k := by
  constructor
  · intro e
    exact (h.calm q k _ e).resolve_right fun hne => hne m rfl
  · exact fun e => h.grows.getElem? e

/-- A record that was retired early enough stays so. -/
theorem RetiredBefore.mono {r : Record} {n n' : ℕ} (h : s.RetiredBefore r n)
    (hr : ∀ x ∈ s.retirements, x ∈ t.retirements) (hn : n ≤ n') : t.RetiredBefore r n' := by
  obtain ⟨j, hj, hlt⟩ := h
  exact ⟨j, hr _ hj, Nat.lt_of_lt_of_le hlt hn⟩

/-- The record of an event keeps the order where each call that recorded it before is retired. -/
theorem Ordered.record (h : Ordered s) (o : Oracle) {k : Mark} (q : Stream)
    (hr : ∀ r ∈ s.records, r.event = s.event i k → s.RetiredBefore r (s.device.done .main)) :
    Ordered (s.eventRecord o i k q).2 := by
  have m := marked_record o s i k q
  obtain ⟨r, hrec, hevent, -, hdone⟩ := m.records
  exact {
    sound := m.sound h.sound
    works := by
      intro n p k e
      rw [m.logs.executed]
      exact h.works n p k (m.holds.1 e)
    nodup := by
      rw [m.logs.executed]
      exact h.nodup
    captured := by
      rw [m.logs.executed, m.logs.captures]
      exact h.captured
    behind := by
      rw [m.logs.pended, m.logs.executed]
      exact fun x hx => ⟨(h.behind x hx).1, (h.behind x hx).2.of_grows m.grows fun _ _ => m.holds.1⟩
    ahead := by
      rw [m.logs.joined, m.logs.executed]
      exact fun x hx => ⟨(h.ahead x hx).1, (h.ahead x hx).2.of_grows m.grows fun _ _ => m.holds.1⟩
    records := by
      unfold RetiredBefore
      rw [hrec, m.logs.retirements]
      refine List.pairwise_append.2 ⟨h.records, List.pairwise_singleton _ _, ?_⟩
      intro a ha b hb e
      obtain rfl := List.mem_singleton.1 hb
      exact (hr a ha (e.trans hevent)).mono (fun _ => id) hdone
    openings := by
      rw [hrec, m.logs.openings]
      intro a ha
      rcases List.mem_append.1 ha with ha | ha
      · exact h.openings a ha
      · obtain rfl := List.mem_singleton.1 ha
        rw [hevent]
        exact Nat.le_refl _ }

/-! ## The launches -/

/-- What a launch of the call `m` enqueues is at the end of the stream. -/
theorem holds_launch {o : Oracle} {n : ℕ} {p : Stream} (h : (s.launch o q m).2.Holds n p k) :
    s.Holds n p k ∨ n = m ∧ p = q ∧ (s.device.queue q).length ≤ k := by
  have hk := keeps_before o s
  unfold launch at h
  split at h
  · rcases getElem?_push h with h | ⟨rfl, rfl, hc⟩
    · exact .inl (hk.holds.1 h)
    · cases hc
      exact .inr ⟨rfl, rfl, hk.grows.length_le p⟩
  · exact .inl (hk.holds.1 h)

theorem grows_launch (o : Oracle) (s : State) (q : Stream) (m : ℕ) :
    Grows s.device (s.launch o q m).2.device := by
  have hk := keeps_before o s
  unfold launch
  split
  · exact hk.grows.trans (grows_push _ _ _)
  · exact hk.grows

/-- A launch keeps the device sound. -/
theorem launch_sound {o : Oracle} (h : s.device.Sound) (q : Stream) (m : ℕ) :
    (s.launch o q m).2.device.Sound := by
  have hk := keeps_before o s
  unfold launch
  split
  · exact (hk.sound h).push _ _
  · exact hk.sound h

/-- The captured call runs: it is counted as executed, and no order is on record for it. Its work is on
the side stream `q` behind the place `w`. -/
structure Running (s : State) (m : ℕ) (q : Stream) (w : ℕ) : Prop where
  executed : m ∈ s.executed
  pended : ∀ x ∈ s.pended, x.serial ≠ m
  joined : ∀ x ∈ s.joined, x.serial ≠ m
  side : q ≠ .main
  behind : ∀ p k, s.Holds m p k → p = q ∧ w < k
  place : w < (s.device.queue q).length

/-- A launch keeps what is kept of the calls. -/
theorem logs_launch (o : Oracle) (s : State) (q : Stream) (m : ℕ) : Logs s (s.launch o q m).2 := by
  unfold launch
  split <;> exact ⟨rfl, rfl, rfl, rfl, rfl, rfl⟩

/-- A launch of the running work keeps the order. -/
theorem Ordered.launch (h : Ordered s) {w : ℕ} (r : Running s m q w) (o : Oracle) :
    Ordered (s.launch o q m).2 ∧ Running (s.launch o q m).2 m q w := by
  have hlogs := logs_launch o s q m
  have hrecords : (s.launch o q m).2.records = s.records := by
    unfold State.launch
    split <;> rfl
  have hold {n : ℕ} (hne : n ≠ m) {p : Stream} {k : ℕ} (e : (s.launch o q m).2.Holds n p k) :
      s.Holds n p k := (holds_launch e).resolve_right fun e => hne e.1
  have g := grows_launch o s q m
  refine ⟨?_, ?_⟩
  · exact {
      sound := launch_sound h.sound q m
      works := by
        intro n p k e
        rw [hlogs.executed]
        rcases holds_launch e with e | ⟨rfl, rfl, -⟩
        · exact h.works n p k e
        · exact ⟨r.executed, r.side⟩
      nodup := by
        rw [hlogs.executed]
        exact h.nodup
      captured := by
        rw [hlogs.executed, hlogs.captures]
        exact h.captured
      behind := by
        rw [hlogs.pended, hlogs.executed]
        exact fun x hx => ⟨(h.behind x hx).1, (h.behind x hx).2.of_grows g fun _ _ => hold (r.pended x hx)⟩
      ahead := by
        rw [hlogs.joined, hlogs.executed]
        exact fun x hx => ⟨(h.ahead x hx).1, (h.ahead x hx).2.of_grows g fun _ _ => hold (r.joined x hx)⟩
      records := by
        unfold RetiredBefore
        rw [hrecords, hlogs.retirements]
        exact h.records
      openings := by
        rw [hrecords, hlogs.openings]
        exact h.openings }
  · exact {
      executed := by
        rw [hlogs.executed]
        exact r.executed
      pended := by
        rw [hlogs.pended]
        exact r.pended
      joined := by
        rw [hlogs.joined]
        exact r.joined
      side := r.side
      behind := by
        intro p k e
        rcases holds_launch e with e | ⟨-, rfl, hle⟩
        · exact r.behind p k e
        · exact ⟨rfl, Nat.lt_of_lt_of_le r.place hle⟩
      place := Nat.lt_of_lt_of_le r.place (g.length_le q) }

/-- The call goes on running through what enqueues no work. -/
theorem Running.keeps {w : ℕ} (r : Running s m q w) (k : Keeps s t) : Running t m q w where
  executed := by
    rw [k.logs.executed]
    exact r.executed
  pended := by
    rw [k.logs.pended]
    exact r.pended
  joined := by
    rw [k.logs.joined]
    exact r.joined
  side := r.side
  behind := fun p i e => r.behind p i (k.holds.1 e)
  place := Nat.lt_of_lt_of_le r.place (k.grows.length_le q)

end State

end StrixAlloy.DeferredZ

import StrixAlloy.Lib.Runs
import StrixAlloy.LocalText.Socket

/-!
# One terminal message a turn

Every turn whose task has ended has one terminal message in the queue, and no delta after it, as long as
the task started before it was cancelled, found a free entry in the queue when it ended, and was not
overtaken by a turn that a late `_cancel` then closes. In a queue that a reader leaves full the terminal
message is lost: the exception of the full queue ends the task through the branch that has to report it.
-/

namespace StrixAlloy.LocalText

open Runs List

/-- The messages that end a turn. -/
def Message.ending : Message → Bool
  | .textDone .. | .cancelled _ | .error _ => true
  | _ => false

def Message.isDelta : Message → Bool
  | .textDelta .. => true
  | _ => false

/-- The entry is a terminal message of the turn. -/
def Entry.ends (e : Entry) (turn : ℕ) : Bool := e.turn = turn && e.message.ending

/-- The entry is a delta of the turn. -/
def Entry.deltaOf (e : Entry) (turn : ℕ) : Bool := e.turn = turn && e.message.isDelta

/-- Exactly one entry is a terminal message of the turn, and no delta of the turn follows it. -/
def EndedOnce (turn : ℕ) (q : List Entry) : Prop :=
  ∃ before e after, q = before ++ e :: after ∧ e.ends turn ∧ (∀ x ∈ before, ¬ x.ends turn) ∧
    ∀ x ∈ after, ¬ x.ends turn ∧ ¬ x.deltaOf turn

/-- What is queued for other turns leaves a turn as it ended. -/
theorem EndedOnce.append {turn : ℕ} {q l : List Entry} (h : EndedOnce turn q)
    (hl : ∀ x ∈ l, x.turn ≠ turn) : EndedOnce turn (q ++ l) := by
  obtain ⟨before, e, after, rfl, he, hbefore, hafter⟩ := h
  refine ⟨before, e, after ++ l, ?_, he, hbefore, ?_⟩
  · rw [append_assoc, cons_append]
  · intro x hx
    rcases mem_append.1 hx with hx | hx
    · exact hafter x hx
    · have hne := hl x hx
      simp [Entry.ends, Entry.deltaOf, hne]

theorem EndedOnce.exists_ends {turn : ℕ} {q : List Entry} (h : EndedOnce turn q) :
    ∃ e ∈ q, e.ends turn := by
  obtain ⟨before, e, after, rfl, he, -, -⟩ := h
  exact ⟨e, by simp, he⟩

namespace Socket

/-! ## What the operations do -/

variable {s s' : Socket}

theorem emit_of_room (h : s.closed = false) (hroom : s.events.length < 4096) (turn : ℕ) (m : Message) :
    s.emit turn m = some { s with events := s.events ++ [⟨turn, m⟩] } := by
  unfold emit
  rw [h, if_neg Bool.false_ne_true, if_pos hroom]

theorem emit_of_full (h : s.closed = false) (hfull : ¬ s.events.length < 4096) (turn : ℕ) (m : Message) :
    s.emit turn m = none := by
  unfold emit
  rw [h, if_neg Bool.false_ne_true, if_neg hfull]

/-- A message that an open socket queues is the last one. -/
theorem queued_emit {turn : ℕ} {m : Message} (h : s.closed = false) (e : s.emit turn m = some s') :
    s' = { s with events := s.events ++ [⟨turn, m⟩] } ∧ s'.queued = s.queued ++ [⟨turn, m⟩] := by
  by_cases hroom : s.events.length < 4096
  · rw [emit_of_room h hroom, Option.some_inj] at e
    subst e
    exact ⟨rfl, (append_assoc ..).symm⟩
  · rw [emit_of_full h hroom] at e
    cases e

theorem closed_emit {turn : ℕ} {m : Message} (e : s.emit turn m = some s') : s'.closed = s.closed := by
  unfold emit at e
  split_ifs at e
  all_goals
    rw [Option.some_inj] at e
    rw [← e]

theorem closed_finish (s : Socket) (record : Binding) (text : Option String) :
    (s.finish record text).1.closed = s.closed := by
  unfold finish
  split
  · rfl
  · split
    · rfl
    · rename_i s1 h1
      have e1 : s1.closed = s.closed :=
        (closed_emit h1).trans (show (s.markTerminal record.turn_id).closed = s.closed from rfl)
      split
      · exact e1
      · rename_i s2 h2
        exact (closed_emit h2).trans e1

theorem closed_fail (s : Socket) (record : Binding) : (s.fail record).closed = s.closed := by
  unfold fail
  cases h : (s.markTerminal record.turn_id).emit record.turn_id (.error s.code) with
  | none => rfl
  | some s' => exact (closed_emit h : s'.closed = (s.markTerminal record.turn_id).closed)

/-- A text that is complete is finished, and the exception of a full queue there goes to the branch for
exceptions. -/
theorem settle_value (s : Socket) (task : Task) (text : String) :
    s.settle task (.value text) =
      if ((s.goto task .ended).finish task.binding (some text)).2 then
        ((s.goto task .ended).finish task.binding (some text)).1
      else ((s.goto task .ended).finish task.binding (some text)).1.fail task.binding := by
  unfold settle
  dsimp only
  rcases (s.goto task .ended).finish task.binding (some text) with ⟨s', _ | _⟩
  · rfl
  · rfl

theorem closed_settle (s : Socket) (task : Task) (exit : Exit) :
    (s.settle task exit).closed = s.closed := by
  rcases exit with text | _ | _
  · have h := closed_finish (s.goto task .ended) task.binding (some text)
    rw [settle_value]
    split_ifs
    · exact h
    · exact (closed_fail _ task.binding).trans h
  · exact closed_fail _ _
  · exact closed_finish _ _ _

theorem closed_follow (s : Socket) (task : Task) (n : Next) : (s.follow task n).closed = s.closed := by
  cases n with
  | stay => rfl
  | goto => rfl
  | settle exit => exact closed_settle s task exit

/-- What an answer notes in the socket are its two flags. -/
theorem note_eq (c : Config) (s : Socket) (task : Task) (a : Answer) :
    ∃ busy unavailable, s.note c task a =
      { s with transient_busy := busy, selection_unavailable := unavailable } := by
  unfold note
  split
  · split_ifs
    · exact ⟨true, _, rfl⟩
    · exact ⟨_, _, rfl⟩
  · split
    · split_ifs
      · exact ⟨true, _, rfl⟩
      · exact ⟨_, _, rfl⟩
    · exact ⟨_, _, rfl⟩
  · split
    · split
      · exact ⟨_, true, rfl⟩
      · exact ⟨_, _, rfl⟩
    · exact ⟨_, _, rfl⟩
  · exact ⟨_, _, rfl⟩

/-- What is queued and marked for one turn, and nothing else of the socket but its flags. -/
structure Adds (s s' : Socket) (turn : ℕ) (l : List Entry) : Prop where
  closed : s'.closed = s.closed
  number : s'.turn = s.turn
  record : s'.record = s.record
  accepted : s'.accepted = s.accepted
  task : s'.task = s.task
  queued : s'.queued = s.queued ++ l
  entries : ∀ x ∈ l, x.turn = turn
  marks : ∀ u ∈ s'.terminal, u ∈ s.terminal ∨ u = turn
  keeps : ∀ u ∈ s.terminal, u ∈ s'.terminal

theorem Adds.refl (s : Socket) (turn : ℕ) : Adds s s turn [] where
  closed := rfl
  number := rfl
  record := rfl
  accepted := rfl
  task := rfl
  queued := (append_nil _).symm
  entries x hx := by cases hx
  marks u hu := .inl hu
  keeps u hu := hu

theorem Adds.trans {s'' : Socket} {turn : ℕ} {l l' : List Entry} (h : Adds s s' turn l) (h' : Adds s' s'' turn l') :
    Adds s s'' turn (l ++ l') where
  closed := h'.closed.trans h.closed
  number := h'.number.trans h.number
  record := h'.record.trans h.record
  accepted := h'.accepted.trans h.accepted
  task := h'.task.trans h.task
  queued := by rw [h'.queued, h.queued, append_assoc]
  entries x hx := (mem_append.1 hx).elim (h.entries x) (h'.entries x)
  marks u hu := by
    rcases h'.marks u hu with hu | hu
    · exact h.marks u hu
    · exact .inr hu
  keeps u hu := h'.keeps u (h.keeps u hu)

theorem adds_markTerminal (s : Socket) (turn : ℕ) : Adds s (s.markTerminal turn) turn [] where
  closed := rfl
  number := rfl
  record := rfl
  accepted := rfl
  task := rfl
  queued := (append_nil _).symm
  entries x hx := by cases hx
  marks u hu := by
    rcases mem_append.1 hu with hu | hu
    · exact .inl hu
    · exact .inr (mem_singleton.1 hu)
  keeps u hu := mem_append_left _ hu

theorem adds_emit {turn : ℕ} {m : Message} (h : s.closed = false) (e : s.emit turn m = some s') :
    Adds s s' turn [⟨turn, m⟩] := by
  obtain ⟨rfl, hq⟩ := queued_emit h e
  exact
    { closed := rfl, number := rfl, record := rfl, accepted := rfl, task := rfl, queued := hq
      entries := fun x hx => by rw [mem_singleton.1 hx]
      marks := fun u hu => .inl hu
      keeps := fun u hu => hu }

/-- The messages that `_finish` queues for a turn that it ends: the terminal one, and `metrics` where it
finds room too. -/
structure Finished (s s' : Socket) (turn : ℕ) : Prop where
  adds : ∃ x l, Adds s s' turn (x :: l) ∧ x.message.ending ∧
    ∀ y ∈ l, ¬ y.message.ending ∧ ¬ y.message.isDelta
  marked : turn ∈ s'.terminal

theorem mem_markTerminal (s : Socket) (turn : ℕ) : turn ∈ (s.markTerminal turn).terminal :=
  mem_append_right _ (mem_singleton.2 rfl)

theorem ending_closing (record : Binding) (text : Option String) : (closing record text).ending := by
  cases text with
  | none => rfl
  | some => rfl

/-- `_finish` of an open socket, whatever it finds. -/
theorem adds_finish (h : s.closed = false) (record : Binding) (text : Option String) :
    ∃ l, Adds s (s.finish record text).1 record.turn_id l := by
  have hmark := adds_markTerminal s record.turn_id
  unfold finish
  split
  · exact ⟨[], Adds.refl s _⟩
  · split
    · exact ⟨[], hmark⟩
    · rename_i s1 h1
      have a1 := hmark.trans (adds_emit h h1)
      split
      · exact ⟨_, a1⟩
      · rename_i s2 h2
        exact ⟨_, a1.trans (adds_emit (a1.closed.trans h) h2)⟩

/-- `_finish` of a turn that is not terminal, with room in the queue. Where it raises, the queue is
full. -/
theorem finished_finish (h : s.closed = false) (hroom : s.events.length < 4096) {record : Binding}
    (hnew : record.turn_id ∉ s.terminal) (text : Option String) :
    Finished s (s.finish record text).1 record.turn_id ∧
      ((s.finish record text).2 = false → ¬ (s.finish record text).1.events.length < 4096) := by
  have hmark := adds_markTerminal s record.turn_id
  have hin := mem_markTerminal s record.turn_id
  have h1 := emit_of_room (s := s.markTerminal record.turn_id) h hroom record.turn_id
    (closing record text)
  have a1 := hmark.trans (adds_emit h h1)
  rw [nil_append] at a1
  unfold finish
  rw [if_neg hnew, h1]
  dsimp only
  split
  · rename_i h2
    refine ⟨⟨⟨_, [], a1, ending_closing record text, ?_⟩, hin⟩, fun _ hlt => ?_⟩
    · intro y hy
      cases hy
    · rw [emit_of_room (a1.closed.trans h) hlt] at h2
      cases h2
  · rename_i s2 h2
    have a2 := adds_emit (a1.closed.trans h) h2
    refine ⟨⟨⟨_, _, a1.trans a2, ending_closing record text, ?_⟩, a2.keeps _ hin⟩, ?_⟩
    · intro y hy
      rw [mem_singleton.1 hy]
      exact ⟨Bool.false_ne_true, Bool.false_ne_true⟩
    · intro hfalse
      cases hfalse

/-- The branch for exceptions, with room in the queue. -/
theorem finished_fail (h : s.closed = false) (hroom : s.events.length < 4096) (record : Binding) :
    Finished s (s.fail record) record.turn_id := by
  have h1 := emit_of_room (s := s.markTerminal record.turn_id) h hroom record.turn_id (.error s.code)
  have a1 := (adds_markTerminal s record.turn_id).trans (adds_emit h h1)
  unfold fail
  rw [h1]
  refine ⟨⟨_, [], a1, rfl, ?_⟩, mem_markTerminal s record.turn_id⟩
  intro y hy
  cases hy

/-- The branch for exceptions in a full queue: its message is lost. -/
theorem adds_fail_of_full (h : s.closed = false) (hfull : ¬ s.events.length < 4096) (record : Binding) :
    Adds s (s.fail record) record.turn_id [] := by
  unfold fail
  rw [emit_of_full (s := s.markTerminal record.turn_id) h hfull]
  exact adds_markTerminal s record.turn_id

variable {task : Task}

/-- The end of a task that finds its turn open and room in the queue. Where `_finish` raises after its
terminal message, nothing more is queued. -/
theorem finished_settle (h : s.closed = false) (hroom : s.events.length < 4096)
    (hnew : task.binding.turn_id ∉ s.terminal) (exit : Exit) :
    Finished (s.goto task .ended) (s.settle task exit) task.binding.turn_id := by
  have hgoto : (s.goto task .ended).closed = false := h
  rcases exit with text | _ | _
  · obtain ⟨hf, hfull⟩ := finished_finish (s := s.goto task .ended) h hroom hnew (some text)
    rw [settle_value]
    split_ifs with hreturned
    · exact hf
    · obtain ⟨⟨x, l, hadds, hx, hl⟩, hin⟩ := hf
      have hfull' := hfull (Bool.eq_false_iff.2 hreturned)
      have a2 := adds_fail_of_full (hadds.closed.trans hgoto) hfull' task.binding
      have a := hadds.trans a2
      rw [append_nil] at a
      exact ⟨⟨x, l, a, hx, hl⟩, a2.keeps _ hin⟩
  · exact finished_fail (s := s.goto task .ended) h hroom task.binding
  · exact (finished_finish (s := s.goto task .ended) h hroom hnew none).1

/-! ## The invariant -/

/-- What an open socket keeps: the turns are numbered by `turn`; the record is that of the last turn; while
a task runs, its turn is the last one and has no terminal message yet; and every other accepted turn has
ended once. -/
structure Inv (s : Socket) : Prop where
  entries : ∀ e ∈ s.queued, e.turn ≤ s.turn
  marks : ∀ t ∈ s.terminal, t ≤ s.turn
  accepted : ∀ t ∈ s.accepted, 0 < t ∧ t ≤ s.turn
  record : ∀ r, s.record = some r → r.turn_id = s.turn
  task : ∀ task, s.task = some task → task.phase ≠ .ended → task.binding.turn_id = s.turn ∧
    task.binding.turn_id ∈ s.accepted ∧ task.binding.turn_id ∉ s.terminal ∧
    ∀ e ∈ s.queued, ¬ e.ends task.binding.turn_id
  ended : ∀ t ∈ s.accepted, s.done t → t ∈ s.terminal ∧ EndedOnce t s.queued

theorem inv_init : Inv init where
  entries e he := by cases he
  marks t ht := by cases ht
  accepted t ht := by cases ht
  record r hr := by cases hr
  task task h := by cases h
  ended t ht := by cases ht

/-- A turn whose task is not the running one has ended. -/
theorem done_of_not_running (h : s.running = false) (turn : ℕ) : s.done turn := by
  unfold running at h
  unfold done
  cases hs : s.task with
  | none => rfl
  | some task =>
    have hended : task.phase = .ended := by simpa [hs] using h
    simp [hended]

/-- Steps that leave the queue, the marks and the turns alone, and keep the task running or ended. -/
structure Same (s s' : Socket) : Prop where
  turn : s'.turn = s.turn
  record : s'.record = s.record
  accepted : s'.accepted = s.accepted
  terminal : s'.terminal = s.terminal
  queued : s'.queued = s.queued
  task : s'.task.map (fun task => (task.binding, decide (task.phase = .ended))) =
    s.task.map fun task => (task.binding, decide (task.phase = .ended))

theorem Same.done (h : Same s s') (turn : ℕ) : s'.done turn = s.done turn := by
  have e := congrArg (Option.all fun p : Binding × Bool => p.1.turn_id ≠ turn || p.2) h.task
  simpa [Socket.done, Option.all_map, Function.comp_def] using e

theorem Inv.same (hi : Inv s) (h : Same s s') : Inv s' where
  entries e he := by
    rw [h.queued] at he
    rw [h.turn]
    exact hi.entries e he
  marks t ht := by
    rw [h.terminal] at ht
    rw [h.turn]
    exact hi.marks t ht
  accepted t ht := by
    rw [h.accepted] at ht
    rw [h.turn]
    exact hi.accepted t ht
  record r hr := by
    rw [h.record] at hr
    rw [h.turn]
    exact hi.record r hr
  task task ht hp := by
    have e := h.task
    rw [ht, Option.map_some, eq_comm, Option.map_eq_some_iff] at e
    obtain ⟨task', ht', e⟩ := e
    obtain ⟨hb, he⟩ := Prod.mk.inj e
    have hp' : task'.phase ≠ .ended := by
      intro h'
      rw [h', decide_eq_true rfl, eq_comm, decide_eq_true_eq] at he
      exact hp he
    have hold := hi.task task' ht' hp'
    rw [hb] at hold
    rw [h.turn, h.accepted, h.terminal, h.queued]
    exact hold
  ended t ht hd := by
    rw [h.accepted] at ht
    rw [h.done] at hd
    rw [h.terminal, h.queued]
    exact hi.ended t ht hd

/-- What is queued for a turn that is not an ended one keeps the invariant, as long as it does not end the
turn of the running task. -/
theorem Inv.adds {turn : ℕ} {l : List Entry} (hi : Inv s) (h : Adds s s' turn l) (hle : turn ≤ s.turn)
    (hother : ∀ t ∈ s.accepted, s.done t → t ≠ turn)
    (hrun : ∀ task, s.task = some task → task.phase ≠ .ended → task.binding.turn_id ∉ s'.terminal ∧ ∀ x ∈ l,
      ¬ x.ends task.binding.turn_id) :
    Inv s' where
  entries e he := by
    rw [h.number]
    rw [h.queued] at he
    rcases mem_append.1 he with he | he
    · exact hi.entries e he
    · rw [h.entries e he]
      exact hle
  marks t ht := by
    rw [h.number]
    rcases h.marks t ht with ht | rfl
    · exact hi.marks t ht
    · exact hle
  accepted t ht := by
    rw [h.accepted] at ht
    rw [h.number]
    exact hi.accepted t ht
  record r hr := by
    rw [h.record] at hr
    rw [h.number]
    exact hi.record r hr
  task task ht hp := by
    rw [h.task] at ht
    obtain ⟨hb, hin, -, hq⟩ := hi.task task ht hp
    obtain ⟨hmark, hl⟩ := hrun task ht hp
    rw [h.number, h.accepted, h.queued]
    refine ⟨hb, hin, hmark, fun e he => ?_⟩
    exact (mem_append.1 he).elim (hq e) (hl e)
  ended t ht hd := by
    rw [h.accepted] at ht
    unfold Socket.done at hd
    rw [h.task] at hd
    obtain ⟨hmark, hq⟩ := hi.ended t ht hd
    rw [h.queued]
    refine ⟨h.keeps t hmark, hq.append fun x hx => ?_⟩
    rw [h.entries x hx]
    exact (hother t ht hd).symm

/-- A task that ends with a terminal message for its turn keeps the invariant. -/
theorem Inv.settle (hi : Inv s) (ht : s.task = some task) (hp : task.phase ≠ .ended)
    (h : Finished (s.goto task .ended) s' task.binding.turn_id) : Inv s' := by
  obtain ⟨⟨x, l, hadds, hx, hl⟩, hin⟩ := h
  obtain ⟨hb, -, -, hq⟩ := hi.task task ht hp
  have hturn : s'.turn = s.turn := hadds.number
  have hqueued : s'.queued = s.queued ++ x :: l := hadds.queued
  have htask : s'.task = some { task with phase := .ended } := hadds.task
  have haccepted : s'.accepted = s.accepted := hadds.accepted
  have hx' : x.turn = task.binding.turn_id := hadds.entries x (mem_cons_self ..)
  refine ⟨?_, ?_, ?_, ?_, ?_, ?_⟩
  · intro e he
    rw [hturn]
    rw [hqueued] at he
    rcases mem_append.1 he with he | he
    · exact hi.entries e he
    · rw [hadds.entries e he, hb]
  · intro t hm
    rw [hturn]
    rcases hadds.marks t hm with hm | rfl
    · exact hi.marks t hm
    · exact hb.le
  · intro t hacc
    rw [haccepted] at hacc
    rw [hturn]
    exact hi.accepted t hacc
  · intro r hr
    have hr' : s.record = some r := hadds.record.symm.trans hr
    rw [hturn]
    exact hi.record r hr'
  · intro task' h' hp'
    rw [htask, Option.some_inj] at h'
    subst h'
    exact absurd rfl hp'
  · intro t hacc _
    rw [haccepted] at hacc
    rw [hqueued]
    by_cases e : t = task.binding.turn_id
    · -- the turn that ends here
      subst e
      refine ⟨hin, s.queued, x, l, rfl, ?_, hq, fun y hy => ?_⟩
      · simp [Entry.ends, hx', hx]
      · have hy' := hl y hy
        simp [Entry.ends, Entry.deltaOf, hy'.1, hy'.2]
    · have hd : s.done t := by
        unfold Socket.done
        rw [ht]
        simp [Ne.symm e]
      obtain ⟨hm, hended⟩ := hi.ended t hacc hd
      refine ⟨hadds.keeps t hm, hended.append fun y hy => ?_⟩
      rw [hadds.entries y hy]
      exact Ne.symm e

/-- The next turn's number and record. -/
theorem Inv.newRecord (hi : Inv s) (hrun : s.running = false) (generation : ℕ) (busy : Bool) :
    Inv { s with turn := s.turn + 1, generation := generation, transient_busy := busy,
                 record := some ⟨s.turn + 1, generation⟩ } where
  entries e he := Nat.le_succ_of_le (hi.entries e he)
  marks t ht := Nat.le_succ_of_le (hi.marks t ht)
  accepted t ht := ⟨(hi.accepted t ht).1, Nat.le_succ_of_le (hi.accepted t ht).2⟩
  record r hr := by
    rw [Option.some_inj] at hr
    rw [← hr]
  task task ht hp := by
    have h : s.running := by
      unfold running
      rw [show s.task = some task from ht]
      simpa using hp
    rw [hrun] at h
    cases h
  ended t ht hd := hi.ended t ht hd

/-- An accepted turn: nothing of it has ended yet. -/
theorem Inv.accept (hi : Inv s) (hrun : s.running = false) {b : Binding} (hb : b.turn_id = s.turn) (hpos : 0 < s.turn)
    (hmark : b.turn_id ∉ s.terminal) (hq : ∀ e ∈ s.queued, ¬ e.ends b.turn_id) (text : String) :
    Inv { s with task := some ⟨b, text, false, .created⟩, accepted := s.accepted ++ [b.turn_id] } where
  __ := hi
  accepted t ht := by
    rcases mem_append.1 ht with ht | ht
    · exact hi.accepted t ht
    · rw [mem_singleton.1 ht, hb]
      exact ⟨hpos, le_rfl⟩
  task task ht _ := by
    have e : task = ⟨b, text, false, .created⟩ := (Option.some_inj.1 ht).symm
    subst e
    exact ⟨hb, mem_append_right _ (mem_singleton.2 rfl), hmark, hq⟩
  ended t ht hd := by
    have hne : b.turn_id ≠ t := by simpa [Socket.done] using hd
    rcases mem_append.1 ht with ht | ht
    · exact hi.ended t ht (done_of_not_running hrun t)
    · exact absurd (mem_singleton.1 ht).symm hne

/-! ## A step -/

/-- The answer ends the task. -/
def Ends (c : Config) (s : Socket) (task : Task) (a : Answer) : Bool :=
  match next c s task a with
  | .settle _ => true
  | _ => false

/-- The condition on a step: a task that has started finds a free entry in the queue of an open socket
when it ends, no task is cancelled before its first step, and a call of `_cancel` that goes on after its
wait finds no task running. -/
def Orderly (c : Config) (s : Socket) : Event → Bool
  | .task a =>
    match s.task with
    | none => true
    | some task =>
      (!Ends c s task a || s.closed || s.events.length < 4096) &&
        match task.phase, a with
        | .created, .throw .cancelled => !task.cancelling
        | _, _ => true
  | .resume w => !(w ∈ s.waiting && s.done w.turn) || !s.running
  | _ => true

/-- A closed socket stays closed. -/
theorem closed_endCancel (h : s.closed) (closing : Bool) : (s.endCancel closing).closed := by
  unfold endCancel
  cases s.record with
  | none =>
    rw [Option.map_none]
    split_ifs
    · rfl
    · exact h
  | some =>
    rw [Option.map_some]
    dsimp only
    split_ifs
    · rfl
    · rw [closed_finish]
      exact h

theorem closed_taskStep (c : Config) (s : Socket) (task : Task) (a : Answer) :
    (s.taskStep c task a).closed = s.closed := by
  unfold taskStep
  split
  · obtain ⟨busy, unavailable, e⟩ := note_eq c s task a
    rw [closed_follow, e]
  · split
    · rfl
    · rename_i s' e
      rw [closed_follow]
      exact closed_emit e

theorem closed_step (c : Config) (h : s.closed) (e : Event) : (s.step c e).closed := by
  cases e with
  | start _ _ | update _ | input _ | cancel | close | receive =>
    simp [step, h]
  | resume w =>
    dsimp only [step]
    split_ifs
    · exact closed_endCancel (s := { s with waiting := s.waiting.erase w }) h w.closing
    · exact h
  | abandon =>
    dsimp only [step]
    split_ifs
    · exact h
    · exact h
  | cancelTask =>
    dsimp only [step]
    cases s.task with
    | none => exact h
    | some => exact h
  | task a =>
    dsimp only [step]
    cases s.task with
    | none => exact h
    | some task => exact (closed_taskStep c s task a).trans h

/-- A `_cancel` without a running task: an accepted turn is terminal, and any other turn may get its
message. -/
theorem Inv.endCancel (hi : Inv s) (ho : s.closed = false) (hrun : s.running = false) (closing : Bool) :
    Inv (s.endCancel closing) ∨ (s.endCancel closing).closed := by
  have hnone : ∀ task, s.task = some task → task.phase = .ended := by
    intro task ht
    unfold running at hrun
    rw [ht] at hrun
    simpa using hrun
  unfold Socket.endCancel
  cases hr : s.record with
  | none =>
    rw [Option.map_none]
    split_ifs
    · exact .inr rfl
    · exact .inl hi
  | some record =>
    rw [Option.map_some]
    dsimp only
    split_ifs
    · exact Or.inr rfl
    · refine Or.inl ?_
      by_cases hacc : record.turn_id ∈ s.accepted
      · have hmark := (hi.ended _ hacc (done_of_not_running hrun _)).1
        unfold finish
        rw [if_pos hmark]
        exact hi
      · obtain ⟨l, hadds⟩ := adds_finish ho record none
        refine hi.adds hadds (hi.record record hr).le ?_ fun task ht hp => absurd (hnone task ht) hp
        rintro t ht - rfl
        exact hacc ht

theorem Inv.task_goto {phase : Phase} (hi : Inv s) (ht : s.task = some task) (hp : task.phase ≠ .ended)
    (hp' : phase ≠ .ended) : Inv (s.goto task phase) := by
  refine hi.same ⟨rfl, rfl, rfl, rfl, rfl, ?_⟩
  rw [ht]
  simp [goto, hp, hp']

/-- A task that has ended stays where it is. -/
theorem next_of_ended (c : Config) (s : Socket) (h : task.phase = .ended) (a : Answer) :
    next c s task a = .stay := by
  cases a with
  | throw => simp [next, h, unwind]
  | first _ | models _ | payload _ | exit | response _ _ | line _ | eof => simp [next, h]

/-- The control flow leads to the end without a message only for a task that is cancelled before its first
step. -/
theorem next_goto_ended {c : Config} {a : Answer} (h : next c s task a = .goto .ended) :
    task.phase = .created ∧ a = .throw .cancelled ∧ task.cancelling := by
  cases a with
  | throw =>
    dsimp only [next] at h
    split_ifs at h with hc
    cases hp : task.phase <;> simp [hp, unwind] at h
    subst h
    exact ⟨rfl, rfl, by simpa using hc⟩
  | first =>
    dsimp only [next, begin] at h
    split at h
    · split_ifs at h
      cases h
    · cases h
  | models =>
    dsimp only [next] at h
    split at h <;> cases h
  | payload =>
    dsimp only [next] at h
    split at h
    · split at h <;> cases h
    · cases h
  | exit =>
    dsimp only [next] at h
    split at h <;> cases h
  | response =>
    dsimp only [next] at h
    split at h
    · split_ifs at h <;> cases h
    · cases h
  | line =>
    dsimp only [next] at h
    split at h
    · split at h
      · cases h
      · split_ifs at h <;> cases h
    · cases h
  | eof =>
    dsimp only [next] at h
    split at h <;> cases h

/-- A line of the stream never ends the task by itself: the request is left first. -/
theorem next_line_ne_settle (c : Config) (s : Socket) (task : Task) (line : Line) (exit : Exit) :
    next c s task (.line line) ≠ .settle exit := by
  intro h
  dsimp only [next] at h
  split at h
  · split at h
    · cases h
    · split_ifs at h
  · cases h

/-- Only a line of the stream makes the task emit a delta. -/
theorem delta_eq_some {c : Config} {a : Answer} {text : String} (h : delta c task a = some text) :
    (∃ line, a = .line line) ∧ task.phase ≠ .ended := by
  cases a with
  | line line =>
    dsimp only [delta] at h
    split at h
    · rename_i st hp
      rw [hp]
      exact ⟨⟨line, rfl⟩, nofun⟩
    · cases h
  | first _ | models _ | payload _ | exit | response _ _ | eof | throw _ => cases h

/-- Following the control flow of a running task. -/
theorem Inv.follow (hi : Inv s) (ho : s.closed = false) (ht : s.task = some task) {n : Next}
    (hp : n = .stay ∨ task.phase ≠ .ended) (hn : n ≠ .goto .ended)
    (hroom : ∀ exit, n = .settle exit → s.events.length < 4096) : Inv (s.follow task n) := by
  cases n with
  | stay => exact hi
  | goto =>
    refine hi.task_goto ht (hp.resolve_left nofun) ?_
    rintro rfl
    exact hn rfl
  | settle exit =>
    have hp' := hp.resolve_left nofun
    have hnew := (hi.task task ht hp').2.2.1
    exact hi.settle ht hp' (finished_settle ho (hroom exit rfl) hnew exit)

/-- A step of the task that is not its cancellation before the first step, and that finds room where it
ends the task. -/
theorem Inv.taskStep {c : Config} {a : Answer} (hi : Inv s) (ho : s.closed = false) (ht : s.task = some task)
    (hc : ¬ (task.phase = .created ∧ a = .throw .cancelled ∧ task.cancelling))
    (hroom : ∀ exit, next c s task a = .settle exit → s.events.length < 4096) :
    Inv (s.taskStep c task a) := by
  have hn : next c s task a ≠ .goto .ended := fun h => hc (next_goto_ended h)
  have hp : next c s task a = .stay ∨ task.phase ≠ .ended := by
    by_cases h : task.phase = .ended
    · exact .inl (next_of_ended c s h a)
    · exact .inr h
  unfold Socket.taskStep
  cases hd : delta c task a with
  | none =>
    obtain ⟨busy, unavailable, e⟩ := note_eq c s task a
    have hi' : Inv (s.note c task a) := by
      rw [e]
      exact hi.same ⟨rfl, rfl, rfl, rfl, rfl, rfl⟩
    rw [e] at hi' ⊢
    exact hi'.follow ho ht hp hn hroom
  | some =>
    obtain ⟨⟨line, rfl⟩, hrun⟩ := delta_eq_some hd
    obtain ⟨hb, -, hmark, -⟩ := hi.task task ht hrun
    dsimp only
    split
    · exact hi.task_goto ht hrun nofun
    · rename_i s' he
      have hadds := adds_emit ho he
      obtain ⟨rfl, -⟩ := queued_emit ho he
      have hi' := hi.adds hadds hb.le ?_ ?_
      · refine hi'.follow ho ht hp hn fun exit h => ?_
        exact absurd h (next_line_ne_settle c s task line exit)
      · rintro t - hdone rfl
        simp [Socket.done, ht, hrun] at hdone
      · intro task' ht' hp'
        rw [ht, Option.some_inj] at ht'
        subst ht'
        refine ⟨hmark, fun x hx => ?_⟩
        rw [mem_singleton.1 hx]
        simp [Entry.ends, Message.ending]

/-- An accepted turn, or one whose first messages found the queue full. -/
theorem Inv.input (hi : Inv s) (ho : s.closed = false) (text : String) : Inv (s.input text) := by
  unfold Socket.input
  split_ifs with hbusy
  · exact hi
  · rw [not_or, not_or] at hbusy
    have hrun : s.running = false := Bool.eq_false_iff.2 hbusy.2.2
    have hi1 := hi.newRecord hrun (s.generation + 1) false
    have hlast : ∀ t ∈ s.accepted, s.done t → t ≠ s.turn + 1 := by
      rintro t ht - rfl
      have h := (hi.accepted _ ht).2
      omega
    have hnew : s.turn + 1 ∉ s.terminal := by
      intro h
      have h' := hi.marks _ h
      omega
    have hold : ∀ e ∈ s.queued, ¬ e.ends (s.turn + 1) := by
      intro e he h
      have h' := hi.entries e he
      simp only [Entry.ends, Bool.and_eq_true, decide_eq_true_eq] at h
      omega
    have hnone : ∀ task, s.task = some task → task.phase ≠ .ended → False := by
      intro task ht hp
      have h := done_of_not_running hrun task.binding.turn_id
      simp [Socket.done, ht, hp] at h
    dsimp only
    split
    · exact hi1
    · rename_i s1 h1
      have a1 := adds_emit (by exact ho) h1
      obtain ⟨rfl, -⟩ := queued_emit (by exact ho) h1
      have hi2 := hi1.adds a1 le_rfl hlast fun task ht hp => (hnone task ht hp).elim
      split
      · exact hi2
      · rename_i s2 h2
        have a2 := adds_emit (by exact ho) h2
        obtain ⟨rfl, -⟩ := queued_emit (by exact ho) h2
        have hi3 := hi2.adds a2 le_rfl hlast fun task ht hp => (hnone task ht hp).elim
        refine hi3.accept hrun rfl (Nat.succ_pos _) hnew ?_ text
        intro e he
        rw [a2.queued, a1.queued] at he
        rcases mem_append.1 he with he | he
        · rcases mem_append.1 he with he | he
          · exact hold e he
          · rw [mem_singleton.1 he]
            simp [Entry.ends, Message.ending]
        · rw [mem_singleton.1 he]
          simp [Entry.ends, Message.ending]

/-- What `_cancel` does before its wait. -/
theorem Inv.cancel (hi : Inv s) (ho : s.closed = false) (closing : Bool) :
    Inv (s.cancel closing) ∨ (s.cancel closing).closed := by
  unfold Socket.cancel
  cases ht : s.task with
  | none => exact hi.endCancel ho (by simp [running, ht]) closing
  | some =>
    dsimp only
    split_ifs with hp
    · exact hi.endCancel ho (by simp [running, ht, hp]) closing
    · refine .inl (hi.same ⟨rfl, rfl, rfl, rfl, rfl, ?_⟩)
      rw [ht]
      rfl

/-- The reader takes the oldest entry of the queue. -/
theorem queued_receive (c : Config) (s : Socket) : Same s (s.step c .receive) := by
  dsimp only [step]
  split_ifs
  · exact ⟨rfl, rfl, rfl, rfl, rfl, rfl⟩
  · split
    · exact ⟨rfl, rfl, rfl, rfl, rfl, rfl⟩
    · rename_i e es he
      refine ⟨rfl, rfl, rfl, rfl, ?_, rfl⟩
      show (s.read ++ [e]) ++ es = s.read ++ s.events
      rw [he, append_assoc, singleton_append]

/-- The first message of the socket belongs to no turn. -/
theorem Inv.start (hi : Inv s) (ho : s.closed = false) (seed : String) :
    Inv (({ s with seed := seed }.emit 0 .ready).getD { s with seed := seed }) := by
  have hi' : Inv { s with seed := seed } := hi.same ⟨rfl, rfl, rfl, rfl, rfl, rfl⟩
  cases h : { s with seed := seed }.emit 0 .ready with
  | none => exact hi'
  | some =>
    refine hi'.adds (adds_emit ho h) (Nat.zero_le _) ?_ fun task ht hp => ?_
    · rintro t ht - rfl
      exact absurd (hi.accepted 0 ht).1 (lt_irrefl 0)
    · obtain ⟨rfl, -⟩ := queued_emit (by exact ho) h
      refine ⟨(hi'.task task ht hp).2.2.1, fun x hx => ?_⟩
      rw [mem_singleton.1 hx]
      simp [Entry.ends, Message.ending]

/-- One orderly step of an open socket. -/
theorem inv_step (c : Config) (hi : Inv s) (ho : s.closed = false) (e : Event) (hok : Orderly c s e) :
    Inv (s.step c e) ∨ (s.step c e).closed := by
  cases e with
  | start system_prompt =>
    dsimp only [step]
    split_ifs
    · exact .inl hi
    · exact .inl (hi.start ho system_prompt)
  | update =>
    dsimp only [step]
    rw [ho, if_neg Bool.false_ne_true]
    exact .inl (hi.same ⟨rfl, rfl, rfl, rfl, rfl, rfl⟩)
  | input text =>
    dsimp only [step]
    rw [ho, if_neg Bool.false_ne_true]
    exact .inl (hi.input ho text)
  | cancel =>
    dsimp only [step]
    rw [ho, if_neg Bool.false_ne_true]
    exact hi.cancel ho false
  | close =>
    dsimp only [step]
    rw [ho, if_neg Bool.false_ne_true]
    exact hi.cancel ho true
  | resume w =>
    dsimp only [step]
    split_ifs with hw
    · have hrun : s.running = false := by simpa [Orderly, hw.1, hw.2] using hok
      have hi' : Inv { s with waiting := s.waiting.erase w } :=
        hi.same ⟨rfl, rfl, rfl, rfl, rfl, rfl⟩
      exact hi'.endCancel ho hrun w.closing
    · exact .inl hi
  | abandon =>
    dsimp only [step]
    split_ifs
    · exact .inl (hi.same ⟨rfl, rfl, rfl, rfl, rfl, rfl⟩)
    · exact .inl hi
  | cancelTask =>
    dsimp only [step]
    cases ht : s.task with
    | none => exact .inl hi
    | some =>
      refine .inl (hi.same ⟨rfl, rfl, rfl, rfl, rfl, ?_⟩)
      rw [ht]
      rfl
  | receive => exact .inl (hi.same (queued_receive c s))
  | task =>
    dsimp only [step]
    cases ht : s.task with
    | none => exact .inl hi
    | some =>
      dsimp only [Orderly] at hok
      rw [ht, Bool.and_eq_true] at hok
      refine .inl (hi.taskStep ho ht ?_ ?_)
      · rintro ⟨hp, rfl, hcancel⟩
        have h := hok.2
        rw [hp, hcancel] at h
        exact absurd h (by decide)
      · intro exit hexit
        have h := hok.1
        rw [ho] at h
        simpa [Ends, hexit] using h

/-! ## Runs -/

/-- In a run of orderly steps an open socket keeps its invariant. -/
theorem inv_run {c : Config} {es : List Event}
    (hok : Admits (step c) (fun s e => Orderly c s e) init es)
    (ho : (run (step c) init es).closed = false) : Inv (run (step c) init es) := by
  have h := run_invariant_of (P := fun s => Inv s ∨ s.closed) ?_ (.inl inv_init) hok
  · exact h.resolve_right (by rw [ho]; exact Bool.false_ne_true)
  · rintro s e hs he
    by_cases hc : s.closed
    · exact .inr (closed_step c hc e)
    · exact inv_step c (hs.resolve_right hc) (Bool.eq_false_iff.2 hc) e he

/-- A reader that takes all entries of an open socket has read everything that was queued. -/
theorem read_drain (c : Config) (n : ℕ) : ∀ s : Socket, s.closed = false → s.events.length = n →
    (run (step c) s (List.replicate n .receive)).read = s.queued := by
  induction n with
  | zero =>
    intro s _ hn
    rw [length_eq_zero_iff] at hn
    simp [queued, hn]
  | succ n ih =>
    intro s ho hn
    obtain ⟨e, es, he⟩ := exists_of_length_succ s.events hn
    have hstep : s.step c .receive = { s with events := es, read := s.read ++ [e] } := by
      simp [step, ho, he]
    have hlen : es.length = n := by
      rw [he, length_cons] at hn
      omega
    have h := ih { s with events := es, read := s.read ++ [e] } ho hlen
    rw [replicate_succ, run_cons, hstep, h]
    simp [queued, he]

end Socket

open Socket

/-- In every run of orderly steps, each accepted turn of an open socket whose task has ended has queued
exactly one terminal message, with no delta of the turn after it, and a reader that takes what is queued
reads it. -/
theorem one_terminal {c : Config} {es : List Event}
    (hok : Admits (step c) (fun s e => Orderly c s e) init es) (turn : ℕ) :
    let s := run (step c) init es
    s.closed = false → turn ∈ s.accepted → s.done turn →
      EndedOnce turn s.queued ∧
      ∃ e ∈ (run (step c) s (List.replicate s.events.length .receive)).read, e.ends turn := by
  intro s ho hacc hdone
  have h := ((inv_run hok ho).ended turn hacc hdone).2
  refine ⟨h, ?_⟩
  rw [read_drain c s.events.length s ho rfl]
  exact h.exists_ends

/-! ## A turn whose terminal message is lost -/

/-- An event with one letter, the event that ends a text, and the end of the stream. -/
def letterText : List Char :=
  "\x7b\"choices\":[\x7b\"delta\":\x7b\"content\":\"a\"\x7d\x7d]\x7d".toList

def stopText : List Char :=
  "\x7b\"choices\":[\x7b\"delta\":\x7b\x7d,\"finish_reason\":\"stop\"\x7d]\x7d".toList

def doneText : List Char := "[DONE]".toList

/-- What the decoder gives for these texts. -/
def sampleLoads (payload : List Char) : Option Json :=
  if payload = letterText then
    some (.dict [("choices", .list [.dict [("delta", .dict [("content", .str "a")])]])])
  else if payload = stopText then
    some (.dict [("choices", .list [.dict [("delta", .dict []), ("finish_reason", .str "stop")]])])
  else none

def sampleConfig : Config where
  expected_model := none
  loads := sampleLoads
  model_messages _ _ _ := true

/-- One event of the stream: its `data` line and the blank line after it. -/
def streamEvent (payload : List Char) : List Event :=
  [.task (.line ⟨payload.length + 7, some ("data: ".toList ++ payload ++ ['\n'])⟩),
   .task (.line ⟨1, some ['\n']⟩)]

/-- A turn up to the first line of its stream. -/
def opening : List Event :=
  [.start "rules" true, .update "\x7b\x7d", .input "Hallo", .task (.first true),
   .task (.models 200),
   .task (.payload ⟨32, some (.dict [("data", .list [.dict [("id", .str "halogen-v2")]])])⟩),
   .task .exit, .task (.response 200 true)]

/-- The end of the stream and of the task. -/
def completion : List Event := streamEvent stopText ++ streamEvent doneText ++ [.task .exit]

theorem one_terminal_short_turn :
    let s := run (step sampleConfig) init (opening ++ streamEvent letterText ++ completion)
    EndedOnce 1 s.queued ∧
      ∃ e ∈ (run (step sampleConfig) s (List.replicate s.events.length .receive)).read, e.ends 1 := by
  have hok : Admits (step sampleConfig) (fun s e => Orderly sampleConfig s e) init
      (opening ++ streamEvent letterText ++ completion) := by
    apply admits_of_check
    decide +kernel
  exact one_terminal hok 1 (by decide +kernel) (by decide +kernel) (by decide +kernel)

/-- A `_cancel` that goes on late closes the turn that has begun since. -/
example :
    let s := run (step sampleConfig) init
      (opening.take 4 ++ [.cancel, .task (.throw .cancelled), .input "Ja"] ++ opening.drop 3 ++
        [.resume ⟨1, false⟩] ++ streamEvent letterText)
    (s.queued.filter fun e => e.ends 2 || e.deltaOf 2).map Entry.message =
      [.cancelled ⟨2, 2⟩, .textDelta "a" ⟨2, 2⟩] := by
  decide +kernel

/-- A task that is cancelled before its first step ends without a message, and nothing sends one when the
call that cancelled it does not go on. -/
example :
    let s := run (step sampleConfig) init
      (opening.take 3 ++ [.cancel, .task (.throw .cancelled), .abandon ⟨1, false⟩])
    s.done 1 ∧ ∀ e ∈ s.queued, ¬ e.ends 1 := by
  decide +kernel

/-- The text can stand on one `data` line. -/
def OnLine (payload : List Char) : Bool :=
  Stream.rstrip ("data: ".toList ++ payload ++ ['\n']) = "data: ".toList ++ payload &&
    payload.dropWhile (· = ' ') = payload && payload.length ≤ 65529

/-- A line with the text of an event is kept for the blank line. -/
theorem line_data (loads : List Char → Option Json) {st : Stream} (h : st.data = [])
    {payload : List Char} (hline : OnLine payload) :
    st.line loads ⟨payload.length + 7, some ("data: ".toList ++ payload ++ ['\n'])⟩ =
      ⟨none, some { st with data := [payload] }⟩ := by
  simp only [OnLine, Bool.and_eq_true, decide_eq_true_eq] at hline
  obtain ⟨⟨hstrip, hhead⟩, hlen⟩ := hline
  have hdrop : (("data: ".toList ++ payload).drop 5).dropWhile (· = ' ') = payload := by
    show (' ' :: payload).dropWhile (· = ' ') = payload
    rw [dropWhile_cons_of_pos (by decide), hhead]
  have hprefix : "data:".toList <+: "data: ".toList ++ payload := ⟨' ' :: payload, rfl⟩
  have hsum : ¬ 65536 < ([payload].map List.length).sum := by
    rw [map_singleton, sum_singleton]
    omega
  unfold Stream.line
  rw [if_neg (show ¬ 65536 < payload.length + 7 by omega), Option.map_some, hstrip]
  show (if "data:".toList <+: "data: ".toList ++ payload then _ else _) = _
  rw [if_pos hprefix, hdrop, h, nil_append]
  exact if_neg hsum

/-- The blank line after it handles the event. -/
theorem line_blank (loads : List Char → Option Json) {st : Stream} (h : st.data = [])
    (payload : List Char) :
    Stream.line loads { st with data := [payload] } ⟨1, some ['\n']⟩ = st.event loads payload := by
  have hstrip : Stream.rstrip ['\n'] = [] := by decide
  have hjoin : ['\n'].intercalate [payload] = payload := by simp [List.intercalate]
  have hst : { st with data := [] } = st := by rw [← h]
  unfold Stream.line
  rw [if_neg (show ¬ 65536 < 1 by decide), Option.map_some, hstrip]
  show (if "data:".toList <+: [] then _ else if [] ≠ [] ∨ [payload] = [] then _ else
    Stream.event loads { st with data := [] } (['\n'].intercalate [payload])) = _
  rw [if_neg (by decide), if_neg (by simp), hst, hjoin]

/-- The stream after `n` letters. -/
def letters (n : ℕ) : Stream := ⟨[], n, false, false, List.replicate n "a", n⟩

/-- The event of one more letter. -/
theorem event_letter {n : ℕ} (h : n < 4096) :
    (letters n).event sampleLoads letterText = ⟨some "a", some (letters (n + 1))⟩ := by
  have hne : letterText ≠ "[DONE]".toList := by decide
  have hloads : sampleLoads letterText =
      some (.dict [("choices", .list [.dict [("delta", .dict [("content", .str "a")])]])]) :=
    if_pos rfl
  have hcount : ¬ 4096 < n + 1 := by omega
  have hcontent : { letters n with event_count := n + 1 }.content (.str "a") =
      some (some "a", letters (n + 1)) := by
    have htotal : ¬ 16384 < n + 1 := by omega
    have hlen : "a".length = 1 := rfl
    simp [Stream.content, letters, hlen, htotal, replicate_succ']
  unfold Stream.event
  rw [if_neg (show ¬ 4096 < (letters n).event_count + 1 from hcount), if_neg hne, hloads]
  show Stream.choice { letters n with event_count := n + 1 } [("delta", .dict [("content", .str "a")])] = _
  unfold Stream.choice
  have hdelta : field [("delta", .dict [("content", .str "a")])] "delta" = .dict [("content", .str "a")] := rfl
  have htext : field [("content", .str "a")] "content" = .str "a" := rfl
  rw [hdelta]
  dsimp only
  rw [if_neg (by decide), if_neg (by decide), htext, hcontent]
  rfl

/-- The event that ends the text, and the one that ends the stream. -/
theorem event_stop {n : ℕ} (h : n < 4096) :
    (letters n).event sampleLoads stopText =
      ⟨none, some { letters n with event_count := n + 1, saw_finish := true }⟩ := by
  have hne : stopText ≠ "[DONE]".toList := by decide
  have hloads : sampleLoads stopText =
      some (.dict [("choices", .list [.dict [("delta", .dict []), ("finish_reason", .str "stop")]])]) := by
    unfold sampleLoads
    rw [if_neg (by decide), if_pos rfl]
  have hcount : ¬ 4096 < n + 1 := by omega
  unfold Stream.event
  rw [if_neg (show ¬ 4096 < (letters n).event_count + 1 from hcount), if_neg hne, hloads]
  rfl

theorem event_done {st : Stream} (h : st.event_count < 4096) :
    st.event sampleLoads doneText =
      ⟨none, some { st with event_count := st.event_count + 1, saw_done := true }⟩ := by
  unfold Stream.event
  rw [if_neg (by omega)]
  exact if_pos rfl

namespace Socket

variable {s : Socket}

/-- A line that emits nothing leads to the next line, or out of the loop. -/
theorem step_line {c : Config} {task : Task} {st st' : Stream} {l : Line} (ht : s.task = some task)
    (hp : task.phase = .streaming st) (hline : st.line c.loads l = ⟨none, some st'⟩) :
    s.step c (.task (.line l)) =
      s.goto task (if st'.saw_done then .leavingStream (result st') else .streaming st') := by
  dsimp only [step]
  rw [ht]
  simp only [taskStep, delta, next, note, hp, hline]
  split_ifs <;> rfl

/-- A line that emits a text queues it, where the queue has room. -/
theorem step_delta {c : Config} {task : Task} {st st' : Stream} {l : Line} {text : String} (ht : s.task = some task)
    (hp : task.phase = .streaming st) (hline : st.line c.loads l = ⟨some text, some st'⟩)
    (hdone : st'.saw_done = false) (ho : s.closed = false) (hroom : s.events.length < 4096) :
    s.step c (.task (.line l)) =
      Socket.goto
        { s with events := s.events ++ [⟨task.binding.turn_id, .textDelta text task.binding⟩] }
        task (.streaming st') := by
  dsimp only [step]
  rw [ht]
  simp only [taskStep, delta, next, hp, hline, hdone, emit_of_room ho hroom]
  rfl

section Event

variable {c : Config} {task : Task} {st st' : Stream} {payload : List Char} (ht : s.task = some task)
  (hp : task.phase = .streaming st) (hdata : st.data = []) (hdone : st.saw_done = false) (hline : OnLine payload)
include ht hp hdata hdone hline

/-- The `data` line of an event. -/
theorem step_data :
    s.step c (.task (.line ⟨payload.length + 7, some ("data: ".toList ++ payload ++ ['\n'])⟩)) =
      s.goto task (.streaming { st with data := [payload] }) := by
  rw [step_line ht hp (line_data c.loads hdata hline)]
  simp [hdone]

/-- An event is the step of its blank line. -/
theorem run_streamEvent : run (step c) s (streamEvent payload) =
    (s.goto task (.streaming { st with data := [payload] })).step c (.task (.line ⟨1, some ['\n']⟩)) := by
  rw [streamEvent, run_cons, run_cons, run_nil, step_data ht hp hdata hdone hline]

/-- An event that emits nothing leads to the next line, or out of the loop. -/
theorem run_event (h : st.event c.loads payload = ⟨none, some st'⟩) : run (step c) s (streamEvent payload) =
    s.goto task (if st'.saw_done then .leavingStream (result st') else .streaming st') := by
  have hblank := (line_blank c.loads hdata payload).trans h
  rw [run_streamEvent ht hp hdata hdone hline, step_line rfl rfl hblank]
  rfl

/-- An event with a text queues it, where the queue has room. -/
theorem run_event_delta {text : String} (h : st.event c.loads payload = ⟨some text, some st'⟩)
    (hdone' : st'.saw_done = false) (ho : s.closed = false) (hroom : s.events.length < 4096) :
    run (step c) s (streamEvent payload) = Socket.goto
      { s with events := s.events ++ [⟨task.binding.turn_id, .textDelta text task.binding⟩] }
      task (.streaming st') := by
  have hblank := (line_blank c.loads hdata payload).trans h
  rw [run_streamEvent ht hp hdata hdone hline]
  have hstep := step_delta (s := s.goto task _) rfl rfl hblank hdone' ho hroom
  exact hstep

end Event

/-- In a full queue `_finish` queues nothing. -/
theorem adds_finish_of_full (h : s.closed = false) (hfull : ¬ s.events.length < 4096) (record : Binding)
    (text : Option String) : Adds s (s.finish record text).1 record.turn_id [] ∧
      ¬ (s.finish record text).1.events.length < 4096 := by
  unfold finish
  split_ifs
  · exact ⟨Adds.refl s _, hfull⟩
  · rw [emit_of_full (s := s.markTerminal record.turn_id) h hfull]
    exact ⟨adds_markTerminal s _, hfull⟩

/-- A task that ends in a full queue queues nothing. -/
theorem adds_settle_of_full (h : s.closed = false) (hfull : ¬ s.events.length < 4096) (task : Task) (exit : Exit) :
    Adds (s.goto task .ended) (s.settle task exit) task.binding.turn_id [] := by
  have hended : (s.goto task .ended).closed = false := h
  have hfull' : ¬ (s.goto task .ended).events.length < 4096 := hfull
  rcases exit with text | _ | _
  · rw [settle_value]
    obtain ⟨hadds, hstill⟩ := adds_finish_of_full hended hfull' task.binding (some text)
    split_ifs
    · exact hadds
    · exact hadds.trans (adds_fail_of_full (hadds.closed.trans hended) hstill task.binding)
  · exact adds_fail_of_full hended hfull' task.binding
  · exact (adds_finish_of_full hended hfull' task.binding none).1

end Socket

/-- The task after `n` letters. -/
def letterTask (n : ℕ) : Task := ⟨⟨1, 1⟩, "Hallo", false, .streaming (letters n)⟩

/-- The socket whose reader took nothing, after `n` letters. -/
def streamed (n : ℕ) : Socket :=
  { init with
    turn := 1
    generation := 1
    seed := "rules"
    snapshot := "\x7b\x7d"
    record := some ⟨1, 1⟩
    accepted := [1]
    task := some (letterTask n)
    events := [⟨0, .ready⟩, ⟨1, .committed 1⟩, ⟨1, .created ⟨1, 1⟩⟩] ++
      List.replicate n ⟨1, .textDelta "a" ⟨1, 1⟩⟩ }

theorem run_opening : run (step sampleConfig) init opening = streamed 0 := by decide +kernel

theorem run_letter {n : ℕ} (h : n < 4093) :
    run (step sampleConfig) (streamed n) (streamEvent letterText) = streamed (n + 1) := by
  have hroom : (streamed n).events.length < 4096 := by
    simp only [streamed, length_append, length_cons, length_nil, length_replicate]
    omega
  have hevent := event_letter (n := n) (by omega)
  have hline : OnLine letterText := by decide +kernel
  have hrun := run_event_delta (c := sampleConfig) (s := streamed n) rfl rfl rfl rfl hline hevent rfl rfl
    hroom
  rw [hrun]
  simp [goto, streamed, letterTask, replicate_succ', init]

/-- A reader that takes nothing leaves room for 4093 letters. -/
theorem run_letters {n : ℕ} (h : n ≤ 4093) :
    run (step sampleConfig) (streamed 0) (List.replicate n (streamEvent letterText)).flatten =
      streamed n := by
  induction n with
  | zero => rfl
  | succ n ih =>
    rw [replicate_succ', flatten_append, run_append, ih (by omega), flatten_singleton]
    exact run_letter (by omega)

/-- The text of 4093 letters that nobody reads, and its regular end. -/
def undrained : List Event :=
  opening ++ (List.replicate 4093 (streamEvent letterText)).flatten ++ completion

/-- The end of the text, up to the end of the task. -/
theorem run_completion {s : Socket} {task : Task} {n : ℕ} (h : n < 4095) (ht : s.task = some task)
    (hp : task.phase = .streaming (letters n)) :
    ∃ phase task' exit,
      run (step sampleConfig) s completion = (s.goto task phase).settle task' exit := by
  -- the stream after the event that ends the text, and the task there
  let st : Stream := { letters n with event_count := n + 1, saw_finish := true }
  let stopped : Task := { task with phase := .streaming st }
  have hstop : OnLine stopText := by decide +kernel
  have hdone : OnLine doneText := by decide +kernel
  have hevent : (letters n).event sampleLoads stopText = ⟨none, some st⟩ := event_stop (by omega)
  have h1 := run_event (c := sampleConfig) ht hp rfl rfl hstop hevent
  rw [if_neg (show ¬ st.saw_done from Bool.false_ne_true)] at h1
  have hcount : st.event_count < 4096 := by
    show n + 1 < 4096
    omega
  have hstopped : (s.goto task (.streaming st)).task = some stopped := rfl
  have h2 := run_event (c := sampleConfig) hstopped rfl rfl rfl hdone (event_done hcount)
  rw [if_pos rfl] at h2
  unfold completion
  rw [run_append, run_append, h1, h2]
  exact ⟨_, _, _, rfl⟩

/-- The queue that nobody reads holds no terminal message. -/
theorem ends_streamed {n : ℕ} : ∀ e ∈ (streamed n).queued, ¬ e.ends 1 := by
  intro e he
  rcases mem_append.1 (show e ∈ (streamed 0).queued ++ List.replicate n _ from he) with h | h
  · clear he
    revert e
    decide
  · rw [eq_of_mem_replicate h]
    decide

/-- The turn has ended, and nothing in the queue says so. -/
theorem undrained_turn_lost :
    let s := run (step sampleConfig) init undrained
    s.closed = false ∧ 1 ∈ s.accepted ∧ s.done 1 ∧ ∀ e ∈ s.queued, ¬ e.ends 1 := by
  have hfull : ¬ (streamed 4093).events.length < 4096 := by
    simp only [streamed, length_append, length_cons, length_nil, length_replicate]
    omega
  obtain ⟨phase, task', exit, hrun⟩ :=
    run_completion (s := streamed 4093) (n := 4093) (by decide) rfl rfl
  have hadds := adds_settle_of_full (s := (streamed 4093).goto (letterTask 4093) phase) rfl hfull task'
    exit
  intro s
  have hs : s = ((streamed 4093).goto (letterTask 4093) phase).settle task' exit := by
    show run _ _ (opening ++ _ ++ completion) = _
    rw [run_append, run_append, run_opening, run_letters le_rfl, hrun]
  rw [← hs] at hadds
  refine ⟨hadds.closed, ?_, ?_, ?_⟩
  · rw [hadds.accepted]
    exact mem_singleton.2 rfl
  · unfold Socket.done
    rw [hadds.task]
    simp [goto]
  · rw [hadds.queued, append_nil]
    exact ends_streamed

end StrixAlloy.LocalText

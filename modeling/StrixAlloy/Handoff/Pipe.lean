import StrixAlloy.Handoff.Channel

/-!
# The two ends of a pipe

However the system cuts the bytes into pieces, what an end has read, what is on its wire and what the
other end has left to write make up the frames that the other end has issued (`Flow`). An operation of an
end keeps both of its streams (`Step`), so a message that one end returns was sent by the other
(`Pipe.received`), and has every property that the other end's messages have.
-/

namespace StrixAlloy.Handoff

open Framing List

namespace Channel

variable {c : Codec} {P : Message → Prop} {ch ch' : Channel} {wire wire' : List UInt8} {m : Message}
  {mode : Mode} {starts joined : Bool} {report : Report} {r : Result}

/-- The bytes of an incomplete frame that this end has read. -/
def part (ch : Channel) : List UInt8 :=
  match ch.mode with
  | .header => ch.data
  | .body => le32 ch.needed ++ ch.data
  | _ => []

/-- The bytes of its frame that the system has not taken yet. -/
def rest (ch : Channel) : List UInt8 :=
  match ch.operation with
  | some (.write moved) => ch.data.drop moved
  | _ => []

/-- A state without an incomplete frame. -/
def Settled (mode : Mode) : Prop := mode ≠ .header ∧ mode ≠ .body

theorem part_eq_nil (h : Settled ch.mode) : ch.part = [] := by
  unfold part
  split
  · exact absurd ‹_› h.1
  · exact absurd ‹_› h.2
  · rfl

/-- The operation fits the state, and so do the bytes that are there. -/
structure Ok (ch : Channel) : Prop where
  idle : ch.operation = none → Settled ch.mode
  writing : ∀ k, ch.operation = some (.write k) → ch.mode = .write ∧ k ≤ ch.data.length
  reading : ∀ n, ch.operation = some (.read n) →
    (ch.mode = .header ∧ ch.needed = 4 ∨ ch.mode = .body ∧ ch.needed ≤ 65536) ∧
      ch.data.length + n = ch.needed
  after : Settled ch.after
  queue : ∀ q, ch.queued_send = some q → ch.mode = .header ∧ ch.data = [] ∧ Settled q.2
  bounded : ∀ p ∈ ch.taken ++ ch.issued, p.length ≤ 65536

/-- What this end sends, or will send once its read was aborted, has the property `P`. -/
structure Says (c : Codec) (P : Message → Prop) (ch : Channel) : Prop where
  issued : ∀ p ∈ ch.issued, ∃ m, c.decode p = some m ∧ P m
  queued : ∀ q, ch.queued_send = some q → P q.1

theorem Says.mono {Q : Message → Prop} (h : Says c P ch) (hPQ : ∀ m, P m → Q m) : Says c Q ch where
  issued p hp := by
    obtain ⟨m, hm, hP⟩ := h.issued p hp
    exact ⟨m, hm, hPQ m hP⟩
  queued q hq := hPQ _ (h.queued q hq)

/-- An operation of an end, that leaves `wire'` of the incoming bytes `wire`. -/
structure Step (c : Codec) (P : Message → Prop) (ch ch' : Channel) (wire wire' : List UInt8) : Prop where
  ok : Ok ch'
  reads : stream ch'.taken ++ ch'.part ++ wire' = stream ch.taken ++ ch.part ++ wire
  writes : ∀ moved, moved ++ ch.rest = stream ch.issued → moved ++ ch'.rest = stream ch'.issued
  speaks : Says c P ch → Says c P ch'

section

variable (h : Ok ch)
include h

theorem Step.refl : Step c P ch ch wire wire where
  ok := h
  reads := rfl
  writes _ h := h
  speaks h := h

omit h in
theorem ok_init (challenge : String) : Ok (init challenge) where
  idle _ := ⟨nofun, nofun⟩
  writing k h := by cases h
  reading n h := by cases h
  after := ⟨nofun, nofun⟩
  queue q h := by cases h
  bounded p hp := by cases hp

omit h in
/-- A frame is begun where `ch₀` stood between two frames, without an operation that could be lost. -/
theorem begin_step {ch₀ : Channel} (h : Ok ch₀) (hpart : ch₀.part = []) (hrest : ch₀.rest = [])
    (hop : ch.operation = none) (hq : ch.queued_send = none) (htaken : ch.taken = ch₀.taken)
    (hissued : ch.issued = ch₀.issued) (hm : Says c P ch₀ → P m) (ha : Settled mode)
    (e : ch.send c m mode starts = some ch') : Step c P ch₀ ch' wire wire := by
  unfold send at e
  rw [hop] at e
  dsimp only at e
  split at e
  case isFalse => cases e
  rename_i hlen
  injection e with e
  subst e
  refine ⟨⟨nofun, ?_, nofun, ha, fun q e => ?_, ?_⟩, ?_, fun moved hmoved => ?_, fun hs => ⟨?_, fun q e => ?_⟩⟩
  · intro k hk
    cases hk
    exact ⟨rfl, Nat.zero_le _⟩
  · cases hq.symm.trans e
  · intro p hp
    rw [htaken, hissued, ← append_assoc, mem_append, mem_singleton] at hp
    rcases hp with hp | rfl
    · exact h.bounded p hp
    · exact hlen.2.1
  · rw [htaken, hpart]
    rfl
  · rw [hrest, append_nil] at hmoved
    rw [hissued, stream_concat, hmoved]
    rfl
  · intro p hp
    rw [hissued, mem_append, mem_singleton] at hp
    rcases hp with hp | rfl
    · exact hs.issued p hp
    · exact ⟨m, c.decode_encode m hlen.1 hlen.2.1, hm hs⟩
  · cases hq.symm.trans e

theorem Ok.queue_of_idle (hop : ch.operation = none) : ch.queued_send = none := by
  cases hq : ch.queued_send with
  | none => rfl
  | some q => exact absurd (h.queue q hq).1 (h.idle hop).1

/-- `send` begins a frame, or queues the message behind a read that it aborts. -/
theorem send_step (hm : P m) (ha : Settled mode) (e : ch.send c m mode starts = some ch') :
    Step c P ch ch' wire wire := by
  cases hop : ch.operation with
  | none =>
    have hpart := part_eq_nil (h.idle hop)
    have hrest : ch.rest = [] := by rw [rest, hop]
    exact begin_step h hpart hrest hop (h.queue_of_idle hop) rfl rfl (fun _ => hm) ha e
  | some op =>
    unfold send at e
    rw [hop] at e
    dsimp only at e
    split at e
    · cases e
    rename_i hguard
    simp only [not_or, not_not] at hguard
    injection e with e
    subst e
    have hrest : ch.rest = rest { ch with operation := some op, queued_send := some (m, mode) } := by
      rw [rest, hop, rest]
    refine ⟨⟨nofun, fun k hk => h.writing k (hop.trans hk), fun n hn => h.reading n (hop.trans hn), h.after, ?_,
      h.bounded⟩, rfl, fun _ hw => hrest ▸ hw, fun hs => ⟨hs.issued, ?_⟩⟩
    · intro q hq
      cases hq
      exact ⟨hguard.1, hguard.2.1, ha⟩
    · intro q hq
      cases hq
      exact hm

/-- `receive`, of an end without an operation. -/
theorem receive_step (hop : ch.operation = none) (e : ch.receive starts = some ch') :
    Step c P ch ch' wire wire := by
  unfold receive at e
  split at e
  case isFalse => cases e
  injection e with e
  subst e
  refine ⟨⟨nofun, nofun, ?_, h.after, ?_, h.bounded⟩, ?_, fun moved hmoved => ?_, fun hs => ⟨hs.issued, hs.queued⟩⟩
  · intro n hn
    cases hn
    exact ⟨.inl ⟨rfl, rfl⟩, rfl⟩
  · intro q hq
    exact absurd (h.queue q hq).1 (h.idle hop).1
  · rw [part_eq_nil (h.idle hop)]
    rfl
  · have hrest : ch.rest = [] := by rw [rest, hop]
    rwa [hrest] at hmoved

omit h in
/-- What an end that began another operation left is the end with that operation. -/
theorem again_eq {op : Op} (e : again ch op starts = (ch', r)) (hr : r ≠ .raised) :
    ch' = { ch with operation := some op } := by
  unfold again at e
  split at e
  · exact (Prod.mk.inj e).1.symm
  · exact absurd (Prod.mk.inj e).2.symm hr

/-- An end that was reading and reads on. -/
theorem reading_step {size n : ℕ} (hop : ch.operation = some (.read size)) (hq : ch'.queued_send = none)
    (hop' : ch'.operation = some (.read n)) (hafter : ch'.after = ch.after) (htaken : ch'.taken = ch.taken)
    (hissued : ch'.issued = ch.issued)
    (hmode : ch'.mode = .header ∧ ch'.needed = 4 ∨ ch'.mode = .body ∧ ch'.needed ≤ 65536)
    (hn : ch'.data.length + n = ch'.needed) (hpart : ch'.part ++ wire' = ch.part ++ wire) :
    Step c P ch ch' wire wire' := by
  have hrest : ch'.rest = ch.rest := by rw [rest, rest, hop, hop']
  refine ⟨⟨?_, ?_, ?_, ?_, ?_, ?_⟩, ?_, fun moved hmoved => ?_, fun hs => ⟨?_, ?_⟩⟩
  · intro e
    cases hop'.symm.trans e
  · intro k e
    cases hop'.symm.trans e
  · intro k e
    cases hop'.symm.trans e
    exact ⟨hmode, hn⟩
  · rw [hafter]
    exact h.after
  · intro q e
    cases hq.symm.trans e
  · rw [htaken, hissued]
    exact h.bounded
  · rw [htaken, append_assoc, hpart, append_assoc]
  · rw [hrest, hissued, hmoved]
  · rw [hissued]
    exact hs.issued
  · intro q e
    cases hq.symm.trans e

/-- The bytes `v` of a read of at most `size`. -/
theorem completed_read {size : ℕ} {v : List UInt8} (hop : ch.operation = some (.read size))
    (hq : ch.queued_send = none) (hv : v.length ≤ size)
    (e : completed c { ch with operation := none } v starts = (ch', r)) (hr : r ≠ .raised) :
    Step c P ch ch' (v ++ wire) wire := by
  obtain ⟨hmode, hsize⟩ := h.reading size hop
  have hlen : (ch.data ++ v).length = ch.data.length + v.length := length_append
  unfold completed at e
  rcases hmode with ⟨hmode, hneeded⟩ | ⟨hmode, hneeded⟩
  · -- the header: the four bytes of a length
    have hpart : ch.part = ch.data := by rw [part, hmode]
    simp only [hmode] at e
    split_ifs at e with hnil hmore hsized
    · exact absurd (Prod.mk.inj e).2.symm hr
    · have hch := again_eq e hr
      subst hch
      have hn : (ch.data ++ v).length + (ch.needed - (ch.data ++ v).length) = ch.needed := by omega
      refine reading_step h hop hq rfl rfl rfl rfl (.inl ⟨rfl, hneeded⟩) hn ?_
      rw [hpart, part]
      simp only [append_assoc]
    · have hch := again_eq e hr
      subst hch
      refine reading_step h hop hq rfl rfl rfl rfl (.inr ⟨rfl, hsized.2⟩) (Nat.zero_add _) ?_
      have hfour : (ch.data ++ v).length = 4 := by omega
      rw [hpart, part]
      simp only [append_nil, le32_unle32 hfour, append_assoc]
    · exact absurd (Prod.mk.inj e).2.symm hr
  · -- the body: its last bytes make up a payload
    have hpart : ch.part = le32 ch.needed ++ ch.data := by rw [part, hmode]
    simp only [hmode] at e
    split_ifs at e with hnil hmore
    · exact absurd (Prod.mk.inj e).2.symm hr
    · have hch := again_eq e hr
      subst hch
      have hn : (ch.data ++ v).length + (ch.needed - (ch.data ++ v).length) = ch.needed := by omega
      refine reading_step h hop hq rfl rfl rfl rfl (.inr ⟨rfl, hneeded⟩) hn ?_
      rw [hpart, part]
      simp only [append_assoc]
    · have hfull : (ch.data ++ v).length = ch.needed := by omega
      split at e
      · exact absurd (Prod.mk.inj e).2.symm hr
      have hch := (Prod.mk.inj e).1
      subst hch
      have hrest : ch.rest = [] := by rw [rest, hop]
      refine ⟨⟨fun _ => ⟨nofun, nofun⟩, nofun, nofun, h.after, ?_, ?_⟩, ?_, fun moved hmoved => ?_,
        fun hs => ⟨hs.issued, ?_⟩⟩
      · intro q e
        cases hq.symm.trans e
      · intro p hp
        rw [append_assoc, mem_append, mem_append, mem_singleton] at hp
        rcases hp with hp | rfl | hp
        · exact h.bounded p (mem_append_left _ hp)
        · omega
        · exact h.bounded p (mem_append_right _ hp)
      · have hframe : frame (ch.data ++ v) = ch.part ++ v := by
          rw [frame, hfull, hpart, append_assoc]
        rw [stream_concat, hframe]
        show stream ch.taken ++ (ch.part ++ v) ++ [] ++ wire = _
        simp only [append_assoc, nil_append]
      · rwa [hrest] at hmoved
      · intro q e
        cases hq.symm.trans e

/-- The bytes of a write that the system took. -/
theorem completed_write {k : ℕ} (hop : ch.operation = some (.write k)) (hq : ch.queued_send = none)
    (e : completed c { ch with operation := none } (ch.data.take k) starts = (ch', r)) (hr : r ≠ .raised) :
    Step c P ch ch' wire wire := by
  obtain ⟨hmode, hk⟩ := h.writing k hop
  have hlen : (ch.data.take k).length = k := by rw [length_take]; omega
  have hrest : ch.rest = ch.data.drop k := by rw [rest, hop]
  have hpart : ch.part = [] := by rw [part, hmode]
  have hqueue : ∀ {A : Prop} (q), ch.queued_send = some q → A := fun q e => by cases hq.symm.trans e
  unfold completed at e
  simp only [hmode, hlen] at e
  split_ifs at e with hnil hmore
  · exact absurd (Prod.mk.inj e).2.symm hr
  · have hch := again_eq e hr
    subst hch
    refine ⟨⟨nofun, ?_, nofun, h.after, fun q => hqueue q, h.bounded⟩, ?_, fun moved hmoved => ?_,
      fun hs => ⟨hs.issued, fun q => hqueue q⟩⟩
    · intro j hj
      cases hj
      exact ⟨rfl, Nat.zero_le _⟩
    · rw [hpart, part]
    · rw [← hmoved, hrest]
      rfl
  · have hch := (Prod.mk.inj e).1
    subst hch
    refine ⟨⟨fun _ => h.after, nofun, nofun, h.after, fun q => hqueue q, h.bounded⟩, ?_, fun moved hmoved => ?_,
      fun hs => ⟨hs.issued, fun q => hqueue q⟩⟩
    · rw [hpart, part_eq_nil (by exact h.after)]
    · have hdone : ch.data.drop k = [] := by
        by_contra hne
        exact hmore hne
      rw [← hmoved, hrest, hdone]
      rfl

/-- The end of an operation that has moved no bytes. -/
theorem completed_connect (hop : ch.operation = some .connect) (hq : ch.queued_send = none)
    (e : completed c { ch with operation := none } [] starts = (ch', r)) (hr : r ≠ .raised) :
    Step c P ch ch' wire wire := by
  have hrest : ch.rest = [] := by rw [rest, hop]
  have hqueue : ∀ {A : Prop} (q), ch.queued_send = some q → A := fun q e => by cases hq.symm.trans e
  unfold completed at e
  split at e
  case h_1 hmode =>
    have hch := (Prod.mk.inj e).1
    subst hch
    have hset : Settled ch.mode := by
      have hmode : ch.mode = .connect := hmode
      rw [hmode]
      exact ⟨nofun, nofun⟩
    refine ⟨⟨fun _ => hset, nofun, nofun, h.after, fun q => hqueue q, h.bounded⟩, rfl, fun moved hmoved => ?_,
      fun hs => ⟨hs.issued, fun q => hqueue q⟩⟩
    rwa [hrest] at hmoved
  all_goals
    rw [if_pos rfl] at e
    exact absurd (Prod.mk.inj e).2.symm hr

/-- `advance` on what the system says. -/
theorem advance_step (e : advance c ch (complete ch wire joined report).1 starts = (ch', r)) (hr : r ≠ .raised) :
    Step c P ch ch' wire (complete ch wire joined report).2 := by
  have hsame : ∀ {w}, (ch, Result.nothing) = (ch', r) → Step c P ch ch' w w := by
    intro w e
    rw [← (Prod.mk.inj e).1]
    exact .refl h
  cases hop : ch.operation with
  | none =>
    have hwire : (complete ch wire joined report).2 = wire := by
      cases report <;> simp only [complete, hop]
    rw [hwire]
    simp only [advance, hop, Option.isNone_none, if_true] at e
    exact hsame e
  | some op =>
    simp only [advance, hop, Option.isNone_some, Bool.false_eq_true, if_false] at e
    cases report with
    | pending => exact hsame e
    | error =>
      -- the read behind which a message was queued was aborted
      cases hq : ch.queued_send with
      | none =>
        simp only [complete, hq] at e
        exact absurd (Prod.mk.inj e).2.symm hr
      | some q =>
        simp only [complete, hq] at e
        split_ifs at e with herrno
        · exact absurd (Prod.mk.inj e).2.symm hr
        split at e
        · exact absurd (Prod.mk.inj e).2.symm hr
        rename_i hsend
        rw [← (Prod.mk.inj e).1]
        obtain ⟨hmode, hdata, ha⟩ := h.queue q hq
        have hpart : ch.part = [] := by rw [part, hmode]; exact hdata
        have hrest : ch.rest = [] := by
          unfold rest
          split
          · have hwrite := (h.writing _ (by assumption)).1
            cases hmode.symm.trans hwrite
          · rfl
        refine begin_step h hpart hrest ?_ ?_ ?_ ?_ (fun hs => hs.queued q hq) ha hsend <;> rfl
    | done count =>
      cases hq : ch.queued_send with
      | some =>
        -- what a read gives before it is aborted is premature
        cases op with
        | connect =>
          cases joined with
          | false =>
            simp only [complete, hop, hq, Bool.false_eq_true, if_false] at e ⊢
            exact hsame e
          | true =>
            simp only [complete, hop, hq, if_true] at e
            exact absurd (Prod.mk.inj e).2.symm hr
        | write =>
          simp only [complete, hop, hq] at e
          exact absurd (Prod.mk.inj e).2.symm hr
        | read =>
          simp only [complete, hop, hq] at e
          exact absurd (Prod.mk.inj e).2.symm hr
      | none =>
        cases op with
        | connect =>
          cases joined with
          | false =>
            simp only [complete, hop, hq, Bool.false_eq_true, if_false] at e ⊢
            exact hsame e
          | true =>
            simp only [complete, hop, hq, if_true] at e ⊢
            exact completed_connect h hop hq (by rw [hq]; exact e) hr
        | write =>
          simp only [complete, hop, hq] at e ⊢
          exact completed_write h hop hq (by rw [hq]; exact e) hr
        | read size =>
          simp only [complete, hop, hq] at e ⊢
          have hv : (wire.take (min count size)).length ≤ size := by rw [length_take]; omega
          have hwire := take_append_drop (min count size) wire
          have hstep : Step c P ch ch' (wire.take (min count size) ++ wire.drop (min count size))
              (wire.drop (min count size)) := completed_read h hop hq hv (by rw [hq]; exact e) hr
          rwa [hwire] at hstep

/-- `advance` on a wire. -/
theorem poll_step (e : poll c ch wire joined report starts = (ch', wire', r)) :
    Step c P ch ch' wire wire' := by
  unfold poll at e
  split at e
  · cases e
    exact .refl h
  · rename_i hraised hadv
    cases e
    exact advance_step h hadv hraised

end

/-- What an operation with a result leaves: no operation, and a message is the last payload that this end
has read. -/
def Ended (c : Codec) (ch : Channel) (r : Result) : Prop :=
  r = .raised ∨ r = .nothing ∨
    ch.operation = none ∧ ∀ m, r = .message m → ch.mode = .received ∧ ∃ p ∈ ch.taken, c.decode p = some m

theorem again_ended {op : Op} (e : again ch op starts = (ch', r)) : Ended c ch' r := by
  unfold again at e
  split at e
  · exact .inr (.inl (Prod.mk.inj e).2.symm)
  · exact .inl (Prod.mk.inj e).2.symm

theorem completed_ended {v : List UInt8}
    (e : completed c { ch with operation := none } v starts = (ch', r)) : Ended c ch' r := by
  have hsimple : ∀ {ch₀ : Channel} {r₀}, (ch₀, r₀) = (ch', r) → ch₀.operation = none →
      (∀ m, r₀ ≠ .message m) → Ended c ch' r := by
    intro ch₀ r₀ e h hr
    cases e
    exact .inr (.inr ⟨h, fun m e => absurd e (hr m)⟩)
  have hraised : ∀ {ch₀ : Channel}, (ch₀, Result.raised) = (ch', r) → Ended c ch' r := by
    intro ch₀ e
    exact .inl (Prod.mk.inj e).2.symm
  unfold completed at e
  split at e
  · exact hsimple e rfl (fun m h => by cases h)
  · split_ifs at e
    · exact hraised e
    · exact again_ended e
    · exact hsimple e rfl (fun m h => by cases h)
  · split_ifs at e
    · exact hraised e
    · exact again_ended e
    · exact again_ended e
    · exact hraised e
  · split_ifs at e
    · exact hraised e
    · exact again_ended e
    split at e
    · exact hraised e
    · rename_i m hm
      cases e
      refine .inr (.inr ⟨rfl, fun m' e => ?_⟩)
      cases e
      exact ⟨rfl, _, mem_append_right _ (mem_singleton_self _), hm⟩

/-- What a poll leaves. -/
theorem poll_ended (e : poll c ch wire joined report starts = (ch', wire', r)) :
    Ended c ch' r := by
  unfold poll at e
  split at e
  · cases e
    exact .inl rfl
  rename_i hadv
  cases e
  unfold advance at hadv
  split at hadv
  · cases hadv
    exact .inr (.inl rfl)
  split at hadv
  · cases hadv
    exact .inr (.inl rfl)
  · cases hadv
    exact .inl rfl
  · exact completed_ended hadv
  · split at hadv
    · cases hadv
      exact .inl rfl
    split at hadv
    · cases hadv
      exact .inl rfl
    · cases hadv
      exact .inr (.inl rfl)
  · cases hadv
    exact .inl rfl
/-- An end without an operation. -/
theorem poll_none (hop : ch.operation = none) :
    poll c ch wire joined report starts = (ch, wire, .nothing) := by
  cases report <;> simp [poll, advance, complete, hop]

/-- An end that waits for a client without one. -/
theorem poll_fresh (hop : ch.operation = some .connect) (hq : ch.queued_send = none) :
    ∃ r, poll c ch wire false report starts = (ch, wire, r) ∧ (r = .nothing ∨ r = .raised) := by
  have hsome : ch.operation.isNone = false := by rw [hop]; rfl
  cases report with
  | pending => exact ⟨.nothing, by simp [poll, advance, complete, hsome], .inl rfl⟩
  | error => exact ⟨.raised, by simp [poll, advance, complete, hsome, hq], .inr rfl⟩
  | done => exact ⟨.nothing, by simp [poll, advance, complete, hop, hq], .inl rfl⟩

theorem transfer_ok (h : Ok ch) (count : ℕ) : Ok (transfer ch wire count).1 := by
  unfold transfer
  split
  · rename_i moved hop
    obtain ⟨hmode, hmoved⟩ := h.writing moved hop
    refine ⟨nofun, ?_, nofun, h.after, h.queue, h.bounded⟩
    intro k hk
    cases hk
    exact ⟨hmode, Nat.min_le_left _ _⟩
  · exact h

theorem transfer_same (ch : Channel) (wire : List UInt8) (count : ℕ) :
    (transfer ch wire count).1.issued = ch.issued ∧ (transfer ch wire count).1.taken = ch.taken ∧
      (transfer ch wire count).1.part = ch.part ∧
      (transfer ch wire count).1.queued_send = ch.queued_send ∧
      (transfer ch wire count).1.mode = ch.mode ∧
      ((transfer ch wire count).1.operation = none ↔ ch.operation = none) := by
  unfold transfer
  split
  · rename_i hop
    exact ⟨rfl, rfl, rfl, rfl, rfl, by rw [hop]; exact ⟨nofun, nofun⟩⟩
  · exact ⟨rfl, rfl, rfl, rfl, rfl, Iff.rfl⟩

/-- The bytes that the system takes go from the end to its wire. -/
theorem transfer_rest (count : ℕ) :
    (transfer ch wire count).2 ++ (transfer ch wire count).1.rest = wire ++ ch.rest := by
  unfold transfer
  split
  · rename_i moved hop
    have hdrop : ch.data.drop (min ch.data.length (moved + count)) = (ch.data.drop moved).drop count := by
      rw [drop_drop]
      rcases Nat.le_total ch.data.length (moved + count) with hle | hle
      · rw [Nat.min_eq_left hle, drop_length, drop_eq_nil_of_le hle]
      · rw [Nat.min_eq_right hle]
    show wire ++ (ch.data.drop moved).take count ++ ch.data.drop _ = wire ++ ch.rest
    rw [hdrop, append_assoc, take_append_drop, rest, hop]
  · rfl

end Channel

/-! ## Both ends -/

section Pipe

open Channel

variable {c : Codec} {P Q : Message → Prop} {w w' r r' : Channel} {wire wire' back back' : List UInt8}

/-- What `r` has read of `w`'s frames, what is on the wire between them and what `w` has left to write. -/
def Flow (w r : Channel) (wire : List UInt8) : Prop :=
  stream r.taken ++ r.part ++ wire ++ w.rest = stream w.issued

theorem Flow.write (h : Flow w r wire) (hs : Step c P w w' back back') : Flow w' r wire :=
  hs.writes _ h

theorem Flow.read (h : Flow w r wire) (hs : Step c P r r' wire wire') : Flow w r' wire' := by
  unfold Flow
  rw [hs.reads]
  exact h

theorem Flow.transfer (h : Flow w r wire) (count : ℕ) :
    Flow (w.transfer wire count).1 r (w.transfer wire count).2 := by
  unfold Flow
  rw [append_assoc, transfer_rest, (transfer_same w wire count).1, ← append_assoc]
  exact h

/-- Whatever one end has read, the other has issued. -/
theorem Flow.taken_prefix (h : Flow w r wire) (hw : Ok w) (hr : Ok r) : r.taken <+: w.issued := by
  have hsmall : 65536 < 2 ^ 32 := by omega
  refine prefix_of_stream_prefix ?_ ?_ ⟨r.part ++ wire ++ w.rest, ?_⟩
  · intro p hp
    exact Nat.lt_of_le_of_lt (hr.bounded p (mem_append_left _ hp)) hsmall
  · intro p hp
    exact Nat.lt_of_le_of_lt (hw.bounded p (mem_append_right _ hp)) hsmall
  · rw [← h]
    simp only [append_assoc]

/-- The two ends of a pipe, the messages of one of which have the property `P`, those of the other `Q`. -/
structure Pipe (c : Codec) (P Q : Message → Prop) (a b : Channel) (up down : List UInt8) : Prop where
  left : Ok a
  right : Ok b
  up : Flow a b up
  down : Flow b a down
  leftSays : Says c P a
  rightSays : Says c Q b

variable {a a' b b' : Channel} {up up' down down' : List UInt8}

section

variable (h : Pipe c P Q a b up down)
include h

theorem Pipe.symm : Pipe c Q P b a down up where
  left := h.right
  right := h.left
  up := h.down
  down := h.up
  leftSays := h.rightSays
  rightSays := h.leftSays

theorem Pipe.step (hs : Step c P a a' down down') :
    Pipe c P Q a' b up down' where
  __ := h
  left := hs.ok
  up := h.up.write hs
  down := h.down.read hs
  leftSays := hs.speaks h.leftSays

theorem Pipe.transfer (count : ℕ) :
    Pipe c P Q (a.transfer up count).1 b (a.transfer up count).2 down := by
  obtain ⟨hissued, htaken, hpart, hqueue, -, -⟩ := transfer_same a up count
  refine ⟨transfer_ok h.left count, h.right, h.up.transfer count, ?_, ?_, h.rightSays⟩
  · have hdown := h.down
    unfold Flow at hdown ⊢
    rw [htaken, hpart]
    exact hdown
  · refine ⟨?_, ?_⟩
    · rw [hissued]
      exact h.leftSays.issued
    · rw [hqueue]
      exact h.leftSays.queued

theorem Pipe.mono {P' Q' : Message → Prop} (hP : ∀ m, P m → P' m) (hQ : ∀ m, Q m → Q' m) :
    Pipe c P' Q' a b up down where
  __ := h
  leftSays := h.leftSays.mono hP
  rightSays := h.rightSays.mono hQ

/-- A message that one end reads has the property of the other end's messages. -/
theorem Pipe.received {p : List UInt8} {m : Message} (hp : p ∈ a.taken) (hm : c.decode p = some m) : Q m := by
  have hsent := (h.down.taken_prefix h.right h.left).subset hp
  obtain ⟨m', hm', hQ⟩ := h.rightSays.issued p hsent
  rw [hm] at hm'
  cases hm'
  exact hQ

end

end Pipe

end StrixAlloy.Handoff

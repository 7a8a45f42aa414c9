import StrixAlloy.OutputArbiter.Queue

/-!
# Runs of the arbiter

Every step of the arbiter keeps `Sound`, so every run does. `queue_law` says what follows for the queue, and
`refused_iff` when a refused publication leaves what would be spoken as it was: a publication that the full queue
refuses has already raised the floor of its task, and so silenced what is queued for it with an older version.
-/

namespace StrixAlloy.OutputArbiter

open List

variable {γ : Type}

namespace State

abbrev Inv (s : State γ) : Prop := Sound s.entries s.next s.pending s.active s.active_entry s.worker s.said

variable {s : State γ} {t : Task}

/-! ## The calls -/

section

variable (h : s.Inv)
include h

theorem Inv.modify (i : ℕ) {f : Entry → Entry} (hf : ∀ e, Gentle e (f e)) : (s.modify i f).Inv := by
  refine h.entries_of fun j _ => ?_
  show Gentle _ (if j = i then f (s.entries j) else s.entries j)
  split_ifs
  · exact hf _
  · exact Gentle.refl _

theorem Inv.discard (i : ℕ) : (s.discard i).Inv := by
  refine (h.modify i gentle_complete).remove erase_sublist fun j hj hout => ?_
  have he : j = i := by
    by_contra hne
    exact hout ((List.Nodup.mem_erase_iff h.nodup).2 ⟨hne, hj⟩)
  show (if j = i then (s.entries j).complete else s.entries j).completion ≠ some false
  rw [if_pos he]
  exact complete_ne _

theorem Inv.cancelActive : s.cancelActive.Inv := by
  unfold State.cancelActive
  cases ha : s.active with
  | none => exact h
  | some t => exact h.setPc ha (h.claimed t ha) (h.said_active t ha)

theorem Inv.interrupted (preserve_deferred : Bool) : (s.interrupted preserve_deferred).Inv := by
  have hall := Sound.discard h (fun i => !s.retained preserve_deferred i) gentle_complete complete_ne
  simp only [Bool.not_not] at hall
  unfold State.interrupted State.cancelActive
  cases ha : s.active with
  | none =>
    rw [ha] at hall
    exact hall
  | some t => exact hall.setPc ha (hall.claimed t ha) (hall.said_active t ha)

theorem Inv.clearGroundedPcm (i : ℕ) : (s.clearGroundedPcm i).Inv := by
  unfold State.clearGroundedPcm
  split
  · exact h
  · split <;> exact h

omit h in
theorem gentle_invalid (e : Entry) : Gentle e { e with invalidated := true } := ⟨rfl, rfl, id⟩

theorem Inv.dropGrounded (g : String) : (s.dropGrounded g).Inv := by
  have hall := Sound.discard h (fun i => (s.entries i).grounded_id = some g)
    (f := fun e => ({ e with invalidated := true } : Entry).complete)
    (fun e => ⟨rfl, rfl, fun hc => absurd hc (complete_ne _)⟩) fun e => complete_ne _
  simp only [← decide_not] at hall
  exact hall

theorem Inv.invalidateGrounded (g : String) : (s.invalidateGrounded g).Inv := by
  have hdrop := h.dropGrounded g
  unfold State.invalidateGrounded
  generalize s.dropGrounded g = u at hdrop
  simp only
  cases u.active_entry with
  | none => exact hdrop
  | some i =>
    simp only
    split_ifs
    · exact ((hdrop.modify i gentle_invalid).clearGroundedPcm i).cancelActive
    · exact hdrop

/-- A publication is queued, also in the place of another entry, or refused. -/
theorem Inv.publish (e : Env) (event : Event) (guarded : Bool) (disposition : Disposition) (wait : Bool)
    (grounded_id : Option String) : (s.publish e event guarded disposition wait grounded_id).2.Inv := by
  unfold State.publish
  generalize hm : s.make event guarded disposition wait grounded_id = entry
  have hstarted : entry.started = false := by rw [← hm]; rfl
  -- the entries with the new one, resolved or not
  have hnew : Sound (s.add entry).entries s.next s.pending s.active s.active_entry s.worker s.said := by
    refine h.entries_of fun i hi => ?_
    show Gentle _ (if i = s.next then entry else s.entries i)
    rw [if_neg (Nat.ne_of_lt hi)]
    exact Gentle.refl _
  have hrefused : ((s.add entry).modify s.next Entry.complete).Inv := by
    have hresolved : Sound ((s.add entry).modify s.next Entry.complete).entries s.next s.pending s.active
        s.active_entry s.worker s.said := by
      refine hnew.entries_of fun i hi => ?_
      show Gentle _ (if i = s.next then _ else _)
      rw [if_neg (Nat.ne_of_lt hi)]
      exact Gentle.refl _
    refine hresolved.grow ?_
    · show (if s.next = s.next then ((s.add entry).entries s.next).complete else _).completion ≠ _
      rw [if_pos rfl]
      exact complete_ne _
  have hself : ((s.add entry).entries s.next).started = false := by
    show (if s.next = s.next then entry else _).started = false
    rw [if_pos rfl]
    exact hstarted
  simp only
  split_ifs
  · exact hrefused
  · exact hrefused
  unfold State.room
  split_ifs with hfull
  · simp only
    cases hw : State.worst _ with
    | none =>
      -- a full queue has a worst entry
      have hnil : s.pending = [] := argmax_eq_none.1 hw
      have hlen : s.pending.length ≥ 8 := hfull
      rw [hnil] at hlen
      exact absurd hlen (by decide)
    | some w =>
      have hmem : w ∈ s.pending := argmax_mem hw
      simp only
      split_ifs
      · have hroom : Sound (fun j => if j = w then ((s.add entry).entries j).complete else (s.add entry).entries j)
            s.next (s.pending.erase w) s.active s.active_entry s.worker s.said := by
          refine (hnew.entries_of fun j _ => ?_).remove erase_sublist fun j hj hout => ?_
          · split_ifs
            · exact gentle_complete _
            · exact Gentle.refl _
          · have he : j = w := by
              by_contra hne
              exact hout ((List.Nodup.mem_erase_iff h.nodup).2 ⟨hne, hj⟩)
            rw [if_pos he]
            exact complete_ne _
        refine hroom.enqueue ?_ ?_
        · rw [length_erase_of_mem hmem]
          have hb := h.bound
          have hpos := length_pos_of_mem hmem
          omega
        · rw [if_neg (Nat.ne_of_gt (h.fresh w hmem))]
          exact hself
      · exact hrefused
  · exact hnew.enqueue (Nat.lt_of_not_le hfull) hself

/-! ## The task that speaks -/

theorem Inv.setPc {pc : SpeakPc} (hc : ∀ t ∈ s.active, pc.claimed → (s.entries t.entry).started)
    (hs : ∀ t ∈ s.active, pc.silent → t.entry ∉ s.said) : (s.setPc pc).Inv := by
  unfold State.setPc
  cases ha : s.active with
  | none =>
    have h' := h
    unfold State.Inv at h'
    rw [ha] at h'
    exact h'
  | some t => exact Sound.setPc h ha (hc t ha) (hs t ha)

theorem Inv.finish (o : Outcome) : (s.finish o).Inv := by
  unfold State.finish
  cases ha : s.active with
  | none =>
    have h' := h
    unfold State.Inv at h'
    rw [ha] at h'
    exact h'
  | some => exact Sound.setPc h ha nofun nofun

end

section

variable (h : s.Inv) (ha : s.active = some t)
include h ha

omit h in
theorem inv_of_active {pc : SpeakPc} (h : Sound s.entries s.next s.pending (some ⟨t.entry, pc, false⟩) s.active_entry
    s.worker s.said) : (s.setPc pc).Inv := by
  unfold State.setPc
  rw [ha]
  exact h

omit h in
theorem inv_of_finished {o : Outcome} (h : ∀ o, Sound s.entries s.next s.pending (some ⟨t.entry, .done o, false⟩)
    s.active_entry s.worker s.said) : (s.finish o).Inv := by
  unfold State.finish
  rw [ha]
  exact h _

theorem Inv.claim (hs : t.pc.silent) (es : ℕ → Env) : (s.claim es t.entry).Inv := by
  unfold State.claim
  generalize hu : ({ s.modify t.entry (fun e =>
    { e with started := true, generation := e.generation.or (some s.playback.generation) }) with
    pending := s.pending.erase t.entry } : State γ) = u
  have hua : u.active = some t := by rw [← hu]; exact ha
  have hclaimed : Sound u.entries u.next u.pending (some ⟨t.entry, .transcript, false⟩) u.active_entry u.worker
      u.said := by
    rw [← hu]
    refine Sound.claim h ha hs (fun i _ hne => ?_) ?_ ?_
    · show Gentle _ (if i = t.entry then _ else _)
      rw [if_neg hne]
      exact Gentle.refl _
    · show Entry.event (if t.entry = t.entry then _ else _) = _
      rw [if_pos rfl]
    · show Entry.started (if t.entry = t.entry then _ else _) = true
      rw [if_pos rfl]
  simp only
  split_ifs
  · exact inv_of_active hua hclaimed
  · exact inv_of_finished hua fun o => hclaimed.setPc rfl nofun nofun

theorem Inv.drain (hs : t.pc.silent) (es : ℕ → Env) :
    (s.drain es t.entry).Inv := by
  unfold State.drain
  split_ifs
  · exact h.setPc nofun fun u hu => by
      rw [ha] at hu
      cases hu
      exact fun _ => h.said_active t ha hs
  · exact h.finish _
  · exact Inv.claim (s := { s with grounded_owner := (s.entries t.entry).grounded_id.map fun g =>
      (g, (s.entries t.entry).generation) }) h ha hs _

theorem Inv.begin (hs : t.pc.silent) (es : ℕ → Env) : (s.begin es t.entry).Inv := by
  unfold State.begin
  split_ifs
  · exact Inv.finish (h.discard t.entry) _
  · exact h.finish _
  · exact h.drain ha hs _
  · exact h.claim ha hs _
  · exact h.finish _

theorem Inv.drained (hs : t.pc.silent) (es : ℕ → Env) : (s.drained es t.entry).Inv := by
  unfold State.drained
  split_ifs
  · exact h.finish _
  · exact h.drain ha hs _

end

section

variable (h : s.Inv) (hst : ∀ t ∈ s.active, (s.entries t.entry).started)
include h hst

theorem Inv.goOn {pc : SpeakPc} (hpc : pc.silent = false) : (s.setPc pc).Inv :=
  h.setPc (fun t ht _ => hst t ht) fun t _ hs => by rw [hpc] at hs; cases hs

theorem Inv.deliver (es : ℕ → Env) (pcm : List UInt8) (i : ℕ) : (s.deliver es pcm i).Inv := by
  unfold State.deliver
  split_ifs
  · exact h.goOn hst rfl
  · split
    · split_ifs
      · exact h.goOn hst rfl
      · exact h.goOn hst rfl
    · exact h.goOn hst rfl

theorem Inv.settle (es : ℕ → Env) (i : ℕ) : (s.settle es i).Inv := by
  unfold State.settle
  split
  · exact h.finish _
  · split_ifs
    · exact h.goOn hst rfl
    · exact (h.invalidateGrounded _).finish _
    · exact h.finish _

end

section

variable (h : s.Inv)
include h

/-- A step of the task that speaks. -/
theorem Inv.speak (es : ℕ → Env) (a : Answer) : (s.speak es a).Inv := by
  unfold State.speak
  cases ha : s.active with
  | none => exact h
  | some t =>
    obtain ⟨i, pc, c⟩ := t
    have hdone : ∀ o, (s.setPc (.done o)).Inv := fun o => h.setPc nofun nofun
    have hst : pc.claimed → ∀ u ∈ s.active, (s.entries u.entry).started := by
      intro hc u hu
      rw [ha] at hu
      cases hu
      exact h.claimed _ ha hc
    cases pc with
    | begin =>
      simp only
      split_ifs
      · exact hdone _
      · exact h.begin ha rfl _
    | draining =>
      simp only
      split_ifs
      · exact hdone _
      · exact h.drained ha rfl _
    | transcript =>
      have hsay : ({ s.setPc .synthesis with said := s.said ++ [i] } : State γ).Inv := by
        have hsaid := Sound.say h ha rfl rfl
        unfold State.setPc
        rw [ha]
        exact hsaid
      have hquiet : (({ s with suppressed_count := s.suppressed_count + 1 } : State γ).setPc (.done .returned)).Inv :=
        Inv.setPc h nofun nofun
      cases a with
      | cancelled => exact hdone _
      | raised => exact hdone _
      | returned =>
        simp only
        split_ifs
        · exact hsay
        · rw [← ha]
          exact hquiet
      | chunk =>
        simp only
        split_ifs
        · exact hsay
        · rw [← ha]
          exact hquiet
    | synthesis =>
      cases a with
      | cancelled => exact hdone _
      | raised => exact hdone _
      | returned => exact h.goOn (hst rfl) rfl
      | chunk pcm =>
        simp only
        rw [← ha]
        split_ifs
        · exact Inv.deliver (s := { s with generated_bytes := s.generated_bytes + pcm.length }) h (hst rfl) _ _ _
        · exact Inv.goOn h (hst rfl) rfl
    | full =>
      simp only
      split_ifs
      · exact hdone _
      · exact h.deliver (hst rfl) _ _ _
    | closing =>
      have hsettle : ((s.setPc .closing).settle es i).Inv := by
        refine Inv.settle (h.goOn (hst rfl) rfl) (fun u hu => ?_) _ _
        obtain ⟨v, hv, rfl⟩ := Option.map_eq_some_iff.1 hu
        exact hst rfl v hv
      cases a with
      | cancelled => exact hdone _
      | raised => exact hdone _
      | returned => exact hsettle
      | chunk => exact hsettle
    | last =>
      simp only
      split_ifs
      · exact hdone _
      · exact h.settle (hst rfl) _ _
    | done => exact h

/-! ## The worker -/

theorem Inv.prune (es : ℕ → Env) (is : List ℕ) :
    (s.prune es is).Inv ∧ (s.prune es is).active_entry = s.active_entry := by
  induction is generalizing s es with
  | nil => exact ⟨h, rfl⟩
  | cons i is ih =>
    unfold State.prune
    split_ifs
    · exact ih h _
    · exact ih (s := { s.discard i with suppressed_count := s.suppressed_count + 1 }) (h.discard i) _

theorem Inv.pause (hactive : s.active_entry = none) : s.pause.Inv := by
  refine Sound.rest h hactive ?_
  show WorkerPc.busy (if s.closed then .ended else .waiting) = false
  split_ifs <;> rfl

theorem Inv.rest (hactive : s.active_entry = none) (e : Env) : (s.rest e).Inv := by
  unfold State.rest
  split_ifs
  · exact Sound.rest h hactive rfl
  · exact h.pause hactive

theorem Inv.loop (hactive : s.active_entry = none) (es : ℕ → Env) : (s.loop es).Inv := by
  unfold State.loop
  split_ifs
  · exact h.rest hactive _
  · obtain ⟨hprune, hnone⟩ := h.prune es s.pending
    simp only
    split
    · exact hprune.rest (hnone.trans hactive) _
    · rename_i i hi
      exact Sound.activate hprune (hnone.trans hactive) (mem_of_find?_eq_some hi)

theorem Inv.finally_ {i : ℕ} (hi : s.active_entry = some i) {pc : WorkerPc} (hpc : pc.busy = false) :
    (s.finally_ i pc).Inv := by
  have hclear := h.clearGroundedPcm i
  have hentry : (s.clearGroundedPcm i).active_entry = some i := by
    unfold State.clearGroundedPcm
    split
    · exact hi
    · split <;> exact hi
  unfold State.finally_
  generalize s.clearGroundedPcm i = u at hclear hentry
  simp only
  split_ifs with hgone
  · refine Sound.release (hclear.modify i gentle_complete) hentry (fun _ => ?_) hpc
    show (if i = i then (u.entries i).complete else _).completion ≠ _
    rw [if_pos rfl]
    exact complete_ne _
  · exact Sound.release hclear hentry (fun hout => absurd (.inr hout) hgone) hpc

theorem Inv.joined {i : ℕ} (hi : s.active_entry = some i) (hbusy : s.worker.busy) (es : ℕ → Env) (o : Outcome) :
    (s.joined es i o).Inv := by
  unfold State.joined
  cases o with
  | returned => exact h.finally_ hi rfl
  | cancelled =>
    refine h.finally_ hi ?_
    split_ifs <;> rfl
  | raised =>
    simp only
    split_ifs
    · refine { h with busy := ?_ }
      rw [← h.busy, hbusy]
      rfl
    · exact h.finally_ hi rfl

/-- A step of the worker. -/
theorem Inv.work (es : ℕ → Env) (a : Answer) : (s.work es a).Inv := by
  have hnone : s.worker.busy = false → s.active_entry = none := by
    intro hb
    rw [h.busy] at hb
    exact Option.not_isSome_iff_eq_none.1 (Bool.eq_false_iff.1 hb)
  unfold State.work
  cases hw : s.worker with
  | waiting =>
    have hactive := hnone (by rw [hw]; rfl)
    simp only
    split_ifs
    · exact Sound.rest h hactive rfl
    · exact Sound.rest h hactive rfl
    · exact h
  | looping => exact h.loop (hnone (by rw [hw]; rfl)) es
  | speaking =>
    simp only
    split
    · rename_i i o c ha
      exact h.joined (h.entry_eq ha) (by rw [hw]; rfl) es _
    · exact h
  | errorTranscript =>
    simp only
    split
    · rename_i i hi
      refine h.finally_ hi ?_
      split_ifs <;> rfl
    · exact h
  | overflowTranscript =>
    have hactive := hnone (by rw [hw]; rfl)
    simp only
    split_ifs
    · exact Sound.rest h hactive rfl
    · exact h.pause hactive
  | ended => exact h

end

end State

/-- Every step keeps the invariant. -/
theorem inv_step {s : State γ} (h : s.Inv) (op : Op γ) : (step s op).Inv := by
  cases op with
  | publish e event guarded disposition wait grounded_id =>
    show State.Inv (if _ then _ else s)
    split_ifs
    · exact h.publish e event guarded disposition wait grounded_id
    · exact h
  | interrupt => exact h.interrupted false
  | interruptForInput => exact h.interrupted true
  | invalidateGrounded g => exact h.invalidateGrounded g
  | notifyInputChanged => exact h
  | close =>
    show s.close.Inv
    unfold State.close
    split_ifs
    · exact h
    · exact State.Inv.interrupted (s := { s with closed := true }) h false
  | closed =>
    show State.Inv (if _ then _ else s)
    split_ifs <;> exact h
  | work es a => exact h.work es a
  | speak es a => exact h.speak es a
  | playback => exact h

theorem inv_init (playback : Playback.State γ) : (init playback).Inv :=
  ⟨Nat.zero_le _, List.Pairwise.nil, nofun, nofun, nofun, rfl, nofun, rfl, nofun, nodup_nil, nofun, nofun⟩

theorem inv_run (playback : Playback.State γ) (ops : List (Op γ)) : (Runs.run step (init playback) ops).Inv :=
  Runs.run_invariant (P := State.Inv) (fun _ op h => inv_step h op) ops (inv_init playback)

/-- After every run the queue has at most eight entries, by priority and then by arrival; the future of an entry that
is neither queued nor active is resolved; no entry was handed to the synthesis twice; and an interruption for input
keeps the deferred entries that were not started, in their order. -/
theorem queue_law (playback : Playback.State γ) (ops : List (Op γ)) :
    let s := Runs.run step (init playback) ops
    s.pending.length ≤ 8 ∧ s.pending.Pairwise (Before s.entries) ∧
      (∀ i < s.next, i ∉ s.pending → s.active_entry ≠ some i → (s.entries i).completion ≠ some false) ∧
      s.said.Nodup ∧ (∀ i ∈ s.said, i < s.next ∧ i ∉ s.pending) ∧
      (step s .interruptForInput).pending =
        s.pending.filter fun i => (s.entries i).disposition = .deferred && !(s.entries i).started := by
  intro s
  have h : s.Inv := inv_run playback ops
  refine ⟨h.bound, h.ordered, h.resolved, h.once, fun i hi => ⟨(h.said_started i hi).1, fun hin => ?_⟩, ?_⟩
  · have hs := (h.said_started i hi).2
    rw [h.waiting i hin] at hs
    cases hs
  · show s.pending.filter (fun i => s.retained true i) = _
    unfold State.retained
    simp only [Bool.true_and]

/-! ## Refused publications -/

namespace State

variable {s : State γ}

/-- The queued entries that would be spoken, in their order, when the callbacks answer `e`. -/
def speakable (s : State γ) (e : Env) : List ℕ := s.pending.filter (s.eligible e)

/-- The full queue refuses an event that raised the floor of its task above a queued entry. -/
def Silences (s : State γ) (e : Env) (event : Event) (guarded : Bool) (e' : Env) : Prop :=
  s.closed = false ∧ e.is_live ∧ (guarded → e.valid s.next) ∧ event.task_id ≠ "" ∧
    s.versions event.task_id ≤ event.context_version ∧ 8 ≤ s.pending.length ∧
    (∀ i ∈ s.pending, s.priority i ≤ event.priority) ∧
    ∃ i ∈ s.pending, s.eligible e' i ∧ (s.entries i).event.task_id = event.task_id ∧
      (s.entries i).event.context_version < event.context_version

/-- The full queue refuses what is not before any of its entries, and only the new entry is changed then. -/
theorem room_cases (s : State γ) (i : ℕ) :
    (s.room i).1 ∧ ¬ (8 ≤ s.pending.length ∧ ∀ j ∈ s.pending, s.priority j ≤ s.priority i) ∨
      (8 ≤ s.pending.length ∧ ∀ j ∈ s.pending, s.priority j ≤ s.priority i) ∧
        s.room i = (false, { ({ s with
          suppressed_count := s.suppressed_count + 1,
          overflow_reported := true } : State γ).modify i Entry.complete with
            wake := true }) := by
  unfold State.room
  by_cases hfull : s.pending.length ≥ 8
  · rw [if_pos hfull]
    simp only
    cases hw : State.worst _ with
    | none =>
      have hnil : s.pending = [] := argmax_eq_none.1 hw
      rw [hnil] at hfull
      exact absurd hfull (by decide)
    | some w =>
      have hmem : w ∈ s.pending := argmax_mem hw
      have hmax : ∀ j ∈ s.pending, s.priority j ≤ s.priority w := fun j hj => le_of_mem_argmax hj hw
      simp only
      split_ifs with hlt
      · exact .inl ⟨rfl, fun hle => absurd hlt (Int.not_lt.2 (hle.2 w hmem))⟩
      · exact .inr ⟨⟨hfull, fun j hj => Int.le_trans (hmax j hj) (Int.not_lt.1 hlt)⟩, rfl⟩
  · rw [if_neg hfull]
    exact .inl ⟨rfl, fun h => hfull h.1⟩

/-- What the eligibility of an entry depends on. -/
theorem eligible_congr {u : State γ} (e : Env) {i : ℕ} (hentry : u.entries i = s.entries i)
    (hclosed : u.closed = s.closed) (hplayback : u.playback = s.playback)
    (hversions : u.versions (s.entries i).event.task_id = s.versions (s.entries i).event.task_id) :
    u.eligible e i = s.eligible e i := by
  unfold State.eligible State.valid
  rw [hentry, hclosed, hplayback, hversions]

end State

/-- A refused publication leaves what would be spoken as it was, unless the full queue refused it after it raised the
floor of its task. -/
theorem refused_iff (playback : Playback.State γ) (ops : List (Op γ)) (e : Env) (event : Event) (guarded : Bool)
    (disposition : Disposition) (wait : Bool) (grounded_id : Option String) (e' : Env) :
    let s := Runs.run step (init playback) ops
    let r := s.publish e event guarded disposition wait grounded_id
    (r.1 = false → r.2.speakable e' = s.speakable e') ↔ ¬ s.Silences e event guarded e' := by
  intro s r
  have h : s.Inv := inv_run playback ops
  have hold : ∀ (entry : Entry) (i), i ∈ s.pending → (s.add entry).entries i = s.entries i := fun entry i hi =>
    if_neg (Nat.ne_of_lt (h.fresh i hi))
  have hmodify : ∀ (u : State γ) (i), i ∈ s.pending → (u.modify s.next Entry.complete).entries i = u.entries i :=
    fun u i hi => if_neg (Nat.ne_of_lt (h.fresh i hi))
  have hr : r = s.publish e event guarded disposition wait grounded_id := rfl
  unfold State.publish at hr
  generalize hm : s.make event guarded disposition wait grounded_id = entry at hr
  have hentry : (s.add entry).entries s.next = entry := if_pos rfl
  have hevent : entry.event = event := by rw [← hm]; rfl
  have hvalid : (s.add entry).valid e s.next = (!guarded || e.valid s.next) := by
    unfold State.valid
    rw [hentry, ← hm]
    rfl
  simp only [hvalid] at hr
  by_cases hearly : (s.add entry).closed || !e.is_live || !(!guarded || e.valid s.next)
  · -- refused before anything is noted
    rw [if_pos hearly] at hr
    refine ⟨fun _ hs => ?_, fun _ _ => ?_⟩
    · obtain ⟨hclosed, hlive, hv, -⟩ := hs
      have hclosed' : (s.add entry).closed = false := hclosed
      rw [hclosed', hlive] at hearly
      cases guarded with
      | false => cases hearly
      | true =>
        rw [hv rfl] at hearly
        cases hearly
    · rw [hr]
      refine filter_congr fun i hi => State.eligible_congr e' ?_ rfl rfl rfl
      exact (hmodify _ i hi).trans (hold entry i hi)
  rw [if_neg hearly] at hr
  by_cases hstale : event.task_id ≠ "" ∧ event.context_version < (s.add entry).versions event.task_id
  · rw [if_pos hstale] at hr
    refine ⟨fun _ hs => absurd hstale.2 (Nat.not_lt_of_le hs.2.2.2.2.1), fun _ _ => ?_⟩
    rw [hr]
    refine filter_congr fun i hi => State.eligible_congr e' ?_ rfl rfl rfl
    exact (hmodify _ i hi).trans (hold entry i hi)
  rw [if_neg hstale] at hr
  have hpriority : ∀ i ∈ s.pending, ((s.add entry).noted event).priority i = s.priority i := fun i hi =>
    congrArg (fun x => x.event.priority) (hold entry i hi)
  have hnew : ((s.add entry).noted event).priority s.next = event.priority := by
    refine (congrArg (fun x => x.event.priority) hentry).trans ?_
    rw [hevent]
  obtain ⟨htrue, hno⟩ | ⟨hfull, hroom⟩ := State.room_cases ((s.add entry).noted event) s.next
  · -- not refused
    have hr1 : r.1 := (congrArg Prod.fst hr).trans htrue
    refine ⟨fun _ hs => hno ⟨hs.2.2.2.2.2.1, fun i hi => ?_⟩, fun _ hf => ?_⟩
    · rw [hpriority i hi, hnew]
      exact hs.2.2.2.2.2.2.1 i hi
    · rw [hr1] at hf
      cases hf
  · -- refused by the full queue, when the floor is raised already
    rw [hroom] at hr
    have hfloor : event.task_id ≠ "" → s.versions event.task_id ≤ event.context_version := fun hne =>
      Nat.le_of_not_lt fun hlt => hstale ⟨hne, hlt⟩
    have helig : ∀ i ∈ s.pending, r.2.eligible e' i ↔ s.eligible e' i ∧
        ¬ ((s.entries i).event.task_id = event.task_id ∧ event.task_id ≠ "" ∧
          (s.entries i).event.context_version < event.context_version) := by
      intro i hi
      have hsame : r.2.entries i = s.entries i := by
        rw [hr]
        exact (hmodify _ i hi).trans (hold entry i hi)
      have hversions : r.2.versions (s.entries i).event.task_id =
          if (s.entries i).event.task_id = event.task_id ∧ event.task_id ≠ "" then event.context_version
          else s.versions (s.entries i).event.task_id := by
        rw [hr]
        rfl
      have hclosed : r.2.closed = s.closed := by
        rw [hr]
        rfl
      have hplayback : r.2.playback = s.playback := by
        rw [hr]
        rfl
      by_cases htask : (s.entries i).event.task_id = event.task_id ∧ event.task_id ≠ ""
      · rw [if_pos htask] at hversions
        have hle := hfloor htask.2
        unfold State.eligible State.valid
        rw [hsame, hversions, hclosed, hplayback, htask.1]
        simp only [Bool.and_eq_true, decide_eq_true_eq, htask.2, ne_eq, not_false_eq_true, true_and, Nat.not_lt]
        exact ⟨fun hh => ⟨⟨hh.1, Nat.le_trans hle hh.2⟩, hh.2⟩, fun hh => ⟨hh.1.1, hh.2⟩⟩
      · rw [if_neg htask] at hversions
        rw [State.eligible_congr e' hsame hclosed hplayback hversions]
        exact (and_iff_left fun hh => htask ⟨hh.1, hh.2.1⟩).symm
    have hpending : r.2.pending = s.pending := by
      rw [hr]
      rfl
    have hlive : s.closed = false ∧ e.is_live ∧ (guarded → e.valid s.next) := by
      have hlive' : ¬ (s.closed || !e.is_live || !(!guarded || e.valid s.next)) = true := hearly
      simp only [Bool.or_eq_true, Bool.not_eq_true', not_or, Bool.not_eq_true, Bool.not_eq_false,
        Bool.or_eq_true] at hlive'
      refine ⟨hlive'.1.1, hlive'.1.2, fun hg => ?_⟩
      obtain hn | hv := hlive'.2
      · rw [hg] at hn
        cases hn
      · exact hv
    constructor
    · rintro hkept ⟨-, -, -, hne, -, -, -, i, hi, he, htask, hlt⟩
      have hf := hkept (congrArg Prod.fst hr)
      have hin : i ∈ r.2.speakable e' := by
        rw [hf]
        exact mem_filter.2 ⟨hi, he⟩
      exact ((helig i hi).1 (mem_filter.1 hin).2).2 ⟨htask, hne, hlt⟩
    · intro hno _
      unfold State.speakable
      rw [hpending]
      refine filter_congr fun i hi => Bool.eq_iff_iff.2 ((helig i hi).trans (and_iff_left_of_imp ?_))
      rintro he ⟨htask, hne, hlt⟩
      refine hno ⟨hlive.1, hlive.2.1, hlive.2.2, hne, hfloor hne, hfull.1, fun j hj => ?_, i, hi, he, htask, hlt⟩
      have hle := hfull.2 j hj
      rwa [hpriority j hj, hnew] at hle

/-- An answer of one task, with a version. -/
def answer (version : ℕ) : Event := ⟨.backendReply, "task", "", "", version, "Antwort", 10⟩

/-- Every callback agrees. -/
def agreed : Env := ⟨true, fun _ => true, true, true⟩

/-- Eight answers are queued; a ninth one with a newer version is refused, and none of the eight would be spoken. -/
theorem refused_silences_queue :
    let s := Runs.run step (init (Playback.init : Playback.State Unit))
      (List.replicate 8 (.publish agreed (answer 1) false .transient false none))
    let r := s.publish agreed (answer 2) false .transient false none
    r.1 = false ∧ s.speakable agreed = [0, 1, 2, 3, 4, 5, 6, 7] ∧ r.2.speakable agreed = [] := by
  decide +kernel

end StrixAlloy.OutputArbiter

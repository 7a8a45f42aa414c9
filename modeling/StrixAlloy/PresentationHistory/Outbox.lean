import StrixAlloy.Lib.Runs
import StrixAlloy.PresentationHistory.Event

/-!
# The outbox

`PresentationOutbox` of `presentation_history.py`: `offer` puts validated events into its queue, and one `run`
loop hands them to the publisher. A step goes from one `await` to the next. `accepted` and `handed` record what
was offered with success and what the publisher got, `unsure` whether an attempt was not answered with `True`.
-/

namespace StrixAlloy.PresentationHistory

open Runs List

/-- Where the loop waits. -/
inductive Loop where
  | idle
  /-- for readiness, before it takes an event -/
  | ready
  | get
  /-- for readiness, with an event -/
  | check (event : Event CodePoint)
  | publish (event : Event CodePoint)
  | over
deriving DecidableEq

structure Outbox where
  owner_id : PyStr
  sequence : ℕ
  disabled : Bool
  queue : List (Event CodePoint)
  loop : Loop
  accepted : List (Event CodePoint)
  handed : List (Event CodePoint)
  unsure : Bool

namespace Outbox

/-- A producer without events. -/
def init (owner_id : PyStr) : Outbox := ⟨owner_id, 0, false, [], .idle, [], [], false⟩

/-- `offer`. -/
def offer (sha256 : Sha256) (o : Outbox) (v : Value CodePoint) : Outbox :=
  if o.disabled || maxEvents ≤ o.sequence then o
  else
    match validateEvent sha256 v with
    | some e =>
      if e.owner_id ≠ o.owner_id ∨ e.sequence ≠ o.sequence + 1 ∨ maxEvents ≤ o.queue.length then o
      else { o with queue := o.queue ++ [e], sequence := e.sequence, accepted := o.accepted ++ [e] }
    | none => o

/-- `close`. -/
def close (o : Outbox) : Outbox := { o with disabled := true, queue := [] }

/-- The end of the loop, however it comes. -/
def stop (o : Outbox) : Outbox := { o.close with loop := .over }

def hand (o : Outbox) (e : Event CodePoint) : Outbox := { o with loop := .publish e, handed := o.handed ++ [e] }

variable (waits : Bool)

/-- An event was taken: the second question about readiness. -/
def took (o : Outbox) (e : Event CodePoint) : Outbox :=
  if o.disabled then o.stop else if waits then { o with loop := .check e } else o.hand e

/-- `await self._queue.get()`. -/
def take (o : Outbox) : Outbox :=
  match o.queue with
  | [] => { o with loop := .get }
  | e :: q => took waits { o with queue := q } e

/-- The head of the loop. -/
def top (o : Outbox) : Outbox :=
  if o.disabled then o.stop else if waits then { o with loop := .ready } else o.take waits

/-- What happens. An answer is none where the awaited call raises. -/
inductive Move where
  | offer (value : Value CodePoint)
  | close
  | run
  | readiness (answer : Option Bool)
  | wake
  | published (answer : Option Bool)
  | cancel

def step (sha256 : Sha256) (o : Outbox) : Move → Outbox
  | .offer v => o.offer sha256 v
  | .close => o.close
  | .run => if o.loop = .idle then o.top waits else o
  | .readiness answer =>
    match o.loop with
    | .ready => if answer = some true then o.take waits else o.stop
    | .check e => if answer = some true then o.hand e else o.stop
    | _ => o
  | .wake =>
    match o.loop, o.queue with
    | .get, e :: q => took waits { o with queue := q } e
    | _, _ => o
  | .published answer =>
    match o.loop with
    | .publish _ =>
      if answer = some true then o.top waits
      else top waits { o.close with unsure := true }
    | _ => o
  | .cancel =>
    match o.loop with
    | .publish _ => { o.stop with unsure := true }
    | .idle => o
    | .over => o
    | _ => o.stop

/-! ## The order of the events -/

/-- What the loop still holds: the event that it waits with, and the queue. -/
def held (o : Outbox) : List (Event CodePoint) :=
  match o.loop with
  | .check e => e :: o.queue
  | _ => o.queue

/-- Everything accepted is handed over, held or dropped, in this order, and after an attempt that failed nothing
is held and the loop is over. -/
structure Inv (o : Outbox) : Prop where
  prefix_accepted : o.handed <+: o.accepted
  held_next : o.disabled = false → o.accepted = o.handed ++ o.held
  check_next : ∀ e, o.loop = .check e → o.handed ++ [e] <+: o.accepted
  numbered : o.accepted.map Event.sequence = List.range' 1 o.sequence
  owner : ∀ e ∈ o.accepted, e.owner_id = o.owner_id
  dropped : o.disabled → o.queue = []
  unsure_over : o.unsure → o.loop = .over

variable {waits} {o : Outbox}

theorem inv_init (owner_id : PyStr) : Inv (init owner_id) where
  prefix_accepted := prefix_rfl
  held_next _ := rfl
  check_next _ h := nomatch h
  numbered := rfl
  owner _ h := nomatch h
  dropped _ := rfl
  unsure_over h := nomatch h

theorem inv_close (h : Inv o) : Inv o.close where
  __ := h
  held_next hd := nomatch hd
  dropped _ := rfl

theorem inv_stop (h : Inv o) : Inv o.stop where
  __ := h
  held_next hd := nomatch hd
  check_next _ hl := nomatch hl
  dropped _ := rfl
  unsure_over _ := rfl

theorem inv_offer (sha256 : Sha256) (h : Inv o) (v : Value CodePoint) : Inv (o.offer sha256 v) := by
  unfold offer
  split
  · exact h
  rename_i hd
  split
  · rename_i e he
    split
    · exact h
    · rename_i hok
      simp only [not_or, ne_eq, not_not] at hok
      obtain ⟨howner, hseq, -⟩ := hok
      have hd : o.disabled = false := by
        rw [Bool.or_eq_true, not_or] at hd
        exact Bool.of_not_eq_true hd.1
      exact {
        prefix_accepted := h.prefix_accepted.trans (prefix_append _ _)
        held_next := by
          intro _
          have hnext := h.held_next hd
          unfold held at hnext ⊢
          cases hl : o.loop with
          | check =>
            rw [hl] at hnext
            rw [hnext, append_assoc, cons_append]
          | _ =>
            rw [hl] at hnext
            rw [hnext, append_assoc]
        check_next := fun f hf => (h.check_next f hf).trans (prefix_append _ _)
        numbered := by
          rw [map_append, h.numbered, map_singleton, hseq, List.range'_concat]
          simp [Nat.add_comm]
        owner := by
          intro f hf
          rcases mem_append.1 hf with hf | hf
          · exact h.owner f hf
          · rw [mem_singleton.1 hf]
            exact howner
        dropped := fun ht => absurd (hd.symm.trans ht) Bool.false_ne_true
        unsure_over := h.unsure_over }
  · exact h

/-- The event that the loop waited with is handed over. -/
theorem inv_hand (h : Inv o) {e : Event CodePoint} (hnext : o.handed ++ [e] <+: o.accepted)
    (hheld : o.disabled = false → o.accepted = o.handed ++ e :: o.queue) (hu : o.unsure = false) :
    Inv (o.hand e) where
  __ := h
  prefix_accepted := hnext
  held_next hd := by
    show o.accepted = (o.handed ++ [e]) ++ o.queue
    rw [hheld hd, append_assoc, singleton_append]
  check_next _ hl := nomatch hl
  unsure_over ht := absurd (hu.symm.trans ht) Bool.false_ne_true

theorem inv_take (h : Inv o) (hu : o.unsure = false) (hheld : o.held = o.queue) : Inv (o.take waits) := by
  unfold take
  split
  · rename_i hq
    exact { h with
      held_next := fun hd => by rw [h.held_next hd, hheld]; rfl
      check_next := fun _ hl => nomatch hl
      unsure_over := fun ht => absurd (hu.symm.trans ht) Bool.false_ne_true }
  · rename_i e q hq
    have hd : o.disabled = false := by
      by_contra hd
      rw [h.dropped (Bool.of_not_eq_false hd)] at hq
      cases hq
    have hacc : o.accepted = o.handed ++ e :: q := by rw [h.held_next hd, hheld, hq]
    have hnext : o.handed ++ [e] <+: o.accepted :=
      ⟨q, by rw [hacc, append_assoc, singleton_append]⟩
    unfold took
    rw [hd, if_neg Bool.false_ne_true]
    split
    · exact { h with
        held_next := fun _ => hacc
        check_next := fun f hf => by
          cases hf
          exact hnext
        dropped := fun ht => nomatch ht
        unsure_over := fun ht => absurd (hu.symm.trans ht) Bool.false_ne_true }
    · exact { h with
        prefix_accepted := hnext
        held_next := fun _ => by
          show o.accepted = (o.handed ++ [e]) ++ q
          rw [hacc, append_assoc, singleton_append]
        check_next := fun _ hl => nomatch hl
        dropped := fun ht => nomatch ht
        unsure_over := fun ht => absurd (hu.symm.trans ht) Bool.false_ne_true }

theorem inv_top (h : Inv o) (hu : o.unsure = false) (hheld : o.held = o.queue) : Inv (o.top waits) := by
  unfold top
  split
  · exact inv_stop h
  split
  · exact { h with
      held_next := fun hd => by rw [h.held_next hd, hheld]; rfl
      check_next := fun _ hl => nomatch hl
      unsure_over := fun ht => absurd (hu.symm.trans ht) Bool.false_ne_true }
  · exact inv_take h hu hheld

/-- What a move preserves. -/
theorem inv_step (sha256 : Sha256) (h : Inv o) (m : Move) : Inv (step waits sha256 o m) := by
  have hsure : ∀ {l}, o.loop = l → l ≠ .over → o.unsure = false := by
    rintro _ rfl hl
    by_contra hu
    exact hl (h.unsure_over (Bool.of_not_eq_false hu))
  unfold step
  cases m with
  | offer v => exact inv_offer sha256 h v
  | close => exact inv_close h
  | run =>
    dsimp only
    split
    · rename_i hl
      exact inv_top h (hsure hl nofun) (by unfold held; rw [hl])
    · exact h
  | readiness =>
    dsimp only
    split
    · rename_i hl
      split
      · exact inv_take h (hsure hl nofun) (by unfold held; rw [hl])
      · exact inv_stop h
    · rename_i e hl
      split
      · refine inv_hand h (h.check_next e hl) (fun hd => ?_) (hsure hl nofun)
        rw [h.held_next hd]
        unfold held
        rw [hl]
      · exact inv_stop h
    · exact h
  | wake =>
    dsimp only
    split
    · rename_i e q hl hq
      have hs : Inv (o.take waits) := inv_take h (hsure hl nofun) (by unfold held; rw [hl])
      unfold take at hs
      rw [hq] at hs
      exact hs
    · exact h
  | published =>
    dsimp only
    split
    · rename_i e hl
      split
      · exact inv_top h (hsure hl nofun) (by unfold held; rw [hl])
      · -- an attempt that failed closes the outbox, and the loop ends
        exact { inv_stop h with unsure_over := fun _ => rfl }
    · exact h
  | cancel =>
    dsimp only
    split
    · exact { inv_stop h with unsure_over := fun _ => rfl }
    · exact h
    · exact h
    · exact inv_stop h

/-- A loop that is over hands nothing over. -/
theorem over_step (sha256 : Sha256) (hl : o.loop = .over) (m : Move) :
    (step waits sha256 o m).loop = .over ∧ (step waits sha256 o m).handed = o.handed := by
  unfold step
  cases m with
  | offer =>
    dsimp only
    unfold offer
    split
    · exact ⟨hl, rfl⟩
    split
    · split
      · exact ⟨hl, rfl⟩
      · exact ⟨hl, rfl⟩
    · exact ⟨hl, rfl⟩
  | close => exact ⟨hl, rfl⟩
  | run =>
    rw [hl, if_neg nofun]
    exact ⟨hl, rfl⟩
  | _ =>
    rw [hl]
    exact ⟨hl, rfl⟩

/-- The events that the publisher gets are a prefix of the accepted ones, which are numbered from 1 on, and after
an attempt that failed it gets none. -/
theorem handed_in_order (waits : Bool) (sha256 : Sha256) (owner_id : PyStr) (ms : List Move) :
    let o := run (step waits sha256) (init owner_id) ms
    o.handed <+: o.accepted ∧ o.accepted.map Event.sequence = List.range' 1 o.accepted.length ∧
      (∀ e ∈ o.accepted, e.owner_id = o.owner_id) ∧
      ∀ pre post, ms = pre ++ post → (run (step waits sha256) (init owner_id) pre).unsure →
        o.handed = (run (step waits sha256) (init owner_id) pre).handed := by
  intro o
  have hinv : ∀ ms, Inv (run (step waits sha256) (init owner_id) ms) :=
    fun ms => run_invariant (P := Inv) (fun _ m h => inv_step sha256 h m) ms (inv_init owner_id)
  have h : Inv o := hinv ms
  refine ⟨h.prefix_accepted, ?_, h.owner, ?_⟩
  · have hlen : o.accepted.length = o.sequence := by
      rw [← length_map, h.numbered, length_range']
    rw [hlen, h.numbered]
  · rintro pre post rfl hu
    have hover := (hinv pre).unsure_over hu
    let frozen (o' : Outbox) : Prop :=
      o'.loop = .over ∧ o'.handed = (run (step waits sha256) (init owner_id) pre).handed
    have hstep : ∀ o' m, frozen o' → frozen (step waits sha256 o' m) := by
      rintro o' m ⟨hl, hh⟩
      obtain ⟨hl', hh'⟩ := over_step sha256 hl m
      exact ⟨hl', hh'.trans hh⟩
    have hpost : frozen (run (step waits sha256) _ post) := run_invariant hstep post ⟨hover, rfl⟩
    rw [← run_append] at hpost
    exact hpost.2

end Outbox

end StrixAlloy.PresentationHistory

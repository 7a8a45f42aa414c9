import Mathlib.Data.List.Basic
import Mathlib.Data.Nat.Basic

/-!
# Asynchronous streams and events

A `Device` runs several streams. Each is a queue of commands of which the first `done` are complete, and a
stream completes its commands in order, on its own, as `advance` says. `record` marks a place of a stream
by an event. A `wait` names the place that its event marked when the wait was enqueued, and is not complete
before that place is.

What a stream has started is at most at its first incomplete command (`Started`). A started command comes
after the waits before it, and so after what these wait for (`Sound.before`).
-/

universe u v w

namespace Streams

open Function

variable {σ : Type u} {ω : Type v} {ε : Type w}

inductive Command (σ : Type u) (ω : Type v) (ε : Type w) where
  | work (w : ω)
  | record (e : ε)
  /-- A wait for the place that an event marked, if it marked any. -/
  | wait (target : Option (σ × ℕ))

structure Device (σ : Type u) (ω : Type v) (ε : Type w) where
  queue : σ → List (Command σ ω ε)
  done : σ → ℕ
  /-- The place that an event marks. -/
  recorded : ε → Option (σ × ℕ)

namespace Device

/-- A device that was never used. -/
def empty : Device σ ω ε := ⟨fun _ => [], fun _ => 0, fun _ => none⟩

section

variable [DecidableEq σ] (d : Device σ ω ε)

def push (q : σ) (c : Command σ ω ε) : Device σ ω ε :=
  { d with queue := update d.queue q (d.queue q ++ [c]) }

/-- The event marks the end of the stream. -/
def record [DecidableEq ε] (q : σ) (e : ε) : Device σ ω ε :=
  { d.push q (.record e) with
    recorded := update d.recorded e (some (q, (d.queue q).length)) }

/-- The stream waits for the place that the event marks now. -/
def wait (q : σ) (e : ε) : Device σ ω ε := d.push q (.wait (d.recorded e))

/-- A command that is at its turn can complete. -/
def ready : Command σ ω ε → Bool
  | .wait (some t) => t.2 < d.done t.1
  | _ => true

/-- The next command of the stream completes, if there is one and it can. -/
def advance (q : σ) : Device σ ω ε :=
  match (d.queue q)[d.done q]? with
  | some c => if d.ready c then { d with done := update d.done q (d.done q + 1) } else d
  | none => d

/-- The place that the event marks is complete. -/
def complete (e : ε) : Bool :=
  match d.recorded e with
  | some t => t.2 < d.done t.1
  | none => true

/-- Every command of the stream is complete. -/
def drained (q : σ) : Bool := d.done q = (d.queue q).length

end

/-- The command at a place may have started. -/
def Started (d : Device σ ω ε) (q : σ) (i : ℕ) : Prop := i ≤ d.done q

/-- The commands that are complete are in the queue, after what they waited for. -/
structure Sound (d : Device σ ω ε) : Prop where
  done_le : ∀ q, d.done q ≤ (d.queue q).length
  waited : ∀ q i t, i < d.done q → (d.queue q)[i]? = some (.wait (some t)) → t.2 < d.done t.1

theorem sound_empty : Sound (empty : Device σ ω ε) := ⟨fun _ => Nat.le_refl _, nofun⟩

/-- A started command comes after what the waits before it wait for. -/
theorem Sound.before {d : Device σ ω ε} (h : d.Sound) {q : σ} {i k : ℕ} {t : σ × ℕ}
    (hi : (d.queue q)[i]? = some (.wait (some t))) (hlt : i < k) (hk : d.Started q k) :
    t.2 < d.done t.1 :=
  h.waited q i t (Nat.lt_of_lt_of_le hlt hk) hi

/-! ## Growth -/

/-- The device went on from `d` to `d'`: commands were enqueued, and some completed. -/
structure Grows (d d' : Device σ ω ε) : Prop where
  queue : ∀ q, d.queue q <+: d'.queue q
  done : ∀ q, d.done q ≤ d'.done q

theorem Grows.refl (d : Device σ ω ε) : Grows d d := ⟨fun _ => List.prefix_refl _, fun _ => Nat.le_refl _⟩

theorem Grows.trans {a b c : Device σ ω ε} (h : Grows a b) (h' : Grows b c) : Grows a c :=
  ⟨fun q => (h.queue q).trans (h'.queue q), fun q => Nat.le_trans (h.done q) (h'.done q)⟩

/-- A command keeps its place. -/
theorem Grows.getElem? {d d' : Device σ ω ε} (h : Grows d d') {q : σ} {i : ℕ} {c : Command σ ω ε}
    (hi : (d.queue q)[i]? = some c) : (d'.queue q)[i]? = some c := by
  obtain ⟨l, hl⟩ := h.queue q
  rw [← hl]
  exact List.getElem?_append_left (List.getElem?_eq_some_iff.1 hi).1 ▸ hi

theorem Grows.length_le {d d' : Device σ ω ε} (h : Grows d d') (q : σ) :
    (d.queue q).length ≤ (d'.queue q).length := (h.queue q).length_le

section

variable [DecidableEq σ] {d : Device σ ω ε}

theorem queue_push_self (d : Device σ ω ε) (q : σ) (c : Command σ ω ε) :
    (d.push q c).queue q = d.queue q ++ [c] := update_self ..

theorem queue_push_of_ne (d : Device σ ω ε) {q p : σ} (h : p ≠ q) (c : Command σ ω ε) :
    (d.push q c).queue p = d.queue p := update_of_ne h ..

/-- The commands after one was enqueued: those before, and itself at the end of its stream. -/
theorem getElem?_push {q p : σ} {c c' : Command σ ω ε} {i : ℕ}
    (h : ((d.push q c).queue p)[i]? = some c') :
    (d.queue p)[i]? = some c' ∨ p = q ∧ i = (d.queue q).length ∧ c' = c := by
  by_cases hp : p = q
  · subst hp
    rw [queue_push_self, List.getElem?_append] at h
    split at h
    · exact .inl h
    case isFalse hlt =>
      right
      obtain ⟨hi, -⟩ := List.getElem?_eq_some_iff.1 h
      have hzero : i - (d.queue p).length = 0 := Nat.lt_one_iff.1 hi
      rw [hzero] at h
      exact ⟨rfl, by omega, (Option.some.inj h).symm⟩
  · rw [queue_push_of_ne d hp] at h
    exact .inl h

theorem grows_push (d : Device σ ω ε) (q : σ) (c : Command σ ω ε) : Grows d (d.push q c) := by
  refine ⟨fun p => ?_, fun _ => Nat.le_refl _⟩
  by_cases hp : p = q
  · subst hp
    rw [queue_push_self]
    exact List.prefix_append _ _
  · simp only [queue_push_of_ne d hp, List.prefix_refl]

theorem Sound.push (h : d.Sound) (q : σ) (c : Command σ ω ε) : (d.push q c).Sound where
  done_le := fun p => Nat.le_trans (h.done_le p) ((grows_push d q c).length_le p)
  waited := by
    intro p i t hi ht
    rcases getElem?_push ht with ht | ⟨rfl, rfl, -⟩
    · exact h.waited p i t hi ht
    · -- what is enqueued is not complete
      exact absurd hi (Nat.not_lt.2 (h.done_le p))

theorem Sound.record [DecidableEq ε] (h : d.Sound) (q : σ) (e : ε) : (d.record q e).Sound :=
  ⟨(h.push q (.record e)).done_le, (h.push q (.record e)).waited⟩

theorem grows_record [DecidableEq ε] (d : Device σ ω ε) (q : σ) (e : ε) : Grows d (d.record q e) :=
  ⟨(grows_push d q (.record e)).queue, (grows_push d q (.record e)).done⟩

theorem grows_advance (d : Device σ ω ε) (q : σ) : Grows d (d.advance q) := by
  refine ⟨fun p => ?_, fun p => ?_⟩
  · unfold advance
    split
    · split <;> exact List.prefix_refl _
    · exact List.prefix_refl _
  · unfold advance
    split
    · split
      · by_cases hp : p = q
        · subst hp
          dsimp only
          rw [update_self]
          exact Nat.le_succ _
        · dsimp only
          rw [update_of_ne hp]
      · exact Nat.le_refl _
    · exact Nat.le_refl _

theorem recorded_advance (d : Device σ ω ε) (q : σ) : (d.advance q).recorded = d.recorded := by
  unfold advance
  split
  · split <;> rfl
  · rfl

theorem queue_advance (d : Device σ ω ε) (q p : σ) : (d.advance q).queue p = d.queue p := by
  unfold advance
  split
  · split <;> rfl
  · rfl

theorem Sound.advance (h : d.Sound) (q : σ) : (d.advance q).Sound := by
  have hgrows := grows_advance d q
  refine ⟨fun p => ?_, fun p i t hi ht => ?_⟩
  · rw [queue_advance]
    unfold Device.advance
    split
    case h_1 c hc =>
      split
      · by_cases hp : p = q
        · subst hp
          dsimp only
          rw [update_self]
          exact (List.getElem?_eq_some_iff.1 hc).1
        · dsimp only
          rw [update_of_ne hp]
          exact h.done_le p
      · exact h.done_le p
    · exact h.done_le p
  · rw [queue_advance] at ht
    by_cases hold : i < d.done p
    · exact Nat.lt_of_lt_of_le (h.waited p i t hold ht) (hgrows.done t.1)
    · -- the command that completed now is the wait, and it was ready
      unfold Device.advance at hi
      split at hi
      case h_1 c hc =>
        split at hi
        case isTrue hready =>
          dsimp only at hi
          by_cases hp : p = q
          · subst hp
            rw [update_self] at hi
            obtain rfl : i = d.done p := by omega
            obtain rfl : c = .wait (some t) := Option.some.inj (hc.symm.trans ht)
            have hlt : t.2 < d.done t.1 := by simpa [ready] using hready
            exact Nat.lt_of_lt_of_le hlt (hgrows.done t.1)
          · rw [update_of_ne hp] at hi
            exact absurd hi hold
        case isFalse => exact absurd hi hold
      case h_2 => exact absurd hi hold

end

end Device

end Streams

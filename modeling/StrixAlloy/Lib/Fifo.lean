import Mathlib.Data.List.Basic
import Mathlib.Data.Nat.Basic

/-!
# An asynchronous queue

`Fifo` is a queue whose commands take effect in the order of their enqueueing, at times of the queue's
own choosing: `done` of them have. Each command is kept with the number of those that had taken effect
when it was enqueued. What the commands do to a memory is `exec`; `At` is the memory after the first
`n` commands, whenever they are executed, and `Since` says what holds of it from some command on.
-/

universe u v

/-- A queue of commands, of which the first `done` have taken effect. -/
structure Fifo (κ : Type u) where
  queue : List κ
  /-- For each command, how many had taken effect when it was enqueued. -/
  stamps : List ℕ
  done : ℕ

namespace Fifo

open List

variable {κ : Type u} {μ : Type v}

/-- A queue that was never used. -/
def empty : Fifo κ := ⟨[], [], 0⟩

/-- Up to `n` more commands take effect. -/
def progress (n : ℕ) (s : Fifo κ) : Fifo κ := { s with done := min (s.done + n) s.queue.length }

/-- A command is enqueued. -/
def enqueue (k : κ) (s : Fifo κ) : Fifo κ :=
  { s with queue := s.queue ++ [k], stamps := s.stamps ++ [s.done] }

/-- Every command takes effect. -/
def drain (s : Fifo κ) : Fifo κ := { s with done := s.queue.length }

/-- Every command of a kind has taken effect. -/
def completed (p : κ → Bool) (s : Fifo κ) : Bool := !(s.queue.drop s.done).any p

/-- What has taken effect is in the queue, and every command has its stamp. -/
structure Sound (s : Fifo κ) : Prop where
  done_le : s.done ≤ s.queue.length
  stamped : s.stamps.length = s.queue.length

theorem Sound.empty : Sound (empty : Fifo κ) := ⟨le_rfl, rfl⟩

theorem Sound.progress {s : Fifo κ} (h : s.Sound) (n : ℕ) : (s.progress n).Sound :=
  ⟨Nat.min_le_right _ _, h.stamped⟩

theorem Sound.enqueue {s : Fifo κ} (h : s.Sound) (k : κ) : (s.enqueue k).Sound where
  done_le := by
    have := h.done_le
    simp only [Fifo.enqueue, length_append]
    omega
  stamped := by simp [Fifo.enqueue, h.stamped]

theorem Sound.drain {s : Fifo κ} (h : s.Sound) : s.drain.Sound := ⟨le_rfl, h.stamped⟩

/-- `done` only grows. -/
theorem done_le_progress {s : Fifo κ} (h : s.Sound) (n : ℕ) : s.done ≤ (s.progress n).done :=
  Nat.le_min.2 ⟨Nat.le_add_right _ _, h.done_le⟩

/-- Where a kind is completed, its commands stand before what has not taken effect. -/
theorem lt_of_completed {s : Fifo κ} {p : κ → Bool} (h : s.completed p) {n : ℕ} {k : κ}
    (hn : s.queue[n]? = some k) (hk : p k) : n < s.done := by
  by_contra hle
  have hmem : k ∈ s.queue.drop s.done := by
    refine mem_of_getElem? (i := n - s.done) ?_
    rw [List.getElem?_drop, Nat.add_sub_cancel' (Nat.le_of_not_lt hle), hn]
  rw [completed, Bool.not_eq_true', any_eq_false] at h
  exact h k hmem hk

/-! ## Memories -/

variable (exec : μ → κ → μ) (m : μ)

/-- The memory after the first `n` commands of a queue. -/
def At (queue : List κ) (n : ℕ) : μ := (queue.take n).foldl exec m

/-- The memory after a whole queue. -/
def after (queue : List κ) : μ := queue.foldl exec m

variable {exec m}

theorem after_concat (queue : List κ) (k : κ) :
    after exec m (queue ++ [k]) = exec (after exec m queue) k := by
  simp [after, foldl_append]

/-- `P` holds of the memory after the first `n` commands, and after each later one. -/
def Since (exec : μ → κ → μ) (m : μ) (P : μ → Prop) (queue : List κ) (n : ℕ) : Prop :=
  n ≤ queue.length ∧ ∀ k, n ≤ k → k ≤ queue.length → P (At exec m queue k)

variable {P : μ → Prop} {queue : List κ} {n : ℕ}

/-- What holds after the whole queue holds since its end. -/
theorem since_length (h : P (after exec m queue)) : Since exec m P queue queue.length := by
  refine ⟨le_rfl, fun k hk hk' => ?_⟩
  rw [le_antisymm hk' hk, At, take_length]
  exact h

theorem Since.after (h : Since exec m P queue n) : P (after exec m queue) := by
  have := h.2 queue.length h.1 le_rfl
  rwa [At, take_length] at this

/-- What a further command keeps still holds since the same one. -/
theorem Since.concat (h : Since exec m P queue n) {k : κ} (hk : ∀ m, P m → P (exec m k)) :
    Since exec m P (queue ++ [k]) n := by
  refine ⟨by have := h.1; simp; omega, fun i hi hi' => ?_⟩
  rw [length_append, length_singleton] at hi'
  rcases Nat.lt_or_ge queue.length i with hlt | hle
  · obtain rfl : i = (queue ++ [k]).length := by simp; omega
    rw [At, take_length]
    change P (Fifo.after exec m (queue ++ [k]))
    rw [after_concat]
    exact hk _ h.after
  · rw [At, take_append_of_le_length hle]
    exact h.2 i hi hle

/-- What further commands keep still holds since the same one. -/
theorem Since.append (h : Since exec m P queue n) {rest : List κ}
    (hrest : ∀ k ∈ rest, ∀ m, P m → P (exec m k)) : Since exec m P (queue ++ rest) n := by
  induction rest generalizing queue with
  | nil => rwa [append_nil]
  | cons k rest ih =>
    rw [append_cons]
    exact ih (h.concat (hrest k mem_cons_self)) fun k' hk' => hrest k' (mem_cons_of_mem k hk')

end Fifo

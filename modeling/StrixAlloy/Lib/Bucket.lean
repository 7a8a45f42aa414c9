import Mathlib.Algebra.BigOperators.Group.List.Basic
import Mathlib.Tactic.Linarith
import Mathlib.Tactic.Ring

/-!
# Token buckets

A bucket fills at a constant rate up to its capacity, and what passes takes as many tokens as it is long. In any
window of time no more passes than the capacity and what the window adds (`Metered.window`). The proof carries a
potential: what has passed since an instant, with the tokens that are left, is bounded in the same way
(`Metered.owed`).
-/

universe u

/-- A bucket with the time of its last reading. -/
structure Bucket (K : Type u) where
  updated : K
  tokens : K

namespace Bucket

open List

variable {K : Type u} [CommRing K] [LinearOrder K] [IsStrictOrderedRing K] (cap rate : K)

/-- The bucket as it is read at the time `now`. -/
def refill (now : K) (b : Bucket K) : Bucket K where
  updated := now
  tokens := min cap (b.tokens + (now - b.updated) * rate)

/-- Take `n` tokens, if there are as many. -/
def take (now n : K) (b : Bucket K) : Bool × Bucket K :=
  let b := b.refill cap rate now
  if b.tokens < n then (false, b) else (true, { b with tokens := b.tokens - n })

/-- What passed in the window from `a` to `b`, of a log of times and lengths. -/
def within (a b : K) (log : List (K × K)) : K := ((log.filter fun e => a ≤ e.1 ∧ e.1 ≤ b).map Prod.snd).sum

/-- What passed from the time `a` on. -/
def since (a : K) (log : List (K × K)) : K := ((log.filter fun e => a ≤ e.1).map Prod.snd).sum

/-- The bucket accounts for what passed. -/
structure Metered (b : Bucket K) (log : List (K × K)) : Prop where
  tokens_le : b.tokens ≤ cap
  past : ∀ e ∈ log, e.1 ≤ b.updated
  owed : ∀ a ≤ b.updated, since a log + b.tokens ≤ cap + (b.updated - a) * rate
  window : ∀ a c, a ≤ c → within a c log ≤ cap + (c - a) * rate

variable {cap rate} {a c now n : K} {b : Bucket K} {log : List (K × K)}

section

omit [IsStrictOrderedRing K]

theorem since_append (log : List (K × K)) : since a (log ++ [(now, n)]) = since a log + if a ≤ now then n else 0 := by
  unfold since
  rw [filter_append, map_append, sum_append]
  by_cases h : a ≤ now
  · simp [h]
  · simp [h]

theorem within_append (log : List (K × K)) :
    within a c (log ++ [(now, n)]) = within a c log + if a ≤ now ∧ now ≤ c then n else 0 := by
  unfold within
  rw [filter_append, map_append, sum_append]
  by_cases h : a ≤ now ∧ now ≤ c
  · simp [h]
  · simp [h]

/-- A window that has not ended contains everything from its start on. -/
theorem within_eq_since (h : ∀ e ∈ log, e.1 ≤ c) : within a c log = since a log := by
  have hfilter : (log.filter fun e => a ≤ e.1 ∧ e.1 ≤ c) = log.filter fun e => a ≤ e.1 :=
    filter_congr fun e he => decide_eq_decide.2 (and_iff_left (h e he))
  rw [within, hfilter, since]

theorem since_eq_zero (h : ∀ e ∈ log, e.1 < a) : since a log = 0 := by
  have hfilter : (log.filter fun e => a ≤ e.1) = [] :=
    filter_eq_nil_iff.2 fun e he hle => (h e he).not_ge (of_decide_eq_true hle)
  rw [since, hfilter, map_nil, sum_nil]

end

/-- A full bucket, before anything passed. -/
theorem Metered.full (hcap : 0 ≤ cap) (hrate : 0 ≤ rate) : Metered cap rate ⟨now, cap⟩ [] := by
  refine ⟨le_rfl, nofun, fun a ha => ?_, fun a c hac => ?_⟩
  · have hadd := mul_nonneg (sub_nonneg.2 ha) hrate
    change 0 + cap ≤ cap + (now - a) * rate
    linarith
  · have hadd := mul_nonneg (sub_nonneg.2 hac) hrate
    change 0 ≤ cap + (c - a) * rate
    linarith

theorem Metered.refill (h : Metered cap rate b log) (hnow : b.updated ≤ now) (hrate : 0 ≤ rate) :
    Metered cap rate (b.refill cap rate now) log := by
  refine ⟨min_le_left _ _, fun e he => (h.past e he).trans hnow, fun a ha => ?_, h.window⟩
  change a ≤ now at ha
  change since a log + min cap (b.tokens + (now - b.updated) * rate) ≤ cap + (now - a) * rate
  rcases le_or_gt a b.updated with hold | hnew
  · have howed := h.owed a hold
    have hmin := min_le_right cap (b.tokens + (now - b.updated) * rate)
    linarith
  · -- nothing has passed since the last reading
    have hzero := since_eq_zero fun e he => (h.past e he).trans_lt hnew
    have hmin := min_le_left cap (b.tokens + (now - b.updated) * rate)
    have hadd := mul_nonneg (sub_nonneg.2 ha) hrate
    linarith

/-- Tokens that are lost pay for nothing. -/
theorem Metered.lose (h : Metered cap rate b log) (hn : 0 ≤ n) : Metered cap rate ⟨b.updated, b.tokens - n⟩ log := by
  refine ⟨?_, h.past, fun a ha => ?_, h.window⟩
  · have htokens := h.tokens_le
    change b.tokens - n ≤ cap
    linarith
  · have howed := h.owed a ha
    change since a log + (b.tokens - n) ≤ cap + (b.updated - a) * rate
    linarith

/-- What passes is paid with tokens, so the window that contains it is not exceeded. -/
theorem Metered.pay (h : Metered cap rate b log) (hrate : 0 ≤ rate) (hn : 0 ≤ n) (hle : n ≤ b.tokens) :
    Metered cap rate ⟨b.updated, b.tokens - n⟩ (log ++ [(b.updated, n)]) := by
  refine ⟨?_, ?_, fun a ha => ?_, fun a c hac => ?_⟩
  · exact (h.lose hn).tokens_le
  · intro e he
    rcases mem_append.1 he with he | he
    · exact h.past e he
    · rw [mem_singleton.1 he]
  · have howed := h.owed a ha
    change since a (log ++ [(b.updated, n)]) + (b.tokens - n) ≤ cap + (b.updated - a) * rate
    rw [since_append, if_pos ha]
    linarith
  · rw [within_append]
    split_ifs with hin
    · have howed := h.owed a hin.1
      have hlonger := mul_le_mul_of_nonneg_right (sub_le_sub_right hin.2 a) hrate
      rw [within_eq_since fun e he => (h.past e he).trans hin.2]
      linarith
    · rw [add_zero]
      exact h.window a c hac

omit [IsStrictOrderedRing K] in
theorem take_updated : (b.take cap rate now n).2.updated = now := by
  unfold Bucket.take
  dsimp only
  split_ifs <;> rfl

/-- Where the tokens are taken and nothing passes. -/
theorem Metered.waste (h : Metered cap rate b log) (hnow : b.updated ≤ now) (hrate : 0 ≤ rate) (hn : 0 ≤ n) :
    Metered cap rate (b.take cap rate now n).2 log := by
  have hr := h.refill hnow hrate
  unfold Bucket.take
  dsimp only
  split_ifs
  · exact hr
  · exact hr.lose hn

/-- Where they are taken for what passes. -/
theorem Metered.take (h : Metered cap rate b log) (hnow : b.updated ≤ now) (hrate : 0 ≤ rate) (hn : 0 ≤ n)
    (ht : (b.take cap rate now n).1) : Metered cap rate (b.take cap rate now n).2 (log ++ [(now, n)]) := by
  have hr := h.refill hnow hrate
  unfold Bucket.take at ht ⊢
  dsimp only at ht ⊢
  split_ifs at ht ⊢ with hlt
  exact hr.pay hrate hn (not_lt.1 hlt)

end Bucket

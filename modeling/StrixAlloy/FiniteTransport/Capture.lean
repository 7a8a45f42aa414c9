import StrixAlloy.Lib.Mask

/-!
# The capture of the wire

`Capture` of `finite_transport.py`: what is received is written to a file with the secret masked. The end that is
shorter than the secret waits for what comes next. Beyond the limit nothing is written, the end that may begin the
secret is masked as well, and the call raises.
-/

namespace StrixAlloy.FiniteTransport

open Mask List

abbrev Bytes := List UInt8

/-- `b'*'`. -/
def star : UInt8 := 42

structure Capture where
  /-- What was written. -/
  file : Bytes
  secret : Bytes
  limit : ℕ
  pending : Bytes
  count : ℕ

namespace Capture

/-- The constructor. The mask is as long as the secret. -/
def create (secret : Bytes) (limit : ℕ) : Except String Capture :=
  if secret = [] ∨ 4096 < secret.length then .error "finite_secret" else .ok ⟨[], secret, limit, [], 0⟩

/-- The loop over the lengths of a beginning of the secret, from the given one down. -/
def maskEnd (secret pending : Bytes) : ℕ → Bytes
  | 0 => pending
  | length + 1 =>
    if secret.take (length + 1) <:+ pending then
      pending.take (pending.length - (length + 1)) ++ List.replicate (length + 1) star
    else maskEnd secret pending length

/-- The capture after the call, and whether it raised `response_wire_limit`. -/
def feed (c : Capture) (data : Bytes) : Capture × Bool :=
  let combined := replace c.secret star (c.pending ++ data.take (c.limit - c.count))
  let keep := min combined.length (c.secret.length - 1)
  let pending := combined.drop (combined.length - keep)
  let c := { c with count := c.count + data.length
                    file := c.file ++ combined.take (combined.length - keep) }
  if c.limit < c.count then ({ c with pending := maskEnd c.secret pending (c.secret.length - 1) }, true)
  else ({ c with pending := pending }, false)

/-- The calls of `feed`, of which one that raises is the last. -/
def feeds (c : Capture) : List Bytes → Capture × Bool
  | [] => (c, false)
  | data :: rest =>
    match c.feed data with
    | (c, true) => (c, true)
    | (c, false) => c.feeds rest

/-- The file after `close`. -/
def close (c : Capture) : Bytes := c.file ++ c.pending

/-! ## One call -/

/-- The capture has been fed `x`. -/
structure Fed (secret : Bytes) (limit : ℕ) (x : Bytes) (c : Capture) : Prop where
  secret_eq : c.secret = secret
  limit_eq : c.limit = limit
  count : c.count = x.length
  within : x.length ≤ limit
  written : masked secret star x = c.file ++ c.pending
  short : c.pending.length < secret.length
  full : c.file = [] ∨ secret.length ≤ c.pending.length + 1

/-- The end is left alone, or a beginning of the secret in it is masked. -/
theorem maskEnd_cases (secret pending : Bytes) : ∀ n < secret.length,
    maskEnd secret pending n = pending ∧ (∀ k, 0 < k → k ≤ n → ¬secret.take k <:+ pending) ∨
      ∃ k, 0 < k ∧ k ≤ pending.length ∧
        maskEnd secret pending n = pending.take (pending.length - k) ++ List.replicate k star
  | 0, _ => .inl ⟨rfl, fun k hpos hle => absurd hle (Nat.not_le.2 hpos)⟩
  | n + 1, hn => by
    rw [maskEnd]
    split_ifs with hsuffix
    · have hle := hsuffix.length_le
      rw [length_take] at hle
      exact .inr ⟨n + 1, Nat.succ_pos _, by omega, rfl⟩
    · refine (maskEnd_cases secret pending n (by omega)).imp_left fun ⟨heq, hnone⟩ => ⟨heq, fun k hpos hle => ?_⟩
      rcases Nat.lt_or_eq_of_le hle with hlt | rfl
      · exact hnone k hpos (Nat.lt_succ_iff.1 hlt)
      · exact hsuffix

variable {secret : Bytes} {limit : ℕ} {x : Bytes} {c : Capture}

section

variable (hs : secret ≠ []) (hstar : star ∉ secret)
include hs hstar

theorem Fed.feed (h : Fed secret limit x c) (data : Bytes) :
    (x.length + data.length ≤ limit → (c.feed data).2 = false ∧ Fed secret limit (x ++ data) (c.feed data).1) ∧
      (limit < x.length + data.length → (c.feed data).2 ∧ (c.feed data).1.close.length ≤ limit ∧
        (∀ k, 0 < k → k < secret.length → ¬secret.take k <:+ (c.feed data).1.close) ∧
        ¬secret <:+: (c.feed data).1.close) := by
  -- what is written and what waits, before the end is looked at
  obtain ⟨combined, hcombined⟩ : ∃ l, replace secret star (c.pending ++ data.take (limit - x.length)) = l := ⟨_, rfl⟩
  have hmasked : masked secret star (x ++ data.take (limit - x.length)) = c.file ++ combined := by
    rw [masked_append h.written h.short h.full, ← replace_eq_masked hs hstar, hcombined]
  have hlen : c.pending.length ≤ combined.length := by
    rw [← hcombined, replace_eq_masked hs hstar, length_masked, length_append]
    exact Nat.le_add_right _ _
  obtain ⟨keep, hkeep⟩ : ∃ k, min combined.length (secret.length - 1) = k := ⟨_, rfl⟩
  have hsplit : c.file ++ combined.take (combined.length - keep) ++ combined.drop (combined.length - keep) =
      masked secret star (x ++ data.take (limit - x.length)) := by
    rw [append_assoc, take_append_drop, hmasked]
  have hpos := length_pos_iff.2 hs
  have hpending : (combined.drop (combined.length - keep)).length = keep := by
    rw [length_drop]
    omega
  have hfull : c.file ++ combined.take (combined.length - keep) = [] ∨ secret.length ≤ keep + 1 := by
    by_cases hle : secret.length ≤ combined.length + 1
    · exact .inr (by omega)
    · refine h.full.imp (fun hnil => ?_) fun hfull => by omega
      rw [hnil, show combined.length - keep = 0 by omega]
      rfl
  unfold Capture.feed
  simp only [h.secret_eq, h.limit_eq, hcombined, hkeep, h.count]
  constructor
  · intro hle
    rw [if_neg (Nat.not_lt.2 hle)]
    have htake : data.take (limit - x.length) = data := take_of_length_le (by omega)
    rw [htake] at hsplit
    exact ⟨rfl, rfl, rfl, length_append.symm, by rw [length_append]; exact hle, hsplit.symm,
      by rw [hpending]; omega, by rw [hpending]; exact hfull⟩
  · intro hlt
    rw [if_pos hlt]
    -- beyond the limit nothing is written
    have hwithin := h.within
    have hlength := congrArg List.length hsplit
    rw [length_masked, length_append, hpending, @length_append _ x, length_take] at hlength
    have hout := not_infix_masked hs hstar (x ++ data.take (limit - x.length))
    rw [← hsplit] at hout
    unfold close
    dsimp only
    rcases maskEnd_cases secret (combined.drop (combined.length - keep)) (secret.length - 1) (by omega) with
      ⟨heq, hnone⟩ | ⟨k, hkpos, hkle, heq⟩
    · rw [heq]
      refine ⟨rfl, by rw [length_append, hpending]; omega, fun k hkpos hklt hsuffix => ?_, hout⟩
      refine hnone k hkpos (by omega) ?_
      rcases hfull with hnil | hfull
      · rwa [hnil] at hsuffix
      · refine suffix_of_suffix_length_le hsuffix (suffix_append _ _) ?_
        rw [length_take, hpending]
        omega
    · rw [heq, ← append_assoc]
      refine ⟨rfl, ?_, fun j hjpos hjlt hsuffix => ?_, fun hin => hout ?_⟩
      · rw [length_append, @length_append _ (c.file ++ _), length_replicate, length_take, hpending]
        rw [hpending] at hkle
        omega
      · -- the end is a star
        obtain ⟨k, rfl⟩ : ∃ n, k = n + 1 := ⟨k - 1, by omega⟩
        rw [replicate_succ', ← append_assoc] at hsuffix
        have hle := suffix_of_star (fun hmem => hstar (mem_of_mem_take hmem))
          (by rwa [append_nil])
        rw [length_take, length_nil] at hle
        omega
      · refine (infix_of_stars hs hstar k hin).trans (List.IsPrefix.isInfix ?_)
        exact (prefix_append_right_inj _).2 (List.take_prefix _ _)

/-! ## All calls -/

theorem Fed.feeds : ∀ (chunks : List Bytes) {x : Bytes} {c : Capture}, Fed secret limit x c →
    (x.length + chunks.flatten.length ≤ limit →
      (c.feeds chunks).2 = false ∧ Fed secret limit (x ++ chunks.flatten) (c.feeds chunks).1) ∧
    (limit < x.length + chunks.flatten.length → (c.feeds chunks).2 ∧
      (c.feeds chunks).1.close.length ≤ limit ∧
      (∀ k, 0 < k → k < secret.length → ¬secret.take k <:+ (c.feeds chunks).1.close) ∧
      ¬secret <:+: (c.feeds chunks).1.close)
  | [], x, c, h => by
    refine ⟨fun _ => ⟨rfl, ?_⟩, fun hlt => absurd h.within (Nat.not_le.2 hlt)⟩
    rw [flatten_nil, append_nil]
    exact h
  | data :: chunks, x, c, h => by
    obtain ⟨hin, hover⟩ := h.feed hs hstar data
    rw [flatten_cons, length_append, ← append_assoc, ← Nat.add_assoc, Capture.feeds]
    by_cases hle : x.length + data.length ≤ limit
    · obtain ⟨hok, hfed⟩ := hin hle
      have ih := Fed.feeds chunks hfed
      rw [length_append] at ih
      rcases hc : c.feed data with ⟨c', raised⟩
      rw [hc] at hok ih
      obtain rfl : raised = false := hok
      exact ih
    · obtain ⟨hraised, hfile⟩ := hover (Nat.not_le.1 hle)
      rcases hc : c.feed data with ⟨c', raised⟩
      rw [hc] at hraised hfile
      obtain rfl : raised = true := hraised
      exact ⟨fun h => absurd h (by omega), fun _ => ⟨rfl, hfile⟩⟩

end

/-- For every nonempty secret without a star and every way of cutting a stream, the file holds the masked stream
where it is within the limit, and otherwise no more than the limit and no beginning of the secret at its end. The
secret is never in the file. -/
theorem capture_masks (hc : create secret limit = .ok c) (hstar : star ∉ secret) (chunks : List Bytes) :
    (chunks.flatten.length ≤ limit →
      (c.feeds chunks).2 = false ∧ (c.feeds chunks).1.close = replace secret star chunks.flatten) ∧
    (limit < chunks.flatten.length → (c.feeds chunks).2 ∧ (c.feeds chunks).1.close.length ≤ limit ∧
      ∀ k, 0 < k → k < secret.length → ¬secret.take k <:+ (c.feeds chunks).1.close) ∧
    ¬secret <:+: (c.feeds chunks).1.close := by
  unfold create at hc
  split_ifs at hc with hbad
  obtain ⟨hs, -⟩ := not_or.1 hbad
  obtain rfl := Except.ok.inj hc
  have hfed : Fed secret limit [] ⟨[], secret, limit, [], 0⟩ :=
    ⟨rfl, rfl, rfl, Nat.zero_le _, rfl, length_pos_iff.2 hs, .inl rfl⟩
  obtain ⟨hin, hover⟩ := hfed.feeds hs hstar chunks
  rw [length_nil, Nat.zero_add] at hin hover
  rw [nil_append] at hin
  refine ⟨fun hle => ?_, fun hlt => ?_, ?_⟩
  · obtain ⟨hok, h⟩ := hin hle
    exact ⟨hok, by rw [replace_eq_masked hs hstar, h.written, close]⟩
  · obtain ⟨hraised, hlength, hend, -⟩ := hover hlt
    exact ⟨hraised, hlength, hend⟩
  · rcases Nat.lt_or_ge limit chunks.flatten.length with hlt | hle
    · exact (hover hlt).2.2.2
    · rw [close, ← (hin hle).2.written]
      exact not_infix_masked hs hstar _

/-- A secret that overlaps itself and comes in three parts. -/
theorem capture_masks_overlap :
    ((⟨[], [1, 2, 1], 8, [], 0⟩ : Capture).feeds [[1], [2, 1, 2], [1, 2]]).1.close = [42, 42, 42, 2, 1, 2] := by
  have hcreate : create [1, 2, 1] 8 = .ok ⟨[], [1, 2, 1], 8, [], 0⟩ := rfl
  exact ((capture_masks hcreate (by decide) [[1], [2, 1, 2], [1, 2]]).1 (by decide)).2.trans (by decide)

end Capture

end StrixAlloy.FiniteTransport

import Mathlib.Algebra.Group.Nat.Defs
import Mathlib.Data.List.Basic
import Mathlib.Order.Basic

/-!
# Length-prefixed frames

A payload travels as its length in four little-endian bytes and its bytes. A stream of frames determines
its payloads however it is cut into reads: whoever has taken whole frames from the front of a stream has
taken its first payloads (`prefix_of_stream_prefix`).
-/

namespace Framing

open List

/-- A number in four little-endian bytes. -/
def le32 (n : ℕ) : List UInt8 :=
  [UInt8.ofNat n, UInt8.ofNat (n / 2 ^ 8), UInt8.ofNat (n / 2 ^ 16), UInt8.ofNat (n / 2 ^ 24)]

/-- The number in four little-endian bytes. -/
def unle32 : List UInt8 → ℕ
  | [a, b, c, d] => a.toNat + 2 ^ 8 * b.toNat + 2 ^ 16 * c.toNat + 2 ^ 24 * d.toNat
  | _ => 0

@[simp]
theorem length_le32 (n : ℕ) : (le32 n).length = 4 := rfl

theorem unle32_le32 {n : ℕ} (h : n < 2 ^ 32) : unle32 (le32 n) = n := by
  simp only [le32, unle32, UInt8.toNat_ofNat']
  omega

theorem le32_unle32 {bs : List UInt8} (h : bs.length = 4) : le32 (unle32 bs) = bs := by
  obtain ⟨a, b, c, d, rfl⟩ : ∃ a b c d, bs = [a, b, c, d] := by
    match bs, h with
    | [a, b, c, d], _ => exact ⟨a, b, c, d, rfl⟩
  have ha := a.toNat_lt
  have hb := b.toNat_lt
  have hc := c.toNat_lt
  have hd := d.toNat_lt
  simp only [le32, unle32, List.cons.injEq, and_true]
  refine ⟨?_, ?_, ?_, ?_⟩ <;> apply UInt8.toNat_inj.1 <;> rw [UInt8.toNat_ofNat'] <;> omega

theorem le32_inj {m n : ℕ} (hm : m < 2 ^ 32) (hn : n < 2 ^ 32) (h : le32 m = le32 n) : m = n := by
  rw [← unle32_le32 hm, h, unle32_le32 hn]

/-- The bytes of a frame. -/
def frame (payload : List UInt8) : List UInt8 := le32 payload.length ++ payload

/-- The bytes of a list of frames. -/
def stream (payloads : List (List UInt8)) : List UInt8 := payloads.flatMap frame

@[simp]
theorem stream_nil : stream [] = [] := rfl

theorem stream_cons (p : List UInt8) (ps : List (List UInt8)) :
    stream (p :: ps) = frame p ++ stream ps := rfl

theorem stream_append (ps qs : List (List UInt8)) : stream (ps ++ qs) = stream ps ++ stream qs :=
  flatMap_append

theorem stream_concat (ps : List (List UInt8)) (p : List UInt8) :
    stream (ps ++ [p]) = stream ps ++ frame p := by
  rw [stream_append, stream_cons, stream_nil, append_nil]

/-- A frame at the front of a stream of frames is its first one. -/
theorem frame_append_inj {p q r r' : List UInt8} (hp : p.length < 2 ^ 32) (hq : q.length < 2 ^ 32)
    (h : frame p ++ r = frame q ++ r') : p = q ∧ r = r' := by
  unfold frame at h
  rw [append_assoc, append_assoc] at h
  obtain ⟨hlen, h⟩ := append_inj h (by rw [length_le32, length_le32])
  exact append_inj h (le32_inj hp hq hlen)

/-- Whole frames at the front of a stream are its first frames. -/
theorem prefix_of_stream_prefix {ps qs : List (List UInt8)} (hp : ∀ p ∈ ps, p.length < 2 ^ 32)
    (hq : ∀ q ∈ qs, q.length < 2 ^ 32) (h : stream ps <+: stream qs) : ps <+: qs := by
  induction ps generalizing qs with
  | nil => exact nil_prefix
  | cons p ps ih =>
    obtain ⟨r, h⟩ := h
    rw [stream_cons, append_assoc] at h
    cases qs with
    | nil =>
      have hlen := congrArg List.length h
      simp only [frame, stream_nil, length_append, length_le32, length_nil] at hlen
      omega
    | cons q qs =>
      rw [stream_cons] at h
      obtain ⟨rfl, hrest⟩ := frame_append_inj (hp p (by simp)) (hq q (by simp)) h
      have hps : ∀ x ∈ ps, x.length < 2 ^ 32 := fun x hx => hp x (mem_cons_of_mem _ hx)
      have hqs : ∀ x ∈ qs, x.length < 2 ^ 32 := fun x hx => hq x (mem_cons_of_mem _ hx)
      exact cons_prefix_cons.2 ⟨rfl, ih hps hqs ⟨r, hrest⟩⟩

end Framing

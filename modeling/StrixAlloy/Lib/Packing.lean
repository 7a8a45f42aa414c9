import Mathlib.Algebra.Group.Int.Defs
import Mathlib.Algebra.GroupWithZero.Nat
import Mathlib.Data.List.Basic
import Mathlib.Order.Basic

/-!
# Packed records

A number travels as little-endian bytes (`le`, `value`), with a sign in two's complement (`signed`). A record is the
concatenation of its fields. Whoever knows the widths of the fields gets them back (`cut_flatten`), a byte string is
the record of what is read from it (`flatten_cut`), and a field is also found at its offset
(`cut_drop`).
-/

namespace Packing

open List

/-! ## Numbers -/

/-- The `k` low bytes of a number, the lowest first. -/
def le : ℕ → ℕ → List UInt8
  | 0, _ => []
  | k + 1, n => UInt8.ofNat n :: le k (n / 256)

/-- The number whose bytes these are. -/
def value : List UInt8 → ℕ
  | [] => 0
  | b :: bs => b.toNat + 256 * value bs

/-- The number in `k` bytes, read with its sign. -/
def signed (k n : ℕ) : ℤ := if 2 * n < 256 ^ k then n else n - 256 ^ k

-- Makes the equations once, for all of the proofs.
attribute [local simp] le value in
@[simp]
theorem length_le (k n : ℕ) : (le k n).length = k := by
  induction k generalizing n with
  | zero => rfl
  | succ k ih => rw [le, length_cons, ih]

theorem value_lt (bs : List UInt8) : value bs < 256 ^ bs.length := by
  induction bs with
  | nil => exact Nat.one_pos
  | cons b bs ih =>
    have hb := b.toNat_lt
    have hpow : 256 ^ (b :: bs).length = 256 * 256 ^ bs.length := by
      rw [length_cons, Nat.pow_succ, Nat.mul_comm]
    rw [hpow, value]
    omega

theorem value_le {k n : ℕ} (h : n < 256 ^ k) : value (le k n) = n := by
  induction k generalizing n with
  | zero => exact (Nat.lt_one_iff.1 h).symm
  | succ k ih =>
    have hdiv : n / 256 < 256 ^ k := Nat.div_lt_of_lt_mul (by rwa [Nat.pow_succ, Nat.mul_comm] at h)
    rw [le, value, ih hdiv, UInt8.toNat_ofNat']
    omega

theorem le_value (bs : List UInt8) : le bs.length (value bs) = bs := by
  induction bs with
  | nil => rfl
  | cons b bs ih =>
    have hb := b.toNat_lt
    have hlow : UInt8.ofNat (value (b :: bs)) = b := by
      apply UInt8.toNat_inj.1
      rw [UInt8.toNat_ofNat', value]
      omega
    have hdiv : value (b :: bs) / 256 = value bs := by
      rw [value]
      omega
    rw [length_cons, le, hlow, hdiv, ih]

theorem signed_of_lt {k n : ℕ} (h : 2 * n < 256 ^ k) : signed k n = n := if_pos h

/-- A number that is read without a sign is at most half of what its bytes can say. -/
theorem lt_of_signed {k n : ℕ} (hn : n < 256 ^ k) (h : 0 ≤ signed k n) : 2 * n < 256 ^ k ∧ signed k n = n := by
  unfold signed at h ⊢
  split
  · rename_i hlt
    exact ⟨hlt, rfl⟩
  · rename_i hlt
    rw [if_neg hlt] at h
    have hcast := Int.ofNat_lt.2 hn
    rw [Int.natCast_pow] at hcast
    exact absurd h (Int.not_le.2 (Int.sub_neg_of_lt hcast))

/-! ## Records -/

/-- The bytes from an offset on. -/
def slice (bs : List UInt8) (offset size : ℕ) : List UInt8 := (bs.drop offset).take size

/-- The fields of the given widths, from the front. -/
def cut : List ℕ → List UInt8 → List (List UInt8)
  | [], _ => []
  | n :: ns, bs => bs.take n :: cut ns (bs.drop n)

-- Makes the equations once, for all of the proofs.
attribute [local simp] cut in
@[simp]
theorem length_cut (ns : List ℕ) (bs : List UInt8) : (cut ns bs).length = ns.length := by
  induction ns generalizing bs with
  | nil => rfl
  | cons n ns ih => rw [cut, length_cons, length_cons, ih]

/-- The fields of a record. -/
theorem cut_flatten (fields : List (List UInt8)) (rest : List UInt8) :
    cut (fields.map List.length) (fields.flatten ++ rest) = fields := by
  induction fields with
  | nil => rfl
  | cons f fields ih =>
    rw [map_cons, cut, flatten_cons, append_assoc, take_left', drop_left', ih]
    · rfl
    · rfl

/-- A byte string that is long enough is the record of its fields, and a rest. -/
theorem flatten_cut {ns : List ℕ} {bs : List UInt8} (h : ns.sum ≤ bs.length) :
    (cut ns bs).flatten ++ bs.drop ns.sum = bs := by
  induction ns generalizing bs with
  | nil => rfl
  | cons n ns ih =>
    rw [sum_cons] at h
    have hrest : ns.sum ≤ (bs.drop n).length := by
      rw [length_drop]
      omega
    rw [cut, flatten_cons, sum_cons, ← drop_drop, append_assoc, ih hrest, take_append_drop]

/-- The fields of the given widths, each at its offset. -/
def slices (bs : List UInt8) : ℕ → List ℕ → List (List UInt8)
  | _, [] => []
  | offset, n :: ns => slice bs offset n :: slices bs (offset + n) ns

-- Makes the equations once, for all of the proofs.
attribute [local simp] slice slices in
/-- A field is found at its offset. -/
theorem cut_drop (ns : List ℕ) (bs : List UInt8) (offset : ℕ) : cut ns (bs.drop offset) = slices bs offset ns := by
  induction ns generalizing offset with
  | nil => rfl
  | cons n ns ih => rw [cut, slices, drop_drop, ih, slice]

/-- A field before the end is there in the whole string. -/
theorem slice_take {bs : List UInt8} {offset size n : ℕ} (h : offset + size ≤ n) :
    slice (bs.take n) offset size = slice bs offset size := by
  rw [slice, slice, drop_take, take_take, Nat.min_eq_left (by omega)]

theorem length_slice {bs : List UInt8} {offset size : ℕ} (h : offset + size ≤ bs.length) :
    (slice bs offset size).length = size := by
  rw [slice, length_take, length_drop]
  omega

/-- Words that follow one another. -/
theorem slices_replicate (bs : List UInt8) (offset k n : ℕ) :
    slices bs offset (List.replicate n k) = (List.range n).map fun i => slice bs (offset + k * i) k := by
  induction n generalizing offset with
  | zero => rfl
  | succ n ih =>
    rw [replicate_succ, slices, ih, range_succ_eq_map, map_cons, map_map]
    refine congrArg₂ _ rfl (map_congr_left fun i _ => ?_)
    rw [Function.comp, Nat.mul_succ, Nat.add_assoc, Nat.add_comm k]

/-- The widths of the fields that were cut from enough bytes. -/
theorem map_length_cut {ns : List ℕ} {bs : List UInt8} (h : ns.sum ≤ bs.length) :
    (cut ns bs).map List.length = ns := by
  induction ns generalizing bs with
  | nil => rfl
  | cons n ns ih =>
    rw [sum_cons] at h
    rw [cut, map_cons, length_take, Nat.min_eq_left (by omega), ih]
    rw [length_drop]
    omega

end Packing

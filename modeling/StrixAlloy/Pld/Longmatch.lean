import Mathlib.Algebra.Order.Group.Nat
import Mathlib.Data.List.GetD
import Mathlib.Tactic.Common

/-!
# The long-match proposer

`propose` of `longmatch64.h`, on words of 32 bits, and `propose` of the screen that froze its policy (`Policy`), on
integers and the set of ordinary ids. An access outside of an array has no result.
-/

namespace StrixAlloy.Pld.Longmatch

open List

/-! ## The C++ function -/

abbrev Word := BitVec 32

structure Result where
  ids : List Word
  longer_match : Word
  match_length : Word
  occurrence_index : Word
  checked_positions : Word

def read {α : Type} (a : List α) (i : Word) : Option α := a[i.toNat]?

def allowed (id : Word) (bitmap : List (BitVec 8)) (bit_count : Word) : Option Bool :=
  if 0 ≤ id.toInt ∧ id < bit_count then
    (read bitmap (id / 8)).map fun byte => byte &&& (1#32 <<< (id % 8)).setWidth 8 ≠ 0
  else some false

def same (suffix : List Word) (i k : Word) : Option Bool := do
  return (← read suffix i) = (← read suffix k)

/-- The three ids before `j` are the last three, and the one at `j` is the opening. -/
def opens (suffix : List Word) (n opening j : Word) : Option Bool := do
  if !(← same suffix (j - 3) (n - 3)) then return false
  if !(← same suffix (j - 2) (n - 2)) then return false
  if !(← same suffix (j - 1) (n - 1)) then return false
  return (← read suffix j) = opening

/-- The three ids from `j` are ordinary. -/
def ordinary (suffix : List Word) (bitmap : List (BitVec 8)) (bit_count j : Word) : Option Bool := do
  if !(← allowed (← read suffix j) bitmap bit_count) then return false
  if !(← allowed (← read suffix (j + 1)) bitmap bit_count) then return false
  allowed (← read suffix (j + 2)) bitmap bit_count

/-- The loop over `match`, with as many steps as are left for it. -/
def lengthen (suffix : List Word) (n j : Word) : ℕ → Word → Option Word
  | 0, _ => none
  | fuel + 1, m =>
    if m < j then do
      if ← same suffix (j - 1 - m) (n - 1 - m) then lengthen suffix n j fuel (m + 1) else return m
    else some m

structure Found where
  best_match : Word := 0
  best_index : Word := 0
  checked_positions : Word := 0

/-- The loop over `j`, with as many steps as are left for it. -/
def scan (suffix : List Word) (n opening : Word) (bitmap : List (BitVec 8)) (bit_count : Word) :
    ℕ → Word → Found → Option Found
  | 0, _, _ => none
  | fuel + 1, j, b =>
    if j ≤ n - 3 then do
      let b := { b with checked_positions := b.checked_positions + 1 }
      if !(← opens suffix n opening j) then scan suffix n opening bitmap bit_count fuel (j + 1) b
      else if !(← ordinary suffix bitmap bit_count j) then scan suffix n opening bitmap bit_count fuel (j + 1) b
      else
        let m ← lengthen suffix n j n.toNat 3
        scan suffix n opening bitmap bit_count fuel (j + 1)
          (if b.best_match < m ∨ m = b.best_match ∧ b.best_index < j then
            { b with best_match := m, best_index := j } else b)
    else some b

/-- Nothing is put out for an invalid geometry. -/
def propose (suffix : List Word) (n : Word) (stock : List Word) (bitmap : List (BitVec 8)) (bit_count : Word) :
    Option (Option Result) :=
  if 64 < n ∨ bit_count = 0 then some none
  else do
    let opening ← read stock 0
    let ids := [opening, ← read stock 1, ← read stock 2]
    let b ← if 6 ≤ n then scan suffix n opening bitmap bit_count n.toNat 3 {} else some {}
    if 3 < b.best_match then
      return some ⟨[opening, ← read suffix (b.best_index + 1), ← read suffix (b.best_index + 2)], 1, b.best_match,
        b.best_index, b.checked_positions⟩
    else return some ⟨ids, 0, 0, 0, b.checked_positions⟩

/-! ## The policy -/

namespace Policy

structure Meta where
  reason : String
  matched : Option ℕ := none
  index : Option ℕ := none
  checks : ℕ

/-- The loop over `match`, of which there are at most as many steps as given. -/
def lengthen (h : List ℤ) (j : ℕ) : ℕ → ℕ → ℕ
  | 0, m => m
  | fuel + 1, m => if m < j ∧ h[j - 1 - m]? = h[h.length - 1 - m]? then lengthen h j fuel (m + 1) else m

structure State where
  /-- The match and the index of the best block, and the block. -/
  best : Option ((ℕ × ℕ) × List ℤ) := none
  checks : ℕ := 0

/-- `rank > best[0]`. -/
def above (m j : ℕ) (best : (ℕ × ℕ) × List ℤ) : Bool := best.1.1 < m || (best.1.1 = m && best.1.2 < j)

def visit (allowed : ℤ → Bool) (h stock : List ℤ) (s : State) (j : ℕ) : State :=
  let s := { s with checks := s.checks + 1 }
  if (h.drop (j - 3)).take 3 ≠ h.drop (h.length - 3) ∨ h[j]? ≠ stock[0]? then s
  else
    let block := (h.drop j).take stock.length
    if block.any fun x => !allowed x then s
    else
      let m := lengthen h j j 3
      if s.best.all (above m j) then { s with best := some ((m, j), block) } else s

def propose (allowed : ℤ → Bool) (h stock : List ℤ) : List ℤ × Meta :=
  if (stock.length ≠ 2 ∧ stock.length ≠ 3) ∨ h.length < 6 then (stock, { reason := "shape", checks := 0 })
  else
    let s := (List.range' 3 (h.length - stock.length + 1 - 3)).foldl (visit allowed h stock) {}
    match s.best with
    | some ((m, j), block) =>
      if m ≤ 3 then (stock, { reason := "no_longer_compatible_match", checks := s.checks })
      else (block, ⟨"longer_compatible_match", some m, some j, s.checks⟩)
    | none => (stock, { reason := "no_longer_compatible_match", checks := s.checks })

end Policy

/-! ## What the policy selects -/

/-- The `m` ids before `j` are the last `m`. -/
def Occurs (h : List ℤ) (j m : ℕ) : Prop := m ≤ j ∧ ∀ k < m, h[j - 1 - k]? = h[h.length - 1 - k]?

instance (h : List ℤ) (j m : ℕ) : Decidable (Occurs h j m) :=
  inferInstanceAs (Decidable (m ≤ j ∧ ∀ k < m, h[j - 1 - k]? = h[h.length - 1 - k]?))

/-- The three ids from `j` may stand in the place of the stock. -/
def Compatible (allowed : ℤ → Bool) (h : List ℤ) (opening : ℤ) (j : ℕ) : Prop :=
  j + 3 ≤ h.length ∧ h[j]? = some opening ∧ ∀ x ∈ (h.drop j).take 3, allowed x

/-- The longest occurrence in front of three compatible ids at a position below `e`, and the newest of these. -/
def Best (allowed : ℤ → Bool) (h : List ℤ) (opening : ℤ) (e : ℕ) : Option ((ℕ × ℕ) × List ℤ) → Prop
  | none => ∀ j < e, Compatible allowed h opening j → ¬Occurs h j 3
  | some ((m, j), block) => 3 ≤ m ∧ j < e ∧ Occurs h j m ∧ Compatible allowed h opening j ∧
      block = (h.drop j).take 3 ∧ ∀ j' < e, Compatible allowed h opening j' → Occurs h j' 3 →
        ∀ m', Occurs h j' m' → m' < m ∨ m' = m ∧ j' ≤ j

section

variable {allowed : ℤ → Bool} {h : List ℤ} {opening : ℤ} {j : ℕ}

theorem Occurs.mono {m m' : ℕ} (ho : Occurs h j m) (hm : m' ≤ m) : Occurs h j m' :=
  ⟨hm.trans ho.1, fun k hk => ho.2 k (hk.trans_le hm)⟩

theorem occurs_three (hj : 3 ≤ j) (hn : j + 3 ≤ h.length) :
    (h.drop (j - 3)).take 3 = h.drop (h.length - 3) ↔ Occurs h j 3 := by
  constructor
  · intro he
    refine ⟨hj, fun k hk => ?_⟩
    have hget := congrArg (·[2 - k]?) he
    simp only [List.getElem?_take, List.getElem?_drop, if_pos (show 2 - k < 3 by omega)] at hget
    rwa [show j - 3 + (2 - k) = j - 1 - k by omega,
      show h.length - 3 + (2 - k) = h.length - 1 - k by omega] at hget
  · intro ho
    refine ext_getElem? fun i => ?_
    rw [List.getElem?_take, List.getElem?_drop, List.getElem?_drop]
    split_ifs with hi
    · have hget := ho.2 (2 - i) (by omega)
      rwa [show j - 1 - (2 - i) = j - 3 + i by omega,
        show h.length - 1 - (2 - i) = h.length - 3 + i by omega] at hget
    · exact (List.getElem?_eq_none (by omega)).symm

/-- The loop ends with the longest match. -/
theorem lengthen_spec : ∀ fuel m : ℕ, j - m ≤ fuel → Occurs h j m → Occurs h j (Policy.lengthen h j fuel m) ∧
    m ≤ Policy.lengthen h j fuel m ∧ ∀ m', Occurs h j m' → m' ≤ Policy.lengthen h j fuel m
  | 0, m, hfuel, ho => ⟨ho, le_rfl, fun m' ho' => ho'.1.trans (by simp only [Policy.lengthen]; omega)⟩
  | fuel + 1, m, hfuel, ho => by
    rw [Policy.lengthen]
    split_ifs with hm
    · have hnext : Occurs h j (m + 1) := by
        refine ⟨hm.1, fun k hk => ?_⟩
        rcases Nat.lt_succ_iff_lt_or_eq.1 hk with hk | rfl
        · exact ho.2 k hk
        · exact hm.2
      obtain ⟨h1, h2, h3⟩ := lengthen_spec fuel (m + 1) (by omega) hnext
      exact ⟨h1, by omega, h3⟩
    · refine ⟨ho, le_rfl, fun m' ho' => ?_⟩
      by_contra hlt
      exact hm ⟨by have := ho'.1; omega, ho'.2 m (by omega)⟩

/-- One position. -/
theorem best_visit {stock : List ℤ} (hstock : stock.length = 3) (hopening : stock[0]? = some opening) (hj : 3 ≤ j)
    (hn : j + 3 ≤ h.length) {s : Policy.State} (hs : Best allowed h opening j s.best) :
    Best allowed h opening (j + 1) (Policy.visit allowed h stock s j).best := by
  have hkeep : ¬(Compatible allowed h opening j ∧ Occurs h j 3) → Best allowed h opening (j + 1) s.best := by
    intro hnot
    have hlt : ∀ j' < j + 1, Compatible allowed h opening j' → Occurs h j' 3 → j' < j := by
      intro j' hj' hc ho
      rcases Nat.lt_succ_iff_lt_or_eq.1 hj' with hj' | rfl
      · exact hj'
      · exact absurd ⟨hc, ho⟩ hnot
    match hbest : s.best, hs with
    | none, hs => exact fun j' hj' hc ho => hs j' (hlt j' hj' hc ho) hc ho
    | some ((m, i), block), ⟨h1, h2, h3, h4, h5, h6⟩ =>
      exact ⟨h1, by omega, h3, h4, h5, fun j' hj' hc ho => h6 j' (hlt j' hj' hc ho) hc ho⟩
  rw [Policy.visit]
  dsimp only
  split_ifs with hfirst hblock hbest
  · refine hkeep fun ⟨hc, ho⟩ => ?_
    rcases hfirst with hne | hne
    · exact hne ((occurs_three hj hn).2 ho)
    · exact hne (hc.2.1.trans hopening.symm)
  · refine hkeep fun ⟨hc, _⟩ => ?_
    rw [hstock, any_eq_true] at hblock
    obtain ⟨x, hx, hnot⟩ := hblock
    rw [hc.2.2 x hx] at hnot
    cases hnot
  all_goals
    rw [not_or, not_not, not_not] at hfirst
    rw [hstock, Bool.not_eq_true, any_eq_false] at hblock
    have hc : Compatible allowed h opening j :=
      ⟨hn, hfirst.2.trans hopening, fun x hx => by simpa using hblock x hx⟩
    have ho := (occurs_three hj hn).1 hfirst.1
    obtain ⟨hlong, hthree, hmost⟩ := lengthen_spec j 3 (by omega) ho
  · -- the new position is the best
    refine ⟨hthree, by omega, hlong, hc, by rw [hstock], fun j' hj' hc' ho' m' hm' => ?_⟩
    rcases Nat.lt_succ_iff_lt_or_eq.1 hj' with hj' | rfl
    · match s.best, hs, hbest with
      | none, hs, _ => exact absurd ho' (hs j' hj' hc')
      | some ((m, i), block), ⟨_, _, _, _, _, h6⟩, hbest =>
        have hle := h6 j' hj' hc' ho' m' hm'
        simp only [Option.all_some, Policy.above, Bool.or_eq_true, Bool.and_eq_true, decide_eq_true_eq] at hbest
        omega
    · have := hmost m' hm'
      omega
  · -- an earlier one is longer
    match s.best, hs, hbest with
    | none, _, hbest => exact absurd rfl hbest
    | some ((m, i), block), ⟨h1, h2, h3, h4, h5, h6⟩, hbest =>
      refine ⟨h1, by omega, h3, h4, h5, fun j' hj' hc' ho' m' hm' => ?_⟩
      rcases Nat.lt_succ_iff_lt_or_eq.1 hj' with hj' | rfl
      · exact h6 j' hj' hc' ho' m' hm'
      · have hle := hmost m' hm'
        simp only [Option.all_some, Policy.above, Bool.or_eq_true, Bool.and_eq_true, decide_eq_true_eq] at hbest
        omega

/-- All positions. -/
theorem best_foldl {stock : List ℤ} (hstock : stock.length = 3) (hopening : stock[0]? = some opening) :
    ∀ k, k + 5 ≤ h.length → Best allowed h opening (3 + k)
      ((List.range' 3 k).foldl (Policy.visit allowed h stock) {}).best
  | 0, _ => fun j hj _ ho => by have := ho.1; omega
  | k + 1, hk => by
    rw [List.range'_concat, foldl_append, one_mul]
    show Best allowed h opening (3 + k + 1) _
    exact best_visit hstock hopening (by omega) (by omega) (best_foldl hstock hopening k (by omega))

end

/-- The bitmap of the ordinary ids. -/
def Encodes (allowed : ℤ → Bool) (bitmap : List (BitVec 8)) (bit_count : Word) : Prop :=
  bit_count ≠ 0 ∧ bit_count.toNat ≤ 8 * bitmap.length ∧
    ∀ id : ℤ, allowed id ↔ 0 ≤ id ∧ id < bit_count.toNat ∧ (bitmap.getD (id.toNat / 8) 0).getLsbD (id.toNat % 8)

/-! ## The function follows the policy -/

theorem toNat_ofNat_sub {j k : ℕ} (hj : j ≤ 64) (hk : k ≤ j) :
    (BitVec.ofNat 32 j - BitVec.ofNat 32 k).toNat = j - k := by
  rw [BitVec.toNat_sub, BitVec.toNat_ofNat, BitVec.toNat_ofNat]
  omega

theorem toNat_ofNat_of_le {j : ℕ} (hj : j ≤ 64) : (BitVec.ofNat 32 j).toNat = j :=
  Nat.mod_eq_of_lt (by omega)

theorem ofNat_add_one (j : ℕ) : BitVec.ofNat 32 j + 1 = BitVec.ofNat 32 (j + 1) :=
  (BitVec.ofNat_add j 1).symm

/-- A bit of the bitmap. -/
theorem allowed_eq {allowed : ℤ → Bool} {bitmap : List (BitVec 8)} {bit_count : Word}
    (he : Encodes allowed bitmap bit_count) (id : Word) :
    Longmatch.allowed id bitmap bit_count = some (allowed id.toInt) := by
  obtain ⟨-, hlen, hbits⟩ := he
  unfold Longmatch.allowed
  split_ifs with hrange
  · obtain ⟨hpos, hlt⟩ := hrange
    have hid : id.toInt = id.toNat := by
      rw [BitVec.toInt_eq_toNat_cond] at hpos ⊢
      split_ifs at hpos ⊢ with h
      · rfl
      · have := id.isLt
        omega
    have hlt : id.toNat < bit_count.toNat := hlt
    have hdiv : (id / 8).toNat = id.toNat / 8 := BitVec.toNat_udiv
    have hmod : (id % 8).toNat = id.toNat % 8 := BitVec.toNat_umod
    have hmask : (1#32 <<< (id % 8)).setWidth 8 = BitVec.twoPow 8 (id.toNat % 8) := by
      have hall : ∀ k < 8, (1#32 <<< k).setWidth 8 = BitVec.twoPow 8 k := by decide
      rw [BitVec.shiftLeft_eq', hmod]
      exact hall _ (Nat.mod_lt _ (by decide))
    have hne : BitVec.twoPow 8 (id.toNat % 8) ≠ 0 := by
      have hall : ∀ k < 8, BitVec.twoPow 8 k ≠ 0 := by decide
      exact hall _ (Nat.mod_lt _ (by decide))
    have hin : id.toNat / 8 < bitmap.length := by omega
    have hbit := hbits id.toInt
    rw [hid, Int.toNat_natCast, getD_eq_getElem _ _ hin] at hbit
    rw [read, hdiv, List.getElem?_eq_getElem hin, Option.map_some, hmask, BitVec.and_twoPow, hid]
    refine congrArg some ?_
    rw [Bool.eq_iff_iff, hbit, decide_eq_true_eq]
    cases bitmap[id.toNat / 8].getLsbD (id.toNat % 8) with
    | true => exact ⟨fun _ => ⟨Int.natCast_nonneg _, Int.ofNat_lt.2 hlt, rfl⟩, fun _ => hne⟩
    | false => exact ⟨fun h => absurd rfl h, fun h => nomatch h.2.2⟩
  · refine congrArg some (Eq.symm ?_)
    rw [Bool.eq_false_iff]
    intro h
    obtain ⟨hpos, hlt, -⟩ := (hbits _).1 h
    refine hrange ⟨hpos, ?_⟩
    rw [BitVec.toInt_eq_toNat_cond] at hpos hlt
    show id.toNat < bit_count.toNat
    split_ifs at hpos hlt
    · omega
    · have := id.isLt
      omega

section

variable {suffix : List Word} {j : ℕ}

theorem same_eq {i k : Word} (hi : i.toNat < suffix.length) (hk : k.toNat < suffix.length) :
    same suffix i k = some (decide ((suffix.map BitVec.toInt)[i.toNat]? = (suffix.map BitVec.toInt)[k.toNat]?)) := by
  rw [same, read, read, List.getElem?_eq_getElem hi, List.getElem?_eq_getElem hk, List.getElem?_map,
    List.getElem?_map, List.getElem?_eq_getElem hi, List.getElem?_eq_getElem hk]
  simp [BitVec.toInt_inj]

theorem take_three (hn : j + 3 ≤ suffix.length) : ((suffix.map BitVec.toInt).drop j).take 3 =
    [suffix[j].toInt, suffix[j + 1].toInt, suffix[j + 2].toInt] := by
  rw [drop_eq_getElem_cons (by rw [length_map]; omega),
    drop_eq_getElem_cons (by rw [length_map]; omega),
    drop_eq_getElem_cons (by rw [length_map]; omega)]
  simp only [take_succ_cons, take_zero, getElem_map, Nat.add_assoc]

variable (hlen : suffix.length ≤ 64)
include hlen

theorem read_add {k : ℕ} (h : j + k < suffix.length) : read suffix (BitVec.ofNat 32 (j + k)) = some suffix[j + k] := by
  rw [read, toNat_ofNat_of_le (by omega), List.getElem?_eq_getElem h]

theorem opens_eq (opening : Word) (hj : 3 ≤ j) (hn : j + 3 ≤ suffix.length) :
    opens suffix (BitVec.ofNat 32 suffix.length) opening (BitVec.ofNat 32 j) =
      some (decide (Occurs (suffix.map BitVec.toInt) j 3 ∧ (suffix.map BitVec.toInt)[j]? = some opening.toInt)) := by
  have hsame : ∀ k, k < 3 → same suffix (BitVec.ofNat 32 j - BitVec.ofNat 32 (k + 1))
      (BitVec.ofNat 32 suffix.length - BitVec.ofNat 32 (k + 1)) = some (decide
        ((suffix.map BitVec.toInt)[j - 1 - k]? = (suffix.map BitVec.toInt)[suffix.length - 1 - k]?)) := by
    intro k hk
    have hi := toNat_ofNat_sub (j := j) (k := k + 1) (by omega) (by omega)
    have hl := toNat_ofNat_sub (k := k + 1) hlen (by omega)
    rw [same_eq (by omega) (by omega), hi, hl, Nat.sub_sub, Nat.sub_sub, Nat.add_comm 1 k]
  have hin : j < suffix.length := by omega
  have hread : read suffix (BitVec.ofNat 32 j) = some suffix[j] := read_add hlen (k := 0) hin
  have hocc : Occurs (suffix.map BitVec.toInt) j 3 ↔ ∀ k, k < 3 →
      (suffix.map BitVec.toInt)[j - 1 - k]? = (suffix.map BitVec.toInt)[suffix.length - 1 - k]? := by
    rw [Occurs, length_map]
    exact ⟨And.right, fun h => ⟨hj, h⟩⟩
  have hget : (suffix.map BitVec.toInt)[j]? = some suffix[j].toInt := by
    rw [List.getElem?_map, List.getElem?_eq_getElem hin, Option.map_some]
  have h3 : same suffix (BitVec.ofNat 32 j - 3) (BitVec.ofNat 32 suffix.length - 3) = _ := hsame 2 (by decide)
  have h2 : same suffix (BitVec.ofNat 32 j - 2) (BitVec.ofNat 32 suffix.length - 2) = _ := hsame 1 (by decide)
  have h1 : same suffix (BitVec.ofNat 32 j - 1) (BitVec.ofNat 32 suffix.length - 1) = _ := hsame 0 (by decide)
  simp only [Nat.forall_lt_succ_right, Nat.not_lt_zero, false_implies, implies_true, true_and] at hocc
  simp only [opens, h1, h2, h3, hread, Option.pure_def, Option.bind_eq_bind, Option.bind_some, hocc, hget,
    Option.some.injEq, BitVec.toInt_inj]
  grind

theorem ordinary_eq {allowed : ℤ → Bool} {bitmap : List (BitVec 8)} {bit_count : Word}
    (he : Encodes allowed bitmap bit_count) (hn : j + 3 ≤ suffix.length) :
    ordinary suffix bitmap bit_count (BitVec.ofNat 32 j) =
      some ((((suffix.map BitVec.toInt).drop j).take 3).all allowed) := by
  have h0 : read suffix (BitVec.ofNat 32 j) = _ := read_add hlen (k := 0) (by omega)
  have h1 : read suffix (BitVec.ofNat 32 j + 1) = _ := BitVec.ofNat_add j 1 ▸ read_add hlen (k := 1) (by omega)
  have h2 : read suffix (BitVec.ofNat 32 j + 2) = _ := BitVec.ofNat_add j 2 ▸ read_add hlen (k := 2) (by omega)
  simp only [ordinary, h0, h1, h2, allowed_eq he, Option.bind_eq_bind, Option.bind_some, take_three hn,
    all_cons, all_nil, Bool.and_true]
  grind

/-- The loop over `match` is that of the policy. -/
theorem lengthen_eq (hn : j + 3 ≤ suffix.length) : ∀ (fuel fuel' m : ℕ), j - m < fuel → j - m ≤ fuel' → m ≤ j →
    lengthen suffix (BitVec.ofNat 32 suffix.length) (BitVec.ofNat 32 j) fuel (BitVec.ofNat 32 m) =
      some (BitVec.ofNat 32 (Policy.lengthen (suffix.map BitVec.toInt) j fuel' m))
  | 0, _, _, hfuel, _, _ => absurd hfuel (Nat.not_lt_zero _)
  | fuel + 1, fuel', m, hfuel, hfuel', hm => by
    have hlt : BitVec.ofNat 32 m < BitVec.ofNat 32 j ↔ m < j := by
      rw [BitVec.lt_def, toNat_ofNat_of_le (by omega), toNat_ofNat_of_le (by omega)]
    rw [lengthen]
    by_cases hmj : m < j
    · obtain ⟨fuel', rfl⟩ : ∃ k, fuel' = k + 1 := ⟨fuel' - 1, by omega⟩
      have hsub : ∀ i, i ≤ 64 → m < i → (BitVec.ofNat 32 i - 1 - BitVec.ofNat 32 m).toNat = i - 1 - m := by
        intro i hi hmi
        have hone : BitVec.ofNat 32 i - 1 = BitVec.ofNat 32 (i - 1) := by
          refine BitVec.eq_of_toNat_eq ?_
          rw [toNat_ofNat_of_le (by omega)]
          exact toNat_ofNat_sub (k := 1) hi (by omega)
        rw [hone, toNat_ofNat_sub (by omega) (by omega)]
      rw [if_pos (hlt.2 hmj), same_eq (by rw [hsub j (by omega) hmj]; omega) (by rw [hsub _ hlen (by omega)]; omega),
        hsub j (by omega) hmj, hsub _ hlen (by omega), Policy.lengthen, length_map]
      simp only [Option.bind_eq_bind, Option.bind_some, decide_eq_true_eq, hmj, true_and]
      split_ifs
      · rw [ofNat_add_one]
        exact lengthen_eq hn fuel fuel' (m + 1) (by omega) (by omega) (by omega)
      · rfl
    · rw [if_neg (hlt.not.2 hmj)]
      cases fuel' with
      | zero => rfl
      | succ => rw [Policy.lengthen, if_neg fun h => hmj h.1]

omit hlen

/-- The best position so far is that of the policy. -/
def Follows (b : Found) (s : Policy.State) : Prop :=
  b.checked_positions = BitVec.ofNat 32 s.checks ∧
    match s.best with
    | none => b.best_match = 0 ∧ b.best_index = 0
    | some ((m, i), _) => b.best_match = BitVec.ofNat 32 m ∧ b.best_index = BitVec.ofNat 32 i ∧ m ≤ 64 ∧ i ≤ 64

theorem lengthen_le (h : List ℤ) (hj : 3 ≤ j) : Policy.lengthen h j j 3 ≤ j := by
  have hle : ∀ fuel m : ℕ, m ≤ j → Policy.lengthen h j fuel m ≤ j := by
    intro fuel
    induction fuel with
    | zero => exact fun m hm => hm
    | succ fuel ih =>
      intro m hm
      rw [Policy.lengthen]
      split_ifs with hlt
      · exact ih _ hlt.1
      · exact hm
  exact hle j 3 hj

/-- The two compare the same ranks. -/
theorem Follows.offer {b : Found} {s : Policy.State} (hf : Follows b s) {m : ℕ} (hthree : 3 ≤ m) (hm : m ≤ 64)
    (hj : j ≤ 64) (block : List ℤ) :
    Follows (if b.best_match < BitVec.ofNat 32 m ∨ BitVec.ofNat 32 m = b.best_match ∧ b.best_index < BitVec.ofNat 32 j
        then { b with best_match := BitVec.ofNat 32 m, best_index := BitVec.ofNat 32 j } else b)
      (if s.best.all (Policy.above m j) then { s with best := some ((m, j), block) } else s) := by
  obtain ⟨hchecks, hbest⟩ := hf
  have hrank : (b.best_match < BitVec.ofNat 32 m ∨ BitVec.ofNat 32 m = b.best_match ∧
      b.best_index < BitVec.ofNat 32 j) ↔ s.best.all (Policy.above m j) := by
    match hs : s.best, hbest with
    | none, ⟨hmatch, _⟩ =>
      refine ⟨fun _ => rfl, fun _ => .inl ?_⟩
      rw [hmatch, BitVec.lt_def, toNat_ofNat_of_le hm]
      exact Nat.lt_of_lt_of_le (by decide) hthree
    | some ((m', i), _), ⟨hmatch, hindex, hm', hi⟩ =>
      rw [hmatch, hindex, BitVec.lt_def, BitVec.lt_def, ← BitVec.toNat_inj, toNat_ofNat_of_le hm,
        toNat_ofNat_of_le hm', toNat_ofNat_of_le hj, toNat_ofNat_of_le hi]
      simp only [Option.all_some, Policy.above, Bool.or_eq_true, Bool.and_eq_true, decide_eq_true_eq]
      omega
  by_cases hall : s.best.all (Policy.above m j)
  · rw [if_pos (hrank.2 hall), if_pos hall]
    exact ⟨hchecks, rfl, rfl, hm, hj⟩
  · rw [if_neg (hrank.not.2 hall), if_neg hall]
    exact ⟨hchecks, hbest⟩

include hlen

variable {allowed : ℤ → Bool} {bitmap : List (BitVec 8)} {bit_count : Word} (he : Encodes allowed bitmap bit_count)
include he

/-- One position of the loop. -/
theorem scan_step {opening : Word} {stock : List ℤ} (hstock : stock.length = 3)
    (hopening : stock[0]? = some opening.toInt) (hj : 3 ≤ j) (hn : j + 3 ≤ suffix.length) {b : Found}
    {s : Policy.State} (hf : Follows b s) (fuel : ℕ) :
    ∃ b', Follows b' (Policy.visit allowed (suffix.map BitVec.toInt) stock s j) ∧
      scan suffix (BitVec.ofNat 32 suffix.length) opening bitmap bit_count (fuel + 1) (BitVec.ofNat 32 j) b =
        scan suffix (BitVec.ofNat 32 suffix.length) opening bitmap bit_count fuel (BitVec.ofNat 32 (j + 1)) b' := by
  have hle : BitVec.ofNat 32 j ≤ BitVec.ofNat 32 suffix.length - 3 := by
    have hsub : (BitVec.ofNat 32 suffix.length - 3).toNat = _ := toNat_ofNat_sub (k := 3) hlen (by omega)
    rw [BitVec.le_def, toNat_ofNat_of_le (by omega), hsub]
    omega
  have hocc := occurs_three (h := suffix.map BitVec.toInt) hj (by rw [length_map]; omega)
  have hlong : lengthen suffix (BitVec.ofNat 32 suffix.length) (BitVec.ofNat 32 j)
      (BitVec.ofNat 32 suffix.length).toNat 3 = _ :=
    lengthen_eq (m := 3) hlen hn _ j (by rw [toNat_ofNat_of_le hlen]; omega) (by omega) hj
  have hm := lengthen_le (suffix.map BitVec.toInt) hj
  have hskip : Follows { b with checked_positions := b.checked_positions + 1 }
      { s with checks := s.checks + 1 } := ⟨by rw [hf.1, ofNat_add_one], hf.2⟩
  rw [scan, if_pos hle, opens_eq hlen opening hj hn, ordinary_eq hlen he hn, hlong, ofNat_add_one, Policy.visit]
  simp only [Option.bind_eq_bind, Option.bind_some, hstock, hopening, ne_eq, hocc, ← not_and_or,
    Bool.not_eq_true', decide_eq_false_iff_not]
  by_cases hfirst : Occurs (suffix.map BitVec.toInt) j 3 ∧ (suffix.map BitVec.toInt)[j]? = some opening.toInt
  · rw [if_neg (not_not.2 hfirst), if_neg (not_not.2 hfirst)]
    have hall := all_eq_not_any_not (l := ((suffix.map BitVec.toInt).drop j).take 3) (p := allowed)
    cases hany : (((suffix.map BitVec.toInt).drop j).take 3).any fun x => !allowed x with
    | true =>
      rw [hany, Bool.not_true] at hall
      rw [if_pos rfl, if_pos hall]
      exact ⟨_, hskip, rfl⟩
    | false =>
      rw [hany, Bool.not_false] at hall
      rw [if_neg Bool.false_ne_true, hall, if_neg (nofun : ¬true = false)]
      obtain ⟨-, hthree, -⟩ := lengthen_spec j 3 (by omega) hfirst.1
      exact ⟨_, hskip.offer hthree (by omega) (by omega) _, rfl⟩
  · rw [if_pos hfirst, if_pos hfirst]
    exact ⟨_, hskip, rfl⟩

/-- The loop over `j`. -/
theorem scan_eq {opening : Word} {stock : List ℤ} (hstock : stock.length = 3)
    (hopening : stock[0]? = some opening.toInt) : ∀ (fuel j : ℕ) {b : Found} {s : Policy.State}, 3 ≤ j →
    j + 2 ≤ suffix.length → suffix.length < fuel + j + 2 → Follows b s → ∃ b',
      scan suffix (BitVec.ofNat 32 suffix.length) opening bitmap bit_count fuel (BitVec.ofNat 32 j) b = some b' ∧
        Follows b' ((List.range' j (suffix.length - 2 - j)).foldl
          (Policy.visit allowed (suffix.map BitVec.toInt) stock) s)
  | 0, j, _, _, hj, hn, hfuel, _ => by omega
  | fuel + 1, j, b, s, hj, hn, hfuel, hf => by
    by_cases hlast : j + 3 ≤ suffix.length
    · obtain ⟨b₁, hf₁, hscan⟩ := scan_step hlen he hstock hopening hj hlast hf fuel
      obtain ⟨b', hb', hf'⟩ := scan_eq hstock hopening fuel (j + 1) (by omega) (by omega) (by omega) hf₁
      refine ⟨b', hscan.trans hb', ?_⟩
      rw [show suffix.length - 2 - j = suffix.length - 2 - (j + 1) + 1 by omega, List.range'_succ, foldl_cons]
      exact hf'
    · have hsub : (BitVec.ofNat 32 suffix.length - 3).toNat = _ := toNat_ofNat_sub (k := 3) hlen (by omega)
      refine ⟨b, ?_, ?_⟩
      · rw [scan, if_neg]
        rw [BitVec.le_def, toNat_ofNat_of_le (by omega), hsub]
        omega
      · rw [show suffix.length - 2 - j = 0 by omega]
        exact hf

omit hlen he in
theorem checks_foldl (h stock : List ℤ) (l : List ℕ) : ∀ s, (l.foldl (Policy.visit allowed h stock) s).checks =
    s.checks + l.length := by
  have hvisit : ∀ s j, (Policy.visit allowed h stock s j).checks = s.checks + 1 := by
    intro s j
    unfold Policy.visit
    dsimp only
    split_ifs <;> rfl
  induction l with
  | nil => exact fun _ => rfl
  | cons j l ih =>
    intro s
    rw [foldl_cons, ih, hvisit, length_cons]
    omega

end

/-! ## The answers -/

/-- The ids, whether there is a longer match, its length and index, and the positions that were checked. -/
def Result.answer (r : Result) : List ℤ × Bool × ℕ × ℕ × ℕ :=
  (r.ids.map BitVec.toInt, r.longer_match = 1, r.match_length.toNat, r.occurrence_index.toNat,
    r.checked_positions.toNat)

/-- The same of the policy, which has no length and no index without a longer match. -/
def Policy.answer (p : List ℤ × Policy.Meta) : List ℤ × Bool × ℕ × ℕ × ℕ :=
  (p.1, p.2.reason = "longer_compatible_match", p.2.matched.getD 0, p.2.index.getD 0, p.2.checks)

/-- For every suffix of at most 64 ids, every stock of three and every set of ordinary ids that the bitmap encodes,
all accesses are in range and the answer is that of the policy. The opening is kept, and other ids than the stock are
the continuation of the longest compatible occurrence of the last ids, which is longer than three, and the newest
such one. -/
theorem propose_agrees (suffix : List Word) (hlen : suffix.length ≤ 64) (a b c : Word) (allowed : ℤ → Bool)
    (bitmap : List (BitVec 8)) (bit_count : Word) (he : Encodes allowed bitmap bit_count) :
    ∃ r, propose suffix (BitVec.ofNat 32 suffix.length) [a, b, c] bitmap bit_count = some (some r) ∧
      r.answer = Policy.answer (Policy.propose allowed (suffix.map BitVec.toInt) ([a, b, c].map BitVec.toInt)) ∧
      r.ids.head? = some a ∧
      (r.ids = [a, b, c] ∨ ∃ j m, 3 < m ∧ Occurs (suffix.map BitVec.toInt) j m ∧
        Compatible allowed (suffix.map BitVec.toInt) a.toInt j ∧
        r.ids.map BitVec.toInt = ((suffix.map BitVec.toInt).drop j).take 3 ∧
        ∀ j' m', Occurs (suffix.map BitVec.toInt) j' m' →
          Compatible allowed (suffix.map BitVec.toInt) a.toInt j' → m' < m ∨ m' = m ∧ j' ≤ j) := by
  have hgeometry : ¬(64 < BitVec.ofNat 32 suffix.length ∨ bit_count = 0) := by
    rw [not_or, BitVec.lt_def, toNat_ofNat_of_le hlen]
    exact ⟨Nat.not_lt.2 hlen, he.1⟩
  have hsix : 6 ≤ BitVec.ofNat 32 suffix.length ↔ 6 ≤ suffix.length := by
    rw [BitVec.le_def, toNat_ofNat_of_le hlen]
    rfl
  by_cases hn : 6 ≤ suffix.length
  · have hstock : ([a, b, c].map BitVec.toInt).length = 3 := rfl
    have hopening : ([a, b, c].map BitVec.toInt)[0]? = some a.toInt := rfl
    obtain ⟨best, hscan, hchecked, hfound⟩ := scan_eq hlen he hstock hopening
      suffix.length 3 le_rfl (by omega) (by omega) (b := {}) (s := {}) ⟨rfl, rfl, rfl⟩
    have hscan : scan suffix (BitVec.ofNat 32 suffix.length) a bitmap bit_count
      (BitVec.ofNat 32 suffix.length).toNat 3 {} = some best := by rw [toNat_ofNat_of_le hlen]; exact hscan
    have hcount : suffix.length - 2 - 3 = suffix.length - 5 := by omega
    rw [hcount] at hchecked hfound
    have hbest : Best allowed (suffix.map BitVec.toInt) a.toInt _ _ :=
      best_foldl hstock hopening (suffix.length - 5) (by rw [length_map]; omega)
    have hchecks := @checks_foldl allowed (suffix.map BitVec.toInt) ([a, b, c].map BitVec.toInt)
      (List.range' 3 (suffix.length - 5)) {}
    rw [length_range'] at hchecks
    simp only [Policy.propose, length_map, length_cons, length_nil]
    rw [if_neg (by omega), show suffix.length - (0 + 1 + 1 + 1) + 1 - 3 = suffix.length - 5 by omega]
    generalize (List.range' 3 (suffix.length - 5)).foldl (Policy.visit allowed (suffix.map BitVec.toInt)
      ([a, b, c].map BitVec.toInt)) {} = s at hchecked hfound hbest hchecks ⊢
    have hchecks : best.checked_positions.toNat = s.checks := by
      rw [hchecked, BitVec.toNat_ofNat, hchecks.trans (Nat.zero_add _)]
      omega
    have hpropose : propose suffix (BitVec.ofNat 32 suffix.length) [a, b, c] bitmap bit_count =
        if 3 < best.best_match then
          (read suffix (best.best_index + 1)).bind fun x => (read suffix (best.best_index + 2)).bind fun y =>
            some (some ⟨[a, x, y], 1, best.best_match, best.best_index, best.checked_positions⟩)
        else some (some ⟨[a, b, c], 0, 0, 0, best.checked_positions⟩) := by
      rw [propose, if_neg hgeometry]
      show (if 6 ≤ BitVec.ofNat 32 suffix.length then _ else _) = _
      rw [if_pos (hsix.2 hn), hscan]
      rfl
    rw [hpropose]
    match hs : s.best, hbest, hfound with
    | none, _, ⟨hmatch, _⟩ =>
      refine ⟨⟨[a, b, c], 0, 0, 0, best.checked_positions⟩, ?_, ?_, rfl, .inl rfl⟩
      · rw [hmatch]
        rfl
      · simp only [Result.answer, Policy.answer, hchecks]
        rfl
    | some ((m, j), block), ⟨hm, hj, ho, hc, hblock, hmost⟩, ⟨hmatch, hindex, hm', hj'⟩ =>
      have hlonger : 3 < best.best_match ↔ 3 < m := by
        rw [hmatch, BitVec.lt_def, toNat_ofNat_of_le hm']
        rfl
      by_cases hthree : 3 < m
      · have hin := hc.1
        rw [length_map] at hin
        have htake := take_three hin
        have hopening : suffix[j].toInt = a.toInt := by
          have hget := hc.2.1
          rw [List.getElem?_map, List.getElem?_eq_getElem (by omega), Option.map_some] at hget
          exact Option.some.inj hget
        refine ⟨⟨[a, suffix[j + 1], suffix[j + 2]], 1, best.best_match, best.best_index, best.checked_positions⟩,
          ?_, ?_, rfl, .inr ⟨j, m, hthree, ho, hc, ?_, fun j' m' ho' hc' => ?_⟩⟩
        · have h1 : read suffix (BitVec.ofNat 32 j + 1) = _ :=
            BitVec.ofNat_add j 1 ▸ read_add hlen (by omega)
          have h2 : read suffix (BitVec.ofNat 32 j + 2) = _ :=
            BitVec.ofNat_add j 2 ▸ read_add hlen (by omega)
          rw [if_pos (hlonger.2 hthree), hindex, h1, h2]
          rfl
        · dsimp only
          rw [if_neg (Nat.not_le.2 hthree), hblock, htake, hopening]
          simp only [Result.answer, Policy.answer, hchecks, hmatch, hindex, toNat_ofNat_of_le hm',
            toNat_ofNat_of_le hj']
          rfl
        · rw [htake, hopening]
          rfl
        · by_cases hm3 : 3 ≤ m'
          · have := hc'.1
            rw [length_map] at this
            exact hmost j' (by omega) hc' (ho'.mono hm3) m' ho'
          · exact .inl (by omega)
      · refine ⟨⟨[a, b, c], 0, 0, 0, best.checked_positions⟩, if_neg (hlonger.not.2 hthree), ?_, rfl, .inl rfl⟩
        dsimp only
        rw [if_pos (Nat.not_lt.1 hthree)]
        simp only [Result.answer, Policy.answer, hchecks]
        rfl
  · refine ⟨⟨[a, b, c], 0, 0, 0, 0⟩, ?_, ?_, rfl, .inl rfl⟩
    · rw [propose, if_neg hgeometry]
      show (if 6 ≤ BitVec.ofNat 32 suffix.length then _ else _) = _
      rw [if_neg (hsix.not.2 hn)]
      rfl
    · rw [Policy.propose, if_pos (.inr (by rw [length_map]; omega))]
      rfl

/-- The ids below eight, in one byte. -/
theorem encodes_byte : Encodes (fun id => 0 ≤ id && id < 8) [0xff] 8 := by
  refine ⟨by decide, by decide, fun id => ?_⟩
  rw [Bool.and_eq_true, decide_eq_true_eq, decide_eq_true_eq]
  have hall : ∀ k < 8, (([0xff] : List (BitVec 8)).getD (k / 8) 0).getLsbD (k % 8) := by decide
  exact ⟨fun h => ⟨h.1, h.2, hall _ (by omega)⟩, fun h => ⟨h.1, h.2.1⟩⟩

/-- The last four ids stand before the fifth. -/
theorem propose_agrees_longer : ∃ r, propose [1, 2, 3, 4, 5, 6, 7, 1, 2, 3, 4] 11 [5, 0, 0] [0xff] 8 = some (some r) ∧
    r.answer = ([5, 6, 7], true, 4, 4, 6) := by
  obtain ⟨r, hr, hanswer, -⟩ := propose_agrees [1, 2, 3, 4, 5, 6, 7, 1, 2, 3, 4] (by decide) 5 0 0
    (fun id => 0 ≤ id && id < 8) [0xff] 8 encodes_byte
  exact ⟨r, hr, hanswer.trans (by decide)⟩

end StrixAlloy.Pld.Longmatch

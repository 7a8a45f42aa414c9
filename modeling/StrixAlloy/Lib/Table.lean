import Mathlib.Data.List.Nodup
import Mathlib.Data.List.Count

/-!
# Tables

A table is the list of its rows, oldest first, and `key` reads the column that identifies a row.
`lookup` is the read of one row by its key and `update` the change of every row that meets a
condition; an insertion appends a row, and a deletion is a `filter`. The lemmas say what each write
keeps: the uniqueness of the key, the rows it does not concern, and the number of rows of a kind.
-/

namespace Table

open scoped List

variable {α κ : Type*} (key : α → κ)

/-- The rows of the table have different keys. -/
def Unique (rows : List α) : Prop := (rows.map key).Nodup

/-- The row with key `k`. -/
def lookup [DecidableEq κ] (rows : List α) (k : κ) : Option α := rows.find? fun r => key r = k

/-- The table with `f` applied to every row that meets `p`. -/
def update (p : α → Prop) [DecidablePred p] (f : α → α) (rows : List α) : List α :=
  rows.map fun r => if p r then f r else r

variable {key}

/-! ## Reads -/

section Lookup

variable [DecidableEq κ] {rows : List α} {k : κ} {r : α}

/-- A row that is read is in the table, under its key. -/
theorem mem_of_lookup (h : lookup key rows k = some r) : r ∈ rows ∧ key r = k :=
  ⟨List.mem_of_find?_eq_some h, by simpa using List.find?_some h⟩

/-- Nothing is read exactly when no row has the key. -/
theorem lookup_eq_none : lookup key rows k = none ↔ ∀ r ∈ rows, key r ≠ k := by
  simp [lookup]

/-- Something is read exactly when a row has the key. -/
theorem isSome_lookup : (lookup key rows k).isSome ↔ ∃ r ∈ rows, key r = k := by
  rw [← not_iff_not, Option.not_isSome_iff_eq_none, lookup_eq_none]
  push Not
  rfl

/-- A row of a table with unique keys is the one read under its key. -/
theorem lookup_of_mem (h : Unique key rows) (hr : r ∈ rows) : lookup key rows (key r) = some r := by
  induction rows with
  | nil => cases hr
  | cons x rows ih =>
    obtain ⟨hx, hrows⟩ := List.nodup_cons.1 h
    rcases List.mem_cons.1 hr with rfl | hr
    · simp [lookup]
    · have hne : key x ≠ key r := fun e => hx (e ▸ List.mem_map_of_mem hr)
      simpa [lookup, List.find?_cons, hne] using ih hrows hr

/-- Rows of a table with unique keys that have one key are one row. -/
theorem Unique.eq_of_key_eq {r' : α} (h : Unique key rows) (hr : r ∈ rows) (hr' : r' ∈ rows)
    (e : key r = key r') : r = r' := by
  have h1 := lookup_of_mem h hr
  rw [e, lookup_of_mem h hr'] at h1
  exact (Option.some.inj h1).symm

/-- A read after an insertion finds the older row first. -/
@[simp]
theorem lookup_concat (rows : List α) (x : α) (k : κ) :
    lookup key (rows ++ [x]) k = (lookup key rows k).or (if key x = k then some x else none) := by
  simp [lookup, List.find?_append, List.find?_cons]
  split_ifs <;> simp_all

/-- A read after an update that keeps the keys finds the updated row. -/
@[simp]
theorem lookup_update {p : α → Prop} [DecidablePred p] {f : α → α} (hf : ∀ r, key (f r) = key r)
    (rows : List α) (k : κ) :
    lookup key (update p f rows) k = (lookup key rows k).map fun r => if p r then f r else r := by
  have hkey : ∀ r, key (if p r then f r else r) = key r := fun r => by split_ifs <;> simp [hf]
  have hp : (fun r => decide (key r = k)) ∘ (fun r => if p r then f r else r) = fun r => decide (key r = k) :=
    funext fun r => by rw [Function.comp_apply, hkey]
  rw [lookup, update, List.find?_map, hp, lookup]

/-- A read does not depend on the order of the rows of a table with unique keys. -/
theorem lookup_perm {rows' : List α} (h : Unique key rows) (hperm : rows' ~ rows) :
    lookup key rows' k = lookup key rows k := by
  have h' : Unique key rows' := (hperm.map key).nodup_iff.2 h
  cases hr : lookup key rows k with
  | none => exact lookup_eq_none.2 fun r hr' => lookup_eq_none.1 hr r (hperm.mem_iff.1 hr')
  | some =>
    obtain ⟨hmem, rfl⟩ := mem_of_lookup hr
    exact lookup_of_mem h' (hperm.mem_iff.2 hmem)

/-- A read from the rows that meet a condition is the read, if its row does. -/
theorem lookup_filter (h : Unique key rows) (p : α → Bool) :
    lookup key (rows.filter p) k = (lookup key rows k).filter p := by
  have h' : Unique key (rows.filter p) := h.sublist ((List.filter_sublist).map key)
  cases hr : lookup key rows k with
  | none =>
    refine lookup_eq_none.2 fun r hmem => ?_
    exact lookup_eq_none.1 hr r (List.mem_filter.1 hmem).1
  | some =>
    obtain ⟨hmem, rfl⟩ := mem_of_lookup hr
    rw [Option.filter_some]
    split_ifs with hp
    · exact lookup_of_mem h' (List.mem_filter.2 ⟨hmem, hp⟩)
    · refine lookup_eq_none.2 fun r' hmem' e => hp ?_
      obtain ⟨hmem', hp'⟩ := List.mem_filter.1 hmem'
      have hsame := (lookup_of_mem h hmem').symm.trans (e ▸ lookup_of_mem h hmem)
      rwa [Option.some.inj hsame] at hp'

/-- A read after a change of every row that keeps the keys finds the changed row. -/
theorem lookup_map {β : Type*} {key' : β → κ} {f : α → β} (hf : ∀ r, key' (f r) = key r)
    (rows : List α) (k : κ) : lookup key' (rows.map f) k = (lookup key rows k).map f := by
  have hp : (fun r => decide (key' r = k)) ∘ f = fun r => decide (key r = k) :=
    funext fun r => by rw [Function.comp_apply, hf]
  rw [lookup, List.find?_map, hp, lookup]

end Lookup

/-! ## Uniqueness of the key -/

variable {rows : List α}

/-- Inserting a row whose key is new keeps the keys unique. -/
theorem Unique.concat {x : α} (h : Unique key rows) (hx : ∀ r ∈ rows, key r ≠ key x) : Unique key (rows ++ [x]) := by
  unfold Unique
  rw [List.map_append, List.nodup_append]
  refine ⟨h, List.nodup_singleton _, ?_⟩
  rintro _ ha b hb rfl
  obtain ⟨r, hr, e⟩ := List.mem_map.1 ha
  exact hx r hr (e.trans (List.mem_singleton.1 hb))

/-- Keys stay unique with an inserted row exactly when nothing is read under its key. -/
@[simp]
theorem unique_concat [DecidableEq κ] {x : α} :
    Unique key (rows ++ [x]) ↔ Unique key rows ∧ lookup key rows (key x) = none := by
  rw [lookup_eq_none]
  refine ⟨fun h => ?_, fun h => h.1.concat h.2⟩
  unfold Unique at h ⊢
  rw [List.map_append, List.nodup_append] at h
  exact ⟨h.1, fun r hr => h.2.2 _ (List.mem_map_of_mem hr) _ List.mem_cons_self⟩

/-- A column that an update does not change. -/
theorem map_update {β : Type*} {c : α → β} {p : α → Prop} [DecidablePred p] {f : α → α}
    (h : ∀ r ∈ rows, p r → c (f r) = c r) : (update p f rows).map c = rows.map c := by
  rw [update, List.map_map]
  refine List.map_congr_left fun r hr => ?_
  simp only [Function.comp_apply]
  split_ifs with hp
  · exact h r hr hp
  · rfl

/-- An update that keeps each row's key keeps the keys. -/
@[simp]
theorem map_key_update {p : α → Prop} [DecidablePred p] {f : α → α}
    (hf : ∀ r, key (f r) = key r) (rows : List α) :
    (update p f rows).map key = rows.map key := map_update fun r _ _ => hf r

/-- An update that keeps each row's key neither makes nor breaks the uniqueness of the keys. -/
@[simp]
theorem unique_update {p : α → Prop} [DecidablePred p] {f : α → α} (hf : ∀ r, key (f r) = key r) :
    Unique key (update p f rows) ↔ Unique key rows := by
  unfold Unique
  rw [map_key_update hf]

theorem Unique.filter (h : Unique key rows) (p : α → Bool) : Unique key (rows.filter p) :=
  h.sublist ((List.filter_sublist).map key)

/-- Replacing the row under a key keeps the keys unique. -/
theorem Unique.replace [DecidableEq κ] {x : α} (h : Unique key rows) :
    Unique key ((rows.filter fun r => key r ≠ key x) ++ [x]) := by
  refine (h.filter _).concat fun r hr => ?_
  simpa using (List.mem_filter.1 hr).2

/-! ## What an update leaves -/

section Update

variable {p : α → Prop} [DecidablePred p] {f : α → α} {rows : List α}

/-- A row of an updated table is an old row, changed if it met the condition. -/
theorem mem_update {x : α} : x ∈ update p f rows ↔ ∃ r ∈ rows, (if p r then f r else r) = x :=
  List.mem_map

/-- A property of every row of an updated table, read on the old rows. -/
theorem forall_mem_update {P : α → Prop} :
    (∀ r ∈ update p f rows, P r) ↔ ∀ r ∈ rows, P (if p r then f r else r) := by
  simp only [update, List.forall_mem_map]

/-- A row that does not meet the condition stays. -/
theorem mem_update_of_not {r : α} (hr : r ∈ rows) (h : ¬ p r) : r ∈ update p f rows :=
  mem_update.2 ⟨r, hr, if_neg h⟩

/-- A row that meets the condition is changed. -/
theorem mem_update_of_pos {r : α} (hr : r ∈ rows) (h : p r) : f r ∈ update p f rows :=
  mem_update.2 ⟨r, hr, if_pos h⟩

/-- An update that changes no row. -/
theorem update_id : update p (fun r => r) rows = rows := by
  simp [update]

/-- A relation between the rows in order is kept by an update that keeps it for each pair. -/
theorem pairwise_update {R : α → α → Prop} (h : rows.Pairwise R)
    (hR : ∀ a b, R a b → R (if p a then f a else a) (if p b then f b else b)) :
    (update p f rows).Pairwise R := by
  rw [update, List.pairwise_map]
  exact h.imp (hR _ _)

/-- An update that does not change whether a row is of kind `q` keeps their number. -/
theorem countP_update {q : α → Bool} (h : ∀ r ∈ rows, p r → q (f r) = q r) :
    (update p f rows).countP q = rows.countP q := by
  rw [update, List.countP_map]
  refine List.countP_congr fun r hr => ?_
  simp only [Function.comp_apply]
  split_ifs with hp
  · rw [h r hr hp]
  · rfl

/-- The update of one row changes the number of rows of kind `q` by what it does to that row. -/
theorem countP_update_at [DecidableEq κ] (hu : Unique key rows) {r : α} (hr : r ∈ rows)
    (q : α → Bool) :
    (update (fun x => key x = key r) f rows).countP q + (if q r then 1 else 0) =
      rows.countP q + (if q (f r) then 1 else 0) := by
  induction rows with
  | nil => cases hr
  | cons x rows ih =>
    obtain ⟨hx, hrows⟩ := List.nodup_cons.1 hu
    simp only [update, List.map_cons, List.countP_cons]
    rcases List.mem_cons.1 hr with rfl | hr
    · have hrest : (rows.map fun y => if key y = key r then f y else y) = rows := by
        conv_rhs => rw [← List.map_id rows]
        refine List.map_congr_left fun y hy => if_neg fun e => hx ?_
        exact e ▸ List.mem_map_of_mem hy
      rw [hrest]
      simp only [if_pos]
      omega
    · have hne : key x ≠ key r := fun e => hx (e ▸ List.mem_map_of_mem hr)
      have := ih hrows hr
      simp only [update] at this
      simp only [if_neg hne]
      omega

end Update

end Table

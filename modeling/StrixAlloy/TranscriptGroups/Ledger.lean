import StrixAlloy.TranscriptGroups.Groups

/-!
# The ledger of groups

The book notes what the callers were told, and `Held` says what a stored group has to do with it: its parts are the
admitted ones in their order, and the emitted ones among them are those that the callers were told of. Hence what a
group says as it leaves can be read off the book (`Left`), and the two do not change afterwards.
-/

namespace StrixAlloy.TranscriptGroups

open List Runs

variable {O T P : Type} [DecidableEq P]

theorem length_join_le {as bs : List Text} (h : as <+: bs) : (join as).length ≤ (join bs).length := by
  obtain ⟨cs, rfl⟩ := h
  induction as with
  | nil => exact Nat.zero_le _
  | cons a as ih =>
    cases as with
    | nil =>
      cases cs with
      | nil => exact Nat.le_refl _
      | cons c cs =>
        show a.length ≤ (a ++ 32 :: join (c :: cs)).length
        rw [length_append]
        exact Nat.le_add_right ..
    | cons b as =>
      show (a ++ 32 :: join (b :: as)).length ≤ (a ++ 32 :: join (b :: as ++ cs)).length
      rw [length_append, length_append, length_cons, length_cons]
      exact Nat.add_le_add_left (Nat.succ_le_succ ih) _

namespace Book

/-- The admitted parts of a group before the first one that was not emitted. -/
def emittedPrefix (b : Book O T P) (key : ℕ) : List (P × Text) :=
  (b.admitted key).takeWhile fun x => x.1 ∈ b.spoken key

end Book

/-- What the book says of a stored group. -/
structure Held (limits : Limits) (b : Book O T P) (key : ℕ) (g : Group O T P) : Prop where
  opened : (key, g.owner, g.turn) ∈ b.opened
  unique : Table.Unique Prod.fst g.parts
  admitted : g.parts.map (fun x => (x.1, x.2.text)) = b.admitted key
  spoken : ∀ x ∈ g.parts, x.2.state = .emitted ↔ x.1 ∈ b.spoken key
  known : ∀ p ∈ b.spoken key, ∃ x ∈ g.parts, x.1 = p
  chars : (join (g.parts.map fun x => x.2.text)).length ≤ limits.max_chars

/-- What the book says of a transcript: it is of the group's own owner and turn, and its text is the prefix of the
group's parts that was emitted. -/
structure Left (limits : Limits) (b : Book O T P) (key : ℕ) (t : GroupedTranscript O T) : Prop where
  opened : (key, t.owner, t.turn) ∈ b.opened
  text : t.text = join ((b.emittedPrefix key).map Prod.snd)
  spoken : b.emittedPrefix key ≠ []
  chars : t.text.length ≤ limits.max_chars

/-- The ledger keeps the book. -/
structure Inv (limits : Limits) (s : State O T P) (b : Book O T P) : Prop where
  same : s.limits = limits
  unique : (s.groups.map Prod.fst).Nodup
  fresh : ∀ x ∈ b.opened, x.1 < s.next
  opened : (b.opened.map Prod.fst).Nodup
  silent : ∀ k, s.next ≤ k → b.admitted k = [] ∧ b.spoken k = []
  held : ∀ r ∈ s.groups, Held limits b r.1 r.2 ∧ r.1 ∉ s.log.map Prod.fst
  left : ∀ x ∈ s.log, Left limits b x.1 x.2
  once : (s.log.map Prod.fst).Nodup
  kept : ∀ x ∈ b.opened, x.1 ∈ s.groups.map Prod.fst ∨ b.emittedPrefix x.1 = [] ∨ x.1 ∈ s.log.map Prod.fst
  given : b.given ++ s.ready = s.log.map Prod.snd

variable {limits : Limits} {b : Book O T P} {key : ℕ} {g g' : Group O T P} {s : State O T P}

namespace Held

theorem emittedPrefix_eq (h : Held limits b key g) :
    b.emittedPrefix key = g.spoken.map fun x => (x.1, x.2.text) := by
  have hspoken : ∀ parts : List (P × Entry), (∀ x ∈ parts, x.2.state = .emitted ↔ x.1 ∈ b.spoken key) →
      (parts.map fun x => (x.1, x.2.text)).takeWhile (fun x => x.1 ∈ b.spoken key) =
        (parts.takeWhile fun x => x.2.state = .emitted).map fun x => (x.1, x.2.text) := by
    intro parts hp
    induction parts with
    | nil => rfl
    | cons x parts ih =>
      have hx := hp x (mem_cons_self ..)
      have ihx := ih fun y hy => hp y (mem_cons_of_mem _ hy)
      rw [map_cons, takeWhile_cons, takeWhile_cons]
      by_cases he : x.2.state = .emitted
      · rw [if_pos (decide_eq_true (hx.1 he)), if_pos (decide_eq_true he), map_cons, ihx]
      · rw [if_neg fun h => he (hx.2 (of_decide_eq_true h)), if_neg fun h => he (of_decide_eq_true h)]
        rfl
  unfold Book.emittedPrefix Group.spoken
  rw [← h.admitted]
  exact hspoken g.parts h.spoken

/-- What a group says as it leaves is what the book says. -/
theorem left (h : Held limits b key g) {reason : String} {t : GroupedTranscript O T}
    (ht : g.transcript reason = some t) : Left limits b key t := by
  have heq := h.emittedPrefix_eq
  unfold Group.transcript at ht
  split at ht
  · cases ht
  · rename_i x rest hx
    cases ht
    have htext : join ((x :: rest).map fun y => y.2.text) = join ((b.emittedPrefix key).map Prod.snd) := by
      rw [heq, hx, map_map]
      rfl
    refine ⟨h.opened, htext, by rw [heq, hx]; exact cons_ne_nil _ _, Nat.le_trans ?_ h.chars⟩
    refine length_join_le (List.IsPrefix.map _ ?_)
    rw [← hx]
    exact takeWhile_prefix _

theorem transcript_eq_none (h : Held limits b key g) {reason : String} :
    g.transcript reason = none ↔ b.emittedPrefix key = [] := by
  rw [h.emittedPrefix_eq, map_eq_nil_iff]
  unfold Group.transcript
  split
  · rename_i hx
    exact ⟨fun _ => hx, fun _ => rfl⟩
  · rename_i hx
    rw [hx]
    exact ⟨nofun, nofun⟩

end Held

/-! ## Groups that change -/

namespace Group.Follows

variable {R : P → PartState → PartState → Prop}

section

omit [DecidableEq P]

theorem texts (h : Group.Follows R g g') :
    g'.parts.map (fun x => (x.1, x.2.text)) = g.parts.map fun x => (x.1, x.2.text) := by
  have hparts := h.parts
  revert hparts
  generalize g.parts = ps
  generalize g'.parts = ps'
  intro hparts
  induction hparts with
  | nil => rfl
  | cons hx _ ih => rw [map_cons, map_cons, ih, hx.1, hx.2.1]

/-- Every part was there before, with the same text. -/
theorem part (h : Group.Follows R g g') {x' : P × Entry} (hx : x' ∈ g'.parts) :
    ∃ x ∈ g.parts, x'.1 = x.1 ∧ x'.2.text = x.2.text ∧ R x.1 x.2.state x'.2.state := by
  have hparts := h.parts
  revert hparts hx
  generalize g.parts = ps
  generalize g'.parts = ps'
  intro hx hparts
  induction hparts with
  | nil => cases hx
  | cons h _ ih =>
    obtain rfl | hx := mem_cons.1 hx
    · exact ⟨_, mem_cons_self .., h⟩
    · obtain ⟨y, hy, hr⟩ := ih hx
      exact ⟨y, mem_cons_of_mem _ hy, hr⟩

theorem names (h : Group.Follows R g g') : g'.parts.map Prod.fst = g.parts.map Prod.fst := by
  have htexts := congrArg (List.map Prod.fst) h.texts
  rwa [map_map, map_map] at htexts

end

end Group.Follows

omit [DecidableEq P] in
theorem PartState.Waits.emitted_iff {before after : PartState} (h : before.Waits after) :
    after = .emitted ↔ before = .emitted := by
  obtain rfl | ⟨rfl, rfl | rfl⟩ := h
  · rfl
  · exact ⟨nofun, nofun⟩
  · exact ⟨nofun, nofun⟩

namespace Held

variable {b' : Book O T P} {R : P → PartState → PartState → Prop}

omit [DecidableEq P] in
/-- A group whose parts keep their names and texts. -/
theorem follows (h : Held limits b key g) (hf : Group.Follows R g g') (hopened : b'.opened = b.opened)
    (hadmitted : b'.admitted = b.admitted) (hknown : ∀ p ∈ b'.spoken key, p ∈ g'.parts.map Prod.fst)
    (hspoken : ∀ x ∈ g.parts, ∀ after, R x.1 x.2.state after → (after = .emitted ↔ x.1 ∈ b'.spoken key)) :
    Held limits b' key g' where
  opened := by
    rw [hf.owner, hf.turn, hopened]
    exact h.opened
  unique := by
    have hu := h.unique
    unfold Table.Unique at hu ⊢
    rwa [hf.names]
  admitted := by rw [hf.texts, hadmitted, h.admitted]
  spoken := by
    intro x' hx'
    obtain ⟨x, hx, hname, -, hr⟩ := hf.part hx'
    rw [hname]
    exact hspoken x hx _ hr
  known := fun p hp => mem_map.1 (hknown p hp)
  chars := by
    have htexts := congrArg (List.map Prod.snd) hf.texts
    rw [map_map, map_map] at htexts
    have hchars := h.chars
    rwa [show g.parts.map (fun x => x.2.text) = g'.parts.map fun x => x.2.text from htexts.symm] at hchars

omit [DecidableEq P] in
/-- No part is emitted. -/
theorem waits (h : Held limits b key g) (hf : Group.Follows (fun _ => PartState.Waits) g g') :
    Held limits b key g' :=
  h.follows hf rfl rfl (fun p hp => by rw [hf.names]; exact mem_map.2 (h.known p hp)) fun x hx _ hw =>
    hw.emitted_iff.trans (h.spoken x hx)

/-- One part is emitted, and the caller is told so. -/
theorem emits (h : Held limits b key g) {owner : Option O} {part : P} (hf : Group.Follows (Emits part) g g')
    (hpart : ∃ x ∈ g'.parts, x.1 = part) :
    Held limits (b.note (.emitted key owner part) (.bool true)) key g' := by
  have hnow : (b.note (.emitted key owner part) (.bool true)).spoken key = b.spoken key ++ [part] := if_pos rfl
  refine h.follows hf rfl rfl (fun p hp => ?_) fun x hx after hr => ?_
  · rw [hnow] at hp
    obtain hp | hp := mem_append.1 hp
    · rw [hf.names]
      exact mem_map.2 (h.known p hp)
    · rw [mem_singleton.1 hp]
      exact mem_map.2 hpart
  · rw [hnow, mem_append, mem_singleton]
    by_cases he : x.1 = part
    · exact ⟨fun _ => .inr he, fun _ => (hr.1 he).2⟩
    · rw [hr.2 he, h.spoken x hx]
      exact ⟨.inl, fun h => h.resolve_right he⟩

omit [DecidableEq P] in
/-- A part is admitted. -/
theorem admits (h : Held limits b key g) {owner : Option O} {turn : Option T} {part : P} {text : Text}
    (hnew : ∀ x ∈ g.parts, x.1 ≠ part)
    (hchars : (join (g.parts.map (fun x => x.2.text) ++ [strip text])).length ≤ limits.max_chars) :
    Held limits (b.note (.admitPart key owner turn part (some text)) (.bool true)) key
      { g with parts := g.parts ++ [(part, ⟨strip text, .pending, none⟩)] } where
  opened := h.opened
  unique := Table.Unique.concat h.unique hnew
  admitted := by
    show _ = if key = key then _ else _
    rw [if_pos rfl, map_append, h.admitted]
    rfl
  spoken := by
    intro x hx
    obtain hx | hx := mem_append.1 hx
    · exact h.spoken x hx
    · rw [mem_singleton.1 hx]
      refine ⟨nofun, fun hs => ?_⟩
      obtain ⟨y, hy, he⟩ := h.known part hs
      exact absurd he (hnew y hy)
  known := by
    intro p hp
    obtain ⟨x, hx, he⟩ := h.known p hp
    exact ⟨x, mem_append_left _ hx, he⟩
  chars := by
    rw [map_append]
    exact hchars

end Held

/-! ## The ledger that changes -/

/-- Of the groups but one, the two books say the same. -/
structure Elsewhere (key : ℕ) (b b' : Book O T P) : Prop where
  opened : b'.opened = b.opened
  given : b'.given = b.given
  admitted : ∀ k, k ≠ key → b'.admitted k = b.admitted k
  spoken : ∀ k, k ≠ key → b'.spoken k = b.spoken k

variable {b' : Book O T P}

omit [DecidableEq P] in
/-- A book that knows more groups. -/
theorem Held.of_book (h : Held limits b key g) (hopened : ∀ x ∈ b.opened, x ∈ b'.opened)
    (hadmitted : b'.admitted key = b.admitted key) (hspoken : b'.spoken key = b.spoken key) : Held limits b' key g :=
  ⟨hopened _ h.opened, h.unique, hadmitted.symm ▸ h.admitted, hspoken.symm ▸ h.spoken, hspoken.symm ▸ h.known, h.chars⟩

theorem Left.of_book {t : GroupedTranscript O T} (h : Left limits b key t) (hopened : ∀ x ∈ b.opened, x ∈ b'.opened)
    (hspoken : b'.emittedPrefix key = b.emittedPrefix key) : Left limits b' key t :=
  ⟨hopened _ h.opened, hspoken.symm ▸ h.text, hspoken.symm ▸ h.spoken, h.chars⟩

omit [DecidableEq P] in
theorem elsewhere_refl : Elsewhere key b b := ⟨rfl, rfl, fun _ _ => rfl, fun _ _ => rfl⟩

namespace Elsewhere

variable {k : ℕ} (h : Elsewhere key b b') (hk : k ≠ key)
include h hk

theorem emittedPrefix : b'.emittedPrefix k = b.emittedPrefix k := by
  unfold Book.emittedPrefix
  rw [h.admitted k hk, h.spoken k hk]

omit [DecidableEq P] in
theorem held (hg : Held limits b k g) : Held limits b' k g :=
  hg.of_book (fun _ hx => h.opened ▸ hx) (h.admitted k hk) (h.spoken k hk)

theorem left {t : GroupedTranscript O T} (ht : Left limits b k t) : Left limits b' k t :=
  ht.of_book (fun _ hx => h.opened ▸ hx) (h.emittedPrefix hk)

end Elsewhere

namespace Inv

theorem key_lt (h : Inv limits s b) (hg : (key, g) ∈ s.groups) : key < s.next := h.fresh _ (h.held _ hg).1.opened

/-- A stored group is changed, and the book with it. -/
theorem put (h : Inv limits s b) (hg : (key, g) ∈ s.groups) (hb : Elsewhere key b b') (hheld : Held limits b' key g') :
    Inv limits (s.put key g') b' where
  __ := h
  unique := by
    rw [State.keys_put]
    exact h.unique
  fresh := hb.opened ▸ h.fresh
  opened := hb.opened ▸ h.opened
  silent := by
    intro k hk
    have hne : k ≠ key := by
      rintro rfl
      exact absurd (h.key_lt hg) (Nat.not_lt_of_le hk)
    rw [hb.admitted k hne, hb.spoken k hne]
    exact h.silent k hk
  held := by
    intro r hr
    obtain ⟨hold, hne⟩ | rfl := State.mem_put hr
    · exact ⟨hb.held hne (h.held r hold).1, (h.held r hold).2⟩
    · exact ⟨hheld, (h.held _ hg).2⟩
  left := by
    intro x hx
    refine hb.left (fun e => (h.held _ hg).2 ?_) (h.left x hx)
    exact mem_map.2 ⟨x, hx, e⟩
  kept := by
    intro x hx
    rw [State.keys_put]
    rw [hb.opened] at hx
    by_cases he : x.1 = key
    · exact .inl (mem_map.2 ⟨_, hg, he.symm⟩)
    · rw [hb.emittedPrefix he]
      exact h.kept x hx
  given := hb.given ▸ h.given

/-- A stored group leaves. -/
theorem flush (h : Inv limits s b) (hg : (key, g) ∈ s.groups) (reason : String) :
    Inv limits (s.flush key g reason) b := by
  obtain ⟨hheld, hlog⟩ := h.held _ hg
  have hadded : ∀ x : ℕ × GroupedTranscript O T,
      x ∈ (g.transcript reason).toList.map (fun t => (key, t)) → x.1 = key ∧ g.transcript reason = some x.2 := by
    intro x hx
    obtain ⟨t, ht, rfl⟩ := mem_map.1 hx
    exact ⟨rfl, Option.mem_toList.1 ht⟩
  constructor
  · exact h.same
  · exact (filter_sublist.map Prod.fst).nodup h.unique
  · exact h.fresh
  · exact h.opened
  · exact h.silent
  · intro r hr
    obtain ⟨hr, hne⟩ := State.mem_flush.1 hr
    refine ⟨(h.held r hr).1, fun hin => ?_⟩
    obtain ⟨x, hx, he⟩ := mem_map.1 hin
    obtain hx | hx := mem_append.1 hx
    · exact (h.held r hr).2 (mem_map.2 ⟨x, hx, he⟩)
    · exact hne (he.symm.trans (hadded x hx).1)
  · intro x hx
    obtain hx | hx := mem_append.1 hx
    · exact h.left x hx
    · obtain ⟨hk, ht⟩ := hadded x hx
      rw [hk]
      exact hheld.left ht
  · show ((s.log ++ _).map Prod.fst).Nodup
    cases ht : g.transcript reason with
    | none => simpa using h.once
    | some =>
      rw [map_append]
      refine List.Nodup.append h.once (nodup_singleton key) (disjoint_singleton.2 hlog)
  · intro x hx
    by_cases he : x.1 = key
    · rw [he]
      cases ht : g.transcript reason with
      | none => exact .inr (.inl (hheld.transcript_eq_none.1 ht))
      | some t =>
        refine .inr (.inr (mem_map.2 ⟨(key, t), mem_append_right _ ?_, rfl⟩))
        rw [ht]
        exact mem_singleton.2 rfl
    · obtain hin | hnone | hin := h.kept x hx
      · obtain ⟨r, hr, hrk⟩ := mem_map.1 hin
        exact .inl (mem_map.2 ⟨r, State.mem_flush.2 ⟨hr, by rw [hrk]; exact he⟩, hrk⟩)
      · exact .inr (.inl hnone)
      · refine .inr (.inr ?_)
        show x.1 ∈ (s.log ++ _).map Prod.fst
        rw [map_append]
        exact mem_append_left _ hin
  · show b.given ++ (s.ready ++ _) = (s.log ++ _).map Prod.snd
    rw [← append_assoc, h.given, map_append, map_map]
    congr 1
    exact (map_id _).symm

theorem settle (h : Inv limits s b) (hg : (key, g) ∈ s.groups) (hb : Elsewhere key b b')
    (hheld : Held limits b' key g') :
    Inv limits (s.settle key g') b' := by
  have hput := h.put hg hb hheld
  obtain ⟨-, he⟩ | ⟨reason, he⟩ := State.settle_cases s key g'
  · rw [he]
    exact hput
  · rw [he]
    exact hput.flush (Table.mem_update_of_pos hg rfl) reason

variable {rows : List (ℕ × Group O T P)}

omit [DecidableEq P] in
/-- Of rows with different keys, those that remain are stored while the first is changed. -/
theorem rest_settle (hr : ∀ r ∈ (key, g) :: rows, r ∈ s.groups) (hu : (key :: rows.map Prod.fst).Nodup) :
    ∀ r ∈ rows, r ∈ (s.settle key g').groups := by
  intro r hin
  have hne : r.1 ≠ key := fun e => (nodup_cons.1 hu).1 (mem_map.2 ⟨r, hin, e⟩)
  have hput : r ∈ (s.put key g').groups := Table.mem_update_of_not (hr r (mem_cons_of_mem _ hin)) hne
  obtain ⟨-, he⟩ | ⟨reason, he⟩ := State.settle_cases s key g'
  · rw [he]
    exact hput
  · rw [he]
    exact State.mem_flush.2 ⟨hput, hne⟩

theorem settleAll {f : Group O T P → Group O T P} (hf : ∀ g, Group.Follows (fun _ => PartState.Waits) g (f g))
    (h : Inv limits s b) (hr : ∀ r ∈ rows, r ∈ s.groups) (hu : (rows.map Prod.fst).Nodup) :
    Inv limits (s.settleAll f rows) b := by
  induction rows generalizing s with
  | nil => exact h
  | cons r rows ih =>
    have hin := hr r (mem_cons_self ..)
    refine ih (h.settle hin elsewhere_refl ((h.held r hin).1.waits (hf r.2))) (rest_settle hr hu) ?_
    exact (nodup_cons.1 hu).2

theorem flushAll {reason : String} (h : Inv limits s b) (hr : ∀ r ∈ rows, r ∈ s.groups)
    (hu : (rows.map Prod.fst).Nodup) : Inv limits (s.flushAll reason rows) b := by
  induction rows generalizing s with
  | nil => exact h
  | cons r rows ih =>
    refine ih (h.flush (hr r (mem_cons_self ..)) reason) (fun x hx => State.mem_flush.2 ⟨?_, ?_⟩) ?_
    · exact hr x (mem_cons_of_mem _ hx)
    · exact fun e => (nodup_cons.1 hu).1 (e ▸ mem_map_of_mem hx)
    · exact (nodup_cons.1 hu).2

/-- A new group is opened under a new key. -/
theorem opens (h : Inv limits s b) (o : O) (t : T) :
    Inv limits { s with groups := s.groups ++ [(s.next, ⟨o, t, [], false⟩)], next := s.next + 1 }
      (b.note (.openGroup (some o) (some t)) (.key (some s.next))) := by
  have hlt : ∀ r ∈ s.groups, r.1 < s.next := fun r hr => h.key_lt hr
  have hlog : ∀ x ∈ s.log, x.1 < s.next := fun x hx => h.fresh _ (h.left x hx).opened
  obtain ⟨hadmitted, hspoken⟩ := h.silent s.next (Nat.le_refl _)
  constructor
  · exact h.same
  · rw [map_append]
    refine List.Nodup.append h.unique (nodup_singleton _) (disjoint_singleton.2 fun hin => ?_)
    obtain ⟨r, hr, he⟩ := mem_map.1 hin
    exact absurd (hlt r hr) (by rw [he]; exact Nat.lt_irrefl _)
  · intro x hx
    obtain hx | hx := mem_append.1 hx
    · exact Nat.lt_succ_of_lt (h.fresh x hx)
    · rw [mem_singleton.1 hx]
      exact Nat.lt_succ_self _
  · show ((b.opened ++ _).map Prod.fst).Nodup
    rw [map_append]
    refine List.Nodup.append h.opened (nodup_singleton _) (disjoint_singleton.2 fun hin => ?_)
    obtain ⟨x, hx, he⟩ := mem_map.1 hin
    exact absurd (h.fresh x hx) (by rw [he]; exact Nat.lt_irrefl _)
  · exact fun k hk => h.silent k (Nat.le_of_succ_le hk)
  · intro r hr
    obtain hr | hr := mem_append.1 hr
    · obtain ⟨hheld, hnot⟩ := h.held r hr
      exact ⟨hheld.of_book (fun _ hx => mem_append_left _ hx) rfl rfl, hnot⟩
    · rw [mem_singleton.1 hr]
      refine ⟨⟨mem_append_right _ (mem_singleton.2 rfl), nodup_nil, hadmitted.symm, nofun, ?_,
        Nat.zero_le _⟩, fun hin => ?_⟩
      · intro p hp
        have hp : p ∈ b.spoken s.next := hp
        rw [hspoken] at hp
        cases hp
      · obtain ⟨x, hx, he⟩ := mem_map.1 hin
        exact absurd (hlog x hx) (by rw [he]; exact Nat.lt_irrefl _)
  · exact fun x hx => (h.left x hx).of_book (fun _ hx => mem_append_left _ hx) rfl
  · exact h.once
  · intro x hx
    rw [map_append]
    obtain hx | hx := mem_append.1 hx
    · exact (h.kept x hx).imp_left fun hin => mem_append_left _ hin
    · rw [mem_singleton.1 hx]
      exact .inl (mem_append_right _ (mem_singleton.2 rfl))
  · exact h.given

theorem uniques (h : Inv limits s b) : ∀ r ∈ s.groups, Table.Unique Prod.fst r.2.parts :=
  fun r hr => (h.held r hr).1.unique

/-- The ledger and the book after a call. -/
theorem effect (h : Inv limits s b) {op : Op O T P} {a : Answer O T} {s' : State O T P} (he : Effect s op a s') :
    Inv limits s' (b.note op a) := by
  cases he with
  | refused hb =>
    rw [hb]
    exact h
  | opened o t => exact h.opens o t
  | admitted hg hnew hchars =>
    refine h.put hg ⟨rfl, rfl, fun k hk => if_neg hk, fun _ _ => rfl⟩ ((h.held _ hg).1.admits hnew (h.same ▸ hchars))
  | kept hb hg hf =>
    rw [hb]
    exact h.put hg elsewhere_refl ((h.held _ hg).1.waits hf)
  | emitted hg hf hpart =>
    exact h.settle hg ⟨rfl, rfl, fun _ _ => rfl, fun k hk => if_neg hk⟩ ((h.held _ hg).1.emits hf hpart)
  | settled hb hg hf =>
    rw [hb]
    exact h.settle hg elsewhere_refl ((h.held _ hg).1.waits hf)
  | left hb hg =>
    rw [hb]
    exact h.flush hg _
  | retained live hf => exact h.settleAll hf (fun _ => id) h.unique
  | emptied closed hb =>
    rw [hb]
    exact flushAll { h with } (fun _ => id) h.unique
  | taken =>
    refine { h with held := fun r hr => ⟨?_, (h.held r hr).2⟩, left := fun x hx => ?_, given := ?_ }
    · exact (h.held r hr).1.of_book (fun _ => id) rfl rfl
    · exact (h.left x hx).of_book (fun _ => id) rfl
    · rw [append_nil]
      exact h.given

end Inv

/-! ## Complete groups -/

/-- No stored group is finished with every part emitted or retired. -/
def State.Clear (s : State O T P) : Prop := ∀ r ∈ s.groups, r.2.complete? = false

omit [DecidableEq P] in
theorem Effect.clear {op : Op O T P} {a : Answer O T} {s' : State O T P} (he : Effect s op a s') (h : s.Clear) :
    s'.Clear := by
  have hsettle : ∀ key (g : Group O T P), (s.settle key g).Clear := by
    intro key g r hr
    obtain ⟨hr, -⟩ | ⟨rfl, hc⟩ := State.mem_settle hr
    · exact h r hr
    · exact hc
  have hput : ∀ key (g : Group O T P), g.complete? = false → (s.put key g).Clear := by
    intro key g hc r hr
    obtain ⟨hr, -⟩ | rfl := State.mem_put hr
    · exact h r hr
    · exact hc
  cases he with
  | refused => exact h
  | opened =>
    intro r hr
    obtain hr | hr := mem_append.1 hr
    · exact h r hr
    · rw [mem_singleton.1 hr]
      rfl
  | admitted _ _ _ hopen => exact hput _ _ (Bool.and_eq_false_iff.2 (.inl hopen))
  | kept _ _ _ hopen => exact hput _ _ hopen
  | emitted => exact hsettle _ _
  | settled => exact hsettle _ _
  | left => exact fun r hr => h r (State.mem_flush.1 hr).1
  | retained =>
    intro r hr
    obtain ⟨hr, -⟩ | ⟨x, -, rfl, hc⟩ := State.mem_settleAll hr
    · exact h r hr
    · exact hc
  | emptied => exact fun r hr => h r (State.mem_flushAll hr).1
  | taken => exact h

/-! ## Parts that move -/

/-- A group keeps its owner and turn. Its parts were there before, with their texts, and moved; or are new and
pending. -/
structure Group.Moves (g g' : Group O T P) : Prop where
  owner : g'.owner = g.owner
  turn : g'.turn = g.turn
  parts : ∀ x' ∈ g'.parts,
    (∃ x ∈ g.parts, x'.1 = x.1 ∧ x'.2.text = x.2.text ∧ x.2.state.Moves x'.2.state) ∨
      (∀ x ∈ g.parts, x.1 ≠ x'.1) ∧ x'.2.state = .pending

/-- A stored group was there before and moved, or is new and empty. -/
def State.Moves (s s' : State O T P) : Prop :=
  ∀ r' ∈ s'.groups, r'.1 = s.next ∧ r'.2.parts = [] ∨ ∃ g, (r'.1, g) ∈ s.groups ∧ g.Moves r'.2

section

omit [DecidableEq P]

theorem Group.Follows.moves {R : P → PartState → PartState → Prop} (h : Group.Follows R g g')
    (hR : ∀ p before after, R p before after → before.Moves after) : g.Moves g' := by
  refine ⟨h.owner, h.turn, fun x' hx' => ?_⟩
  obtain ⟨x, hx, hname, htext, hr⟩ := h.part hx'
  exact .inl ⟨x, hx, hname, htext, hR _ _ _ hr⟩

theorem Emits.moves {part p : P} {before after : PartState} (h : Emits part p before after) : before.Moves after := by
  by_cases hp : p = part
  · exact .inr (h.1 hp)
  · exact .inl (.inl (h.2 hp))

theorem Effect.moves {op : Op O T P} {a : Answer O T} {s' : State O T P} (he : Effect s op a s') : s.Moves s' := by
  have hsame : s.Moves s := fun r hr =>
    .inr ⟨r.2, hr, rfl, rfl, fun x hx => .inl ⟨x, hx, rfl, rfl, .inl (.inl rfl)⟩⟩
  have hwaits : ∀ (_ : P) (before after : PartState), before.Waits after → before.Moves after := fun _ _ _ => .inl
  cases he with
  | refused => exact hsame
  | opened =>
    intro r hr
    obtain hr | hr := mem_append.1 hr
    · exact hsame r hr
    · rw [mem_singleton.1 hr]
      exact .inl ⟨rfl, rfl⟩
  | admitted hg hnew =>
    intro r hr
    obtain ⟨hr, -⟩ | rfl := State.mem_put hr
    · exact hsame r hr
    · refine .inr ⟨_, hg, rfl, rfl, fun x' hx' => ?_⟩
      obtain hx | hx := mem_append.1 hx'
      · exact .inl ⟨x', hx, rfl, rfl, .inl (.inl rfl)⟩
      · rw [mem_singleton.1 hx]
        exact .inr ⟨hnew, rfl⟩
  | kept _ hg hf =>
    intro r hr
    obtain ⟨hr, -⟩ | rfl := State.mem_put hr
    · exact hsame r hr
    · exact .inr ⟨_, hg, hf.moves hwaits⟩
  | emitted hg hf =>
    intro r hr
    obtain ⟨hr, -⟩ | ⟨rfl, -⟩ := State.mem_settle hr
    · exact hsame r hr
    · exact .inr ⟨_, hg, hf.moves fun _ _ _ => Emits.moves⟩
  | settled _ hg hf =>
    intro r hr
    obtain ⟨hr, -⟩ | ⟨rfl, -⟩ := State.mem_settle hr
    · exact hsame r hr
    · exact .inr ⟨_, hg, hf.moves hwaits⟩
  | left => exact fun r hr => hsame r (State.mem_flush.1 hr).1
  | retained live hf =>
    intro r hr
    obtain ⟨hr, -⟩ | ⟨x, hx, rfl, -⟩ := State.mem_settleAll hr
    · exact hsame r hr
    · exact .inr ⟨_, hx, (hf _).moves hwaits⟩
  | emptied => exact fun r hr => hsame r (State.mem_flushAll hr).1
  | taken => exact hsame

theorem Effect.next_le {op : Op O T P} {a : Answer O T} {s' : State O T P} (he : Effect s op a s') :
    s.next ≤ s'.next := by
  have hsettle : ∀ (s : State O T P) (key) (g : Group O T P), (s.settle key g).next = s.next := by
    intro s key g
    obtain ⟨-, he⟩ | ⟨reason, he⟩ := State.settle_cases s key g
    · rw [he]
      rfl
    · rw [he]
      rfl
  have hsettleAll : ∀ (s : State O T P) (f) (rows), (s.settleAll f rows).next = s.next := by
    intro s f rows
    induction rows generalizing s with
    | nil => rfl
    | cons r rows ih => exact (ih _).trans (hsettle ..)
  have hflushAll : ∀ (s : State O T P) (reason) (rows), (s.flushAll reason rows).next = s.next := by
    intro s reason rows
    induction rows generalizing s with
    | nil => rfl
    | cons r rows ih => exact ih _
  cases he with
  | opened => exact Nat.le_succ _
  | emitted => exact Nat.le_of_eq (hsettle ..).symm
  | settled => exact Nat.le_of_eq (hsettle ..).symm
  | retained => exact Nat.le_of_eq (hsettleAll ..).symm
  | emptied closed => exact Nat.le_of_eq (hflushAll { s with closed := closed } _ _).symm
  | _ => exact Nat.le_refl _

end

/-! ## Runs -/

section

variable [DecidableEq O] [DecidableEq T]

/-- A call, and what the book says after it. -/
def step (x : State O T P × Book O T P) (op : Op O T P) : State O T P × Book O T P :=
  ((x.1.call op).2, x.2.note op (x.1.call op).1)

theorem inv_step {x : State O T P × Book O T P} (h : Inv limits x.1 x.2 ∧ x.1.Clear) (op : Op O T P) :
    Inv limits (step x op).1 (step x op).2 ∧ (step x op).1.Clear :=
  have he := effect_call h.1.uniques op
  ⟨h.1.effect he, he.clear h.2⟩

omit [DecidableEq O] [DecidableEq T] in
theorem inv_init : Inv limits (init limits : State O T P) Book.empty :=
  ⟨rfl, nodup_nil, nofun, nodup_nil, fun _ _ => ⟨rfl, rfl⟩, nofun, nofun, nodup_nil, nofun, rfl⟩

/-- A group that left is not stored again. -/
theorem not_reopened {x : State O T P × Book O T P} (h : Inv limits x.1 x.2 ∧ x.1.Clear) {key : ℕ}
    (hlt : key < x.1.next) (hgone : key ∉ x.1.groups.map Prod.fst) (more : List (Op O T P)) :
    key ∉ (run step x more).1.groups.map Prod.fst := by
  suffices hrun : (Inv limits (run step x more).1 (run step x more).2 ∧ (run step x more).1.Clear) ∧
      key < (run step x more).1.next ∧ key ∉ (run step x more).1.groups.map Prod.fst from hrun.2.2
  refine run_invariant (P := fun x : State O T P × Book O T P =>
    (Inv limits x.1 x.2 ∧ x.1.Clear) ∧ key < x.1.next ∧ key ∉ x.1.groups.map Prod.fst) ?_ more ⟨h, hlt, hgone⟩
  rintro x op ⟨h, hlt, hgone⟩
  have he := effect_call h.1.uniques op
  refine ⟨inv_step h op, Nat.lt_of_lt_of_le hlt he.next_le, fun hin => ?_⟩
  obtain ⟨r, hr, rfl⟩ := mem_map.1 hin
  obtain ⟨hk, -⟩ | ⟨g, hg, -⟩ := he.moves r hr
  · exact absurd hlt (by rw [hk]; exact Nat.lt_irrefl _)
  · exact hgone (mem_map.2 ⟨_, hg, rfl⟩)

/-- Who is told that a part was emitted held it started. -/
theorem started_of_emitted (hu : ∀ r ∈ s.groups, Table.Unique Prod.fst r.2.parts) {owner : Option O} {part : P}
    (h : (s.call (.emitted key owner part)).1 = .bool true) :
    ∃ g, (key, g) ∈ s.groups ∧ ∃ x ∈ g.parts, x.1 = part ∧ x.2.state = .started := by
  have he := effect_call hu (.emitted key owner part)
  rw [h] at he
  have hne : ¬ ∀ b : Book O T P, b.note (.emitted key owner part) (.bool true) = b := by
    intro hb
    have hspoken : (if key = key then [part] else []) = [] :=
      congrFun (congrArg Book.spoken (hb (Book.empty : Book O T P))) key
    rw [if_pos rfl] at hspoken
    cases hspoken
  generalize (s.call (.emitted key owner part)).2 = s' at he
  cases he with
  | refused hb => exact absurd hb hne
  | kept hb => exact absurd hb hne
  | settled hb => exact absurd hb hne
  | left hb => exact absurd hb hne
  | emitted hg hf hpart =>
    obtain ⟨x', hx', hp⟩ := hpart
    obtain ⟨x, hx, hname, -, hr⟩ := hf.part hx'
    have hxp : x.1 = part := hname.symm.trans hp
    exact ⟨_, hg, x, hx, hxp, (hr.1 hxp).1⟩

/-- Over every run each group is opened once and has at most one transcript, which is what the book says; the
transcripts handed out and those ready are all of them, in order. A group whose first part was emitted is stored or
has its transcript, not both. No stored group is complete, parts move only forward, and a group that left does not
come back. -/
theorem transcripts_once (limits : Limits) (ops : List (Op O T P)) :
    let x := run step (init limits, Book.empty) ops
    (x.2.opened.map Prod.fst).Nodup ∧ (x.1.log.map Prod.fst).Nodup ∧
      x.2.given ++ x.1.ready = x.1.log.map Prod.snd ∧
      (∀ e ∈ x.1.log, Left limits x.2 e.1 e.2) ∧
      (∀ o ∈ x.2.opened,
        o.1 ∈ x.1.groups.map Prod.fst ∨ x.2.emittedPrefix o.1 = [] ∨ o.1 ∈ x.1.log.map Prod.fst) ∧
      (∀ r ∈ x.1.groups, Held limits x.2 r.1 r.2 ∧ r.1 ∉ x.1.log.map Prod.fst ∧
        ¬ (r.2.finished ∧ ∀ y ∈ r.2.parts, y.2.state = .emitted ∨ y.2.state = .retired)) ∧
      (∀ op, x.1.Moves (x.1.call op).2) ∧
      (∀ key owner part, (x.1.call (.emitted key owner part)).1 = .bool true →
        ∃ g, (key, g) ∈ x.1.groups ∧ ∃ y ∈ g.parts, y.1 = part ∧ y.2.state = .started) ∧
      ∀ more, ∀ o ∈ x.2.opened, o.1 ∉ x.1.groups.map Prod.fst →
        o.1 ∉ (run step x more).1.groups.map Prod.fst := by
  intro x
  have h : Inv limits x.1 x.2 ∧ x.1.Clear :=
    run_invariant (P := fun x : State O T P × Book O T P => Inv limits x.1 x.2 ∧ x.1.Clear)
      (fun _ op h => inv_step h op) ops ⟨inv_init, nofun⟩
  refine ⟨h.1.opened, h.1.once, h.1.given, h.1.left, h.1.kept, fun r hr => ?_,
    fun op => (effect_call h.1.uniques op).moves, fun key owner part => started_of_emitted h.1.uniques, ?_⟩
  · refine ⟨(h.1.held r hr).1, (h.1.held r hr).2, fun hc => ?_⟩
    have hopen := h.2 r hr
    unfold Group.complete? Entry.settled at hopen
    simp [hc.1] at hopen
    obtain ⟨p, e, hmem, he⟩ := hopen
    exact (hc.2 _ hmem).elim he.1 he.2
  · exact fun more o ho hgone => not_reopened h (h.1.fresh o ho) hgone more

end

def sampleLimits : Limits := ⟨1, 2, 10, 10, by decide⟩

/-- A response of one part that is played, and one that is not. -/
def sampleOps : List (Op ℕ ℕ ℕ) :=
  [.openGroup (some 0) (some 0), .admitPart 0 (some 0) (some 0) 1 (some [104]),
    .admitPart 0 (some 0) (some 0) 2 (some [105]), .started 0 (some 0) 1 (.float 3), .emitted 0 (some 0) 1,
    .finish 0 (some 0), .close, .takeReady]

theorem transcripts_once_sample :
    let x := Runs.run step (init sampleLimits, Book.empty) sampleOps
    x.2.given.map GroupedTranscript.text = [[104]] ∧ x.2.given ++ x.1.ready = x.1.log.map Prod.snd :=
  ⟨by decide +kernel, (transcripts_once sampleLimits sampleOps).2.2.1⟩

end StrixAlloy.TranscriptGroups

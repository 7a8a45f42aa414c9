import StrixAlloy.PresentationHistory.Store
import StrixAlloy.PresentationHistory.Tree

/-!
# The body of a request

`_body` of the Voice resource reads a request with `JSON.parse`, and before that with a scanner of its own, which
refuses an object that names a member twice, an array, and a value nested too deep. A text is a list of UTF-16
units, and a position in it is the text that remains. What remains gets shorter with each value, which is why
the scanner ends.
-/

namespace StrixAlloy.VoiceResource

open PresentationHistory List Option

/-! ## The scanner -/

/-- `ws`. -/
def ws (s : JsStr) : JsStr := s.dropWhile isTrimmed

/-- The loop of `string`: a string behind its quote, with the quote that closes it, and what follows. -/
def untilQuote : JsStr → Option (JsStr × JsStr)
  | [] => none
  | c :: r =>
    if c = unit '\\' then
      match r with
      | [] => none
      | d :: r => (untilQuote r).map fun p => (c :: d :: p.1, p.2)
    else if c = unit '"' then some ([c], r)
    else (untilQuote r).map fun p => (c :: p.1, p.2)

/-- `string`, behind the quote. -/
def string (s : JsStr) : Option (JsStr × JsStr) :=
  match untilQuote s with
  | none => none
  | some (t, r) =>
    match parse (unit '"' :: t) with
    | some (.str k) => some (k, r)
    | _ => none

/-- What ends a primitive. -/
def stops (c : CodeUnit) : Bool := isTrimmed c || c = unit ',' || c = unit '}'

/-- A number or a word: everything up to the next blank, comma or brace. -/
def primitive (s : JsStr) : Option JsStr :=
  let token := s.takeWhile fun c => !stops c
  if token.isEmpty then none
  else if (parse token).isSome then some (s.dropWhile fun c => !stops c)
  else none

theorem length_ws_le {s t : JsStr} (h : ws s = t) : t.length ≤ s.length :=
  h ▸ (dropWhile_suffix isTrimmed).length_le

theorem length_ws {s r : JsStr} {c : CodeUnit} (h : ws s = c :: r) : r.length < s.length := length_ws_le h

theorem untilQuote_append {s t r : JsStr} (h : untilQuote s = some (t, r)) : s = t ++ r ∧ t ≠ [] := by
  fun_induction untilQuote s generalizing t with
  | case1 => cases h
  | case2 => cases h
  | case3 d s ih =>
    obtain ⟨⟨t', r'⟩, hread, ⟨⟩⟩ := map_eq_some_iff.1 h
    obtain ⟨rfl, -⟩ := ih hread
    exact ⟨rfl, cons_ne_nil _ _⟩
  | case4 =>
    cases h
    exact ⟨rfl, cons_ne_nil _ _⟩
  | case5 c s _ _ ih =>
    obtain ⟨⟨t', r'⟩, hread, ⟨⟩⟩ := map_eq_some_iff.1 h
    obtain ⟨rfl, -⟩ := ih hread
    exact ⟨rfl, cons_ne_nil _ _⟩

theorem length_string {s k r : JsStr} (h : string s = some (k, r)) : r.length < s.length := by
  unfold string at h
  split at h
  · cases h
  · rename_i t r' hread
    split at h
    · cases h
      obtain ⟨rfl, hne⟩ := untilQuote_append hread
      rw [length_append]
      have := length_pos_iff.2 hne
      omega
    · cases h

theorem length_primitive {s r : JsStr} (h : primitive s = some r) : r.length < s.length := by
  unfold primitive at h
  dsimp only at h
  split_ifs at h with hempty
  obtain rfl := Option.some.inj h
  have hsplit := congrArg List.length (takeWhile_append_dropWhile (p := fun c => !stops c) (l := s))
  rw [length_append] at hsplit
  have := length_pos_iff.2 fun hnil => hempty (isEmpty_iff.2 hnil)
  omega

/-- What remains behind the name and the colon of a member. -/
theorem length_member {s r r1 r2 k : JsStr} {c d : CodeUnit} (hs : ws s = c :: r) (hk : string r = some (k, r1))
    (h1 : ws r1 = d :: r2) : r2.length < s.length :=
  (length_ws h1).trans ((length_string hk).trans (length_ws hs))

mutual

/-- `value`: what remains behind a value, where the scanner does not throw. -/
def value (depth : ℕ) (s : JsStr) : Option {r : JsStr // r.length < s.length} :=
  if 8 < depth then none
  else
    match hs : ws s with
    | [] => none
    | c :: r =>
      if c = unit '"' then
        match hk : string r with
        | none => none
        | some (_, r') => some ⟨r', (length_string hk).trans (length_ws hs)⟩
      else if c = unit '{' then
        match hr : ws r with
        | [] => none
        | d :: r' =>
          if d = unit '}' then some ⟨r', (length_ws hr).trans (length_ws hs)⟩
          else
            match members depth [] (d :: r') with
            | none => none
            | some ⟨rest, h⟩ => some ⟨rest, (h.trans_le (length_ws_le hr)).trans (length_ws hs)⟩
      else if c = unit '[' then none
      else
        match hp : primitive (c :: r) with
        | none => none
        | some r' => some ⟨r', (length_primitive hp).trans_le (length_ws_le hs)⟩
termination_by s.length
decreasing_by
  exact (length_ws_le hr).trans_lt (length_ws hs)

/-- The loop over the members of an object, with the names it has seen. -/
def members (depth : ℕ) (keys : List JsStr) (s : JsStr) : Option {r : JsStr // r.length < s.length} :=
  match hs : ws s with
  | [] => none
  | c :: r =>
    if c ≠ unit '"' then none
    else
      match hk : string r with
      | none => none
      | some (k, r1) =>
        if k ∈ keys then none
        else
          match h1 : ws r1 with
          | [] => none
          | c :: r2 =>
            if c ≠ unit ':' then none
            else
              match value (depth + 1) r2 with
              | none => none
              | some ⟨r3, h3⟩ =>
                match h4 : ws r3 with
                | [] => none
                | c :: r4 =>
                  if c = unit '}' then some ⟨r4, (length_ws h4).trans (h3.trans (length_member hs hk h1))⟩
                  else if c ≠ unit ',' then none
                  else
                    match members depth (k :: keys) r4 with
                    | none => none
                    | some ⟨rest, h⟩ =>
                      some ⟨rest, h.trans ((length_ws h4).trans (h3.trans (length_member hs hk h1)))⟩
termination_by s.length
decreasing_by
  · exact length_member hs hk h1
  · exact (length_ws h4).trans (h3.trans (length_member hs hk h1))

end

/-- `_body` for the text of the request; nothing where it throws. -/
def body (text : JsStr) : Option (Value CodeUnit) :=
  if text = [] ∨ 8192 < text.length then none
  else
    match value 0 text with
    | none => none
    | some ⟨r, _⟩ => if ws r = [] then parse text else none

/-! ## What one call of the scanner does -/

/-- What remains behind a value. -/
def behind (depth : ℕ) (s : JsStr) : Option JsStr := (value depth s).map Subtype.val

/-- What remains behind the members of an object. -/
def behindMembers (depth : ℕ) (keys : List JsStr) (s : JsStr) : Option JsStr :=
  (members depth keys s).map Subtype.val

section

variable {depth : ℕ} {keys : List JsStr} {s r r' k : JsStr} {c d : CodeUnit}

theorem behind_deep (h : 8 < depth) : behind depth s = none := by
  unfold behind value
  rw [if_pos h]
  rfl

/-- One call of the scanner for a value that is not too deep. -/
theorem behind_cons (hd : depth ≤ 8) (hs : ws s = c :: r) : behind depth s =
    if c = unit '"' then (string r).map Prod.snd
    else if c = unit '{' then
      match ws r with
      | [] => none
      | d :: r' => if d = unit '}' then some r' else behindMembers depth [] (d :: r')
    else if c = unit '[' then none
    else primitive (c :: r) := by
  unfold behind value
  rw [if_neg (Nat.not_lt.2 hd)]
  split
  · rename_i hs'
    cases hs.symm.trans hs'
  rename_i hs'
  cases hs.symm.trans hs'
  split_ifs
  · split <;> (rename_i hk; exact (congrArg (Option.map Prod.snd) hk).symm)
  · split
    · rename_i hr
      simp only [hr]
      rfl
    rename_i hr
    simp only [hr]
    split_ifs
    · rfl
    · unfold behindMembers
      split <;> (rename_i hm; rw [hm]; rfl)
  · rfl
  · split <;> (rename_i hp; exact hp.symm)

theorem behind_array (hs : ws s = unit '[' :: r) : behind depth s = none := by
  by_cases hd : 8 < depth
  · exact behind_deep hd
  · rw [behind_cons (Nat.not_lt.1 hd) hs, if_neg (by decide), if_neg (by decide), if_pos rfl]

theorem behind_string (hd : depth ≤ 8) (hs : ws s = unit '"' :: r) (hk : string r = some (k, r')) :
    behind depth s = some r' := by
  rw [behind_cons hd hs, if_pos rfl, hk]
  rfl

theorem behind_empty (hd : depth ≤ 8) (hs : ws s = unit '{' :: r) (hr : ws r = unit '}' :: r') :
    behind depth s = some r' := by
  rw [behind_cons hd hs, if_neg (by decide), if_pos rfl, hr]
  exact if_pos rfl

theorem behind_members (hd : depth ≤ 8) (hs : ws s = unit '{' :: r) (hr : ws r = d :: r') (hne : d ≠ unit '}') :
    behind depth s = behindMembers depth [] (d :: r') := by
  rw [behind_cons hd hs, if_neg (by decide), if_pos rfl, hr]
  exact if_neg hne

theorem behind_primitive (hd : depth ≤ 8) (hs : ws s = c :: r) (hquote : c ≠ unit '"') (hbrace : c ≠ unit '{')
    (hbracket : c ≠ unit '[') : behind depth s = primitive (c :: r) := by
  rw [behind_cons hd hs, if_neg hquote, if_neg hbrace, if_neg hbracket]

/-- One round of the loop. -/
theorem behindMembers_eq {r1 r2 : JsStr} (hs : ws s = unit '"' :: r) (hk : string r = some (k, r1))
    (h1 : ws r1 = unit ':' :: r2) : behindMembers depth keys s =
      if k ∈ keys then none
      else (behind (depth + 1) r2).bind fun r3 =>
        match ws r3 with
        | [] => none
        | c :: r4 =>
          if c = unit '}' then some r4
          else if c ≠ unit ',' then none
          else behindMembers depth (k :: keys) r4 := by
  rw [show behindMembers depth keys s = (members depth keys s).map Subtype.val from rfl, members]
  split
  · rename_i hs'
    cases hs.symm.trans hs'
  rename_i hs'
  cases hs.symm.trans hs'
  rw [if_neg (not_not.2 rfl)]
  split
  · rename_i hk'
    cases hk.symm.trans hk'
  rename_i hk'
  cases hk.symm.trans hk'
  split_ifs with hmem
  · rfl
  split
  · rename_i h1'
    cases h1.symm.trans h1'
  rename_i h1'
  cases h1.symm.trans h1'
  rw [if_neg (not_not.2 rfl)]
  unfold behind
  split
  · rename_i hv
    rw [hv]
    rfl
  rename_i r3 h3 hv
  rw [hv, map_some, bind_some]
  split
  · rename_i h4
    simp only [h4]
    rfl
  rename_i h4
  simp only [h4]
  split_ifs
  · rfl
  · rfl
  unfold behindMembers
  split
  · rename_i hm
    rw [hm]
    rfl
  · rename_i hm
    rw [hm]
    rfl

end

/-! ## The texts that both read -/

theorem ws_cons {c : CodeUnit} {r : JsStr} (h : isTrimmed c = false) : ws (c :: r) = c :: r :=
  dropWhile_cons_of_neg (by rw [h]; exact Bool.false_ne_true)

theorem isTrimmed_of_blank {c : CodeUnit} (h : c.val = 9 || c.val = 10 || c.val = 13 || c.val = 32) :
    isTrimmed c := by
  simp only [Bool.or_eq_true, decide_eq_true_eq] at h
  simp only [isTrimmed, Bool.or_eq_true, Bool.and_eq_true, decide_eq_true_eq]
  omega

/-- What `JSON.parse` skips, the scanner skips. -/
theorem ws_skip (s : JsStr) : ws (skip s) = ws s := by
  induction s with
  | nil => rfl
  | cons c s ih =>
    unfold skip at ih ⊢
    rw [dropWhile_cons]
    split_ifs with hc
    · rw [ih, ws, ws, dropWhile_cons_of_pos (isTrimmed_of_blank hc)]
    · rfl

theorem ws_of_skip {s r : JsStr} {c : CodeUnit} (h : skip s = c :: r) (hc : isTrimmed c = false) :
    ws s = c :: r := by
  rw [← ws_skip, h, ws_cons hc]

/-! ### Strings -/

theorem untilQuote_quote (r : JsStr) : untilQuote (unit '"' :: r) = some ([unit '"'], r) := by
  rw [untilQuote.eq_def]
  rfl

theorem untilQuote_back (c : CodeUnit) (r : JsStr) :
    untilQuote (unit '\\' :: c :: r) = (untilQuote r).map fun p => (unit '\\' :: c :: p.1, p.2) := by
  rw [untilQuote.eq_def]
  rfl

theorem untilQuote_plain {c : CodeUnit} {r : JsStr} (hback : c ≠ unit '\\') (hquote : c ≠ unit '"') :
    untilQuote (c :: r) = (untilQuote r).map fun p => (c :: p.1, p.2) := by
  rw [untilQuote.eq_def]
  dsimp only
  rw [if_neg hback, if_neg hquote]

/-- The scanner's loop where a reader stands in a string. -/
def untilQuoteAt (m : Mode) (s : JsStr) : Option (JsStr × JsStr) :=
  match m, s with
  | .escape, c :: r => (untilQuote r).map fun p => (c :: p.1, p.2)
  | .escape, [] => none
  | .plain, s => untilQuote s
  | .hex _ _, s => untilQuote s

theorem hexDigit?_plain {c : CodeUnit} {d : ℕ} (h : hexDigit? c = some d) : c ≠ unit '\\' ∧ c ≠ unit '"' := by
  constructor
  · rintro rfl
    exact absurd h (by rw [show hexDigit? (unit '\\') = none by decide]; nofun)
  · rintro rfl
    exact absurd h (by rw [show hexDigit? (unit '"') = none by decide]; nofun)

/-- The scanner finds the quote that closes a string. -/
theorem untilQuote_of_readUnits {m : Mode} {s k r : JsStr} (h : readUnits m s = some (k, r)) :
    ∃ t, untilQuoteAt m s = some (t, r) := by
  fun_induction readUnits m s generalizing k with
  | case1 => cases h
  | case2 s =>
    cases h
    exact ⟨_, untilQuote_quote _⟩
  | case3 => cases h
  | case4 s _ _ ih =>
    obtain ⟨t, ht⟩ := ih h
    cases s with
    | nil => cases ht
    | cons c s =>
      obtain ⟨⟨t', r'⟩, hread, heq⟩ := map_eq_some_iff.1 ht
      obtain ⟨-, rfl⟩ := Prod.mk.inj heq
      exact ⟨_, (untilQuote_back c s).trans (congrArg _ hread)⟩
  | case5 u s hu _ hback ih =>
    obtain ⟨⟨k', r'⟩, hread, ⟨⟩⟩ := map_eq_some_iff.1 h
    obtain ⟨t, ht⟩ := ih hread
    exact ⟨_, (untilQuote_plain hback hu).trans (congrArg _ ht)⟩
  | case6 s ih =>
    obtain ⟨t, ht⟩ := ih h
    exact ⟨_, congrArg (Option.map _) ht⟩
  | case7 u s hu v hv ih =>
    obtain ⟨⟨k', r'⟩, hread, ⟨⟩⟩ := map_eq_some_iff.1 h
    obtain ⟨t, ht⟩ := ih hread
    exact ⟨_, congrArg (Option.map _) ht⟩
  | case8 => cases h
  | case9 => cases h
  | case10 value u s d hd ih =>
    obtain ⟨⟨k', r'⟩, hread, ⟨⟩⟩ := map_eq_some_iff.1 h
    obtain ⟨t, ht⟩ := ih hread
    obtain ⟨hback, hquote⟩ := hexDigit?_plain hd
    exact ⟨_, (untilQuote_plain hback hquote).trans (congrArg _ ht)⟩
  | case11 value u s d n hd ih =>
    obtain ⟨t, ht⟩ := ih h
    obtain ⟨hback, hquote⟩ := hexDigit?_plain hd
    exact ⟨_, (untilQuote_plain hback hquote).trans (congrArg _ ht)⟩

/-- The scanner reads a string as `JSON.parse` does. -/
theorem string_of_readUnits {s k r : JsStr} (h : readUnits .plain s = some (k, r)) : string s = some (k, r) := by
  obtain ⟨t, ht⟩ := untilQuote_of_readUnits h
  have huntil : untilQuote s = some (t, r) := ht
  obtain ⟨t', hsplit, hread⟩ := readUnits_text h
  obtain rfl : t' = t := append_cancel_right (hsplit.symm.trans (untilQuote_append huntil).1)
  have hread := hread []
  rw [append_nil] at hread
  have hparse : parse (unit '"' :: t') = some (.str k) := by
    unfold parse
    rw [length_cons]
    simp only [readValue, skip_cons (show 32 < (unit '"').val by decide), if_true, hread, map_some]
    rfl
  unfold string
  rw [huntil]
  dsimp only
  rw [hparse]

/-! ### Numbers and words -/

/-- A text that ends, or goes on with what ends a primitive. -/
def Ends (r : JsStr) : Prop := ∀ c ∈ r.head?, stops c

theorem primitive_append {t r : JsStr} (hne : t ≠ []) (ht : ∀ c ∈ t, stops c = false) (hr : Ends r)
    (hparse : (parse t).isSome) : primitive (t ++ r) = some r := by
  have hgo : ∀ c ∈ t, (!stops c) := fun c hc => by rw [ht c hc]; rfl
  have htail : r.takeWhile (fun c => !stops c) = [] ∧ r.dropWhile (fun c => !stops c) = r := by
    cases r with
    | nil => exact ⟨rfl, rfl⟩
    | cons c r =>
      have hc : ¬(!stops c) := by rw [hr c rfl]; exact Bool.false_ne_true
      exact ⟨takeWhile_cons_of_neg hc, dropWhile_cons_of_neg hc⟩
  unfold primitive
  dsimp only
  rw [takeWhile_append_of_pos hgo, dropWhile_append_of_pos hgo, htail.1, htail.2, append_nil,
    if_neg fun h => hne (isEmpty_iff.1 h), if_pos hparse]

theorem stops_of_numeric {c : CodeUnit} (h : isNumeric c) : stops c = false := by
  rw [isNumeric, Bool.or_eq_true] at h
  rcases h with h | h
  · have hcomma : c ≠ unit ',' := by
      rintro rfl
      exact absurd h (by decide)
    have hbrace : c ≠ unit '}' := by
      rintro rfl
      exact absurd h (by decide)
    simp only [isDigitUnit, Bool.and_eq_true, decide_eq_true_eq] at h
    simp only [stops, isTrimmed, Bool.or_eq_false_iff, Bool.and_eq_false_iff, decide_eq_false_iff_not]
    refine ⟨⟨?_, hcomma⟩, hbrace⟩
    omega
  · have hall : [unit '-', unit '+', unit '.', unit 'e', unit 'E'].all fun d => !stops d := by decide
    exact (Bool.not_eq_true' _).mp (List.all_eq_true.1 hall c (elem_iff.1 h))

/-- What begins as a number is read as one. -/
theorem readValue_number {fuel : ℕ} {u : CodeUnit} (t : JsStr) (h : isDigitUnit u ∨ u = unit '-') :
    readValue (fuel + 1) (u :: t) = readNumber (u :: t) := by
  have hne : ∀ v : CodeUnit, isDigitUnit v = false → v ≠ unit '-' → u ≠ v := by
    rintro v hd hm rfl
    rcases h with h | h
    · rw [hd] at h
      cases h
    · exact hm h
  have hlow : 32 < u.val := by
    rcases h with h | rfl
    · simp only [isDigitUnit, Bool.and_eq_true, decide_eq_true_eq] at h
      omega
    · decide
  have hletter : ∀ {v : CodeUnit} {w : JsStr}, isDigitUnit v = false → v ≠ unit '-' → ¬v :: w <+: u :: t :=
    fun hd hm hp => hne _ hd hm (cons_prefix_cons.1 hp).1.symm
  simp only [readValue, skip_cons hlow]
  rw [if_neg (hne _ (by decide) (by decide)), if_neg (hne _ (by decide) (by decide)),
    if_neg (hne _ (by decide) (by decide)), if_neg (by rw [js_literals.1]; exact hletter (by decide) (by decide)),
    if_neg (by rw [js_literals.2.1]; exact hletter (by decide) (by decide)),
    if_neg (by rw [js_literals.2.2]; exact hletter (by decide) (by decide))]

theorem primitive_of_number {u : CodeUnit} {s r : JsStr} {v : Value CodeUnit} (h : readNumber (u :: s) = some (v, r))
    (hr : Ends r) : primitive (u :: s) = some r ∧ (isDigitUnit u ∨ u = unit '-') := by
  obtain ⟨w, t, hsplit, hnumeric, hfirst, hread⟩ := readNumber_text h
  obtain ⟨rfl, rfl⟩ := List.cons.inj hsplit
  refine ⟨?_, hfirst⟩
  refine primitive_append (cons_ne_nil u t) (fun c hc => stops_of_numeric (hnumeric c hc)) hr ?_
  unfold parse
  rw [length_cons, readValue_number t hfirst, hread]
  rfl

/-- The words are read by both. -/
theorem primitive_of_word {w s r : JsStr} (hw : w ∈ [js "null", js "true", js "false"]) (hs : s = w ++ r)
    (hr : Ends r) : primitive s = some r := by
  have hall : [js "null", js "true", js "false"].all fun w =>
      !w.isEmpty && w.all (fun c => !stops c) && (parse w).isSome := by decide +kernel
  have hword := List.all_eq_true.1 hall w hw
  rw [Bool.and_eq_true, Bool.and_eq_true, List.all_eq_true] at hword
  obtain ⟨⟨hne, hstops⟩, hparse⟩ := hword
  rw [hs]
  refine primitive_append ?_ (fun c hc => (Bool.not_eq_true' _).mp (hstops c hc)) hr hparse
  rintro rfl
  cases hne

/-! ## What the scanner accepts -/

mutual

/-- No arrays. -/
def plain : Value CodeUnit → Bool
  | .list _ => false
  | .dict members => plainMembers members
  | _ => true

def plainMembers : List (JsStr × Value CodeUnit) → Bool
  | [] => true
  | (_, v) :: ms => plain v && plainMembers ms

end

mutual

/-- How deep the values in a value are nested. -/
def nesting : Value CodeUnit → ℕ
  | .list items => nestingItems items
  | .dict members => nestingMembers members
  | _ => 0

def nestingItems : List (Value CodeUnit) → ℕ
  | [] => 0
  | v :: vs => max (nesting v + 1) (nestingItems vs)

def nestingMembers : List (JsStr × Value CodeUnit) → ℕ
  | [] => 0
  | (_, v) :: ms => max (nesting v + 1) (nestingMembers ms)

end

/-- What the scanner asks of a value that stands at a depth. -/
def fits (depth : ℕ) (v : Value CodeUnit) : Bool := depth + nesting v ≤ 8 && plain v && v.unique

/-- What it asks of members behind others. -/
def fitsMembers (depth : ℕ) (keys : List JsStr) (ms : List (JsStr × Value CodeUnit)) : Bool :=
  depth + nestingMembers ms ≤ 8 && plainMembers ms && Value.uniqueMembers ms && (ms.map Prod.fst).Nodup &&
    keys.all fun k => k ∉ ms.map Prod.fst

theorem fits_iff {depth : ℕ} {v : Value CodeUnit} :
    fits depth v ↔ depth + nesting v ≤ 8 ∧ plain v ∧ v.unique := by
  rw [fits, Bool.and_eq_true, Bool.and_eq_true, decide_eq_true_eq, and_assoc]

theorem fitsMembers_iff {depth : ℕ} {keys : List JsStr} {ms : List (JsStr × Value CodeUnit)} :
    fitsMembers depth keys ms ↔ depth + nestingMembers ms ≤ 8 ∧ plainMembers ms ∧ Value.uniqueMembers ms ∧
      (ms.map Prod.fst).Nodup ∧ ∀ k ∈ keys, k ∉ ms.map Prod.fst := by
  simp only [fitsMembers, Bool.and_eq_true, decide_eq_true_eq, and_assoc, List.all_eq_true]

theorem fits_dict {depth : ℕ} {ms : List (JsStr × Value CodeUnit)} :
    fits depth (.dict ms) ↔ fitsMembers depth [] ms := by
  rw [fits_iff, fitsMembers_iff, nesting, plain, Value.unique, Bool.and_eq_true, decide_eq_true_eq]
  constructor
  · rintro ⟨hdepth, hplain, hnodup, hunique⟩
    exact ⟨hdepth, hplain, hunique, hnodup, nofun⟩
  · rintro ⟨hdepth, hplain, hunique, hnodup, -⟩
    exact ⟨hdepth, hplain, hnodup, hunique⟩

theorem fitsMembers_cons {depth : ℕ} {keys : List JsStr} {k : JsStr} {v : Value CodeUnit}
    {ms : List (JsStr × Value CodeUnit)} : fitsMembers depth keys ((k, v) :: ms) ↔
      k ∉ keys ∧ fits (depth + 1) v ∧ fitsMembers depth (k :: keys) ms := by
  simp only [fits_iff, fitsMembers_iff, nestingMembers, plainMembers, Value.uniqueMembers, Bool.and_eq_true,
    map_cons, nodup_cons, mem_cons, not_or]
  constructor
  · rintro ⟨hdepth, ⟨hv, hms⟩, ⟨huv, hums⟩, ⟨hk, hnodup⟩, hkeys⟩
    refine ⟨fun hmem => (hkeys k hmem).1 rfl, ⟨by omega, hv, huv⟩, by omega, hms, hums, hnodup, ?_⟩
    rintro k' (rfl | hmem)
    · exact hk
    · exact (hkeys k' hmem).2
  · rintro ⟨hnew, ⟨hdepthv, hv, huv⟩, hdepth, hms, hums, hnodup, hkeys⟩
    refine ⟨by omega, ⟨hv, hms⟩, ⟨huv, hums⟩, ⟨hkeys k (.inl rfl), hnodup⟩, fun k' hmem => ⟨?_, hkeys k' (.inr hmem)⟩⟩
    rintro rfl
    exact hnew hmem

theorem ends_of_skip {r r' : JsStr} {c : CodeUnit} (h : skip r = c :: r') (hc : stops c) : Ends r := by
  cases r with
  | nil => exact nofun
  | cons d r =>
    intro e he
    cases he
    by_cases hd : d.val = 9 || d.val = 10 || d.val = 13 || d.val = 32
    · rw [stops, isTrimmed_of_blank hd, Bool.true_or, Bool.true_or]
    · rw [skip, dropWhile_cons, if_neg hd] at h
      cases h
      exact hc

section

variable {depth fuel : ℕ} {s t r : JsStr} {u : CodeUnit} {v : Value CodeUnit}

theorem behind_word {w : JsStr} (hd : depth ≤ 8) (hs : skip s = u :: t)
    (hw : w ∈ [js "null", js "true", js "false"]) (ht : u :: t = w ++ r) (hr : Ends r) : behind depth s = some r := by
  have hall : [js "null", js "true", js "false"].all fun w => w.head? ∈ [unit 'n', unit 't', unit 'f'].map some := by
    decide +kernel
  have hhead := of_decide_eq_true (List.all_eq_true.1 hall w hw)
  have hu : u ∈ [unit 'n', unit 't', unit 'f'] := by
    obtain ⟨c, hc, hhead⟩ := mem_map.1 hhead
    obtain rfl : u = c := by
      have h := congrArg List.head? ht
      rw [List.head?_append, ← hhead] at h
      exact Option.some.inj h
    exact hc
  have hletter : isTrimmed u = false ∧ u ≠ unit '"' ∧ u ≠ unit '{' ∧ u ≠ unit '[' := by
    simp only [mem_cons, not_mem_nil, or_false] at hu
    rcases hu with rfl | rfl | rfl <;> decide
  obtain ⟨htrim, hquote, hbrace, hbracket⟩ := hletter
  rw [behind_primitive hd (ws_of_skip hs htrim) hquote hbrace hbracket]
  exact primitive_of_word hw ht hr

theorem behind_number (hd : depth ≤ 8) (hs : skip s = u :: t) (h : readNumber (u :: t) = some (v, r)) (hr : Ends r) :
    behind depth s = some r := by
  obtain ⟨hread, hfirst⟩ := primitive_of_number h hr
  have hne : ∀ c : CodeUnit, isDigitUnit c = false → c ≠ unit '-' → u ≠ c := by
    rintro c hdigit hminus rfl
    rcases hfirst with hu | hu
    · rw [hdigit] at hu
      cases hu
    · exact hminus hu
  have htrim : isTrimmed u = false := by
    have hstops : stops u = false := by
      rcases hfirst with hu | rfl
      · exact stops_of_numeric (isNumeric_of_digit hu)
      · decide
    simp only [stops, Bool.or_eq_false_iff] at hstops
    exact hstops.1.1
  rw [behind_primitive hd (ws_of_skip hs htrim) (hne _ (by decide) (by decide)) (hne _ (by decide) (by decide))
    (hne _ (by decide) (by decide))]
  exact hread

theorem skip_skip (s : JsStr) : skip (skip s) = skip s := by
  induction s with
  | nil => rfl
  | cons c s ih =>
    unfold skip at ih ⊢
    rw [dropWhile_cons]
    split_ifs with hc
    · exact ih
    · rw [dropWhile_cons, if_neg hc]

/-- Members begin with the quote of a name. -/
theorem readFields_head {p : List (JsStr × Value CodeUnit) × JsStr} (h : readFields fuel s = some p) :
    ∃ t, skip s = unit '"' :: t ∧ readFields fuel (skip s) = some p := by
  cases fuel with
  | zero => cases h
  | succ fuel =>
    have hskip : readFields (fuel + 1) (skip s) = readFields (fuel + 1) s := by
      rw [readFields, readFields, skip_skip]
    rw [hskip]
    refine Exists.imp (fun t ht => ⟨ht, h⟩) ?_
    rw [readFields] at h
    cases hs : skip s with
    | nil =>
      rw [hs] at h
      cases h
    | cons c t =>
      rw [hs] at h
      dsimp only at h
      by_cases hquote : c = unit '"'
      · exact ⟨t, by rw [hquote]⟩
      · rw [if_pos hquote] at h
        cases h

end

section

variable {fuel depth : ℕ} {keys : List JsStr} {s r : JsStr} {v : Value CodeUnit}
  {ms : List (JsStr × Value CodeUnit)}

theorem fits_scalar (hd : depth ≤ 8) (hplain : plain v) (hunique : v.unique) (hnesting : nesting v = 0) :
    fits depth v := fits_iff.2 ⟨by rw [hnesting]; exact hd, hplain, hunique⟩

/-- An array is refused. -/
theorem scan_array {t : JsStr} (hs : skip s = unit '[' :: t) (hplain : plain v = false) :
    behind depth s = if fits depth v then some r else none := by
  rw [behind_array (ws_of_skip hs (by decide)), if_neg]
  intro hfits
  rw [(fits_iff.1 hfits).2.1] at hplain
  cases hplain

/-- What the scanner does at a value, where it does so at members. -/
theorem scan_value
    (ihm : ∀ {s ms r} depth keys, readFields fuel s = some (ms, r) → depth ≤ 8 →
      behindMembers depth keys s = if fitsMembers depth keys ms then some r else none)
    (h : readTree (fuel + 1) s = some (v, r)) (hr : Ends r) :
    behind depth s = if fits depth v then some r else none := by
  by_cases hdepth : depth ≤ 8
  swap
  · rw [behind_deep (Nat.not_le.1 hdepth), if_neg]
    intro hfits
    have := (fits_iff.1 hfits).1
    omega
  rw [readTree] at h
  cases hs : skip s with
  | nil =>
    rw [hs] at h
    cases h
  | cons u t =>
  rw [hs] at h
  dsimp only at h
  have hword : ∀ {w : JsStr} {n : ℕ}, w ∈ [js "null", js "true", js "false"] → w.length = n →
      w <+: u :: t → (u :: t).drop n = r → behind depth s = some r := by
    rintro w n hw hlen ⟨r', ht⟩ hdrop
    rw [← ht, drop_left' hlen] at hdrop
    exact behind_word hdepth hs hw (hdrop ▸ ht.symm) hr
  split_ifs at h with hquote hbracket hbrace hnull htrue hfalse
  · obtain ⟨⟨k, r'⟩, hk, heq⟩ := map_eq_some_iff.1 h
    cases heq
    subst hquote
    rw [behind_string hdepth (ws_of_skip hs (by decide)) (string_of_readUnits hk),
      if_pos (fits_scalar hdepth rfl rfl rfl)]
  · subst hbracket
    cases ht : skip t with
    | nil =>
      rw [ht] at h
      cases h
    | cons d t' =>
    rw [ht] at h
    dsimp only at h
    split_ifs at h
    · cases h
      exact scan_array hs rfl
    · obtain ⟨p, -, heq⟩ := map_eq_some_iff.1 h
      cases heq
      exact scan_array hs rfl
  · subst hbrace
    cases ht : skip t with
    | nil =>
      rw [ht] at h
      cases h
    | cons d t' =>
    rw [ht] at h
    dsimp only at h
    split_ifs at h with hclose
    · cases h
      subst hclose
      rw [behind_empty hdepth (ws_of_skip hs (by decide)) (ws_of_skip ht (by decide)),
        if_pos (fits_scalar hdepth rfl rfl rfl)]
    · obtain ⟨⟨ms, r'⟩, hms, heq⟩ := map_eq_some_iff.1 h
      cases heq
      obtain ⟨t'', hhead, hread⟩ := readFields_head hms
      obtain ⟨rfl, rfl⟩ := List.cons.inj (ht.symm.trans hhead)
      rw [ht] at hread
      rw [behind_members hdepth (ws_of_skip hs (by decide)) (ws_of_skip ht (by decide)) hclose,
        ihm depth [] hread hdepth]
      simp only [fits_dict]
  · cases h
    rw [hword (by decide) (by decide +kernel) hnull rfl, if_pos (fits_scalar hdepth rfl rfl rfl)]
  · cases h
    rw [hword (by decide) (by decide +kernel) htrue rfl, if_pos (fits_scalar hdepth rfl rfl rfl)]
  · cases h
    rw [hword (by decide) (by decide +kernel) hfalse rfl, if_pos (fits_scalar hdepth rfl rfl rfl)]
  · have hfits : fits depth v := by
      rcases readNumber_cases h with ⟨n, rfl⟩ | ⟨x, rfl⟩
      · exact fits_scalar hdepth rfl rfl rfl
      · exact fits_scalar hdepth rfl rfl rfl
    rw [behind_number hdepth hs h hr, if_pos hfits]

/-- What the scanner does at members, where it does so at values and at the members behind. -/
theorem scan_members
    (ihv : ∀ {s v r} depth, readTree fuel s = some (v, r) → Ends r →
      behind depth s = if fits depth v then some r else none)
    (ihm : ∀ {s ms r} depth keys, readFields fuel s = some (ms, r) → depth ≤ 8 →
      behindMembers depth keys s = if fitsMembers depth keys ms then some r else none)
    (h : readFields (fuel + 1) s = some (ms, r)) (hdepth : depth ≤ 8) :
    behindMembers depth keys s = if fitsMembers depth keys ms then some r else none := by
  rw [readFields] at h
  cases hs : skip s with
  | nil =>
    rw [hs] at h
    cases h
  | cons c t =>
  rw [hs] at h
  dsimp only at h
  by_cases hquote : c = unit '"'
  swap
  · rw [if_pos hquote] at h
    cases h
  rw [if_neg (not_not.2 hquote)] at h
  subst hquote
  obtain ⟨⟨k, r1⟩, hk, h⟩ := bind_eq_some_iff.1 h
  dsimp only at h
  cases h1 : skip r1 with
  | nil =>
    rw [h1] at h
    cases h
  | cons c r2 =>
  rw [h1] at h
  dsimp only at h
  by_cases hcolon : c = unit ':'
  swap
  · rw [if_pos hcolon] at h
    cases h
  rw [if_neg (not_not.2 hcolon)] at h
  subst hcolon
  obtain ⟨⟨v, r3⟩, hv, h⟩ := bind_eq_some_iff.1 h
  dsimp only at h
  rw [behindMembers_eq (ws_of_skip hs (by decide)) (string_of_readUnits hk) (ws_of_skip h1 (by decide))]
  cases h3 : skip r3 with
  | nil =>
    rw [h3] at h
    cases h
  | cons c r4 =>
  rw [h3] at h
  dsimp only at h
  split_ifs at h with hcomma hbrace
  · subst hcomma
    obtain ⟨⟨ms', r'⟩, hms, heq⟩ := map_eq_some_iff.1 h
    cases heq
    have hws := ws_of_skip h3 (by decide)
    rw [ihv (depth + 1) hv (ends_of_skip h3 (by decide))]
    by_cases hk : k ∈ keys
    · rw [if_pos hk, if_neg fun hf => (fitsMembers_cons.1 hf).1 hk]
    rw [if_neg hk]
    by_cases hfits : fits (depth + 1) v
    · rw [if_pos hfits, bind_some, hws]
      dsimp only
      rw [if_neg (by decide), if_neg (not_not.2 rfl), ihm depth (k :: keys) hms hdepth]
      simp only [fitsMembers_cons, hk, hfits, not_false_iff, true_and]
    · rw [if_neg hfits, if_neg fun hf => hfits (fitsMembers_cons.1 hf).2.1]
      rfl
  · subst hbrace
    cases h
    have hws := ws_of_skip h3 (by decide)
    have hlast : ∀ keys, fitsMembers depth keys [] := fun keys =>
      fitsMembers_iff.2 ⟨hdepth, rfl, rfl, nodup_nil, fun _ _ => not_mem_nil⟩
    rw [ihv (depth + 1) hv (ends_of_skip h3 (by decide))]
    by_cases hk : k ∈ keys
    · rw [if_pos hk, if_neg fun hf => (fitsMembers_cons.1 hf).1 hk]
    rw [if_neg hk]
    by_cases hfits : fits (depth + 1) v
    · rw [if_pos hfits, bind_some, hws, if_pos (fitsMembers_cons.2 ⟨hk, hfits, hlast _⟩)]
      rfl
    · rw [if_neg hfits, if_neg fun hf => hfits (fitsMembers_cons.1 hf).2.1]
      rfl

end

/-- Where a text begins with a value, the scanner passes it or throws, by what the value is. The induction is on
the fuel of the reader. -/
theorem scan (fuel : ℕ) :
    (∀ {s v r} depth, readTree fuel s = some (v, r) → Ends r →
      behind depth s = if fits depth v then some r else none) ∧
    ∀ {s ms r} depth keys, readFields fuel s = some (ms, r) → depth ≤ 8 →
      behindMembers depth keys s = if fitsMembers depth keys ms then some r else none := by
  induction fuel with
  | zero => exact ⟨nofun, nofun⟩
  | succ fuel ih =>
    exact ⟨fun _ h hr => scan_value ih.2 h hr, fun _ _ h hdepth => scan_members ih.1 ih.2 h hdepth⟩

/-! ## The requests that are accepted -/

theorem ends_of_skip_nil {r : JsStr} (h : skip r = []) : Ends r := by
  intro c hc
  have hblank := dropWhile_eq_nil_iff.1 h c (mem_of_mem_head? hc)
  rw [stops, isTrimmed_of_blank hblank, Bool.true_or, Bool.true_or]

theorem tree_eq_some {text : JsStr} {t : Value CodeUnit} (h : tree text = some t) :
    ∃ r, readTree text.length text = some (t, r) ∧ skip r = [] := by
  unfold tree at h
  split at h
  · rename_i v r hread
    split_ifs at h with hempty
    cases h
    exact ⟨r, hread, isEmpty_iff.1 hempty⟩
  · cases h

/-- `_body` returns a value if and only if the text is not empty, has at most 8192 units and is a JSON text
without arrays, in which no object names a member twice and no value is nested deeper than in eight objects;
the value is that of `JSON.parse`. -/
theorem body_eq_some_iff (text : JsStr) (v : Value CodeUnit) :
    body text = some v ↔ text ≠ [] ∧ text.length ≤ 8192 ∧ parse text = some v ∧
      ∃ t, tree text = some t ∧ plain t ∧ t.unique ∧ nesting t ≤ 8 := by
  have hscan : ∀ {t}, tree text = some t → ∃ r, ws r = [] ∧ behind 0 text = if fits 0 t then some r else none := by
    intro t ht
    obtain ⟨r, hread, hskip⟩ := tree_eq_some ht
    refine ⟨r, ?_, (scan text.length).1 0 hread (ends_of_skip_nil hskip)⟩
    rw [← ws_skip, hskip]
    rfl
  unfold body
  constructor
  · intro h
    split_ifs at h with hlen
    rw [not_or, not_lt] at hlen
    split at h
    · cases h
    rename_i r hr hv
    split_ifs at h
    refine ⟨hlen.1, hlen.2, h, ?_⟩
    obtain ⟨t, ht, -⟩ := map_eq_some_iff.1 ((parse_eq text).symm.trans h)
    obtain ⟨r', -, hbehind⟩ := hscan ht
    rw [behind, hv] at hbehind
    split_ifs at hbehind with hfits
    swap
    · cases hbehind
    obtain ⟨hdepth, hplain, hunique⟩ := fits_iff.1 hfits
    exact ⟨t, ht, hplain, hunique, by omega⟩
  · rintro ⟨hne, hlen, hparse, t, ht, hplain, hunique, hdepth⟩
    obtain ⟨r, hws, hbehind⟩ := hscan ht
    rw [if_pos (fits_iff.2 ⟨by omega, hplain, hunique⟩), behind] at hbehind
    obtain ⟨⟨r', hr⟩, hv, rfl⟩ := map_eq_some_iff.1 hbehind
    rw [if_neg (not_or.2 ⟨hne, Nat.not_lt.2 hlen⟩), hv]
    dsimp only
    rw [if_pos hws, hparse]

end StrixAlloy.VoiceResource

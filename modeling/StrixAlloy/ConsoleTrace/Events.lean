import StrixAlloy.ConsoleTrace.Decoder

/-!
# The events of a stream

What a stream says, line by line: `splitLines` finds its lines and `events` the events between blank ones. An
event within the limit is told by its own lines (`Event.told`).

The decoder counts a terminator for every line, so the lines of an event may make `MAX_EVENT_BYTES + 1` bytes when
each of them passed the limit. Such an event is at the brim: the blank line after it is the one that passes the
limit, and is not taken for a blank line. The event that follows is lost. `dispatched_iff` says that the decoder
tells every event within the limit, and tells it right, exactly where no event at the brim comes before one that is
to be told.
-/

namespace StrixAlloy.ConsoleTrace

open Decoder List

/-- A line: the number of its bytes, and its text, without a byte order mark. -/
structure Line where
  bytes : ℕ
  text : Bytes

abbrev Event := List Line

/-- The lines of a stream and what comes after the last of them, from the part of a line already read. -/
def splitLines (skip_lf : Bool) (part : Bytes) : Bytes → List Bytes × Bytes
  | [] => ([], part)
  | b :: rest =>
    if skip_lf ∧ b = LF then splitLines false part rest
    else if b = CR then
      let r := splitLines true [] rest
      (part :: r.1, r.2)
    else if b = LF then
      let r := splitLines false [] rest
      (part :: r.1, r.2)
    else splitLines false (part ++ [b]) rest

def Line.plain (l : Bytes) : Line := ⟨l.length, l⟩

/-- The lines without the byte order mark of the first. -/
def unmarked : List Bytes → List Line
  | [] => []
  | l :: ls => ⟨l.length, if BOM <+: l then l.drop 3 else l⟩ :: ls.map Line.plain

/-- The events that blank lines end, from the lines of the open event on. -/
def events (opened : Event) : List Line → List Event
  | [] => []
  | l :: ls => if l.text = [] then opened :: events [] ls else events (opened ++ [l]) ls

/-- The events of a stream. -/
def eventsOf (stream : Bytes) : List Event := events [] (unmarked (splitLines false [] stream).1)

/-- The bytes of an event as they are counted, with one for each line's end. -/
def Event.total (e : Event) : ℕ := (e.map fun l => l.text.length + 1).sum

/-- Every line passes the limit, after lines of `n` bytes. -/
def Event.fitsFrom (n : ℕ) : Event → Bool
  | [] => true
  | l :: ls => n + l.bytes ≤ MAX_EVENT_BYTES && fitsFrom (n + (l.text.length + 1)) ls

/-- An event within the limit. -/
def Event.within (e : Event) : Bool := e.fitsFrom 0 && e.total ≤ MAX_EVENT_BYTES

/-- An event whose lines pass the limit, and that is beyond it with their ends. -/
def Event.brim (e : Event) : Bool := e.fitsFrom 0 && MAX_EVENT_BYTES < e.total

/-- The values of the data fields. -/
def Event.data (e : Event) : List Bytes :=
  (e.filter fun l => (partition l.text).1 = dataName).map fun l => (partition l.text).2

section

variable (C : Codec)

/-- The value of the last event field. -/
def Event.name (e : Event) : String :=
  match (e.filter fun l => (partition l.text).1 = eventName).getLast? with
  | some l => C.decode (partition l.text).2
  | none => ""

/-- What an event is told as. -/
def Event.told (e : Event) : List Emission := dispatch C e.data (e.name C)

/-- What the events within the limit are told as. -/
def told (es : List Event) : List Emission :=
  es.flatMap fun e => if e.within then e.told C else []

/-- Whether something is told of an event. -/
def Emission.ofEvent : Emission → Bool
  | .value _ _ => true
  | .finish_done => true
  | .invalid_sse_json _ => true
  | .sse_event_limit => false
  | .incomplete_sse_event => false

end

/-- No event at the brim comes before one within the limit that has data; the one that comes after it is lost, so
that one may itself be at the brim. -/
def Confined : List Event → Prop
  | e :: next :: rest =>
    if e.brim then ¬ (next.within ∧ next.data ≠ []) ∧ Confined rest else Confined (next :: rest)
  | _ => True

/-! ## The limit on the lines of an event -/

theorem Event.total_concat (e : Event) (l : Line) :
    Event.total (e ++ [l]) = Event.total e + (l.text.length + 1) := by
  unfold total
  rw [map_append, sum_append]
  rfl

theorem Event.fitsFrom_concat (e : Event) (l : Line) (n : ℕ) :
    Event.fitsFrom n (e ++ [l]) = (Event.fitsFrom n e && n + Event.total e + l.bytes ≤ MAX_EVENT_BYTES) := by
  induction e generalizing n with
  | nil => simp [fitsFrom, total]
  | cons k e ih =>
    have htotal : Event.total (k :: e) = (k.text.length + 1) + Event.total e := rfl
    have hsum : n + (k.text.length + 1) + Event.total e = n + Event.total (k :: e) := by
      rw [htotal, Nat.add_assoc]
    rw [cons_append, fitsFrom, fitsFrom, ih, hsum, Bool.and_assoc]

/-! ## The decoder, line by line -/

variable {C : Codec} {d : Decoder}

/-- The part of a line already read, if any. -/
def Decoder.reading (part : Bytes) (d : Decoder) : Decoder := if part = [] then d else d.extend part

theorem Decoder.reading_concat (part : Bytes) (b : UInt8) :
    (d.reading part).extend [b] = d.reading (part ++ [b]) := by
  unfold reading
  rw [if_neg (append_ne_nil_of_right_ne_nil _ (cons_ne_nil _ _))]
  split_ifs with h
  · rw [h, nil_append]
  · rw [extend_append]

theorem Decoder.reading_end (part : Bytes) : (d.reading part).extend [] = d.extend part := by
  unfold reading
  split_ifs with h
  · rw [h]
  · exact extend_nil_extend part

theorem Decoder.skip_lf_reading (part : Bytes) : (d.reading part).skip_lf = d.skip_lf := by
  unfold reading
  split_ifs
  · rfl
  · exact skip_lf_extend part

/-- A whole line is read. -/
def Decoder.lineStep (C : Codec) (d : Decoder) (l : Bytes) : Decoder := (d.extend l).endLine C

theorem Decoder.with_skip_lf {b : Bool} (h : d.skip_lf = b) : ({ d with skip_lf := b } : Decoder) = d := by
  rw [← h]

/-- A byte that is not the LF of a CRLF. -/
theorem Decoder.byte_of_not_skip (hs : d.skip_lf = false) {skip_lf : Bool} {b : UInt8} (h : ¬ (skip_lf ∧ b = LF)) :
    ({ d with skip_lf := skip_lf } : Decoder).byte C b =
      if b = CR then { (d.extend []).endLine C with skip_lf := true }
      else if b = LF then (d.extend []).endLine C else d.extend [b] := by
  have hd := with_skip_lf hs
  unfold byte
  rw [if_neg h]
  rw [hd]

/-- The bytes of a stream are read as its lines are. -/
theorem foldl_byte (hs : d.skip_lf = false) (skip_lf : Bool) (part stream : Bytes) :
    let r := splitLines skip_lf part stream
    { stream.foldl (byte C) { d.reading part with skip_lf := skip_lf } with skip_lf := false } =
      (r.1.foldl (lineStep C) d).reading r.2 := by
  induction stream generalizing d skip_lf part with
  | nil => exact with_skip_lf ((skip_lf_reading part).trans hs)
  | cons b rest ih =>
    have hr : (d.reading part).skip_lf = false := (skip_lf_reading part).trans hs
    have hs' : (d.lineStep C part).skip_lf = false := skip_lf_endLine.trans ((skip_lf_extend part).trans hs)
    intro r
    rw [foldl_cons]
    by_cases hskip : skip_lf ∧ b = LF
    · have hr' : r = splitLines false part rest := if_pos hskip
      obtain ⟨hk, rfl⟩ := hskip
      rw [hr', hk, byte_skip_LF]
      exact ih hs false part
    rw [byte_of_not_skip hr hskip, reading_end]
    by_cases hcr : b = CR
    · have hr' : r = (part :: (splitLines true [] rest).1, (splitLines true [] rest).2) := by
        show splitLines skip_lf part (b :: rest) = _
        rw [splitLines, if_neg hskip, if_pos hcr]
      rw [hr', if_pos hcr, foldl_cons]
      exact ih hs' true []
    by_cases hlf : b = LF
    · have hr' : r = (part :: (splitLines false [] rest).1, (splitLines false [] rest).2) := by
        show splitLines skip_lf part (b :: rest) = _
        rw [splitLines, if_neg hskip, if_neg hcr, if_pos hlf]
      rw [hr', if_neg hcr, if_pos hlf, foldl_cons]
      have hnext := ih hs' false []
      rw [with_skip_lf ((skip_lf_reading []).trans hs')] at hnext
      exact hnext
    · have hr' : r = splitLines false (part ++ [b]) rest := by
        show splitLines skip_lf part (b :: rest) = _
        rw [splitLines, if_neg hskip, if_neg hcr, if_neg hlf]
      have hnext := ih hs false (part ++ [b])
      rw [with_skip_lf ((skip_lf_reading _).trans hs)] at hnext
      rw [hr', if_neg hcr, if_neg hlf, reading_concat]
      exact hnext

/-! ## The decoder, event by event -/

/-- The decoder in an event whose lines so far passed the limit. -/
structure Reading (C : Codec) (e : Event) (d : Decoder) : Prop where
  fits : Event.fitsFrom 0 e
  line : d.line = []
  data : d.data = Event.data e
  event : d.event = Event.name C e
  event_bytes : d.event_bytes = Event.total e
  dropped : d.dropped = false
  line_dropped : d.line_dropped = false
  first_line : d.first_line = false

/-- The decoder after the limit was passed, until the next blank line. -/
structure Lost (d : Decoder) : Prop where
  line : d.line = []
  data : d.data = []
  dropped : d.dropped
  line_dropped : d.line_dropped = false
  first_line : d.first_line = false

/-- The fields of the decoder after a line with text. -/
theorem take_eq (line : Bytes) : d.take C line =
    { d with
      event_bytes := d.event_bytes + line.length + 1
      data := if (partition line).1 = dataName then d.data ++ [(partition line).2] else d.data
      event :=
        if (partition line).1 = dataName then d.event
        else if (partition line).1 = eventName then C.decode (partition line).2 else d.event } := by
  unfold Decoder.take
  simp only
  split_ifs <;> rfl

/-- The end of a line with text. -/
theorem endLine_text (hf : d.first_line = false) (hd : d.dropped = false) (hne : d.line ≠ []) :
    d.endLine C = { d.take C d.line with line := [], line_dropped := false } := by
  obtain ⟨line, data, event, event_bytes, dropped, line_dropped, skip_lf, first_line, emitted⟩ := d
  simp only at hf hd hne
  subst hf hd
  unfold endLine
  simp [hne]

variable {e : Event}

/-- A line with text of an event, read whole. -/
theorem Reading.take (h : Reading C e d) (l : Line) (hl : Event.total e + l.bytes ≤ MAX_EVENT_BYTES) :
    Reading C (e ++ [l]) { d.take C l.text with line := [], line_dropped := false } ∧
      (d.take C l.text).emitted = d.emitted := by
  have hfits : Event.fitsFrom 0 (e ++ [l]) := by
    rw [Event.fitsFrom_concat, h.fits, Nat.zero_add]
    simpa using hl
  have hbytes : d.event_bytes + l.text.length + 1 = Event.total (e ++ [l]) := by
    rw [Event.total_concat, h.event_bytes, Nat.add_assoc]
  have hdata : Event.data (e ++ [l]) =
      Event.data e ++ if (partition l.text).1 = dataName then [(partition l.text).2] else [] := by
    unfold Event.data
    rw [filter_append, map_append]
    congr 1
    by_cases hp : (partition l.text).1 = dataName
    · simp [hp]
    · simp [hp]
  have hname : Event.name C (e ++ [l]) =
      if (partition l.text).1 = eventName then C.decode (partition l.text).2 else Event.name C e := by
    unfold Event.name
    rw [filter_append]
    by_cases hp : (partition l.text).1 = eventName
    · simp [hp]
    · simp [hp]
  rw [take_eq]
  refine ⟨⟨hfits, rfl, ?_, ?_, hbytes, h.dropped, rfl, h.first_line⟩, rfl⟩
  · show (if _ then d.data ++ _ else d.data) = _
    rw [hdata, h.data]
    split_ifs
    · rfl
    · rw [append_nil]
  · show (if _ then d.event else if _ then _ else d.event) = _
    rw [hname, h.event]
    by_cases hp : (partition l.text).1 = dataName
    · have hne : (partition l.text).1 ≠ eventName := by
        rw [hp]
        decide
      rw [if_pos hp, if_neg hne]
    · rw [if_neg hp]

theorem reading_nil (h : d.line = []) (he : d.event_bytes = 0) (hv : d.event = "") (hd : d.data = [])
    (hdropped : d.dropped = false) (hl : d.line_dropped = false) (hf : d.first_line = false) : Reading C [] d :=
  ⟨rfl, h, hd, hv, he, hdropped, hl, hf⟩

/-- A line that passes no limit. -/
theorem Reading.line_le (h : Reading C e d) {l : Bytes} (hne : l ≠ [])
    (hl : Event.total e + l.length ≤ MAX_EVENT_BYTES) :
    Reading C (e ++ [Line.plain l]) (d.lineStep C l) ∧ (d.lineStep C l).emitted = d.emitted := by
  have hext : d.extend l = { d with line := l } := by
    rw [extend_of_le h.dropped (by rw [h.line, h.event_bytes]; exact hl), h.line, nil_append]
  have hend : d.lineStep C l = { d.take C l with line := [], line_dropped := false } := by
    unfold lineStep
    rw [hext]
    generalize hu : ({ d with line := l } : Decoder) = u
    have hline : u.line = l := by rw [← hu]
    rw [endLine_text (by rw [← hu]; exact h.first_line) (by rw [← hu]; exact h.dropped) (by rw [hline]; exact hne),
      take_eq, take_eq, hline, ← hu]
  rw [hend]
  exact h.take (Line.plain l) hl

/-- A blank line within the limit. -/
theorem Reading.blank (h : Reading C e d) (hl : Event.total e ≤ MAX_EVENT_BYTES) :
    Reading C [] (d.lineStep C []) ∧ (d.lineStep C []).emitted = d.emitted ++ Event.told C e := by
  have hext : d.extend [] = d := by
    rw [extend_of_le h.dropped (by rw [h.line, h.event_bytes]; exact hl), append_nil]
  have hend : d.lineStep C [] = { d.blank C with line := [], line_dropped := false, first_line := false } := by
    unfold lineStep endLine
    rw [hext]
    simp [h.first_line, h.line, h.line_dropped, Decoder.blank]
  rw [hend]
  refine ⟨reading_nil rfl rfl rfl rfl rfl rfl rfl, ?_⟩
  unfold Decoder.blank Event.told
  simp [h.dropped, h.data, h.event]

/-- A line that passes the limit, also a blank one. -/
theorem Reading.line_gt (h : Reading C e d) {l : Bytes} (hl : Event.total e + l.length > MAX_EVENT_BYTES) :
    Lost (d.lineStep C l) ∧ (d.lineStep C l).emitted = d.emitted ++ [.sse_event_limit] := by
  have hext : d.extend l = d.passed := extend_of_gt h.dropped (by rw [h.line, h.event_bytes]; exact hl)
  have hend : d.lineStep C l = { d.passed with line := [], line_dropped := false, first_line := false } := by
    unfold lineStep endLine
    rw [hext]
    simp [h.first_line, passed]
  rw [hend]
  exact ⟨⟨rfl, rfl, rfl, rfl, rfl⟩, rfl⟩

theorem Lost.text (h : Lost d) {l : Bytes} (hne : l ≠ []) :
    Lost (d.lineStep C l) ∧ (d.lineStep C l).emitted = d.emitted := by
  have hend : d.lineStep C l = { d with line := [], line_dropped := false, first_line := false } := by
    unfold lineStep endLine
    rw [extend_of_dropped h.dropped]
    simp [h.first_line, h.dropped, hne]
  rw [hend]
  exact ⟨⟨rfl, h.data, h.dropped, rfl, rfl⟩, rfl⟩

theorem Lost.blank (h : Lost d) : Reading C [] (d.lineStep C []) ∧ (d.lineStep C []).emitted = d.emitted := by
  have hend : d.lineStep C [] = { d.blank C with line := [], line_dropped := false, first_line := false } := by
    unfold lineStep endLine
    rw [extend_of_dropped h.dropped]
    simp [h.first_line, h.line, h.line_dropped, Decoder.blank]
  rw [hend]
  refine ⟨reading_nil rfl rfl rfl rfl rfl rfl rfl, ?_⟩
  unfold Decoder.blank
  simp [h.dropped]

/-! ## Whole streams -/

/-- What the decoder tells of events; with `lost`, the first of them is lost. -/
def heard (C : Codec) : Bool → List Event → List Emission
  | _, [] => []
  | true, _ :: es => heard C false es
  | false, e :: es => if Event.within e then Event.told C e ++ heard C false es else heard C (Event.brim e) es

theorem filter_dispatch (data : List Bytes) (event : String) :
    (dispatch C data event).filter Emission.ofEvent = dispatch C data event := by
  unfold dispatch
  split_ifs
  · rfl
  · rfl
  · split <;> rfl

/-- An event with a line that did not pass the limit is lost with it. -/
theorem heard_over (h : Event.fitsFrom 0 e = false) (ls : List Line) :
    heard C false (events e ls) = heard C true (events e ls) := by
  induction ls generalizing e with
  | nil => rfl
  | cons l ls ih =>
    rw [events]
    split_ifs
    · simp [heard, Event.within, Event.brim, h]
    · refine ih ?_
      rw [Event.fitsFrom_concat, h, Bool.false_and]

/-- The events of plain lines are told, or lost, one after another. -/
theorem foldl_lineStep (ls : List Bytes) :
    (∀ d e, Reading C e d → (ls.foldl (lineStep C) d).emitted.filter Emission.ofEvent =
        d.emitted.filter Emission.ofEvent ++ heard C false (events e (ls.map Line.plain))) ∧
      ∀ d e, Lost d → (ls.foldl (lineStep C) d).emitted.filter Emission.ofEvent =
        d.emitted.filter Emission.ofEvent ++ heard C true (events e (ls.map Line.plain)) := by
  induction ls with
  | nil => exact ⟨fun d e _ => (append_nil _).symm, fun d e _ => (append_nil _).symm⟩
  | cons l ls ih =>
    obtain ⟨ihr, ihl⟩ := ih
    have htext : (Line.plain l).text = l := rfl
    constructor
    · intro d e h
      rw [foldl_cons, map_cons, events, htext]
      by_cases hover : Event.total e + l.length > MAX_EVENT_BYTES
      · obtain ⟨hlost, hemit⟩ := h.line_gt hover
        have hsame : (d.lineStep C l).emitted.filter Emission.ofEvent = d.emitted.filter Emission.ofEvent := by
          rw [hemit, filter_append]
          exact append_nil _
        by_cases hne : l = []
        · -- the blank line passes the limit, and the next event is lost
          subst hne
          have hbrim : Event.brim e := by
            unfold Event.brim
            rw [h.fits]
            simpa using hover
          have hwithin : Event.within e = false := by
            unfold Event.within
            rw [h.fits]
            simpa using hover
          rw [ihl _ [] hlost, hsame, if_pos rfl]
          simp [heard, hbrim, hwithin]
        · have hfits : Event.fitsFrom 0 (e ++ [Line.plain l]) = false := by
            rw [Event.fitsFrom_concat, Nat.zero_add, h.fits, Bool.true_and]
            exact decide_eq_false (Nat.not_le_of_lt hover)
          rw [ihl _ (e ++ [Line.plain l]) hlost, hsame, if_neg hne, heard_over hfits]
      · have hle := Nat.le_of_not_lt hover
        by_cases hne : l = []
        · subst hne
          obtain ⟨hread, hemit⟩ := h.blank (Nat.le_trans (Nat.le_add_right _ _) hle)
          have hwithin : Event.within e := by
            unfold Event.within
            rw [h.fits]
            simpa using Nat.le_trans (Nat.le_add_right _ _) hle
          rw [ihr _ _ hread, hemit, if_pos rfl, filter_append, Event.told, filter_dispatch, ← Event.told]
          simp [heard, hwithin]
        · obtain ⟨hread, hemit⟩ := h.line_le hne hle
          rw [ihr _ _ hread, hemit, if_neg hne]
    · intro d e h
      rw [foldl_cons, map_cons, events, htext]
      by_cases hne : l = []
      · subst hne
        obtain ⟨hread, hemit⟩ := h.blank
        rw [ihr _ _ hread, hemit, if_pos rfl]
        rfl
      · obtain ⟨hlost, hemit⟩ := h.text hne
        rw [ihl _ (e ++ [Line.plain l]) hlost, hemit, if_neg hne]

/-- The first line of a stream, which may begin with a byte order mark. -/
theorem foldl_first (l : Bytes) (ls : List Bytes) :
    ((l :: ls).foldl (lineStep C) init).emitted.filter Emission.ofEvent =
      heard C false (events [] (unmarked (l :: ls))) := by
  have hfirst : unmarked (l :: ls) = ⟨l.length, if BOM <+: l then l.drop 3 else l⟩ :: ls.map Line.plain := rfl
  rw [foldl_cons, hfirst]
  generalize htext : (if BOM <+: l then l.drop 3 else l) = text
  obtain ⟨ihr, ihl⟩ := foldl_lineStep ls
  rw [events]
  by_cases hover : l.length > MAX_EVENT_BYTES
  · -- the line is too long, and its mark is not looked for
    have hext : init.extend l = init.passed := extend_of_gt rfl (by simpa [init] using hover)
    have hend : init.lineStep C l = { init.passed with line := [], line_dropped := false, first_line := false } := by
      unfold lineStep endLine
      rw [hext]
      simp [init, passed]
    have hlost : Lost (init.lineStep C l) := by
      rw [hend]
      exact ⟨rfl, rfl, rfl, rfl, rfl⟩
    have hne : text ≠ [] := by
      have hlen : l.length - 3 ≤ text.length := by
        rw [← htext]
        split_ifs
        · rw [length_drop]
        · exact Nat.sub_le ..
      intro e
      rw [e, length_nil] at hlen
      unfold MAX_EVENT_BYTES at hover
      omega
    have hfits : Event.fitsFrom 0 ([] ++ [(⟨l.length, text⟩ : Line)]) = false := by
      simpa [Event.fitsFrom] using hover
    rw [if_neg hne, ihl _ ([] ++ [(⟨l.length, text⟩ : Line)]) hlost, heard_over hfits, hend]
    rfl
  · have hext : init.extend l = { init with line := l } := extend_of_le rfl (by simpa [init] using hover)
    by_cases hne : text = []
    · -- an empty event, of which nothing is told
      have hread : Reading C [] (init.lineStep C l) ∧ (init.lineStep C l).emitted = [] := by
        unfold lineStep endLine
        rw [hext]
        simp only [init, true_and, htext, hne, if_true, Bool.false_eq_true, not_false_eq_true]
        unfold Decoder.blank
        exact ⟨reading_nil rfl rfl rfl rfl rfl rfl rfl, rfl⟩
      rw [if_pos hne, ihr _ _ hread.1, hread.2]
      have htold : Event.told C [] = [] := rfl
      simp [heard, Event.within, Event.fitsFrom, Event.total, htold]
    · have hstart : Reading C [] ({ init with first_line := false } : Decoder) :=
        reading_nil rfl rfl rfl rfl rfl rfl rfl
      have htake := hstart.take ⟨l.length, text⟩ (by simpa [Event.total] using hover)
      have hend : init.lineStep C l =
          { ({ init with first_line := false } : Decoder).take C text with line := [], line_dropped := false } := by
        unfold lineStep endLine
        rw [hext]
        simp only [init, true_and, htext, hne, false_and, if_false, Bool.false_eq_true, not_false_eq_true, if_true]
        rw [take_eq, take_eq]
      rw [if_neg hne, ihr _ ([] ++ [(⟨l.length, text⟩ : Line)]) (hend ▸ htake.1), hend]
      rw [htake.2]
      rfl

/-- What a stream is told as, in any chunks. -/
theorem emitted_eq (chunks : List Bytes) :
    (Runs.run (feed C) init chunks).emitted.filter Emission.ofEvent = heard C false (eventsOf chunks.flatten) := by
  have hfold := foldl_byte (C := C) (d := init) rfl false [] chunks.flatten
  have hemit := congrArg (fun d => d.emitted.filter Emission.ofEvent) hfold
  have hread : ∀ (d : Decoder) (part : Bytes),
      (d.reading part).emitted.filter Emission.ofEvent = d.emitted.filter Emission.ofEvent := by
    intro d part
    unfold Decoder.reading extend
    split_ifs
    · rfl
    · rw [filter_append]
      exact append_nil _
    · rfl
    · rfl
  rw [hread] at hemit
  rw [run_feed]
  refine Eq.trans hemit ?_
  unfold eventsOf
  cases h : (splitLines false [] chunks.flatten).1 with
  | nil => rfl
  | cons l ls => exact foldl_first l ls

/-! ## What is lost -/

theorem length_told (e : Event) : (Event.told C e).length = if Event.data e = [] then 0 else 1 := by
  unfold Event.told dispatch
  split_ifs
  · rfl
  · rfl
  · split <;> rfl

theorem told_cons (e : Event) (es : List Event) :
    told C (e :: es) = (if Event.within e then Event.told C e else []) ++ told C es := rfl

/-- Nothing is told that should not be. -/
theorem length_heard_le (lost : Bool) (es : List Event) : (heard C lost es).length ≤ (told C es).length := by
  induction es generalizing lost with
  | nil => cases lost <;> exact Nat.le_refl _
  | cons e es ih =>
    rw [told_cons, length_append]
    cases lost with
    | true => exact Nat.le_trans (ih false) (Nat.le_add_left _ _)
    | false =>
      rw [heard]
      split_ifs
      · rw [length_append]
        exact Nat.add_le_add_left (ih false) _
      · exact Nat.le_trans (ih _) (Nat.le_add_left _ _)

theorem not_brim_of_within (h : Event.within e) : Event.brim e = false := by
  unfold Event.within at h
  rw [Bool.and_eq_true, decide_eq_true_eq] at h
  unfold Event.brim
  rw [h.1, Bool.true_and]
  exact decide_eq_false (Nat.not_lt_of_le h.2)

/-- Everything is told exactly where nothing is lost. -/
theorem heard_eq_told : ∀ es : List Event, heard C false es = told C es ↔ Confined es
  | [] => ⟨fun _ => trivial, fun _ => rfl⟩
  | [e] => by
    refine ⟨fun _ => trivial, fun _ => ?_⟩
    rw [heard, told_cons]
    split_ifs
    · rfl
    · cases Event.brim e <;> rfl
  | e :: next :: rest => by
    rw [Confined, heard, told_cons]
    by_cases hw : Event.within e
    · rw [if_pos hw, if_pos hw, not_brim_of_within hw, if_neg Bool.false_ne_true, append_cancel_left_eq]
      exact heard_eq_told (next :: rest)
    · rw [if_neg hw, if_neg hw, nil_append]
      by_cases hb : Event.brim e
      · -- the next event is lost
        rw [hb, if_pos rfl, told_cons]
        show heard C false rest = _ ↔ _
        by_cases hnext : Event.within next ∧ Event.data next ≠ []
        · refine ⟨fun h => ?_, fun h => absurd hnext h.1⟩
          have hlen := congrArg List.length h
          rw [if_pos hnext.1, length_append, length_told, if_neg hnext.2] at hlen
          have hle := length_heard_le (C := C) false rest
          omega
        · have hnone : (if Event.within next then Event.told C next else []) = [] := by
            split_ifs with hin
            · refine eq_nil_of_length_eq_zero ?_
              rw [length_told, if_pos (not_not.1 fun hd => hnext ⟨hin, hd⟩)]
            · rfl
          rw [hnone, nil_append, heard_eq_told rest]
          exact (and_iff_right hnext).symm
      · rw [Bool.eq_false_iff.2 hb, if_neg Bool.false_ne_true]
        exact heard_eq_told (next :: rest)

/-- An event whose lines and their ends have as many bytes as the limit, or fewer, is within it. -/
theorem within_of_bytes (h : ∀ l ∈ e, l.text.length ≤ l.bytes)
    (hsum : (e.map fun l => l.bytes + 1).sum ≤ MAX_EVENT_BYTES) : Event.within e := by
  have hfits : ∀ (e : Event) (n : ℕ), (∀ l ∈ e, l.text.length ≤ l.bytes) →
      n + (e.map fun l => l.bytes + 1).sum ≤ MAX_EVENT_BYTES →
      Event.fitsFrom n e ∧ n + Event.total e ≤ MAX_EVENT_BYTES := by
    intro e
    induction e with
    | nil => exact fun n _ hn => ⟨rfl, hn⟩
    | cons l ls ih =>
      intro n hl hn
      have hlen := hl l (mem_cons_self ..)
      rw [map_cons, sum_cons] at hn
      have htotal : Event.total (l :: ls) = (l.text.length + 1) + Event.total ls := rfl
      obtain ⟨hf, ht⟩ := ih (n + (l.text.length + 1)) (fun k hk => hl k (mem_cons_of_mem _ hk)) (by omega)
      rw [Event.fitsFrom, hf, Bool.and_true, decide_eq_true_eq, htotal]
      exact ⟨by omega, by omega⟩
  obtain ⟨hf, ht⟩ := hfits e 0 h (by omega)
  unfold Event.within
  rw [hf, Bool.true_and, decide_eq_true_eq]
  omega

/-- The decoder tells, in order and by its own lines, every event within the limit and no other, exactly where no
event at the brim comes before one within the limit that has data. -/
theorem dispatched_iff (C : Codec) (chunks : List Bytes) :
    (Runs.run (feed C) init chunks).emitted.filter Emission.ofEvent = told C (eventsOf chunks.flatten) ↔
      Confined (eventsOf chunks.flatten) := by
  rw [emitted_eq]
  exact heard_eq_told _

/-- The bytes of a line before its end. -/
theorem splitLines_text {p : Bytes} (hp : ∀ b ∈ p, b ≠ CR ∧ b ≠ LF) (part rest : Bytes) :
    splitLines false part (p ++ rest) = splitLines false (part ++ p) rest := by
  induction p generalizing part with
  | nil => rw [nil_append, append_nil]
  | cons b p ih =>
    obtain ⟨hcr, hlf⟩ := hp b (mem_cons_self ..)
    rw [cons_append, splitLines, if_neg (fun h => Bool.false_ne_true h.1), if_neg hcr, if_neg hlf,
      ih fun c hc => hp c (mem_cons_of_mem _ hc), append_assoc, singleton_append]

/-- A comment of `MAX_EVENT_BYTES` bytes. -/
def brimComment : Bytes := List.replicate MAX_EVENT_BYTES 58

/-- `data:1` -/
def plainData : Bytes := [100, 97, 116, 97, 58, 49]

/-- The comment and its blank line, then an event of one short line. -/
def brimStream : Bytes := brimComment ++ ([LF, LF] ++ plainData ++ [LF, LF])

theorem eventsOf_brimStream :
    eventsOf brimStream = [[⟨MAX_EVENT_BYTES, brimComment⟩], [⟨6, plainData⟩]] := by
  have hne : brimComment ≠ [] := ne_nil_of_length_pos (by
    unfold brimComment MAX_EVENT_BYTES
    rw [length_replicate]
    decide)
  have hbom : ¬ BOM <+: brimComment := by
    intro h
    have hmem : (0xef : UInt8) ∈ brimComment := h.subset (by decide)
    exact absurd (eq_of_mem_replicate hmem) (by decide)
  have hlines : splitLines false [] brimStream = ([brimComment, [], plainData, []], []) := by
    unfold brimStream
    rw [splitLines_text, nil_append]
    · rfl
    · intro b hb
      rw [eq_of_mem_replicate hb]
      decide
  unfold eventsOf
  rw [hlines]
  have hlen : brimComment.length = MAX_EVENT_BYTES := length_replicate
  simp only [unmarked, if_neg hbom, hlen, events, if_neg hne]
  rfl

/-- A comment exactly as long as the limit takes the next event with it. -/
theorem next_event_lost : ¬ (Runs.run (feed ⟨fun _ => some .null, fun _ => ""⟩) init [brimStream]).emitted.filter
      Emission.ofEvent = told ⟨fun _ => some .null, fun _ => ""⟩ (eventsOf [brimStream].flatten) := by
  have hlen : brimComment.length = MAX_EVENT_BYTES := length_replicate
  have hbrim : Event.brim [⟨MAX_EVENT_BYTES, brimComment⟩] := by
    simp [Event.brim, Event.fitsFrom, Event.total, hlen]
  have hnext : Event.within [⟨6, plainData⟩] := within_of_bytes (by decide) (by decide)
  rw [emitted_eq, heard_eq_told, flatten_cons, flatten_nil, append_nil, eventsOf_brimStream, Confined,
    if_pos hbrim]
  exact fun h => h.1 ⟨hnext, by decide⟩

end StrixAlloy.ConsoleTrace

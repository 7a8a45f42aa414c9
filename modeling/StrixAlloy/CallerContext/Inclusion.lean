import StrixAlloy.CallerContext.Notes

/-!
# A note stays in the memory block

The note is put into the prompt as it is, while the tags are searched before. A prompt keeps its two blocks
exactly if no tag stands in the note (`Block.insert`, `Block.nowhere`); the next call finds the note again exactly
if, besides, the end of the memory block together with the note does not show the note earlier.
-/

namespace StrixAlloy.CallerContext

open PresentationHistory Checked Occurs List

variable {prompt text t : JsStr} {b m c e i j : ℕ}

/-! ## The tags -/

def tags : List JsStr := [inputsOpen, memoryOpen, memoryClose, inputsClose]

/-- `<`. -/
def less : CodeUnit := 60

/-- The bracket at the beginning of a provenance. -/
def bracket : CodeUnit := 91

-- Makes the equations once, for all of the proofs.
attribute [local simp] visibleNote shape place noteText in
theorem tag_eq_cons (ht : t ∈ tags) : ∃ s, t = less :: s ∧ less ∉ s ∧ newline ∉ less :: s := by
  have h : ∀ t ∈ tags, t = less :: t.tail ∧ less ∉ t.tail ∧ newline ∉ less :: t.tail := by decide
  exact ⟨t.tail, h t ht⟩

set_option maxRecDepth 4000 in
theorem promptProvenance_units : ∃ l : List Char, promptProvenance = js (String.ofList l) ∧
    let s := utf16 (l.map fun c => ⟨c.toNat, toNat_lt c⟩)
    s = bracket :: s.tail ∧ bracket ∉ s.tail ∧ newline ∉ s ∧ less ∉ s ∧ 9 ≤ s.tail.length ∧ s.length ≤ 400 := by
  unfold promptProvenance
  exact ⟨_, rfl, by decide +kernel⟩

/-- The bracket is at the beginning only, and the text is long but one line. -/
theorem promptProvenance_eq_cons : ∃ s, promptProvenance = bracket :: s ∧ bracket ∉ s ∧
    newline ∉ promptProvenance ∧ less ∉ promptProvenance ∧ 9 ≤ s.length ∧ promptProvenance.length ≤ 400 := by
  obtain ⟨l, hl, h⟩ := promptProvenance_units
  rw [js_ofList] at hl
  rw [hl]
  exact ⟨_, h⟩

theorem nowhere_visibleNote (ht : t ∈ tags) : Nowhere t (visibleNote text) ↔ Nowhere t text := by
  obtain ⟨s, rfl, -, hn⟩ := tag_eq_cons ht
  obtain ⟨-, -, -, -, hless, -⟩ := promptProvenance_eq_cons
  rw [visibleNote, nowhere_separator (cons_ne_nil _ _) hn, and_iff_right (nowhere_of_notMem hless)]

/-! ## The blocks -/

/-- One block of inputs with one block of memory, at its places. -/
structure Block (prompt : JsStr) (b m c e : ℕ) : Prop where
  inputs : Once inputsOpen prompt b
  memory : Once memoryOpen prompt m
  close : Once memoryClose prompt c
  stop : Once inputsClose prompt e
  memory_after : b + 8 ≤ m
  close_after : m + 8 ≤ c
  stop_after : c + 9 ≤ e

/-- The prompt has exactly one block of inputs, with exactly one block of memory. -/
def OneBlock (prompt : JsStr) : Prop := ∃ b m c e, Block prompt b m c e

theorem Block.shape (h : Block prompt b m c e) : shape prompt = .ok (m, c) := by
  have hm := h.memory_after
  have hc := h.close_after
  have he := h.stop_after
  have after : b + 8 ≤ e := by omega
  refine bind_eq_ok.2 ⟨b, orThrow_eq_ok.2 (h.inputs.indexOf (Nat.zero_le b)), ?_⟩
  refine bind_eq_ok.2 ⟨e, orThrow_eq_ok.2 (h.stop.indexOf after), ?_⟩
  refine bind_eq_ok.2 ⟨(), require_eq_ok.2
    ⟨h.inputs.indexOf_after (Nat.lt_add_of_pos_right (by decide)),
      h.stop.indexOf_after (Nat.lt_add_of_pos_right (by decide))⟩, ?_⟩
  refine bind_eq_ok.2 ⟨m, orThrow_eq_ok.2 (h.memory.indexOf hm), ?_⟩
  refine bind_eq_ok.2 ⟨c, orThrow_eq_ok.2 (h.close.indexOf hc), ?_⟩
  refine bind_eq_ok.2 ⟨(), require_eq_ok.2 ⟨by omega,
    h.memory.indexOf_after (Nat.lt_add_of_pos_right (by decide)),
    h.close.indexOf_after (Nat.lt_add_of_pos_right (by decide))⟩, rfl⟩

/-- A prompt with a note at a place. -/
def insertNote (text prompt : JsStr) (c : ℕ) : JsStr := enclose newline (visibleNote text) prompt c

theorem getElem?_close (h : At memoryClose prompt c) : prompt[c]? = some less := h.getElem? (k := 0) (by decide)

section

variable (hc : At memoryClose prompt c)
include hc

theorem once_insertNote (ht : t ∈ tags) (h : Once t prompt i) (hn : Nowhere t text) :
    Once t (insertNote text prompt c) (if i < c then i else i + (visibleNote text).length + 2) := by
  have hv := (nowhere_visibleNote ht).2 hn
  obtain ⟨s, rfl, hl, hnew⟩ := tag_eq_cons ht
  exact once_enclose (cons_ne_nil _ _) hnew (getElem?_close hc) hl h hv

theorem not_once_insertNote (ht : t ∈ tags) (h : At t prompt i) (hn : ¬Nowhere t text) :
    ¬Once t (insertNote text prompt c) j := by
  have hv := (nowhere_visibleNote ht).not.2 hn
  obtain ⟨s, rfl, hl, hnew⟩ := tag_eq_cons ht
  exact not_once_enclose (cons_ne_nil _ _) hnew (getElem?_close hc) hl h hv

omit hc in
theorem Block.insert (h : Block prompt b m c e) (hn : ∀ t ∈ tags, Nowhere t text) :
    Block (insertNote text prompt c) b m (c + (visibleNote text).length + 2)
      (e + (visibleNote text).length + 2) := by
  have hm := h.memory_after
  have hc := h.close_after
  have he := h.stop_after
  have once : ∀ {t i}, t ∈ tags → Once t prompt i → _ := fun ht hi => once_insertNote h.close.1 ht hi (hn _ ht)
  refine ⟨?_, ?_, ?_, ?_, hm, by omega, by omega⟩
  · have := once (by decide) h.inputs
    rwa [if_pos (by omega)] at this
  · have := once (by decide) h.memory
    rwa [if_pos (by omega)] at this
  · have := once (by decide) h.close
    rwa [if_neg (by omega)] at this
  · have := once (by decide) h.stop
    rwa [if_neg (by omega)] at this

omit hc in
theorem Block.nowhere (h : Block prompt b m c e) (ho : OneBlock (insertNote text prompt c)) :
    ∀ t ∈ tags, Nowhere t text := by
  obtain ⟨b', m', c', e', h'⟩ := ho
  intro t ht
  by_contra hn
  have not_once : ∀ {i j}, At t prompt i → ¬Once t (insertNote text prompt c) j :=
    fun hi => not_once_insertNote h.close.1 ht hi hn
  simp only [tags, mem_cons, not_mem_nil, or_false] at ht
  rcases ht with rfl | rfl | rfl | rfl
  · exact not_once h.inputs.1 h'.inputs
  · exact not_once h.memory.1 h'.memory
  · exact not_once h.close.1 h'.close
  · exact not_once h.stop.1 h'.stop

/-! ## The note in the prompt -/

/-- A note that was not in the prompt is not found after the place where it was put. -/
theorem le_of_at_insertNote (hp : Nowhere (visibleNote text) prompt) (hn : Nowhere memoryClose text)
    (h : At (visibleNote text) (insertNote text prompt c) i) : i ≤ c + 1 := by
  have hv := (nowhere_visibleNote (show memoryClose ∈ tags by decide)).2 hn
  obtain ⟨s, hs, hbracket, -, -, hnine, -⟩ := promptProvenance_eq_cons
  have hcons : visibleNote text = bracket :: (s ++ newline :: text) := by
    rw [visibleNote, hs, cons_append]
  rw [insertNote] at h
  rw [hcons] at hp hv h
  refine le_of_at_enclose (by decide) hp (by decide) hc (fun k hk hget => ?_) hv h
  have hk : k < 9 := hk
  rw [List.getElem?_append_left (by omega)] at hget
  exact hbracket (mem_of_getElem? hget)

theorem le_length : c ≤ prompt.length := by
  have hle := hc.length_le (by decide)
  omega

theorem at_place : At (visibleNote text) (insertNote text prompt c) (c + 1) :=
  at_enclose_self (le_length hc)

/-- When a note that was put into a prompt has one place there. -/
theorem once_place (hp : Nowhere (visibleNote text) prompt) (hn : Nowhere memoryClose text) :
    Once (visibleNote text) (insertNote text prompt c) (c + 1) ↔
      indexOf (visibleNote text) (prompt.take c ++ newline :: visibleNote text) 0 = some (c + 1) := by
  rw [indexOf_eq_some]
  have hle := le_length hc
  constructor
  · intro h
    refine ⟨Nat.zero_le _, (at_enclose_le hle le_rfl).1 (at_place hc), fun j _ hj hat => ?_⟩
    have hjc := h.2 j ((at_enclose_le hle hj.le).2 hat)
    omega
  · rintro ⟨-, -, hmin⟩
    refine ⟨at_place hc, fun j hj => ?_⟩
    refine Nat.le_antisymm (le_of_at_insertNote hc hp hn hj) (Nat.le_of_not_lt fun hlt => ?_)
    exact hmin j (Nat.zero_le j) hlt ((at_enclose_le hle hlt.le).1 hj)

end

/-- What `place` returns for a prompt with its blocks. -/
theorem place_eq_ok {returnedPrompt : JsStr} (h : Block prompt b m c e) : place text prompt = .ok returnedPrompt ↔
    (returnedPrompt = prompt ∧ ∃ i, Once (visibleNote text) prompt i ∧ m + 8 ≤ i ∧
        i + (visibleNote text).length ≤ c) ∨
      (returnedPrompt = insertNote text prompt c ∧ Nowhere (visibleNote text) prompt ∧
        returnedPrompt.length ≤ 262144) := by
  have hshape : ∀ f : ℕ × ℕ → Except Code JsStr, (Except.ok (m, c) >>= f) = f (m, c) := fun _ => rfl
  simp only [place, h.shape, hshape]
  cases hi : indexOf (visibleNote text) prompt 0 with
  | some i =>
    have hat := (indexOf_eq_some.1 hi).2.1
    simp only [bind_eq_ok, require_eq_ok, pure_eq_ok]
    constructor
    · rintro ⟨-, ⟨hm, hc, hnone⟩, rfl⟩
      exact .inl ⟨rfl, i, once_of_indexOf hi hnone, hm, hc⟩
    · rintro (⟨rfl, j, hj, hm, hc⟩ | ⟨-, hnone, -⟩)
      · obtain rfl := hj.2 i hat
        exact ⟨(), ⟨hm, hc, hj.indexOf_after (Nat.lt_succ_self _)⟩, rfl⟩
      · exact absurd hat (hnone i)
  | none =>
    have hnone : Nowhere (visibleNote text) prompt := fun j => indexOf_eq_none.1 hi j (Nat.zero_le j)
    simp only [bind_eq_ok, require_eq_ok, pure_eq_ok]
    constructor
    · rintro ⟨-, ⟨hlen, -⟩, rfl⟩
      exact .inr ⟨rfl, hnone, hlen⟩
    · rintro (⟨-, i, hi, -⟩ | ⟨rfl, -, hlen⟩)
      · exact absurd hi.1 (hnone i)
      · exact ⟨(), ⟨hlen, (prefix_iff_eq_take.1 (at_place h.close.1)).symm⟩, rfl⟩

/-- A returned prompt is within the limit. -/
theorem place_length {returnedPrompt : JsStr} (h : place text prompt = .ok returnedPrompt)
    (hlen : prompt.length ≤ 262144) : returnedPrompt.length ≤ 262144 := by
  simp only [place, bind_eq_ok] at h
  obtain ⟨⟨memory, close⟩, -, h⟩ := h
  cases hi : indexOf (visibleNote text) prompt 0 with
  | some =>
    simp only [hi, bind_eq_ok, pure_eq_ok] at h
    obtain ⟨-, -, rfl⟩ := h
    exact hlen
  | none =>
    simp only [hi, bind_eq_ok, require_eq_ok, pure_eq_ok] at h
    obtain ⟨-, ⟨hle, -⟩, rfl⟩ := h
    exact hle

/-! ## A call and its repetition -/

/-- The newest note of a call, where its notes are accepted. -/
def Call.newest (call : Call) (conversationId : JsStr) : Option Note :=
  ((call.read conversationId).toOption.bind fun r => (orderedNotes r.2).toOption).bind List.getLast?

/-- Another call that reads the same rows and whose platform answers. -/
def SameNotes (conversationId : JsStr) (call call' : Call) : Prop :=
  ∃ binding binding' rows, call.read conversationId = .ok (binding, rows) ∧
    call'.read conversationId = .ok (binding', rows) ∧ call'.recheck conversationId binding' = .ok ()

/-- What a retried inclusion rests on. -/
structure Kept (call : Call) (input : Input) (result : Result) : Prop where
  block : OneBlock result.prompt
  inside : ∀ note, call.newest input.conversationId = some note → ∃ m c i, Once memoryOpen result.prompt m ∧
    Once memoryClose result.prompt c ∧ At (visibleNote note.text) result.prompt i ∧ m + 8 ≤ i ∧
      i + (visibleNote note.text).length ≤ c
  removed : ∃ i inserted, (inserted = [] ∨ ∃ note, call.newest input.conversationId = some note ∧
    inserted = addition note.text) ∧ result.prompt = input.prompt.take i ++ inserted ++ input.prompt.drop i
  again : ∀ call', SameNotes input.conversationId call call' → ∃ result',
    _include call' (some ⟨input.conversationId, result.prompt⟩) = .ok result' ∧ result'.prompt = result.prompt

/-- The note is in the prompt already, or it has no tag and the end of the memory block does not show it
earlier. -/
def Clear (text prompt : JsStr) : Prop :=
  visibleNote text <:+: prompt ∨ (∀ t ∈ tags, ¬t <:+: text) ∧ ∃ c, At memoryClose prompt c ∧
    indexOf (visibleNote text) (prompt.take c ++ newline :: visibleNote text) 0 = some (c + 1)

theorem include_eq_ok {call : Call} {input : Input} {result : Result} :
    _include call (some input) = .ok result ↔ isId input.conversationId ∧ input.prompt.length ≤ 262144 ∧
      ∃ binding rows notes, call.read input.conversationId = .ok (binding, rows) ∧ orderedNotes rows = .ok notes ∧
        ((notes.getLast? = none ∧ result = ⟨input.prompt, none⟩) ∨
          ∃ note, notes.getLast? = some note ∧ place note.text input.prompt = .ok result.prompt ∧
            call.recheck input.conversationId binding = .ok () ∧
            result.receipt = some ⟨note.revision, note.contextRequestId, binding.planId, call.receiptStored⟩) := by
  simp only [_include, bind_eq_ok, require_eq_ok, orThrow_eq_ok, Option.some.injEq, exists_eq_left']
  constructor
  · rintro ⟨-, ⟨hid, hlen⟩, ⟨binding, rows⟩, hread, notes, hnotes, h⟩
    refine ⟨hid, hlen, binding, rows, notes, hread, hnotes, ?_⟩
    cases hlast : notes.getLast? with
    | none =>
      simp only [hlast, pure_eq_ok] at h
      exact .inl ⟨rfl, h.symm⟩
    | some note =>
      simp only [hlast, bind_eq_ok, pure_eq_ok] at h
      obtain ⟨returned, hplace, ⟨⟩, hcheck, rfl⟩ := h
      exact .inr ⟨note, rfl, hplace, hcheck, rfl⟩
  · rintro ⟨hid, hlen, binding, rows, notes, hread, hnotes, h⟩
    refine ⟨(), ⟨hid, hlen⟩, (binding, rows), hread, notes, hnotes, ?_⟩
    rcases h with ⟨hlast, rfl⟩ | ⟨note, hlast, hplace, hcheck, hreceipt⟩
    · simp only [hlast, pure_eq_ok]
    · simp only [hlast, bind_eq_ok, pure_eq_ok]
      refine ⟨result.prompt, hplace, (), hcheck, ?_⟩
      rw [← hreceipt]

theorem newest_eq {call : Call} {conversationId : JsStr} {binding : Binding} {rows : List Row} {notes : List Note}
    (hread : call.read conversationId = .ok (binding, rows)) (hnotes : orderedNotes rows = .ok notes) :
    call.newest conversationId = notes.getLast? := by
  simp only [Call.newest, hread, Except.toOption, Option.bind_some, hnotes]

section

variable {call : Call} {input : Input} {result : Result} {note : Note}

/-- A repetition puts the newest note into the returned prompt. -/
theorem again_iff (h : _include call (some input) = .ok result)
    (hnote : call.newest input.conversationId = some note) :
    (∀ call', SameNotes input.conversationId call call' → ∃ result',
        _include call' (some ⟨input.conversationId, result.prompt⟩) = .ok result' ∧
          result'.prompt = result.prompt) ↔
      place note.text result.prompt = .ok result.prompt := by
  obtain ⟨hid, hlen, binding, rows, notes, hread, hnotes, h⟩ := include_eq_ok.1 h
  rw [newest_eq hread hnotes] at hnote
  rcases h with ⟨hlast, -⟩ | ⟨note', hlast, hplace, hcheck, -⟩
  · rw [hlast] at hnote
    cases hnote
  obtain rfl := Option.some.inj (hlast.symm.trans hnote)
  constructor
  · intro hall
    obtain ⟨result', h', hprompt⟩ := hall call ⟨binding, binding, rows, hread, hread, hcheck⟩
    obtain ⟨-, -, binding', rows', notes', hread', hnotes', h'⟩ := include_eq_ok.1 h'
    obtain ⟨-, rfl⟩ := Prod.mk.inj (Except.ok.inj (hread.symm.trans hread'))
    obtain rfl := Except.ok.inj (hnotes.symm.trans hnotes')
    rcases h' with ⟨hnone, -⟩ | ⟨note'', hlast', hplace', -⟩
    · rw [hlast] at hnone
      cases hnone
    · obtain rfl := Option.some.inj (hlast.symm.trans hlast')
      rwa [hprompt] at hplace'
  · rintro hplace' call' ⟨binding₁, binding', rows', hread₁, hread', hcheck'⟩
    obtain ⟨-, rfl⟩ := Prod.mk.inj (Except.ok.inj (hread.symm.trans hread₁))
    refine ⟨⟨result.prompt, some ⟨note'.revision, note'.contextRequestId, binding'.planId, call'.receiptStored⟩⟩,
      include_eq_ok.2 ⟨hid, ?_, binding', rows, notes, hread', hnotes, .inr ⟨note', hlast, hplace', hcheck', rfl⟩⟩,
      rfl⟩
    exact place_length hplace hlen

/-- A call without notes returns the prompt, and so does its repetition. -/
theorem kept_of_none (h : _include call (some input) = .ok result) (hone : OneBlock input.prompt)
    (hnote : call.newest input.conversationId = none) : Kept call input result := by
  obtain ⟨hid, hlen, binding, rows, notes, hread, hnotes, h⟩ := include_eq_ok.1 h
  rw [newest_eq hread hnotes] at hnote
  rcases h with ⟨-, rfl⟩ | ⟨note, hlast, -⟩
  · refine ⟨hone, fun note hnew => ?_, ⟨0, [], .inl rfl, rfl⟩, ?_⟩
    · rw [newest_eq hread hnotes, hnote] at hnew
      cases hnew
    · rintro call' ⟨binding₁, binding', rows', hread₁, hread', -⟩
      obtain ⟨-, rfl⟩ := Prod.mk.inj (Except.ok.inj (hread.symm.trans hread₁))
      exact ⟨⟨input.prompt, none⟩,
        include_eq_ok.2 ⟨hid, hlen, binding', rows, notes, hread', hnotes, .inl ⟨hnote, rfl⟩⟩, rfl⟩
  · rw [hlast] at hnote
    cases hnote

end

/-! ## A call with one note -/

def sampleId : JsStr := List.replicate 32 97

def sampleMoment : Moment := ⟨sampleId, fun conversationId user => .ok ⟨conversationId, sampleId, sampleId, user⟩⟩

def sampleMessage (text : JsStr) : JsStr :=
  notePrefix ++ sampleId ++ js "\nrevision:" ++ decimal 1 ++ newline :: provenance ++ newline :: text

/-- A call that reads one note. -/
def sampleCall (text : JsStr) : Call :=
  ⟨sampleMoment, js "user", [⟨.ok (), sampleId, js "user", sampleMessage text, sampleMessage text⟩], sampleMoment,
    true⟩

def sampleInput : Input := ⟨sampleId, js "<inputs><memory></memory></inputs>"⟩

theorem sampleInput_block : Block sampleInput.prompt 0 8 16 25 := by
  refine ⟨?_, ?_, ?_, ?_, by decide, by decide, by decide⟩ <;>
    exact once_of_indexOf (by decide +kernel) (by decide +kernel)

theorem isId_sampleId : isId sampleId := by decide

theorem sample_facts : isRole (js "user") ∧ sampleInput.prompt.length = 34 ∧ bracket ∉ sampleInput.prompt ∧
    less ∉ js "Gross" ∧ isText (js "Gross") = .ok true ∧ isText memoryOpen = .ok true := by decide +kernel

section

variable (h : isText text = .ok true)
include h

theorem sample_notes : orderedNotes [⟨sampleMessage text, sampleMessage text⟩] =
    .ok [⟨sampleId, 1, text, sampleMessage text⟩] := by
  have hnote : noteText sampleId 1 text = .ok (sampleMessage text) := by
    simp only [noteText, bind_eq_ok, require_eq_ok, pure_eq_ok]
    exact ⟨(), ⟨isId_sampleId, rfl⟩, true, h, (), rfl, rfl⟩
  have hparse := parseNote_noteText hnote
  exact @orderedNotes_singleton ⟨sampleId, 1, text, sampleMessage text⟩ hparse

omit h in
theorem sample_read : (sampleCall text).read sampleId = .ok (⟨sampleId, sampleId, sampleId, sampleId⟩,
    [⟨sampleMessage text, sampleMessage text⟩]) := by
  have hrows : collect sampleId (js "user") [] (sampleCall text).messages =
      .ok [⟨sampleMessage text, sampleMessage text⟩] := by
    refine bind_eq_ok.2 ⟨(), rfl, bind_eq_ok.2 ⟨(), require_eq_ok.2 ⟨rfl, rfl⟩, ?_⟩⟩
    exact bind_eq_ok.2 ⟨(), require_eq_ok.2 (Nat.le_of_ble_eq_true rfl), rfl⟩
  refine bind_eq_ok.2 ⟨(), require_eq_ok.2 isId_sampleId, bind_eq_ok.2 ⟨_, rfl, ?_⟩⟩
  exact bind_eq_ok.2 ⟨(), require_eq_ok.2 sample_facts.1, bind_eq_ok.2 ⟨_, hrows, rfl⟩⟩

theorem sample_newest : (sampleCall text).newest sampleId = some ⟨sampleId, 1, text, sampleMessage text⟩ :=
  newest_eq sample_read (sample_notes h)

theorem include_sample : _include (sampleCall text) (some sampleInput) =
    .ok ⟨insertNote text sampleInput.prompt 16, some ⟨1, sampleId, sampleId, true⟩⟩ := by
  obtain ⟨s, hs, -, -, -, -, hlen⟩ := promptProvenance_eq_cons
  obtain ⟨-, hshort, hbracket, -⟩ := sample_facts
  have hnone : Nowhere (visibleNote text) sampleInput.prompt := by
    rw [visibleNote, hs, cons_append]
    exact nowhere_of_notMem hbracket
  have hsize : text.length ≤ 8000 := by
    by_contra hlong
    rw [isText, if_pos (.inr (Nat.lt_of_not_le hlong))] at h
    cases h
  have hle : (insertNote text sampleInput.prompt 16).length ≤ 262144 := by
    rw [insertNote, length_enclose, hshort, visibleNote, length_append, length_cons]
    omega
  refine include_eq_ok.2 ⟨isId_sampleId, by omega, _, _, _, sample_read, sample_notes h, .inr ⟨_, rfl, ?_, ?_, rfl⟩⟩
  · exact (place_eq_ok sampleInput_block).2 (.inr ⟨rfl, hnone, hle⟩)
  · exact bind_eq_ok.2 ⟨(), require_eq_ok.2 rfl, bind_eq_ok.2 ⟨_, rfl, require_eq_ok.2 rfl⟩⟩

end

/-- An inclusion that succeeds keeps the blocks, and its repetition succeeds and changes nothing, exactly if the
newest note is clear of the prompt. -/
theorem include_kept (call : Call) (input : Input) (result : Result) (hone : OneBlock input.prompt)
    (h : _include call (some input) = .ok result) : Kept call input result ↔
      ∀ note, call.newest input.conversationId = some note → Clear note.text input.prompt := by
  cases hnew : call.newest input.conversationId with
  | none => exact iff_of_true (kept_of_none h hone hnew) nofun
  | some note =>
    have hagain := again_iff h hnew
    obtain ⟨b, m, c, e, hblock⟩ := hone
    obtain ⟨-, -, binding, rows, notes, hread, hnotes, hcase⟩ := include_eq_ok.1 h
    rw [newest_eq hread hnotes] at hnew
    have hplace : place note.text input.prompt = .ok result.prompt := by
      rcases hcase with ⟨hlast, -⟩ | ⟨note', hlast, hplace, -⟩
      · rw [hlast] at hnew
        cases hnew
      · rwa [Option.some.inj (hlast.symm.trans hnew)] at hplace
    rw [← newest_eq hread hnotes] at hnew
    rcases (place_eq_ok hblock).1 hplace with ⟨hsame, i, hi, hm, hc⟩ | ⟨hinsert, hnone, hlen⟩
    · -- the note was there already
      refine iff_of_true ⟨?_, ?_, ⟨0, [], .inl rfl, hsame⟩, hagain.2 ?_⟩ ?_
      · rw [hsame]
        exact ⟨b, m, c, e, hblock⟩
      · intro note' hnote'
        cases hnew.symm.trans hnote'
        rw [hsame]
        exact ⟨m, c, i, hblock.memory, hblock.close, hi.1, hm, hc⟩
      · rwa [hsame] at hplace ⊢
      · rintro note' ⟨⟩
        exact .inl hi.1.isInfix
    · constructor
      · intro hkept note' hnote'
        cases hnote'
        have hone := hkept.block
        rw [hinsert] at hone
        have htags := hblock.nowhere hone
        have hclose := htags memoryClose (by decide)
        refine .inr ⟨fun t ht => nowhere_iff.1 (htags t ht), c, hblock.close.1, ?_⟩
        have hretry := hagain.1 hkept.again
        rw [hinsert, place_eq_ok (hblock.insert htags)] at hretry
        have hat : At (visibleNote note.text) _ _ := at_place hblock.close.1
        rcases hretry with ⟨-, i, hi, -⟩ | ⟨-, hnot, -⟩
        · obtain rfl := hi.2 _ hat
          exact (once_place hblock.close.1 hnone hclose).1 hi
        · exact absurd hat (hnot _)
      · intro hclear
        rcases hclear note rfl with hin | ⟨htags, c', hc', hfirst⟩
        · exact absurd hin (nowhere_iff.1 hnone)
        obtain rfl := hblock.close.2 c' hc'
        have htags := fun t ht => nowhere_iff.2 (htags t ht)
        have hblock' := hblock.insert htags
        have hm := hblock.close_after
        have hpos : 0 < (visibleNote note.text).length := by
          rw [visibleNote, length_append, length_cons]
          omega
        have honce := (once_place hc' hnone (htags memoryClose (by decide))).2 hfirst
        refine ⟨?_, ?_, ⟨c', addition note.text, .inr ⟨note, hnew, rfl⟩, hinsert⟩, hagain.2 ?_⟩
        · rw [hinsert]
          exact ⟨_, _, _, _, hblock'⟩
        · intro note' hnote'
          cases hnew.symm.trans hnote'
          rw [hinsert]
          exact ⟨m, _, c' + 1, hblock'.memory, hblock'.close, honce.1, by omega, by omega⟩
        · rw [hinsert]
          exact (place_eq_ok hblock').2 (.inl ⟨rfl, c' + 1, honce, by omega, by omega⟩)

theorem include_kept_sample : Kept (sampleCall (js "Gross")) sampleInput
    ⟨insertNote (js "Gross") sampleInput.prompt 16, some ⟨1, sampleId, sampleId, true⟩⟩ := by
  obtain ⟨-, hshort, hnone, hless, htext, -⟩ := sample_facts
  have hbracket : bracket ∉ sampleInput.prompt.take 16 := fun h => hnone (mem_of_mem_take h)
  have hlength : (sampleInput.prompt.take 16).length = 16 := by rw [length_take, hshort]; rfl
  have hclose := sampleInput_block.close.1
  refine (include_kept _ _ _ ⟨_, _, _, _, sampleInput_block⟩ (include_sample htext)).2 fun note hnote => ?_
  cases ((sample_newest htext).symm.trans hnote)
  refine .inr ⟨fun t ht => nowhere_iff.1 ?_, 16, hclose, indexOf_eq_some.2 ⟨Nat.zero_le _, ?_, fun j _ hj hat => ?_⟩⟩
  · obtain ⟨s, rfl, -⟩ := tag_eq_cons ht
    exact nowhere_of_notMem hless
  · exact (at_enclose_le (le_length hclose) le_rfl).1 (at_place hclose)
  · -- the note begins with a bracket
    obtain ⟨s, hs, -⟩ := promptProvenance_eq_cons
    rw [visibleNote, hs, cons_append] at hat
    have hget := hat.getElem? (Nat.zero_lt_succ _)
    rw [Nat.add_zero, List.getElem?_cons_zero] at hget
    rcases Nat.lt_or_ge j 16 with hlt | hge
    · rw [List.getElem?_append_left (by omega)] at hget
      exact hbracket (mem_of_getElem? hget)
    · rw [List.getElem?_append_right (by omega), hlength, show j - 16 = 0 by omega, List.getElem?_cons_zero] at hget
      exact absurd (Option.some.inj hget) (by decide)

/-- A note with a tag is put into the memory block, which then has the tag twice. -/
theorem note_with_tag : ¬∀ call input result, OneBlock input.prompt → _include call (some input) = .ok result →
    Kept call input result := by
  intro hall
  have hkept := hall _ _ _ ⟨_, _, _, _, sampleInput_block⟩ (include_sample sample_facts.2.2.2.2.2)
  exact sampleInput_block.nowhere hkept.block memoryOpen (by decide) 0 (prefix_refl _)

end StrixAlloy.CallerContext

import StrixAlloy.CallerContext.Inclusion
import StrixAlloy.PresentationHistory.Block

/-!
# The history behind the note

`includeJSON` of `SCCVoiceCallerContext`: the result of `_include`, and behind its prompt what the helper for the
presentation history answers. The helper is any function on texts; of its answer the opening line and the ids are
looked at, and not what stands in the block.
-/

namespace StrixAlloy.CallerContext

open PresentationHistory Checked Occurs Option

/-- An answer: the prompt, what is said of the note, and the ids of a history that was included. -/
structure Reply where
  prompt : Option JsStr
  note : Except Code (Option Receipt)
  historyEventIds : Option (List JsStr)

/-- What the helper is asked. -/
def historyRequest (conversationId prompt : JsStr) : Value CodeUnit :=
  .dict [(js "conversationId", .str conversationId), (js "prompt", .str prompt)]

/-- The texts of an array. -/
def strings : Value CodeUnit → Option (List JsStr)
  | .list items => items.mapM fun v => match v with
    | .str s => some s
    | _ => none
  | _ => none

/-- The line before a history. -/
def opening : JsStr := lineEnd :: (historyOpen ++ [lineEnd])

/-- The checks of `includeJSON` on what the helper answers. -/
def acceptHistory (prompt : JsStr) : Value CodeUnit → Option (JsStr × List JsStr)
  | .dict members =>
    if !keysAre members ["historyEventIds", "historyIncluded", "prompt"] ||
        Value.bool? members (js "historyIncluded") ≠ some true then none
    else do
      let returned ← Value.str? members (js "prompt")
      let ids ← (Value.get? members (js "historyEventIds")).bind strings
      if 1 ≤ ids.length ∧ ids.length ≤ 3 ∧ ids.all isId ∧ prompt ++ opening <+: returned ∧ returned.length ≤ 262144
      then some (returned, ids) else none
  | _ => none

section

variable (fraction : ℚ → JsStr) (call : Call) (helper : JsStr → Option JsStr)

/-- The history that is put behind a result; nothing where the helper throws. -/
def historyOf (conversationId prompt : JsStr) : Option (JsStr × List JsStr) :=
  (((helper (stringify fraction (historyRequest conversationId prompt))).bind parse)).bind (acceptHistory prompt)

/-- A result with the history that was found for it. -/
def withHelper (input : Option Input) (result : Result) : Reply :=
  match input.bind fun i => historyOf fraction helper i.conversationId result.prompt with
  | some (returned, ids) => ⟨some returned, .ok result.receipt, some ids⟩
  | none => ⟨some result.prompt, .ok result.receipt, none⟩

def includeJSON (requestText : JsStr) : Reply :=
  if 1048576 < requestText.length then ⟨none, .error .input_invalid, none⟩
  else match parse requestText with
    | none => ⟨none, .error .read_unavailable, none⟩
    | some input =>
      match _include call (inputOf input) with
      | .error code => ⟨originalOf input, .error code, none⟩
      | .ok result => withHelper fraction helper (inputOf input) result

/-- The answer where the helper throws. -/
def ownReply (requestText : JsStr) : Reply := includeJSON fraction call (fun _ => none) requestText

end

/-! ## What the helper can change -/

section

variable {fraction : ℚ → JsStr} {call : Call} {helper : JsStr → Option JsStr}

-- Makes the equations once, for all of the proofs.
attribute [local simp] historyRequest strings acceptHistory historyOf withHelper includeJSON in
theorem acceptHistory_spec {prompt : JsStr} {v : Value CodeUnit} {returned : JsStr} {ids : List JsStr}
    (h : acceptHistory prompt v = some (returned, ids)) : (∃ members, v = .dict members ∧
        Value.bool? members (js "historyIncluded") = some true ∧ Value.str? members (js "prompt") = some returned ∧
        (Value.get? members (js "historyEventIds")).bind strings = some ids) ∧
      (1 ≤ ids.length ∧ ids.length ≤ 3 ∧ ids.all isId) ∧ prompt ++ opening <+: returned ∧
      returned.length ≤ 262144 := by
  cases v with
  | dict members =>
    rw [acceptHistory] at h
    split_ifs at h with hbad
    simp only [Bool.or_eq_true, decide_eq_true_eq, not_or, Decidable.not_not] at hbad
    simp only [bind_eq_bind, bind_eq_some_iff] at h
    obtain ⟨returned', hreturned, ids', hids, h⟩ := h
    split_ifs at h with hok
    cases h
    obtain ⟨h1, h3, hall, hp, hlen⟩ := hok
    exact ⟨⟨members, rfl, hbad.2, hreturned, bind_eq_some_iff.2 hids⟩, ⟨h1, h3, hall⟩, hp, hlen⟩
  | _ => cases h

/-- Whatever the helper answers, the answer is the one without it, or it has a history that was found for the
prompt of the result. -/
theorem includeJSON_cases (fraction : ℚ → JsStr) (call : Call) (helper : JsStr → Option JsStr)
    (requestText : JsStr) :
    includeJSON fraction call helper requestText = ownReply fraction call requestText ∨
      ∃ conversationId prompt returned ids, (ownReply fraction call requestText).prompt = some prompt ∧
        historyOf fraction helper conversationId prompt = some (returned, ids) ∧
        includeJSON fraction call helper requestText =
          ⟨some returned, (ownReply fraction call requestText).note, some ids⟩ := by
  unfold ownReply includeJSON
  split_ifs
  · exact .inl rfl
  split
  · exact .inl rfl
  split
  · exact .inl rfl
  · rename_i input _ _ result _
    have hown : withHelper fraction (fun _ => none) (inputOf input) result =
        ⟨some result.prompt, .ok result.receipt, none⟩ := by
      cases inputOf input <;> rfl
    rw [hown, withHelper]
    cases hi : inputOf input with
    | none => exact .inl rfl
    | some i =>
      rw [bind_some]
      cases hh : historyOf fraction helper i.conversationId result.prompt with
      | none => exact .inl rfl
      | some found => exact .inr ⟨i.conversationId, result.prompt, found.1, found.2, rfl, hh, rfl⟩

theorem strings_map (ids : List JsStr) : strings (.list (ids.map .str)) = some ids := by
  induction ids with
  | nil => rfl
  | cons id ids ih =>
    rw [strings] at ih ⊢
    rw [List.map_cons, List.mapM_cons, ih]
    rfl

theorem historyRequest_unique (conversationId prompt : JsStr) :
    (historyRequest conversationId prompt).unique ∧ (historyRequest conversationId prompt).integral := by
  have hkeys : [js "conversationId", js "prompt"].Nodup := by decide +kernel
  simp only [historyRequest, Value.unique, Value.uniqueMembers, Value.integral, Value.integralMembers, Bool.and_true,
    decide_eq_true_eq, and_true]
  exact hkeys

theorem requestOf_historyRequest {conversationId prompt id original : JsStr}
    (h : requestOf (historyRequest conversationId prompt) = some (id, original)) : original = prompt := by
  have hne : (js "conversationId" = js "prompt") = False := eq_false (by decide +kernel)
  have hprompt : Value.str? [(js "conversationId", .str conversationId), (js "prompt", .str prompt)] (js "prompt") =
      some prompt := by
    simp [Value.str?, Value.get?, hne]
  rw [historyRequest, requestOf] at h
  split_ifs at h
  simp only [bind_eq_bind, bind_eq_some_iff, hprompt] at h
  obtain ⟨_, -, _, ⟨⟩, h⟩ := h
  split_ifs at h
  cases h
  rfl

variable {digest : JsStr → JsStr} {replies : Replies}

/-- The script of the history as a helper. -/
def scriptHelper (digest : JsStr → JsStr) (fraction : ℚ → JsStr) (replies : Replies) (requestText : JsStr) :
    Option JsStr :=
  some (stringify fraction (PresentationHistory.includeJSON digest fraction replies requestText).value)

/-- What is found with the script of the history is its block. -/
theorem historyOf_scriptHelper {conversationId prompt returned : JsStr} {ids : List JsStr}
    (h : historyOf fraction (scriptHelper digest fraction replies) conversationId prompt = some (returned, ids)) :
    ∃ id a, Shows digest replies id prompt a ∧ a.prompt = some returned ∧ a.historyEventIds = ids := by
  obtain ⟨hu, hi⟩ := historyRequest_unique conversationId prompt
  generalize ha : PresentationHistory.includeJSON digest fraction replies
    (stringify fraction (historyRequest conversationId prompt)) = a
  obtain ⟨hua, hia⟩ := a.value_unique
  rw [historyOf, scriptHelper, ha, bind_some, parse_stringify fraction _ hua hia, bind_some] at h
  obtain ⟨⟨members, hv, hincluded, hprompt, hids⟩, -⟩ := acceptHistory_spec h
  obtain ⟨members', hv', hprompt', hincluded', hids'⟩ := a.value_members
  obtain rfl := Value.dict.inj (hv.symm.trans hv')
  have hshown : a.prompt = some returned := hprompt'.symm.trans hprompt
  have hsame : a.historyEventIds = ids := by
    rw [hids', bind_some, strings_map] at hids
    exact Option.some.inj hids
  have hspec := @includeJSON_spec digest fraction replies
    (stringify fraction (historyRequest conversationId prompt))
  rw [ha] at hspec
  rcases hspec with ⟨-, hno, -⟩ | ⟨input, id, original, hinput, hrequest, hshows⟩
  · rw [hincluded', hno] at hincluded
    cases hincluded
  · have hvalue : input = historyRequest conversationId prompt := by
      rw [requestValue, parse_stringify fraction _ hu hi] at hinput
      split_ifs at hinput
      exact (Option.some.inj hinput).symm
    rw [hvalue] at hrequest
    obtain rfl := requestOf_historyRequest hrequest
    exact ⟨id, a, hshows, hshown, hsame⟩

end

/-- The history stays in its block. The script of the history answers with the prompt of its request, or with that
and one block behind it. Whatever a helper answers, the answer of `includeJSON` says of the note what it says without
it, and its prompt is the one without it, or that with an opening line and one to three ids behind it. With the script
of the history what stands behind is one of its blocks. -/
theorem history_stays_in_block (digest : JsStr → JsStr) (fraction : ℚ → JsStr) (replies : Replies) :
    (∀ requestText, let a := PresentationHistory.includeJSON digest fraction replies requestText
      (a.prompt = (requestValue requestText).bind originalOf ∧ a.historyIncluded = false ∧ a.historyEventIds = []) ∨
        ∃ input conversationId original, requestValue requestText = some input ∧
          requestOf input = some (conversationId, original) ∧ Shows digest replies conversationId original a) ∧
    (∀ call helper requestText, let own := ownReply fraction call requestText
      let reply := includeJSON fraction call helper requestText
      reply = own ∨ ∃ prompt suffix ids, own.prompt = some prompt ∧
        reply = ⟨some (prompt ++ opening ++ suffix), own.note, some ids⟩ ∧ 1 ≤ ids.length ∧ ids.length ≤ 3 ∧
        ids.all isId ∧ (prompt ++ opening ++ suffix).length ≤ 262144) ∧
    ∀ call requestText, let own := ownReply fraction call requestText
      let reply := includeJSON fraction call (scriptHelper digest fraction replies) requestText
      reply = own ∨ ∃ conversationId prompt a, own.prompt = some prompt ∧
        Shows digest replies conversationId prompt a ∧ reply = ⟨a.prompt, own.note, some a.historyEventIds⟩ := by
  refine ⟨includeJSON_spec, fun call helper requestText => ?_, fun call requestText => ?_⟩
  · rcases includeJSON_cases fraction call helper requestText with h | ⟨id, prompt, returned, ids, hown, hfound, h⟩
    · exact .inl h
    · obtain ⟨v, -, haccept⟩ := bind_eq_some_iff.1 hfound
      obtain ⟨-, ⟨h1, h3, hall⟩, ⟨suffix, rfl⟩, hlen⟩ := acceptHistory_spec haccept
      exact .inr ⟨prompt, suffix, ids, hown, h, h1, h3, hall, hlen⟩
  · rcases includeJSON_cases fraction call (scriptHelper digest fraction replies) requestText with
      h | ⟨id, prompt, returned, ids, hown, hfound, h⟩
    · exact .inl h
    · obtain ⟨id', a, hshows, ha, hids⟩ := historyOf_scriptHelper hfound
      exact .inr ⟨id', prompt, a, hown, hshows, by rw [ha, hids]; exact h⟩

/-! ### Another helper -/

/-- A call that finds no note. -/
def plainCall : Call := ⟨sampleMoment, js "user", [], sampleMoment, true⟩

/-- A request with an empty prompt. -/
def plainRequest : Value CodeUnit :=
  .dict [(js "request_data", .dict [(js "_meta", .dict [(js "conversationId", .str sampleId)])]),
    (js "prompt", .str [])]

/-- A helper that opens a block and writes a tag into it. -/
def tagHelper (_ : JsStr) : Option JsStr :=
  some (stringify (fun _ => []) (Included.value ⟨some (opening ++ [less]), true, [sampleId]⟩))

theorem plain_facts : plainRequest.unique ∧ plainRequest.integral ∧
    (inputOf plainRequest).map (fun i => (i.conversationId, i.prompt)) = some (sampleId, []) ∧
    (stringify (fun _ => []) plainRequest).length ≤ 1048576 ∧
    acceptHistory [] (Included.value ⟨some (opening ++ [less]), true, [sampleId]⟩) =
      some (opening ++ [less], [sampleId]) ∧ historyClose.length = 29 := by decide +kernel

theorem plain_parse : parse (stringify (fun _ => []) plainRequest) = some plainRequest :=
  parse_stringify _ _ plain_facts.1 plain_facts.2.1

theorem plain_include : _include plainCall (inputOf plainRequest) = .ok ⟨[], none⟩ := by
  obtain ⟨⟨id, prompt⟩, hi, he⟩ := map_eq_some_iff.1 plain_facts.2.2.1
  cases he
  have hread : plainCall.read sampleId = .ok (⟨sampleId, sampleId, sampleId, sampleId⟩, []) := by
    refine bind_eq_ok.2 ⟨(), require_eq_ok.2 isId_sampleId, bind_eq_ok.2 ⟨_, rfl, ?_⟩⟩
    exact bind_eq_ok.2 ⟨(), require_eq_ok.2 sample_facts.1, bind_eq_ok.2 ⟨[], rfl, rfl⟩⟩
  have hnotes : orderedNotes [] = .ok [] :=
    bind_eq_ok.2 ⟨(), require_eq_ok.2 (Nat.zero_le _), bind_eq_ok.2 ⟨[], rfl,
      bind_eq_ok.2 ⟨(), require_eq_ok.2 List.IsChain.nil, rfl⟩⟩⟩
  rw [hi]
  exact include_eq_ok.2 ⟨isId_sampleId, Nat.zero_le _, _, [], [], hread, hnotes, .inl ⟨rfl, rfl⟩⟩

/-- A helper that writes a tag behind the opening line is accepted. -/
theorem helper_with_tag : ¬∀ (fraction : ℚ → JsStr) (call : Call) (helper : JsStr → Option JsStr)
    (requestText : JsStr), let own := ownReply fraction call requestText
      let reply := includeJSON fraction call helper requestText
      reply.prompt = own.prompt ∨ ∃ prompt content, own.prompt = some prompt ∧
        reply.prompt = some (withHistory prompt content) ∧ ∀ u ∈ content, u ≠ unit '<' := by
  intro hall
  obtain ⟨-, -, hmap, hlength, haccept, hclose⟩ := plain_facts
  obtain ⟨hu, hi⟩ := Included.value_unique ⟨some (opening ++ [less]), true, [sampleId]⟩
  have hfound : ∀ id, historyOf (fun _ => []) tagHelper id [] = some (opening ++ [less], [sampleId]) := by
    intro id
    rw [historyOf, tagHelper, bind_some, parse_stringify _ _ hu hi, bind_some, haccept]
  obtain ⟨i, hinput, -⟩ := map_eq_some_iff.1 hmap
  have hinclude := plain_include
  rw [hinput] at hinclude
  have hown : (ownReply (fun _ => []) plainCall (stringify (fun _ => []) plainRequest)).prompt = some [] := by
    rw [ownReply, includeJSON, if_neg (Nat.not_lt.2 hlength), plain_parse]
    simp only [hinclude, withHelper, hinput, bind_some, historyOf, bind_none]
  have hreply : (includeJSON (fun _ => []) plainCall tagHelper (stringify (fun _ => []) plainRequest)).prompt =
      some (opening ++ [less]) := by
    rw [includeJSON, if_neg (Nat.not_lt.2 hlength), plain_parse]
    simp only [hinclude, withHelper, hinput, bind_some, hfound]
  rcases hall (fun _ => []) plainCall tagHelper (stringify (fun _ => []) plainRequest) with
    h | ⟨prompt, content, hprompt, h, -⟩
  · rw [hown, hreply] at h
    exact absurd (Option.some.inj h) (List.append_ne_nil_of_right_ne_nil _ (List.cons_ne_nil _ _))
  · -- the closing tag is longer than what the helper wrote
    rw [hown] at hprompt
    cases hprompt
    rw [hreply] at h
    have hlen := congrArg List.length (Option.some.inj h)
    simp only [withHistory, opening, List.length_append, List.length_cons, List.length_nil, hclose] at hlen
    omega

end StrixAlloy.CallerContext

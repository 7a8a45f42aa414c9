import Mathlib.Algebra.GroupWithZero.Nat
import Mathlib.Algebra.Order.BigOperators.Group.List
import Mathlib.Algebra.Order.Ring.Rat
import StrixAlloy.Lib.Runs

/-!
# The speech endpoint

`EndpointGate` cuts the fed PCM into utterances. Idle, it keeps the last quiet samples as pre-roll. A loud frame
makes the pre-roll the beginning of a candidate, which becomes active once enough of it is voiced, and ends on
quiet, at the maximum, or by `finish`. A candidate that stays too quiet, or gets no loud frame before its deadline,
is dropped.

What the gate holds, pre-roll or audio, is always the end of what was fed: a frame that is cut at the maximum is the
last of its utterance. So the utterances are slices of the fed samples (`utterances_slices`).
-/

namespace StrixAlloy.Endpoint

open List

/-- The parameters of a gate. With a rate of zero the deadline of a candidate would divide by it. -/
structure Config where
  sample_rate : ℕ
  onset_ms : ℕ
  silence_ms : ℕ
  minimum_ms : ℕ
  maximum_ms : ℕ
  /-- Whether the energy of a frame reaches the threshold. -/
  energetic : List Int16 → Bool
  rate_pos : 0 < sample_rate

namespace Config

variable (c : Config)

def silence : ℕ := c.sample_rate * c.silence_ms / 1000

def minimum : ℕ := c.sample_rate * c.minimum_ms / 1000

/-- No onset that `finish` would discard. -/
def onset : ℕ := max (c.sample_rate * c.onset_ms / 1000) c.minimum

def maximum : ℕ := c.sample_rate * c.maximum_ms / 1000

def prerollLimit : ℕ := min (c.sample_rate * 300 / 1000) (c.maximum - c.onset)

end Config

/-- The gate. -/
structure Gate where
  preroll : List (List Int16)
  preroll_samples : ℕ
  active : Bool
  voiced : ℕ
  quiet : ℕ
  run : ℕ
  audio : List Int16
  pending_deadline : Option ℚ
  candidate_id : ℕ

/-- What a call returns: whether an utterance began, and the one that ended. -/
structure Output where
  began : Bool
  ended : Option (List Int16)

namespace Gate

def init : Gate := ⟨[], 0, false, 0, 0, 0, [], none, 0⟩

def reset (g : Gate) : Gate :=
  { g with
    active := false
    audio := []
    voiced := 0
    quiet := 0
    run := 0
    preroll := []
    preroll_samples := 0
    pending_deadline := none }

def finish (c : Config) (g : Gate) : Option (List Int16) × Gate :=
  if g.active then (if c.minimum ≤ g.voiced then some g.audio else none, g.reset) else (none, g)

/-- The loop that takes the excess off the oldest packets. Where something is in excess, there is a packet. -/
def trim : List (List Int16) → ℕ → ℕ → List (List Int16) × ℕ
  | oldest :: preroll, samples, excess + 1 =>
    let removed := min (excess + 1) oldest.length
    if removed < oldest.length then (oldest.drop removed :: preroll, samples - removed)
    else trim preroll (samples - removed) (excess + 1 - removed)
  | preroll, samples, _ => (preroll, samples)

/-- The lookback of an idle gate, bounded in samples. -/
def lookback (c : Config) (pcm : List Int16) (g : Gate) : Gate :=
  let samples := g.preroll_samples + pcm.length
  let (preroll, preroll_samples) := trim (g.preroll ++ [pcm]) samples (samples - c.prerollLimit)
  { g with preroll, preroll_samples }

/-- The pre-roll becomes the beginning of a candidate. -/
def candidate (g : Gate) : Gate :=
  { g with
    audio := g.preroll.flatten
    preroll := []
    preroll_samples := 0
    candidate_id := g.candidate_id + 1 }

/-- How many of `n` samples the audio still takes. -/
def room (c : Config) (n : ℕ) (g : Gate) : ℕ := min n (c.maximum - g.audio.length)

/-- A frame of a candidate. -/
def hear (c : Config) (pcm : List Int16) (loud : Bool) (now : ℚ) (g : Gate) : Gate :=
  let n := g.room c pcm.length
  if loud then
    { g with
      audio := g.audio ++ pcm.take n
      run := g.run + n
      quiet := 0
      pending_deadline := some (now + c.silence / c.sample_rate) }
  else { g with audio := g.audio ++ pcm.take n, quiet := g.quiet + n }

/-- The candidate is confirmed. -/
def confirm (g : Gate) : Gate :=
  { g with active := true, pending_deadline := none, voiced := g.run, quiet := 0 }

/-- A frame of an active utterance. -/
def listen (c : Config) (pcm : List Int16) (loud : Bool) (g : Gate) : Gate :=
  let n := g.room c pcm.length
  if loud then { g with audio := g.audio ++ pcm.take n, voiced := g.voiced + n, quiet := 0 }
  else { g with audio := g.audio ++ pcm.take n, quiet := g.quiet + n }

/-- The end of a feed: on quiet or at the maximum the utterance is finished. -/
def settle (c : Config) (began : Bool) (g : Gate) : Output × Gate :=
  if c.silence ≤ g.quiet ∨ c.maximum ≤ g.audio.length then
    (⟨began, (g.finish c).1⟩, (g.finish c).2)
  else (⟨began, none⟩, g)

/-- The onset that got no loud frame before its deadline. -/
def expired (now : ℚ) (g : Gate) : Bool :=
  !g.active && g.run != 0 && g.pending_deadline.any (· ≤ now)

/-- A candidate after one more frame: dropped, waiting, or confirmed. -/
def weigh (c : Config) (g : Gate) : Output × Gate :=
  if c.silence ≤ g.quiet then (⟨false, none⟩, g.reset)
  else if g.run < c.onset then
    (⟨false, none⟩, if c.maximum ≤ g.audio.length then g.reset else g)
  else g.confirm.settle c true

/-- A frame with its decision, after the expiry. -/
def take (c : Config) (pcm : List Int16) (loud : Bool) (now : ℚ) (g : Gate) : Output × Gate :=
  if g.active then (g.listen c pcm loud).settle c false
  else if g.run ≠ 0 then (g.hear c pcm loud now).weigh c
  else if loud then (g.candidate.hear c pcm loud now).weigh c
  else (⟨false, none⟩, g.lookback c pcm)

def feed (c : Config) (pcm : List Int16) (voiced : Option Bool) (now : ℚ) (g : Gate) : Output × Gate :=
  if pcm = [] then (⟨false, none⟩, g)
  else (if g.expired now then g.reset else g).take c pcm (voiced.getD (c.energetic pcm)) now

end Gate

/-- The calls. -/
inductive Call
  | feed (pcm : List Int16) (voiced : Option Bool) (now : ℚ)
  | finish

def Gate.call (c : Config) (g : Gate) : Call → Output × Gate
  | .feed pcm voiced now => g.feed c pcm voiced now
  | .finish => (⟨false, (g.finish c).1⟩, (g.finish c).2)

/-- What a call feeds, each sample with the decision on its frame. -/
def Call.heard (c : Config) : Call → List (Int16 × Bool)
  | .feed pcm voiced _ => pcm.map (·, voiced.getD (c.energetic pcm))
  | .finish => []

/-- A gate with its history. -/
structure Session where
  gate : Gate
  heard : List (Int16 × Bool)
  utterances : List (List Int16)

def start : Session := ⟨.init, [], []⟩

def step (c : Config) (s : Session) (call : Call) : Session where
  gate := (s.gate.call c call).2
  heard := s.heard ++ call.heard c
  utterances := s.utterances ++ (s.gate.call c call).1.ended.toList

/-! ## Slices of what was heard -/

/-- The utterances are disjoint slices of the heard samples, in order, none too long and each with enough voiced
samples. -/
def Cut (c : Config) (heard : List (Int16 × Bool)) (utterances : List (List Int16)) : Prop :=
  ∃ spans : List (ℕ × ℕ),
    spans.Pairwise (fun p q => p.2 ≤ q.1) ∧
      (∀ p ∈ spans, p.1 ≤ p.2 ∧ p.2 ≤ heard.length ∧ p.2 - p.1 ≤ c.maximum ∧
        c.minimum ≤ (heard.extract p.1 p.2).countP Prod.snd) ∧
      utterances = spans.map fun p => (heard.extract p.1 p.2).map Prod.fst

variable {c : Config} {heard held more : List (Int16 × Bool)} {utterances : List (List Int16)} {g : Gate}

theorem cut_nil : Cut c [] [] := ⟨[], .nil, by simp, rfl⟩

/-- A slice stays where it is when more is heard. -/
theorem extract_append {a b : ℕ} (h : b ≤ heard.length) :
    (heard ++ more).extract a b = heard.extract a b := by
  rw [extract_eq_take_drop, extract_eq_take_drop, drop_append, take_append]
  have hz : b - a - (heard.drop a).length = 0 := by rw [length_drop]; omega
  rw [hz, take_zero, append_nil]

theorem Cut.append (h : Cut c heard utterances) : Cut c (heard ++ more) utterances := by
  obtain ⟨spans, hpair, hp, rfl⟩ := h
  refine ⟨spans, hpair, fun p hmem => ?_, map_congr_left fun p hmem => ?_⟩
  · obtain ⟨h1, h2, h3, h4⟩ := hp p hmem
    rw [extract_append h2]
    exact ⟨h1, by rw [length_append]; omega, h3, h4⟩
  · rw [extract_append (hp p hmem).2.1]

/-- What was heard last, up to where it is cut, is one more utterance. -/
theorem Cut.snoc (h : Cut c heard utterances) (hmax : held.length ≤ c.maximum)
    (hmin : c.minimum ≤ held.countP Prod.snd) :
    Cut c (heard ++ held) (utterances ++ [held.map Prod.fst]) := by
  have hx : (heard ++ held).extract heard.length (heard ++ held).length = held := by
    rw [extract_eq_take_drop, drop_left, length_append, Nat.add_sub_cancel_left,
      take_length]
  obtain ⟨spans, hpair, hp, rfl⟩ := h
  have hkeep : ∀ p ∈ spans, (heard ++ held).extract p.1 p.2 = heard.extract p.1 p.2 := fun p hmem =>
    extract_append (hp p hmem).2.1
  refine ⟨spans ++ [(heard.length, (heard ++ held).length)], ?_, fun p hmem => ?_, ?_⟩
  · refine pairwise_append.2 ⟨hpair, pairwise_singleton .., fun p hmem q hq => ?_⟩
    rw [mem_singleton.1 hq]
    exact (hp p hmem).2.1
  · rcases mem_append.1 hmem with hmem | hmem
    · obtain ⟨h1, h2, h3, h4⟩ := hp p hmem
      rw [hkeep p hmem]
      exact ⟨h1, by rw [length_append]; omega, h3, h4⟩
    · rw [mem_singleton.1 hmem, hx]
      rw [length_append]
      exact ⟨by omega, by omega, by omega, hmin⟩
  · rw [map_append, map_singleton, hx]
    congr 1
    exact map_congr_left fun p hmem => by rw [hkeep p hmem]

/-! ## What the gate holds -/

namespace Gate

/-- The samples that may become an utterance. -/
def kept (g : Gate) : List Int16 := if g.active = true ∨ g.run ≠ 0 then g.audio else g.preroll.flatten

/-- How many of them are voiced. -/
def speech (g : Gate) : ℕ := if g.active then g.voiced else g.run

/-- What holds of a gate between calls. -/
structure Ok (c : Config) (g : Gate) : Prop where
  samples : g.preroll_samples = g.preroll.flatten.length
  limit : g.preroll_samples ≤ c.prerollLimit
  moved : g.active ∨ g.run ≠ 0 → g.preroll = []
  short : g.active ∨ g.run ≠ 0 → g.audio.length < c.maximum
  confirmed : g.active → c.minimum ≤ g.voiced

/-- The gate holds the end of what was heard, and the utterances are cut from what was before. -/
def Sound (c : Config) (heard : List (Int16 × Bool)) (utterances : List (List Int16)) (g : Gate) : Prop :=
  g.Ok c ∧ ∃ before held, heard = before ++ held ∧ Cut c before utterances ∧
    held.map Prod.fst = g.kept ∧ held.countP Prod.snd = g.speech

/-- Within a feed: what follows the audio in what was heard is lost, and the audio is full then. -/
def Filled (c : Config) (heard : List (Int16 × Bool)) (utterances : List (List Int16)) (audio : List Int16)
    (speech : ℕ) : Prop :=
  ∃ before held lost, heard = before ++ held ++ lost ∧ Cut c before utterances ∧ held.map Prod.fst = audio ∧
    held.countP Prod.snd = speech ∧ audio.length ≤ c.maximum ∧ (audio.length < c.maximum → lost = [])

theorem init_sound : init.Sound c [] [] :=
  ⟨⟨rfl, Nat.zero_le _, by simp [init], by simp [init], by simp [init]⟩, [], [], rfl, cut_nil, rfl, rfl⟩

/-- A gate that holds nothing. -/
theorem reset_sound (h : Cut c heard utterances) : g.reset.Sound c heard utterances :=
  ⟨⟨rfl, Nat.zero_le _, by simp [reset], by simp [reset], by simp [reset]⟩,
    heard, [], (append_nil _).symm, h, rfl, rfl⟩

theorem Sound.cut (h : g.Sound c heard utterances) : Cut c heard utterances := by
  obtain ⟨-, before, held, rfl, hcut, -⟩ := h
  exact hcut.append

theorem Filled.cut {audio : List Int16} {speech : ℕ} (h : Filled c heard utterances audio speech) :
    Cut c heard utterances := by
  obtain ⟨before, held, lost, rfl, hcut, -⟩ := h
  exact hcut.append.append

/-- The audio is an utterance, if enough of it is voiced. -/
theorem Filled.emit {audio : List Int16} {speech : ℕ} (h : Filled c heard utterances audio speech)
    (hmin : c.minimum ≤ speech) : Cut c heard (utterances ++ [audio]) := by
  obtain ⟨before, held, lost, rfl, hcut, rfl, rfl, hmax, -⟩ := h
  rw [length_map] at hmax
  exact (hcut.snoc hmax hmin).append

variable {before : List (Int16 × Bool)}

/-- A frame fills the audio as far as there is room. -/
theorem filled_extend (hcut : Cut c before utterances) (hmax : held.length ≤ c.maximum) (pcm : List Int16)
    (loud : Bool) : let n := min pcm.length (c.maximum - held.length)
    Filled c (before ++ held ++ pcm.map (·, loud)) utterances (held.map Prod.fst ++ pcm.take n)
      (held.countP Prod.snd + if loud then n else 0) := by
  intro n
  have hn : n ≤ pcm.length := Nat.min_le_left ..
  have hlen : (held.map Prod.fst ++ pcm.take n).length = held.length + n := by
    rw [length_append, length_map, length_take, Nat.min_eq_left hn]
  refine ⟨before, held ++ (pcm.take n).map (·, loud), (pcm.drop n).map (·, loud), ?_, hcut, ?_, ?_, ?_, ?_⟩
  · rw [append_assoc, append_assoc, append_assoc, ← map_append, take_append_drop]
  · rw [map_append, map_map]
    congr 1
    exact map_id _
  · rw [countP_append, countP_map]
    congr 1
    cases loud with
    | true => exact (countP_eq_length.2 fun _ _ => rfl).trans (by rw [length_take]; exact Nat.min_eq_left hn)
    | false => exact countP_eq_zero.2 fun _ _ => Bool.false_ne_true
  · rw [hlen]
    omega
  · rw [hlen]
    intro hlt
    have hdrop : pcm.drop n = [] := drop_eq_nil_of_le (by omega)
    rw [hdrop, map_nil]

/-- The loop drops the oldest samples. -/
theorem trim_spec (preroll : List (List Int16)) (samples excess : ℕ) (hs : samples = preroll.flatten.length)
    (he : excess ≤ samples) : (trim preroll samples excess).1.flatten = preroll.flatten.drop excess ∧
      (trim preroll samples excess).2 = samples - excess := by
  induction preroll generalizing samples excess with
  | nil =>
    unfold trim
    simp_all
  | cons oldest preroll ih =>
    cases excess with
    | zero => exact ⟨rfl, rfl⟩
    | succ excess =>
      rw [flatten_cons, length_append] at hs
      unfold trim
      dsimp only
      split_ifs with hlt
      · have hmin : min (excess + 1) oldest.length = excess + 1 := by omega
        rw [hmin, flatten_cons, flatten_cons, drop_append_of_le_length (by omega)]
        exact ⟨rfl, rfl⟩
      · have hmin : min (excess + 1) oldest.length = oldest.length := by omega
        have hnil : oldest.drop (excess + 1) = [] := drop_eq_nil_of_le (by omega)
        rw [hmin, flatten_cons, drop_append, hnil, nil_append]
        obtain ⟨h1, h2⟩ := ih (samples - oldest.length) (excess + 1 - oldest.length) (by omega) (by omega)
        exact ⟨h1, by omega⟩

/-! ## One call -/

/-- An utterance that is open, or begins, stays open or is returned; without one, none is returned. -/
def Closes (g : Gate) (o : Output) (g' : Gate) : Prop :=
  if g.active ∨ o.began = true then o.ended.isSome = !g'.active else o.ended = none ∧ g'.active = false

variable {o : Output} {g' : Gate} {pcm : List Int16} {loud : Bool} {now : ℚ}

/-- The end of a feed, with an utterance open. -/
theorem settle_spec {began : Bool} (hactive : g.active)
    (hfill : Filled c heard utterances g.audio g.voiced) (hpre : g.preroll = []) (hsamples : g.preroll_samples = 0)
    (hmin : c.minimum ≤ g.voiced) (h : g.settle c began = (o, g')) :
    g'.Sound c heard (utterances ++ o.ended.toList) ∧ o.began = began ∧ o.ended.isSome = !g'.active := by
  have hfinish : g.finish c = (some g.audio, g.reset) := by
    unfold finish
    rw [if_pos hactive, if_pos hmin]
  unfold settle at h
  rw [hfinish] at h
  split_ifs at h with hend
  · cases h
    exact ⟨reset_sound (hfill.emit hmin), rfl, rfl⟩
  · cases h
    obtain ⟨before, held, lost, rfl, hcut, hheld, hspeech, hmax, hlost⟩ := hfill
    have hshort : g.audio.length < c.maximum := by omega
    refine ⟨⟨⟨by simp [hpre, hsamples], by simp [hsamples], fun _ => hpre, fun _ => hshort, fun _ => hmin⟩,
      before, held, by rw [hlost hshort, append_nil], by simpa using hcut, ?_, ?_⟩, rfl, by simp [hactive]⟩
    · rw [kept, if_pos (.inl hactive), hheld]
    · rw [speech, if_pos hactive, hspeech]

/-- A candidate after one more frame. -/
theorem weigh_spec (hactive : g.active = false) (hfill : Filled c heard utterances g.audio g.run)
    (hpre : g.preroll = []) (hsamples : g.preroll_samples = 0) (h : g.weigh c = (o, g')) :
    g'.Sound c heard (utterances ++ o.ended.toList) ∧
      (o.began ∧ o.ended.isSome = !g'.active ∨ o.began = false ∧ o.ended = none ∧ g'.active = false) := by
  unfold weigh at h
  split_ifs at h with hquiet honset hfull
  · cases h
    exact ⟨by simpa using reset_sound hfill.cut, .inr ⟨rfl, rfl, rfl⟩⟩
  · cases h
    exact ⟨by simpa using reset_sound hfill.cut, .inr ⟨rfl, rfl, rfl⟩⟩
  · cases h
    refine ⟨?_, .inr ⟨rfl, rfl, hactive⟩⟩
    have hok : g.Ok c := ⟨by simp [hpre, hsamples], by simp [hsamples], fun _ => hpre, fun _ => by omega,
      fun ha => absurd (hactive.symm.trans ha) Bool.false_ne_true⟩
    by_cases hrun : g.run = 0
    · -- Nothing is held: the audio of a candidate without a voiced sample is not looked at again.
      refine ⟨hok, heard, [], (append_nil _).symm, by simpa using hfill.cut, ?_, ?_⟩
      · simp [kept, hactive, hrun, hpre]
      · simp [speech, hactive, hrun]
    · obtain ⟨before, held, lost, rfl, hcut, hheld, hspeech, hmax, hlost⟩ := hfill
      refine ⟨hok, before, held, by rw [hlost (by omega), append_nil], by simpa using hcut, ?_, ?_⟩
      · rw [kept, if_pos (.inr hrun), hheld]
      · rw [speech, hactive, if_neg Bool.false_ne_true, hspeech]
  · have hmin : c.minimum ≤ g.run := (Nat.le_max_right ..).trans (not_lt.1 honset)
    obtain ⟨hsound, hbegan, hended⟩ := settle_spec (g := g.confirm) rfl hfill hpre hsamples hmin h
    exact ⟨hsound, .inl ⟨hbegan, hended⟩⟩

variable (pcm loud now) in
/-- A frame taken by a candidate that holds `held`. -/
theorem hear_spec (hcut : Cut c before utterances) (hmax : held.length ≤ c.maximum)
    (hheld : held.map Prod.fst = g.audio) (hspeech : held.countP Prod.snd = g.run) :
    let g' := g.hear c pcm loud now
    Filled c (before ++ held ++ pcm.map (·, loud)) utterances g'.audio g'.run ∧
      g'.active = g.active ∧ g'.preroll = g.preroll ∧ g'.preroll_samples = g.preroll_samples := by
  intro g'
  have hlen : g.audio.length = held.length := by rw [← hheld, length_map]
  have hfill := filled_extend hcut hmax pcm loud
  rw [hheld, hspeech, ← hlen] at hfill
  cases loud with
  | true => exact ⟨hfill, rfl, rfl, rfl⟩
  | false => exact ⟨hfill, rfl, rfl, rfl⟩

variable (pcm loud) in
/-- A frame taken by an active utterance that holds `held`. -/
theorem listen_spec (hcut : Cut c before utterances) (hmax : held.length ≤ c.maximum)
    (hheld : held.map Prod.fst = g.audio) (hspeech : held.countP Prod.snd = g.voiced) :
    let g' := g.listen c pcm loud
    Filled c (before ++ held ++ pcm.map (·, loud)) utterances g'.audio g'.voiced ∧ g.voiced ≤ g'.voiced ∧
      g'.active = g.active ∧ g'.preroll = g.preroll ∧ g'.preroll_samples = g.preroll_samples := by
  intro g'
  have hlen : g.audio.length = held.length := by rw [← hheld, length_map]
  have hfill := filled_extend hcut hmax pcm loud
  rw [hheld, hspeech, ← hlen] at hfill
  cases loud with
  | true => exact ⟨hfill, Nat.le_add_right .., rfl, rfl, rfl⟩
  | false => exact ⟨hfill, le_rfl, rfl, rfl, rfl⟩

variable (c pcm) in
/-- The lookback keeps the end of the pre-roll. -/
theorem lookback_spec (hsamples : g.preroll_samples = g.preroll.flatten.length) :
    let g' := g.lookback c pcm
    g'.preroll.flatten = (g.preroll.flatten ++ pcm).drop (g.preroll_samples + pcm.length - c.prerollLimit) ∧
      g'.preroll_samples = g.preroll_samples + pcm.length - (g.preroll_samples + pcm.length - c.prerollLimit) := by
  intro g'
  have h := trim_spec (g.preroll ++ [pcm]) (g.preroll_samples + pcm.length)
    (g.preroll_samples + pcm.length - c.prerollLimit) (by simp [hsamples]) (Nat.sub_le ..)
  rw [flatten_append, flatten_singleton] at h
  exact h

/-- A frame taken by a gate without an open utterance, as a frame of a candidate. -/
theorem hear_weigh_spec (hcut : Cut c before utterances) (hmax : held.length ≤ c.maximum)
    (hheld : held.map Prod.fst = g.audio) (hspeech : held.countP Prod.snd = g.run) (hactive : g.active = false)
    (hpre : g.preroll = []) (hsamples : g.preroll_samples = 0) (h : (g.hear c pcm loud now).weigh c = (o, g')) :
    g'.Sound c (before ++ held ++ pcm.map (·, loud)) (utterances ++ o.ended.toList) ∧ g.Closes o g' := by
  obtain ⟨hfill, ha, hp, hs⟩ := hear_spec pcm loud now hcut hmax hheld hspeech
  obtain ⟨hsound, hb⟩ := weigh_spec (ha.trans hactive) hfill (hp.trans hpre) (hs.trans hsamples) h
  refine ⟨hsound, ?_⟩
  unfold Closes
  rcases hb with ⟨hb, hended⟩ | ⟨hb, hended⟩
  · rw [if_pos (.inr hb)]
    exact hended
  · rw [if_neg (by simp [hactive, hb])]
    exact hended

section

variable (hsound : g.Sound c heard utterances)
include hsound

/-- A quiet frame of an idle gate: the oldest samples become part of what was before. -/
theorem lookback_sound (hactive : g.active = false) (hrun : g.run = 0) :
    (g.lookback c pcm).Sound c (heard ++ pcm.map (·, false)) utterances := by
  obtain ⟨hok, before, held, rfl, hcut, hheld, hspeech⟩ := hsound
  have hidle : ¬((g.lookback c pcm).active ∨ (g.lookback c pcm).run ≠ 0) := by simp [lookback, hactive, hrun]
  have hquiet : (g.lookback c pcm).speech = 0 := (if_neg (by simp [lookback, hactive])).trans hrun
  rw [kept, if_neg (by simp [hactive, hrun])] at hheld
  rw [speech, hactive, if_neg Bool.false_ne_true, hrun] at hspeech
  obtain ⟨hflat, hsamples⟩ := lookback_spec c pcm hok.samples
  set excess := g.preroll_samples + pcm.length - c.prerollLimit
  refine ⟨⟨?_, ?_, fun h => absurd h hidle, fun h => absurd h hidle, fun h => absurd (.inl h) hidle⟩,
    before ++ (held ++ pcm.map (·, false)).take excess, (held ++ pcm.map (·, false)).drop excess, ?_, hcut.append,
    ?_, ?_⟩
  · rw [hsamples, hflat, length_drop, length_append, hok.samples]
  · rw [hsamples]
    omega
  · rw [append_assoc, append_assoc before, take_append_drop]
  · rw [kept, if_neg hidle, hflat, ← hheld, map_drop, map_append, map_map]
    congr 2
    exact map_id _
  · have hzero : (held ++ pcm.map (·, false)).countP Prod.snd = 0 := by
      rw [countP_append, hspeech, countP_map]
      exact (Nat.zero_add _).trans (countP_eq_zero.2 fun _ _ => Bool.false_ne_true)
    rw [hquiet]
    exact Nat.eq_zero_of_le_zero (hzero ▸ (drop_sublist ..).countP_le)

/-- A frame with its decision. -/
theorem take_spec (h : g.take c pcm loud now = (o, g')) :
    g'.Sound c (heard ++ pcm.map (·, loud)) (utterances ++ o.ended.toList) ∧ g.Closes o g' := by
  unfold take at h
  by_cases hactive : g.active
  · -- an open utterance
    obtain ⟨hok, before, held, rfl, hcut, hheld, hspeech⟩ := hsound
    rw [if_pos hactive] at h
    rw [kept, if_pos (.inl hactive)] at hheld
    rw [speech, if_pos hactive] at hspeech
    have hmax : held.length ≤ c.maximum := by
      rw [← length_map Prod.fst, hheld]
      exact (hok.short (.inl hactive)).le
    have hpre := hok.moved (.inl hactive)
    obtain ⟨hfill, hle, ha, hp, hs⟩ := listen_spec pcm loud hcut hmax hheld hspeech
    obtain ⟨h1, -, h2⟩ := settle_spec (ha.trans hactive) hfill (hp.trans hpre)
      (by rw [hs, hok.samples, hpre]; rfl) ((hok.confirmed hactive).trans hle) h
    exact ⟨h1, by rw [Closes, if_pos (.inl hactive)]; exact h2⟩
  rw [if_neg hactive] at h
  have hidle : g.active = false := Bool.eq_false_of_not_eq_true hactive
  split_ifs at h with hrun hloud
  · -- one more frame of a candidate
    obtain ⟨hok, before, held, rfl, hcut, hheld, hspeech⟩ := hsound
    rw [kept, if_pos (.inr hrun)] at hheld
    rw [speech, if_neg hactive] at hspeech
    have hmax : held.length ≤ c.maximum := by
      rw [← length_map Prod.fst, hheld]
      exact (hok.short (.inr hrun)).le
    have hpre := hok.moved (.inr hrun)
    exact hear_weigh_spec hcut hmax hheld hspeech hidle hpre (by rw [hok.samples, hpre]; rfl) h
  · -- the first frame of a candidate: the pre-roll is its beginning
    obtain ⟨hok, before, held, rfl, hcut, hheld, hspeech⟩ := hsound
    rw [kept, if_neg (by simp [hidle, not_not.1 hrun])] at hheld
    rw [speech, if_neg hactive] at hspeech
    have hmax : held.length ≤ c.maximum := by
      have hlimit : c.prerollLimit ≤ c.maximum := (Nat.min_le_right ..).trans (Nat.sub_le ..)
      rw [← length_map Prod.fst, hheld, ← hok.samples]
      exact hok.limit.trans hlimit
    exact hear_weigh_spec (g := g.candidate) hcut hmax hheld hspeech hidle rfl rfl h
  · cases h
    rw [Bool.eq_false_of_not_eq_true hloud]
    exact ⟨by simpa using lookback_sound hsound hidle (not_not.1 hrun), by
      rw [Closes, if_neg (by simp [hidle])]
      exact ⟨rfl, hidle⟩⟩

/-- A finish returns the open utterance. -/
theorem finish_spec :
    (g.finish c).2.Sound c heard (utterances ++ (g.finish c).1.toList) ∧
      g.Closes ⟨false, (g.finish c).1⟩ (g.finish c).2 ∧ (g.finish c).2.active = false := by
  by_cases hactive : g.active
  · have hmin := hsound.1.confirmed hactive
    have hfinish : g.finish c = (some g.audio, g.reset) := by
      unfold finish
      rw [if_pos hactive, if_pos hmin]
    obtain ⟨hok, before, held, rfl, hcut, hheld, hspeech⟩ := hsound
    rw [kept, if_pos (.inl hactive)] at hheld
    rw [speech, if_pos hactive] at hspeech
    have hmax : held.length ≤ c.maximum := by
      rw [← length_map Prod.fst, hheld]
      exact (hok.short (.inl hactive)).le
    rw [hfinish, Closes, if_pos (.inl hactive), ← hheld]
    exact ⟨reset_sound (hcut.snoc hmax (hspeech ▸ hmin)), rfl, rfl⟩
  · have hidle : g.active = false := Bool.eq_false_of_not_eq_true hactive
    have hfinish : g.finish c = (none, g) := if_neg hactive
    rw [hfinish, Closes, if_neg (by simp [hidle])]
    exact ⟨by simpa using hsound, ⟨rfl, hidle⟩, hidle⟩

/-- One call. An onset that expires is dropped before the frame is taken. -/
theorem call_spec (call : Call) (h : g.call c call = (o, g')) :
    g'.Sound c (heard ++ call.heard c) (utterances ++ o.ended.toList) ∧ g.Closes o g' := by
  cases call with
  | finish =>
    cases h
    obtain ⟨h1, h2, -⟩ := finish_spec hsound
    exact ⟨by simpa [Call.heard] using h1, h2⟩
  | feed pcm voiced now =>
    change g.feed c pcm voiced now = (o, g') at h
    unfold feed at h
    split_ifs at h with hnil hexp
    · cases h
      refine ⟨by simpa [hnil, Call.heard] using hsound, ?_⟩
      unfold Closes
      cases g.active <;> simp
    · have hactive : g.active = false := by
        unfold expired at hexp
        simp_all
      have hdrop := reset_sound (g := g) hsound.cut
      obtain ⟨h1, h2⟩ := take_spec hdrop h
      refine ⟨h1, ?_⟩
      unfold Closes at h2 ⊢
      rw [hactive]
      exact h2
    · exact take_spec hsound h

end

end Gate

/-! ## Every run -/

theorem step_sound (s : Session) (call : Call) (h : s.gate.Sound c s.heard s.utterances) :
    (step c s call).gate.Sound c (step c s call).heard (step c s call).utterances :=
  (Gate.call_spec h call rfl).1

theorem run_sound (calls : List Call) :
    let s := Runs.run (step c) start calls
    s.gate.Sound c s.heard s.utterances :=
  Runs.run_invariant
    step_sound calls Gate.init_sound

/-- After any calls: the utterances are disjoint slices of what was fed, in order, none longer than the maximum and
each with the minimum of voiced samples. The samples of the pre-roll are counted, and within the limit. Whatever
call comes next, an utterance that is open or that it begins stays open or is returned as audio, and `finish` leaves
none open. -/
theorem utterances_slices (c : Config) (calls : List Call) :
    let s := Runs.run (step c) start calls
    Cut c s.heard s.utterances ∧
      s.gate.preroll_samples = (s.gate.preroll.map List.length).sum ∧ s.gate.preroll_samples ≤ c.prerollLimit ∧
      (∀ call, s.gate.Closes (s.gate.call c call).1 (s.gate.call c call).2) ∧
      (s.gate.call c .finish).2.active = false := by
  intro s
  have h := run_sound (c := c) calls
  refine ⟨h.cut, ?_, h.1.limit, fun call => (Gate.call_spec h call rfl).2, (Gate.finish_spec h).2.2⟩
  rw [h.1.samples, length_flatten]

/-- A gate of a thousand samples a second, to which a frame with any sound is loud. -/
def sampleConfig : Config where
  sample_rate := 1000
  onset_ms := 2
  silence_ms := 2
  minimum_ms := 1
  maximum_ms := 8
  energetic pcm := pcm.any (· ≠ 0)
  rate_pos := by decide

def sampleCalls : List Call :=
  [.feed [0] none 0, .feed [1, 2] none 0, .feed [3] none 0, .feed [0, 0] none 0, .finish]

theorem utterances_slices_sample :
    let s := Runs.run (step sampleConfig) start sampleCalls
    s.utterances = [[0, 1, 2, 3, 0, 0]] ∧ Cut sampleConfig s.heard s.utterances :=
  ⟨by decide +kernel, (utterances_slices sampleConfig sampleCalls).1⟩

end StrixAlloy.Endpoint

import Mathlib.Data.List.Nodup
import StrixAlloy.Voice.Safety

/-!
# The manifest of further voices

`nativeRegistrations` reads the manifest and the revision of every entry, and refuses the whole manifest for one
entry whose revision it cannot read. The binder adds entries and nothing takes one out; Studio's deletion and the
retention cleanup remove revisions and do not look at the manifest. Here the revisions are part of the state.
-/

namespace StrixAlloy.Voice

open Faulty Faulty.Prog List Function Runs

variable (I : Install)

/-- The revisions, and the records about them. -/
structure Library where
  revisions : String → Option Stored
  files : State

/-- An environment in which the folders hold these revisions. -/
def withRevisions (o : Env) (revisions : String → Option Stored) : Env :=
  { o with disk := fun n folder =>
      match folder with
      | .revision name => revisions name
      | folder => o.disk n folder }

/-- No step fails. -/
def Calm (o : Env) : Prop := ∀ n l, o.fault n l = .quiet

/-- What `readProfile` returns for a folder. -/
def profileOf (folder : Folder) (p : Stored) : Option Profile :=
  if p.schema_version = 1 ∧ p.language = "German" ∧ (p.kind = .authorized_own_voice → p.consent) ∧
      p.kind ≠ .unknown ∧ p.wav.length ≤ MAX_WAV_BYTES ∧ some (I.sha256 p.wav) = p.reference_sha256 then
    some {
      kind := p.kind
      profile_id := p.profile_id.getD SYNTHETIC
      reference_text := p.reference_text
      reference_sha256 := I.sha256 p.wav
      profile_dir := folder }
  else none

/-! ## Operations -/

/-- What `stage` writes into a new folder. -/
def Stored.staged (name : String) (p : Stored) : Prop :=
  p.schema_version = 1 ∧ p.kind = .authorized_own_voice ∧ p.language = "German" ∧ p.consent ∧
    p.profile_id = some name ∧ p.reference_sha256 = some (I.sha256 p.wav)

instance (name : String) (p : Stored) : Decidable (p.staged I name) := inferInstanceAs (Decidable (_ ∧ _))

/-- `stage`: the folder is moved to a name that is free. -/
def stage (name : String) (p : Stored) (s : Library) : Option Library :=
  if (s.revisions name).isNone ∧ p.staged I name then
    some { s with revisions := update s.revisions name (some p) }
  else none

/-- A call of the voice tools that returns. -/
def Library.call (c : Call) (o : Env) (s : Library) : Option Library :=
  match c.run I (withRevisions o s.revisions) s.files with
  | (.returned _, files) => some { s with files := files }
  | _ => none

/-- Studio's deletion, where the session may delete the profile and no file operation fails. -/
def deleteProfile (profile_id : String) (s : Library) : Option Library :=
  if profile_id = SYNTHETIC then none
  else
    match (s.revisions profile_id).bind (profileOf I (.revision profile_id)) with
    | none => none
    | some profile =>
      if profile.profile_id ≠ profile_id then none
      else if s.files.active.map Selection.profile_id = some profile_id then none
      else some { s with revisions := update s.revisions profile_id none }

/-- `restoreSynthetic` with the `register` that the cleanup passes where no worker runs: it asks no server. -/
def restoreOffline : Voiced Selection := do
  let profile ← readProfile I .default
  activationLock do
    let previous ← selectedProfile I
    let now ← ask Env.now
    let selection := {
      profile_id := profile.profile_id
      reference_sha256 := profile.reference_sha256
      active_voice := VOICE_ALIAS
      previous_profile_id := previous.map Profile.profile_id
      activated_at_utc := now }
    attempt (atomicJson .active fun s => { s with active := some selection }) fun _ =>
      match previous with
      | none => raise (.runtime "Activation state is uncertain; no prior reference is available to restore")
      | some _ => raise restored
    return selection

/-- The retention cleanup, where the workers are idle, its plan is valid and no file operation fails: it selects the
default voice and removes every revision, and the receipt. -/
def cleanup (o : Env) (s : Library) : Option Library :=
  let restore := if s.files.server.isSome then restoreSynthetic I else restoreOffline I
  match restore (withRevisions o s.revisions) 0 s.files with
  | (.returned selection, _, files) =>
    if selection.profile_id = SYNTHETIC then
      some { revisions := fun _ => none, files := { files with receipt := none } }
    else none
  | _ => none

/-- What is done to the library. -/
inductive Operation
  | stage (name : String) (p : Stored)
  | call (c : Call) (o : Env)
  | deleteProfile (profile_id : String)
  | cleanup (o : Env)

/-- The library after an operation that completes. -/
def Operation.run : Operation → Library → Option Library
  | .stage name p, s => Voice.stage I name p s
  | .call c o, s => s.call I c o
  | .deleteProfile profile_id, s => Voice.deleteProfile I profile_id s
  | .cleanup o, s => Voice.cleanup I o s

/-- An operation that completes; another one is left out of the run. -/
def change (s : Library) (op : Operation) : Library := (op.run I s).getD s

/-! ## What does not touch the manifest -/

section

variable {I}

/-- A step of the library leaves the manifest. -/
theorem keeps_op (l : Step) : Keeps State.manifest (op l) := Keeps.step fun _ => rfl

theorem keeps_effect (l : Step) {f : State → State} (h : ∀ s, (f s).manifest = s.manifest) :
    Keeps State.manifest (effect l f) := Keeps.step h

theorem keeps_readProfile (folder : Folder) : Keeps State.manifest (readProfile I folder) := by
  unfold readProfile
  refine (keeps_op _).bind fun _ => Keeps.ask.bind fun _ => Keeps.orRaise.bind fun _ => ?_
  refine Keeps.require.bind fun _ => Keeps.require.bind fun _ => Keeps.require.bind fun _ => ?_
  exact (keeps_op _).bind fun _ => Keeps.require.bind fun _ => Keeps.require.bind fun _ => Keeps.pure

theorem keeps_readEntries (seen : List String) (items : List Entry) :
    Keeps State.manifest (readEntries I seen items) := by
  induction items generalizing seen with
  | nil => exact Keeps.pure
  | cons item items ih =>
    unfold readEntries
    refine Keeps.require.bind fun _ => Keeps.require.bind fun _ => Keeps.require.bind fun _ => ?_
    refine (keeps_readProfile _).bind fun _ => Keeps.require.bind fun _ => ?_
    exact (ih _).bind fun _ => Keeps.pure

theorem keeps_nativeRegistrations : Keeps State.manifest (nativeRegistrations I) := by
  unfold nativeRegistrations
  refine (keeps_op _).bind fun _ => Keeps.get.bind fun s => ?_
  cases s.manifest with
  | none => exact Keeps.pure
  | some => exact (keeps_op _).bind fun _ => Keeps.require.bind fun _ => keeps_readEntries _ _

theorem keeps_selectedProfile : Keeps State.manifest (selectedProfile I) := by
  unfold selectedProfile
  refine (keeps_op _).bind fun _ => Keeps.get.bind fun s => ?_
  cases s.active with
  | none =>
    split_ifs
    · exact (keeps_readProfile _).bind fun _ => Keeps.pure
    · exact Keeps.pure
  | some =>
    refine (keeps_op _).bind fun _ => Keeps.require.bind fun _ => (keeps_readProfile _).bind fun _ => ?_
    exact Keeps.require.bind fun _ => Keeps.pure

theorem keeps_assertOwnedListener : Keeps State.manifest assertOwnedListener :=
  (keeps_op _).bind fun _ => Keeps.get.bind fun _ => Keeps.require.bind fun _ => (keeps_op _).bind fun _ => keeps_op _

theorem keeps_preflight (profile : Profile) (voice_id : String) :
    Keeps State.manifest (preflight I profile voice_id) := by
  unfold preflight
  refine (keeps_readProfile _).bind fun _ => Keeps.require.bind fun _ => Keeps.bind ?_ fun _ => ?_
  · unfold requireBinding
    split_ifs
    · exact Keeps.pure
    · exact Keeps.require.bind fun _ => keeps_nativeRegistrations.bind fun _ => Keeps.require
  refine (keeps_op _).bind fun _ => Keeps.ask.bind fun _ => Keeps.orRaise.bind fun _ => Keeps.require.bind fun _ => ?_
  refine keeps_assertOwnedListener.bind fun _ => Keeps.ask.bind fun _ => Keeps.require.bind fun _ => ?_
  exact (keeps_effect _ fun _ => by rfl).bind fun _ => Keeps.pure

theorem keeps_request (voice_id : String) (payload : Payload) : Keeps State.manifest (request voice_id payload) := by
  unfold request
  refine Keeps.bind (keeps_assertOwnedListener.attempt fun e => ?_) fun _ => (keeps_op _).bind fun _ => ?_
  · split <;> exact Keeps.raise
  refine Keeps.ask.bind fun outcome => ?_
  cases outcome with
  | lost => exact Keeps.raise
  | http => exact Keeps.raise
  | committed => exact (Keeps.modify fun _ => by rfl).bind fun _ => (keeps_op _).bind fun _ => Keeps.pure

/-- A registration at the server leaves the manifest. -/
theorem keeps_nativeRegister (profile : Profile) (voice_id : String) :
    Keeps State.manifest (nativeRegister I profile voice_id) := by
  unfold nativeRegister
  refine Keeps.bind ((keeps_preflight _ _).attempt fun _ => Keeps.raise) fun _ => ?_
  refine Keeps.bind ((keeps_request _ _).attempt fun e => ?_) fun _ => ?_
  · split <;> exact Keeps.raise
  · exact Keeps.require.bind fun _ => Keeps.require

theorem keeps_atomicJson {target : Target} {f : State → State} (h : ∀ s, (f s).manifest = s.manifest) :
    Keeps State.manifest (atomicJson target f) := by
  unfold atomicJson
  refine (Keeps.modify fun _ => by rfl).bind fun _ => Keeps.ensure ?_ (Keeps.get.bind fun _ => keeps_op _)
  exact (keeps_effect _ fun _ => by rfl).bind fun _ => (keeps_op _).bind fun _ => keeps_effect _ h

theorem keeps_activationLock {α : Type} {body : Voiced α} (h : Keeps State.manifest body) :
    Keeps State.manifest (activationLock body) :=
  (keeps_op _).bind fun _ => h.ensure (keeps_op _)

theorem keeps_restorePrevious (previous : Option Profile) :
    Keeps State.manifest (restorePrevious I previous : Voiced Unit) := by
  unfold restorePrevious
  refine Keeps.orRaise.bind fun _ => Keeps.bind ?_ fun _ => Keeps.raise
  exact (keeps_nativeRegister _ _).attempt fun _ => Keeps.raise

/-- A selection leaves the manifest. -/
theorem keeps_selectProfile (profile : Profile) : Keeps State.manifest (selectProfile I profile) := by
  unfold selectProfile
  refine keeps_activationLock (keeps_selectedProfile.bind fun previous => Keeps.bind ?_ fun _ => ?_)
  · refine (keeps_nativeRegister _ _).attempt fun e => ?_
    split
    · exact Keeps.raise
    · exact keeps_restorePrevious _
  · refine Keeps.ask.bind fun _ => Keeps.bind ?_ fun _ => Keeps.pure
    exact (keeps_atomicJson fun _ => by rfl).attempt fun _ => keeps_restorePrevious _

theorem keeps_restoreSynthetic : Keeps State.manifest (restoreSynthetic I) :=
  (keeps_readProfile _).bind fun _ => keeps_selectProfile _

theorem keeps_restoreOffline : Keeps State.manifest (restoreOffline I) := by
  unfold restoreOffline
  refine (keeps_readProfile _).bind fun _ => keeps_activationLock (keeps_selectedProfile.bind fun previous => ?_)
  refine Keeps.ask.bind fun _ => Keeps.bind ?_ fun _ => Keeps.pure
  refine (keeps_atomicJson fun _ => by rfl).attempt fun _ => ?_
  cases previous with
  | none => exact Keeps.raise
  | some => exact Keeps.raise

theorem manifest_happen (e : Event) (s : State) : (e.happen s).manifest = s.manifest := by
  cases e with
  | exits => rfl
  | starts pid recorded =>
    unfold Event.happen
    cases recorded <;> rfl

theorem keeps_meanwhile : Keeps State.manifest meanwhile := by
  refine Keeps.ask.bind fun events => Keeps.modify fun s => ?_
  induction events generalizing s with
  | nil => rfl
  | cons e events ih => exact (ih _).trans (manifest_happen e s)

/-- The registrations at start-up leave the manifest. -/
theorem keeps_registerAll (plan : List Registration) : Keeps State.manifest (registerAll I plan) := by
  induction plan with
  | nil => exact Keeps.pure
  | cons item plan ih => exact keeps_meanwhile.bind fun _ => (keeps_nativeRegister _ _).bind fun _ => ih

theorem keeps_start : Keeps State.manifest start := by
  unfold start ensureServer
  refine (keeps_op _).bind fun _ => (keeps_op _).bind fun _ => Keeps.get.bind fun s => Keeps.bind ?_ fun _ => keeps_op _
  split_ifs
  · exact keeps_op _
  · refine Keeps.require.bind fun _ => (keeps_op _).bind fun _ => Keeps.ask.bind fun _ => ?_
    exact (keeps_effect _ fun _ => by rfl).bind fun _ => keeps_effect _ fun _ => by rfl

theorem keeps_ttsOwner : Keeps State.manifest ttsOwner :=
  (keeps_op _).bind fun _ => Keeps.get.bind fun _ => Keeps.orRaise

theorem keeps_speechStart : Keeps State.manifest (speechStart I) := by
  unfold speechStart
  refine keeps_start.bind fun _ => keeps_activationLock (keeps_selectedProfile.bind fun _ => ?_)
  refine Keeps.orRaise.bind fun _ => keeps_nativeRegistrations.bind fun _ => keeps_ttsOwner.bind fun _ => ?_
  refine (keeps_op _).bind fun _ => (keeps_op _).bind fun _ => Keeps.get.bind fun s => ?_
  split_ifs
  · exact Keeps.pure
  · refine (keeps_effect _ fun _ => by rfl).bind fun _ => (keeps_registerAll _).bind fun _ => ?_
    refine keeps_meanwhile.bind fun _ => keeps_ttsOwner.bind fun _ => Keeps.require.bind fun _ => ?_
    exact keeps_atomicJson fun _ => by rfl

/-- Only the binder writes the manifest. -/
theorem keeps_call {c : Call} (h : ∀ folder voice_id, c ≠ .bind folder voice_id) :
    Keeps State.manifest (c.prog I) := by
  cases c with
  | activate =>
    refine Keeps.bind ?_ fun _ => Keeps.pure
    exact (keeps_readProfile _).bind fun _ => Keeps.require.bind fun _ => keeps_selectProfile _
  | restoreSynthetic =>
    exact keeps_restoreSynthetic.bind fun _ => Keeps.pure
  | bind folder voice_id => exact absurd rfl (h folder voice_id)
  | speechStart => exact keeps_speechStart.bind fun _ => Keeps.pure
  | event e => exact (Keeps.modify (manifest_happen e)).bind fun _ => Keeps.pure

end

/-! ## Reading the manifest -/

/-- The entries of the manifest. -/
def State.entries (s : State) : List Entry := s.manifest.getD []

/-- The revision of an entry is there, and is the profile that was bound. -/
def Bound (revisions : String → Option Stored) (e : Entry) : Prop :=
  ∃ p profile, revisions e.profile_id = some p ∧ profileOf I (.revision e.profile_id) p = some profile ∧
    profile.profile_id = e.profile_id ∧ profile.kind = .authorized_own_voice ∧
    profile.reference_sha256 = e.reference_sha256

/-- What the binder makes sure of. -/
structure Shaped (entries : List Entry) : Prop where
  length_le : entries.length ≤ 32
  nodup : (entries.map Entry.voice_id).Nodup
  canonical : ∀ e ∈ entries, canonicalUuid e.voice_id ∧ nativeName e.profile_id ∧ nativeHash e.reference_sha256

section

variable {I} {o : Env} {s : State} {revisions : String → Option Stored}

theorem profileOf_eq {folder : Folder} {p : Stored} {profile : Profile} (h : profileOf I folder p = some profile) :
    profile.kind = p.kind ∧ profile.reference_sha256 = I.sha256 p.wav := by
  unfold profileOf at h
  split_ifs at h
  cases h
  exact ⟨rfl, rfl⟩

/-- A profile that is read is what the folder holds. -/
theorem readProfile_spec (folder : Folder) : Reads o s (readProfile I folder)
    (fun profile => ∃ n p, held I folder o n = some p ∧ profileOf I folder p = some profile) fun _ => True := by
  unfold readProfile
  refine Reads.skip trivial (Reads.answer fun n => Reads.found trivial fun p hp => ?_)
  refine Reads.guard trivial fun h1 => Reads.guard trivial fun h2 => Reads.guard trivial fun h3 => ?_
  refine Reads.skip trivial (Reads.guard trivial fun h4 => Reads.guard trivial fun h5 => Reads.pure ⟨n, p, hp, ?_⟩)
  exact if_pos ⟨h1.1, h1.2, h2, h3, h4, h5⟩

/-- A step that does not fail. -/
theorem op_returns {α : Type} {l : Step} {f : Unit → Voiced α} {Q : α → State → Prop} (ho : Calm o)
    (h : Ends o s (f ()) (Post.returns Q)) : Ends o s (op l >>= f) (Post.returns Q) := by
  refine Ends.bind (Ends.step h ?_ ?_ ?_)
  all_goals
    rintro ⟨n, hn⟩
    rw [ho n l] at hn
    cases hn

theorem readProfile_returns {folder : Folder} {p : Stored} {profile : Profile} (ho : Calm o)
    (hheld : ∀ n, held I folder o n = some p) (hp : profileOf I folder p = some profile) :
    Ends o s (readProfile I folder) (Post.returns fun q t => q = profile ∧ t = s) := by
  unfold profileOf at hp
  split_ifs at hp with h
  obtain ⟨h1, h2, h3, h4, h5, h6⟩ := h
  cases hp
  unfold readProfile
  refine op_returns ho (Ends.answer fun n => ?_)
  refine Ends.bind (Ends.orRaise (fun q hq => ?_) fun hn => ?_)
  · cases (hheld n).symm.trans hq
    refine Ends.holds ⟨h1, h2⟩ (Ends.holds h3 (Ends.holds h4 (op_returns ho ?_)))
    exact Ends.holds h5 (Ends.holds h6 (Ends.pure ⟨rfl, rfl⟩))
  · cases (hheld n).symm.trans hn

/-- A manifest that is read is one whose revisions are there. -/
theorem readEntries_spec (items : List Entry) (seen : List String) :
    Reads (withRevisions o revisions) s (readEntries I seen items)
      (fun rs => rs.map Registration.entry = items ∧ ∀ e ∈ items, Bound I revisions e) fun _ => True := by
  induction items generalizing seen with
  | nil => exact Reads.pure ⟨rfl, nofun⟩
  | cons item items ih =>
    unfold readEntries nativeVoiceId
    refine Reads.guard trivial fun _ => Reads.guard trivial fun _ => Reads.guard trivial fun _ => ?_
    refine Reads.bind (readProfile_spec _) ?_
    rintro profile ⟨n, p, hheld, hp⟩
    refine Reads.guard trivial ?_
    rintro ⟨hid, hkind, hsha⟩
    refine Reads.bind (ih _) ?_
    rintro rs ⟨hrs, hbound⟩
    refine Reads.pure ⟨?_, forall_mem_cons.2 ⟨⟨p, profile, hheld, hp, hid, hkind, hsha⟩, hbound⟩⟩
    rw [map_cons, hrs, Registration.entry, hid, hsha]

/-- The manifest is read only if every entry is bound to its revision. -/
theorem nativeRegistrations_spec : Reads (withRevisions o revisions) s (nativeRegistrations I)
    (fun rs => rs.map Registration.entry = s.entries ∧ ∀ e ∈ s.entries, Bound I revisions e) fun _ => True := by
  unfold nativeRegistrations
  refine Reads.skip trivial (Reads.look ?_)
  unfold State.entries
  cases s.manifest with
  | none => exact Reads.pure ⟨rfl, nofun⟩
  | some entries => exact Reads.skip trivial (Reads.guard trivial fun _ => readEntries_spec entries [])

/-- A registration whose revision is there. -/
def Registration.There (I : Install) (revisions : String → Option Stored) (r : Registration) : Prop :=
  ∃ p, revisions r.profile.profile_id = some p ∧ p.kind = .authorized_own_voice ∧
    I.sha256 p.wav = r.profile.reference_sha256

/-- Bound entries with distinct identifiers are read. -/
theorem readEntries_returns {items : List Entry} {seen : List String} (hbound : ∀ e ∈ items, Bound I revisions e)
    (hnodup : (items.map Entry.voice_id).Nodup) (hseen : ∀ e ∈ items, e.voice_id ∉ seen)
    (hitems : ∀ e ∈ items, canonicalUuid e.voice_id ∧ nativeName e.profile_id ∧ nativeHash e.reference_sha256) :
    ∃ rs : List Registration, rs.map Registration.entry = items ∧ (∀ r ∈ rs, r.There I revisions) ∧
      ∀ o s, Calm o → Ends (withRevisions o revisions) s (readEntries I seen items)
        (Post.returns fun rs' _ => rs' = rs) := by
  induction items generalizing seen with
  | nil => exact ⟨[], rfl, forall_mem_nil _, fun o s _ => Ends.pure rfl⟩
  | cons item items ih =>
    obtain ⟨hitem, hrest⟩ := forall_mem_cons.1 hbound
    obtain ⟨p, profile, hp, hprofile, hid, hkind, hsha⟩ := hitem
    obtain ⟨⟨huuid, hname, hhash⟩, hitems⟩ := forall_mem_cons.1 hitems
    rw [map_cons, nodup_cons] at hnodup
    have hseen' : ∀ e ∈ items, e.voice_id ∉ item.voice_id :: seen := by
      intro e he hmem
      rcases mem_cons.1 hmem with heq | hmem
      · exact hnodup.1 (heq ▸ mem_map_of_mem he)
      · exact hseen e (mem_cons_of_mem _ he) hmem
    obtain ⟨rs, hrs, hthere, hreturns⟩ := ih hrest hnodup.2 hseen' hitems
    refine ⟨⟨item.voice_id, profile⟩ :: rs, ?_, forall_mem_cons.2 ⟨⟨p, ?_, ?_, ?_⟩, hthere⟩,
      fun o s ho => ?_⟩
    · rw [map_cons, hrs, Registration.entry, hid, hsha]
    · rw [hid, hp]
    · exact (profileOf_eq hprofile).1.symm.trans hkind
    · exact (profileOf_eq hprofile).2.symm
    · unfold readEntries nativeVoiceId
      refine Ends.holds huuid (Ends.holds (hseen item mem_cons_self)
        (Ends.holds ⟨hname, hhash⟩ ?_))
      refine Ends.seq (readProfile_returns ho (fun _ => hp) hprofile) ?_ (fun _ _ => False.elim)
        fun _ => False.elim
      rintro _ t ⟨rfl, rfl⟩
      refine Ends.holds ⟨hid, hkind, hsha⟩ (Ends.seq (hreturns o t ho) ?_ (fun _ _ => False.elim)
        fun _ => False.elim)
      rintro _ u rfl
      exact Ends.pure rfl

theorem nativeRegistrations_returns (hshaped : Shaped s.entries) (hbound : ∀ e ∈ s.entries, Bound I revisions e) :
    ∃ rs : List Registration, rs.map Registration.entry = s.entries ∧ (∀ r ∈ rs, r.There I revisions) ∧
      ∀ o, Calm o →
        Ends (withRevisions o revisions) s (nativeRegistrations I) (Post.returns fun rs' _ => rs' = rs) := by
  obtain ⟨rs, hrs, hthere, hreturns⟩ := readEntries_returns hbound hshaped.nodup (fun _ _ => not_mem_nil)
    hshaped.canonical
  refine ⟨rs, hrs, hthere, fun o ho => ?_⟩
  unfold nativeRegistrations
  refine op_returns ho (Ends.look ?_)
  cases hm : s.manifest with
  | none =>
    have hnil : rs = [] := by
      rw [State.entries, hm] at hrs
      exact map_eq_nil_iff.1 hrs
    exact Ends.pure hnil.symm
  | some entries =>
    have heq : s.entries = entries := by rw [State.entries, hm]; rfl
    exact op_returns ho (Ends.holds (heq ▸ hshaped.length_le) (heq ▸ hreturns o s ho))

/-- What the binder may do: it leaves the manifest, or adds an entry to one whose revisions are there. -/
def Grown (I : Install) (revisions : String → Option Stored) (s t : State) : Prop :=
  t.entries = s.entries ∨ ∃ e, t.entries = s.entries ++ [e] ∧ s.entries.length < 32 ∧
    e.voice_id ∉ s.entries.map Entry.voice_id ∧
    (canonicalUuid e.voice_id ∧ nativeName e.profile_id ∧ nativeHash e.reference_sha256) ∧
    ∀ e' ∈ s.entries ++ [e], Bound I revisions e'

/-- However it ends, a binding adds bound entries only. -/
theorem bind_spec (hsha : ∀ wav, nativeHash (I.sha256 wav)) (folder : Folder) (voice_id : String) :
    Ends (withRevisions o revisions) s (bindNativeRegistration I folder voice_id)
      (Post.always fun t => Grown I revisions s t) := by
  have hs : Grown I revisions s s := .inl rfl
  unfold bindNativeRegistration
  refine Ends.guard hs fun huuid => ?_
  cases folder with
  | default => exact Ends.raise hs
  | elsewhere => exact Ends.raise hs
  | revision =>
    refine activationLock_ends hs hs ?_
    refine Ends.mono ?_
      (fun _ _ h => ⟨h, h, h⟩) (fun _ _ h => ⟨h, h, h⟩) fun _ h => h
    refine Ends.read (readProfile_spec _) ?_ (fun _ _ => hs) hs
    rintro profile ⟨n, p, hp, hprofile⟩
    refine Ends.guard hs ?_
    rintro ⟨hkind, rfl, hname⟩
    refine Ends.read nativeRegistrations_spec ?_ (fun _ _ => hs) hs
    rintro items ⟨hitems, hbound⟩
    simp only [hitems]
    split
    · exact Ends.guard hs fun _ => Ends.pure hs
    · rename_i hnone
      refine Ends.guard hs fun hlt => ?_
      have hnew : voice_id ∉ s.entries.map Entry.voice_id := by
        intro hmem
        obtain ⟨e, he, heq⟩ := mem_map.1 hmem
        exact List.find?_eq_none.1 hnone e he (decide_eq_true heq)
      have hwritten : ∀ t : State, t.entries = s.entries ++ [Registration.entry ⟨voice_id, profile⟩] →
          Grown I revisions s t := by
        intro t ht
        refine .inr ⟨_, ht, hitems ▸ hlt, hnew, ⟨huuid, hname, ?_⟩, fun e' he' => ?_⟩
        · have hhash : nativeHash profile.reference_sha256 := (profileOf_eq hprofile).2.symm ▸ hsha p.wav
          exact hhash
        · rcases mem_append.1 he' with he' | he'
          · exact hbound e' he'
          · obtain rfl := mem_singleton.1 he'
            exact ⟨p, profile, hp, hprofile, rfl, hkind, rfl⟩
      refine Ends.seq (atomicJson_ends .manifest fun _ _ => rfl) ?_ ?_ ?_
      · rintro _ t ⟨x, rfl⟩
        exact Ends.pure (hwritten _ rfl)
      · rintro e t ⟨-, ⟨x, rfl⟩ | ⟨-, x, rfl⟩⟩
        · exact .inl rfl
        · exact hwritten _ rfl
      · rintro t (⟨x, rfl⟩ | ⟨x, rfl⟩)
        · exact .inl rfl
        · exact hwritten _ rfl

end

/-! ## Operations and the manifest -/

/-- `nativeRegistrations` returns the entries with profiles that are there, where no step fails. -/
def Readable (s : Library) : Prop :=
  ∃ rs : List Registration, rs.map Registration.entry = s.files.entries ∧ (∀ r ∈ rs, r.There I s.revisions) ∧
    ∀ o, Calm o →
      Ends (withRevisions o s.revisions) s.files (nativeRegistrations I) (Post.returns fun rs' _ => rs' = rs)

/-- A removal that completes takes no revision that the manifest names. -/
def Spares (s : Library) : Operation → Prop
  | .deleteProfile profile_id =>
    (deleteProfile I profile_id s).isSome → ∀ e ∈ s.files.entries, e.profile_id ≠ profile_id
  | .cleanup o => (cleanup I o s).isSome → s.files.entries = []
  | _ => True

/-- An environment without failures. -/
def calm : Env where
  fault _ _ := .quiet
  disk _ _ := none
  memory _ := 18 * 1024 ^ 3
  post _ := .lost
  pid _ := 0
  now _ := 0
  events _ := []

section

variable {I} {s t : Library}

/-- The manifest is readable exactly if every entry is bound. -/
theorem manifest_readable_iff (hs : Shaped s.files.entries) :
    Readable I s ↔ ∀ e ∈ s.files.entries, Bound I s.revisions e := by
  refine ⟨?_, nativeRegistrations_returns hs⟩
  rintro ⟨rs, hrs, hthere, hreturns⟩
  have h := (hreturns calm fun _ _ => rfl).and nativeRegistrations_spec
  have h0 := h 0
  generalize nativeRegistrations I (withRevisions calm s.revisions) 0 s.files = x at h0
  obtain ⟨a | e | _, n, u⟩ := x
  · exact h0.2.2.2
  · exact h0.1.elim
  · exact h0.1.elim

section

variable (hsha : ∀ wav, nativeHash (I.sha256 wav))
include hsha

/-- A call only adds bound entries. -/
theorem Library.call_spec {c : Call} {o : Env} (h : s.call I c o = some t) :
    t.revisions = s.revisions ∧ Grown I s.revisions s.files t.files := by
  have hrun : Grown I s.revisions s.files (c.run I (withRevisions o s.revisions) s.files).2 := by
    have hends : Ends (withRevisions o s.revisions) s.files (c.prog I)
        (Post.always fun t => Grown I s.revisions s.files t) := by
      by_cases hc : ∃ folder voice_id, c = .bind folder voice_id
      · obtain ⟨folder, voice_id, rfl⟩ := hc
        exact Ends.seq (bind_spec hsha folder voice_id) (fun _ _ h => Ends.pure h) (fun _ _ h => h) fun _ h => h
      · have hkeeps := keeps_call (I := I) fun folder voice_id heq => hc ⟨folder, voice_id, heq⟩
        have hsame : ∀ u : State, u.manifest = s.files.manifest → Grown I s.revisions s.files u :=
          fun u hu => .inl (congrArg (Option.getD · []) hu)
        exact (hkeeps _ _).mono (fun _ u => hsame u) (fun _ u => hsame u) hsame
    have h0 := hends 0
    unfold Call.run
    generalize c.prog I (withRevisions o s.revisions) 0 s.files = x at h0 ⊢
    obtain ⟨a | e | _, n, u⟩ := x
    · exact h0
    · exact h0
    · exact h0
  unfold Library.call at h
  generalize c.run I (withRevisions o s.revisions) s.files = x at h hrun
  obtain ⟨a | e | _, u⟩ := x
  · cases h
    exact ⟨rfl, hrun⟩
  · cases h
  · cases h

omit hsha in
/-- A deletion removes one revision and no entry. -/
theorem deleteProfile_spec {profile_id : String} (h : deleteProfile I profile_id s = some t) :
    t = { s with revisions := update s.revisions profile_id none } := by
  unfold deleteProfile at h
  split at h
  · cases h
  split at h
  · cases h
  split at h
  · cases h
  split at h
  · cases h
  exact (Option.some.inj h).symm

omit hsha in
/-- The cleanup removes every revision and no entry. -/
theorem cleanup_spec {o : Env} (h : cleanup I o s = some t) :
    (∀ name, t.revisions name = none) ∧ t.files.entries = s.files.entries := by
  have hkeeps : Keeps State.manifest (if s.files.server.isSome then restoreSynthetic I else restoreOffline I) := by
    split
    · exact keeps_restoreSynthetic
    · exact keeps_restoreOffline
  have h0 := hkeeps (withRevisions o s.revisions) s.files 0
  unfold cleanup at h
  dsimp only at h
  generalize (if s.files.server.isSome then restoreSynthetic I else restoreOffline I)
    (withRevisions o s.revisions) 0 s.files = x at h h0
  obtain ⟨a | e | _, n, u⟩ := x
  · dsimp only at h
    split at h
    · cases h
      exact ⟨fun _ => rfl, congrArg (Option.getD · []) h0⟩
    · cases h
  · cases h
  · cases h

/-- Only a binding changes the entries. -/
theorem grown_change (s : Library) (op : Operation) :
    Grown I s.revisions s.files (change I s op).files := by
  unfold change
  cases h : op.run I s with
  | none => exact .inl rfl
  | some t =>
    cases op with
    | stage name p =>
      change Voice.stage I name p s = some t at h
      unfold Voice.stage at h
      split at h
      · cases h
        exact .inl rfl
      · cases h
    | call => exact (Library.call_spec hsha h).2
    | deleteProfile => exact deleteProfile_spec h ▸ .inl rfl
    | cleanup => exact .inl (cleanup_spec h).2

omit hsha in
/-- A binding keeps the manifest well formed. -/
theorem Shaped.grown {revisions : String → Option Stored} {f g : State} (hs : Shaped f.entries)
    (h : Grown I revisions f g) : Shaped g.entries := by
  rcases h with heq | ⟨e, heq, hlt, hnew, hcanonical, -⟩
  · exact heq ▸ hs
  · rw [heq]
    refine ⟨?_, ?_, ?_⟩
    · rw [length_append]
      exact hlt
    · rw [map_append, map_singleton, nodup_append]
      refine ⟨hs.nodup, nodup_cons.2 ⟨not_mem_nil, nodup_nil⟩, ?_⟩
      rintro id hid _ hmem rfl
      exact hnew (mem_singleton.1 hmem ▸ hid)
    · intro e' he'
      rcases mem_append.1 he' with he' | he'
      · exact hs.canonical e' he'
      · exact mem_singleton.1 he' ▸ hcanonical

omit hsha in
/-- A write of another revision leaves an entry bound. -/
theorem Bound.update {revisions : String → Option Stored} {e : Entry} {name : String} (p : Option Stored)
    (h : Bound I revisions e) (hne : e.profile_id ≠ name) : Bound I (update revisions name p) e := by
  obtain ⟨q, profile, hq, hrest⟩ := h
  exact ⟨q, profile, (update_of_ne hne ..).trans hq, hrest⟩

/-- From a readable manifest, an operation leaves a readable one unless it removes a revision that is named there. -/
theorem bound_change {op : Operation} (hb : ∀ e ∈ s.files.entries, Bound I s.revisions e) :
    (∀ e ∈ (change I s op).files.entries, Bound I (change I s op).revisions e) ↔ Spares I s op := by
  unfold change
  cases op with
  | stage name p =>
    refine ⟨fun _ => trivial, fun _ => ?_⟩
    change ∀ e ∈ ((Voice.stage I name p s).getD s).files.entries,
      Bound I ((Voice.stage I name p s).getD s).revisions e
    unfold Voice.stage
    split
    · rename_i hfree
      intro e he
      refine (hb e he).update _ ?_
      rintro rfl
      obtain ⟨q, -, hq, -⟩ := hb e he
      exact absurd hfree.1 (by rw [hq]; exact Bool.false_ne_true)
    · exact hb
  | call c o =>
    refine ⟨fun _ => trivial, fun _ => ?_⟩
    change ∀ e ∈ ((s.call I c o).getD s).files.entries, Bound I ((s.call I c o).getD s).revisions e
    cases h : s.call I c o with
    | none => exact hb
    | some =>
      obtain ⟨hrevisions, heq | ⟨e, heq, -, -, -, hbound⟩⟩ := Library.call_spec hsha h
      · intro e he
        rw [Option.getD_some, heq] at he
        exact hrevisions.symm ▸ hb e he
      · intro e' he'
        rw [Option.getD_some, heq] at he'
        exact hrevisions.symm ▸ hbound e' he'
  | deleteProfile profile_id =>
    change (∀ e ∈ ((Voice.deleteProfile I profile_id s).getD s).files.entries,
      Bound I ((Voice.deleteProfile I profile_id s).getD s).revisions e) ↔
      ((Voice.deleteProfile I profile_id s).isSome → ∀ e ∈ s.files.entries, e.profile_id ≠ profile_id)
    cases h : Voice.deleteProfile I profile_id s with
    | none => exact ⟨fun _ => nofun, fun _ => hb⟩
    | some =>
      obtain rfl := deleteProfile_spec h
      constructor
      · rintro hbound - e he rfl
        obtain ⟨q, -, hq, -⟩ := hbound e he
        exact nomatch (update_self ..).symm.trans hq
      · intro hspares e he
        exact (hb e he).update _ (hspares rfl e he)
  | cleanup o =>
    change (∀ e ∈ ((Voice.cleanup I o s).getD s).files.entries,
      Bound I ((Voice.cleanup I o s).getD s).revisions e) ↔
      ((Voice.cleanup I o s).isSome → s.files.entries = [])
    cases h : Voice.cleanup I o s with
    | none => exact ⟨fun _ => nofun, fun _ => hb⟩
    | some =>
      obtain ⟨hnone, hentries⟩ := cleanup_spec h
      rw [Option.getD_some, hentries]
      constructor
      · intro hbound _
        refine eq_nil_iff_forall_not_mem.2 fun e he => ?_
        obtain ⟨q, -, hq, -⟩ := hbound e he
        exact nomatch (hnone _).symm.trans hq
      · intro hspares e he
        rw [hspares rfl] at he
        exact nomatch he

/-- Entries once bound stay. -/
theorem entries_run (s : Library) (ops : List Operation) {e : Entry} (he : e ∈ s.files.entries) :
    e ∈ (run (change I) s ops).files.entries := by
  refine run_invariant (P := fun s : Library => e ∈ s.files.entries) (fun s op h => ?_) ops he
  rcases grown_change hsha s op with heq | ⟨e', heq, -⟩
  · exact heq ▸ h
  · exact heq ▸ mem_append_left _ h

/-- Every run keeps the manifest well formed. -/
theorem shaped_run (hs : Shaped s.files.entries) (ops : List Operation) :
    Shaped (run (change I) s ops).files.entries :=
  run_invariant (P := fun s : Library => Shaped s.files.entries)
    (fun s op h => h.grown (grown_change hsha s op)) ops hs

end

/-- From a state without a manifest, where every hash is one: at most 32 entries with distinct voices are ever bound,
and none is bound anew. The manifest stays readable where no removal takes a revision that it names; a removal that
does makes it unreadable. -/
theorem native_manifest (hsha : ∀ wav, nativeHash (I.sha256 wav)) (hnone : s.files.manifest = none)
    (ops : List Operation) :
    let t := run (change I) s ops
    (t.files.entries.length ≤ 32 ∧ (t.files.entries.map Entry.voice_id).Nodup ∧
      ∀ more, ∀ e ∈ t.files.entries, ∀ e' ∈ (run (change I) t more).files.entries,
        e.voice_id = e'.voice_id → e = e') ∧
    (Runs.Admits (change I) (Spares I) s ops → Readable I t) ∧
    (Readable I t → ∀ op, Readable I (change I t op) ↔ Spares I t op) := by
  intro t
  have hnil : s.files.entries = [] := by rw [State.entries, hnone]; rfl
  have hshaped : Shaped s.files.entries := by rw [hnil]; exact ⟨Nat.zero_le _, nodup_nil, nofun⟩
  have ht : Shaped t.files.entries := shaped_run hsha hshaped ops
  refine ⟨⟨ht.length_le, ht.nodup, ?_⟩, ?_, ?_⟩
  · intro more e he e' he' heq
    have hu := (shaped_run hsha ht more).nodup
    exact inj_on_of_nodup_map hu (entries_run hsha t more he) he' heq
  · intro hok
    refine (manifest_readable_iff ht).2 ?_
    refine run_invariant_of (P := fun s : Library => ∀ e ∈ s.files.entries, Bound I s.revisions e)
      (fun s op hb hspares => (bound_change hsha hb).2 hspares) ?_ hok
    rw [hnil]
    exact nofun
  · intro hread op
    rw [manifest_readable_iff (ht.grown (grown_change hsha t op))]
    exact bound_change hsha ((manifest_readable_iff ht).1 hread)

end

/-- The hash of no bytes. -/
def installed : Install where
  sha256 _ := "e3b0c44298fc1c149afbf4c8996fb92427ae41e4649b934ca495991b7852b855"
  synthetic := none

/-- A staged voice. -/
def staged : Stored where
  schema_version := 1
  kind := .authorized_own_voice
  consent := true
  language := "German"
  profile_id := some "v1"
  reference_text := "Guten Tag"
  reference_sha256 := some "e3b0c44298fc1c149afbf4c8996fb92427ae41e4649b934ca495991b7852b855"
  wav := []

def voiceUuid : String := "123e4567-e89b-12d3-a456-426614174000"

/-- A voice is staged and bound. -/
def bindVoice : List Operation := [.stage "v1" staged, .call (.bind (.revision "v1") voiceUuid) calm]

def emptyLibrary : Library where
  revisions _ := none
  files := ⟨none, 0, none, none, none, none, .absent⟩

/-- A bound voice that is not selected can be deleted; then the manifest cannot be read. -/
theorem deleted_voice_blocks :
    let t := run (change installed) emptyLibrary (bindVoice ++ [.deleteProfile "v1"])
    (t.files.entries = [⟨voiceUuid, "v1", installed.sha256 []⟩]) ∧ (t.revisions "v1").isNone ∧
      (nativeRegistrations installed (withRevisions calm t.revisions) 0 t.files).1 =
        .raised (.os "FileNotFoundError") := by
  decide +kernel

/-- Until then it is readable. -/
theorem native_manifest_bound :
    let t := run (change installed) emptyLibrary bindVoice
    (t.files.entries.length = 1) ∧ Readable installed t ∧
      ¬ Readable installed (change installed t (.deleteProfile "v1")) := by
  have hhash : nativeHash "e3b0c44298fc1c149afbf4c8996fb92427ae41e4649b934ca495991b7852b855" := by decide +kernel
  have h := native_manifest (I := installed) (s := emptyLibrary) (fun _ => hhash) rfl bindVoice
  have hread : Readable installed (run (change installed) emptyLibrary bindVoice) := by
    refine h.2.1 (admits_cons.2 ⟨trivial, admits_cons.2 ⟨trivial, admits_nil⟩⟩)
  refine ⟨by decide +kernel, hread, fun hdeleted => ?_⟩
  have hspares := (h.2.2 hread _).1 hdeleted
  exact hspares (by decide +kernel) ⟨voiceUuid, "v1", installed.sha256 []⟩ (by decide +kernel) rfl

end StrixAlloy.Voice

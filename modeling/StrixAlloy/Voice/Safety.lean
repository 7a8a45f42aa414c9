import StrixAlloy.Lib.Runs
import StrixAlloy.Voice.Agreement

/-!
# Runs of the voice tools

The calls come one after another, each in an environment of its own, which may fail or stop any of its steps
and, in a start-up, may exit or start the server anew between two registrations. Since a stop can come at any
step, a property of the state after every call is one of the state at every point.
-/

namespace StrixAlloy.Voice

open Faulty List

variable {I : Install} {D : Folder → Stored → Prop} {o : Env} {s t : State}

/-! ## Start-up -/

/-- A further voice changes the manifest only. -/
theorem bindNativeRegistration_ends (folder : Folder) (voice_id : String) :
    Ends o s (bindNativeRegistration I folder voice_id)
      ⟨fun _ t => Quiet s t, fun _ t => Quiet s t, fun t => Quiet s t⟩ := by
  have hs : Quiet s s := Quiet.refl s
  unfold bindNativeRegistration
  refine Ends.guard hs fun _ => ?_
  cases folder with
  | default => exact Ends.raise hs
  | elsewhere => exact Ends.raise hs
  | revision =>
    refine activationLock_ends hs hs ?_
    refine Ends.mono ?_
      (fun _ _ h => ⟨h, h, h⟩) (fun _ _ h => ⟨h, h, h⟩) fun _ h => h
    refine Ends.read (readProfile_reads _) ?_ (fun _ _ => hs) hs
    intro profile _
    refine Ends.guard hs fun _ => ?_
    refine Ends.read nativeRegistrations_reads ?_ (fun _ _ => hs) hs
    intro items _
    simp only
    split
    · exact Ends.guard hs fun _ => Ends.pure hs
    · refine Ends.guard hs fun _ => Ends.seq (atomicJson_ends .manifest fun _ _ => rfl) ?_ ?_ ?_
      · rintro _ t ⟨x, rfl⟩
        exact Ends.pure (Quiet.of_eq rfl rfl rfl rfl)
      · rintro e t ⟨-, ⟨x, rfl⟩ | ⟨-, x, rfl⟩⟩
        · exact Quiet.of_eq rfl rfl rfl rfl
        · exact Quiet.of_eq rfl rfl rfl rfl
      · rintro t (⟨x, rfl⟩ | ⟨x, rfl⟩)
        · exact Quiet.of_eq rfl rfl rfl rfl
        · exact Quiet.of_eq rfl rfl rfl rfl

/-- A new process is on no record. -/
theorem Sound.launch (hs : Sound I D s) (pid : ℕ) : Sound I D (launch pid s) := by
  constructor
  · rintro _ ⟨⟩
    exact Nat.lt_succ_self _
  · intro i hi
    exact Nat.lt_succ_of_lt (hs.owners i hi)
  · intro r hr
    exact Nat.lt_succ_of_lt (hs.stamp r hr)
  · rintro r _ hr ⟨⟩ e
    have hlt := hs.stamp r hr
    rw [e] at hlt
    exact absurd hlt (Nat.lt_irrefl s.clock)

theorem Sound.recordOwner (hs : Sound I D s) : Sound I D (recordOwner s) := by
  refine ⟨hs.server, ?_, hs.stamp, hs.registered⟩
  intro i hi
  obtain ⟨v, hv, rfl⟩ := Option.map_eq_some_iff.1 hi
  exact hs.server v hv

/-- The receipt names no running server when none runs. -/
theorem Sound.exits (hs : Sound I D s) : Sound I D { s with server := none } :=
  ⟨nofun, hs.owners, hs.stamp, nofun⟩

theorem Sound.happen (hs : Sound I D s) (e : Event) : Sound I D (e.happen s) := by
  match e with
  | .exits => exact hs.exits
  | .starts pid true => exact (hs.launch pid).recordOwner
  | .starts pid false => exact hs.launch pid

/-- The process `owner`, while it runs, has registered the voices `done`. -/
structure Listed (I : Install) (D : Folder → Stored → Prop) (owner : Identity) (done : List Registration)
    (s : State) : Prop where
  sound : Sound I D s
  born : owner.created < s.clock
  has : ∀ v, s.server = some v → v.owner = owner →
    ∀ r ∈ done, v.Has I D r.entry

variable {owner : Identity} {done : List Registration}

/-- A process that is started is not the one that was recorded before. -/
theorem Listed.happen (h : Listed I D owner done s) (e : Event) : Listed I D owner done (e.happen s) := by
  have hlaunch : ∀ pid, ∀ v, (launch pid s).server = some v → v.owner ≠ owner := by
    rintro pid _ ⟨⟩ rfl
    exact absurd h.born (Nat.lt_irrefl s.clock)
  refine ⟨h.sound.happen e, ?_, ?_⟩
  · match e with
    | .exits => exact h.born
    | .starts pid true => exact Nat.lt_succ_of_lt h.born
    | .starts pid false => exact Nat.lt_succ_of_lt h.born
  · intro v hv ho
    match e with
    | .exits => cases hv
    | .starts pid true => exact absurd ho (hlaunch pid v hv)
    | .starts pid false => exact absurd ho (hlaunch pid v hv)

theorem meanwhile_ends (h : Listed I D owner done s) :
    Ends o s meanwhile
      ⟨fun _ t => Listed I D owner done t, fun _ t => Sound I D t, fun t => Sound I D t⟩ := by
  refine Ends.answer fun n => Ends.modify ?_
  exact Runs.run_invariant
    (fun s e h => h.happen e) (o.events n) h

section Registering

variable (hD : ∀ folder p, Held I o folder p → D folder p)
include hD

/-- A registration adds its voice to those that the process has. -/
theorem Listed.took {r : Registration} (h : Listed I D owner done s)
    (ht : Took I o r.voice_id r.profile s t) (hr : ∀ d ∈ done, d.voice_id ≠ r.voice_id) :
    Listed I D owner (done ++ [r]) t := by
  refine ⟨ht.quiet.sound h.sound, ht.quiet.clock ▸ h.born, ?_⟩
  obtain ⟨w, p, hw, hp, rfl⟩ := ht
  rintro _ ⟨⟩ ho d hd
  obtain hd | hd := mem_append.1 hd
  · obtain ⟨q, folder, hq, hof⟩ := h.has w hw ho d hd
    exact ⟨q, folder, (Function.update_of_ne (hr d hd) ..).trans hq, hof⟩
  · obtain rfl := mem_singleton.1 hd
    exact ⟨p, _, Function.update_self .., hp.imp (hD _)⟩

/-- The loop over a plan of distinct voices registers all of it. -/
theorem registerAll_ends (plan : List Registration) (h : Listed I D owner done s)
    (hnd : ((done ++ plan).map Registration.voice_id).Nodup) :
    Ends o s (registerAll I plan)
      ⟨fun _ t => Listed I D owner (done ++ plan) t, fun _ t => Sound I D t, fun t => Sound I D t⟩ := by
  induction plan generalizing s done with
  | nil =>
    rw [append_nil]
    exact Ends.pure h
  | cons r plan ih =>
    refine Ends.seq (meanwhile_ends h) ?_ (fun _ _ h => h) fun _ h => h
    intro _ t ht
    refine Ends.seq (nativeRegister_ends r.profile r.voice_id) ?_ ?_ ?_
    · intro _ u hu
      have hr : ∀ d ∈ done, d.voice_id ≠ r.voice_id := by
        rw [map_append, map_cons] at hnd
        intro d hd
        exact (nodup_append.1 hnd).2.2 _ (mem_map_of_mem hd) _ mem_cons_self
      rw [append_cons]
      exact ih (ht.took hD hu hr) (by rw [← append_cons]; exact hnd)
    · rintro e u ⟨-, hu | ⟨hu, -⟩⟩
      · exact hu.quiet.sound ht.sound
      · exact hu.quiet.sound ht.sound
    · rintro u (hu | hu)
      · exact hu.quiet.sound ht.sound
      · exact hu.quiet.sound ht.sound

omit hD in
/-- The launcher leaves records that are sound. -/
theorem start_ends (hs : Sound I D s) :
    Ends o s start ⟨fun _ t => Sound I D t, fun _ t => Sound I D t, fun t => Sound I D t⟩ := by
  unfold start ensureServer
  refine Ends.skip (Ends.skip (Ends.look ?_) hs hs) hs hs
  split_ifs
  · exact Ends.skip (Ends.check hs hs hs) hs hs
  · refine Ends.seq ?_
      (fun _ _ h => Ends.check h h h) (fun _ _ h => h) fun _ h => h
    refine Ends.guard hs fun _ => Ends.skip (Ends.answer fun n => ?_) hs hs
    have hl := hs.launch (o.pid n)
    refine Ends.bind (Ends.step ?_ (fun _ => hs) (fun _ => hl) fun _ => hs)
    exact Ends.step hl.recordOwner (fun _ => hl) (fun _ => hl.recordOwner) fun _ => hl

/-- A start-up, however it ends, leaves a receipt that is sound. -/
theorem speechStart_ends (hs : Sound I D s) :
    Ends o s (speechStart I) ⟨fun _ t => Sound I D t, fun _ t => Sound I D t, fun t => Sound I D t⟩ := by
  unfold speechStart
  refine Ends.seq (start_ends hs) ?_ (fun _ _ h => h) fun _ h => h
  intro _ s hs
  refine activationLock_ends hs hs ?_
  refine Ends.mono ?_
    (fun _ _ h => ⟨h, h, h⟩) (fun _ _ h => ⟨h, h, h⟩) fun _ h => h
  refine Ends.read selectedProfile_reads ?_ (fun _ _ => hs) hs
  intro profile _
  refine Ends.found hs fun profile _ => Ends.read nativeRegistrations_reads ?_ (fun _ _ => hs) hs
  intro items hitems
  refine Ends.bind (Ends.skip (Ends.look (Ends.orRaise ?_ fun _ => hs)) hs hs)
  intro owner howner
  refine Ends.skip (Ends.skip (Ends.look ?_) hs hs) hs hs
  split_ifs
  · exact Ends.pure hs
  -- the receipt is withheld from here to the end of the plan
  have hnone : Quiet s { s with receipt := none } := Dropped.quiet (.inr rfl)
  have hs' := hnone.sound hs
  refine Ends.bind (Ends.step ?_ (fun _ => hs) (fun _ => hs') fun _ => hs)
  have hlisted : Listed I D owner [] { s with receipt := none } := ⟨hs', hs.owners owner howner,
    fun _ _ _ => forall_mem_nil _⟩
  refine Ends.seq (registerAll_ends hD _ hlisted hitems) ?_ (fun _ _ h => h) fun _ h => h
  intro _ t ht
  refine Ends.seq (meanwhile_ends ht) ?_ (fun _ _ h => h) fun _ h => h
  intro _ t ht
  refine Ends.bind (Ends.skip (Ends.look (Ends.orRaise ?_ fun _ => ht.sound)) ht.sound ht.sound)
  intro current _
  refine Ends.guard ht.sound fun _ => ?_
  have hquiet : ∀ x, Sound I D { t with temporary := x } := fun x => ⟨ht.sound.1, ht.sound.2, ht.sound.3, ht.sound.4⟩
  have hstamp : ∀ x, Sound I D { t with
      receipt := some ⟨2, owner, (⟨VOICE_ALIAS, profile⟩ :: items).map Registration.entry⟩, temporary := x } := by
    intro x
    refine ⟨ht.sound.server, ht.sound.owners, ?_, ?_⟩
    · rintro _ ⟨⟩
      exact ht.born
    · rintro _ v ⟨⟩ hv ho e he
      obtain ⟨r, hr, rfl⟩ := mem_map.1 he
      exact ht.has v hv ho.symm r hr
  refine Ends.mono (atomicJson_ends .receipt fun _ _ => rfl) ?_ ?_ ?_
  · rintro _ u ⟨x, rfl⟩
    exact hstamp x
  · rintro e u ⟨-, ⟨x, rfl⟩ | ⟨-, x, rfl⟩⟩
    · exact hquiet x
    · exact hstamp x
  · rintro u (⟨x, rfl⟩ | ⟨x, rfl⟩)
    · exact hquiet x
    · exact hstamp x

end Registering

/-! ## Calls -/

/-- The exceptions that report the voice unchanged. -/
def Unchanged (e : Error) : Prop := (∃ text, e = .rejected text) ∨ e = restored

/-- The folder whose profile a call selects. -/
def Call.folder : Call → Option Folder
  | .activate profile_dir => some profile_dir
  | .restoreSynthetic => some .default
  | _ => none

/-- What a call leaves: a sound receipt; where it selects, the alias and `active.json` with a profile of its
folder; and where it reports the voice unchanged, the agreement that there was. -/
def callPost (I : Install) (D : Folder → Stored → Prop) (o : Env) (c : Call) (s : State) :
    Post State Error Result :=
  ⟨fun r t => Sound I D t ∧ ∀ selection, r = .selected selection → t.active = some selection ∧
      ∃ folder, c.folder = some folder ∧
        t.Alias I (Held I o folder) selection.profile_id selection.reference_sha256,
    fun e t => Sound I D t ∧ (c.folder.isSome → Unchanged e → Steady .active o → Agree I D s → Agree I D t),
    fun t => Sound I D t⟩

section Calls

variable (hD : ∀ folder p, Held I o folder p → D folder p)
include hD

theorem select_call_ends {c : Call} {folder : Folder} (hs : Sound I D s) (hc : c.folder = some folder)
    {profile : Profile} (hp : profile.profile_dir = folder) :
    Ends o s (selectProfile I profile)
      ⟨fun selection t => Ends o t (Pure.pure (.selected selection)) (callPost I D o c s),
        (callPost I D o c s).raised, (callPost I D o c s).stopped⟩ := by
  refine Ends.mono (selectProfile_ends hD profile) ?_ ?_ fun _ h => h.sound hs
  · rintro selection t ⟨hq, ha, halias⟩
    refine Ends.pure ⟨hq.sound hs, ?_⟩
    rintro _ ⟨⟩
    exact ⟨ha, folder, hc, hp ▸ halias⟩
  · rintro e t ⟨hq, h⟩
    exact ⟨hq.sound hs, fun _ => h⟩

theorem call_ends (c : Call) (hs : Sound I D s) : Ends o s (c.prog I) (callPost I D o c s) := by
  have hread : ∀ e, Other e → (callPost I D o c s).raised e s := fun e _ => ⟨hs, fun _ _ _ h => h⟩
  cases c with
  | activate folder =>
    refine Ends.bind (Ends.read (readProfile_reads folder) ?_ hread hs)
    rintro profile ⟨p, hp⟩
    exact Ends.guard ⟨hs, fun _ _ _ h => h⟩ fun _ => select_call_ends hD hs rfl hp.profile_dir
  | restoreSynthetic =>
    refine Ends.bind (Ends.read (readProfile_reads _) ?_ hread hs)
    rintro profile ⟨p, hp⟩
    exact select_call_ends hD hs rfl hp.profile_dir
  | bind folder voice_id =>
    refine Ends.seq (bindNativeRegistration_ends folder voice_id) ?_ ?_ fun _ h => h.sound hs
    · intro _ t ht
      exact Ends.pure ⟨ht.sound hs, nofun⟩
    · intro e t ht
      exact ⟨ht.sound hs, nofun⟩
  | speechStart =>
    refine Ends.seq (speechStart_ends hD hs) ?_ ?_ fun _ h => h
    · intro _ t ht
      exact Ends.pure ⟨ht, nofun⟩
    · intro e t ht
      exact ⟨ht, nofun⟩
  | event e => exact Ends.bind (Ends.modify (Ends.pure ⟨hs.happen e, nofun⟩))

end Calls

theorem Sound.step (hs : Sound I D s) (c : Call × Env) (hD : ∀ folder p, Held I c.2 folder p → D folder p) :
    Sound I D (step I s c) := by
  have h := call_ends hD c.1 hs 0
  unfold Voice.step Call.run
  generalize c.1.prog I c.2 0 s = r at h
  obtain ⟨a | e | _, n, t⟩ := r
  · exact h.1
  · exact h.1
  · exact h

/-- After any calls, a receipt that names the running server lists what is registered there, text and audio of
profiles that the folders held (`D`), before and after the next call, wherever that stops. A selection that returns
has left the alias registered with a profile of its folder, and `active.json` naming it. One that raises
`RegistrationRejected`, or reports the previous voice restored, keeps the agreement of alias and selection, where no
step fails between a completed replacement of `active.json` and the return of the write. -/
theorem voices_agree (hs : Sound I D s) (calls : List (Call × Env))
    (hcalls : ∀ c ∈ calls, ∀ folder p, Held I c.2 folder p → D folder p) (c : Call) (o : Env)
    (ho : ∀ folder p, Held I o folder p → D folder p) :
    let t := Runs.run (step I) s calls
    let r := c.run I o t
    Sound I D t ∧ Sound I D r.2 ∧
      (∀ selection, r.1 = .returned (.selected selection) → r.2.active = some selection ∧
        ∃ folder, c.folder = some folder ∧
          r.2.Alias I (Held I o folder) selection.profile_id selection.reference_sha256) ∧
      (∀ e, r.1 = .raised e → c.folder.isSome → Unchanged e → Steady .active o → Agree I D t →
        Agree I D r.2) := by
  intro t r
  have ht : Sound I D t := by
    refine Runs.run_invariant_of (G := fun _ c => ∀ folder p, Held I c.2 folder p → D folder p)
      (fun s c h hc => h.step c hc) hs ?_
    rintro pre c post rfl
    exact hcalls c (mem_append_right _ mem_cons_self)
  have h := call_ends ho c ht 0
  have hr : r = ((c.prog I o 0 t).1, (c.prog I o 0 t).2.2) := rfl
  generalize c.prog I o 0 t = x at h hr
  obtain ⟨a | e | _, n, u⟩ := x
  · refine ⟨ht, hr ▸ h.1, ?_, ?_⟩
    · intro selection e
      rw [hr] at e ⊢
      exact h.2 selection (Ending.returned.inj e)
    · intro e he
      rw [hr] at he
      cases he
  · refine ⟨ht, hr ▸ h.1, ?_, ?_⟩
    · intro selection e
      rw [hr] at e
      cases e
    · intro e he
      rw [hr] at he ⊢
      obtain rfl := Ending.raised.inj he
      exact h.2
  · refine ⟨ht, hr ▸ h, ?_, ?_⟩
    · intro selection e
      rw [hr] at e
      cases e
    · intro e he
      rw [hr] at he
      cases he

/-! ## A failure after the replacement -/

/-- Two references, told apart by their hashes. -/
def sample : Install where
  sha256 wav := if wav = [] then "a" else "b"
  synthetic := none

/-- A revision with the reference `wav`. -/
def sampleRevision (wav : List UInt8) : Stored where
  schema_version := 1
  language := "German"
  kind := .authorized_own_voice
  consent := true
  profile_id := if wav = [] then "first" else "second"
  reference_text := "Guten Tag"
  reference_sha256 := sample.sha256 wav
  wav := wav

/-- Every registration is taken; the temporary file of a replaced `active.json` cannot be removed. -/
def sampleEnv : Env where
  fault _ l := if l = .discard .active .moved then .raises else .quiet
  disk _ folder :=
    match folder with
    | .revision name => some (sampleRevision (if name = "first" then [] else [0]))
    | _ => none
  memory _ := 18 * 1024 ^ 3
  post _ := .committed (.status (some "registered"))
  pid _ := 7
  now _ := 0
  events _ := []

/-- The first revision is selected and registered. -/
def sampleState : State where
  server := some ⟨⟨7, 0⟩, fun voice_id => if voice_id = VOICE_ALIAS then some ⟨"Guten Tag", []⟩ else none⟩
  clock := 1
  owners := some ⟨7, 0⟩
  receipt := none
  active := some ⟨"first", "a", VOICE_ALIAS, none, 0⟩
  manifest := none
  temporary := .absent

theorem sampleState_sound : Sound sample (Held sample sampleEnv) sampleState := by
  refine ⟨?_, ?_, nofun, nofun⟩
  · rintro _ ⟨⟩
    exact Nat.zero_lt_one
  · rintro _ ⟨⟩
    exact Nat.zero_lt_one

theorem sampleState_agree : Agree sample (Held sample sampleEnv) sampleState :=
  ⟨.revision "first", "a", "first", by decide +kernel, ⟨⟨7, 0⟩, _⟩, ⟨"Guten Tag", []⟩, rfl, rfl,
    ⟨sampleRevision [], ⟨0, by simp [held, sampleEnv]⟩, rfl, rfl, rfl⟩, sampleRevision [],
    ⟨0, by simp [held, sampleEnv]⟩, rfl, rfl⟩

/-- Where alias and selection agree, the hash under the alias is the selected one. -/
theorem Agree.sha256 (h : Agree I D s) :
    ((s.server.bind fun v => v.voices VOICE_ALIAS).map fun p => I.sha256 p.wav) = (s.selected I).map Prod.snd := by
  obtain ⟨folder, sha256, id, hs, v, p, hv, hvoice, -, q, -, hwav, hsha⟩ := h
  rw [hs, hv, Option.bind_some, hvoice, Option.map_some, Option.map_some, hwav, hsha]

/-- The selection of the second revision reports the previous voice restored and the selection unchanged,
and `active.json` names the second revision. -/
theorem selection_not_restored :
    let r := (Call.activate (.revision "second")).run sample sampleEnv sampleState
    Agree sample (Held sample sampleEnv) sampleState ∧ r.1 = .raised restored ∧
      ¬ Agree sample (Held sample sampleEnv) r.2 := by
  refine ⟨sampleState_agree, by decide +kernel, fun h => ?_⟩
  have hsha := h.sha256
  revert hsha
  decide +kernel

/-- A server that rejects every reference, and no step fails. -/
def rejectingEnv : Env := { sampleEnv with fault := fun _ _ => .quiet, post := fun _ => .http 400 }

/-- A server that takes every reference, and no step fails. -/
def quietEnv : Env := { sampleEnv with fault := fun _ _ => .quiet }

/-- A registration that is rejected leaves the first revision selected and registered, and selecting it again
registers its text and audio. -/
theorem voices_agree_sample :
    Agree sample (Held sample sampleEnv)
        ((Call.activate (.revision "second")).run sample rejectingEnv sampleState).2 ∧
      ∃ folder, (Call.activate (.revision "first")).folder = some folder ∧
        ((Call.activate (.revision "first")).run sample quietEnv sampleState).2.Alias sample
          (Held sample quietEnv folder) "first" "a" := by
  constructor
  · have hr : ((Call.activate (.revision "second")).run sample rejectingEnv sampleState).1 =
        .raised (.rejected "Native TTS rejected the reference (HTTP 400)") := by decide +kernel
    have hsteady : Steady .active rejectingEnv := fun n => ⟨nofun, nofun, nofun⟩
    exact (voices_agree sampleState_sound [] nofun (.activate (.revision "second")) rejectingEnv
      fun _ _ h => h).2.2.2 _ hr rfl (.inl ⟨_, rfl⟩) hsteady sampleState_agree
  · have hr : ((Call.activate (.revision "first")).run sample quietEnv sampleState).1 =
        .returned (.selected ⟨"first", "a", VOICE_ALIAS, some "first", 0⟩) := by decide +kernel
    exact ((voices_agree sampleState_sound [] nofun (.activate (.revision "first")) quietEnv
      fun _ _ h => h).2.2.1 _ hr).2

end StrixAlloy.Voice

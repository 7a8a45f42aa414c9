import StrixAlloy.Voice.Register

/-!
# The receipt, the alias and the selection agree
-/

namespace StrixAlloy.Voice

open Faulty

variable {I : Install} {o : Env} {s t : State}

/-- An exception that does not report the previous voice restored. -/
def Other (e : Error) : Prop := e ≠ restored

theorem step_error_other (l : Step) : Other l.error := by
  unfold Other restored
  cases l <;> simp [Step.error]

/-! ## What the readers return -/

theorem op_reads (l : Step) {Q : Unit → Prop} (h : Q ()) : Reads o s (op l) Q Other :=
  Reads.check h (step_error_other l)

/-- The folder held this when it was asked. -/
def Held (I : Install) (o : Env) (folder : Folder) (p : Stored) : Prop := ∃ n, held I folder o n = some p

/-- The profile is one that the folder held. -/
structure Holds (I : Install) (o : Env) (folder : Folder) (profile : Profile) (p : Stored) : Prop where
  held : Held I o folder p
  profile_dir : profile.profile_dir = folder
  profile_id : profile.profile_id = p.profile_id.getD SYNTHETIC
  reference_text : profile.reference_text = p.reference_text
  reference_sha256 : profile.reference_sha256 = I.sha256 p.wav

/-- A profile that was read is one that its folder held. -/
theorem readProfile_reads (folder : Folder) :
    Reads o s (readProfile I folder) (fun profile => ∃ p, Holds I o folder profile p) Other := by
  unfold readProfile
  refine Reads.skip (step_error_other _) (Reads.answer fun n => Reads.found (by simp [Other, restored]) ?_)
  intro p hp
  refine Reads.guard (by simp [Other, restored]) fun _ => ?_
  refine Reads.guard (by simp [Other, restored]) fun _ => ?_
  refine Reads.guard (by simp [Other, restored]) fun _ => Reads.skip (step_error_other _) ?_
  refine Reads.guard (by simp [Other, restored]) fun _ => ?_
  exact Reads.guard (by simp [Other, restored]) fun _ => Reads.pure ⟨p, ⟨n, hp⟩, rfl, rfl, rfl, rfl⟩

/-- The folder and the reference of the selection: those of `active.json`, else the default profile's. -/
def State.selected (I : Install) (s : State) : Option (Folder × String) :=
  match s.active with
  | some selection => some (folderOf selection.profile_id, selection.reference_sha256)
  | none => I.synthetic.map fun p => (.default, I.sha256 p.wav)

/-- The selected profile has the selection's folder and reference. -/
theorem selectedProfile_reads :
    Reads o s (selectedProfile I)
      (fun p => ∀ q, p = some q → s.selected I = some (q.profile_dir, q.reference_sha256)) Other := by
  unfold selectedProfile
  refine Reads.skip (step_error_other _) (Reads.look ?_)
  cases hs : s.active with
  | none =>
    simp only
    split_ifs with hI
    · refine Reads.bind (readProfile_reads .default) fun p hp => Reads.pure ?_
      intro q hq
      cases hq
      obtain ⟨p, ⟨n, hheld⟩, hdir, -, -, hsha⟩ := hp
      have hheld : I.synthetic = some p := hheld
      rw [State.selected, hs, hheld, hdir, hsha]
      rfl
    · exact Reads.pure nofun
  | some =>
    refine Reads.skip (step_error_other _) (Reads.guard (by simp [Other, restored]) fun _ => ?_)
    refine Reads.bind (readProfile_reads _) fun p hp => Reads.guard (by simp [Other, restored]) fun he => ?_
    refine Reads.pure fun q hq => ?_
    cases hq
    obtain ⟨-, -, hdir, -⟩ := hp
    rw [State.selected, hs, he, hdir]

theorem not_canonicalUuid_alias : canonicalUuid VOICE_ALIAS = false := by decide +kernel

/-- The voices of the manifest are distinct and none is the alias. -/
theorem readEntries_reads (items : List Entry) (seen : List String) :
    Reads o s (readEntries I seen items)
      (fun rs => (rs.map Registration.voice_id).Nodup ∧
        ∀ r ∈ rs, r.voice_id ∉ seen ∧ r.voice_id ≠ VOICE_ALIAS) Other := by
  induction items generalizing seen with
  | nil => exact Reads.pure ⟨List.nodup_nil, nofun⟩
  | cons item items ih =>
    unfold readEntries nativeVoiceId
    refine Reads.guard (by simp [Other, restored]) fun huuid => ?_
    refine Reads.guard (by simp [Other, restored]) fun hseen => ?_
    refine Reads.guard (by simp [Other, restored]) fun _ => ?_
    refine Reads.bind (readProfile_reads _) fun p _ => Reads.guard (by simp [Other, restored]) fun _ => ?_
    refine Reads.bind (ih _) fun rs hrs => Reads.pure ⟨?_, ?_⟩
    · refine List.nodup_cons.2 ⟨?_, hrs.1⟩
      intro h
      obtain ⟨r, hr, e⟩ := List.mem_map.1 h
      exact (hrs.2 r hr).1 (List.mem_cons.2 (.inl e))
    · refine List.forall_mem_cons.2 ⟨⟨hseen, ?_⟩, fun r hr => ?_⟩
      · intro e
        have e : item.voice_id = VOICE_ALIAS := e
        rw [e, not_canonicalUuid_alias] at huuid
        cases huuid
      · obtain ⟨h, hne⟩ := hrs.2 r hr
        exact ⟨fun h' => h (List.mem_cons.2 (.inr h')), hne⟩

/-- The registrations of the manifest, after the alias, are of distinct voices. -/
theorem nativeRegistrations_reads :
    Reads o s (nativeRegistrations I)
      (fun rs => (VOICE_ALIAS :: rs.map Registration.voice_id).Nodup) Other := by
  have hrs : ∀ rs : List Registration, (rs.map Registration.voice_id).Nodup ∧
      (∀ r ∈ rs, r.voice_id ∉ [] ∧ r.voice_id ≠ VOICE_ALIAS) → (VOICE_ALIAS :: rs.map Registration.voice_id).Nodup := by
    rintro rs ⟨hnd, hne⟩
    refine List.nodup_cons.2 ⟨fun h => ?_, hnd⟩
    obtain ⟨r, hr, e⟩ := List.mem_map.1 h
    exact (hne r hr).2 e
  unfold nativeRegistrations
  refine Reads.skip (step_error_other _) (Reads.look ?_)
  cases s.manifest with
  | none => exact Reads.pure (hrs [] ⟨List.nodup_nil, nofun⟩)
  | some entries =>
    refine Reads.skip (step_error_other _) (Reads.guard (by simp [Other, restored]) fun _ => ?_)
    exact (readEntries_reads entries []).imp hrs

/-- A listener that was found owned is the recorded server's. -/
theorem assertOwnedListener_reads :
    Reads o s assertOwnedListener (fun _ => (owned s).isSome) Other := by
  unfold assertOwnedListener
  refine Reads.skip (step_error_other _) (Reads.look (Reads.guard (by simp [Other, restored]) fun h => ?_))
  exact Reads.skip (step_error_other _) (op_reads _ h)

theorem requireBinding_reads (validated : Profile) (voice_id : String) :
    Reads o s (requireBinding I validated voice_id) (fun _ => True) Other := by
  unfold requireBinding
  split_ifs
  · exact Reads.pure trivial
  · refine Reads.guard (by simp [Other, restored]) fun _ => Reads.bind nativeRegistrations_reads fun _ _ => ?_
    exact Reads.require (fun _ => trivial) (by simp [Other, restored])

/-! ## One registration -/

/-- At most the receipt is gone. -/
def Dropped (s t : State) : Prop := t = s ∨ t = { s with receipt := none }

/-- A reference is that of a profile that was held: its text is that of one with this id and hash, and its audio that
of one with this hash. -/
def Payload.Of (I : Install) (held : Stored → Prop) (profile_id sha256 : String) (payload : Payload) : Prop :=
  (∃ p, held p ∧ payload.ref_text = p.reference_text ∧ profile_id = p.profile_id.getD SYNTHETIC ∧
    I.sha256 p.wav = sha256) ∧ ∃ p, held p ∧ payload.wav = p.wav ∧ I.sha256 p.wav = sha256

theorem Payload.Of.imp {held held' : Stored → Prop} {profile_id sha256 : String} {payload : Payload}
    (h : payload.Of I held profile_id sha256) (himp : ∀ p, held p → held' p) : payload.Of I held' profile_id sha256 :=
  ⟨h.1.imp fun p h => ⟨himp p h.1, h.2⟩, h.2.imp fun p h => ⟨himp p h.1, h.2⟩⟩

/-- The running server has registered the reference of a profile that the folder of `profile` held, and the receipt
is gone. -/
def Took (I : Install) (o : Env) (voice_id : String) (profile : Profile) (s t : State) : Prop :=
  ∃ v p, s.server = some v ∧ p.Of I (Held I o profile.profile_dir) profile.profile_id profile.reference_sha256 ∧
    t = { s with receipt := none, server := some (v.register voice_id p) }

/-- A preflight that returns leaves no receipt, an owned server and the profile's reference to send. -/
theorem preflight_ends (profile : Profile) (voice_id : String) :
    Ends o s (preflight I profile voice_id)
      ⟨fun p t => t = { s with receipt := none } ∧ (∃ v, s.server = some v) ∧
          p.Of I (Held I o profile.profile_dir) profile.profile_id profile.reference_sha256,
        fun _ t => Dropped s t, fun t => Dropped s t⟩ := by
  have hs : Dropped s s := .inl rfl
  unfold preflight
  refine Ends.read (readProfile_reads _) ?_ (fun _ _ => hs) hs
  rintro validated ⟨q, hq⟩
  refine Ends.guard hs fun hsha => ?_
  refine Ends.read (requireBinding_reads _ _) (fun _ _ => ?_) (fun _ _ => hs) hs
  refine Ends.skip (Ends.answer fun n => Ends.found hs fun p hp => Ends.guard hs fun hwav => ?_) hs hs
  refine Ends.read assertOwnedListener_reads (fun _ ho => ?_) (fun _ _ => hs) hs
  refine Ends.answer fun n => Ends.guard hs fun _ => Ends.bind (Ends.step ?_ (fun _ => hs)
    (fun _ => .inr rfl) fun _ => hs)
  obtain ⟨v, hv⟩ := Option.isSome_iff_exists.1 ho
  refine Ends.pure ⟨rfl, ⟨v, (Option.filter_eq_some_iff.1 hv).1⟩, ⟨q, hq.held, hq.reference_text, ?_, ?_⟩, p, ?_, rfl,
    ?_⟩
  · rw [← hsha.1, hq.profile_id]
  · rw [← hsha.2, hq.reference_sha256]
  · exact ⟨_, hq.profile_dir ▸ hp⟩
  · exact hwav.trans hsha.2

/-- What a request leaves of the state: nothing happened, or the reference was registered. -/
def Sent (voice_id : String) (p : Payload) (s t : State) : Prop :=
  ∃ v, s.server = some v ∧ t = { s with server := some (v.register voice_id p) }

/-- A request that raises before the reference was registered may say so, one that raises after it has lost
the answer. -/
theorem request_ends {v : Server} (hv : s.server = some v) (voice_id : String) (p : Payload) :
    Ends o s (request voice_id p)
      ⟨fun _ t => Sent voice_id p s t, fun e t => Other e ∧ (t = s ∨ Sent voice_id p s t ∧ e = Step.error .response),
        fun t => t = s ∨ Sent voice_id p s t⟩ := by
  have hsent : Sent voice_id p s { s with server := some (v.register voice_id p) } := ⟨v, hv, rfl⟩
  unfold request
  refine Ends.bind (Ends.attempt (Ends.mono assertOwnedListener_reads ?_ ?_ ?_))
  · rintro ⟨⟩ t ⟨rfl, -⟩
    refine Ends.skip (Ends.answer fun n => ?_) ⟨step_error_other _, .inl rfl⟩ (.inl rfl)
    cases o.post n with
    | lost => exact Ends.raise ⟨by simp [Other, restored], .inl rfl⟩
    | http => exact Ends.raise ⟨by simp [Other, restored], .inl rfl⟩
    | committed =>
      refine Ends.bind (Ends.modify ?_)
      rw [hv]
      exact Ends.skip (Ends.pure hsent) ⟨step_error_other _, .inr ⟨hsent, rfl⟩⟩ (.inr hsent)
  · rintro e t ⟨rfl, -⟩
    cases e <;> exact Ends.raise ⟨by simp [Other, restored], .inl rfl⟩
  · rintro t rfl
    exact .inl rfl

/-- A registration that is rejected has changed no registry, one that returns has registered the profile's
reference, and only a registration without receipt changes the registry. -/
theorem nativeRegister_ends (profile : Profile) (voice_id : String) :
    Ends o s (nativeRegister I profile voice_id)
      ⟨fun _ t => Took I o voice_id profile s t,
        fun e t => Other e ∧ (Dropped s t ∨
          Took I o voice_id profile s t ∧ ∀ text, e ≠ .rejected text),
        fun t => Dropped s t ∨ Took I o voice_id profile s t⟩ := by
  have hrejected : ∀ text, Other (.rejected text) := by
    intro text
    simp [Other, restored]
  unfold nativeRegister
  refine Ends.bind (Ends.attempt (Ends.mono (preflight_ends profile voice_id) ?_ ?_ ?_))
  · rintro p t ⟨rfl, ⟨v, hv⟩, hp⟩
    have htook : ∀ t, Sent voice_id p { s with receipt := none } t →
        Took I o voice_id profile s t := by
      rintro t ⟨v, hv, rfl⟩
      exact ⟨v, p, hv, hp, rfl⟩
    have hv : ({ s with receipt := none } : State).server = some v := hv
    refine Ends.bind (Ends.attempt (Ends.mono (request_ends hv voice_id p) ?_ ?_ ?_))
    · intro reply t ht
      refine Ends.guard ⟨by simp [Other, restored], .inr ⟨htook t ht, by simp⟩⟩ fun _ => ?_
      exact Ends.require (fun _ => htook t ht) fun _ => ⟨by simp [Other, restored], .inr ⟨htook t ht, by simp⟩⟩
    · rintro e t ⟨he, rfl | ⟨ht, rfl⟩⟩
      · -- the three exceptions of a registry that is as before, and all others
        have hs : Dropped s { s with receipt := none } := .inr rfl
        cases e with
        | preflight | notReady | http => exact Ends.raise ⟨hrejected _, .inl hs⟩
        | _ => exact Ends.raise ⟨he, .inl hs⟩
      · exact Ends.raise ⟨step_error_other _, .inr ⟨htook t ht, by simp [Step.error]⟩⟩
    · rintro t (rfl | ht)
      · exact .inl (.inr rfl)
      · exact .inr (htook t ht)
  · intro e t ht
    exact Ends.raise ⟨hrejected _, .inl ht⟩
  · intro t ht
    exact .inl ht

/-! ## Writes -/

/-- Nothing fails between a completed replacement of the file and the return. -/
def Steady (target : Target) (o : Env) : Prop :=
  ∀ n, o.fault n (.replace target) ≠ .late ∧ o.fault n (.discard target .moved) ≠ .raises ∧
    o.fault n (.discard target .moved) ≠ .late

/-- A write that raises has written only where the environment failed it after the replacement. -/
theorem atomicJson_ends (target : Target) {f : State → State}
    (hf : ∀ s x, f { s with temporary := x } = { f s with temporary := x }) :
    Ends o s (atomicJson target f)
      ⟨fun _ t => ∃ x, t = { f s with temporary := x },
        fun e t => Other e ∧ ((∃ x, t = { s with temporary := x }) ∨
          ¬ Steady target o ∧ ∃ x, t = { f s with temporary := x }),
        fun t => (∃ x, t = { s with temporary := x }) ∨ ∃ x, t = { f s with temporary := x }⟩ := by
  have hother : ∀ l : Step, Other l.error := step_error_other
  -- the final clause after a write that did not take effect, and after one that did
  have hbefore : ∀ x, Ends o { s with temporary := x } (do let s ← Prog.get; op (.discard target s.temporary))
      ⟨fun _ t => ∃ x, t = { s with temporary := x }, fun e t => Other e ∧ ∃ x, t = { s with temporary := x },
        fun t => ∃ x, t = { s with temporary := x }⟩ := by
    intro x
    exact Ends.look (Ends.check ⟨x, rfl⟩ ⟨hother _, x, rfl⟩ ⟨x, rfl⟩)
  have hafter : Ends o { f s with temporary := .moved } (do let s ← Prog.get; op (.discard target s.temporary))
      ⟨fun _ t => ∃ x, t = { f s with temporary := x },
        fun e t => Other e ∧ ¬ Steady target o ∧ ∃ x, t = { f s with temporary := x },
        fun t => ∃ x, t = { f s with temporary := x }⟩ := by
    refine Ends.look (Ends.step ⟨_, rfl⟩ ?_ ?_ fun _ => ⟨_, rfl⟩)
    · rintro ⟨n, hn⟩
      exact ⟨hother _, fun h => (h n).2.1 hn, _, rfl⟩
    · rintro ⟨n, hn⟩
      exact ⟨hother _, fun h => (h n).2.2 hn, _, rfl⟩
  have hfail : ∀ (l : Step) x, Ends o { s with temporary := x }
      (do let s ← Prog.get; op (.discard target s.temporary))
      ⟨fun _ t => Other l.error ∧ ((∃ x, t = { s with temporary := x }) ∨
          ¬ Steady target o ∧ ∃ x, t = { f s with temporary := x }),
        fun e t => Other e ∧ ((∃ x, t = { s with temporary := x }) ∨
          ¬ Steady target o ∧ ∃ x, t = { f s with temporary := x }),
        fun t => (∃ x, t = { s with temporary := x }) ∨ ∃ x, t = { f s with temporary := x }⟩ := by
    intro l x
    exact Ends.mono (hbefore x) (fun _ _ h => ⟨hother _, .inl h⟩) (fun _ _ h => ⟨h.1, .inl h.2⟩) fun _ h => .inl h
  unfold atomicJson
  refine Ends.bind (Ends.modify (Ends.ensure ?_))
  refine Ends.bind (Ends.step ?_ (fun _ => hfail _ _) (fun _ => hfail _ _) fun _ => .inl ⟨_, rfl⟩)
  refine Ends.skip ?_ (hfail _ _) (.inl ⟨_, rfl⟩)
  have hf' : ({ f { s with temporary := .present } with temporary := .moved } : State) =
      { f s with temporary := .moved } := by
    rw [hf]
  refine Ends.step ?_ (fun _ => hfail _ _) ?_ fun _ => .inl ⟨_, rfl⟩
  · rw [hf']
    exact Ends.mono hafter (fun _ _ h => h) (fun _ _ h => ⟨h.1, .inr h.2⟩) fun _ h => .inr h
  · rintro ⟨n, hn⟩
    rw [hf']
    have hn : ¬ Steady target o := fun h => (h n).1 hn
    exact Ends.mono hafter (fun _ _ h => ⟨hother _, .inr ⟨hn, h⟩⟩) (fun _ _ h => ⟨h.1, .inr h.2⟩) fun _ h => .inr h

/-- Under the lock a program ends as it does alone, or raises where the lock fails. -/
theorem activationLock_ends {α : Type} {body : Voiced α} {P : Post State Error α}
    (hl : P.raised (.os "OSError") s) (hs : P.stopped s)
    (hb : Ends o s body ⟨fun a t => P.returned a t ∧ P.raised (.os "OSError") t ∧ P.stopped t,
      fun e t => P.raised e t ∧ P.raised (.os "OSError") t ∧ P.stopped t, P.stopped⟩) :
    Ends o s (activationLock body) P := by
  unfold activationLock
  refine Ends.skip (Ends.ensure (Ends.mono hb ?_ ?_ fun _ h => h)) hl hs
  · rintro a t ⟨hr, he, hs⟩
    exact Ends.check hr he hs
  · rintro e t ⟨hr, he, hs⟩
    exact Ends.check hr he hs

/-! ## The receipt -/

variable {D : Folder → Stored → Prop}

/-- The server has registered the reference of the entry's profile, of those that the folders held by `D`. -/
def Server.Has (I : Install) (D : Folder → Stored → Prop) (v : Server) (e : Entry) : Prop :=
  ∃ p folder, v.voices e.voice_id = some p ∧ p.Of I (D folder) e.profile_id e.reference_sha256

/-- The processes on record were created before now, and a receipt that names the running server lists
references that it has registered. -/
structure Sound (I : Install) (D : Folder → Stored → Prop) (s : State) : Prop where
  server : ∀ v, s.server = some v → v.owner.created < s.clock
  owners : ∀ i, s.owners = some i → i.created < s.clock
  stamp : ∀ r, s.receipt = some r → r.owner.created < s.clock
  registered : ∀ r v, s.receipt = some r → s.server = some v → r.owner = v.owner →
    ∀ e ∈ r.registrations, v.Has I D e

/-- The processes are as before, and so are the registry and the receipt, or the receipt is gone. -/
structure Quiet (s t : State) : Prop where
  clock : t.clock = s.clock
  owners : t.owners = s.owners
  server : ∀ v, t.server = some v → ∃ w, s.server = some w ∧ v.owner = w.owner
  receipt : t.receipt = none ∨ t.receipt = s.receipt ∧ t.server = s.server

theorem Quiet.refl (s : State) : Quiet s s := ⟨rfl, rfl, fun v h => ⟨v, h, rfl⟩, .inr ⟨rfl, rfl⟩⟩

theorem Quiet.trans {u : State} (h : Quiet s t) (h' : Quiet t u) : Quiet s u := by
  constructor
  · exact h'.clock.trans h.clock
  · exact h'.owners.trans h.owners
  · intro v hv
    obtain ⟨w, hw, e⟩ := h'.server v hv
    obtain ⟨x, hx, e'⟩ := h.server w hw
    exact ⟨x, hx, e.trans e'⟩
  · obtain h' | ⟨hr, hs⟩ := h'.receipt
    · exact .inl h'
    · obtain h | ⟨hr', hs'⟩ := h.receipt
      · exact .inl (hr.trans h)
      · exact .inr ⟨hr.trans hr', hs.trans hs'⟩

theorem Quiet.sound (h : Quiet s t) (hs : Sound I D s) : Sound I D t := by
  constructor
  · intro v hv
    obtain ⟨w, hw, e⟩ := h.server v hv
    rw [h.clock, e]
    exact hs.server w hw
  · intro i hi
    rw [h.clock]
    exact hs.owners i (h.owners ▸ hi)
  · intro r hr
    obtain hn | ⟨e, -⟩ := h.receipt
    · rw [hn] at hr
      cases hr
    · rw [h.clock]
      exact hs.stamp r (e ▸ hr)
  · intro r v hr hv
    obtain hn | ⟨e, e'⟩ := h.receipt
    · rw [hn] at hr
      cases hr
    · exact hs.registered r v (e ▸ hr) (e' ▸ hv)

theorem Dropped.quiet (h : Dropped s t) : Quiet s t := by
  obtain rfl | rfl := h
  · exact Quiet.refl _
  · exact ⟨rfl, rfl, fun v h => ⟨v, h, rfl⟩, .inl rfl⟩

theorem Took.quiet {voice_id : String} {profile : Profile} (h : Took I o voice_id profile s t) : Quiet s t := by
  obtain ⟨v, p, hv, -, rfl⟩ := h
  refine ⟨rfl, rfl, ?_, .inl rfl⟩
  rintro _ ⟨⟩
  exact ⟨v, hv, rfl⟩

/-- Only the selection, the manifest or the temporary file differ. -/
theorem Quiet.of_eq (hs : t.server = s.server) (hc : t.clock = s.clock) (ho : t.owners = s.owners)
    (hr : t.receipt = s.receipt) : Quiet s t :=
  ⟨hc, ho, fun v h => ⟨v, hs ▸ h, rfl⟩, .inr ⟨hr, hs⟩⟩

/-! ## Selection -/

/-- The alias is registered with the reference of a profile that was held. -/
def State.Alias (I : Install) (held : Stored → Prop) (profile_id sha256 : String) (s : State) : Prop :=
  ∃ v p, s.server = some v ∧ v.voices VOICE_ALIAS = some p ∧ p.Of I held profile_id sha256

/-- The alias and the selection agree: the alias is registered with the reference of a profile of the selection. -/
def Agree (I : Install) (D : Folder → Stored → Prop) (s : State) : Prop :=
  ∃ folder sha256 profile_id, s.selected I = some (folder, sha256) ∧ s.Alias I (D folder) profile_id sha256

theorem Took.alias {profile : Profile} (h : Took I o VOICE_ALIAS profile s t) :
    t.Alias I (Held I o profile.profile_dir) profile.profile_id profile.reference_sha256 := by
  obtain ⟨v, p, -, hp, rfl⟩ := h
  exact ⟨v.register VOICE_ALIAS p, p, rfl, by simp [Server.register], hp⟩

/-- A rollback that reports the previous voice restored has registered the previous profile. -/
theorem restorePrevious_ends (previous : Option Profile) :
    Ends o s (restorePrevious I previous)
      ⟨fun _ _ => False, fun e t => Quiet s t ∧ (∀ text, e ≠ .rejected text) ∧
          (e = restored → ∃ q, previous = some q ∧ Took I o VOICE_ALIAS q s t),
        fun t => Quiet s t⟩ := by
  unfold restorePrevious
  refine Ends.found ⟨Quiet.refl s, by simp, by simp [restored]⟩ fun q hq => ?_
  refine Ends.bind (Ends.attempt (Ends.mono (nativeRegister_ends q VOICE_ALIAS) ?_ ?_ ?_))
  · intro _ t ht
    exact Ends.raise ⟨ht.quiet, by simp [restored], fun _ => ⟨q, hq, ht⟩⟩
  · rintro e t ⟨-, ht⟩
    refine Ends.raise ⟨?_, by simp, by simp [restored]⟩
    obtain ht | ⟨ht, -⟩ := ht
    · exact ht.quiet
    · exact ht.quiet
  · rintro t (ht | ht)
    · exact ht.quiet
    · exact ht.quiet

/-- What a selection of `profile` leaves. -/
def selectPost (I : Install) (D : Folder → Stored → Prop) (o : Env) (profile : Profile) (s : State) :
    Post State Error Selection :=
  ⟨fun selection t => Quiet s t ∧ t.active = some selection ∧
      t.Alias I (Held I o profile.profile_dir) selection.profile_id selection.reference_sha256,
    fun e t => Quiet s t ∧ ((∃ text, e = .rejected text) ∨ e = restored → Steady .active o → Agree I D s →
      Agree I D t),
    fun t => Quiet s t⟩

theorem State.selected_congr (h : t.active = s.active) : t.selected I = s.selected I := by
  rw [State.selected, State.selected, h]

theorem Took.active {voice_id : String} {profile : Profile} (h : Took I o voice_id profile s t) :
    t.active = s.active := by
  obtain ⟨v, p, -, -, rfl⟩ := h
  rfl

/-- A registration that dropped at most the receipt keeps the agreement. -/
theorem Dropped.agree (h : Dropped s t) (hs : Agree I D s) : Agree I D t := by
  obtain rfl | rfl := h
  · exact hs
  · exact hs

variable (hD : ∀ folder p, Held I o folder p → D folder p)
include hD

/-- A rollback from where the selection is the previous one. -/
theorem restorePrevious_select {p : Profile} {previous : Option Profile} (hq : Quiet s t)
    (hp : ∀ q, previous = some q → s.selected I = some (q.profile_dir, q.reference_sha256))
    (ha : Steady .active o → t.active = s.active) :
    Ends o t (restorePrevious I previous)
      ⟨fun _ _ => False, (selectPost I D o p s).raised, (selectPost I D o p s).stopped⟩ := by
  refine Ends.mono (restorePrevious_ends previous) (fun _ _ h => h) ?_ fun _ h => hq.trans h
  rintro e u ⟨hu, hrejected, hrestored⟩
  refine ⟨hq.trans hu, ?_⟩
  rintro (⟨text, rfl⟩ | rfl) hsteady -
  · exact absurd rfl (hrejected text)
  · -- the alias has the previous profile's reference, and the selection is as it was
    obtain ⟨q, hprev, ht⟩ := hrestored rfl
    have hactive : u.active = s.active := ht.active.trans (ha hsteady)
    obtain ⟨v, p, hv, hvoice, hof⟩ := ht.alias
    exact ⟨_, _, _, (State.selected_congr hactive).trans (hp q hprev), v, p, hv, hvoice, hof.imp (hD _)⟩

/-- A selection that returns has registered the alias and written `active.json`; one that reports a
rejection, or the previous voice restored, keeps the agreement, unless a step failed after `active.json` was
replaced. -/
theorem selectProfile_ends (profile : Profile) :
    Ends o s (selectProfile I profile) (selectPost I D o profile s) := by
  have hos : ∀ {t}, Quiet s t → (selectPost I D o profile s).raised (.os "OSError") t := by
    intro t h
    exact ⟨h, by simp [restored]⟩
  unfold selectProfile
  refine activationLock_ends (hos (Quiet.refl s)) (Quiet.refl s) ?_
  refine Ends.mono ?_ (fun _ _ h => ⟨h, hos h.1, h.1⟩)
    (fun _ _ h => ⟨h, hos h.1, h.1⟩) fun _ h => h
  refine Ends.read selectedProfile_reads ?_ (fun e _ => ⟨Quiet.refl s, fun _ _ h => h⟩) (Quiet.refl s)
  intro previous hp
  refine Ends.bind (Ends.attempt (Ends.mono (nativeRegister_ends profile VOICE_ALIAS) ?_ ?_ ?_))
  · -- the profile is registered
    intro _ t ht
    refine Ends.answer fun n => ?_
    refine Ends.bind (Ends.attempt (Ends.mono (atomicJson_ends .active fun _ _ => rfl) ?_ ?_ ?_))
    · rintro _ u ⟨x, rfl⟩
      exact Ends.pure ⟨ht.quiet.trans (Quiet.of_eq rfl rfl rfl rfl), rfl, ht.alias⟩
    · rintro e u ⟨-, hu⟩
      obtain ⟨x, rfl⟩ | ⟨hsteady, x, rfl⟩ := hu
      · refine Ends.mono (restorePrevious_select hD ?_ hp fun _ => ht.active) (fun _ _ h => h.elim) (fun _ _ h => h)
          fun _ h => h
        exact ht.quiet.trans (Quiet.of_eq rfl rfl rfl rfl)
      · refine Ends.mono (restorePrevious_select hD ?_ hp fun h => absurd h hsteady) (fun _ _ h => h.elim)
          (fun _ _ h => h) fun _ h => h
        exact ht.quiet.trans (Quiet.of_eq rfl rfl rfl rfl)
    · rintro u (⟨x, rfl⟩ | ⟨x, rfl⟩)
      · exact ht.quiet.trans (Quiet.of_eq rfl rfl rfl rfl)
      · exact ht.quiet.trans (Quiet.of_eq rfl rfl rfl rfl)
  · rintro e t ⟨-, ht⟩
    have hq : Quiet s t := ht.elim Dropped.quiet fun h => h.1.quiet
    have hactive : t.active = s.active := by
      obtain (rfl | rfl) | ⟨ht, -⟩ := ht
      · rfl
      · rfl
      · exact ht.active
    have hrest := restorePrevious_select hD (p := profile) hq hp fun _ => hactive
    cases e with
    | rejected text =>
      refine Ends.raise ⟨hq, fun _ _ => ?_⟩
      obtain ht | ⟨-, hne⟩ := ht
      · exact ht.agree
      · exact absurd rfl (hne text)
    | _ => exact Ends.mono hrest (fun _ _ h => h.elim) (fun _ _ h => h) fun _ h => h
  · rintro t (ht | ht)
    · exact ht.quiet
    · exact ht.quiet

end StrixAlloy.Voice

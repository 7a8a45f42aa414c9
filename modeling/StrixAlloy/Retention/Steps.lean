import StrixAlloy.Retention.Tracking

/-!
# The programs keep the invariant

One lemma for each program: what holds where it returns, and that the invariant holds wherever it raises or
is stopped. A temporary file is left only by an environment that stops a write, or fails the removal.
-/

namespace StrixAlloy.Retention

open Faulty

variable {o : Env} {F : Frame} {s t : State}

/-- No write is stopped while its temporary file exists, and no removal of one fails. -/
def Clean (o : Env) : Prop := ∀ n, o.answer n .held ≠ .stops ∧ o.answer n .discard = .done

/-- An operation fails without effect. -/
theorem effect_ends {l : Step} {f : State → State} {P : Post State Error Unit} (hd : P.returned () (f s))
    (he : (∃ n, o.answer n l = .fails) → P.raised (.other "OSError") s)
    (hs : (∃ n, o.answer n l = .stops) → P.stopped s) : Ends o s (effect l f) P :=
  Ends.atomic hd he hs

/-- An operation that keeps what every end demands. -/
theorem effect_keeps {l : Step} {f : State → State} {I : State → Prop} (h : I s) (hf : I (f s)) :
    Ends o s (effect l f) (Post.always I) :=
  effect_ends hf (fun _ => h) fun _ => h

/-- A program goes on after an operation. -/
theorem effect_bind {α : Type} {l : Step} {f : State → State} {k : Unit → Filed α} {P : Post State Error α}
    (hk : Ends o (f s) (k ()) P) (he : P.raised (.other "OSError") s) (hs : P.stopped s) :
    Ends o s (effect l f >>= k) P :=
  Ends.bind (effect_ends hk (fun _ => he) fun _ => hs)

/-- A program goes on after an operation without effect. -/
theorem op_bind {α : Type} {l : Step} {k : Unit → Filed α} {P : Post State Error α} (hk : Ends o s (k ()) P)
    (he : P.raised (.other "OSError") s) (hs : P.stopped s) : Ends o s (op l >>= k) P :=
  effect_bind hk he hs

theorem activationLock_ends {α : Type} {body : Filed α} {P : Post State Error α}
    (hl : P.raised (.other "RuntimeError") s)
    (hb : Ends o s body ⟨fun a t => P.returned a t ∧ (∀ e, P.raised e t) ∧ P.stopped t,
      fun e t => P.raised e t ∧ (∀ e, P.raised e t) ∧ P.stopped t, P.stopped⟩) :
    Ends o s (activationLock body) P := by
  unfold activationLock
  refine Ends.answer fun n => Ends.guard hl fun _ => Ends.ensure (Ends.mono hb ?_ ?_ fun _ h => h)
  · rintro a t ⟨hr, he, hs⟩
    exact effect_ends hr (fun _ => he _) fun _ => hs
  · rintro e t ⟨hr, he, hs⟩
    exact effect_ends hr (fun _ => he _) fun _ => hs

/-- Under the lock what holds at every end of a program holds at every end. -/
theorem activationLock_always {α : Type} {body : Filed α} {I : State → Prop} (h : I s)
    (hb : Ends o s body (Post.always I)) : Ends o s (activationLock body) (Post.always I) :=
  activationLock_ends h
    (Ends.mono hb (fun _ _ h => ⟨h, fun _ => h, h⟩) (fun _ _ h => ⟨h, fun _ => h, h⟩) fun _ h => h)

/-! ## Removal -/

/-- Only folders and uploads differ. -/
structure Beside (s t : State) : Prop where
  revisions : t.revisions = s.revisions
  journals : t.journals = s.journals
  next : t.next = s.next
  active : t.active = s.active

theorem Beside.refl (s : State) : Beside s s := ⟨rfl, rfl, rfl, rfl⟩

theorem Beside.trans {u : State} (h : Beside s t) (h' : Beside t u) : Beside s u :=
  ⟨h'.revisions.trans h.revisions, h'.journals.trans h.journals, h'.next.trans h.next, h'.active.trans h.active⟩

theorem beside_mapFolder (f : Folder → Folder) (p : Place) : Beside s (s.mapFolder f p) := by
  cases p <;> exact ⟨rfl, rfl, rfl, rfl⟩

theorem beside_dropFolder (p : Place) : Beside s (s.dropFolder p) := by
  cases p <;> exact ⟨rfl, rfl, rfl, rfl⟩

theorem unlinkAll_ends (h : Inv F s) (p : Place) (names : List File) :
    Ends o s (unlinkAll p names) (Post.always fun t => Inv F t ∧ Beside s t) := by
  induction names generalizing s with
  | nil => exact Ends.pure ⟨h, Beside.refl s⟩
  | cons name names ih =>
    refine effect_bind ?_ ⟨h, Beside.refl s⟩ ⟨h, Beside.refl s⟩
    have hb : Beside s (s.mapFolder (Folder.remove name) p) := beside_mapFolder _ p
    exact Ends.mono (ih (h.unlink name p)) (fun _ _ ht => ⟨ht.1, hb.trans ht.2⟩)
      (fun _ _ ht => ⟨ht.1, hb.trans ht.2⟩) fun _ ht => ⟨ht.1, hb.trans ht.2⟩

/-- A purge that returns has removed the folder. -/
theorem purgeTree_ends (h : Inv F s) (p : Place) :
    Ends o s (purgeTree p)
      ⟨fun _ t => Inv { F with graves := fun q => F.graves q ∧ p ≠ .quarantine q } t ∧ Beside s t,
        fun _ t => Inv F t ∧ Beside s t, fun t => Inv F t ∧ Beside s t⟩ := by
  have hs : Inv F s ∧ Beside s s := ⟨h, Beside.refl s⟩
  unfold purgeTree
  refine effect_bind (Ends.look (Ends.found hs fun f _ => ?_)) hs hs
  refine Ends.seq (unlinkAll_ends h p f.files) ?_ (fun _ _ ht => ht) fun _ ht => ht
  intro _ t ht
  refine Ends.look (Ends.guard ht fun _ => effect_ends ?_ (fun _ => ht) fun _ => ht)
  exact ⟨ht.1.dropFolder p, ht.2.trans (beside_dropFolder p)⟩

theorem purgeFolders_ends (h : Inv F s) (ps : List Place) :
    Ends o s (purgeFolders ps) (Post.always fun t => Inv F t ∧ Beside s t) := by
  induction ps generalizing s with
  | nil => exact Ends.pure ⟨h, Beside.refl s⟩
  | cons p ps ih =>
    refine Ends.seq (purgeTree_ends h p) ?_ (fun _ _ ht => ht) fun _ ht => ht
    rintro _ t ⟨ht, hb⟩
    have ht : Inv F t := ht.weaken fun q hq => hq.1
    exact Ends.mono (ih ht) (fun _ _ h => ⟨h.1, hb.trans h.2⟩) (fun _ _ h => ⟨h.1, hb.trans h.2⟩)
      fun _ h => ⟨h.1, hb.trans h.2⟩

theorem purgeUpload_ends (h : Inv F s) (upload : ℕ) :
    Ends o s (purgeUpload upload) (Post.always fun t => Inv F t ∧ Beside s t) := by
  have hs : Inv F s ∧ Beside s s := ⟨h, Beside.refl s⟩
  have hflag : ∀ {t} (f : Upload → Upload), (∀ u, validateUpload (f u) = validateUpload u) →
      Inv F t ∧ Beside s t → Inv F (t.mapUpload upload f) ∧ Beside s (t.mapUpload upload f) := by
    intro t f hf ht
    exact ⟨ht.1.mapUpload upload fun _ u hu => (hf u).trans hu, ht.2.trans ⟨rfl, rfl, rfl, rfl⟩⟩
  unfold purgeUpload
  refine effect_bind (Ends.look (Ends.found hs fun u _ => ?_)) hs hs
  refine Ends.seq (purgeFolders_ends h _) ?_ (fun _ _ ht => ht) fun _ ht => ht
  rintro _ t ⟨ht, hb⟩
  refine Ends.seq (purgeFolders_ends ht _) ?_ (fun _ _ h => ⟨h.1, hb.trans h.2⟩) fun _ h => ⟨h.1, hb.trans h.2⟩
  rintro _ t' ⟨ht', hb'⟩
  have h0 : Inv F t' ∧ Beside s t' := ⟨ht', hb.trans hb'⟩
  have h1 := hflag (fun u => { u with revisions := false }) (fun _ => rfl) h0
  have h2 := hflag (fun u => { u with profiles := false }) (fun _ => rfl) h1
  have h3 := hflag (fun u => { u with recording := false }) (fun _ => rfl) h2
  refine effect_bind (effect_bind (effect_bind ?_ h2 h2) h1 h1) h0 h0
  refine Ends.look (Ends.guard h3 fun _ => effect_keeps h3 ⟨?_, h3.2.trans ⟨rfl, rfl, rfl, rfl⟩⟩)
  refine h3.1.of_untracked rfl rfl rfl rfl (Nat.le_refl _) fun ha _ => ⟨ha.preview, ha.staging, ha.strays, ?_⟩
  exact fun u hu => ha.uploads u (mem_dropAt.1 hu).1

/-! ## Metadata -/

theorem dropStray_addStray (x : Temporary) (d : Dir) : (s.addStray x d).dropStray x d = s := by
  have herase : (fun f : Folder => { f with strays := (x :: f.strays).erase x }) = fun f => f := by
    funext f
    rw [List.erase_cons_head]
  cases d with
  | journals => simp [State.addStray, State.dropStray]
  | folder p =>
    cases p <;>
      simp only [State.addStray, State.dropStray, State.mapFolder, State.mapUpload, mapAt_mapAt, herase, mapAt_id]

/-- A write commits, or leaves only the temporary file's number used, or leaves the temporary file where the
environment stopped it or failed its removal. -/
theorem atomicJson_ends (private_file : Bool) (d : Dir) (name : String) (commit : State → State) :
    Ends o s (atomicJson private_file d name commit)
      ⟨fun _ t => t = commit { s with next := s.next + 1 },
        fun _ t => t = { s with next := s.next + 1 } ∨ t = commit { s with next := s.next + 1 } ∨
          ¬ Clean o ∧ ∃ x, t = { s with next := s.next + 1 }.addStray x d,
        fun t => t = { s with next := s.next + 1 } ∨ t = commit { s with next := s.next + 1 } ∨
          ¬ Clean o ∧ ∃ x, t = { s with next := s.next + 1 }.addStray x d⟩ := by
  unfold atomicJson fresh
  refine Ends.bind (Ends.bind (Ends.get (Ends.bind (Ends.modify (Ends.pure ?_)))))
  generalize hs1 : ({ s with next := s.next + 1 } : State) = s1
  refine effect_bind ?_ (.inl rfl) (.inl rfl)
  have hstop : (∃ n, o.answer n .held = .stops) → ¬ Clean o := by
    rintro ⟨n, hn⟩ hc
    exact (hc n).1 hn
  have hdiscard : (∃ n, o.answer n .discard ≠ .done) → ¬ Clean o := by
    rintro ⟨n, hn⟩ hc
    exact hn (hc n).2
  generalize hx : (⟨name, s.next⟩ : Temporary) = x
  -- the handler, after a step of the write has failed
  have hfail : Ends o (s1.addStray x d)
      (do effect .discard (fun s => s.dropStray x d); Prog.raise (.other "OSError") : Filed Unit)
      ⟨fun _ _ => False, fun _ t => t = s1 ∨ t = commit s1 ∨ ¬ Clean o ∧ ∃ x, t = s1.addStray x d,
        fun t => t = s1 ∨ t = commit s1 ∨ ¬ Clean o ∧ ∃ x, t = s1.addStray x d⟩ := by
    refine Ends.bind (effect_ends (Ends.raise (.inl (dropStray_addStray x d))) ?_ ?_)
    · rintro ⟨n, hn⟩
      exact .inr (.inr ⟨hdiscard ⟨n, by rw [hn]; nofun⟩, x, rfl⟩)
    · rintro ⟨n, hn⟩
      exact .inr (.inr ⟨hdiscard ⟨n, by rw [hn]; nofun⟩, x, rfl⟩)
  have hop : ∀ {k : Unit → Filed Unit} {R : Post State Error Unit}, Ends o (s1.addStray x d) (k ()) R →
      R.raised (.other "OSError") (s1.addStray x d) → (¬ Clean o → R.stopped (s1.addStray x d)) →
      Ends o (s1.addStray x d) (op .held >>= k) R :=
    fun hk he hs => Ends.bind (effect_ends hk (fun _ => he) fun h => hs (hstop h))
  refine Ends.bind (Ends.attempt ?_)
  have hraised : Ends o (s1.addStray x d)
      (do effect .discard (fun s => s.dropStray x d); Prog.raise (.other "OSError") : Filed Unit)
      ⟨fun _ t => Ends o t (op .file)
          ⟨fun _ t => t = commit s1, fun _ t => t = s1 ∨ t = commit s1 ∨ ¬ Clean o ∧ ∃ x, t = s1.addStray x d,
            fun t => t = s1 ∨ t = commit s1 ∨ ¬ Clean o ∧ ∃ x, t = s1.addStray x d⟩,
        fun _ t => t = s1 ∨ t = commit s1 ∨ ¬ Clean o ∧ ∃ x, t = s1.addStray x d,
        fun t => t = s1 ∨ t = commit s1 ∨ ¬ Clean o ∧ ∃ x, t = s1.addStray x d⟩ :=
    Ends.mono hfail (fun _ _ h => h.elim) (fun _ _ h => h) fun _ h => h
  have hleft : ¬ Clean o → s1.addStray x d = s1 ∨ s1.addStray x d = commit s1 ∨
      ¬ Clean o ∧ ∃ y, s1.addStray x d = s1.addStray y d := fun h => .inr (.inr ⟨h, x, rfl⟩)
  have hbody : Ends o (s1.addStray x d) (do op .held; effect .held fun s => commit (s.dropStray x d) : Filed Unit)
      ⟨fun _ t => t = commit s1, fun e t => e = .other "OSError" ∧ t = s1.addStray x d,
        fun t => ¬ Clean o ∧ t = s1.addStray x d⟩ := by
    refine hop (effect_ends ?_ (fun _ => ⟨rfl, rfl⟩) fun h => ⟨hstop h, rfl⟩) ⟨rfl, rfl⟩ fun h => ⟨h, rfl⟩
    exact congrArg commit (dropStray_addStray x d)
  have hwrite : Ends o (s1.addStray x d) (do
        restrictPrivatePath private_file
        op .held
        effect .held fun s => commit (s.dropStray x d) : Filed Unit)
      ⟨fun _ t => t = commit s1, fun e t => e = .other "OSError" ∧ t = s1.addStray x d,
        fun t => ¬ Clean o ∧ t = s1.addStray x d⟩ := by
    unfold restrictPrivatePath
    cases private_file with
    | true => exact hop hbody ⟨rfl, rfl⟩ fun h => ⟨h, rfl⟩
    | false => exact Ends.bind (Ends.pure hbody)
  refine Ends.mono hwrite ?_ ?_ ?_
  · rintro _ t rfl
    exact effect_ends rfl (fun _ => .inr (.inl rfl)) fun _ => .inr (.inl rfl)
  · rintro _ t ⟨rfl, rfl⟩
    exact hraised
  · rintro t ⟨h, rfl⟩
    exact hleft h

/-- A journal is written for a folder, or nothing but a temporary file may be left. -/
theorem atomicPrivateJson_ends (h : Inv F s) (hC : F.clean → Clean o) {token : ℕ} {r : Record}
    (hsole : Sole token r.quarantine_name s) (ht : r.quarantine_name.token = token) (hn : token < s.next)
    (hr : F.clean → validJournal token r) :
    Ends o s (atomicPrivateJson token r)
      ⟨fun _ t => t = putJournal token r { s with next := s.next + 1 } ∧ Inv F t ∧ Sole token r.quarantine_name t ∧
          ∃ y ∈ t.journals, y.2.quarantine_name = r.quarantine_name,
        fun _ t => Inv F t, fun t => Inv F t⟩ := by
  have h1 : Inv F { s with next := s.next + 1 } := h.next (Nat.le_succ _)
  have hput := h1.putJournal hsole ht (Nat.lt_succ_of_lt hn) hr
  have hend : ∀ t, t = { s with next := s.next + 1 } ∨ t = putJournal token r { s with next := s.next + 1 } ∨
      (¬ Clean o ∧ ∃ x, t = ({ s with next := s.next + 1 } : State).addStray x .journals) → Inv F t := by
    rintro t (rfl | rfl | ⟨hnc, x, rfl⟩)
    · exact h1
    · exact hput.1
    · exact h1.of_untracked rfl rfl rfl rfl (Nat.le_refl _) fun _ hc => absurd (hC hc) hnc
  refine Ends.mono (atomicJson_ends true .journals "journal" (putJournal token r)) ?_ (fun _ t ht => hend t ht) hend
  rintro _ t rfl
  exact ⟨rfl, hput⟩

/-! ## Quarantine -/

/-- A revision is moved under a journal of its own, or stays. -/
theorem quarantine_ends (h : Inv F s) (hC : F.clean → Clean o) {p : ProfileId} {b : Principal}
    (hby : b ≠ .unknown) (hk : ∀ x, F.kept x → x.1 ≠ p) :
    Ends o s (quarantine p b)
      ⟨fun r t => Inv { F with graves := fun q => F.graves q ∨ q = r.2.quarantine_name } t ∧
          Sole r.1 r.2.quarantine_name t ∧ r.2 = ⟨p, b, ⟨p, r.1⟩, .pending_purge⟩ ∧ r.1 < t.next,
        fun _ t => Inv F t, fun t => Inv F t⟩ := by
  unfold quarantine fresh
  refine Ends.bind (Ends.bind (Ends.get (Ends.bind (Ends.modify (Ends.pure ?_)))))
  have h1 : Inv F { s with next := s.next + 1 } := h.next (Nat.le_succ _)
  have hvalid : validJournal s.next ⟨p, b, ⟨p, s.next⟩, .pending_purge⟩ := by
    simp [validJournal, hby]
  have hsole : Sole s.next ⟨p, s.next⟩ { s with next := s.next + 1 } := h.tracked.sole_next _ (Nat.le_refl _)
  refine Ends.seq (atomicPrivateJson_ends h1 hC (r := ⟨p, b, ⟨p, s.next⟩, .pending_purge⟩) hsole rfl
    (Nat.lt_succ_self _) fun _ => hvalid) ?_ (fun _ _ ht => ht) fun _ ht => ht
  rintro _ t ⟨hput, ht, hsole, hnamed⟩
  have hquar : t.quarantine = s.quarantine := by
    rw [hput]
    rfl
  have hnext : s.next < t.next := by
    rw [hput]
    exact Nat.lt_succ_of_lt (Nat.lt_succ_self _)
  have hfree : ∀ x ∈ t.quarantine, x.1.token ≠ s.next := by
    rw [hquar]
    intro x hx e
    obtain ⟨y, hy, he⟩ := h.tracked.named x hx
    have hlt := h.tracked.keyed y hy
    rw [he, e] at hlt
    exact absurd hlt.2 (by omega)
  -- a rename that fails leaves the revision, and the journal goes again
  have hfail : ∀ e : Error, Ends o t (do effect .file (dropJournal s.next); Prog.raise e : Filed Unit)
      ⟨fun _ _ => False, fun _ t => Inv F t, fun t => Inv F t⟩ := by
    intro e
    exact effect_bind (Ends.raise (ht.dropJournal hfree)) ht ht
  have hraise : ∀ (e : Error) {R : Unit → State → Prop},
      Ends o t (do effect .file (dropJournal s.next); Prog.raise e : Filed Unit)
        ⟨R, fun _ t => Inv F t, fun t => Inv F t⟩ :=
    fun e _ => Ends.mono (hfail e) (fun _ _ h => h.elim) (fun _ _ h => h) fun _ h => h
  refine Ends.bind (Ends.attempt ?_)
  unfold rename
  refine Ends.look (Ends.found (hraise _) fun f hf => Ends.guard (hraise _) fun _ => ?_)
  refine effect_ends (Ends.pure ⟨?_, hsole, rfl, hnext⟩) (fun _ => hraise _) fun _ => ht
  exact ht.moveRevision (mem_of_getAt hf) rfl hnamed hk

end StrixAlloy.Retention

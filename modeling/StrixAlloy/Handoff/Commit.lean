import StrixAlloy.Handoff.Safety

/-!
# One commit, and what the parent is told

Only a request of the original channel in the ready state makes a step a commit (`step_cases`), and a
parent that has ended keeps its outcome. With the invariant of every run this gives
`handoff_all_or_nothing`.
-/

namespace StrixAlloy.Handoff

open Runs

open Channel hiding init

variable {x : Setting} {s : State}

/-! ## What is not taken back -/

/-- What only a commit of the guardian's changes. -/
structure Still (s s' : State) : Prop where
  commits : s'.commits = s.commits
  written : s'.written = s.written
  committed : s'.committed = s.committed

theorem Still.trans {s₁ s₂ : State} (h : Still s s₁) (h' : Still s₁ s₂) : Still s s₂ :=
  ⟨h'.commits.trans h.commits, h'.written.trans h.written, h'.committed.trans h.committed⟩

/-- A parent that has ended keeps its outcome. -/
def Final (s s' : State) : Prop :=
  s.parent.stage = .ended → s'.parent.stage = .ended ∧ s'.parent.outcome = s.parent.outcome

/-- What a step keeps that is no commit of the guardian's. -/
structure Kept (s s' : State) : Prop extends Still s s' where
  final : Final s s'

theorem Kept.refl : Kept s s := ⟨⟨rfl, rfl, rfl⟩, fun h => ⟨h, rfl⟩⟩

theorem Kept.trans {s₁ s₂ : State} (h : Kept s s₁) (h' : Kept s₁ s₂) : Kept s s₂ where
  toStill := h.toStill.trans h'.toStill
  final e := by
    obtain ⟨e₁, ho₁⟩ := h.final e
    obtain ⟨e₂, ho₂⟩ := h'.final e₁
    exact ⟨e₂, ho₂.trans ho₁⟩

theorem kept_slotAdvance (k : ℕ) (report : Report) (known starts : Bool) :
    Kept s (s.slotAdvance x k report known starts) := by
  unfold State.slotAdvance
  dsimp only
  repeat' split
  all_goals exact ⟨⟨rfl, rfl, rfl⟩, fun h => ⟨h, rfl⟩⟩

theorem kept_reply (k : ℕ) (body : Message) (retain starts : Bool) :
    Kept s (s.reply x k body retain starts) := by
  unfold State.reply
  repeat' split
  all_goals exact ⟨⟨rfl, rfl, rfl⟩, fun h => ⟨h, rfl⟩⟩

theorem kept_beginHandoff (e : Event) (starts : Bool) : Kept s (s.beginHandoff x e starts) := by
  unfold State.beginHandoff
  repeat' split
  · exact ⟨⟨rfl, rfl, rfl⟩, fun h => ⟨h, rfl⟩⟩
  · exact ⟨⟨rfl, rfl, rfl⟩, fun h => ⟨h, rfl⟩⟩
  · exact kept_reply _ _ _ _
  · exact .refl

/-- A commit of the guardian's, and that the parent keeps its outcome. -/
structure Commits (s s' : State) : Prop where
  ready : s.status = .ready
  open_ : s.committed = false ∧ s.stopping = false ∧ s.failed = false
  commits : ∃ k, s.parent_event = some k ∧ s'.commits = s.commits ++ [k]
  written : s'.written
  final : Final s s'

theorem handle_cases (authorized : Bool) (saved : Saved) (snapshot : Message) (starts : Bool) :
    Kept s (s.handle x authorized saved snapshot starts) ∨
      Commits s (s.handle x authorized saved snapshot starts) := by
  unfold State.handle
  split
  · exact .inl .refl
  rename_i e events he
  split
  · exact .inl .refl
  have hpop : ∀ {st : Status} {fl sp : Bool},
      Kept s { s with events := events, failed := fl, stopping := sp, status := st } :=
    ⟨⟨rfl, rfl, rfl⟩, fun h => ⟨h, rfl⟩⟩
  dsimp only
  split
  · exact .inl (hpop.trans (kept_reply _ _ _ _))
  split
  · split
    · exact .inl hpop
    · exact .inl hpop
  · split
    · exact .inl (hpop.trans (kept_reply _ _ _ _))
    · exact .inl (hpop.trans (kept_beginHandoff _ _))
  · split
    · exact .inl (hpop.trans (kept_reply _ _ _ _))
    rename_i hguard
    push Not at hguard
    obtain ⟨horiginal, hready, hcommitted, hstopping, hfailed⟩ := hguard
    have hopen : s.committed = false ∧ s.stopping = false ∧ s.failed = false := by
      exact ⟨Bool.eq_false_iff.2 hcommitted, Bool.eq_false_iff.2 hstopping,
        Bool.eq_false_iff.2 (by simpa using hfailed)⟩
    unfold State.commit
    split
    · exact .inl ⟨⟨rfl, rfl, rfl⟩, fun h => ⟨h, rfl⟩⟩
    · exact .inr ⟨hready, hopen, ⟨_, horiginal, rfl⟩, rfl, fun h => ⟨h, rfl⟩⟩
    · have hreply := kept_reply (x := x)
        (s := { s with
          events := events, written := true, commits := s.commits ++ [e.slot], committed := true, status := .running })
        e.slot (State.stateBody "committed") false starts
      exact .inr ⟨hready, hopen, ⟨_, horiginal, hreply.commits⟩, hreply.written, hreply.final⟩
  · exact .inl (hpop.trans (kept_reply _ _ _ _))
  · split
    · exact .inl (hpop.trans (kept_reply _ _ _ _))
    · exact .inl (hpop.trans (kept_reply _ _ _ _))

theorem still_parentFail : Still s s.parentFail := by
  unfold State.parentFail
  split
  all_goals exact ⟨rfl, rfl, rfl⟩

theorem still_parentSend (command : String) (stage : Stage) (starts : Bool) :
    Still s (s.parentSend x command stage starts) := by
  unfold State.parentSend
  dsimp only
  split
  · exact still_parentFail
  · exact ⟨rfl, rfl, rfl⟩

theorem still_parentMessage (m : Message) (starts : Bool) : Still s (s.parentMessage x m starts) := by
  unfold State.parentMessage
  repeat' split
  · refine Still.trans ?_ (still_parentSend _ _ _)
    exact ⟨rfl, rfl, rfl⟩
  · exact still_parentFail
  · exact still_parentFail
  · have h : Still s (s.parentSend x "commit" .committing starts) := still_parentSend _ _ _
    exact ⟨h.commits, h.written, h.committed⟩
  · exact still_parentFail
  · exact ⟨rfl, rfl, rfl⟩
  · exact still_parentFail
  · exact still_parentFail

theorem kept_parentFail : Kept s s.parentFail := by
  refine ⟨still_parentFail, fun e => ?_⟩
  unfold State.parentFail
  rw [if_pos e]
  exact ⟨e, rfl⟩

theorem kept_parentAdvance (report : Report) (starts : Bool) : Kept s (s.parentAdvance x report starts) := by
  unfold State.parentAdvance
  split
  · exact .refl
  split
  · exact .refl
  rename_i hguard
  push Not at hguard
  refine ⟨?_, fun e => absurd e hguard.2.1⟩
  have hstill : ∀ {down : List UInt8} {ch : Channel} {s' : State},
      Still ((s.modify s.parent.slot (fun c => { c with down := down })).parentAt s.parent.stage ch) s' →
        Still s s' := fun h => ⟨h.commits, h.written, h.committed⟩
  split
  · exact still_parentFail
  split
  · exact ⟨rfl, rfl, rfl⟩
  · exact hstill (still_parentMessage _ _)
  · split
    · exact hstill still_parentFail
    · exact ⟨rfl, rfl, rfl⟩

theorem step_cases (a : Act) : Kept s (step x s a) ∨ Commits s (step x s a) := by
  cases a with
  | handle authorized saved snapshot starts => exact handle_cases authorized saved snapshot starts
  | slotAdvance k report known starts => exact .inl (kept_slotAdvance k report known starts)
  | ready bound starts =>
    left
    show Kept s (s.ready x bound starts)
    unfold State.ready
    split
    · exact .refl
    split
    · exact ⟨⟨rfl, rfl, rfl⟩, fun h => ⟨h, rfl⟩⟩
    split
    · exact ⟨⟨rfl, rfl, rfl⟩, fun h => ⟨h, rfl⟩⟩
    · have h1 : Kept s { s with status := .ready, readied := true } := ⟨⟨rfl, rfl, rfl⟩, fun h => ⟨h, rfl⟩⟩
      exact h1.trans (kept_reply _ _ _ _)
  | parentAdvance report starts => exact .inl (kept_parentAdvance report starts)
  | parentFail => exact .inl kept_parentFail
  | parentConnect k starts =>
    left
    show Kept s (s.parentConnect k starts)
    unfold State.parentConnect
    split
    · exact .refl
    split
    · exact .refl
    rename_i hguard
    push Not at hguard
    split
    · exact kept_parentFail
    · exact ⟨⟨rfl, rfl, rfl⟩, fun e => by cases hguard.1.symm.trans e⟩
  | listen challenge =>
    left
    show Kept s (s.listen challenge)
    unfold State.listen
    split
    · exact .refl
    · exact ⟨⟨rfl, rfl, rfl⟩, fun h => ⟨h, rfl⟩⟩
  | slotTimeout k =>
    left
    show Kept s (s.slotTimeout k)
    unfold State.slotTimeout
    repeat' split
    all_goals exact ⟨⟨rfl, rfl, rfl⟩, fun h => ⟨h, rfl⟩⟩
  | expire =>
    left
    show Kept s s.expire
    unfold State.expire
    split
    · exact .refl
    · exact ⟨⟨rfl, rfl, rfl⟩, fun h => ⟨h, rfl⟩⟩
  | clientConnect k p =>
    left
    show Kept s (s.clientConnect x k p)
    unfold State.clientConnect
    split
    · exact .refl
    · exact ⟨⟨rfl, rfl, rfl⟩, fun h => ⟨h, rfl⟩⟩
  | transferUp count =>
    left
    show Kept s (s.transferUp count)
    unfold State.transferUp
    repeat' split
    all_goals exact ⟨⟨rfl, rfl, rfl⟩, fun h => ⟨h, rfl⟩⟩
  | result => exact .inl ⟨⟨rfl, rfl, rfl⟩, fun h => ⟨h, rfl⟩⟩
  | guardianFail => exact .inl ⟨⟨rfl, rfl, rfl⟩, fun h => ⟨h, rfl⟩⟩
  | inject => exact .inl ⟨⟨rfl, rfl, rfl⟩, fun h => ⟨h, rfl⟩⟩
  | transferDown => exact .inl ⟨⟨rfl, rfl, rfl⟩, fun h => ⟨h, rfl⟩⟩
/-- The guardian's flags and the file go with the history of its commits. -/
theorem run_marks (as : List Act) :
    ((run (step x) init as).committed → (run (step x) init as).commits ≠ []) ∧
      ((run (step x) init as).written → (run (step x) init as).commits ≠ []) := by
  refine run_invariant (P := fun s : State => (s.committed → s.commits ≠ []) ∧ (s.written → s.commits ≠ []))
    (fun s a h => ?_) as ⟨fun e => (by cases e), fun e => (by cases e)⟩
  rcases step_cases a with hk | hc
  · rw [hk.committed, hk.written, hk.commits]
    exact h
  · obtain ⟨k, -, hcommits⟩ := hc.commits
    have hne : (step x s a).commits ≠ [] := by
      rw [hcommits]
      exact List.append_ne_nil_of_right_ne_nil _ (List.cons_ne_nil _ _)
    exact ⟨fun _ => hne, fun _ => hne⟩

/-- A parent that has ended keeps its outcome in every continuation. -/
theorem run_final (hended : s.parent.stage = .ended) (bs : List Act) :
    (run (step x) s bs).parent.stage = .ended ∧
      (run (step x) s bs).parent.outcome = s.parent.outcome := by
  refine run_invariant (P := fun t : State => t.parent.stage = .ended ∧ t.parent.outcome = s.parent.outcome)
    (fun t a h => ?_) bs ⟨hended, rfl⟩
  have hfinal : Final t (step x t a) := by
    rcases step_cases a with hk | hc
    · exact hk.final
    · exact hc.final
  obtain ⟨he, ho⟩ := hfinal h.1
  exact ⟨he, ho.trans h.2⟩

/-- In every run the guardian commits at most once, on the parent's channel and in its ready state. Once
it has committed, the parent's result is an acknowledged or an indeterminate one; once the parent has
raised, it does not commit any more; and the parent's acknowledged result means that the file was written. -/
theorem handoff_all_or_nothing (x : Setting) (as : List Act) :
    let s := run (step x) init as
    (s.committed → s.commits ≠ []) ∧ (s.written ↔ s.commits ≠ []) ∧ s.commits.length ≤ 1 ∧
      (∀ k ∈ s.commits, s.parent_event = some k ∧ s.parent.slot = k ∧
        ∃ c, s.slots[k]? = some c ∧ c.client = .parent) ∧
      (∀ a, (step x s a).commits ≠ s.commits → s.status = .ready ∧ s.readied) ∧
      (s.commits ≠ [] → ∀ o, s.parent.outcome = some o → o = .committed ∨ o = .indeterminate) ∧
      (s.parent.outcome = some .raised → ∀ bs, (run (step x) s bs).commits = []) ∧
      (s.parent.outcome = some .committed → s.written) := by
  intro s
  have h : Inv x s := run_inv as
  obtain ⟨hcommitted, hwritten⟩ := run_marks as
  have hsent : ∀ {t : State}, Inv x t → t.commits ≠ [] → t.parent.committed ∧ t.written := by
    intro t ht hne
    obtain ⟨k, hk⟩ := List.exists_mem_of_ne_nil _ hne
    obtain ⟨-, hw, hp, -⟩ := ht.guardian.commits k hk
    exact ⟨hp, hw⟩
  have hraised : ∀ {t : State}, Inv x t → t.commits ≠ [] → t.parent.outcome ≠ some .raised := by
    intro t ht hne ho
    have hp := (hsent ht hne).1
    rw [ht.parent.raised ho] at hp
    cases hp
  refine ⟨hcommitted, ⟨hwritten, fun hne => (hsent h hne).2⟩, h.guardian.once, fun k hk => ?_, fun a ha => ?_,
    fun hne o ho => ?_, fun ho bs => ?_, h.parent.acknowledged⟩
  · obtain ⟨horiginal, -⟩ := h.guardian.commits k hk
    obtain ⟨c, hc, hclient⟩ := h.original k horiginal
    exact ⟨horiginal, ((h.slots k c hc).parent hclient).1, c, hc, hclient⟩
  · rcases step_cases a with hk | hc
    · exact absurd hk.commits ha
    · exact ⟨hc.ready, h.guardian.readied hc.ready⟩
  · cases o with
    | raised => exact absurd ho (hraised h hne)
    | indeterminate => exact .inr rfl
    | committed => exact .inl rfl
  · have hended := h.parent.ended (by rw [ho]; nofun)
    by_contra hne
    have hrun : Inv x (run (step x) s bs) :=
      run_invariant (P := Inv x) (fun _ a h => step_inv h a) bs h
    exact hraised hrun hne ((run_final hended bs).2.trans ho)

/-! ## A run that commits -/

/-- A codec that knows the given messages and no others. -/
def Codec.ofMessages (known : List Message) (h : known.length ≤ 256) : Codec where
  encode m := if m ∈ known then [UInt8.ofNat (known.idxOf m)] else []
  decode
    | [b] => known[b.toNat]?
    | _ => none
  decode_encode m hpos _ := by
    split_ifs at hpos ⊢ with hm
    · have hlt := List.idxOf_lt_length_iff.2 hm
      have hsmall : known.idxOf m < 256 := by omega
      simp only [UInt8.toNat_ofNat', Nat.mod_eq_of_lt hsmall]
      rw [List.getElem?_eq_getElem hlt, List.getElem_idxOf]
    · exact absurd hpos (Nat.lt_irrefl 0)

def sampleIdentity (pid : ℤ) : Identity := ⟨pid, 1, "python.exe", "S-1-5-21"⟩

def sampleChallenge : String := "0123456789abcdef0123456789abcdef0123456789abcdef0123456789abcdef"

/-- A message of the run. -/
def sampleMessage (body : Message) : Message :=
  { body with
    schema_version := some 1
    run_id := some "run"
    profile_digest := some "digest"
    challenge := some sampleChallenge }

def sampleMessages : List Message :=
  [sampleMessage { emptyBody with kind := some "challenge" },
    sampleMessage { emptyBody with command := some "handoff", client := some (sampleIdentity 1) },
    sampleMessage { State.stateBody "ready" with
      guardian := some (sampleIdentity 2), child := some (sampleIdentity 3), run := some "r" },
    sampleMessage { emptyBody with command := some "commit", client := some (sampleIdentity 1) },
    sampleMessage (State.stateBody "committed")]

def sampleSetting : Setting where
  codec := .ofMessages sampleMessages (by decide)
  run_id := "run"
  profile_digest := "digest"
  guardian := sampleIdentity 2
  child := sampleIdentity 3
  run := "r"
  parent := sampleIdentity 1
  normcase s := s

/-- One poll of the guardian's end, and one of the parent's. -/
def sampleServer (count : ℕ) : Act := .slotAdvance 0 (.done count) true true

def sampleParent (count : ℕ) : Act := .parentAdvance (.done count) true

def sampleHandle : Act := .handle true .replaced emptyBody true

/-- A handoff without a fault: greeting, request, readiness, commit and acknowledgement. -/
def sampleActs : List Act :=
  [.listen sampleChallenge, .parentConnect 0 true, sampleServer 0, .transferDown 0 5, sampleServer 0, sampleParent 4,
    sampleParent 1, .transferUp 5, sampleParent 0, sampleServer 4, sampleServer 1, sampleHandle, .ready true true,
    .slotAdvance 0 (.error 995) true true, .transferDown 0 5, sampleServer 0, sampleParent 4, sampleParent 1,
    .transferUp 5, sampleParent 0, sampleServer 4, sampleServer 1, sampleHandle, .transferDown 0 5, sampleServer 0,
    sampleParent 4, sampleParent 1]

theorem handoff_all_or_nothing_sample :
    let s := run (step sampleSetting) init sampleActs
    s.parent.outcome = some .committed ∧ s.written ∧ s.commits ≠ [] := by
  have hs : (run (step sampleSetting) init sampleActs).parent.outcome = some .committed := by decide +kernel
  obtain ⟨-, hwritten, -, -, -, -, -, hacknowledged⟩ := handoff_all_or_nothing sampleSetting sampleActs
  generalize run (step sampleSetting) init sampleActs = s at *
  exact ⟨hs, hacknowledged hs, hwritten.1 (hacknowledged hs)⟩

end StrixAlloy.Handoff

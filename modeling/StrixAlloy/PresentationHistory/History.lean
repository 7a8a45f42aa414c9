import StrixAlloy.PresentationHistory.Prefix

/-!
# Producer and bridge

The outbox of the native process and the lane of the bridge side by side. The publisher of the outbox
(`Dialog.publish_presentation_history`) is among the requests of the lane, and answers as it likes.
-/

namespace StrixAlloy.PresentationHistory

open Runs

namespace Session

variable {ι α : Type} {s : Session ι α}

theorem posts_eq (h : Inv s) : s.posts = (List.range' 1 s.posts.length).map fun n => (s.owner, n) := by
  have hlen : s.posts.length = s.attempts.length := List.length_map _
  calc s.posts = s.attempts.map fun a => (s.owner, a.sequence) := by
        apply List.map_congr_left
        intro a ha
        rw [(h.owner a ha).1]
    _ = (s.attempts.map Attempt.sequence).map fun n => (s.owner, n) := by
        rw [List.map_map]
        rfl
    _ = (List.range' 1 s.posts.length).map fun n => (s.owner, n) := by rw [h.numbered, hlen]

theorem rest_finish (t : ℕ) (accepted : Bool) : (s.finish t accepted).rest = s.rest := by
  unfold finish
  dsimp only
  split
  · rfl
  · rfl

theorem rest_claim (h : ℕ) (e : Event CodePoint) (requestId : PyStr) : (s.claim h e requestId).rest = s.rest := by
  unfold claim
  dsimp only
  split
  · rfl
  · rfl

variable [DecidableEq ι]

theorem rest_publish (sha256 : Sha256) (h : ℕ) (data : Value CodePoint) (requestId : PyStr) :
    (s.publish sha256 h data requestId).rest = s.rest := by
  unfold publish
  split
  · split
    · rfl
    · rfl
  split
  · split
    · rfl
    · exact rest_claim h _ _
  · rfl

/-- No event of the lane changes the rest of the session. -/
theorem rest_step (sha256 : Sha256) (maxAge : ℕ) {e : LaneEvent ι α} (he : e.ofLane) :
    (s.step sha256 maxAge e).rest = s.rest := by
  unfold step
  cases e with
  | request =>
    dsimp only
    split
    · rfl
    · rfl
  | body =>
    dsimp only
    split
    · rfl
    · rfl
    · rfl
  | acquire h =>
    dsimp only
    split
    · split
      · unfold enter
        dsimp only
        split
        · rfl
        split
        · rfl
        split
        · rfl
        · exact rest_publish sha256 h _ _
      · rfl
    · rfl
  | granted h =>
    dsimp only
    split
    · exact rest_publish sha256 h _ _
    · exact rest_publish sha256 h _ _
    · rfl
    · rfl
  | stored =>
    dsimp only
    split
    · split
      · rfl
      · rfl
    · rfl
  | interrupt =>
    dsimp only
    split
    · rfl
    · rfl
    · rfl
  | queue =>
    dsimp only
    unfold queue
    split
    · rfl
    split
    · rfl
    · rfl
  | attest t =>
    dsimp only
    split
    · unfold attest
      split
      · exact rest_finish t false
      · split
        · exact rest_finish t false
        · rfl
    · rfl
  | attested t =>
    dsimp only
    split
    · unfold attested
      split
      · split
        · exact rest_finish t false
        · rfl
      · exact rest_finish t false
    · rfl
  | attestCancelled t =>
    dsimp only
    split
    · rfl
    · exact rest_finish t false
    · rfl
  | retire => rfl
  | tick => rfl
  | create =>
    dsimp only
    split
    · rfl
    split
    · rfl
    · rfl
  | life => cases he

end Session

/-! ## The two together -/

structure System (ι α : Type) where
  outbox : Outbox
  session : Session ι α

inductive Input (ι α : Type) where
  | producer (m : Outbox.Move)
  | bridge (e : LaneEvent ι α)

variable {ι α : Type} [DecidableEq ι]

/-- A step of one of them; `waits` says whether the outbox asks for readiness. -/
def System.step (waits : Bool) (sha256 : Sha256) (maxAge : ℕ) (s : System ι α) : Input ι α → System ι α
  | .producer m => { s with outbox := s.outbox.step waits sha256 m }
  | .bridge e => { s with session := s.session.step sha256 maxAge e }

def System.init (owner_id : PyStr) (identity : ι) (rest : α) : System ι α :=
  ⟨.init owner_id, .init identity rest⟩

/-- What the outbox sees of an interleaving. -/
def moves (is : List (Input ι α)) : List Outbox.Move :=
  is.filterMap fun i => match i with
    | .producer m => some m
    | .bridge _ => none

omit [DecidableEq ι] in
theorem moves_append (is js : List (Input ι α)) : moves (is ++ js) = moves is ++ moves js :=
  List.filterMap_append

theorem run_outbox (waits : Bool) (sha256 : Sha256) (maxAge : ℕ) (s : System ι α) (is : List (Input ι α)) :
    (run (System.step waits sha256 maxAge) s is).outbox =
      run (Outbox.step waits sha256) s.outbox (moves is) := by
  induction is generalizing s with
  | nil => rfl
  | cons i is ih =>
    rw [run_cons, ih]
    cases i with
    | producer => rfl
    | bridge => rfl

/-- In every interleaving: the POSTs of the session carry one owner and the numbers from 1 on; once the lane was
retired, the session ends, an attempt had no valid receipt or the grant has expired, none follows; the publisher
gets the accepted events in their order, each once, and none after an attempt that failed; and no step of the
outbox or the lane changes the session's requests, busy state, controls or transcript. -/
theorem presentation_history_prefix {ρ β κ τ : Type} (waits : Bool) (sha256 : Sha256) (maxAge : ℕ)
    (owner_id : PyStr) (identity : ι) (rest : Rest ρ β κ τ) (is : List (Input ι (Rest ρ β κ τ))) :
    let at_ := fun is : List (Input ι (Rest ρ β κ τ)) =>
      run (System.step waits sha256 maxAge) (System.init owner_id identity rest) is
    (∃ owner, (at_ is).session.posts =
      (List.range' 1 (at_ is).session.posts.length).map fun n => (owner, n)) ∧
    (∀ pre post, is = pre ++ post → (at_ pre).session.Closed →
      (at_ is).session.posts = (at_ pre).session.posts) ∧
    ((at_ is).outbox.handed <+: (at_ is).outbox.accepted ∧
      (at_ is).outbox.accepted.map Event.sequence = List.range' 1 (at_ is).outbox.accepted.length ∧
      ∀ pre post, is = pre ++ post → (at_ pre).outbox.unsure →
        (at_ is).outbox.handed = (at_ pre).outbox.handed) ∧
    ∀ pre i post, is = pre ++ i :: post → (∀ e, i = .bridge e → e.ofLane) →
      (at_ (pre ++ [i])).session.rest = (at_ pre).session.rest := by
  intro at_
  have hstep : ∀ (s : System ι (Rest ρ β κ τ)) i, s.session.Inv → (s.step waits sha256 maxAge i).session.Inv := by
    intro s i h
    cases i with
    | producer => exact h
    | bridge e => exact (Session.inv_step sha256 maxAge h e).1
  have hinv : ∀ is, (at_ is).session.Inv :=
    fun is => run_invariant hstep is (Session.inv_init identity rest)
  refine ⟨⟨_, Session.posts_eq (hinv is)⟩, ?_, ?_, ?_⟩
  · rintro pre post rfl hc
    let closed (s : System ι (Rest ρ β κ τ)) : Prop :=
      s.session.Inv ∧ s.session.Closed ∧ s.session.posts = (at_ pre).session.posts
    have hclosed : ∀ (s : System ι (Rest ρ β κ τ)) i, closed s → closed (s.step waits sha256 maxAge i) := by
      rintro s i ⟨h, hcl, hp⟩
      cases i with
      | producer => exact ⟨h, hcl, hp⟩
      | bridge e =>
        obtain ⟨hcl', hp'⟩ := Session.closed_step sha256 maxAge h hcl e
        exact ⟨(Session.inv_step sha256 maxAge h e).1, hcl', hp'.trans hp⟩
    have hpost : closed (run (System.step waits sha256 maxAge) (at_ pre) post) :=
      run_invariant hclosed post ⟨hinv pre, hc, rfl⟩
    rw [← run_append] at hpost
    exact hpost.2.2
  · have ho : ∀ is, (at_ is).outbox = run (Outbox.step waits sha256) (.init owner_id) (moves is) :=
      fun is => run_outbox waits sha256 maxAge _ is
    obtain ⟨h1, h2, -, h3⟩ := Outbox.handed_in_order waits sha256 owner_id (moves is)
    rw [ho]
    refine ⟨h1, h2, ?_⟩
    rintro pre post rfl hu
    rw [ho] at hu ⊢
    exact h3 (moves pre) (moves post) (moves_append pre post) hu
  · intro pre i post _ hlane
    have hconcat : at_ (pre ++ [i]) = (at_ pre).step waits sha256 maxAge i := run_concat _ _ _ _
    rw [hconcat]
    cases i with
    | producer => rfl
    | bridge e => exact Session.rest_step sha256 maxAge (hlane e rfl)

end StrixAlloy.PresentationHistory

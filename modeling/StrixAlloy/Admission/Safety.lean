import StrixAlloy.Admission.Owner

/-!
# Safety of the shared slots

What holds in every interleaving. A request follows another one (`Follows`) when a step may turn the
one into the other: a seal, a release and an unexpected task stay. `Sound` is the invariant of the
owner: who holds a role, what was dispatched, and what every answer on its way may rely on. `Effect`
says once what a step can do to a sound state, and the results are case analyses over it.
-/

namespace StrixAlloy.Admission

open List Function

/-! ## Requests -/

/-- What every request keeps by itself. -/
structure Request.Ok (q : Request) : Prop where
  count_once : q.count_attempts ≤ 1
  inference_once : q.inference_attempts ≤ 1
  counted : q.count_valid.isSome → q.count_attempts = 1
  terminal : q.full_terminal_at.isSome → q.inference_attempts = 1
  cleanup : q.cleanup_started → q.inference_attempts = 1
  sealed : q.released_at.isSome → q.sealed
  unexpected : q.unresolved_reason = .unexpectedTask →
    q.inference_attempts = 1 ∧ q.released_at = none ∧ q.leased

/-- The request `q'` may come of `q`: what is final in `q` is kept. -/
structure Request.Follows (q q' : Request) : Prop where
  role : q'.role = q.role
  sealed : q.sealed → q'.sealed
  released : q.released_at.isSome → q'.released_at = q.released_at
  unexpected : q.unresolved_reason = .unexpectedTask → q.inference_attempts = 1 →
    q.released_at = none → q'.unresolved_reason = .unexpectedTask

/-- A change of facts that neither leases, dispatches nor releases. -/
structure Request.Mark (q q' : Request) : Prop extends q.Follows q' where
  ok : q.Ok → q'.Ok
  leased : q'.leased = q.leased
  unreleased : q'.released_at = q.released_at
  counts : q'.count_attempts = q.count_attempts
  inferences : q'.inference_attempts = q.inference_attempts

namespace Request.Mark

variable {q q' q'' : Request} {now : ℕ}

theorem refl (q : Request) : q.Mark q := ⟨⟨rfl, id, fun _ => rfl, fun h _ _ => h⟩, id, rfl, rfl, rfl, rfl⟩

theorem trans (h : q.Mark q') (h' : q'.Mark q'') : q.Mark q'' where
  role := h'.role.trans h.role
  sealed := h'.sealed ∘ h.sealed
  released _ := h'.unreleased.trans h.unreleased
  unexpected hu hi hr := h'.unexpected (h.unexpected hu hi hr) (h.inferences ▸ hi) (h.unreleased ▸ hr)
  ok := h'.ok ∘ h.ok
  leased := h'.leased.trans h.leased
  unreleased := h'.unreleased.trans h.unreleased
  counts := h'.counts.trans h.counts
  inferences := h'.inferences.trans h.inferences

/-- An unexpected task is noted of a leased request that has sent its inference. -/
theorem note {reason : Unresolved} (h : reason = .unexpectedTask →
    q.inference_attempts = 1 ∧ q.released_at = none ∧ q.leased) : q.Mark (q.note reason) where
  role := rfl
  sealed := id
  released _ := rfl
  unexpected hu _ _ := by simp [hu]
  ok hq := by
    refine { hq with unexpected := fun hu => ?_ }
    rw [note_unresolved_reason] at hu
    split_ifs at hu with hold
    · exact hq.unexpected hold
    · exact h hu
  leased := rfl
  unreleased := rfl
  counts := rfl
  inferences := rfl

theorem note_of_ne {reason : Unresolved} (h : reason ≠ .unexpectedTask) : q.Mark (q.note reason) :=
  note fun e => absurd e h

theorem retire : q.Mark (q.retire now) :=
  ⟨⟨rfl, fun _ => rfl, fun _ => rfl, fun h _ _ => h⟩, fun hq => { hq with sealed := fun _ => rfl }, rfl, rfl,
    rfl, rfl⟩

theorem revokeForDrain : q.Mark (q.revokeForDrain now) := by
  unfold Request.revokeForDrain
  split_ifs
  · exact ⟨⟨rfl, fun _ => rfl, fun _ => rfl, fun h _ _ => h⟩, fun hq => { hq with sealed := fun _ => rfl }, rfl,
      rfl, rfl, rfl⟩
  · exact retire

theorem probed (kind : Kind) : q.Mark (q.probed kind) :=
  ⟨⟨rfl, id, fun _ => rfl, fun h _ _ => h⟩, fun hq => { hq with }, rfl, rfl, rfl, rfl⟩

theorem worker (b : Bool) : q.Mark { q with worker_outstanding := b } :=
  ⟨⟨rfl, id, fun _ => rfl, fun h _ _ => h⟩, fun hq => { hq with }, rfl, rfl, rfl, rfl⟩

theorem called (kind : Kind) : q.Mark (q.called kind) :=
  ⟨⟨rfl, id, fun _ => rfl, fun h _ _ => h⟩, fun hq => { hq with }, rfl, rfl, rfl, rfl⟩

/-- The answer to the count is noted once the count was sent. -/
theorem answered {n : ℕ} (h : q.count_attempts = 1) : q.Mark (q.answered n) :=
  ⟨⟨rfl, id, fun _ => rfl, fun h _ _ => h⟩, fun hq => { hq with counted := fun _ => h }, rfl, rfl, rfl, rfl⟩

/-- The terminal of the inference is noted once it was sent. -/
theorem completed (h : q.inference_attempts = 1) : q.Mark (q.completed now) :=
  ⟨⟨rfl, id, fun _ => rfl, fun h _ _ => h⟩, fun hq => { hq with terminal := fun _ => h }, rfl, rfl, rfl, rfl⟩

theorem failed {failure : Failure} (h : failure = .invalidCount → q.count_attempts = 1) :
    q.Mark (q.failed now failure) := by
  unfold Request.failed
  have hvalid : q.Mark (if failure = .invalidCount then { q with count_valid := some false } else q) := by
    split_ifs with hf
    · exact ⟨⟨rfl, id, fun _ => rfl, fun h _ _ => h⟩, fun hq => { hq with counted := fun _ => h hf }, rfl, rfl,
        rfl, rfl⟩
    · exact refl q
  refine hvalid.trans (.trans ?_ (worker false))
  by_cases hkept : failure = .contextBudget ∨ failure = .proposal
  · rw [if_pos hkept]
    exact refl _
  · rw [if_neg hkept]
    exact retire

theorem unresolve (h : q.inference_attempts = 1) : q.Mark q.unresolve := by
  unfold Request.unresolve
  have hnoted : q.Mark (if q.unresolved_reason = .none then q.note .releaseUnproved else q) := by
    split_ifs
    · exact note_of_ne (by simp)
    · exact refl q
  refine hnoted.trans ?_
  have hinference := hnoted.inferences.trans h
  generalize (if q.unresolved_reason = .none then q.note .releaseUnproved else q) = q' at hinference ⊢
  dsimp only
  split_ifs
  · exact refl q'
  · exact ⟨⟨rfl, id, fun _ => rfl, fun h _ _ => h⟩, fun hq => { hq with cleanup := fun _ => hinference }, rfl,
      rfl, rfl, rfl⟩

theorem observedBusy {task : Option ℤ} : q.Mark (q.observedBusy now task) :=
  (note_of_ne (by simp)).trans
    ⟨⟨rfl, id, fun _ => rfl, fun h _ _ => h⟩, fun hq => { hq with }, rfl, rfl, rfl, rfl⟩

end Request.Mark

namespace Request

variable {q : Request} {now : ℕ}

theorem fresh_ok (role : Role) (deadline : ℕ) : (fresh role deadline).Ok := by
  constructor <;> simp [fresh]

theorem Ok.take (h : q.Ok) : ({ q with leased := true } : Request).Ok :=
  { h with unexpected := fun hu => ⟨(h.unexpected hu).1, (h.unexpected hu).2.1, rfl⟩ }

theorem Ok.dispatched (h : q.Ok) (phase : Phase) : (q.dispatched phase).Ok := by
  have hcount := h.count_once
  have hinference := h.inference_once
  cases phase with
  | count =>
    refine { h with count_once := ?_, counted := fun _ => rfl }
    simp
  | inference =>
    refine { h with
      inference_once := ?_, terminal := fun _ => rfl, cleanup := fun _ => rfl
      unexpected := fun hu => ⟨rfl, (h.unexpected hu).2⟩ }
    simp

/-- A request is released before its inference, or without an unexpected task. -/
theorem Follows.release {basis : Basis} (h : q.inference_attempts = 0 ∨ q.unresolved_reason ≠ .unexpectedTask) :
    q.Follows (q.release now basis) := by
  unfold Request.release
  split_ifs with hr
  · exact (Mark.refl q).toFollows
  · refine ⟨rfl, fun _ => rfl, fun h => absurd h hr, fun hu hi _ => ?_⟩
    rcases h with h | h
    · omega
    · exact absurd hu h

theorem Ok.release {basis : Basis} (h : q.Ok) : (q.release now basis).Ok := by
  unfold Request.release
  split_ifs with hr
  · exact h
  · exact { h with sealed := fun _ => rfl, unexpected := fun hu => by cases hu }

@[simp]
theorem release_released (basis : Basis) : (q.release now basis).released_at.isSome := by
  unfold Request.release
  split_ifs with hr
  · exact hr
  · rfl

theorem release_role (basis : Basis) : (q.release now basis).role = q.role := by
  unfold Request.release
  split_ifs <;> rfl

theorem release_attempts (basis : Basis) (phase : Phase) :
    (q.release now basis).attempts phase = q.attempts phase := by
  unfold Request.release
  split_ifs <;> cases phase <;> rfl

end Request

/-! ## The invariant of the owner -/

/-- What the stage of a transaction says about its request. -/
def Stage.Reached (stage : Stage) (q : Request) : Prop :=
  (stage ≠ .prepared → q.count_attempts = 1) ∧ (stage = .inferring → q.inference_attempts = 1)

/-- The invariant of the owner. -/
structure Sound (s : State) : Prop where
  ok : ∀ r, (s.request r).Ok
  /-- The role of an unreleased lease is held by its request. -/
  owner : ∀ r, (s.request r).leased → (s.request r).released_at = none →
    s.roles (s.request r).role = some r
  holder : ∀ role r, s.roles role = some r → (s.request r).leased ∧ (s.request r).role = role
  sent : ∀ r phase, s.wire.count (r, phase) = (s.request r).attempts phase
  staged : ∀ t ∈ s.transactions, t.stage.Reached (s.request t.request)
  /-- A slot is probed for a request that has sent its inference. -/
  probed : ∀ p ∈ s.probes, ∀ r, p.request = some r → (s.request r).inference_attempts = 1

/-- A step changes the requests, the roles and the wire as given, and what is on its way stays or may
rely on the requests. -/
structure Framed (s s' : State) (requests : ℕ → Request) (roles : Role → Option ℕ)
    (wire : List (ℕ × Phase)) : Prop where
  request : s'.request = requests
  roles : s'.roles = roles
  wire : s'.wire = wire
  transactions : ∀ t ∈ s'.transactions, t ∈ s.transactions ∨ t.stage.Reached (requests t.request)
  probes : ∀ p ∈ s'.probes, p ∈ s.probes ∨ ∀ r, p.request = some r → (requests r).inference_attempts = 1

/-- The slot of a request is observed idle, by a probe that was sent at or after a witness of its
inference, while nothing unexpected was seen. -/
def Proved (s : State) (e : Event) (r : ℕ) : Prop :=
  ∃ i slots p, e = .observe i slots ∧ s.probes[i]? = some p ∧ p.request = some r ∧
    (slots (s.request r).role).busy = false ∧ (s.request r).proved p.sent_at ∧
    (s.request r).unresolved_reason ≠ .unexpectedTask

/-- What a step can do. -/
inductive Effect (s : State) (e : Event) (s' : State) : Prop where
  /-- Facts of one request change. -/
  | mark (r : ℕ) (q : Request) (hq : (s.request r).Mark q)
      (hs : Framed s s' (update s.request r q) s.roles s.wire)
  /-- A free role is taken. -/
  | take (r : ℕ) (hfree : ∀ p, s.roles (s.request r).role = some p → (s.request p).released_at.isSome)
      (hs : Framed s s' (update s.request r { s.request r with leased := true })
        (update s.roles (s.request r).role (some r)) s.wire)
  /-- A request is sent. -/
  | dispatch (r : ℕ) (phase : Phase) (hmay : (s.request r).mayDispatch s.now s.invalid phase)
      (hs : Framed s s' (update s.request r ((s.request r).dispatched phase)) s.roles
        (s.wire ++ [(r, phase)]))
  /-- A lease is released. -/
  | release (r : ℕ) (basis : Basis) (hwhy : (s.request r).inference_attempts = 0 ∨ Proved s e r)
      (hs : Framed s s' (update s.request r ((s.request r).release s.now basis)) s.roles s.wire)

/-- A fact of the requests that a change of one of them keeps. -/
theorem fact_update {α : Type} {s : State} {r : ℕ} {q : Request} (f : Request → α) (hf : f q = f (s.request r))
    (w : ℕ) :
    f (update s.request r q w) = f (s.request w) := by
  by_cases hw : w = r
  · rw [hw, update_self, hf]
  · rw [update_of_ne hw]

namespace Sound

variable {s s' : State} {e : Event} (h : Sound s)
include h

/-- What was sent once is relied on still. -/
theorem of_kept {requests : ℕ → Request} {roles : Role → Option ℕ} {wire : List (ℕ × Phase)}
    (hs : Framed s s' requests roles wire)
    (hkeep : ∀ w phase, (s.request w).attempts phase = 1 → (requests w).attempts phase = 1) :
    (∀ t ∈ s'.transactions, t.stage.Reached (s'.request t.request)) ∧
      ∀ p ∈ s'.probes, ∀ r, p.request = some r → (s'.request r).inference_attempts = 1 := by
  rw [hs.request]
  constructor
  · intro t ht
    rcases hs.transactions t ht with ht | ht
    · obtain ⟨hcount, hinference⟩ := h.staged t ht
      exact ⟨fun hne => hkeep _ .count (hcount hne), fun he => hkeep _ .inference (hinference he)⟩
    · exact ht
  · intro p hp w hw
    rcases hs.probes p hp with hp | hp
    · exact hkeep w .inference (h.probed p hp w hw)
    · exact hp w hw

/-- A step that takes no role and sends nothing keeps the invariant. -/
theorem of_framed {r : ℕ} {q : Request} (hok : q.Ok) (hrole : q.role = (s.request r).role)
    (hleased : q.leased = (s.request r).leased)
    (hreleased : (s.request r).released_at.isSome → q.released_at.isSome)
    (hattempts : ∀ phase, q.attempts phase = (s.request r).attempts phase)
    (hs : Framed s s' (update s.request r q) s.roles s.wire) : Sound s' := by
  have hsent : ∀ w phase, (update s.request r q w).attempts phase = (s.request w).attempts phase :=
    fun w phase => fact_update (·.attempts phase) (hattempts phase) w
  obtain ⟨hstaged, hprobed⟩ := h.of_kept hs fun w phase hone => (hsent w phase).trans hone
  obtain ⟨hrequest, hroles, hwire, -, -⟩ := hs
  constructor
  · intro w
    rw [hrequest]
    by_cases hw : w = r
    · rw [hw, update_self]
      exact hok
    · rw [update_of_ne hw]
      exact h.ok w
  · intro w
    rw [hrequest, hroles]
    by_cases hw : w = r
    · subst hw
      rw [update_self, hrole, hleased]
      intro hl hr
      refine h.owner w hl ?_
      by_contra hne
      have := hreleased (Option.isSome_iff_ne_none.2 hne)
      simp [hr] at this
    · rw [update_of_ne hw]
      exact h.owner w
  · intro role w hw
    rw [hroles] at hw
    obtain ⟨hl, hr⟩ := h.holder role w hw
    rw [hrequest]
    by_cases hw : w = r
    · subst hw
      rw [update_self, hrole, hleased]
      exact ⟨hl, hr⟩
    · rw [update_of_ne hw]
      exact ⟨hl, hr⟩
  · intro w phase
    rw [hwire, h.sent w phase, hrequest, hsent]
  · exact hstaged
  · exact hprobed

/-- A request that takes a free role is its only holder. -/
theorem of_take {r : ℕ} (hfree : ∀ p, s.roles (s.request r).role = some p → (s.request p).released_at.isSome)
    (hs : Framed s s' (update s.request r { s.request r with leased := true })
      (update s.roles (s.request r).role (some r)) s.wire) : Sound s' := by
  -- the lease is the only fact that changes
  have hfact : ∀ {α : Type} (f : Request → α), f { s.request r with leased := true } = f (s.request r) →
      ∀ w, f (update s.request r { s.request r with leased := true } w) = f (s.request w) := fact_update
  have hrole := hfact Request.role rfl
  have hreleased := hfact Request.released_at rfl
  have hsent := fun w phase => hfact (·.attempts phase) (by cases phase <;> rfl) w
  obtain ⟨hstaged, hprobed⟩ := h.of_kept hs fun w phase hone => (hsent w phase).trans hone
  obtain ⟨hrequest, hroles, hwire, -, -⟩ := hs
  constructor
  · intro w
    rw [hrequest]
    by_cases hw : w = r
    · rw [hw, update_self]
      exact (h.ok r).take
    · rw [update_of_ne hw]
      exact h.ok w
  · intro w
    rw [hrequest, hroles, hrole, hreleased]
    intro hl hr
    by_cases hw : w = r
    · rw [hw, update_self]
    · rw [update_of_ne hw] at hl
      have hold := h.owner w hl hr
      -- another unreleased lease of the role would not leave it free
      have hne : (s.request w).role ≠ (s.request r).role := by
        intro he
        have := hfree w (he ▸ hold)
        simp [hr] at this
      rw [update_of_ne hne]
      exact hold
  · intro role w hw
    rw [hroles] at hw
    rw [hrequest, hrole]
    by_cases hrl : role = (s.request r).role
    · subst hrl
      rw [update_self] at hw
      cases hw
      rw [update_self]
      exact ⟨rfl, rfl⟩
    · rw [update_of_ne hrl] at hw
      obtain ⟨hl, hr⟩ := h.holder role w hw
      refine ⟨?_, hr⟩
      by_cases hw : w = r
      · rw [hw, update_self]
      · rw [update_of_ne hw]
        exact hl
  · intro w phase
    rw [hwire, h.sent w phase, hrequest, hsent]
  · exact hstaged
  · exact hprobed

/-- What is dispatched is written to the wire, and was not dispatched before. -/
theorem of_dispatch {r : ℕ} {phase : Phase} (hmay : (s.request r).mayDispatch s.now s.invalid phase)
    (hs : Framed s s' (update s.request r ((s.request r).dispatched phase)) s.roles
      (s.wire ++ [(r, phase)])) : Sound s' := by
  have hfact : ∀ {α : Type} (f : Request → α), f ((s.request r).dispatched phase) = f (s.request r) →
      ∀ w, f (update s.request r ((s.request r).dispatched phase) w) = f (s.request w) := fact_update
  have hrole := hfact Request.role rfl
  have hleased := hfact Request.leased rfl
  have hreleased := hfact Request.released_at rfl
  have hfirst : (s.request r).attempts phase = 0 := by
    simp only [Request.mayDispatch, Bool.and_eq_true, decide_eq_true_eq] at hmay
    exact hmay.1.1.2
  have hattempts : ∀ w other, (update s.request r ((s.request r).dispatched phase) w).attempts other =
      (s.request w).attempts other + if (w, other) = (r, phase) then 1 else 0 := by
    intro w other
    by_cases hw : w = r
    · subst hw
      rw [update_self]
      cases phase <;> cases other <;> simp_all [Request.attempts]
    · rw [update_of_ne hw]
      simp [hw]
  -- what was sent once stays so
  have hkeep : ∀ w other, (s.request w).attempts other = 1 →
      (update s.request r ((s.request r).dispatched phase) w).attempts other = 1 := by
    intro w other hone
    rw [hattempts, hone]
    have : (w, other) ≠ (r, phase) := by
      rintro ⟨⟩
      omega
    rw [if_neg this]
  obtain ⟨hstaged, hprobed⟩ := h.of_kept hs hkeep
  obtain ⟨hrequest, hroles, hwire, -, -⟩ := hs
  constructor
  · intro w
    rw [hrequest]
    by_cases hw : w = r
    · rw [hw, update_self]
      exact (h.ok r).dispatched phase
    · rw [update_of_ne hw]
      exact h.ok w
  · intro w
    rw [hrequest, hroles, hrole, hleased, hreleased]
    exact h.owner w
  · intro role w hw
    rw [hroles] at hw
    rw [hrequest, hrole, hleased]
    exact h.holder role w hw
  · intro w other
    rw [hwire, hrequest, hattempts, count_append, h.sent w other, count_singleton]
    by_cases heq : (w, other) = (r, phase)
    · rw [heq, if_pos rfl, beq_self_eq_true, if_pos rfl]
    · rw [if_neg heq, beq_eq_false_iff_ne.2 (Ne.symm heq)]
      rfl
  · exact hstaged
  · exact hprobed

/-- What a step can do keeps the invariant. -/
theorem of_effect (he : Effect s e s') : Sound s' := by
  cases he with
  | mark r q hq hs =>
    refine h.of_framed (hq.ok (h.ok r)) hq.role hq.leased ?_ ?_ hs
    · rw [hq.unreleased]
      exact id
    · rintro (_ | _)
      · exact hq.counts
      · exact hq.inferences
  | take r hfree hs => exact h.of_take hfree hs
  | dispatch r phase hmay hs => exact h.of_dispatch hmay hs
  | release r basis hwhy hs =>
    refine h.of_framed (h.ok r).release (Request.release_role basis) ?_ (fun _ => ?_) ?_ hs
    · unfold Request.release
      split_ifs <;> rfl
    · exact Request.release_released basis
    · exact Request.release_attempts basis

end Sound

/-! ## The steps have these effects -/

section Effects

variable {s : State} {e : Event}

/-- A step that changes no request. -/
theorem Effect.idle {s' : State} (hrequest : s'.request = s.request) (hroles : s'.roles = s.roles)
    (hwire : s'.wire = s.wire) (ht : ∀ t ∈ s'.transactions, t ∈ s.transactions)
    (hp : ∀ p ∈ s'.probes, p ∈ s.probes ∨ p.request = none) : Effect s e s' := by
  refine .mark 0 (s.request 0) (.refl _) ⟨?_, hroles, hwire, fun t h => .inl (ht t h), fun p h => ?_⟩
  · rw [update_eq_self, hrequest]
  · rcases hp p h with h | h
    · exact .inl h
    · exact .inr fun r hr => by simp [h] at hr

variable {i r : ℕ}

/-- A step that changes facts of one request, and starts nothing. -/
theorem Effect.facts {s' : State} {q : Request} (hq : (s.request r).Mark q)
    (hrequest : s'.request = update s.request r q) (hroles : s'.roles = s.roles) (hwire : s'.wire = s.wire)
    (ht : ∀ t ∈ s'.transactions, t ∈ s.transactions) (hp : ∀ p ∈ s'.probes, p ∈ s.probes) : Effect s e s' :=
  .mark r q hq ⟨hrequest, hroles, hwire, fun t h => .inl (ht t h), fun p h => .inl (hp p h)⟩

theorem effect_modify {f : Request → Request} (hf : (s.request r).Mark (f (s.request r))) :
    Effect s e (s.modify r f) :=
  .facts hf rfl rfl rfl (fun _ h => h) fun _ h => h

theorem effect_leave {a : Acquire} : Effect s e (s.leave i a) :=
  .facts (.worker false) rfl rfl rfl (fun _ h => h) fun _ h => h

theorem effect_attempt {a : Acquire} : Effect s e (s.attempt i a) := by
  unfold State.attempt
  dsimp only
  split_ifs with _ hfree
  · exact effect_leave
  · refine .take a.request ?_ ⟨rfl, rfl, rfl, fun t ht => ?_, fun p hp => .inl hp⟩
    · intro p hp
      simpa [hp] using hfree
    · rcases mem_append.1 ht with ht | ht
      · exact .inl ht
      · obtain rfl := mem_singleton.1 ht
        exact .inr ⟨fun hne => absurd rfl hne, fun he => by cases he⟩
  · exact .idle rfl rfl rfl (fun _ h => h) fun _ h => .inl h
  · exact effect_leave
  · exact effect_leave
  · exact .idle rfl rfl rfl (fun _ h => h) fun _ h => .inl h

theorem effect_fail {t : Transaction} {failure : Failure}
    (h : failure = .invalidCount → (s.request t.request).count_attempts = 1) :
    Effect s e (s.fail i t failure) :=
  .facts (.failed h) rfl rfl rfl (fun _ h => mem_of_mem_eraseIdx h) fun _ h => h

theorem effect_send {t : Transaction} {phase : Phase} {next : Stage}
    (hnext : next.Reached ((s.request t.request).dispatched phase)) : Effect s e (s.send i t phase next) := by
  unfold State.send State.dispatch
  by_cases hmay : (s.request t.request).mayDispatch s.now s.invalid phase
  · rw [if_pos hmay]
    refine .dispatch t.request phase hmay ⟨rfl, rfl, rfl, fun t' ht' => ?_, fun p hp => .inl hp⟩
    rcases mem_or_eq_of_mem_set ht' with ht' | rfl
    · exact .inl ht'
    · refine .inr ?_
      rw [update_self]
      exact hnext
  · rw [if_neg hmay]
    exact effect_fail fun hf => by cases hf

/-- Two changes of one request are one change. -/
theorem modify_modify {f g : Request → Request} :
    ((s.modify r f).modify r g).request = update s.request r (g (f (s.request r))) := by
  simp [State.modify]

theorem effect_counted (h : Sound s) {n : ℕ} {t : Transaction} {closing : Bool} (ht : t ∈ s.transactions)
    (hstage : t.stage = .counting) : Effect s e (s.counted i t n closing) := by
  have hcount : (s.request t.request).count_attempts = 1 := (h.staged t ht).1 (by simp [hstage])
  have hanswered : (s.request t.request).Mark ((s.request t.request).answered n) := .answered hcount
  have hfail : ∀ failure, failure ≠ .invalidCount → Effect s e
      ((s.modify t.request fun q => q.answered n).fail i t failure) := by
    intro failure hne
    refine .facts (hanswered.trans (@Request.Mark.failed _ s.now failure fun hf => absurd hf hne)) ?_ rfl rfl
      (fun _ h => mem_of_mem_eraseIdx h) fun _ h => h
    exact modify_modify (f := fun q => q.answered n) (g := fun q => q.failed s.now failure)
  unfold State.counted
  dsimp only
  split_ifs
  · exact hfail .contextBudget (by simp)
  · exact hfail .unavailable (by simp)
  · refine .mark t.request _ hanswered ⟨rfl, rfl, rfl, fun t' ht' => ?_, fun p hp => .inl hp⟩
    rcases mem_or_eq_of_mem_set ht' with ht' | rfl
    · exact .inl ht'
    · refine .inr ?_
      rw [update_self]
      exact ⟨fun _ => hcount, fun he => by cases he⟩
  · exact hfail .timeout (by simp)

theorem effect_completed (h : Sound s) {t : Transaction} (ht : t ∈ s.transactions) (hstage : t.stage = .inferring) :
    Effect s e (s.completed i t) := by
  unfold State.completed
  split_ifs
  · exact .facts (.completed ((h.staged t ht).2 hstage)) rfl rfl rfl
      (fun _ h => mem_of_mem_eraseIdx h) fun _ h => h
  · exact effect_fail fun hf => by cases hf

theorem effect_finish (h : Sound s) : Effect s e (s.finish r) := by
  unfold State.finish
  dsimp only
  split_ifs with hlease hzero
  · exact .idle rfl rfl rfl (fun _ h => h) fun _ h => .inl h
  · exact .release r _ (.inl hzero) ⟨rfl, rfl, rfl, fun _ h => .inl h, fun _ h => .inl h⟩
  · have hone := (h.ok r).inference_once
    exact effect_modify (.unresolve (by omega))

/-- A slot is probed only for a request that has sent its inference. -/
theorem Sound.inferred_of_calls (h : Sound s) {kind : Kind} (hcalls : s.calls r kind) :
    (s.request r).inference_attempts = 1 := by
  unfold State.calls at hcalls
  cases kind with
  | cleanup =>
    simp only [Bool.or_eq_true, Bool.and_eq_true] at hcalls
    rcases hcalls with hterminal | hcleanup
    · exact (h.ok r).terminal hterminal
    · exact (h.ok r).cleanup hcleanup.1.1
  | witness =>
    simp only [Bool.and_eq_true, decide_eq_true_eq] at hcalls
    exact hcalls.1.1.1.1.2

theorem effect_probe (h : Sound s) {kind : Kind} {guarded : Bool} : Effect s e (s.probe r kind guarded) := by
  unfold State.probe
  split_ifs with hcalls hsent
  · have hinference := h.inferred_of_calls hcalls
    refine .mark r _ (.trans (.called kind) (.probed kind)) ⟨rfl, rfl, rfl, fun _ h => .inl h, ?_⟩
    intro p hp
    rcases mem_append.1 hp with hp | hp
    · exact .inl hp
    · obtain rfl := mem_singleton.1 hp
      refine .inr fun w hw => ?_
      cases hw
      rw [update_self]
      exact hinference
  · exact effect_modify (.trans (.called kind) (.note_of_ne (by simp)))
  · exact .idle rfl rfl rfl (fun _ h => h) fun _ h => .inl h

theorem effect_startup : Effect s e s.startup := by
  unfold State.startup
  split_ifs
  · exact .idle rfl rfl rfl (fun _ h => h) fun _ h => .inl h
  · refine .idle rfl rfl rfl (fun _ h => h) fun p hp => ?_
    rcases mem_append.1 hp with hp | hp
    · exact .inl hp
    · obtain rfl := mem_singleton.1 hp
      exact .inr rfl

/-- The answer to a probe of a request is applied. -/
theorem effect_applySlots (h : Sound s) {slot : Slot} {sent_at : ℕ}
    (hinference : (s.request r).inference_attempts = 1)
    (hproved : slot.busy = false → (s.request r).proved sent_at → (s.request r).unresolved_reason ≠ .unexpectedTask →
      Proved s e r) :
    Effect s e (s.applySlots r slot sent_at) := by
  unfold State.applySlots
  dsimp only
  split_ifs with hinvalid hheld hreason hbusy hunexpected hother hwitness
  · exact effect_modify (.note_of_ne (by simp))
  · exact .idle rfl rfl rfl (fun _ h => h) fun _ h => .inl h
  · exact .idle rfl rfl rfl (fun _ h => h) fun _ h => .inl h
  all_goals
    have hrole : s.roles (s.request r).role = some r := by
      by_contra hne
      exact hheld (.inl hne)
    have hunreleased : (s.request r).released_at = none := by
      by_contra hne
      exact hheld (.inr (Option.isSome_iff_ne_none.2 hne))
    have hleased := (h.holder _ _ hrole).1
  · exact effect_modify (.note fun _ => ⟨hinference, hunreleased, hleased⟩)
  · exact effect_modify .observedBusy
  · exact effect_modify (.note fun _ => ⟨hinference, hunreleased, hleased⟩)
  · exact .release r (if (s.request r).full_terminal_at.isSome then .fullTerminalThenIdle else .activeThenIdle)
      (.inr (hproved (by simpa using hbusy) hwitness hreason))
      ⟨rfl, rfl, rfl, fun _ h => .inl h, fun _ h => .inl h⟩
  · exact effect_modify (.note_of_ne (by simp))

/-- A probe that ends leaves fewer on their way. -/
theorem Effect.ends {s' : State} (he : Effect s e s') (i : ℕ) :
    Effect s e { s' with probes := s'.probes.eraseIdx i } := by
  have hframed : ∀ {requests roles wire}, Framed s s' requests roles wire →
      Framed s { s' with probes := s'.probes.eraseIdx i } requests roles wire := fun hs =>
    { hs with probes := fun p hp => hs.probes p (mem_of_mem_eraseIdx hp) }
  cases he with
  | mark r q hq hs => exact .mark r q hq (hframed hs)
  | take r hfree hs => exact .take r hfree (hframed hs)
  | dispatch r phase hmay hs => exact .dispatch r phase hmay (hframed hs)
  | release r basis hwhy hs => exact .release r basis hwhy (hframed hs)

theorem effect_observe (h : Sound s) {p : Probe} {slots : Role → Slot} (hp : s.probes[i]? = some p) :
    Effect s (.observe i slots) (s.observe i p slots) := by
  refine Effect.ends ?_ i
  unfold State.apply
  cases hr : p.request with
  | none =>
    split_ifs
    · exact .idle rfl rfl rfl (fun _ h => h) fun _ h => .inl h
    · exact .idle rfl rfl rfl (fun _ h => h) fun _ h => .inl h
  | some r =>
    refine effect_applySlots h (h.probed p (mem_of_getElem? hp) r hr) fun hbusy hproved hreason => ?_
    exact ⟨i, slots, p, rfl, hp, hr, hbusy, hproved, hreason⟩

theorem effect_lose {p : Probe} : Effect s e (s.lose i p) := by
  refine Effect.ends ?_ i
  cases p.request with
  | none => exact .idle rfl rfl rfl (fun _ h => h) fun _ h => .inl h
  | some => exact effect_modify (.note_of_ne (by simp))

/-- What is done with a transaction in its stage. -/
theorem effect_inStage {stage : Stage} {f : Transaction → State}
    (hf : ∀ t ∈ s.transactions, t.stage = stage → Effect s e (f t)) : Effect s e (s.inStage i stage f) := by
  unfold State.inStage
  cases ht : s.transactions[i]? with
  | none => exact .idle rfl rfl rfl (fun _ h => h) fun _ h => .inl h
  | some t =>
    dsimp only
    split_ifs with hstage
    · exact hf t (mem_of_getElem? ht) hstage
    · exact .idle rfl rfl rfl (fun _ h => h) fun _ h => .inl h

/-- Every step has one of the effects. -/
theorem step_effect (h : Sound s) (e : Event) : Effect s e (step s e) := by
  have hidle : ∀ e, Effect s e s := fun e => .idle rfl rfl rfl (fun _ h => h) fun _ h => .inl h
  cases e with
  | tick => exact .idle rfl rfl rfl (fun _ h => h) fun _ h => .inl h
  | invalidate => exact .idle rfl rfl rfl (fun _ h => h) fun _ h => .inl h
  | startup => exact effect_startup
  | enter r role =>
    show Effect s _ (s.enter r role)
    unfold State.enter
    split_ifs
    · exact .idle rfl rfl rfl (fun _ h => h) fun _ h => .inl h
    · exact hidle _
  | attempt i =>
    show Effect s _ ((s.acquiring[i]?).elim s (s.attempt i))
    cases s.acquiring[i]? with
    | none => exact hidle _
    | some => exact effect_attempt
  | leave i =>
    show Effect s _ ((s.acquiring[i]?).elim s (s.leave i))
    cases s.acquiring[i]? with
    | none => exact hidle _
    | some => exact effect_leave
  | dispatchCount =>
    refine effect_inStage fun t _ _ => effect_send ⟨fun _ => rfl, fun he => by cases he⟩
  | counted => exact effect_inStage fun t ht hstage => effect_counted h ht hstage
  | dispatchInference =>
    refine effect_inStage fun t ht hstage => effect_send ⟨fun _ => ?_, fun _ => rfl⟩
    exact (h.staged t ht).1 (by simp [hstage])
  | completed => exact effect_inStage fun t ht hstage => effect_completed h ht hstage
  | fail i failure =>
    show Effect s _ ((s.transactions[i]?).elim s fun t =>
      if failure = .invalidCount ∧ t.stage ≠ .counting then s else s.fail i t failure)
    cases ht : s.transactions[i]? with
    | none => exact hidle _
    | some t =>
      dsimp only [Option.elim]
      split_ifs with hstage
      · exact hidle _
      · refine effect_fail fun hf => (h.staged t (mem_of_getElem? ht)).1 fun hprepared => ?_
        exact hstage ⟨hf, by simp [hprepared]⟩
  | retire => exact effect_modify .retire
  | revokeForDrain => exact effect_modify .revokeForDrain
  | finish => exact effect_finish h
  | probe => exact effect_probe h
  | observe i slots =>
    show Effect s _ ((s.probes[i]?).elim s fun p => s.observe i p slots)
    cases hp : s.probes[i]? with
    | none => exact hidle _
    | some => exact effect_observe h hp
  | lose i =>
    show Effect s _ ((s.probes[i]?).elim s (s.lose i))
    cases s.probes[i]? with
    | none => exact hidle _
    | some => exact effect_lose

end Effects

/-- The owner is sound after any steps. -/
theorem after_sound (role : ℕ → Role) (deadline : ℕ → ℕ) (events : List Event) :
    Sound (after role deadline events) := by
  refine Runs.run_invariant (fun s e h => h.of_effect (step_effect h e)) events ?_
  constructor
  · exact fun r => Request.fresh_ok _ _
  · intro r hleased
    cases hleased
  · intro role r hr
    cases hr
  · rintro r (_ | _) <;> rfl
  · intro t ht
    cases ht
  · intro p hp
    cases hp

/-! ## What is final -/

section Final

variable {s s' : State} {e : Event}

/-- A request comes of what it was. -/
theorem Effect.follows (he : Effect s e s') (w : ℕ) :
    (s.request w).Follows (s'.request w) := by
  have hupdate : ∀ {r : ℕ} {q : Request}, s'.request = update s.request r q →
      (s.request r).Follows q → (s.request w).Follows (s'.request w) := by
    intro r q hrequest hq
    rw [hrequest]
    by_cases hw : w = r
    · subst hw
      rw [update_self]
      exact hq
    · rw [update_of_ne hw]
      exact (Request.Mark.refl _).toFollows
  cases he with
  | mark r q hq hs => exact hupdate hs.request hq.toFollows
  | take r hfree hs => exact hupdate hs.request ⟨rfl, id, fun _ => rfl, fun h _ _ => h⟩
  | dispatch r phase hmay hs => exact hupdate hs.request ⟨rfl, id, fun _ => rfl, fun h _ _ => h⟩
  | release r basis hwhy hs =>
    refine hupdate hs.request (Request.Follows.release ?_)
    rcases hwhy with hzero | ⟨_, _, _, _, _, _, _, _, hreason⟩
    · exact .inl hzero
    · exact .inr hreason

/-- What a step writes to the wire was allowed. -/
theorem Effect.wire (he : Effect s e s') :
    s'.wire = s.wire ∨ ∃ r phase, (s.request r).mayDispatch s.now s.invalid phase ∧
      s'.wire = s.wire ++ [(r, phase)] := by
  cases he with
  | mark r q hq hs => exact .inl hs.wire
  | take r hfree hs => exact .inl hs.wire
  | dispatch r phase hmay hs => exact .inr ⟨r, phase, hmay, hs.wire⟩
  | release r basis hwhy hs => exact .inl hs.wire

/-- A sealed request dispatches nothing. -/
theorem Effect.wire_of_sealed (he : Effect s e s') {r : ℕ} (hsealed : (s.request r).sealed) (phase : Phase) :
    s'.wire.count (r, phase) = s.wire.count (r, phase) := by
  rcases he.wire with hwire | ⟨w, other, hmay, hwire⟩
  · rw [hwire]
  · have hne : (w, other) ≠ (r, phase) := by
      rintro ⟨⟩
      simp [Request.mayDispatch, hsealed] at hmay
    rw [hwire, count_append, count_singleton, beq_eq_false_iff_ne.2 hne]
    rfl

/-- A lease that has sent its inference is released by an observation that proves its end. -/
theorem Effect.proved (he : Effect s e s') {r : ℕ} (hinference : (s.request r).inference_attempts = 1)
    (hunreleased : (s.request r).released_at = none) (hreleased : (s'.request r).released_at.isSome) :
    Proved s e r := by
  have hupdate : ∀ {w : ℕ} {q : Request}, s'.request = update s.request w q →
      q.released_at = (s.request w).released_at → Proved s e r := by
    intro w q hrequest hq
    rw [hrequest] at hreleased
    by_cases hw : r = w
    · subst hw
      rw [update_self, hq, hunreleased] at hreleased
      cases hreleased
    · rw [update_of_ne hw, hunreleased] at hreleased
      cases hreleased
  cases he with
  | mark w q hq hs => exact hupdate hs.request hq.unreleased
  | take w hfree hs => exact hupdate hs.request rfl
  | dispatch w phase hmay hs => exact hupdate hs.request rfl
  | release w basis hwhy hs =>
    by_cases hw : r = w
    · subst hw
      exact hwhy.resolve_left (by omega)
    · rw [hs.request, update_of_ne hw, hunreleased] at hreleased
      cases hreleased

/-- A release is final in every run, and nothing is dispatched after it. -/
theorem released_final (h : Sound s) {r : ℕ} (hreleased : (s.request r).released_at.isSome)
    (events : List Event) (phase : Phase) :
    (Runs.run step s events).wire.count (r, phase) = s.wire.count (r, phase) := by
  have hrun := @Runs.run_invariant _ _ step
    (fun s' => Sound s' ∧ (s'.request r).released_at.isSome ∧
      s'.wire.count (r, phase) = s.wire.count (r, phase)) ?_ s events ⟨h, hreleased, rfl⟩
  · exact hrun.2.2
  · rintro s' e ⟨hsound, hr, hcount⟩
    have he := step_effect hsound e
    refine ⟨hsound.of_effect he, ?_, ?_⟩
    · rw [(he.follows r).released hr]
      exact hr
    · rw [he.wire_of_sealed ((hsound.ok r).sealed hr) phase]
      exact hcount

/-- An unexpected task is final in every run: the lease is never released. -/
theorem unexpected_final (h : Sound s) {r : ℕ} (hu : (s.request r).unresolved_reason = .unexpectedTask)
    (events : List Event) :
    let s' := Runs.run step s events
    (s'.request r).unresolved_reason = .unexpectedTask ∧ (s'.request r).released_at = none ∧
      s'.roles (s'.request r).role = some r := by
  have hrun := @Runs.run_invariant _ _ step
    (fun s' => Sound s' ∧ (s'.request r).unresolved_reason = .unexpectedTask) ?_ s events ⟨h, hu⟩
  · obtain ⟨hsound, hreason⟩ := hrun
    obtain ⟨-, hunreleased, hleased⟩ := (hsound.ok r).unexpected hreason
    exact ⟨hreason, hunreleased, hsound.owner r hleased hunreleased⟩
  · rintro s' e ⟨hsound, hreason⟩
    obtain ⟨hinference, hunreleased, -⟩ := (hsound.ok r).unexpected hreason
    have he := step_effect hsound e
    exact ⟨hsound.of_effect he, (he.follows r).unexpected hreason hinference hunreleased⟩

end Final

/-- Safety of the shared slots, for all requests and after any steps: a role has one unreleased lease at
most; a request dispatches one count and one inference at most; the inference is dispatched after a valid
count within the budget; a released request is sealed and dispatches nothing in any continuation; a lease
that has sent its inference is released only by an idle observation that was sent at or after its terminal
or its active witness; and an unexpected task is never forgotten, nor its lease released. -/
theorem slots_safe (role : ℕ → Role) (deadline : ℕ → ℕ) (events : List Event) :
    let s := after role deadline events
    (∀ r r', (s.request r).leased → (s.request r).released_at = none → (s.request r').leased →
      (s.request r').released_at = none → (s.request r).role = (s.request r').role → r = r') ∧
    (∀ r phase, s.wire.count (r, phase) ≤ 1) ∧
    (∀ e r, s.wire.count (r, .inference) < (step s e).wire.count (r, .inference) →
      s.wire.count (r, .count) = 1 ∧ (s.request r).count_valid = some true ∧
      ∃ n, (s.request r).input_tokens = some n ∧ n ≤ (s.request r).role.budget.input_tokens) ∧
    (∀ r, (s.request r).released_at.isSome → (s.request r).sealed ∧
      ∀ more phase, (Runs.run step s more).wire.count (r, phase) = s.wire.count (r, phase)) ∧
    (∀ e r, (s.request r).inference_attempts = 1 → (s.request r).released_at = none →
      ((step s e).request r).released_at.isSome → Proved s e r) ∧
    (∀ r, (s.request r).unresolved_reason = .unexpectedTask → ∀ more,
      let s' := Runs.run step s more
      (s'.request r).unresolved_reason = .unexpectedTask ∧ (s'.request r).released_at = none ∧
        s'.roles (s'.request r).role = some r) := by
  intro s
  have h : Sound s := after_sound role deadline events
  refine ⟨fun r r' hl hr hl' hr' hrole => ?_, fun r phase => ?_, fun e r hlt => ?_,
    fun r hr => ⟨(h.ok r).sealed hr, released_final h hr⟩, fun e r hi hu hr => (step_effect h e).proved hi hu hr,
    fun r hu => unexpected_final h hu⟩
  · have hheld := h.owner r hl hr
    rw [hrole, h.owner r' hl' hr'] at hheld
    exact (Option.some.inj hheld).symm
  · rw [h.sent r phase]
    cases phase
    · exact (h.ok r).count_once
    · exact (h.ok r).inference_once
  · rcases (step_effect h e).wire with hwire | ⟨w, phase, hmay, hwire⟩
    · rw [hwire] at hlt
      omega
    · -- the step dispatches, and what it dispatches is the inference of `r`
      have heq : (w, phase) = (r, .inference) := by
        by_contra hne
        rw [hwire, count_append, count_singleton, beq_eq_false_iff_ne.2 hne] at hlt
        simp at hlt
      cases heq
      simp only [Request.mayDispatch, Bool.and_eq_true, Bool.or_eq_true, decide_eq_true_eq] at hmay
      obtain ⟨hvalid, hbudget⟩ := hmay.2.resolve_left (by simp)
      obtain ⟨n, hn, hle⟩ := (Option.any_eq_true _ _).1 hbudget
      refine ⟨?_, hvalid, n, hn, by simpa using hle⟩
      rw [h.sent]
      exact (h.ok _).counted (by simp [hvalid])

end StrixAlloy.Admission

import StrixAlloy.PresentationHistory.Lane
import StrixAlloy.PresentationHistory.Outbox

/-!
# The history is a prefix

The POSTs of a session carry one owner and the numbers from 1 on, and none follows an attempt without a valid
receipt, nor the end of what allowed it (`Closed`). The lock carries this: a request that is about to send has
it, so that no earlier attempt is undecided (`Inv`).
-/

namespace StrixAlloy.PresentationHistory

open Runs List Function

/-- The owner of an accepted event is not empty. -/
theorem owner_ne_nil {sha256 : Sha256} {v : Value CodePoint} {e : Event CodePoint}
    (h : validateEvent sha256 v = some e) :
    e.owner_id ≠ [] := by
  unfold validateEvent at h
  split at h
  · split at h
    · cases h
    obtain ⟨_, -, h⟩ := Option.bind_eq_some_iff.1 h
    obtain ⟨owner_id, howner, h⟩ := Option.bind_eq_some_iff.1 h
    iterate 11 obtain ⟨_, -, h⟩ := Option.bind_eq_some_iff.1 h
    split at h
    · cases h
    cases h
    rintro rfl
    unfold digest at howner
    obtain ⟨-, hdigest⟩ := Option.filter_eq_some_iff.1 howner
    exact absurd hdigest (by decide)
  · cases h

namespace Phase

/-- The phases in which a request has the lock. -/
def holds : Phase → Bool
  | .grant _ => true
  | .store _ _ _ => true
  | _ => false

end Phase

namespace Session

variable {ι α : Type} {s : Session ι α}

/-! ## The invariant -/

structure Inv (s : Session ι α) : Prop where
  numbered : s.attempts.map Attempt.sequence = List.range' 1 s.attempts.length
  counted : s.disabled = false → s.sequence = s.attempts.length
  owner : ∀ a ∈ s.attempts, a.owner = s.owner ∧ s.owner ≠ []
  pending : ∀ a ∈ s.attempts, a.valid = none → s.holder = some a.request ∧
    ∃ e r c, (s.requests a.request).phase = .store e r c
  invalid : ∀ a ∈ s.attempts, a.valid = some false → s.disabled
  holding : ∀ h, (s.requests h).phase.holds → s.holder = some h
  granted : s.nonce ≠ [] → s.created ∧ s.lease = none
  leased : s.lease ≠ none → s.created

/-- The request has no attempt that is undecided. -/
def Decided (s : Session ι α) (h : ℕ) : Prop := ∀ a ∈ s.attempts, a.request = h → a.valid ≠ none

theorem decided_of_phase (hs : Inv s) {h : ℕ} (hp : ∀ e r c, (s.requests h).phase ≠ .store e r c) :
    s.Decided h := by
  rintro a ha rfl hv
  obtain ⟨-, e, r, c, he⟩ := hs.pending a ha hv
  exact hp e r c he

theorem inv_init (identity : ι) (rest : α) : Inv (init identity rest) where
  numbered := rfl
  counted _ := rfl
  owner _ h := nomatch h
  pending _ h := nomatch h
  invalid _ h := nomatch h
  holding _ h := nomatch h
  granted h := absurd rfl h
  leased h := absurd rfl h

theorem inv_retire (hs : Inv s) : Inv s.retire where
  __ := hs
  counted h := nomatch h
  invalid _ _ _ := rfl
  granted h := absurd rfl h
  leased h := absurd rfl h

theorem move_requests (h : ℕ) (p : Phase) {k : ℕ} (hk : k ≠ h) : (s.move h p).requests k = s.requests k :=
  update_of_ne hk _ _

theorem move_phase (h : ℕ) (p : Phase) : ((s.move h p).requests h).phase = p := by
  unfold move
  dsimp only
  rw [update_self]

/-- A request ends that has nothing undecided. -/
theorem inv_reply (hs : Inv s) {h : ℕ} (hd : s.Decided h) (a : Answer) : Inv (s.reply h a) where
  __ := hs
  pending b hb hv := by
    obtain ⟨hholder, e, r, c, he⟩ := hs.pending b hb hv
    have hne : b.request ≠ h := fun hbh => hd b hb hbh hv
    refine ⟨?_, e, r, c, ?_⟩
    · show (if s.holder = some h then none else s.holder) = some b.request
      rw [hholder, if_neg (by simpa using hne)]
    · show ((s.move h (.over a)).requests b.request).phase = _
      rw [move_requests h _ hne, he]
  holding k hk := by
    by_cases e : k = h
    · subst e
      have hphase : ((s.reply k a).requests k).phase = .over a := move_phase k _
      rw [hphase] at hk
      cases hk
    · have hk' : (s.requests k).phase.holds := by
        have hreq : (s.reply h a).requests k = s.requests k := move_requests h _ e
        rwa [hreq] at hk
      show (if s.holder = some h then none else s.holder) = some k
      rw [hs.holding k hk', if_neg (by simpa using e)]

/-- A request that has the lock or nothing goes on to wait elsewhere, without a POST. -/
theorem inv_move (hs : Inv s) {h : ℕ} (hd : s.Decided h) {p : Phase} (hp : p.holds → s.holder = some h) :
    Inv (s.move h p) where
  __ := hs
  pending b hb hv := by
    obtain ⟨hholder, e, r, c, he⟩ := hs.pending b hb hv
    have hne : b.request ≠ h := fun hbh => hd b hb hbh hv
    exact ⟨hholder, e, r, c, by rw [move_requests h _ hne, he]⟩
  holding k hk := by
    by_cases e : k = h
    · subst e
      rw [move_phase] at hk
      exact hp hk
    · rw [move_requests h _ e] at hk
      exact hs.holding k hk

theorem mem_settle {h : ℕ} {v : Bool} {a : Attempt} (ha : a ∈ (s.settle h v).attempts) :
    ∃ b ∈ s.attempts, b.owner = a.owner ∧ b.request = a.request ∧
      (a.valid = b.valid ∨ (b.request = h ∧ b.valid = none ∧ a.valid = some v)) ∧
      (a.request = h → a.valid ≠ none) := by
  obtain ⟨b, hb, rfl⟩ := mem_map.1 ha
  refine ⟨b, hb, ?_⟩
  split
  · rename_i hif
    exact ⟨rfl, rfl, .inr ⟨hif.1, hif.2, rfl⟩, fun _ => nofun⟩
  · rename_i hif
    exact ⟨rfl, rfl, .inl rfl, fun hr hv => hif ⟨hr, hv⟩⟩

theorem settle_map (h : ℕ) (v : Bool) {β : Type} {f : Attempt → β}
    (hf : ∀ a : Attempt, ∀ v, f { a with valid := some v } = f a) :
    (s.settle h v).attempts.map f = s.attempts.map f := by
  unfold settle
  rw [map_map]
  apply map_congr_left
  intro a _
  rw [comp_apply]
  split
  · exact hf a v
  · rfl

/-- The attempts of a request are decided; those without a valid receipt end the lane. -/
theorem inv_settle (hs : Inv s) (h : ℕ) {v : Bool} (hv : v = false → s.disabled) :
    Inv (s.settle h v) ∧ (s.settle h v).Decided h := by
  have hlen : (s.settle h v).attempts.length = s.attempts.length := length_map _
  refine ⟨?_, fun a ha hr => ?_⟩
  · exact { hs with
      numbered := by
        rw [settle_map h v (fun _ _ => rfl), hlen]
        exact hs.numbered
      counted := fun hd => (hs.counted hd).trans hlen.symm
      owner := by
        intro a ha
        obtain ⟨b, hb, howner, -⟩ := mem_settle ha
        rw [← howner]
        exact hs.owner b hb
      pending := by
        intro a ha hn
        obtain ⟨b, hb, -, hr, hvalid, -⟩ := mem_settle ha
        rcases hvalid with hvalid | ⟨-, -, hvalid⟩
        · rw [← hr]
          exact hs.pending b hb (hvalid.symm.trans hn)
        · rw [hvalid] at hn
          cases hn
      invalid := by
        intro a ha hn
        obtain ⟨b, hb, -, -, hvalid, -⟩ := mem_settle ha
        rcases hvalid with hvalid | ⟨-, -, hvalid⟩
        · exact hs.invalid b hb (hvalid.symm.trans hn)
        · rw [hvalid] at hn
          exact hv (Option.some.inj hn) }
  · obtain ⟨-, -, -, -, -, hne⟩ := mem_settle ha
    exact hne hr

/-! ## The POST -/

/-- Nothing speaks against a POST. -/
structure Ready (s : Session ι α) : Prop where
  enabled : s.disabled = false
  alive : s.alive
  nonce : s.nonce ≠ []
  deadline : s.now < s.deadline
  valid : ∀ a ∈ s.attempts, a.valid = some true

/-- Owner and number of every POST. -/
def posts (s : Session ι α) : List (PyStr × ℕ) := s.attempts.map fun a => (a.owner, a.sequence)

/-- A turn sends nothing, or the next number where nothing speaks against it. -/
def Sends (s s' : Session ι α) : Prop :=
  s'.posts = s.posts ∨ s.Ready ∧ ∃ owner, s'.posts = s.posts ++ [(owner, s.posts.length + 1)]

theorem posts_settle (h : ℕ) (v : Bool) : (s.settle h v).posts = s.posts := settle_map h v fun _ _ => rfl

variable [DecidableEq ι]

theorem inv_publish (sha256 : Sha256) (hs : Inv s) {h : ℕ} (hh : s.holder = some h)
    (hp : ∀ e r c, (s.requests h).phase ≠ .store e r c) (data : Value CodePoint) (requestId : PyStr) :
    Inv (s.publish sha256 h data requestId) ∧ Sends s (s.publish sha256 h data requestId) := by
  have hdecided : s.Decided h := decided_of_phase hs hp
  unfold publish
  split
  · split
    · exact ⟨inv_reply (inv_retire hs) hdecided _, .inl rfl⟩
    · exact ⟨inv_reply hs hdecided _, .inl rfl⟩
  rename_i hopen
  simp only [Bool.or_eq_true, decide_eq_true_eq, Bool.not_eq_true', not_or, Bool.not_eq_true,
    Bool.not_eq_false, not_le, ne_eq, not_not] at hopen
  obtain ⟨⟨⟨⟨⟨henabled, hnonce⟩, -⟩, hdeadline⟩, halive⟩, -⟩ := hopen
  have hready : s.Ready := by
    refine ⟨henabled, halive, hnonce, hdeadline, fun a ha => ?_⟩
    cases hv : a.valid with
    | none =>
      -- an undecided attempt has the lock, and waits for the store
      obtain ⟨hholder, e, r, c, he⟩ := hs.pending a ha hv
      rw [hh, Option.some.injEq] at hholder
      exact absurd (hholder ▸ he) (hp e r c)
    | some v =>
      cases v with
      | true => rfl
      | false => exact absurd (henabled.symm.trans (hs.invalid a ha hv)) Bool.false_ne_true
  split
  · rename_i e he
    split
    · exact ⟨inv_reply hs hdecided _, .inl rfl⟩
    · rename_i hnext
      simp only [not_or, not_and, not_not, ne_eq] at hnext
      obtain ⟨hseq, howner⟩ := hnext
      have hcount := hs.counted henabled
      have hclaimed : ∀ a ∈ s.attempts, a.owner = e.owner_id ∧ e.owner_id ≠ [] := by
        intro a ha
        obtain ⟨ho, hne⟩ := hs.owner a ha
        exact ⟨ho.trans (howner hne).symm, owner_ne_nil he⟩
      unfold claim
      dsimp only
      split
      · have hretired : Inv { s with owner := e.owner_id, sequence := e.sequence }.retire := { hs with
          counted := fun hd => nomatch hd
          owner := hclaimed
          invalid := fun _ _ _ => rfl
          granted := fun hn => absurd rfl hn
          leased := fun hn => absurd rfl hn }
        exact ⟨inv_reply hretired hdecided _, .inl rfl⟩
      · constructor
        · have hphase : ∀ k, k ≠ h →
              (s.move h (.store e requestId s.conversationId)).requests k = s.requests k :=
            fun k hk => move_requests h _ hk
          exact { hs with
            numbered := by
              show (s.attempts ++ [_]).map Attempt.sequence = List.range' 1 (s.attempts ++ [_]).length
              rw [map_append, hs.numbered, length_append, map_singleton, hseq, hcount,
                length_singleton, List.range'_concat]
              simp [Nat.add_comm]
            counted := by
              intro _
              show e.sequence = (s.attempts ++ [_]).length
              rw [hseq, hcount, length_append, length_singleton]
            owner := by
              intro a ha
              rcases mem_append.1 ha with ha | ha
              · exact hclaimed a ha
              · rw [mem_singleton.1 ha]
                exact ⟨rfl, owner_ne_nil he⟩
            pending := by
              intro a ha hv
              rcases mem_append.1 ha with ha | ha
              · rw [hready.valid a ha] at hv
                cases hv
              · rw [mem_singleton.1 ha]
                exact ⟨hh, e, requestId, s.conversationId, move_phase (s := s) h _⟩
            invalid := by
              intro a ha hv
              rcases mem_append.1 ha with ha | ha
              · exact hs.invalid a ha hv
              · rw [mem_singleton.1 ha] at hv
                cases hv
            holding := by
              intro k hk
              by_cases ek : k = h
              · rw [ek]
                exact hh
              · exact hs.holding k (by rw [← hphase k ek]; exact hk) }
        · right
          refine ⟨hready, e.owner_id, ?_⟩
          show (s.attempts ++ [_]).map _ = s.posts ++ _
          rw [map_append, map_singleton, hseq, hcount]
          unfold posts
          rw [length_map]
  · exact ⟨inv_reply hs hdecided _, .inl rfl⟩

theorem inv_enter (sha256 : Sha256) (hs : Inv s) {h : ℕ} (hfree : s.holder = none)
    (hp : ∀ e r c, (s.requests h).phase ≠ .store e r c) (data : Value CodePoint) (requestId : PyStr) :
    Inv (s.enter sha256 h data requestId) ∧ Sends s (s.enter sha256 h data requestId) := by
  have hheld : Inv { s with holder := some h } := { hs with
    pending := fun a ha hv => nomatch hfree.symm.trans (hs.pending a ha hv).1
    holding := fun k hk => nomatch hfree.symm.trans (hs.holding k hk) }
  have hdecided : Decided { s with holder := some h } h := decided_of_phase hheld hp
  unfold enter
  dsimp only
  split
  · exact ⟨inv_reply hheld hdecided _, .inl rfl⟩
  split
  · exact ⟨inv_reply hheld hdecided _, .inl rfl⟩
  split
  · exact ⟨inv_move hheld hdecided fun _ => rfl, .inl rfl⟩
  · obtain ⟨hinv, hsends⟩ := inv_publish sha256 hheld rfl hp data requestId
    refine ⟨hinv, hsends.imp_right ?_⟩
    rintro ⟨hr, hposts⟩
    exact ⟨{ hr with }, hposts⟩

/-! ## The attestation -/

omit [DecidableEq ι] in
theorem inv_finish (hs : Inv s) (t : ℕ) {accepted : Bool} (hn : accepted → s.nonce ≠ [] → s.created) :
    Inv (s.finish t accepted) := by
  unfold finish
  dsimp only
  split
  · rename_i ha
    exact { hs with
      granted := fun hne => ⟨hn ha hne, rfl⟩
      leased := fun hne => absurd rfl hne }
  · apply inv_retire
    exact { hs with
      granted := fun hne => ⟨(hs.granted hne).1, rfl⟩
      leased := fun hne => absurd rfl hne }

omit [DecidableEq ι] in
theorem posts_finish (t : ℕ) (accepted : Bool) : (s.finish t accepted).posts = s.posts := by
  unfold finish
  dsimp only
  split
  · rfl
  · rfl

/-- A step keeps the invariant, and sends nothing or the next number. -/
theorem inv_step (sha256 : Sha256) (maxAge : ℕ) (hs : Inv s) (e : LaneEvent ι α) :
    Inv (s.step sha256 maxAge e) ∧ Sends s (s.step sha256 maxAge e) := by
  have hphase : ∀ {h p}, (s.requests h).phase = p → (∀ e r c, p ≠ .store e r c) →
      ∀ e r c, (s.requests h).phase ≠ .store e r c := by
    rintro h _ rfl hp
    exact hp
  unfold step
  cases e with
  | request h =>
    dsimp only
    split
    · rename_i hp
      have hd := decided_of_phase hs (hphase hp fun _ _ _ e => by cases e)
      refine ⟨?_, .inl rfl⟩
      have hreq : ∀ k, k ≠ h → (update s.requests h ⟨s.now + 2000, .body⟩) k = s.requests k :=
        fun k hk => update_of_ne hk _ _
      exact { hs with
        pending := fun b hb hv => by
          obtain ⟨hholder, e, r, c, he⟩ := hs.pending b hb hv
          have hne : b.request ≠ h := fun hbh => hd b hb hbh hv
          exact ⟨hholder, e, r, c, by dsimp only; rw [hreq _ hne, he]⟩
        holding := fun k hk => by
          by_cases ek : k = h
          · subst ek
            dsimp only at hk
            rw [update_self] at hk
            cases hk
          · dsimp only at hk
            rw [hreq k ek] at hk
            exact hs.holding k hk }
    · exact ⟨hs, .inl rfl⟩
  | body =>
    dsimp only
    split
    · rename_i hp
      have hd := decided_of_phase hs (hphase hp fun _ _ _ e => by cases e)
      exact ⟨inv_move hs hd (fun e => by cases e), .inl rfl⟩
    · rename_i hp
      exact ⟨inv_reply hs (decided_of_phase hs (hphase hp fun _ _ _ e => by cases e)) _, .inl rfl⟩
    · exact ⟨hs, .inl rfl⟩
  | acquire h requestId =>
    dsimp only
    split
    · rename_i data hp
      split
      · rename_i hfree
        exact inv_enter sha256 hs hfree (hphase hp fun _ _ _ e => by cases e) data requestId
      · exact ⟨hs, .inl rfl⟩
    · exact ⟨hs, .inl rfl⟩
  | granted h requestId =>
    dsimp only
    split
    · rename_i data hp
      exact inv_publish sha256 hs (hs.holding h (by rw [hp]; rfl)) (hphase hp fun _ _ _ e => by cases e) data requestId
    · rename_i data hp
      have hholder := hs.holding h (by rw [hp]; rfl)
      have hd := hphase hp fun _ _ _ e => by cases e
      obtain ⟨hinv, hsends⟩ := inv_publish sha256 (inv_retire hs) hholder hd data requestId
      refine ⟨hinv, .inl (hsends.resolve_right ?_)⟩
      rintro ⟨hr, -⟩
      cases hr.enabled
    · rename_i data hp
      exact ⟨inv_reply (inv_retire hs) (decided_of_phase hs (hphase hp fun _ _ _ e => by cases e)) _, .inl rfl⟩
    · exact ⟨hs, .inl rfl⟩
  | stored h =>
    dsimp only
    split
    · split
      · obtain ⟨hinv, hd⟩ := inv_settle hs h (v := true) fun e => by cases e
        exact ⟨inv_reply hinv hd _, .inl (posts_settle h true)⟩
      · obtain ⟨hinv, hd⟩ := inv_settle (inv_retire hs) h fun _ => rfl
        exact ⟨inv_reply hinv hd _, .inl (posts_settle h false)⟩
    · exact ⟨hs, .inl rfl⟩
  | interrupt h =>
    dsimp only
    split
    · exact ⟨hs, .inl rfl⟩
    · exact ⟨hs, .inl rfl⟩
    · obtain ⟨hinv, hd⟩ := inv_settle (inv_retire hs) h fun _ => rfl
      exact ⟨inv_reply hinv hd _, .inl (posts_settle h false)⟩
  | queue =>
    dsimp only
    unfold queue
    split
    · exact ⟨hs, .inl rfl⟩
    split
    · exact ⟨inv_retire hs, .inl rfl⟩
    · exact ⟨{ hs with }, .inl rfl⟩
  | attest t =>
    dsimp only
    split
    · rename_i identity hq
      unfold attest
      split
      · exact ⟨inv_finish hs t (fun e => by cases e), .inl (posts_finish t false)⟩
      · split
        · exact ⟨inv_finish hs t (fun e => by cases e), .inl (posts_finish t false)⟩
        · exact ⟨{ hs with }, .inl rfl⟩
    · exact ⟨hs, .inl rfl⟩
  | attested t =>
    dsimp only
    split
    · rename_i identity started deadline hw
      unfold attested
      split
      · split
        · exact ⟨inv_finish hs t (fun e => by cases e), .inl (posts_finish t false)⟩
        · rename_i hok
          simp only [not_or] at hok
          have hcreated := hs.leased hok.2.1
          refine ⟨?_, .inl rfl⟩
          exact { hs with
            granted := fun _ => ⟨hcreated, rfl⟩
            leased := fun hne => absurd rfl hne }
      · exact ⟨inv_finish hs t (fun e => by cases e), .inl (posts_finish t false)⟩
    · exact ⟨hs, .inl rfl⟩
  | attestCancelled t =>
    dsimp only
    split
    · exact ⟨{ hs with }, .inl rfl⟩
    · exact ⟨inv_finish hs t (fun e => by cases e), .inl (posts_finish t false)⟩
    · exact ⟨hs, .inl rfl⟩
  | retire => exact ⟨inv_retire hs, .inl rfl⟩
  | tick => exact ⟨{ hs with }, .inl rfl⟩
  | create =>
    dsimp only
    split
    · exact ⟨hs, .inl rfl⟩
    · rename_i hc
      have hnonce : s.nonce = [] := by
        by_contra hne
        exact hc (hs.granted hne).1
      split
      · exact ⟨{ hs with
          granted := fun hne => absurd hnonce hne
          leased := fun _ => rfl }, .inl rfl⟩
      · exact ⟨{ hs with
          counted := fun hd => by cases hd
          invalid := fun _ _ _ => rfl
          granted := fun hne => absurd hnonce hne
          leased := fun _ => rfl }, .inl rfl⟩
  | life l =>
    cases l with
    | _ => exact ⟨{ hs with }, .inl rfl⟩

/-! ## What ends the lane -/

omit [DecidableEq ι] in
/-- The lane was retired, the session ends, an attempt had no valid receipt, or the grant has expired. -/
def Closed (s : Session ι α) : Prop :=
  s.disabled ∨ s.alive = false ∨ (∃ a ∈ s.attempts, a.valid = some false) ∨ s.nonce ≠ [] ∧ s.deadline ≤ s.now

/-- How a state lies after another: what ends the lane does not come back. -/
structure Later (s s' : Session ι α) : Prop where
  disabled : s.disabled → s'.disabled
  alive : s'.alive → s.alive
  now : s.now ≤ s'.now
  grant : s.nonce ≠ [] → s'.disabled ∨ s'.nonce = s.nonce ∧ s'.deadline = s.deadline

omit [DecidableEq ι]

theorem Later.rfl : Later s s := ⟨id, id, le_rfl, fun _ => .inr ⟨Eq.refl _, Eq.refl _⟩⟩

theorem Later.trans {s' s'' : Session ι α} (h : Later s s') (h' : Later s' s'') : Later s s'' where
  disabled hd := h'.disabled (h.disabled hd)
  alive ha := h.alive (h'.alive ha)
  now := h.now.trans h'.now
  grant hn := by
    rcases h.grant hn with hd | ⟨hnonce, hdeadline⟩
    · exact .inl (h'.disabled hd)
    · rcases h'.grant (hnonce ▸ hn) with hd | ⟨hnonce', hdeadline'⟩
      · exact .inl hd
      · exact .inr ⟨hnonce'.trans hnonce, hdeadline'.trans hdeadline⟩

theorem later_retire : Later s s.retire := ⟨fun _ => rfl, id, le_rfl, fun _ => .inl rfl⟩

theorem later_reply (h : ℕ) (a : Answer) : Later s (s.reply h a) := ⟨id, id, le_rfl, fun _ => .inr ⟨rfl, rfl⟩⟩

theorem later_move (h : ℕ) (p : Phase) : Later s (s.move h p) := ⟨id, id, le_rfl, fun _ => .inr ⟨rfl, rfl⟩⟩

theorem later_settle (h : ℕ) (v : Bool) : Later s (s.settle h v) := ⟨id, id, le_rfl, fun _ => .inr ⟨rfl, rfl⟩⟩

theorem later_retire_reply (h : ℕ) (a : Answer) : Later s (s.retire.reply h a) := later_retire.trans (later_reply h a)

theorem later_finish (t : ℕ) (accepted : Bool) : Later s (s.finish t accepted) := by
  unfold finish
  dsimp only
  split
  · exact ⟨id, id, le_rfl, fun _ => .inr ⟨rfl, rfl⟩⟩
  · exact ⟨fun _ => rfl, id, le_rfl, fun _ => .inl rfl⟩

theorem later_claim (h : ℕ) (e : Event CodePoint) (requestId : PyStr) : Later s (s.claim h e requestId) := by
  unfold claim
  dsimp only
  split
  · exact ⟨fun _ => rfl, id, le_rfl, fun _ => .inl rfl⟩
  · exact ⟨id, id, le_rfl, fun _ => .inr ⟨rfl, rfl⟩⟩

variable [DecidableEq ι]

theorem later_publish (sha256 : Sha256) (h : ℕ) (data : Value CodePoint) (requestId : PyStr) :
    Later s (s.publish sha256 h data requestId) := by
  unfold publish
  split
  · split
    · exact later_retire_reply h _
    · exact later_reply h _
  split
  · split
    · exact later_reply h _
    · exact later_claim h _ _
  · exact later_reply h _

theorem later_enter (sha256 : Sha256) (h : ℕ) (data : Value CodePoint) (requestId : PyStr) :
    Later s (s.enter sha256 h data requestId) := by
  have hheld : Later s { s with holder := some h } := ⟨id, id, le_rfl, fun _ => .inr ⟨rfl, rfl⟩⟩
  unfold enter
  dsimp only
  split
  · exact hheld.trans (later_reply h _)
  split
  · exact hheld.trans (later_reply h _)
  split
  · exact hheld.trans (later_move h _)
  · exact hheld.trans (later_publish sha256 h data requestId)

/-- Nothing that ended the lane comes back, and only the session's own life changes the rest of it. -/
theorem later_step (sha256 : Sha256) (maxAge : ℕ) (hs : Inv s) (e : LaneEvent ι α) :
    Later s (s.step sha256 maxAge e) := by
  unfold step
  cases e with
  | request =>
    dsimp only
    split
    · exact ⟨id, id, le_rfl, fun _ => .inr ⟨rfl, rfl⟩⟩
    · exact .rfl
  | body h =>
    dsimp only
    split
    · exact later_move h _
    · exact later_reply h _
    · exact .rfl
  | acquire h =>
    dsimp only
    split
    · split
      · exact later_enter sha256 h _ _
      · exact .rfl
    · exact .rfl
  | granted h =>
    dsimp only
    split
    · exact later_publish sha256 h _ _
    · exact later_retire.trans (later_publish sha256 h _ _)
    · exact later_retire_reply h _
    · exact .rfl
  | stored h =>
    dsimp only
    split
    · split
      · exact (later_settle h true).trans (later_reply h _)
      · exact (later_settle h false).trans (later_retire_reply h _)
    · exact .rfl
  | interrupt h =>
    dsimp only
    split
    · exact .rfl
    · exact .rfl
    · exact (later_settle h false).trans (later_retire_reply h _)
  | queue =>
    dsimp only
    unfold queue
    split
    · exact .rfl
    split
    · exact later_retire
    · exact ⟨id, id, le_rfl, fun _ => .inr ⟨rfl, rfl⟩⟩
  | attest t =>
    dsimp only
    split
    · unfold attest
      split
      · exact later_finish t false
      · split
        · exact later_finish t false
        · exact ⟨id, id, le_rfl, fun _ => .inr ⟨rfl, rfl⟩⟩
    · exact .rfl
  | attested t =>
    dsimp only
    split
    · unfold attested
      split
      · split
        · exact later_finish t false
        · rename_i hok
          simp only [not_or] at hok
          -- a session with a grant has no lease left
          exact ⟨id, id, le_rfl, fun hn => absurd (hs.granted hn).2 hok.2.1⟩
      · exact later_finish t false
    · exact .rfl
  | attestCancelled t =>
    dsimp only
    split
    · exact ⟨id, id, le_rfl, fun _ => .inr ⟨rfl, rfl⟩⟩
    · exact later_finish t false
    · exact .rfl
  | retire => exact later_retire
  | tick => exact ⟨id, id, Nat.le_add_right _ _, fun _ => .inr ⟨rfl, rfl⟩⟩
  | create =>
    dsimp only
    split
    · exact .rfl
    split
    · exact ⟨id, id, le_rfl, fun _ => .inr ⟨rfl, rfl⟩⟩
    · exact ⟨fun _ => rfl, id, le_rfl, fun _ => .inl rfl⟩
  | life l =>
    refine ⟨?_, ?_, ?_, ?_⟩
    · cases l with
      | _ => exact id
    · cases l with
      | _ => simp [live, alive]
    · cases l with
      | _ => exact le_rfl
    · cases l with
      | _ => exact fun _ => .inr ⟨rfl, rfl⟩

/-- Once the lane is closed it stays closed, and nothing is sent. -/
theorem closed_step (sha256 : Sha256) (maxAge : ℕ) (hs : Inv s) (hc : s.Closed) (e : LaneEvent ι α) :
    (s.step sha256 maxAge e).Closed ∧ (s.step sha256 maxAge e).posts = s.posts := by
  have hlater := later_step sha256 maxAge hs e
  constructor
  · rcases hc with hd | ha | ⟨a, ha, hv⟩ | ⟨hn, hd⟩
    · exact .inl (hlater.disabled hd)
    · refine .inr (.inl ?_)
      by_contra hne
      rw [hlater.alive (Bool.of_not_eq_false hne)] at ha
      cases ha
    · exact .inl (hlater.disabled (hs.invalid a ha hv))
    · rcases hlater.grant hn with hdis | ⟨hnonce, hdeadline⟩
      · exact .inl hdis
      · refine .inr (.inr (.inr ⟨by rwa [hnonce], ?_⟩))
        rw [hdeadline]
        exact hd.trans hlater.now
  · refine (inv_step sha256 maxAge hs e).2.resolve_right ?_
    rintro ⟨hready, -⟩
    rcases hc with hd | ha | ⟨a, ha, hv⟩ | ⟨hn, hd⟩
    · exact absurd (hready.enabled.symm.trans hd) Bool.false_ne_true
    · exact absurd (ha.symm.trans hready.alive) Bool.false_ne_true
    · rw [hready.valid a ha] at hv
      cases hv
    · exact absurd hready.deadline (Nat.not_lt.2 hd)

end Session

end StrixAlloy.PresentationHistory

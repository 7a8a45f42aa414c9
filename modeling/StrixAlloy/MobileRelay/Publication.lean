import StrixAlloy.MobileRelay.Authentication

/-!
# What the published file still lists

Memory and file change together: a publication that succeeds leaves both with the same sessions, and one that fails
leaves neither with any, for good (`Mirrors`). So what memory does not hold the file does not list. A session leaves
memory when it is revoked, or when it has expired at a publication, and only a registration brings its id back.
-/

namespace StrixAlloy.MobileRelay

open List Runs

section Registry

variable {F : Type} [LinearOrder F] (x : Float64 F) (lower : String → String) (relay_address : String)

/-- How the update of an operation ends. -/
def Op.saved : Op F → Saved
  | .register _ _ _ _ _ _ _ saved => saved
  | .setPeers _ _ _ saved => saved
  | .prune _ saved => saved
  | .revoke _ _ saved => saved
  | .close saved => saved

/-- The reading by which an operation drops what has expired. -/
def Op.now? : Op F → Option F
  | .register _ _ _ _ _ now _ _ => some now
  | .setPeers _ _ now _ => some now
  | .prune now _ => some now
  | .revoke _ now _ => some now
  | .close _ => none

/-- The id that an operation would register. -/
def Op.registers : Op F → Option String
  | .register session_id _ _ _ _ _ _ _ => some session_id
  | _ => none

/-- Whether the arguments of an operation are refused: they are malformed, the id is taken or unknown, the table is
full, or the peers cannot be told. -/
def Op.refused (r : Registry F) : Op F → Prop
  | .register session_id instance_ service_id token_sha256 remaining_seconds now _ _ =>
    (∀ seconds, remaining_seconds = some seconds →
      ¬ registrable x session_id instance_ service_id token_sha256 seconds) ∨
      session_id ∈ (r.current now).map (·.id) ∨ 128 ≤ (r.current now).length
  | .setPeers session_id transports now _ =>
    localUdpPeers lower transports relay_address = none ∨ session_id ∉ (r.current now).map (·.id)
  | _ => False

/-- The file lists the sessions in memory, or the registry is poisoned, without sessions and without a file. -/
def Mirrors (r : Registry F) : Prop :=
  r.poisoned = false ∧ r.file = some (encoded x r.sessions) ∨
    r.poisoned ∧ r.sessions = [] ∧ r.file = none

/-- What holds between calls while every stale file can be removed. -/
structure Sound (r : Registry F) : Prop where
  mirrors : Mirrors x r
  distinct : (r.sessions.map (·.id)).Nodup
  length : r.sessions.length ≤ 128
  released : r.owned = false → r.sessions = []

/-- What one operation may do: nothing, or to publish a table in which no id is new but the registered one; a
registry that is closed publishes the empty table, unless it is poisoned. -/
inductive Does (r : Registry F) (op : Op F) : Registry F → Prop
  | stays (h : op.refused x lower relay_address r ∨ r.owned = false ∨ r.poisoned) : Does r op r
  | published (sessions : List (Session F)) (now : F) (hnow : op.now? = some now)
      (hargs : ¬ op.refused x lower relay_address r) (howned : r.owned) (hclean : r.poisoned = false)
      (hdistinct : (sessions.map (·.id)).Nodup) (hlength : sessions.length ≤ 128)
      (hold : ∀ s ∈ sessions, op.registers = some s.id ∨
        s.id ∈ (r.current now).map (·.id) ∧ ∀ now saved, op ≠ .revoke s.id now saved) :
      Does r op (r.publish x sessions op.saved)
  | emptied (h : op.now? = none) (hclean : r.poisoned = false) :
      Does r op { r.publish x [] op.saved with owned := false }
  | released (h : op.now? = none) (hpoisoned : r.poisoned) : Does r op { r with owned := false }

/-- A session leaves memory: it is revoked, or it has expired when another table is published. -/
def Leaves (id : String) (r : Registry F) (op : Op F) : Prop :=
  (∃ now saved, op = .revoke id now saved) ∨
    ∃ now, op.now? = some now ∧ ¬ op.refused x lower relay_address r ∧ r.owned ∧ r.poisoned = false ∧
      ∃ s ∈ r.sessions, s.id = id ∧ s.expires_at ≤ now

/-- The file lists no session of this id. -/
def Unlisted (id : String) (r : Registry F) : Prop :=
  ∀ bytes, r.file = some bytes → ∃ sessions, bytes = encoded x sessions ∧ ∀ s ∈ sessions, s.id ≠ id

variable {x lower relay_address} {r r' : Registry F} {op : Op F}

section

variable (hr : Sound x r)
include hr

theorem Does.publish_current {now : F} (hnow : op.now? = some now) (hargs : ¬ op.refused x lower relay_address r)
    (howned : r.owned) (hclean : r.poisoned = false) {p : Session F → Bool}
    (hp : ∀ s, p s → ∀ now saved, op ≠ .revoke s.id now saved) :
    Does x lower relay_address r op (r.publish x ((r.current now).filter p) op.saved) := by
  have hsub : (r.current now).filter p |>.Sublist r.sessions := filter_sublist.trans filter_sublist
  refine .published _ now hnow hargs howned hclean (hr.distinct.sublist (hsub.map _))
    (hsub.length_le.trans hr.length) ?_
  intro s hs
  obtain ⟨hmem, hps⟩ := mem_filter.1 hs
  exact .inr ⟨mem_map_of_mem hmem, hp s hps⟩

/-- Every operation does one of these. -/
theorem step_does (op : Op F) : Does x lower relay_address r op (step x lower relay_address r op) := by
  have hcurrent : ∀ now, (r.current now).Sublist r.sessions := fun now => filter_sublist
  cases op with
  | register session_id instance_ service_id token_sha256 remaining_seconds now =>
    cases remaining_seconds with
    | none => exact .stays (.inl (.inl nofun))
    | some =>
      dsimp only [MobileRelay.step]
      split_ifs with hguard
      · refine .stays ?_
        rcases hguard with hbad | hout | hpoisoned | htaken
        · exact .inl (.inl fun seconds hs => Option.some.inj hs ▸ hbad)
        · exact .inr (.inl (by simpa using hout))
        · exact .inr (.inr hpoisoned)
        · exact .inl (.inr htaken)
      · push Not at hguard
        obtain ⟨hargs, howned, hclean, hnew, hroom⟩ := hguard
        refine .published _ now rfl ?_ howned (by simpa using hclean) ?_ ?_ ?_
        · rintro (hbad | htaken | hfull)
          · exact hbad _ rfl hargs
          · exact hnew htaken
          · omega
        · rw [map_append, nodup_append]
          refine ⟨hr.distinct.sublist ((hcurrent now).map _), nodup_singleton _, fun a ha b hb => ?_⟩
          rintro rfl
          have hid : a = session_id := mem_singleton.1 hb
          rw [hid] at ha
          exact hnew ha
        · rw [length_append, length_singleton]
          omega
        · intro s hs
          rcases mem_append.1 hs with hs | hs
          · exact .inr ⟨mem_map_of_mem hs, nofun⟩
          · rw [mem_singleton.1 hs]
            exact .inl rfl
  | setPeers session_id transports now =>
    dsimp only [MobileRelay.step]
    cases hpeers : localUdpPeers lower transports relay_address with
    | none => exact .stays (.inl (.inl hpeers))
    | some peers =>
      split_ifs with hguard
      · refine .stays ?_
        rcases hguard with hout | hpoisoned | hunknown
        · exact .inr (.inl (by simpa using hout))
        · exact .inr (.inr hpoisoned)
        · exact .inl (.inr hunknown)
      · push Not at hguard
        obtain ⟨howned, hclean, hknown⟩ := hguard
        have hids : ((r.current now).map fun s => if s.id = session_id then { s with peers := peers } else s).map
            (·.id) = (r.current now).map (·.id) := by
          rw [map_map]
          refine map_congr_left fun s _ => ?_
          show (if s.id = session_id then { s with peers := peers } else s).id = s.id
          split_ifs <;> rfl
        refine .published _ now rfl ?_ howned (by simpa using hclean) ?_ ?_ ?_
        · rintro (hbad | hunknown)
          · rw [hpeers] at hbad
            cases hbad
          · exact hunknown hknown
        · rw [hids]
          exact hr.distinct.sublist ((hcurrent now).map _)
        · rw [length_map]
          exact (hcurrent now).length_le.trans hr.length
        · intro s hs
          exact .inr ⟨hids ▸ mem_map_of_mem hs, nofun⟩
  | prune now saved =>
    dsimp only [MobileRelay.step]
    split_ifs with hguard
    · exact .stays (.inr (hguard.imp (by simp) id))
    · push Not at hguard
      have h : Does x lower relay_address r (.prune now saved)
          (r.publish x ((r.current now).filter fun _ => true) saved) :=
        .publish_current hr rfl id hguard.1 (by simpa using hguard.2) fun _ _ _ _ => nofun
      rwa [filter_true] at h
  | revoke =>
    dsimp only [MobileRelay.step]
    split_ifs with hguard
    · exact .stays (.inr (hguard.imp (by simp) id))
    · push Not at hguard
      refine .publish_current hr rfl id hguard.1 (by simpa using hguard.2) ?_
      intro s hs now' saved' e
      injection e with e
      simp [e] at hs
  | close =>
    dsimp only [MobileRelay.step]
    split_ifs with howned hpoisoned
    · exact .released rfl hpoisoned
    · exact .emptied rfl (by simpa using hpoisoned)
    · exact .stays (.inr (.inl (by simpa using howned)))

omit hr in
theorem sound_init : Sound x (Registry.init x) :=
  ⟨.inl ⟨rfl, rfl⟩, nodup_nil, Nat.zero_le _, fun _ => rfl⟩

/-- A poisoned or released registry holds no session. -/
theorem Sound.empty (h : r.owned = false ∨ r.poisoned) : r.sessions = [] := by
  rcases h with h | h
  · exact hr.released h
  · rcases hr.mirrors with ⟨hclean, -⟩ | ⟨-, hempty, -⟩
    · exact absurd (hclean.symm.trans h) Bool.false_ne_true
    · exact hempty

theorem Does.sound (h : Does x lower relay_address r op r') (hsaved : op.saved ≠ .stuck) :
    Sound x r' := by
  cases h with
  | stays => exact hr
  | published sessions now hnow hargs howned hclean hdistinct hlength =>
    cases hs : op.saved with
    | replaced => exact ⟨.inl ⟨hclean, rfl⟩, hdistinct, hlength, fun h => absurd (howned.symm.trans h) nofun⟩
    | removed => exact ⟨.inr ⟨rfl, rfl, rfl⟩, nodup_nil, Nat.zero_le _, fun _ => rfl⟩
    | stuck => exact absurd hs hsaved
  | emptied hnow hclean =>
    cases hs : op.saved with
    | replaced => exact ⟨.inl ⟨hclean, rfl⟩, nodup_nil, Nat.zero_le _, fun _ => rfl⟩
    | removed => exact ⟨.inr ⟨rfl, rfl, rfl⟩, nodup_nil, Nat.zero_le _, fun _ => rfl⟩
    | stuck => exact absurd hs hsaved
  | released hnow hpoisoned => exact ⟨hr.mirrors, hr.distinct, hr.length, fun _ => hr.empty (.inr hpoisoned)⟩

/-- An operation whose arguments are refused changes nothing. -/
theorem step_of_refused (h : op.refused x lower relay_address r) :
    step x lower relay_address r op = r := by
  have hdoes : Does x lower relay_address r op (step x lower relay_address r op) := step_does hr op
  have hclose : op.now? ≠ none := by
    cases op with
    | close => exact h.elim
    | _ => nofun
  generalize step x lower relay_address r op = r' at hdoes ⊢
  cases hdoes with
  | stays => rfl
  | published _ _ _ hargs => exact absurd h hargs
  | emptied hnow => exact absurd hnow hclose
  | released hnow => exact absurd hnow hclose

omit hr in
/-- An id that memory does not hold comes back by its registration alone. -/
theorem Does.absent {id : String} (h : Does x lower relay_address r op r')
    (hnew : op.registers = some id → op.refused x lower relay_address r) (habsent : ∀ s ∈ r.sessions, s.id ≠ id) :
    ∀ s ∈ r'.sessions, s.id ≠ id := by
  cases h with
  | stays => exact habsent
  | published sessions now hnow hargs howned hclean hdistinct hlength hold =>
    cases op.saved with
    | removed | stuck => exact nofun
    | replaced =>
      rintro s hs rfl
      rcases hold s hs with hreg | ⟨hmem, -⟩
      · exact hargs (hnew hreg)
      · obtain ⟨s', hs', hid⟩ := mem_map.1 hmem
        exact habsent s' (mem_of_mem_filter hs') hid
  | emptied =>
    cases op.saved with
    | _ => exact nofun
  | released => exact habsent

/-- A session that leaves memory is not in the table that is published. -/
theorem Does.leaves {id : String} (h : Does x lower relay_address r op r')
    (hnew : op.registers = some id → op.refused x lower relay_address r)
    (hleaves : Leaves x lower relay_address id r op) : ∀ s ∈ r'.sessions, s.id ≠ id := by
  cases h with
  | stays hstays =>
    rcases hleaves with ⟨now, saved, rfl⟩ | ⟨now, -, hargs, howned, hclean, -⟩
    · rw [hr.empty (hstays.resolve_left fun h => h)]
      exact nofun
    · rcases hstays with hbad | hout | hpoisoned
      · exact absurd hbad hargs
      · exact absurd (howned.symm.trans hout) nofun
      · exact absurd (hclean.symm.trans hpoisoned) nofun
  | published sessions now hnow hargs howned hclean hdistinct hlength hold =>
    cases op.saved with
    | removed | stuck => exact nofun
    | replaced =>
      rintro s hs rfl
      rcases hold s hs with hreg | ⟨hmem, hrevoked⟩
      · exact hargs (hnew hreg)
      · rcases hleaves with ⟨now', saved, rfl⟩ | ⟨now', hnow', -, -, -, s₀, hs₀, hid, hexpired⟩
        · exact hrevoked now' saved rfl
        · obtain ⟨s', hs', hid'⟩ := mem_map.1 hmem
          obtain ⟨hmem', hlive⟩ := mem_filter.1 hs'
          obtain rfl : s' = s₀ := inj_on_of_nodup_map hr.distinct hmem' hs₀ (hid'.trans hid.symm)
          obtain rfl : now' = now := Option.some.inj (hnow'.symm.trans hnow)
          exact absurd (of_decide_eq_true hlive) (not_lt.2 hexpired)
  | emptied =>
    cases op.saved with
    | _ => exact nofun
  | released hnow hpoisoned =>
    rw [hr.empty (.inr hpoisoned)]
    exact nofun

theorem Sound.unlisted {id : String} (h : ∀ s ∈ r.sessions, s.id ≠ id) : Unlisted x id r := by
  intro bytes hbytes
  rcases hr.mirrors with ⟨-, hfile⟩ | ⟨-, -, hfile⟩
  · exact ⟨r.sessions, Option.some.inj (hbytes.symm.trans hfile), h⟩
  · exact absurd (hbytes.symm.trans hfile) nofun

end

theorem Does.poisoned (h : Does x lower relay_address r op r') (hpoisoned : r.poisoned) :
    r'.poisoned := by
  cases h with
  | stays => exact hpoisoned
  | published _ _ _ _ _ hclean => exact absurd (hclean.symm.trans hpoisoned) nofun
  | emptied _ hclean => exact absurd (hclean.symm.trans hpoisoned) nofun
  | released => exact hpoisoned

/-! ## Every run -/

variable (x lower relay_address) in
/-- After any operations whose failed updates remove the file: memory and file agree, the table is bounded, and
operations with refused arguments change nothing. A poisoned registry stays poisoned, and a session that leaves
memory is in no later file until its id is registered again. -/
theorem publication_mirrors (ops : List (Op F)) (hsaved : ∀ op ∈ ops, op.saved ≠ .stuck) :
    let r := run (step x lower relay_address) (Registry.init x) ops
    Mirrors x r ∧ r.sessions.length ≤ 128 ∧
      (∀ op, op.refused x lower relay_address r → step x lower relay_address r op = r) ∧
      (∀ more, (∀ op ∈ more, op.saved ≠ .stuck) → r.poisoned →
        (run (step x lower relay_address) r more).poisoned) ∧
      ∀ id op more, Leaves x lower relay_address id r op →
        Runs.Admits (step x lower relay_address)
          (fun r op => op.saved ≠ .stuck ∧ (op.registers = some id → op.refused x lower relay_address r)) r
          (op :: more) →
        Unlisted x id (run (step x lower relay_address) r (op :: more)) := by
  intro r
  have hstep : ∀ r op, Sound x r → op.saved ≠ .stuck → Sound x (step x lower relay_address r op) :=
    fun r op hr hop => (step_does hr op).sound hr hop
  have hr : Sound x r := by
    refine run_invariant_of hstep sound_init ?_
    rintro pre op post rfl
    exact hsaved op (by simp)
  refine ⟨hr.mirrors, hr.length, fun op => step_of_refused hr, fun more hmore hpoisoned => ?_,
    fun id op more hleaves hadmits => ?_⟩
  · have hok : Runs.Admits (step x lower relay_address) (fun _ op => op.saved ≠ .stuck) r more := by
      rintro pre op post rfl
      exact hmore op (by simp)
    exact (run_invariant_of (P := fun r => Sound x r ∧ r.poisoned = true)
      (fun r op h hop => ⟨hstep r op h.1 hop, (step_does h.1 op).poisoned h.2⟩) ⟨hr, hpoisoned⟩ hok).2
  · obtain ⟨⟨hop, hnew⟩, hmore⟩ := admits_cons.1 hadmits
    have hdoes : Does x lower relay_address r op (step x lower relay_address r op) := step_does hr op
    have hlast := run_invariant_of (P := fun r => Sound x r ∧ ∀ s ∈ r.sessions, s.id ≠ id)
      (fun r op h hop => ⟨hstep r op h.1 hop.1, (step_does h.1 op).absent hop.2 h.2⟩)
      ⟨hstep r op hr hop, hdoes.leaves hr hnew hleaves⟩ hmore
    exact hlast.1.unlisted hlast.2

/-- The session of `blankToken` is revoked. -/
theorem publication_mirrors_revoked :
    Unlisted seconds "00000000000000000000000000000000"
      (run (step seconds id "10.0.0.1") (Registry.init seconds)
        [blankToken, .revoke "00000000000000000000000000000000" 1 .replaced]) := by
  have h := publication_mirrors seconds id "10.0.0.1" [blankToken] (by simp [blankToken, Op.saved])
  refine h.2.2.2.2 _ _ [] (.inl ⟨1, .replaced, rfl⟩) (admits_cons.2 ⟨⟨nofun, nofun⟩, admits_nil⟩)

end Registry

end StrixAlloy.MobileRelay

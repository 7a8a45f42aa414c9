import Mathlib.Data.List.Nodup
import StrixAlloy.EmbeddingCache.Application
import StrixAlloy.Lib.Runs

/-!
# The cache is transparent

`f` is the row that the original launch produces for a token of a generation. A call that hits lends this
row or enqueues its copy, after the event of the capture; a call that misses ran the original
(`Transparent`). So it is in every run of calls whose imported rows are those of `f`
(`cache_transparent`).
-/

namespace StrixAlloy.EmbeddingCache

open List Runs

variable {f : Generation → ℤ → Row} {m₀ : Memory} {o : Oracle} {s : State}

/-! ## Initialization and close -/

/-- No entry is valid. -/
def NoneValid (entries : List Entry) : Prop := ∀ e ∈ entries, e.valid = false

theorem NoneValid.unique {entries : List Entry} (h : NoneValid entries) : UniqueTokens entries := by
  intro i j d e hd _ hdv
  rw [h d (mem_of_getElem? hd)] at hdv
  cases hdv

/-- Where no entry is valid the places of the entries are all there is to show. -/
theorem good_of_noneValid (hsound : s.stream.Sound) (hgeo : Geometry s.entries) (hnone : NoneValid s.entries) :
    Good f m₀ s where
  sound := hsound
  geometry := hgeo
  unique := hnone.unique
  held e he hvalid := by
    rw [hnone e he] at hvalid
    cases hvalid

/-- A new entry that passed the checks has places of its own. -/
theorem geometry_concat {built : List Entry} (h : Geometry built) {e : Entry}
    (hdevice : ∀ d ∈ built, disjoint e.device d.device) (hevent : ∀ d ∈ built, d.event ≠ e.event) :
    Geometry (built ++ [e]) := by
  refine pairwise_append.2 ⟨h, pairwise_singleton _ _, fun d hd d' hd' => ?_⟩
  obtain rfl := mem_singleton.1 hd'
  have hdisjoint := hdevice d hd
  simp only [disjoint, Bool.and_eq_true, decide_eq_true_eq] at hdisjoint
  exact ⟨hdisjoint.2.symm, hevent d hd⟩

/-- The entries that are allocated have places of their own and are invalid. -/
theorem allocateEntries_spec (n : ℕ) (built : List Entry) (hsound : s.stream.Sound) (hgeo : Geometry built)
    (hnone : NoneValid built) :
    (allocateEntries o n built s).2.2.stream.Sound ∧ Frame s (allocateEntries o n built s).2.2 ∧
      NoneValid (allocateEntries o n built s).2.1 ∧
      ((allocateEntries o n built s).1 → Geometry (allocateEntries o n built s).2.1 ∧
        (allocateEntries o n built s).2.1.length = built.length + n) ∧
      ((allocateEntries o n built s).1 = false → (allocateEntries o n built s).2.2.failed) := by
  induction n generalizing built s with
  | zero => exact ⟨hsound, .refl s, hnone, fun _ => ⟨hgeo, rfl⟩, by simp [allocateEntries]⟩
  | succ n ih =>
    have hconcat : ∀ e : Entry, e.valid = false → NoneValid (built ++ [e]) := by
      intro e he d hd
      rcases mem_append.1 hd with hd | hd
      · exact hnone d hd
      · rw [mem_singleton.1 hd, he]
    have hframe := frame_turn o s
    have hframe' := hframe.trans (frame_turn o (s.turn o))
    have hsound' := hsound.progress (s.answer o).progress
    unfold allocateEntries State.resource
    dsimp only
    split
    · exact ⟨hsound', hframe.trans (frame_fail _), hconcat _ rfl, by simp, fun _ => rfl⟩
    next hdevice =>
    split
    · exact ⟨hsound'.progress _, hframe'.trans (frame_fail _), hconcat _ rfl, by simp, fun _ => rfl⟩
    next hevent =>
    simp only [not_or, not_not, any_eq_true, not_exists, not_and, Bool.not_eq_true', Bool.not_eq_false,
      decide_eq_true_eq] at hdevice hevent
    have hgeo' := geometry_concat hgeo (e := ⟨(s.answer o).pointer, ((s.turn o).answer o).pointer, 0, false⟩)
      hdevice.2.2.2 hevent.2.2
    obtain ⟨h1, h2, h3, h4, h5⟩ := ih (s := (s.turn o).turn o) _ (hsound'.progress _) hgeo' (hconcat _ rfl)
    refine ⟨h1, hframe'.trans h2, h3, fun hok => ?_, h5⟩
    obtain ⟨hgeo, hlen⟩ := h4 hok
    refine ⟨hgeo, hlen.trans ?_⟩
    rw [length_append, length_singleton]
    omega

theorem sound_synchronize (h : s.stream.Sound) : (s.synchronize o).2.stream.Sound := by
  have hturn := h.progress (s.answer o).progress
  unfold State.synchronize
  dsimp only
  split
  · exact hturn.drain
  · exact hturn

theorem queue_synchronize : (s.synchronize o).2.stream.queue = s.stream.queue := by
  unfold State.synchronize
  dsimp only
  split <;> rfl

/-- What the release of the resources leaves. -/
structure Releases (s s' : State) : Prop where
  sound : s.stream.Sound → s'.stream.Sound
  entries : s'.entries = s.entries
  initialized : s'.initialized = s.initialized
  failed : s.failed → s'.failed

theorem Releases.refl (s : State) : Releases s s := ⟨id, rfl, rfl, id⟩

theorem Releases.trans {s s' s'' : State} (h : Releases s s') (h' : Releases s' s'') : Releases s s'' :=
  ⟨h'.sound ∘ h.sound, h'.entries.trans h.entries, h'.initialized.trans h.initialized, h'.failed ∘ h.failed⟩

theorem releases_turn (s : State) : Releases s (s.turn o) :=
  ⟨fun h => h.progress _, rfl, rfl, fun h => by simp [State.turn, h]⟩

theorem releases_fail (s : State) : Releases s s.fail := ⟨id, rfl, rfl, fun _ => rfl⟩

theorem releases_destroyEvent (event : ℕ) (rest : List Entry) (s : State) :
    Releases s (destroyEvent o event rest s).2 := by
  unfold destroyEvent State.resource
  split
  · exact .refl s
  · dsimp only
    split
    · exact releases_turn s
    · exact (releases_turn s).trans (releases_fail _)

theorem releases_releaseDevice (device : ℕ) (rest : List Entry) (s : State) :
    Releases s (releaseDevice o device rest s).2 := by
  unfold releaseDevice State.resource
  split
  · exact .refl s
  · dsimp only
    split
    · exact releases_turn s
    · exact (releases_turn s).trans (releases_fail _)

theorem releases_releaseEntries (fuel : ℕ) (entries : List Entry) (s : State) :
    Releases s (releaseEntries o fuel entries s) := by
  induction fuel generalizing entries s with
  | zero => exact .refl s
  | succ fuel ih =>
    cases entries with
    | nil => exact .refl s
    | cons e rest =>
      exact ((releases_destroyEvent e.event rest s).trans (releases_releaseDevice e.device _ _)).trans (ih _ _)

/-- The cache has failed or is closed. -/
def Dead (s : State) : Prop := s.failed = true ∨ s.initialized = false

/-- What holds between two calls. -/
structure Inv (f : Generation → ℤ → Row) (m₀ : Memory) (s : State) : Prop where
  sound : s.stream.Sound
  unique : UniqueTokens s.entries
  good : ¬ Dead s → Good f m₀ s

theorem Good.inv (h : Good f m₀ s) : Inv f m₀ s := ⟨h.sound, h.unique, fun _ => h⟩

/-- After a cleanup the cache is closed, or it has failed. -/
theorem cleanup_spec (hsound : s.stream.Sound) (hunique : UniqueTokens s.entries) :
    Inv f m₀ (cleanup o s) ∧ Dead (cleanup o s) ∧ (s.failed → (cleanup o s).failed) := by
  have hsync := sound_synchronize (o := o) hsound
  have hframe := frame_synchronize o s
  have hmono : s.failed → (s.synchronize o).2.failed := fun h => by
    by_contra hnot
    rw [hframe.failed (by simpa using hnot)] at h
    cases h
  unfold cleanup
  rcases hcall : s.synchronize o with ⟨ok, t⟩
  rw [hcall] at hsync hframe hmono
  dsimp only at hsync hframe hmono ⊢
  cases ok with
  | false =>
    exact ⟨⟨hsync, by rwa [State.fail, hframe.entries], fun h => absurd (.inl rfl) h⟩, .inl rfl,
      fun _ => rfl⟩
  | true =>
    rw [if_neg (by simp)]
    have hreleases := releases_releaseEntries (o := o) t.entries.length t.entries t.invalidate
    refine ⟨⟨hreleases.sound hsync, NoneValid.unique fun e he => ?_, fun h => absurd (.inr rfl) h⟩,
      .inr rfl, fun h => hreleases.failed (hmono h)⟩
    rw [hreleases.entries] at he
    simp only [State.invalidate, map_map, mem_map] at he
    obtain ⟨d, -, rfl⟩ := he
    rfl

/-! ## Import -/

/-- A submission that spares the row keeps it held. -/
theorem Held.submit {generation : Generation} {e : Entry} (h : Held f m₀ s.stream.queue generation e)
    {c : Command} (hc : c.Spares e.device) : Held f m₀ (s.submit o c).2.stream.queue generation e := by
  obtain ⟨-, hstream | ⟨-, hstream⟩⟩ := submit_spec o s c
  · rw [hstream]
    exact h.concat hc
  · rwa [hstream]

/-- An upload with the record of the event behind it holds the row. -/
theorem held_upload {queue : List Command} {generation : Generation} (e : Entry) :
    Held f m₀ (queue ++ [Command.upload e.device (f generation e.token)] ++ [Command.record e.event])
      generation e := by
  refine ⟨(queue ++ [Command.upload e.device (f generation e.token)]).length, List.getElem?_concat_length, ?_⟩
  refine Fifo.Since.concat (Fifo.since_length ?_) fun m hm => hm
  rw [Fifo.after_concat, exec, Regions.read_write]

theorem Geometry.zip {entries : List Entry} (h : Geometry entries) (records : List (ℤ × Row)) :
    Geometry ((entries.zip records).map Prod.fst) := by
  induction entries generalizing records with
  | nil => exact List.Pairwise.nil
  | cons e entries ih =>
    cases records with
    | nil => exact List.Pairwise.nil
    | cons r records =>
      obtain ⟨he, hrest⟩ := pairwise_cons.1 h
      refine pairwise_cons.2 ⟨fun d hd => he d ?_, ih hrest records⟩
      obtain ⟨p, hp, rfl⟩ := mem_map.1 hd
      exact (of_mem_zip hp).1

/-- The upload of rows holds each of them in its entry, and keeps what entries apart from these hold. -/
theorem uploadRows_spec (rows : List (Entry × ℤ × Row)) (hg : Good f m₀ s) (hnone : NoneValid s.entries)
    (hgeo : Geometry (rows.map Prod.fst)) (hrows : ∀ r ∈ rows, r.2.2 = f s.generation r.2.1) :
    Good f m₀ (uploadRows o rows s).2 ∧ Frame s (uploadRows o rows s).2 ∧
      (∀ e, (∀ r ∈ rows, Regions.Apart rowBytes r.1.device e.device) →
        Held f m₀ s.stream.queue s.generation e →
          Held f m₀ (uploadRows o rows s).2.stream.queue s.generation e) ∧
      ((uploadRows o rows s).1 → ∀ r ∈ rows, Held f m₀ (uploadRows o rows s).2.stream.queue
        s.generation { r.1 with token := r.2.1, valid := true }) := by
  induction rows generalizing s with
  | nil => exact ⟨hg, .refl s, fun _ _ h => h, by simp⟩
  | cons r rows ih =>
    obtain ⟨d, token, row⟩ := r
    have hrow : row = f s.generation token := hrows _ mem_cons_self
    obtain ⟨hapart, hgeo⟩ := pairwise_cons.1 hgeo
    have hspares : ∀ c : Command, SparesValid c s.entries := fun c e he hvalid => by
      rw [hnone e he] at hvalid
      cases hvalid
    have hgood₁ := hg.submit (o := o) (hspares (.upload d.device row))
    have hframe₁ := frame_submit o s (.upload d.device row)
    have hqueue₁ := @queue_of_submit o s (.upload d.device row)
    have hheld₁ : ∀ e : Entry, Regions.Apart rowBytes d.device e.device →
        Held f m₀ s.stream.queue s.generation e →
          Held f m₀ (s.submit o (.upload d.device row)).2.stream.queue s.generation e :=
      fun e he h => h.submit he
    unfold uploadRows
    rcases hcall₁ : s.submit o (.upload d.device row) with ⟨ok, s₁⟩
    rw [hcall₁] at hgood₁ hframe₁ hqueue₁ hheld₁
    dsimp only at hgood₁ hframe₁ hqueue₁ hheld₁ ⊢
    cases ok with
    | false => exact ⟨hgood₁, hframe₁, fun e he h => hheld₁ e (he _ mem_cons_self) h, by simp⟩
    | true =>
    rw [if_neg (by simp)]
    have hgood₂ := hgood₁.submit (o := o) (sparesValid_record d.event _)
    have hframe₂ := hframe₁.trans (frame_submit o s₁ (.record d.event))
    have hqueue₂ := @queue_of_submit o s₁ (.record d.event)
    have hheld₂ : ∀ e : Entry, Held f m₀ s₁.stream.queue s.generation e →
        Held f m₀ (s₁.submit o (.record d.event)).2.stream.queue s.generation e :=
      fun e h => h.submit trivial
    rcases hcall₂ : s₁.submit o (.record d.event) with ⟨ok, s₂⟩
    rw [hcall₂] at hgood₂ hframe₂ hqueue₂ hheld₂
    dsimp only at hgood₂ hframe₂ hqueue₂ hheld₂ ⊢
    cases ok with
    | false =>
      exact ⟨hgood₂, hframe₂, fun e he h => hheld₂ e (hheld₁ e (he _ mem_cons_self) h), by simp⟩
    | true =>
    rw [if_neg (by simp)]
    have hheld : Held f m₀ s₂.stream.queue s.generation { d with token, valid := true } := by
      rw [hqueue₂ rfl, hqueue₁ rfl, hrow]
      exact held_upload { d with token, valid := true }
    obtain ⟨hgood, hframe, hkeeps, hrest⟩ := ih hgood₂ (by rwa [hframe₂.entries]) hgeo
      (by rw [hframe₂.generation]; exact fun r hr => hrows r (mem_cons_of_mem _ hr))
    rw [hframe₂.generation] at hkeeps hrest
    refine ⟨hgood, hframe₂.trans hframe, fun e he h => ?_, fun hok r hr => ?_⟩
    · exact hkeeps e (fun r hr => he r (mem_cons_of_mem _ hr))
        (hheld₂ e (hheld₁ e (he _ mem_cons_self) h))
    · rcases mem_cons.1 hr with rfl | hr
      · refine hkeeps _ (fun r hr => ?_) hheld
        exact (hapart r.1 (mem_map_of_mem hr)).1.symm
      · exact hrest hok r hr

/-- The entry at a place after the publication of the records. -/
theorem getElem?_publish (entries : List Entry) (records : List (ℤ × Row)) (i : ℕ) :
    (publish entries records)[i]? = entries[i]?.map fun e =>
      (records[i]?.map fun r => { e with token := r.1, valid := true }).getD e := by
  induction entries, records using publish.induct generalizing i with
  | case1 e entries token row records ih =>
    cases i with
    | zero => rfl
    | succ i => exact ih i
  | case2 entries records h =>
    have hstays : publish entries records = entries := by
      unfold publish
      split
      · next e entries token row records => exact absurd rfl (h e entries token row records rfl)
      · rfl
    rw [hstays]
    cases entries with
    | nil => simp
    | cons e entries =>
      cases records with
      | nil => simp
      | cons r records => exact absurd rfl (h e entries r.1 r.2 records rfl)

/-- A publication keeps the places of the entries. -/
theorem publish_places (entries : List Entry) (records : List (ℤ × Row)) :
    (publish entries records).map (fun e => (e.device, e.event)) =
      entries.map fun e => (e.device, e.event) := by
  apply ext_getElem?
  intro i
  rw [List.getElem?_map, List.getElem?_map, getElem?_publish, Option.map_map]
  cases records[i]? <;> rfl

/-- The records are published when every one of them is held. -/
theorem good_publish (hg : Good f m₀ s) (hnone : NoneValid s.entries) {records : List (ℤ × Row)}
    (hnodup : (records.map Prod.fst).Nodup)
    (hheld : ∀ r ∈ s.entries.zip records, Held f m₀ s.stream.queue s.generation
      { r.1 with token := r.2.1, valid := true }) :
    Good f m₀ { s with entries := publish s.entries records } := by
  -- an entry that is valid now is that of a record
  have hvalid : ∀ (i : ℕ) (e : Entry), (publish s.entries records)[i]? = some e → e.valid →
      ∃ d r, s.entries[i]? = some d ∧ records[i]? = some r ∧ e = { d with token := r.1, valid := true } := by
    intro i e he hv
    rw [getElem?_publish, Option.map_eq_some_iff] at he
    obtain ⟨d, hd, rfl⟩ := he
    cases hr : records[i]? with
    | none =>
      rw [hr] at hv
      rw [Option.map_none, Option.getD_none, hnone d (mem_of_getElem? hd)] at hv
      cases hv
    | some r => exact ⟨d, r, hd, rfl, rfl⟩
  refine ⟨hg.sound, ?_, ?_, ?_⟩
  · refine (pairwise_map (f := fun e : Entry => (e.device, e.event))
      (R := fun p q => Regions.Apart rowBytes p.1 q.1 ∧ p.2 ≠ q.2)).1 ?_
    rw [publish_places]
    exact pairwise_map.2 hg.geometry
  · intro i j d e hd he hdv hev htoken
    obtain ⟨d₀, r, -, hr, rfl⟩ := hvalid i d hd hdv
    obtain ⟨e₀, q, -, hq, rfl⟩ := hvalid j e he hev
    have hi : (records.map Prod.fst)[i]? = some r.1 := by rw [List.getElem?_map, hr]; rfl
    have hj : (records.map Prod.fst)[j]? = some r.1 := by rw [List.getElem?_map, hq]; exact congrArg some htoken.symm
    obtain ⟨hilt, hi⟩ := List.getElem?_eq_some_iff.1 hi
    obtain ⟨hjlt, hj⟩ := List.getElem?_eq_some_iff.1 hj
    exact (List.Nodup.getElem_inj_iff hnodup).1 (hi.trans hj.symm)
  · intro e he hv
    obtain ⟨i, hi⟩ := mem_iff_getElem?.1 he
    obtain ⟨d, r, hd, hr, rfl⟩ := hvalid i e hi hv
    exact hheld (d, r) (mem_of_getElem? (List.getElem?_zip_eq_some.2 ⟨hd, hr⟩))

/-! ## Calls -/

/-- What a call returns is what the original would have given. -/
def Transparent (f : Generation → ℤ → Row) (m₀ : Memory) (s : State) (r : Outcome) : Call → Prop
  | .apply _ token input output =>
    (r.code = .miss → Original f m₀ s token input output r.state) ∧
      (r.code = .hit → Copied f m₀ s token output r.state)
  | .captureOriginal _ token input output =>
    (r.code = .miss → Original f m₀ s token input output r.state) ∧ r.code ≠ .hit
  | .lookupReady _ token =>
    r.state.stream.queue = s.stream.queue ∧
      (r.code = .hit → ∃ e, Lent f m₀ s token e r.state.stream.done ∧ r.row = e.device)
  | .reset generation =>
    r.code ≠ .hit ∧ (r.code = .miss → NoneValid r.state.entries ∧ generation = some r.state.generation)
  | .init .. | .importRows _ | .close => r.code ≠ .hit

/-- A call that is refused before the cache is entered: one for a row without a place for it, and an
initialization of a cache that is initialized. -/
def Refused (s : State) : Call → Prop
  | .lookupReady row_ok _ => row_ok = false
  | .init .. => s.initialized
  | _ => False

/-- The call initializes. -/
def Call.inits : Call → Bool
  | .init .. => true
  | _ => false

/-- What holds after a call. -/
structure Serves (f : Generation → ℤ → Row) (m₀ : Memory) (s : State) (c : Call) (r : Outcome) : Prop where
  inv : Inv f m₀ r.state
  transparent : Transparent f m₀ s r c
  /-- An error is latched. -/
  error : r.code = .error → ¬ Refused s c → Dead r.state
  /-- A cache that has failed or is closed serves no call but an initialization. -/
  dead : Dead s → c.inits = false → r.code = .error ∧ Dead r.state

/-- The imported rows are those that the original launch would produce. -/
def Imports (f : Generation → ℤ → Row) (s : State) : Call → Prop
  | .importRows (some a) => ∀ r ∈ a.records, r.2 = f s.generation r.1
  | _ => True

theorem not_dead_of_enter (h : enter s false) : ¬ Dead s := by
  simp only [enter, Bool.false_or, Bool.and_eq_true, Bool.not_eq_true'] at h
  rintro (hfailed | hclosed)
  · rw [h.2] at hfailed
    cases hfailed
  · rw [h.1] at hclosed
    cases hclosed

theorem dead_of_not_enter (h : ¬ enter s false) : Dead s := by
  simp only [enter, Bool.false_or, Bool.and_eq_true, Bool.not_eq_true', not_and, Bool.not_eq_false] at h
  cases hinit : s.initialized with
  | false => exact .inr hinit
  | true => exact .inl (h hinit)

/-- `ecache_leave` keeps a code but for an error that was latched meanwhile. -/
theorem leave_cases (code : Code) (s : State) :
    s.failed ∧ leave code s = (.error, s) ∨ s.failed = false ∧ leave code s = (code, s) := by
  unfold leave
  cases hfailed : s.failed with
  | false => exact .inr ⟨rfl, rfl⟩
  | true => exact .inl ⟨rfl, rfl⟩

/-- What a call through `ecache_enter` and `ecache_leave` returns: a miss leaves `miss`, a hit `hit`. -/
structure Returns (f : Generation → ℤ → Row) (m₀ : Memory) (s : State) (miss hit : State → Prop)
    (r : Code × State) : Prop where
  inv : Inv f m₀ r.2
  error : r.1 = .error → Dead r.2
  miss : r.1 = .miss → miss r.2
  hit : r.1 = .hit → hit r.2
  dead : Dead s → r.1 = .error

variable {miss hit : State → Prop}

section

variable (hs : Inv f m₀ s)
include hs

/-- A cache that is not entered. -/
theorem returns_refused (h : ¬ enter s false) :
    Returns f m₀ s miss hit (.error, s) :=
  ⟨hs, fun _ => dead_of_not_enter h, by simp, by simp, fun _ => rfl⟩

omit hs in
/-- The end of a call that was entered. -/
theorem returns_leave (hlive : ¬ Dead s) {code : Code} {t : State} (hinv : Inv f m₀ t)
    (herror : code = .error → t.failed) (hmiss : code = .miss → t.failed = false → miss t)
    (hhit : code = .hit → hit t) : Returns f m₀ s miss hit (leave code t) := by
  rcases leave_cases code t with ⟨hfailed, hleave⟩ | ⟨hfailed, hleave⟩
  · rw [hleave]
    exact ⟨hinv, fun _ => .inl hfailed, by simp, by simp, fun h => absurd h hlive⟩
  · rw [hleave]
    exact ⟨hinv, fun h => .inl (herror h), fun h => hmiss h hfailed, hhit, fun h => absurd h hlive⟩

theorem applyInternal_returns (lookup_hits launch_ok : Bool) (token : ℤ) (input output : ℕ) :
    Returns f m₀ s (Original f m₀ s token input output)
      (fun t => lookup_hits ∧ Copied f m₀ s token output t)
      (applyInternal o lookup_hits launch_ok token input output s) := by
  unfold applyInternal
  split
  · next h => exact returns_refused hs h
  · next h =>
    have hlive := not_dead_of_enter (not_not.1 h)
    have happlied := applyBody_spec (o := o) (hs.good hlive) lookup_hits launch_ok token input output
    exact returns_leave hlive happlied.good.inv happlied.error (fun h _ => happlied.miss h) happlied.hit

theorem reset_returns (generation : Option Generation) :
    Returns f m₀ s (fun t => NoneValid t.entries ∧ generation = some t.generation) (fun _ => False)
      (reset o generation s) := by
  unfold reset
  split
  · next h => exact returns_refused hs h
  next h =>
  have hlive := not_dead_of_enter (not_not.1 h)
  have hgood := hs.good hlive
  have hfail : ∀ (miss : State → Prop) (t : State), Good f m₀ t →
      Returns f m₀ s miss (fun _ => False) (leave .error t.fail) :=
    fun _ t ht => returns_leave hlive ht.fail.inv (fun _ => rfl) (by simp) (by simp)
  split
  · exact hfail _ s hgood
  · next generation =>
    split
    · exact hfail _ s hgood
    have hsync := hgood.synchronize (o := o)
    rcases hcall : s.synchronize o with ⟨ok, t⟩
    rw [hcall] at hsync
    dsimp only at hsync ⊢
    split
    · exact hfail _ t hsync
    · have hreset := hsync.invalidate generation
      refine returns_leave hlive (Good.inv { hreset with })
        (by simp) (fun _ _ => ⟨fun e he => ?_, rfl⟩) (by simp)
      simp only [State.invalidate, mem_map] at he
      obtain ⟨d, -, rfl⟩ := he
      rfl

theorem importRows_returns (artifact : Option Artifact)
    (hrows : ∀ a ∈ artifact, ∀ r ∈ a.records, r.2 = f s.generation r.1) :
    Returns f m₀ s (fun _ => True) (fun _ => False) (importRows o artifact s) := by
  unfold importRows
  split
  · next h => exact returns_refused hs h
  next h =>
  have hlive := not_dead_of_enter (not_not.1 h)
  have hgood := hs.good hlive
  have hfail : ∀ t : State, Good f m₀ t →
      Returns f m₀ s (fun _ => True) (fun _ => False) (leave .error t.fail) :=
    fun t ht => returns_leave hlive ht.fail.inv (fun _ => rfl) (by simp) (by simp)
  split
  · exact hfail s hgood
  · next a =>
    split
    · exact hfail s hgood
    next hok =>
    rw [not_or, not_or, not_or, not_not] at hok
    obtain ⟨hvalid, -, -, hnone⟩ := hok
    have hnone : NoneValid s.entries := by simpa [NoneValid] using hnone
    have hnodup : (a.records.map Prod.fst).Nodup := by
      simp only [Artifact.valid, Bool.and_eq_true, decide_eq_true_eq] at hvalid
      exact hvalid.2
    have hupload := uploadRows_spec (o := o) (s.entries.zip a.records) hgood hnone (hgood.geometry.zip _)
      fun r hr => hrows a rfl r.2 (of_mem_zip hr).2
    rcases hcall : uploadRows o (s.entries.zip a.records) s with ⟨ok, t⟩
    rw [hcall] at hupload
    obtain ⟨hgood₁, hframe₁, -, hheld⟩ := hupload
    dsimp only at hgood₁ hframe₁ hheld ⊢
    split
    · exact hfail t hgood₁
    next hok =>
    have hsync := hgood₁.synchronize (o := o)
    have hframe₂ := frame_synchronize o t
    have hqueue := queue_synchronize (o := o) (s := t)
    rcases hcall : t.synchronize o with ⟨ok', u⟩
    rw [hcall] at hsync hframe₂ hqueue
    dsimp only at hsync hframe₂ hqueue ⊢
    split
    · exact hfail u hsync
    · refine returns_leave hlive (good_publish hsync ?_ hnodup fun r hr => ?_).inv (by simp)
        (fun _ _ => trivial) (by simp)
      · rw [hframe₂.entries, hframe₁.entries]
        exact hnone
      · rw [hframe₂.entries, hframe₁.entries] at hr
        rw [hqueue, hframe₂.generation, hframe₁.generation]
        exact hheld (not_not.1 hok) r hr

theorem close_returns :
    Returns f m₀ s (fun _ => True) (fun _ => False) (close o s) := by
  unfold close
  split
  · next h =>
    refine returns_refused hs fun hlive => h ?_
    simp only [enter, Bool.false_or, Bool.true_or, Bool.and_eq_true] at hlive ⊢
    exact ⟨hlive.1, trivial⟩
  · next h =>
    have hinit : s.initialized := by simpa [enter] using h
    have hclean : Inv f m₀ (cleanup o s) ∧ Dead (cleanup o s) ∧ (s.failed → (cleanup o s).failed) :=
      cleanup_spec hs.sound hs.unique
    obtain ⟨hinv, hdead, hfailed⟩ := hclean
    rcases leave_cases .miss (cleanup o s) with ⟨h, hleave⟩ | ⟨h, hleave⟩
    · rw [hleave]
      exact ⟨hinv, fun _ => hdead, by simp, by simp, fun _ => rfl⟩
    · rw [hleave]
      refine ⟨hinv, by simp, fun _ => trivial, by simp, ?_⟩
      rintro (hs | hs)
      · rw [hfailed hs] at h
        cases h
      · rw [hinit] at hs
        cases hs

/-- A lookup enqueues nothing, and lends the row of a ready entry. -/
theorem lookupReady_returns (token : ℤ) :
    Returns f m₀ s (fun _ => True)
        (fun t => ∃ e, Lent f m₀ s token e t.stream.done ∧ (lookupReady o token s).2.1 = e.device)
        ((lookupReady o token s).1, (lookupReady o token s).2.2) ∧
      (lookupReady o token s).2.2.stream.queue = s.stream.queue := by
  unfold lookupReady
  split
  · next h => exact ⟨returns_refused hs h, rfl⟩
  next h =>
  have hlive := not_dead_of_enter (not_not.1 h)
  have hgood := hs.good hlive
  split
  · exact ⟨returns_leave hlive hgood.inv (by simp) (fun _ _ => trivial) (by simp), rfl⟩
  split
  · exact ⟨returns_leave hlive hgood.inv (by simp) (fun _ _ => trivial) (by simp), rfl⟩
  next slot hfind =>
  have hready := ready_spec (o := o) hgood slot
  have hlent := @lent_of_ready f m₀ o s hgood token slot hfind
  rcases hcall : ready o slot s with ⟨_ | _ | _, t⟩ <;> rw [hcall] at hready hlent
  · exact ⟨returns_leave hlive hready.1.inv (fun _ => hready.2.2.1 rfl) (by simp) (by simp), hready.2.1.queue⟩
  · exact ⟨returns_leave hlive hready.1.inv (by simp) (fun _ _ => trivial) (by simp), hready.2.1.queue⟩
  · refine ⟨returns_leave hlive hready.1.inv (by simp) (by simp) fun _ => ?_, hready.2.1.queue⟩
    refine ⟨_, hlent rfl, ?_⟩
    have hentries : t.entries = s.entries := hready.2.1.entries
    change (t.entries.getD slot .zero).device = _
    rw [hentries]

/-- An initialization that is not refused ends with a cache without valid entries, or without a cache. -/
theorem init_spec (arguments_ok : Bool) (generation : Generation) (capacity : ℕ) :
    Inv f m₀ (init o arguments_ok generation capacity s).2 ∧
      (init o arguments_ok generation capacity s).1 ≠ .hit ∧
      ((init o arguments_ok generation capacity s).1 = .error → s.initialized = false →
        Dead (init o arguments_ok generation capacity s).2) := by
  unfold init
  split
  · exact ⟨hs, by simp, fun _ h => .inr h⟩
  have halloc := allocateEntries_spec (o := o)
    (s := { s with entries := [], generation, next_victim := 0, initialized := true, failed := false })
    capacity [] hs.sound List.Pairwise.nil (by simp [NoneValid])
  dsimp only
  rcases hcall : allocateEntries o capacity []
    { s with entries := [], generation, next_victim := 0, initialized := true, failed := false }
    with ⟨ok, entries, t⟩
  rw [hcall] at halloc
  obtain ⟨hsound, hframe, hnone, htrue, hfalse⟩ := halloc
  dsimp only at hsound hframe hnone htrue hfalse ⊢
  have hnone' : NoneValid (entries ++ List.replicate (capacity - entries.length) .zero) := by
    intro e he
    rcases mem_append.1 he with he | he
    · exact hnone e he
    · rw [eq_of_mem_replicate he]
      rfl
  cases ok with
  | true =>
    obtain ⟨hgeo, hlen⟩ := htrue rfl
    rw [if_pos rfl]
    have hfull : entries ++ List.replicate (capacity - entries.length) Entry.zero = entries := by
      rw [hlen, length_nil, Nat.zero_add, Nat.sub_self, replicate_zero, append_nil]
    rw [hfull]
    have hgood : Good f m₀ { t with entries } := good_of_noneValid hsound hgeo hnone
    rcases leave_cases .miss { t with entries } with ⟨hfailed, hleave⟩ | ⟨hfailed, hleave⟩
    · rw [hleave]
      exact ⟨hgood.inv, by simp, fun _ _ => Or.inl hfailed⟩
    · rw [hleave]
      exact ⟨hgood.inv, by simp, by simp⟩
  | false =>
    rw [if_neg (by simp)]
    have hclean : ∀ u : State, u.stream.Sound → UniqueTokens u.entries →
        Inv f m₀ (cleanup o u) ∧ Dead (cleanup o u) ∧ (u.failed → (cleanup o u).failed) :=
      fun u h h' => cleanup_spec h h'
    obtain ⟨hinv, hdead, -⟩ := hclean
      { t with entries := entries ++ List.replicate (capacity - entries.length) .zero } hsound hnone'.unique
    rcases leave_cases .error (cleanup o
      { t with entries := entries ++ List.replicate (capacity - entries.length) .zero })
      with ⟨-, hleave⟩ | ⟨-, hleave⟩
    · rw [hleave]
      exact ⟨hinv, by simp, fun _ _ => hdead⟩
    · rw [hleave]
      exact ⟨hinv, by simp, fun _ _ => hdead⟩

/-- Every call serves. -/
theorem call_serves (c : Call) (hc : Imports f s c) : Serves f m₀ s c (call o s c) := by
  have hreturns : ∀ {miss hit : State → Prop} {r : Code × State}, Returns f m₀ s miss hit r →
      Dead s → r.1 = .error ∧ Dead r.2 := fun h hd => ⟨h.dead hd, h.error (h.dead hd)⟩
  cases c with
  | init arguments_ok generation capacity =>
    obtain ⟨hinv, hhit, herror⟩ := init_spec hs arguments_ok generation capacity
    refine ⟨hinv, hhit, fun hcode hrefused => herror hcode ?_, fun _ h => by cases h⟩
    simpa [Refused] using hrefused
  | apply launch_ok token input output =>
    have h := applyInternal_returns (o := o) hs true launch_ok token input output
    exact ⟨h.inv, ⟨h.miss, fun hcode => (h.hit hcode).2⟩, fun hcode _ => h.error hcode,
      fun hd _ => hreturns h hd⟩
  | captureOriginal launch_ok token input output =>
    have h := applyInternal_returns (o := o) hs false launch_ok token input output
    refine ⟨h.inv, ⟨h.miss, fun hcode => ?_⟩, fun hcode _ => h.error hcode, fun hd _ => hreturns h hd⟩
    cases (h.hit hcode).1
  | lookupReady row_ok token =>
    cases row_ok with
    | false => exact ⟨hs, ⟨rfl, by simp [call]⟩, fun _ h => absurd rfl h, fun hd _ => ⟨rfl, hd⟩⟩
    | true =>
      obtain ⟨h, hqueue⟩ := lookupReady_returns hs token
      exact ⟨h.inv, ⟨hqueue, h.hit⟩, fun hcode _ => h.error hcode, fun hd _ => hreturns h hd⟩
  | importRows artifact =>
    have h := importRows_returns (o := o) hs artifact fun a ha => by
      obtain rfl : artifact = some a := ha
      exact hc
    exact ⟨h.inv, fun hcode => h.hit hcode, fun hcode _ => h.error hcode, fun hd _ => hreturns h hd⟩
  | reset generation =>
    have h := reset_returns (o := o) hs generation
    exact ⟨h.inv, ⟨fun hcode => h.hit hcode, h.miss⟩, fun hcode _ => h.error hcode, fun hd _ => hreturns h hd⟩
  | close =>
    have h := close_returns (o := o) hs
    exact ⟨h.inv, fun hcode => h.hit hcode, fun hcode _ => h.error hcode, fun hd _ => hreturns h hd⟩

/-! ## Runs -/

/-- A cache that has failed or is closed stays so until an initialization. -/
theorem dead_run (hd : Dead s) {calls : List Call} (hcalls : Runs.Admits (step o) (Imports f) s calls)
    (hinit : ∀ c ∈ calls, c.inits = false) :
    Dead (run (step o) s calls) := by
  induction calls generalizing s with
  | nil => exact hd
  | cons c calls ih =>
    obtain ⟨hc, hcalls⟩ := admits_cons.1 hcalls
    have hserves := call_serves (o := o) hs c hc
    exact ih hserves.inv (hserves.dead hd (hinit c mem_cons_self)).2 hcalls
      fun c hc => hinit c (mem_cons_of_mem _ hc)

end

/-- In every run whose imported rows are those of the original launch, whatever the device answers: at
most one valid entry has a token, every call is transparent, and after a call that failed without being
refused every call fails until the cache is initialized again. -/
theorem cache_transparent (f : Generation → ℤ → Row) (m₀ : Memory) (o : Oracle) (calls : List Call) (c : Call)
    (later : List Call) (d : Call)
    (h : Runs.Admits (step o) (Imports f) .zero (calls ++ c :: (later ++ [d]))) :
    UniqueTokens (run (step o) .zero (calls ++ [c])).entries ∧
      Transparent f m₀ (run (step o) .zero calls) (call o (run (step o) .zero calls) c) c ∧
      ((call o (run (step o) .zero calls) c).code = .error →
        ¬ Refused (run (step o) .zero calls) c → (∀ e ∈ later ++ [d], e.inits = false) →
          (call o (run (step o) .zero (calls ++ c :: later)) d).code = .error) := by
  have hzero : Inv f m₀ .zero :=
    ⟨.empty, by simp [State.zero, UniqueTokens], fun h => absurd (.inr rfl) h⟩
  obtain ⟨hcalls, hrest⟩ := admits_append.1 h
  obtain ⟨hc, hrest⟩ := admits_cons.1 hrest
  obtain ⟨hlater, hd⟩ := admits_append.1 hrest
  have hinv : Inv f m₀ (run (step o) .zero calls) :=
    run_invariant_of (P := Inv f m₀) (fun s c hs hc => (call_serves hs c hc).inv) hzero hcalls
  have hserves := call_serves (o := o) hinv c hc
  refine ⟨?_, hserves.transparent, fun hcode hrefused hinit => ?_⟩
  · rw [run_concat]
    exact hserves.inv.unique
  · rw [run_append, run_cons]
    have hdead := dead_run hserves.inv (hserves.error hcode hrefused) hlater
      fun e he => hinit e (mem_append_left _ he)
    have hinv' : Inv f m₀ (run (step o) (step o (run (step o) .zero calls) c) later) :=
      run_invariant_of (P := Inv f m₀) (fun s c hs hc => (call_serves hs c hc).inv) hserves.inv hlater
    have hlast := call_serves (o := o) hinv' d (admits_cons.1 hd).1
    exact (hlast.dead hdead (hinit d (mem_append_right _ (mem_singleton_self d)))).1

namespace Sample

/-- Rows that show their token. -/
def row : Generation → ℤ → Row := fun _ token _ => UInt8.ofNat token.toNat

/-- A device that succeeds in everything, a few commands at a time. -/
def oracle : Oracle := fun k => ⟨4, false, 0, true, 10240 * (k + 1)⟩

/-- A cache of one entry, and a miss that captures its row. -/
def calls : List Call := [.init true 1 1, .apply true 5 1000000 2000000]

/-- The same token again, for another output. -/
def again : Call := .apply true 5 1000000 3000000

end Sample

/-- The theorem at a run that captures a row, hits it, and is closed. -/
theorem cache_transparent_sample :
    (call Sample.oracle (run (step Sample.oracle) .zero Sample.calls) Sample.again).code = .hit ∧
      UniqueTokens (run (step Sample.oracle) .zero (Sample.calls ++ [Sample.again])).entries ∧
      Transparent Sample.row (fun _ => 0) (run (step Sample.oracle) .zero Sample.calls)
        (call Sample.oracle (run (step Sample.oracle) .zero Sample.calls) Sample.again) Sample.again := by
  have hadmits : Runs.Admits (step Sample.oracle) (Imports Sample.row) .zero
      (Sample.calls ++ Sample.again :: ([] ++ [.close])) := by
    refine admits_cons.2 ⟨trivial, admits_cons.2 ⟨trivial, admits_cons.2 ⟨trivial, ?_⟩⟩⟩
    exact admits_cons.2 ⟨trivial, admits_nil⟩
  have h := cache_transparent Sample.row (fun _ => 0) Sample.oracle Sample.calls Sample.again [] .close hadmits
  exact ⟨by decide +kernel, h.1, h.2.1⟩

end StrixAlloy.EmbeddingCache

import StrixAlloy.Retention.Safety

/-!
# Deletion and cleanup can finish

Where nothing fails any more, a cleanup of a state that the planner accepts removes every recording, and a deletion
removes its revision.
-/

namespace StrixAlloy.Retention

open Faulty List

variable {o : Env} {s t : State}

/-- Nothing fails or is stopped, the lock is free and no call is active. -/
structure Good (o : Env) : Prop where
  answer : ∀ n l, o.answer n l = .done
  lock : ∀ n, o.lock n
  idle : ∀ n, o.idle n = some true

theorem Good.last (ho : Good o) {l : Step} {f : State → State} {P : Post State Error Unit} (h : P.returned () (f s)) :
    Ends o s (effect l f) P := by
  refine effect_ends h ?_ ?_
  all_goals
    rintro ⟨n, hn⟩
    rw [ho.answer] at hn
    cases hn

section Good

variable {α : Type} {k : Unit → Filed α} {P : Post State Error α}

/-- An operation is done. -/
theorem Good.effect (ho : Good o) {l : Step} {f : State → State} (hk : Ends o (f s) (k ()) P) :
    Ends o s (effect l f >>= k) P :=
  Ends.bind (ho.last hk)

theorem Good.check (ho : Good o) (hk : Ends o s (k ()) P) : Ends o s (serviceCheck >>= k) P :=
  Ends.bind (Ends.answer fun n => Ends.given (ho.idle n) (Ends.require (fun _ => hk) fun h => absurd rfl h))

theorem Good.activationLock (ho : Good o) {body : Filed α} {Q : α → State → Prop}
    (h : Ends o s body (Post.returns Q)) : Ends o s (activationLock body) (Post.returns Q) := by
  refine Ends.answer fun n => Ends.holds (ho.lock n) (Ends.ensure (Ends.mono h ?_ ?_ fun _ h => h))
  · exact fun _ _ h => ho.last h
  · exact fun _ _ h => h.elim

/-- A write commits. -/
theorem Good.atomicJson (ho : Good o) {d : Dir} {name : String} {commit : State → State} :
    Ends o s (atomicJson true d name commit) (Post.returns fun _ t => t = commit { s with next := s.next + 1 }) := by
  refine Ends.bind (Ends.bind (Ends.get (Ends.bind (Ends.modify (Ends.pure (ho.effect ?_))))))
  refine Ends.bind (Ends.tried (ho.effect (ho.effect (ho.last (ho.last ?_)))))
  exact congrArg commit (dropStray_addStray _ d)

end Good

/-! ## Entries of a directory -/

section Entries

variable {κ α : Type} [DecidableEq κ] {key k : κ} {f : α → α} {l : List (κ × α)}

theorem getAt_mapAt : getAt key (mapAt key f l) = (getAt key l).map f := by
  unfold getAt mapAt
  induction l with
  | nil => rfl
  | cons x l ih =>
    by_cases h : x.1 = key
    · simp [h]
    · simpa only [map_cons, List.find?_cons, h, if_false, decide_false] using ih

theorem dropAt_mapAt : dropAt key (mapAt key f l) = dropAt key l := by
  unfold dropAt mapAt
  induction l with
  | nil => rfl
  | cons x l ih => by_cases h : x.1 = key <;> simpa [h] using ih

theorem exists_getAt (h : key ∈ l.map Prod.fst) : ∃ a, getAt key l = some a := by
  obtain ⟨x, hx, rfl⟩ := mem_map.1 h
  unfold getAt
  cases hf : l.find? fun y => y.1 = x.1 with
  | none => exact absurd (List.find?_eq_none.1 hf x hx) (by simp)
  | some y => exact ⟨y.2, rfl⟩

theorem mem_keys_dropAt : k ∈ (dropAt key l).map Prod.fst ↔ k ∈ l.map Prod.fst ∧ k ≠ key := by
  simp only [mem_map, mem_dropAt]
  constructor
  · rintro ⟨x, ⟨hx, hne⟩, rfl⟩
    exact ⟨⟨x, hx, rfl⟩, hne⟩
  · rintro ⟨⟨x, hx, rfl⟩, hne⟩
    exact ⟨x, ⟨hx, hne⟩, rfl⟩

theorem dropAt_of_notMem (h : key ∉ l.map Prod.fst) : dropAt key l = l := by
  refine filter_eq_self.2 fun x hx => decide_eq_true ?_
  rintro rfl
  exact h (mem_map_of_mem hx)

end Entries

/-- A directory whose names are gone is empty. -/
theorem eq_nil_of_keys {κ α : Type} {l : List (κ × α)} (h : ∀ k, k ∉ l.map Prod.fst) : l = [] := by
  cases l with
  | nil => rfl
  | cons x l => exact absurd mem_cons_self (h x.1)

/-! ## Folders -/

theorem folder_mapFolder (g : Folder → Folder) (p : Place) : (s.mapFolder g p).folder p = (s.folder p).map g := by
  cases p with
  | staging => exact getAt_mapAt
  | quarantine => exact getAt_mapAt
  | _ =>
    simp only [State.folder, State.mapFolder, State.mapUpload, getAt_mapAt]
    cases getAt _ s.uploads with
    | none => rfl
    | some => exact getAt_mapAt

theorem dropFolder_mapFolder (g : Folder → Folder) (p : Place) : (s.mapFolder g p).dropFolder p = s.dropFolder p := by
  cases p <;> simp only [State.dropFolder, State.mapFolder, State.mapUpload, mapAt_mapAt, dropAt_mapAt]

theorem mapFolder_mapFolder (f g : Folder → Folder) (p : Place) :
    (s.mapFolder f p).mapFolder g p = s.mapFolder (fun x => g (f x)) p := by
  cases p <;> simp only [State.mapFolder, State.mapUpload, mapAt_mapAt]

theorem mapFolder_id (p : Place) : s.mapFolder (fun f => f) p = s := by
  cases p <;> simp only [State.mapFolder, State.mapUpload, mapAt_id]

/-- The files are removed one by one. -/
theorem unlinkAll_done (ho : Good o) (p : Place) (names : List File) :
    Ends o s (unlinkAll p names)
      (Post.returns fun _ t => t = s.mapFolder (fun f => names.foldl (fun f name => f.remove name) f) p) := by
  induction names generalizing s with
  | nil => exact Ends.pure (mapFolder_id p).symm
  | cons name names ih =>
    refine ho.effect (Ends.mono ih (fun _ t ht => ?_) (fun _ _ h => h) fun _ h => h)
    exact ht.trans (mapFolder_mapFolder _ _ p)

/-- A folder without strays is empty once its files are removed. -/
theorem Folder.removed {f : Folder} (h : f.plain) : (f.files.foldl (fun f name => f.remove name) f).files = [] := by
  unfold Folder.plain at h
  have hs : f.strays = [] := of_decide_eq_true (Bool.and_eq_true _ _ ▸ h).1
  obtain ⟨voice, owner, source, reference, strays⟩ := f
  subst hs
  cases voice <;> cases owner <;> cases source <;> cases reference <;> rfl

theorem purgeTree_done (ho : Good o) {p : Place} {f : Folder} (hf : s.folder p = some f) (hp : f.plain) :
    Ends o s (purgeTree p) (Post.returns fun _ t => t = s.dropFolder p) := by
  refine ho.effect (Ends.look (Ends.given hf (Ends.after (unlinkAll_done ho p f.files) ?_)))
  rintro _ t rfl
  refine Ends.look (Ends.holds ?_ (ho.last (dropFolder_mapFolder _ p)))
  rw [folder_mapFolder, id_eq, hf]
  exact decide_eq_true (Folder.removed hp)

/-! ## Uploads -/

/-- From `s`, the upload is now `u`, and nothing else has changed. -/
structure Purging (upload : ℕ) (u : Upload) (s t : State) : Prop where
  content : getAt upload t.uploads = some u
  rest : { t with uploads := dropAt upload t.uploads } = { s with uploads := dropAt upload s.uploads }

section Uploads

variable {upload : ℕ} {u : Upload}

theorem Purging.map (h : Purging upload u s t) (f : Upload → Upload) :
    Purging upload (f u) s (t.mapUpload upload f) := by
  refine ⟨?_, ?_⟩
  · rw [State.mapUpload, getAt_mapAt, h.content]
    rfl
  · rw [State.mapUpload, dropAt_mapAt]
    exact h.rest

/-- The folders of one of an upload's lists are removed, `get` and `set` being that list. -/
theorem purgeFolders_done {κ : Type} [DecidableEq κ] (ho : Good o) {place : κ → Place}
    (get : Upload → List (κ × Folder)) (set : List (κ × Folder) → Upload → Upload)
    (hfolder : ∀ s k, State.folder s (place k) = (getAt upload s.uploads).bind fun u : Upload => getAt k (get u))
    (hdrop : ∀ s k, State.dropFolder s (place k) = s.mapUpload upload fun u : Upload => set (dropAt k (get u)) u)
    (hget : ∀ l u, get (set l u) = l) (hset : ∀ l l' u, set l (set l' u) = set l u) (hself : ∀ u, set (get u) u = u)
    {ks : List κ} (hn : ks.Nodup) (hks : ∀ k, k ∈ (get u).map Prod.fst ↔ k ∈ ks)
    (hp : ∀ x ∈ get u, x.2.plain) (h : Purging upload u s t) :
    Ends o t (purgeFolders (ks.map place)) (Post.returns fun _ t => Purging upload (set [] u) s t) := by
  induction ks generalizing u t with
  | nil =>
    have hnil : get u = [] := eq_nil_of_keys fun k hk => not_mem_nil ((hks k).1 hk)
    refine Ends.pure ?_
    rw [← hnil, hself]
    exact h
  | cons k ks ih =>
    obtain ⟨hk, hn⟩ := nodup_cons.1 hn
    obtain ⟨f, hf⟩ := exists_getAt ((hks k).2 mem_cons_self)
    have hfound : t.folder (place k) = some f := by rw [hfolder, h.content, Option.bind_some, hf]
    refine Ends.after (purgeTree_done ho hfound (hp _ (mem_of_getAt hf))) ?_
    rintro _ t' rfl
    have ht := h.map fun u : Upload => set (dropAt k (get u)) u
    rw [← hdrop] at ht
    have hend := ih (u := set (dropAt k (get u)) u) hn ?_ ?_ ht
    · rwa [hset] at hend
    · intro k'
      rw [hget, mem_keys_dropAt, hks, mem_cons]
      exact ⟨fun hm => hm.1.resolve_left hm.2, fun hm => ⟨.inr hm, fun e => hk (e ▸ hm)⟩⟩
    · rw [hget]
      exact fun x hx => hp x (mem_dropAt.1 hx).1

theorem purgeUpload_done (ho : Good o) (hu : getAt upload s.uploads = some u) (hv : validateUpload u) :
    Ends o s (purgeUpload upload) (Post.returns fun _ t => t = { s with uploads := dropAt upload s.uploads }) := by
  unfold validateUpload at hv
  rw [Bool.and_eq_true, all_eq_true, all_eq_true] at hv
  refine ho.effect (Ends.look (Ends.given hu ?_))
  refine Ends.after (purgeFolders_done ho Upload.staging (fun l u => { u with staging := l })
    (fun _ _ => rfl) (fun _ _ => rfl) (fun _ _ => rfl) (fun _ _ _ => rfl) (fun _ => rfl) (nodup_dedup _)
    (fun _ => mem_dedup.symm) hv.1 ⟨hu, rfl⟩) ?_
  intro _ t ht
  refine Ends.after (purgeFolders_done (u := { u with staging := [] }) ho Upload.staged
    (fun l u => { u with staged := l })
    (fun _ _ => rfl) (fun _ _ => rfl) (fun _ _ => rfl) (fun _ _ _ => rfl) (fun _ => rfl) (nodup_dedup _)
    (fun _ => mem_dedup.symm) hv.2 ht) ?_
  intro _ t ht
  refine ho.effect (ho.effect (ho.effect (Ends.look ?_)))
  have ht := ((ht.map fun u => { u with revisions := false }).map fun u => { u with profiles := false }).map
    fun u => { u with recording := false }
  refine Ends.holds ?_ (ho.last ht.rest)
  rw [ht.content]
  rfl

end Uploads

/-! ## Cleanup -/

/-- The residue is in its directory. -/
def Residue.There (s : State) : Residue → Prop
  | .folder (.quarantine q) => q ∈ s.quarantine.map Prod.fst
  | .folder (.staging name) => name ∈ s.staging.map Prod.fst
  | .folder _ => False
  | .upload name => name ∈ s.uploads.map Prod.fst

def Residue.drop (s : State) : Residue → State
  | .folder p => s.dropFolder p
  | .upload name => { s with uploads := dropAt name s.uploads }

/-- The folders to remove can be. -/
structure Flat (s : State) : Prop where
  quarantine : ∀ x ∈ s.quarantine, x.2.plain
  staging : ∀ x ∈ s.staging, x.2.plain
  uploads : ∀ u ∈ s.uploads, validateUpload u.2

theorem Accepted.flat (h : Accepted s) : Flat s := by
  refine ⟨fun x hx => ?_, h.staging, h.uploads⟩
  have hv := h.quarantine x hx
  unfold validateQuarantine at hv
  rw [Bool.and_eq_true, Bool.and_eq_true] at hv
  exact hv.1.2

theorem Residue.purge_done (ho : Good o) (hf : Flat s) {r : Residue} (hr : r.There s) :
    Ends o s r.purge (Post.returns fun _ t => t = r.drop s) := by
  cases r with
  | upload name =>
    obtain ⟨u, hu⟩ := exists_getAt hr
    exact purgeUpload_done ho hu (hf.uploads _ (mem_of_getAt hu))
  | folder p =>
    cases p with
    | quarantine q =>
      obtain ⟨f, hq⟩ := exists_getAt hr
      exact purgeTree_done ho hq (hf.quarantine _ (mem_of_getAt hq))
    | staging name =>
      obtain ⟨f, hn⟩ := exists_getAt hr
      exact purgeTree_done ho hn (hf.staging _ (mem_of_getAt hn))
    | _ => exact hr.elim

/-- A residue that is removed is gone, and no other. -/
theorem Residue.there_drop (hf : Flat s) {r : Residue} (hr : r.There s) :
    Flat (r.drop s) ∧ (∀ r', r'.There (r.drop s) ↔ r'.There s ∧ r' ≠ r) ∧
      { r.drop s with quarantine := [], uploads := [], staging := [] } =
        { s with quarantine := [], uploads := [], staging := [] } := by
  obtain ⟨hq, hs, hu⟩ := hf
  cases r with
  | upload name =>
    refine ⟨⟨hq, hs, fun x hx => hu x (mem_dropAt.1 hx).1⟩, ?_, rfl⟩
    rintro (p | name')
    · cases p <;> simp [There, drop]
    · simp only [There, drop, mem_keys_dropAt, ne_eq, Residue.upload.injEq]
  | folder p =>
    cases p with
    | quarantine q =>
      refine ⟨⟨fun x hx => hq x (mem_dropAt.1 hx).1, hs, hu⟩, ?_, rfl⟩
      rintro (p | name')
      · cases p <;> simp [There, drop, State.dropFolder, mem_keys_dropAt]
      · simp [There, drop, State.dropFolder]
    | staging name =>
      refine ⟨⟨hq, fun x hx => hs x (mem_dropAt.1 hx).1, hu⟩, ?_, rfl⟩
      rintro (p | name')
      · cases p <;> simp [There, drop, State.dropFolder, mem_keys_dropAt]
      · simp [There, drop, State.dropFolder]
    | _ => exact hr.elim

theorem purgeResidues_done (ho : Good o) {rs : List Residue} (hf : Flat s) (hn : rs.Nodup)
    (hrs : ∀ r, r.There s ↔ r ∈ rs) :
    Ends o s (purgeResidues rs)
      (Post.returns fun _ t => t = { s with quarantine := [], uploads := [], staging := [] }) := by
  induction rs generalizing s with
  | nil =>
    have hq : s.quarantine = [] := eq_nil_of_keys fun q hq => not_mem_nil ((hrs (.folder (.quarantine q))).1 hq)
    have hs : s.staging = [] := eq_nil_of_keys fun n hn => not_mem_nil ((hrs (.folder (.staging n))).1 hn)
    have hu : s.uploads = [] := eq_nil_of_keys fun n hn => not_mem_nil ((hrs (.upload n)).1 hn)
    refine Ends.pure ?_
    rw [← hq, ← hs, ← hu]
    exact rfl
  | cons r rs ih =>
    obtain ⟨hr, hn⟩ := nodup_cons.1 hn
    have hthere := (hrs r).2 mem_cons_self
    obtain ⟨hf', hthere', hsame⟩ := Residue.there_drop hf hthere
    refine ho.check (Ends.after (Residue.purge_done ho hf hthere) ?_)
    rintro _ t rfl
    rw [← hsame]
    refine ih hf' hn fun r' => ?_
    rw [hthere', hrs, mem_cons]
    exact ⟨fun hm => hm.1.resolve_left hm.2, fun hm => ⟨.inr hm, fun e => hr (e ▸ hm)⟩⟩

/-- The residues of a plan are those that are there, each once. -/
theorem residues_of_pending (h : Tracked s) :
    s.pending.residues.Nodup ∧ ∀ r : Residue, r.There s ↔ r ∈ s.pending.residues := by
  unfold Pending.residues State.pending
  constructor
  · have hq : (s.quarantine.map Prod.fst).Nodup := by
      refine List.Nodup.of_map QuarantineName.profile_id ?_
      rw [map_map]
      exact (nodup_append.1 h.once).2.1
    refine nodup_append.2 ⟨nodup_append.2 ⟨?_, ?_, ?_⟩, ?_, ?_⟩
    · exact hq.map fun a b e => Place.quarantine.inj (Residue.folder.inj e)
    · exact (nodup_dedup _).map fun a b e => Residue.upload.inj e
    · intro a ha b hb e
      obtain ⟨x, -, rfl⟩ := mem_map.1 ha
      obtain ⟨y, -, rfl⟩ := mem_map.1 hb
      cases e
    · exact (nodup_dedup _).map fun a b e => Place.staging.inj (Residue.folder.inj e)
    · intro a ha b hb e
      obtain ⟨y, -, rfl⟩ := mem_map.1 hb
      obtain ha | ha := mem_append.1 ha
      all_goals
        obtain ⟨x, -, rfl⟩ := mem_map.1 ha
        cases e
  · rintro (p | name)
    · cases p <;> simp [Residue.There]
    · simp [Residue.There]

/-- What a new quarantine folder and its journal rely on. -/
structure Fresh (s : State) : Prop where
  tokens : ∀ x ∈ s.quarantine, x.1.token < s.next
  journals : ∀ y ∈ s.journals, y.1 < s.next

theorem Tracked.fresh (h : Tracked s) : Fresh s := by
  refine ⟨fun x hx => ?_, fun y hy => (h.keyed y hy).2⟩
  obtain ⟨y, hy, e⟩ := h.named x hx
  rw [← e, (h.keyed y hy).1]
  exact (h.keyed y hy).2

section Revision

variable {p : ProfileId} {f : Folder} {b : Principal}

/-- The state after a revision has been moved under a new journal. -/
def buried (p : ProfileId) (b : Principal) (f : Folder) (s : State) : State :=
  moveRevision p ⟨p, s.next⟩ f
    (putJournal s.next ⟨p, b, ⟨p, s.next⟩, .pending_purge⟩ { s with next := s.next + 1 + 1 })

theorem quarantine_done (ho : Good o) (hf : getAt p s.revisions = some f) (hs : Fresh s) :
    Ends o s (quarantine p b)
      (Post.returns fun r t => r = (s.next, ⟨p, b, ⟨p, s.next⟩, .pending_purge⟩) ∧ t = buried p b f s) := by
  unfold quarantine fresh
  refine Ends.bind (Ends.bind (Ends.get (Ends.bind (Ends.modify (Ends.pure (Ends.after ho.atomicJson ?_))))))
  rintro _ t rfl
  refine Ends.bind (Ends.tried (Ends.look (Ends.given hf (Ends.holds ?_ (ho.last (Ends.pure ⟨rfl, rfl⟩))))))
  refine Option.isNone_iff_eq_none.2 (Option.eq_none_iff_forall_ne_some.2 fun g hg => ?_)
  exact absurd (hs.tokens _ (mem_of_getAt hg)) (Nat.lt_irrefl _)

theorem folder_buried (hs : Fresh s) : (buried p b f s).folder (.quarantine ⟨p, s.next⟩) = some f := by
  have hnone : s.quarantine.find? (fun x => x.1 = ⟨p, s.next⟩) = none := by
    refine List.find?_eq_none.2 fun x hx => ?_
    have hlt := hs.tokens x hx
    simp only [decide_eq_true_eq]
    intro e
    rw [e] at hlt
    exact Nat.lt_irrefl _ hlt
  show getAt _ (s.quarantine ++ [_]) = _
  unfold getAt
  rw [List.find?_append, hnone]
  simp

/-- Once the folder and its journal are gone, only the revision is. -/
theorem dropJournal_buried (hs : Fresh s) :
    dropJournal s.next ((buried p b f s).dropFolder (.quarantine ⟨p, s.next⟩)) =
      { s with revisions := dropAt p s.revisions, next := s.next + 1 + 1 } := by
  have hq : dropAt ⟨p, s.next⟩ (s.quarantine ++ [(⟨p, s.next⟩, f)]) = s.quarantine := by
    unfold dropAt
    rw [filter_append]
    refine (congrArg₂ _ (dropAt_of_notMem fun h => ?_) dropAt_singleton).trans (append_nil _)
    obtain ⟨x, hx, e⟩ := mem_map.1 h
    exact absurd (hs.tokens x hx) (by rw [e]; exact Nat.lt_irrefl _)
  have hj : dropAt s.next (dropAt s.next s.journals ++ [(s.next, ⟨p, b, ⟨p, s.next⟩, .pending_purge⟩)]) =
      s.journals := by
    have hfree : dropAt s.next s.journals = s.journals := by
      refine dropAt_of_notMem fun h => ?_
      obtain ⟨y, hy, e⟩ := mem_map.1 h
      exact absurd (hs.journals y hy) (by rw [e]; exact Nat.lt_irrefl _)
    unfold dropAt at hfree ⊢
    rw [filter_append, hfree, hfree]
    exact (congrArg _ dropAt_singleton).trans (append_nil _)
  simp only [buried, moveRevision, putJournal, dropJournal, State.dropFolder, hq, hj]

end Revision

theorem purgeRevisions_done (ho : Good o) {ps : List ProfileId} (hs : Fresh s) (hn : ps.Nodup)
    (hps : ∀ p, p ∈ s.revisions.map Prod.fst ↔ p ∈ ps) (hp : ∀ x ∈ s.revisions, x.2.plain) :
    Ends o s (purgeRevisions ps) (Post.returns fun _ t => ∃ n, t = { s with revisions := [], next := n }) := by
  induction ps generalizing s with
  | nil =>
    have hnil : s.revisions = [] := eq_nil_of_keys fun p hp => not_mem_nil ((hps p).1 hp)
    refine Ends.pure ⟨s.next, ?_⟩
    rw [← hnil]
  | cons p ps ih =>
    obtain ⟨hr, hn⟩ := nodup_cons.1 hn
    obtain ⟨f, hf⟩ := exists_getAt ((hps p).2 mem_cons_self)
    refine ho.check (Ends.after (quarantine_done ho hf hs) ?_)
    rintro _ _ ⟨rfl, rfl⟩
    refine Ends.after (purgeTree_done ho (folder_buried hs) (hp _ (mem_of_getAt hf))) ?_
    rintro _ t rfl
    refine ho.effect ?_
    rw [dropJournal_buried hs]
    refine ih ?_ hn (fun p' => ?_) fun x hx => hp x (mem_dropAt.1 hx).1
    · exact ⟨fun x hx => Nat.lt_succ_of_lt (Nat.lt_succ_of_lt (hs.tokens x hx)),
        fun y hy => Nat.lt_succ_of_lt (Nat.lt_succ_of_lt (hs.journals y hy))⟩
    · rw [mem_keys_dropAt, hps, mem_cons]
      exact ⟨fun hm => hm.1.resolve_left hm.2, fun hm => ⟨.inr hm, fun e => hr (e ▸ hm)⟩⟩

theorem unlinkPreviews_done (ho : Good o) {names : List String} (hs : s.previews = names) :
    Ends o s (unlinkPreviews names) (Post.returns fun _ t => t = { s with previews := [] }) := by
  induction names generalizing s with
  | nil =>
    refine Ends.pure ?_
    rw [← hs]
    exact rfl
  | cons name names ih =>
    refine ho.effect (ih (s := { s with previews := s.previews.erase name }) ?_)
    show s.previews.erase name = names
    rw [hs, erase_cons_head]

theorem unlinkJournals_done (ho : Good o) {tokens : List ℕ} (hs : ∀ y ∈ s.journals, y.1 ∈ tokens) :
    Ends o s (unlinkJournals tokens) (Post.returns fun _ t => t = { s with journals := [] }) := by
  induction tokens generalizing s with
  | nil =>
    have hnil : s.journals = [] := eq_nil_iff_forall_not_mem.2 fun y hy => not_mem_nil (hs y hy)
    refine Ends.pure ?_
    rw [← hnil]
    exact rfl
  | cons token tokens ih =>
    refine ho.effect (ih (s := dropJournal token s) fun y hy => ?_)
    obtain ⟨hy, hne⟩ := mem_dropAt.1 hy
    exact (mem_cons.1 (hs y hy)).resolve_left hne

theorem clearPreviewAliases_done (ho : Good o) :
    Ends o s (clearPreviewAliases s.preview_journal.isSome)
      (Post.returns fun _ t => t = { s with preview_journal := none }) := by
  unfold clearPreviewAliases
  split_ifs with h
  · exact ho.check (ho.effect (ho.last rfl))
  · refine Ends.pure ?_
    rw [← Option.not_isSome_iff_eq_none.1 h]
    exact rfl

theorem inspect_done (ho : Good o) {p : Pending} (hp : plan s = .ok p) :
    Ends o s inspect (Post.returns fun q t => q = p ∧ t = s) := by
  refine ho.effect (Ends.look ?_)
  simp only [id_eq, hp]
  exact Ends.pure ⟨rfl, rfl⟩

/-- Nothing is left to remove. -/
def Emptied (s : State) : Prop := plan s = .ok s.pending ∧ s.pending.any = false

/-- The removal empties a state that the planner accepts. -/
theorem purge_done (ho : Good o) (ht : Tracked s) (ha : Accepted s) (hs : s.small) (hactive : s.active = none) :
    Ends o s purge (Post.returns fun _ t => Emptied t) := by
  obtain ⟨hn, hthere⟩ := residues_of_pending ht
  refine ho.check (Ends.look (Ends.holds hactive (Ends.after (inspect_done ho (plan_accepts ht ha hs)) ?_)))
  rintro _ t ⟨rfl, rfl⟩
  refine Ends.after (clearPreviewAliases_done ho) fun _ t1 h1 => ?_
  have hflat : Flat t1 := by
    rw [h1]
    exact ⟨ha.flat.quarantine, ha.staging, ha.uploads⟩
  refine Ends.after (purgeResidues_done ho hflat hn (h1 ▸ hthere)) fun _ t2 h2 => ho.effect (ho.effect ?_)
  have h2 : t2 = { t with quarantine := [], uploads := [], staging := [], preview_journal := none } := by
    rw [h2, h1]
  have hplain : ∀ x ∈ t2.revisions, x.2.plain := by
    rw [h2]
    exact fun x hx => (validateRevision_parts (ha.revisions x hx).1).1
  have hfresh : Fresh t2 := by
    rw [h2]
    exact ⟨forall_mem_nil _, ht.fresh.journals⟩
  refine Ends.after (purgeRevisions_done ho hfresh (nodup_append.1 ht.once).1 (h2 ▸ fun _ => Iff.rfl) hplain) ?_
  rintro _ t3 ⟨n, h3⟩
  have h3 : t3 = { t2 with revisions := [], next := n } := h3
  refine Ends.after (unlinkPreviews_done ho (by rw [h3, h2]; rfl)) fun _ t4 h4 => ?_
  refine Ends.after (unlinkJournals_done ho ?_) fun _ t5 h5 => ho.effect ?_
  · rw [h4, h3, h2]
    exact fun y hy => mem_map_of_mem hy
  have hempty : Emptied { t5 with registration_receipt := false } := by
    rw [h5, h4, h3, h2]
    have hnil : ∀ {β : Type} {P : β → Prop}, ∀ x ∈ ([] : List β), P x := fun {_ P} => forall_mem_nil P
    refine ⟨plan_eq_ok.2 ⟨(Option.some_ne_none _).symm, ?_, hnil, hnil, ha.strays, hnil, hnil, hnil, hnil, rfl⟩, rfl⟩
    simp [State.small, ha.strays]
  refine Ends.after (inspect_done ho hempty.1) ?_
  rintro _ _ ⟨rfl, rfl⟩
  exact Ends.require (fun _ => hempty) fun h => absurd hempty.2 h

theorem cleanup_done (ho : Good o) (hnow : ∀ n, DUE_UTC ≤ o.now n) (ht : Tracked s) (ha : Accepted s)
    (hs : s.small) : Ends o s (cleanup true) (Post.returns fun r t => r = .purged ∧ Emptied t) := by
  refine Ends.answer fun n => ?_
  rw [if_neg (Nat.not_lt.2 (hnow n))]
  refine Ends.tried (ho.effect (Ends.after (inspect_done ho (plan_accepts ht ha hs)) ?_))
  rintro _ _ ⟨rfl, rfl⟩
  refine ho.check (Ends.bind (ho.effect (ho.effect (ho.last (Ends.after (ho.activationLock
    (purge_done ho ?_ ?_ hs rfl)) ?_)))))
  · exact { ht with }
  · exact { ha with }
  · exact fun _ _ h => Ends.pure ⟨rfl, h⟩

/-! ## Deletion -/

/-- A deletion that is allowed removes its revision. -/
theorem remove_done (ho : Good o) (hsize : ∀ n, o.size n ≤ MAX_QUARANTINE_BYTES) (ht : Tracked s) (ha : Accepted s)
    {x : ProfileId × Folder} {caller : Caller} {admin_override : Bool} (hx : x ∈ s.revisions)
    (hcaller : admin_override ∨ x.2.owner.getD .administrator = caller.principal) (hactive : s.active ≠ some x.1)
    (hq : s.quarantine.length < MAX_FAILED_PURGES) (hj : s.journals.length < MAX_FAILED_PURGES) :
    Ends o s (remove (some x.1) caller admin_override)
      (Post.returns fun _ t => ∃ n, t = { s with revisions := dropAt x.1 s.revisions, next := n }) := by
  have hget : getAt x.1 s.revisions = some x.2 := by
    obtain ⟨f, hf⟩ := exists_getAt (mem_map_of_mem (f := Prod.fst) hx)
    have hsame := inj_on_of_nodup_map (nodup_append.1 ht.once).1 (mem_of_getAt hf) hx rfl
    rw [hf, ← hsame]
  obtain ⟨p, f⟩ := x
  have hv := (ha.revisions _ hx).1
  obtain ⟨hplain, -, v, r, hvoice, href, hmeta, hsha, hid, -, -⟩ := validateRevision_parts (p := p) (f := f) hv
  have hfound : f.voice.any fun v => v.size ≤ MAX_METADATA_BYTES && v.profile_id = p &&
      f.reference = some v.reference_sha256 := by
    simp [hvoice, href, hmeta, hid, hsha]
  unfold remove
  refine Ends.given rfl (ho.activationLock (ho.effect (Ends.look (Ends.given hget (Ends.holds hfound ?_)))))
  refine Ends.holds hcaller (Ends.holds hactive (ho.effect (ho.effect (Ends.answer fun n => Ends.look ?_))))
  refine Ends.holds ⟨hq, ?_, hsize n⟩ (Ends.after (quarantine_done ho hget ht.fresh) ?_)
  · show s.journals.length + s.journal_strays.length < _
    rw [ha.strays]
    exact hj
  rintro _ _ ⟨rfl, rfl⟩
  refine Ends.bind (Ends.tried (Ends.mono (purgeTree_done ho (folder_buried ht.fresh) hplain) ?_ (fun _ _ h => h)
    fun _ h => h))
  rintro _ _ rfl
  exact Ends.tried (ho.last ⟨_, dropJournal_buried ht.fresh⟩)

/-! ## Runs -/

/-- After any uploads, deletions and cleanups, with any operations failed and any of the calls stopped
anywhere, each revision is complete in its place, in one quarantine folder that a journal names, or gone; no
other file is removed; the default profile is not deleted, and a deletion moves no revision but the one that
it names, and not that one while it is selected. Where no write was stopped over its temporary file, no removal
of one failed and the uploads were in time and their metadata within the limit, the planner accepts the state, and
once nothing fails a cleanup empties the directories, and a deletion that is allowed removes its revision. -/
theorem recordings_tracked (h : Start s) (calls : List (Call × Env)) :
    let t := Runs.run step s calls
    Tracked t ∧ t.others = s.others ∧
      (∀ caller admin_override o,
        (Call.delete none caller admin_override).run o t = (.raised (.api 403 "profile_protected"), t)) ∧
      (∀ profile_id caller admin_override o, ∀ x ∈ t.revisions, some x.1 = t.active ∨ some x.1 ≠ profile_id →
        x ∈ (step t (.delete profile_id caller admin_override, o)).revisions) ∧
      (Runs.Admits step (fun _ c => Met c) s calls →
        (t.small → (∃ p, plan t = .ok p) ∧ ∀ o, Good o → (∀ n, DUE_UTC ≤ o.now n) →
          Ends o t (cleanup true) (Post.returns fun r u => r = .purged ∧ Emptied u)) ∧
        ∀ o, Good o → (∀ n, o.size n ≤ MAX_QUARANTINE_BYTES) → ∀ x ∈ t.revisions, ∀ caller (admin_override : Bool),
          (admin_override ∨ x.2.owner.getD .administrator = Caller.principal caller) → t.active ≠ some x.1 →
          t.quarantine.length < MAX_FAILED_PURGES → t.journals.length < MAX_FAILED_PURGES →
          Ends o t (remove (some x.1) caller admin_override)
            (Post.returns fun _ u => ∃ n, u = { t with revisions := dropAt x.1 t.revisions, next := n })) := by
  intro t
  have htracked : Tracked t ∧ t.others = s.others := by
    refine Runs.run_invariant (P := fun t => Tracked t ∧ t.others = s.others) (fun t c ht => ?_) calls
      ⟨h.accepted.2, rfl⟩
    have hi := step_inv ht.1 (d := False) False.elim c False.elim
    exact ⟨hi.tracked, hi.others.trans ht.2⟩
  refine ⟨htracked.1, htracked.2, fun _ _ _ => rfl, ?_, fun hmet => ?_⟩
  · intro profile_id caller admin_override o x hx hk
    exact (step_inv htracked.1 (d := False) False.elim (.delete profile_id caller admin_override, o)
      False.elim).kept x ⟨hx, hk⟩
  · have hboth : Tracked t ∧ Accepted t :=
      Runs.run_invariant_of (P := fun t => Tracked t ∧ Accepted t) (fun u c hu hc => by
        have hi := step_inv hu.1 (d := True) (fun _ => hu.2) c fun _ => hc
        exact ⟨hi.tracked, hi.accepted trivial⟩) ⟨h.accepted.2, h.accepted.1⟩ hmet
    refine ⟨fun hsmall => ⟨⟨_, plan_accepts hboth.1 hboth.2 hsmall⟩, fun o ho hnow => ?_⟩, ?_⟩
    · exact cleanup_done ho hnow hboth.1 hboth.2 hsmall
    · intro o ho hsize x hx caller admin_override hcaller hactive hq hj
      exact remove_done ho hsize hboth.1 hboth.2 hx hcaller hactive hq hj

/-! ## A stop over a temporary file -/

/-- A recording of the fair. -/
def sampleVoice : Voice where
  profile_id := ⟨1792000000, 0⟩
  kind := .authorized_own_voice
  language := "German"
  source := .desktop_microphone
  consent := ⟨true, CONSENT_SCOPE, 1791990000 * 10 ^ 6, 0⟩
  created_at_utc := 1792000000 * 10 ^ 6
  reference_sha256 := "a"
  rest := 1024

/-- One revision, and nothing else. -/
def sampleState : State where
  revisions := [(⟨1792000000, 0⟩, ⟨some sampleVoice, none, true, some "a", []⟩)]
  staging := []
  quarantine := []
  journals := []
  journal_strays := []
  uploads := []
  previews := []
  preview_journal := none
  registration_receipt := true
  active := none
  others := ["active.json"]
  next := 1

/-- All goes well, but for the answers to steps over a temporary file. -/
def sampleEnv (held : Answer) : Env where
  answer _ l := if l = .held then held else .done
  fair_open _ := true
  allowed _ := true
  times _ := (1792000000 * 10 ^ 6, 1792000000 * 10 ^ 6)
  now _ := DUE_UTC
  lock _ := true
  idle _ := some true
  size _ := 0

def sampleDelete : Call := .delete (some ⟨1792000000, 0⟩) .administrator true

/-- Whether the planner accepts the state. -/
def planned (s : State) : Bool :=
  match plan s with
  | .ok _ => true
  | .error _ => false

/-- A deletion that is stopped while it writes its journal leaves a file that the planner refuses, and the next
cleanup removes nothing. -/
theorem stopped_journal_refused :
    let t := step sampleState (sampleDelete, sampleEnv .stops)
    planned sampleState ∧ t.small ∧ ¬ planned t ∧
      (step t (.cleanup true, sampleEnv .done)).revisions = sampleState.revisions := by
  decide +kernel

theorem recordings_tracked_sample :
    let t := step sampleState (sampleDelete, sampleEnv .fails)
    t.revisions = sampleState.revisions ∧ (∃ p, plan t = .ok p) ∧
      Ends (sampleEnv .done) t (cleanup true) (Post.returns fun r u => r = .purged ∧ Emptied u) := by
  have hstart : Start sampleState :=
    ⟨⟨_, rfl⟩, by decide +kernel, by decide +kernel, by decide +kernel, by decide +kernel⟩
  have hmet : Runs.Admits step (fun _ c => Met c) sampleState [(sampleDelete, sampleEnv .fails)] :=
    Runs.admits_cons.2 ⟨⟨fun n => ⟨nofun, rfl⟩, nofun⟩, Runs.admits_nil⟩
  have hgood : Good (sampleEnv .done) := ⟨fun _ l => ite_self _, fun _ => rfl, fun _ => rfl⟩
  obtain ⟨hplan, hclean⟩ := ((recordings_tracked hstart _).2.2.2.2 hmet).1 (by decide +kernel)
  exact ⟨by decide +kernel, hplan, hclean _ hgood fun _ => Nat.le_refl _⟩

end StrixAlloy.Retention

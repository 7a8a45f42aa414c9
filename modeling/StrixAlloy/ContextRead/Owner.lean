import StrixAlloy.ContextRead.Ending

/-!
# Whom the policy lets read

Where the policy answers yes, the row leads to the one interaction that was opened for the user under the
fixed provider (`Leads`), and none of the predicates it relies on was dropped. A dropped predicate shows
itself in the query that no row can match (`not_dropped`); where it was not dropped, the policy lets the user
read each interaction that matches, so that a second one is seen (`single_of_found`).
-/

namespace StrixAlloy.ContextRead

open List

/-! ## What a row leads to -/

/-- The interaction was opened for the user, under the fixed provider, for the conversation. -/
structure Opened (user c : String) (i : Row) : Prop where
  table : i.table = .interaction
  opened_for : i.get .opened_for = some user
  provider : i.get .provider_application = some providerId
  channel_table : i.get .channel_metadata_table = some conversationTable
  channel_document : i.get .channel_metadata_document = some c

section Leads

variable (P : Platform) (db : Database) (user : String)

/-- The platform shows these fields of a row that was queried. -/
def ShowsAll (r : Row) (fs : List Field) : Prop := ∀ f ∈ fs, P.element r f = .yes

/-- There is one interaction of the user for the conversation, and the user may see its fields. -/
def Single (c : String) : Prop :=
  isId c ∧ ∃ i ∈ db.rows, Opened user c i ∧ (∀ j ∈ db.rows, Opened user c j → j = i) ∧
    ShowsAll P i [.sys_id, .opened_for, .channel_metadata_table, .channel_metadata_document]

/-- The conversation is one of the fixed profile, open, and the user's. -/
def OpenConversation (c : String) : Prop :=
  ∃ r ∈ db.rows, r.table = .sys_cs_conversation ∧ r.sys_id = c ∧
    r.get .context_profile = some contextProfileId ∧ (∃ v ∈ openStates, r.get .state = some v) ∧
    ShowsAll P r [.sys_id, .state] ∧ Single P db user c

/-- The plan is one of the fixed use case, in progress, for such a conversation. -/
def ActivePlan (p : String) : Prop :=
  ∃ r ∈ db.rows, r.table = .sn_aia_execution_plan ∧ r.sys_id = p ∧ r.get .state = some "in_progress" ∧
    r.get .usecase = some usecaseId ∧ ShowsAll P r [.sys_id, .conversation, .state] ∧
    ∃ c, r.get .conversation = some c ∧ OpenConversation P db user c

/-- The row leads to the user's own interaction. -/
def Leads (row : Row) : Table → Prop
  | .interaction => isId row.sys_id ∧ ∃ c, isId c ∧ Opened user c row
  | .sys_cs_conversation => row.table = .sys_cs_conversation ∧
    row.get .context_profile = some contextProfileId ∧ (∃ v ∈ openStates, row.get .state = some v) ∧
    Single P db user row.sys_id
  | .sn_aia_execution_plan => row.table = .sn_aia_execution_plan ∧ row.get .state = some "in_progress" ∧
    row.get .usecase = some usecaseId ∧ ∃ c, row.get .conversation = some c ∧ OpenConversation P db user c
  | .sn_aia_message => row.table = .sn_aia_message ∧ (∃ role, P.userRole = some role ∧ row.get .role = some role) ∧
    (∃ text, row.get .message = some text ∧ row.get .user_message = some text ∧
      (notePrefix.toList <+: text.toList ∨ ackPrefix.toList <+: text.toList)) ∧
    ∃ p, row.get .execution_plan = some p ∧ ActivePlan P db user p

end Leads

/-- The fields whose predicates the policy of a table relies on. -/
def relies : Table → List Field
  | .interaction => []
  | .sys_cs_conversation => [.provider_application]
  | .sn_aia_execution_plan => [.provider_application, .context_profile]
  | .sn_aia_message => [.provider_application, .context_profile, .usecase]

/-! ## Values -/

theorem ne_empty_of_isId {s : String} (h : isId s) : s ≠ "" := by
  rintro rfl
  exact absurd h (by decide)

theorem isId_initialUserId : isId initialUserId := by decide +kernel

section Values

variable {P : Platform} {r : Row} {f : Field} {v : String}

theorem yields_rawValue : Yields (rawValue r f) v ↔ r.get f = some v := by
  unfold rawValue
  split
  · rename_i w hw
    rw [yields_pure, hw, Option.some_inj]
  · rename_i hw
    rw [hw]
    exact ⟨fun h => absurd h not_yields_throw, nofun⟩

/-- A comparison of a value that is not empty. -/
theorem yields_secureValue (h : Yields (secureValue P r f) v) (hv : v ≠ "") : r.get f = some v := by
  unfold secureValue at h
  split at h
  · exact yields_rawValue.1 h
  · exact absurd (yields_pure.1 h).symm hv
  · exact absurd h not_yields_throw

theorem yields_check {α : Type} {x : Eval α} {c : α → Bool} :
    Yields (do pure (c (← x)) : Eval Bool) true ↔ ∃ a, Yields x a ∧ c a := by
  rw [yields_bind]
  exact exists_congr fun a => and_congr_right fun _ => yields_pure

theorem yields_secure_eq (h : Yields (do pure ((← secureValue P r f) = v) : Eval Bool) true) (hv : v ≠ "") :
    r.get f = some v := by
  obtain ⟨w, hw, heq⟩ := yields_check.1 h
  have heq : w = v := of_decide_eq_true heq
  rw [heq] at hw
  exact yields_secureValue hw hv

theorem yields_raw_eq (h : Yields (do pure ((← rawValue r f) = v) : Eval Bool) true) :
    r.get f = some v := by
  obtain ⟨w, hw, heq⟩ := yields_check.1 h
  have heq : w = v := of_decide_eq_true heq
  rw [heq] at hw
  exact yields_rawValue.1 hw

/-- The row of the policy has an identifier. -/
theorem currentId_ne {t : Table} (h : currentId r t ≠ "") :
    r.table = t ∧ isId r.sys_id ∧ currentId r t = r.sys_id := by
  unfold currentId at h ⊢
  split at h
  · rename_i hr
    rw [if_pos hr]
    exact ⟨hr.1, hr.2, rfl⟩
  · exact absurd rfl h

theorem yields_elements {fs : List Field} (h : Yields (elements P r fs) true) : ShowsAll P r fs := by
  induction fs with
  | nil => nofun
  | cons f fs ih =>
    unfold elements at h
    split at h
    · exact absurd h not_yields_throw
    · exact absurd (yields_pure.1 h) nofun
    · rename_i hf
      intro g hg
      rcases mem_cons.1 hg with rfl | hg
      · exact hf
      · exact ih h g hg

end Values

/-! ## Queries -/

section Queries

variable {P : Platform} {db : Database} {acl : Row → Eval Bool}

theorem matching_iff {preds : List (Field × String)} {r : Row} : matching P preds r ↔
    ∀ p ∈ preds, (isReference p.1 ∧ P.dropped p.1) ∨ (r.get p.1).getD "" = p.2 := by
  simp only [matching, all_eq_true, Bool.or_eq_true, Bool.and_eq_true, decide_eq_true_eq]

theorem get_of_getD {o : Option String} {v : String} (h : o.getD "" = v) (hv : v ≠ "") : o = some v := by
  cases o with
  | none => exact absurd h.symm hv
  | some => rw [← h, Option.getD_some]

/-- A row that matches, at a predicate that is not dropped. -/
theorem get_of_matching {preds : List (Field × String)} {r : Row} (h : matching P preds r) {f : Field}
    {v : String} (hmem : (f, v) ∈ preds) (hkept : isReference f = false ∨ P.dropped f = false) (hv : v ≠ "") :
    r.get f = some v := by
  rcases matching_iff.1 h _ hmem with ⟨href, hdropped⟩ | hget
  · rcases hkept with hkept | hkept
    · rw [hkept] at href
      cases href
    · rw [hkept] at hdropped
      cases hdropped
  · exact get_of_getD hget hv

theorem Database.eq_of_id {r r' : Row} (hr : r ∈ db.rows) (hr' : r' ∈ db.rows) (ht : r.table = r'.table)
    (hid : r.sys_id = r'.sys_id) : r = r' :=
  inj_on_of_nodup_map db.unique hr hr' (by rw [ht, hid])

/-- A query in which no row may not be read. -/
theorem allowed_all {l rows : List Row} (h : Yields (allowed acl l) rows)
    (hl : ∀ r ∈ l, ¬Yields (acl r) false) : rows = l := by
  induction l generalizing rows with
  | nil => exact (yields_pure.1 h).symm
  | cons r rs ih =>
    obtain ⟨own, hown, h⟩ := yields_bind.1 h
    obtain ⟨rest, hrest, h⟩ := yields_bind.1 h
    have htrue : own := by
      cases own with
      | true => rfl
      | false => exact absurd hown (hl r mem_cons_self)
    rw [← yields_pure.1 h, htrue, if_pos rfl, ih hrest fun r hr => hl r (mem_cons_of_mem _ hr)]

theorem query_allowed {t : Table} {preds : List (Field × String)} {limit : ℕ} {rows : List Row}
    (h : Yields (query P acl db t preds limit) rows) :
    Yields (allowed acl ((found P db t preds).take limit)) rows := by
  unfold query at h
  split at h
  · exact absurd h not_yields_throw
  · exact h

/-- Where the control query finds nothing, the predicate of its table was not dropped: the row that was
found would match it. -/
theorem not_dropped {t : Table} {f : Field} {id c user : String} {r : Row} (hprobe : probe t = some f)
    (hr : r ∈ db.rows) (htable : r.table = t) (hid : r.sys_id = id) (hread : Yields (acl r) true)
    (hc : t = .sys_cs_conversation ∨ isId c)
    (hcontrols : ∀ p ∈ controls t c user, (r.get p.1).getD "" = p.2)
    (h : Yields (do pure !(← referenceFilterIgnored P acl db t id c user) : Eval Bool) true) :
    P.dropped f = false := by
  by_contra hdropped
  rw [Bool.not_eq_false] at hdropped
  obtain ⟨b, hb, hnot⟩ := yields_check.1 h
  have hb : Yields (referenceFilterIgnored P acl db t id c user) false := by
    rw [Bool.not_eq_true'] at hnot
    rwa [hnot] at hb
  have hisId : isId id := hid ▸ db.ids r hr
  unfold referenceFilterIgnored at hb
  rw [hprobe] at hb
  dsimp only at hb
  split at hb
  · exact absurd (yields_pure.1 hb) nofun
  · obtain ⟨rows, hrows, hempty⟩ := yields_bind.1 hb
    have hempty : rows = [] := by simpa using yields_pure.1 hempty
    -- the row matches the control query, and is the only one that does
    have hmem : r ∈ found P db t ([(.sys_id, id), (f, noId)] ++ controls t c user) := by
      refine mem_found.2 ⟨hr, htable, matching_iff.2 fun p hp => ?_⟩
      rcases mem_append.1 hp with hp | hp
      · rcases mem_cons.1 hp with rfl | hp
        · exact .inr hid
        · rw [mem_singleton.1 hp]
          refine .inl ⟨?_, hdropped⟩
          cases t <;> cases hprobe <;> rfl
      · exact .inr (hcontrols p hp)
    obtain ⟨r', rs, hfound⟩ := exists_cons_of_ne_nil (ne_nil_of_mem hmem)
    have hr' : r' ∈ found P db t ([(.sys_id, id), (f, noId)] ++ controls t c user) := by
      rw [hfound]
      exact mem_cons_self
    obtain ⟨hdb, htable', hmatch⟩ := mem_found.1 hr'
    have hid' := get_of_matching hmatch (mem_append_left _ mem_cons_self) (.inl rfl)
      (ne_empty_of_isId hisId)
    have heq : r' = r := db.eq_of_id hdb hr (htable'.trans htable.symm)
      ((Option.some.inj hid').trans hid.symm)
    have hallowed := query_allowed hrows
    rw [hfound, heq, take_succ_cons, take_zero] at hallowed
    have hall := allowed_all hallowed fun x hx hfalse => by
      rw [mem_singleton.1 hx] at hfalse
      exact absurd (hread.unique hfalse) nofun
    rw [hall] at hempty
    cases hempty

/-- What the policy grants: it refuses no interaction of the user. -/
def Grants (db : Database) (user : String) (acl : Row → Eval Bool) : Prop :=
  ∀ c, isId c → ∀ i ∈ db.rows, Opened user c i → ¬Yields (acl i) false

/-- The predicates of the interactions of a conversation. -/
theorem opened_of_found (db : Database) {user c : String} (huser : user ≠ "") (hc : isId c)
    (hkept : P.dropped .provider_application = false) {i : Row} : i ∈ found P db .interaction
      [(.opened_for, user), (.provider_application, providerId),
        (.channel_metadata_table, conversationTable), (.channel_metadata_document, c)] ↔
      i ∈ db.rows ∧ Opened user c i := by
  rw [mem_found]
  refine and_congr_right fun _ => ⟨fun ⟨htable, hmatch⟩ => ⟨htable, ?_, ?_, ?_, ?_⟩, fun h => ⟨h.table, ?_⟩⟩
  · exact get_of_matching hmatch (by simp) (.inl rfl) huser
  · exact get_of_matching hmatch (by simp) (.inr hkept) (by decide)
  · exact get_of_matching hmatch (by simp) (.inl rfl) (by decide)
  · exact get_of_matching hmatch (by simp) (.inl rfl) (ne_empty_of_isId hc)
  · refine matching_iff.2 fun p hp => .inr ?_
    simp only [mem_cons, not_mem_nil, or_false] at hp
    rcases hp with rfl | rfl | rfl | rfl
    · exact (congrArg (Option.getD · "") h.opened_for)
    · exact (congrArg (Option.getD · "") h.provider)
    · exact (congrArg (Option.getD · "") h.channel_table)
    · exact (congrArg (Option.getD · "") h.channel_document)

theorem ownedConversation_sound {user c : String} (huser : user ≠ "") (hgrants : Grants db user acl)
    (h : Yields (ownedConversation P acl db c user) true) :
    P.dropped .provider_application = false ∧ Single P db user c := by
  unfold ownedConversation at h
  split at h
  · exact absurd (yields_pure.1 h) nofun
  rename_i hc
  have hc : isId c := by simpa using hc
  obtain ⟨rows, hrows, h⟩ := yields_bind.1 h
  cases rows with
  | nil => exact absurd (yields_pure.1 h) nofun
  | cons i more =>
    obtain ⟨hreadable, h⟩ := yields_both.1 h
    obtain ⟨hid, h⟩ := yields_both.1 h
    obtain ⟨huser', h⟩ := yields_both.1 h
    obtain ⟨htable', h⟩ := yields_both.1 h
    obtain ⟨hdoc, h⟩ := yields_both.1 h
    obtain ⟨hmore, hignored⟩ := yields_both.1 h
    obtain ⟨hread, helements⟩ := yields_both.1 hreadable
    have hmore : more = [] := of_decide_eq_true (yields_pure.1 hmore)
    have hid := currentId_ne (of_decide_eq_true (yields_pure.1 hid))
    have hi := mem_found.1 (mem_query hrows mem_cons_self).1
    have hopened := yields_secure_eq huser' huser
    have hchannel := yields_secure_eq htable' (by decide)
    have hdocument := yields_secure_eq hdoc (ne_empty_of_isId hc)
    have hkept : P.dropped .provider_application = false := by
      refine not_dropped rfl hi.1 hi.2.1 hid.2.2.symm hread (.inr hc) (fun p hp => ?_) hignored
      simp only [controls, mem_cons, not_mem_nil, or_false] at hp
      rcases hp with rfl | rfl | rfl
      · exact (congrArg (Option.getD · "") hopened)
      · exact (congrArg (Option.getD · "") hchannel)
      · exact (congrArg (Option.getD · "") hdocument)
    have hfound := fun j => opened_of_found (P := P) db (i := j) huser hc hkept
    -- every interaction that matches may be read, so that there is no other one
    have hall := allowed_all (query_allowed hrows) fun j hj => by
      obtain ⟨hdb, hj⟩ := (hfound j).1 (mem_of_mem_take hj)
      exact hgrants c hc j hdb hj
    rw [hmore] at hall
    obtain ⟨hdb, hi⟩ := (hfound i).1 (mem_query hrows mem_cons_self).1
    refine ⟨hkept, hc, i, hdb, hi, fun j hdb' hj => ?_, yields_elements helements⟩
    have hmem := (hfound j).2 ⟨hdb', hj⟩
    rcases hF : found P db .interaction _ with _ | ⟨x, _ | ⟨y, l⟩⟩
    · rw [hF] at hmem
      cases hmem
    · rw [hF] at hmem hall
      rw [mem_singleton.1 hmem]
      exact (List.cons.inj hall).1.symm
    · rw [hF] at hall
      cases hall

theorem secureOwnedConversation_sound {user c : String} (huser : user ≠ "") (hgrants : Grants db user acl)
    (h : Yields (secureOwnedConversation P acl db c user) true) :
    P.dropped .provider_application = false ∧ P.dropped .context_profile = false ∧
      OpenConversation P db user c := by
  unfold secureOwnedConversation at h
  split at h
  · exact absurd (yields_pure.1 h) nofun
  obtain ⟨rows, hrows, h⟩ := yields_bind.1 h
  cases rows with
  | nil => exact absurd (yields_pure.1 h) nofun
  | cons r =>
    obtain ⟨hreadable, h⟩ := yields_both.1 h
    obtain ⟨hid, h⟩ := yields_both.1 h
    obtain ⟨hstate, h⟩ := yields_both.1 h
    obtain ⟨-, h⟩ := yields_both.1 h
    obtain ⟨hignored, howned⟩ := yields_both.1 h
    obtain ⟨hread, helements⟩ := yields_both.1 hreadable
    obtain ⟨hfound, -⟩ := mem_query hrows mem_cons_self
    obtain ⟨hdb, htable, hmatch⟩ := mem_found.1 hfound
    obtain ⟨hprovider, hsingle⟩ := ownedConversation_sound huser hgrants howned
    have hid : currentId r .sys_cs_conversation = c := of_decide_eq_true (yields_pure.1 hid)
    have hne : currentId r .sys_cs_conversation ≠ "" := hid ▸ ne_empty_of_isId hsingle.1
    have hsys : r.sys_id = c := (currentId_ne hne).2.2.symm.trans hid
    have hkept : P.dropped .context_profile = false :=
      not_dropped rfl hdb htable hsys hread (.inl rfl) nofun hignored
    obtain ⟨v, hv, hopen⟩ := yields_check.1 hstate
    have hopen : v ∈ openStates := of_decide_eq_true hopen
    have hvne : v ≠ "" := by
      rintro rfl
      exact absurd hopen (by decide)
    exact ⟨hprovider, hkept, r, hdb, htable, hsys,
      get_of_matching hmatch (by simp) (.inr hkept) (by decide),
      ⟨v, hopen, yields_secureValue hv hvne⟩, yields_elements helements, hsingle⟩

theorem secureOwnActivePlan_sound {user p : String} (huser : user ≠ "") (hgrants : Grants db user acl)
    (h : Yields (secureOwnActivePlan P acl db p user) true) :
    (∀ f ∈ relies .sn_aia_message, P.dropped f = false) ∧ ActivePlan P db user p := by
  unfold secureOwnActivePlan at h
  split at h
  · exact absurd (yields_pure.1 h) nofun
  rename_i hp
  have hp : isId p := by simpa using hp
  obtain ⟨rows, hrows, h⟩ := yields_bind.1 h
  cases rows with
  | nil => exact absurd (yields_pure.1 h) nofun
  | cons r =>
    obtain ⟨hreadable, h⟩ := yields_both.1 h
    obtain ⟨hid, h⟩ := yields_both.1 h
    obtain ⟨hstate, h⟩ := yields_both.1 h
    obtain ⟨c, hc, h⟩ := yields_bind.1 h
    obtain ⟨hisId, h⟩ := yields_both.1 h
    obtain ⟨-, h⟩ := yields_both.1 h
    obtain ⟨hignored, howned⟩ := yields_both.1 h
    obtain ⟨hread, helements⟩ := yields_both.1 hreadable
    obtain ⟨hfound, -⟩ := mem_query hrows mem_cons_self
    obtain ⟨hdb, htable, hmatch⟩ := mem_found.1 hfound
    obtain ⟨hprovider, hprofile, hopen⟩ := secureOwnedConversation_sound huser hgrants howned
    have hisId : isId c := yields_pure.1 hisId
    have hstate := yields_secure_eq hstate (by decide)
    have hconversation := yields_secureValue hc (ne_empty_of_isId hisId)
    have hid : currentId r .sn_aia_execution_plan = p := of_decide_eq_true (yields_pure.1 hid)
    have hne : currentId r .sn_aia_execution_plan ≠ "" := hid ▸ ne_empty_of_isId hp
    have hsys : r.sys_id = p := (currentId_ne hne).2.2.symm.trans hid
    have hkept : P.dropped .usecase = false := by
      refine not_dropped rfl hdb htable hsys hread (.inr hisId) (fun q hq => ?_) hignored
      simp only [controls, mem_cons, not_mem_nil, or_false] at hq
      rcases hq with rfl | rfl
      · exact (congrArg (Option.getD · "") hconversation)
      · exact (congrArg (Option.getD · "") hstate)
    refine ⟨fun f hf => ?_, r, hdb, htable, hsys, hstate,
      get_of_matching hmatch (by simp) (.inr hkept) (by decide), yields_elements helements, c,
      hconversation, hopen⟩
    simp only [relies, mem_cons, not_mem_nil, or_false] at hf
    rcases hf with rfl | rfl | rfl
    · exact hprovider
    · exact hprofile
    · exact hkept

/-- Where the policy answers yes, it was asked for the reader, and the row is the reader's. -/
theorem policy_sound {t : Table} {row : Row} (hgrants : ∀ user, P.user = some user → P.reader = .yes →
    isId user → user = initialUserId → Grants db user acl) (h : Yields (policy P acl db t row) true) :
    P.user = some initialUserId ∧ P.reader = .yes ∧ (∀ f ∈ relies t, P.dropped f = false) ∧
      Leads P db initialUserId row t := by
  unfold policy at h
  split at h
  · exact absurd h not_yields_throw
  rename_i user huser
  split at h
  · exact absurd (yields_pure.1 h) nofun
  rename_i hinitial
  obtain ⟨hisId, rfl⟩ : isId user ∧ user = initialUserId := by simpa using hinitial
  split at h
  · exact absurd h not_yields_throw
  · exact absurd (yields_pure.1 h) nofun
  rename_i hreader
  have hgrants := hgrants _ huser hreader hisId rfl
  have hne : initialUserId ≠ "" := by decide
  refine ⟨huser, hreader, ?_⟩
  cases t with
  | interaction =>
    obtain ⟨hid, h⟩ := yields_both.1 h
    obtain ⟨hopened, h⟩ := yields_both.1 h
    obtain ⟨hprovider, h⟩ := yields_both.1 h
    obtain ⟨hchannel, hdocument⟩ := yields_both.1 h
    obtain ⟨c, hc, hisId⟩ := yields_check.1 hdocument
    have hid := currentId_ne (of_decide_eq_true (yields_pure.1 hid))
    exact ⟨nofun, hid.2.1, c, hisId, hid.1, yields_raw_eq hopened, yields_raw_eq hprovider,
      yields_raw_eq hchannel, yields_rawValue.1 hc⟩
  | sys_cs_conversation =>
    obtain ⟨hprofile, h⟩ := yields_both.1 h
    obtain ⟨hstate, howned⟩ := yields_both.1 h
    obtain ⟨v, hv, hopen⟩ := yields_check.1 hstate
    obtain ⟨hkept, hsingle⟩ := ownedConversation_sound hne hgrants howned
    have hid := currentId_ne (ne_empty_of_isId hsingle.1)
    rw [hid.2.2] at hsingle
    refine ⟨fun f hf => ?_, hid.1, yields_raw_eq hprofile,
      ⟨v, of_decide_eq_true hopen, yields_rawValue.1 hv⟩, hsingle⟩
    rw [mem_singleton.1 hf]
    exact hkept
  | sn_aia_execution_plan =>
    obtain ⟨hid, h⟩ := yields_both.1 h
    obtain ⟨hstate, h⟩ := yields_both.1 h
    obtain ⟨husecase, h⟩ := yields_both.1 h
    obtain ⟨c, hc, h⟩ := yields_bind.1 h
    obtain ⟨hprovider, hprofile, hopen⟩ := secureOwnedConversation_sound hne hgrants h
    have hid := currentId_ne (of_decide_eq_true (yields_pure.1 hid))
    refine ⟨fun f hf => ?_, hid.1, yields_raw_eq hstate, yields_raw_eq husecase, c, yields_rawValue.1 hc, hopen⟩
    simp only [relies, mem_cons, not_mem_nil, or_false] at hf
    rcases hf with rfl | rfl
    · exact hprovider
    · exact hprofile
  | sn_aia_message =>
    obtain ⟨hid, h⟩ := yields_both.1 h
    have hid := currentId_ne (of_decide_eq_true (yields_pure.1 hid))
    split at h
    · exact absurd (yields_pure.1 h) nofun
    rename_i role hrole
    obtain ⟨-, h⟩ := yields_both.1 h
    obtain ⟨hrole', h⟩ := yields_both.1 h
    obtain ⟨text, htext, h⟩ := yields_bind.1 h
    obtain ⟨hsame, h⟩ := yields_both.1 h
    obtain ⟨hpre, h⟩ := yields_both.1 h
    obtain ⟨p, hp, h⟩ := yields_bind.1 h
    obtain ⟨hkept, hplan⟩ := secureOwnActivePlan_sound hne hgrants h
    obtain ⟨user_text, huser_text, heq⟩ := yields_check.1 hsame
    have heq : text = user_text := of_decide_eq_true heq
    exact ⟨hkept, hid.1, ⟨role, hrole, yields_raw_eq hrole'⟩, ⟨text, yields_rawValue.1 htext,
      heq ▸ yields_rawValue.1 huser_text, by simpa using yields_pure.1 hpre⟩, p,
      yields_rawValue.1 hp, hplan⟩

end Queries

/-! ## The policy inside itself -/

section Access

variable (P : Platform) (db : Database)

/-- The policy lets its reader read every interaction that was opened for the reader. -/
theorem grants_access (n : ℕ) (huser : P.user = some initialUserId) (hreader : P.reader = .yes) :
    Grants db initialUserId (access P db n) := by
  intro c hc i hi hopened hfalse
  obtain ⟨own, hown, h⟩ := yields_bind.1 hfalse
  have hor : (own || P.other i) = false := yields_pure.1 h
  have hno : canRead P db n .interaction i = some false := by
    have hmap : (canRead P db n i.table i).map Except.ok = some (Except.ok own) := hown
    obtain ⟨b, hb, heq⟩ := Option.map_eq_some_iff.1 hmap
    rw [hopened.table] at hb
    rw [hb, Except.ok.inj heq, (Bool.or_eq_false_iff.1 hor).1]
  cases n with
  | zero => cases hno
  | succ n =>
    have hyes : Yields (policy P (access P db n) db .interaction i) true := by
      unfold policy
      rw [huser]
      dsimp only
      have hinitial : ¬(!isId initialUserId || initialUserId ≠ initialUserId) = true := by
        simp [isId_initialUserId]
      rw [if_neg hinitial, hreader]
      have hid : isId i.sys_id := db.ids i hi
      have hne : currentId i .interaction ≠ "" := by
        unfold currentId
        rw [if_pos ⟨hopened.table, hid⟩]
        exact ne_empty_of_isId hid
      have hcheck : ∀ f v, i.get f = some v → Yields (do pure ((← rawValue i f) = v) : Eval Bool) true :=
        fun f v hv => yields_check.2 ⟨v, yields_rawValue.2 hv, decide_eq_true rfl⟩
      refine yields_both.2 ⟨yields_pure.2 (decide_eq_true hne), yields_both.2 ⟨hcheck _ _ hopened.opened_for,
        yields_both.2 ⟨hcheck _ _ hopened.provider, yields_both.2 ⟨hcheck _ _ hopened.channel_table, ?_⟩⟩⟩⟩
      exact yields_check.2 ⟨c, yields_rawValue.2 hopened.channel_document, hc⟩
    rw [canRead_succ, caught, hyes] at hno
    cases hno

/-- The policy ends, also applied inside itself; where it answers yes, the user is the configured reader
with the role, no predicate it relies on was dropped, and the row leads to the reader's own interaction; an
exception is a no. -/
theorem own_chain_only (t : Table) (row : Row) :
    (∃ b, ∀ n, rank t ≤ n → canRead P db n t row = some b) ∧
    (∀ n, canRead P db n t row = some true → P.user = some initialUserId ∧ P.reader = .yes ∧
      (∀ f ∈ relies t, P.dropped f = false) ∧ Leads P db initialUserId row t) ∧
    (∀ n, (policy P (access P db n) db t row).run = some (.error ()) →
      canRead P db (n + 1) t row = some false) := by
  refine ⟨?_, fun n h => ?_, fun n h => ?_⟩
  · obtain ⟨b, hb⟩ := Option.ne_none_iff_exists'.1 (canRead_ends P db row (Nat.le_refl _) (Nat.le_refl _)).2
    exact ⟨b, fun n hn => (canRead_ends P db row hn (Nat.le_refl _)).1.trans hb⟩
  · cases n with
    | zero => cases h
    | succ n =>
      have hyes : Yields (policy P (access P db n) db t row) true := by
        rw [canRead_succ, caught] at h
        unfold Yields
        split at h
        · rename_i b hb
          rw [hb, Option.some.inj h]
        · cases h
        · cases h
      refine policy_sound (fun user huser hreader _ hinitial => ?_) hyes
      rw [hinitial] at huser ⊢
      exact grants_access P db n huser hreader
  · rw [canRead_succ, caught, h]

end Access

/-! ## A conversation of the user's -/

def sampleConversation : Row where
  table := .sys_cs_conversation
  sys_id := "0123456789abcdef0123456789abcdef"
  fields := [(.context_profile, contextProfileId), (.state, "open")]

def sampleInteraction : Row where
  table := .interaction
  sys_id := "00000000000000000000000000000001"
  fields := [(.opened_for, initialUserId), (.provider_application, providerId),
    (.channel_metadata_table, conversationTable), (.channel_metadata_document, sampleConversation.sys_id)]

/-- The user's interaction and its conversation. -/
def sampleDatabase : Database where
  rows := [sampleInteraction, sampleConversation]
  ids := by decide +kernel
  unique := by decide +kernel

/-- The user may read what the policy grants, and nothing else. -/
def samplePlatform : Platform where
  user := some initialUserId
  reader := .yes
  userRole := none
  dropped _ := false
  other _ := false
  valid _ _ := .yes
  value _ _ := .yes
  element _ _ := .yes
  throws _ _ := false

theorem own_chain_only_sample :
    canRead samplePlatform sampleDatabase 2 .sys_cs_conversation sampleConversation = some true ∧
      Leads samplePlatform sampleDatabase initialUserId sampleConversation .sys_cs_conversation := by
  have h : canRead samplePlatform sampleDatabase 2 .sys_cs_conversation sampleConversation = some true := by
    decide +kernel
  exact ⟨h, ((own_chain_only samplePlatform sampleDatabase .sys_cs_conversation sampleConversation).2.1 2 h).2.2.2⟩

end StrixAlloy.ContextRead

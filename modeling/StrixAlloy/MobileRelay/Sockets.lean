import StrixAlloy.MobileRelay.Packets

/-!
# What the relay's sockets let through

A session's name has no NUL, so the identity of a socket tells the session that it was allocated for
(`identity_inj`). The invariant of the relay (`Inv`) is kept by each of its steps; what a call learnt from the
registry stays true, since sockets and reads are only added. A socket that is closed stays closed, and lets in at
most the datagrams that calls had taken from it (`Shut`).
-/

namespace StrixAlloy.MobileRelay

open List Function

/-! ## Identities -/

section Identity

variable {F : Type} [LinearOrder F] {x : Float64 F} {lib : Library F}

/-- A session that some reading of the registry contains. -/
def Loaded (x : Float64 F) (lib : Library F) (s : Session F) : Prop :=
  ∃ file now sessions, load x lib file now = some sessions ∧ s ∈ sessions

theorem load_ok {file : Option (List UInt8)} {now : F} {sessions : List (Session F)}
    (h : load x lib file now = some sessions) {s : Session F} (hs : s ∈ sessions) : sessionOk x lib now s := by
  unfold load at h
  obtain ⟨bytes, -, h⟩ := Option.bind_eq_some_iff.1 h
  split at h
  · cases h
  obtain ⟨v, -, h⟩ := Option.bind_eq_some_iff.1 h
  split at h
  · cases h
  obtain ⟨rf, -, h⟩ := Option.bind_eq_some_iff.1 h
  split at h
  · cases h
  · rename_i hchecks
    cases h
    simp only [not_or, not_not] at hchecks
    exact all_eq_true.1 hchecks.2.2.1 s hs

/-- A valid part has no NUL. -/
theorem validPart_nul {s : String} {max : ℕ} (h : validPart (bytesOf s) max) : '\x00' ∉ s.toList := by
  intro hmem
  have hbyte : (0 : UInt8) ∈ bytesOf s := mem_flatMap.2 ⟨'\x00', hmem, by decide⟩
  simp only [validPart, Bool.and_eq_true, all_eq_true, decide_eq_true_eq] at h
  exact absurd (h.2 0 hbyte).1.1 (by decide)

theorem append_cons_inj {α : Type} {c : α} {as as' bs bs' : List α} (h : c ∉ as) (h' : c ∉ as')
    (e : as ++ c :: bs = as' ++ c :: bs') : as = as' ∧ bs = bs' := by
  induction as generalizing as' with
  | nil =>
    cases as' with
    | nil => exact ⟨rfl, (List.cons.inj e).2⟩
    | cons => exact absurd (List.cons.inj e).1 (ne_of_not_mem_cons h')
  | cons a as ih =>
    cases as' with
    | nil => exact absurd (List.cons.inj e).1.symm (ne_of_not_mem_cons h)
    | cons =>
      rw [cons_append, cons_append] at e
      obtain ⟨rfl, erest⟩ := List.cons.inj e
      obtain ⟨rfl, rfl⟩ := ih (not_mem_of_not_mem_cons h) (not_mem_of_not_mem_cons h') erest
      exact ⟨rfl, rfl⟩

/-- The lower case of a letter is the digit that the letter is. -/
theorem hexDigit_add {c d : Char} (hlow : 65 ≤ c.toNat) (hhigh : c.toNat ≤ 90) (h : d.toNat = c.toNat + 32) :
    hexDigit d = hexDigit c := by
  have hdigit : isDigit c = false ∧ isDigit d = false := by
    simp only [isDigit, Bool.and_eq_false_iff, decide_eq_false_iff_not]
    omega
  unfold hexDigit
  rw [hdigit.1, hdigit.2, h, if_neg Bool.false_ne_true, if_neg Bool.false_ne_true]
  by_cases hf : c.toNat ≤ 70
  · rw [if_pos (by omega), if_neg (by omega), if_pos (by omega)]
    exact congrArg some (by omega)
  · rw [if_neg (by omega), if_neg (by omega), if_neg (by omega), if_neg (by omega)]

theorem hexDigit_toLower (c : Char) : hexDigit c.toLower = hexDigit c := by
  unfold Char.toLower
  split
  · rename_i h
    have hlow : 65 ≤ c.toNat := UInt32.le_iff_toNat_le.1 h.1
    have hhigh : c.toNat ≤ 90 := UInt32.le_iff_toNat_le.1 h.2
    refine hexDigit_add hlow hhigh ?_
    change (c.val + 32).toNat = c.toNat + 32
    rw [UInt32.toNat_add]
    change (c.toNat + 32) % 2 ^ 32 = c.toNat + 32
    omega
  · rfl

theorem hexDecode_toLower : ∀ cs : List Char, hexDecode (cs.map Char.toLower) = hexDecode cs
  | [] => rfl
  | [_] => rfl
  | a :: b :: cs => by
    rw [map_cons, map_cons, hexDecode, hexDecode, hexDigit_toLower, hexDigit_toLower, hexDecode_toLower cs]

/-- Sessions of one identity agree in id, instance, service and token hash. -/
theorem identity_inj {s s' : Session F} (h : Loaded x lib s) (h' : Loaded x lib s') (e : identity s = identity s') :
    s.id = s'.id ∧ s.instance_ = s'.instance_ ∧ s.service_id = s'.service_id ∧
      hexDecode s.token_sha256.toList = hexDecode s'.token_sha256.toList := by
  have hnul : ∀ s, Loaded x lib s →
      '\x00' ∉ s.id.toList ∧ '\x00' ∉ s.instance_.toList ∧ '\x00' ∉ s.service_id.toList := by
    rintro s ⟨file, now, sessions, hload, hs⟩
    have hok := load_ok hload hs
    simp only [sessionOk, Bool.and_eq_true] at hok
    exact ⟨validPart_nul hok.1.1.1.1.1.1, validPart_nul hok.1.1.1.1.1.2, validPart_nul hok.1.1.1.1.2⟩
  obtain ⟨hid, hinst, hservice⟩ := hnul s h
  obtain ⟨hid', hinst', hservice'⟩ := hnul s' h'
  obtain ⟨eid, e⟩ := append_cons_inj hid hid' e
  obtain ⟨einst, e⟩ := append_cons_inj hinst hinst' e
  obtain ⟨eservice, e⟩ := append_cons_inj hservice hservice' e
  refine ⟨String.toList_inj.1 eid, String.toList_inj.1 einst, String.toList_inj.1 eservice, ?_⟩
  rw [← hexDecode_toLower, e, hexDecode_toLower]

end Identity

/-! ## The invariant -/

section Relay

variable {F : Type} [LinearOrder F] (x : Float64 F) (lib : Library F) (unix : ℚ → F) (local_ : List (List ℕ))

/-- What a registry read shows of a socket: it is active, with the session `s`. -/
def Shows (r : Read) (p : GuardedPacket F) (s : Session F) : Prop :=
  session x lib r.file p.id (unix r.time) = some s ∧ identity s = p.identity ∧ r.time - p.created < maxConnLifetime

namespace Generator

/-- The call `j` has read that the socket `k` is active. -/
def Authorised (g : Generator F) (j k : ℕ) (s : Session F) : Prop :=
  ∃ p, g.sockets[k]? = some p ∧ ∃ r ∈ g.reads, r.call = j ∧ Shows x lib unix r p s

/-- What a call knows. -/
def Knows (g : Generator F) (j : ℕ) : Call F → Prop
  | .bound s => Loaded x lib s
  | .writing k s _ _ => g.Authorised x lib unix j k s
  | .reading k s _ _ _ => g.Authorised x lib unix j k s
  | _ => True

/-- What passes. -/
def Licensed (g : Generator F) (p : Pass) : Prop :=
  ∃ s, g.Authorised x lib unix p.call p.socket s ∧ allowed lib local_ s p.addr ∧ p.data.length ≤ maxPayload

omit [LinearOrder F] in
/-- The times and lengths of what passed a socket. -/
def log (g : Generator F) (k : ℕ) : List (ℚ × ℚ) :=
  (g.passed.filter fun p => p.socket = k).map fun p => (p.time, (p.data.length : ℚ))

structure Inv (g : Generator F) : Prop where
  nodup : g.conns.Nodup
  known : ∀ k ∈ g.conns, k < g.sockets.length
  length_le : g.conns.length ≤ 8
  count_le : ∀ id, (g.conns.filter fun k => g.id? k = some id).length ≤ 4
  raw : ∀ k, g.raw k → k ∈ g.conns
  named : ∀ p ∈ g.sockets, p.id = p.session.id ∧ p.identity = identity p.session ∧ Loaded x lib p.session
  knows : ∀ j c, g.calls[j]? = some c → g.Knows x lib unix j c
  licensed : ∀ p ∈ g.passed, g.Licensed x lib unix local_ p
  updated : ∀ k, (g.bucket k).updated ≤ g.now
  metered : ∀ k, (g.bucket k).Metered 1048576 1048576 (g.log k)

variable {x lib unix local_} {g : Generator F} {j k : ℕ} {s : Session F}

theorem active_spec (h : g.active x lib unix k = some s) : (g.noted j).Authorised x lib unix j k s := by
  obtain ⟨p, hp, h⟩ := Option.bind_eq_some_iff.1 h
  obtain ⟨hsession, hpred⟩ := Option.filter_eq_some_iff.1 h
  obtain ⟨hid, htime⟩ := of_decide_eq_true hpred
  exact ⟨p, hp, ⟨j, g.file, g.now⟩, mem_append_right _ (mem_singleton.2 rfl), rfl, hsession, hid, htime⟩

theorem Authorised.mono {g' : Generator F} (h : g.Authorised x lib unix j k s)
    (hs : ∀ (k : ℕ) p, g.sockets[k]? = some p → g'.sockets[k]? = some p) (hr : ∀ r ∈ g.reads, r ∈ g'.reads) :
    g'.Authorised x lib unix j k s := by
  obtain ⟨p, hp, r, hmem, hrest⟩ := h
  exact ⟨p, hs k p hp, r, hr r hmem, hrest⟩

theorem Knows.mono {g' : Generator F} {c : Call F} (h : g.Knows x lib unix j c)
    (hs : ∀ (k : ℕ) p, g.sockets[k]? = some p → g'.sockets[k]? = some p) (hr : ∀ r ∈ g.reads, r ∈ g'.reads) :
    g'.Knows x lib unix j c := by
  cases c with
  | writing => exact Authorised.mono h hs hr
  | reading => exact Authorised.mono h hs hr
  | bound => exact h
  | _ => trivial

section

variable (h : Inv x lib unix local_ g)
include h

theorem Inv.goto {c : Call F} (hc : g.Knows x lib unix j c) :
    Inv x lib unix local_ (g.goto j c) := by
  refine { h with knows := fun i d hd => ?_ }
  change (g.calls.set j c)[i]? = some d at hd
  rw [List.getElem?_set] at hd
  split_ifs at hd with hij hlt
  · subst hij
    cases hd
    exact hc
  · exact h.knows i d hd

theorem Inv.noted (j : ℕ) : Inv x lib unix local_ (g.noted j) := by
  have hr : ∀ r ∈ g.reads, r ∈ (g.noted j).reads := fun r hr => mem_append_left _ hr
  refine { h with knows := fun i d hd => (h.knows i d hd).mono (fun _ _ hp => hp) hr, licensed := fun p hp => ?_ }
  obtain ⟨s, hs, hrest⟩ := h.licensed p hp
  exact ⟨s, hs.mono (fun _ _ hp => hp) hr, hrest⟩

theorem Inv.close (k : ℕ) : Inv x lib unix local_ (g.close k) := by
  have hsub : (g.close k).conns.Sublist g.conns := filter_sublist
  refine { h with
    nodup := h.nodup.sublist hsub
    known := fun i hi => h.known i (hsub.subset hi)
    length_le := ?_
    count_le := fun id => ?_
    raw := fun i hi => ?_ }
  · exact hsub.length_le.trans h.length_le
  · exact ((hsub.filter _).length_le).trans (h.count_le id)
  · change update g.raw k false i = true at hi
    by_cases hik : i = k
    · subst hik
      rw [update_self] at hi
      cases hi
    · rw [update_of_ne hik] at hi
      exact mem_filter.2 ⟨h.raw i hi, decide_eq_true hik⟩

theorem Inv.rateAllow (k n : ℕ) : Inv x lib unix local_ (g.rateAllow k n).2 := by
  refine { h with updated := fun i => ?_, metered := fun i => ?_ }
  · change (update g.bucket k _ i).updated ≤ g.now
    by_cases hik : i = k
    · subst hik
      rw [update_self, Bucket.take_updated]
    · rw [update_of_ne hik]
      exact h.updated i
  · change (update g.bucket k _ i).Metered _ _ (g.log i)
    by_cases hik : i = k
    · subst hik
      rw [update_self]
      exact (h.metered i).waste (h.updated i) (by norm_num) (Nat.cast_nonneg n)
    · rw [update_of_ne hik]
      exact h.metered i

end

omit [LinearOrder F] in
theorem log_pass (p : Pass) (i : ℕ) :
    (g.pass p).log i = g.log i ++ if p.socket = i then [(p.time, (p.data.length : ℚ))] else [] := by
  unfold log pass
  rw [filter_append, map_append]
  congr 1
  by_cases hi : p.socket = i
  · simp [hi]
  · simp [hi]

/-- What the rate check admits passes. -/
theorem Inv.pass (h : Inv x lib unix local_ g) {p : Pass} (htime : p.time = g.now)
    (hp : g.Licensed x lib unix local_ p) (hrate : (g.rateAllow p.socket p.data.length).1) :
    Inv x lib unix local_ ((g.rateAllow p.socket p.data.length).2.pass p) := by
  have hr := h.rateAllow p.socket p.data.length
  refine { hr with licensed := fun q hq => ?_, metered := fun i => ?_ }
  · rcases mem_append.1 hq with hq | hq
    · exact hr.licensed q hq
    · rw [mem_singleton.1 hq]
      exact hp
  · rw [log_pass]
    split_ifs with hi
    · subst hi
      change (update g.bucket p.socket _ p.socket).Metered _ _ (g.log p.socket ++ _)
      rw [update_self, htime]
      exact (h.metered p.socket).take (h.updated p.socket) (by norm_num) (Nat.cast_nonneg _) hrate
    · rw [append_nil]
      exact hr.metered i

section

omit [LinearOrder F]

theorem added_sockets {i : ℕ} {p : GuardedPacket F} (h : g.sockets[i]? = some p) :
    (g.added s).sockets[i]? = some p := by
  change (g.sockets ++ _)[i]? = some p
  rw [List.getElem?_append_left (List.getElem?_eq_some_iff.1 h).1]
  exact h

theorem added_id? {i : ℕ} (hi : i < g.sockets.length) : (g.added s).id? i = g.id? i := by
  unfold id?
  rw [List.getElem?_eq_getElem hi, added_sockets (List.getElem?_eq_getElem hi)]

theorem added_id?_self : (g.added s).id? g.sockets.length = some s.id := by
  change (g.sockets ++ _)[g.sockets.length]?.map GuardedPacket.id = some s.id
  rw [List.getElem?_append_right le_rfl, Nat.sub_self]
  rfl

end

section

variable (h : Inv x lib unix local_ g)
include h

/-- A new socket passed nothing. -/
theorem Inv.log_new : g.log g.sockets.length = [] := by
  unfold log
  rw [map_eq_nil_iff, filter_eq_nil_iff]
  intro p hp he
  obtain ⟨t, ⟨q, hq, -⟩, -⟩ := h.licensed p hp
  rw [of_decide_eq_true he] at hq
  exact (List.getElem?_eq_some_iff.1 hq).1.false

theorem Inv.added (hs : Loaded x lib s) (hlength : g.conns.length < 8)
    (hcount : (g.conns.filter fun k => g.id? k = some s.id).length < 4) : Inv x lib unix local_ (g.added s) where
  nodup := by
    have hnew : g.sockets.length ∉ g.conns := fun hmem => (h.known _ hmem).false
    change (g.conns ++ [g.sockets.length]).Nodup
    rw [nodup_append]
    refine ⟨h.nodup, nodup_cons.2 ⟨not_mem_nil, nodup_nil⟩, ?_⟩
    rintro a ha b hb rfl
    exact hnew (mem_singleton.1 hb ▸ ha)
  known i hi := by
    change i < (g.sockets ++ [_]).length
    rw [length_append]
    rcases mem_append.1 hi with hi | hi
    · exact Nat.lt_add_right _ (h.known i hi)
    · rw [mem_singleton.1 hi]
      exact Nat.lt_add_one _
  length_le := by
    change (g.conns ++ [g.sockets.length]).length ≤ 8
    rw [length_append]
    exact hlength
  count_le id := by
    have hold : g.conns.filter (fun k => (g.added s).id? k = some id) = g.conns.filter fun k => g.id? k = some id :=
      filter_congr fun k hk => by rw [added_id? (h.known k hk)]
    change ((g.conns ++ [g.sockets.length]).filter fun k => (g.added s).id? k = some id).length ≤ 4
    rw [filter_append, length_append, hold, filter_singleton, added_id?_self]
    by_cases hid : s.id = id
    · subst hid
      rw [decide_eq_true rfl]
      exact hcount
    · rw [decide_eq_false fun e => hid (Option.some.inj e)]
      exact h.count_le id
  raw i hi := by
    change update g.raw g.sockets.length true i = true at hi
    by_cases hik : i = g.sockets.length
    · rw [hik]
      exact mem_append_right _ (mem_singleton.2 rfl)
    · rw [update_of_ne hik] at hi
      exact mem_append_left _ (h.raw i hi)
  named p hp := by
    rcases mem_append.1 hp with hp | hp
    · exact h.named p hp
    · rw [mem_singleton.1 hp]
      exact ⟨rfl, rfl, hs⟩
  knows i c hc := (h.knows i c hc).mono (fun _ _ => added_sockets) fun _ hr => hr
  licensed p hp := by
    obtain ⟨t, ht, hrest⟩ := h.licensed p hp
    exact ⟨t, ht.mono (fun _ _ => added_sockets) fun _ hr => hr, hrest⟩
  updated i := by
    change (update g.bucket g.sockets.length _ i).updated ≤ g.now
    by_cases hik : i = g.sockets.length
    · subst hik
      rw [update_self]
    · rw [update_of_ne hik]
      exact h.updated i
  metered i := by
    change (update g.bucket g.sockets.length _ i).Metered _ _ (g.log i)
    by_cases hik : i = g.sockets.length
    · subst hik
      rw [update_self, h.log_new]
      exact Bucket.Metered.full (by norm_num) (by norm_num)
    · rw [update_of_ne hik]
      exact h.metered i

/-- A socket that is allocated is a new one. -/
theorem Inv.allocate (hs : Loaded x lib s) (w : World) :
    Inv x lib unix local_ (g.allocate s w) := by
  unfold Generator.allocate
  dsimp only
  split_ifs with hfull
  · exact h
  · push Not at hfull
    exact h.added hs hfull.2.1 hfull.2.2.1

theorem Inv.begin (b : Begin) : Inv x lib unix local_ (g.begin b) := by
  have hcalls : ∀ {c : Call F}, (∀ j, g.Knows x lib unix j c) → ∀ j d, (g.calls ++ [c])[j]? = some d →
      g.Knows x lib unix j d := by
    intro c hc j d hd
    rw [List.getElem?_append] at hd
    split_ifs at hd
    · exact h.knows j d hd
    · obtain rfl := mem_singleton.1 (mem_of_getElem? hd)
      exact hc j
  cases b with
  | closeAll =>
    refine { h with knows := hcalls fun j => ?_ }
    cases g.closed <;> exact trivial
  | _ => exact { h with knows := hcalls fun _ => trivial }

theorem Inv.next (w : World) {c : Call F} (hc : g.Knows x lib unix j c) :
    Inv x lib unix local_ (g.next x lib unix local_ j w c) := by
  cases c with
  | allocate =>
    dsimp only [Generator.next]
    split
    · exact h.goto trivial
    · split
      · exact h.goto trivial
      · rename_i s hs
        refine h.goto ?_
        unfold boundSession at hs
        split at hs
        · cases hs
        · obtain ⟨sessions, hload, hfind⟩ := Option.bind_eq_some_iff.1 hs
          exact ⟨_, _, sessions, hload, mem_of_find?_eq_some hfind⟩
  | bound => exact (h.allocate hc w).goto trivial
  | write =>
    dsimp only [Generator.next]
    split
    · exact (h.noted j).goto trivial
    · exact (h.noted j).goto (active_spec (by assumption))
  | writing k s b a =>
    dsimp only [Generator.next]
    split
    · exact h.goto trivial
    · rename_i hok
      push Not at hok
      split
      · rename_i hsent
        exact (h.pass (p := ⟨j, k, true, b, a, g.now⟩) rfl ⟨s, hc, hok.2, hok.1⟩ hsent.1).goto trivial
      · exact (h.rateAllow k b.length).goto trivial
  | read =>
    dsimp only [Generator.next]
    split
    · exact (h.noted j).goto trivial
    · exact (h.noted j).goto trivial
  | receive =>
    dsimp only [Generator.next]
    split
    · split
      · exact h.goto trivial
      · exact h.goto trivial
    · exact h.goto trivial
  | received =>
    dsimp only [Generator.next]
    split
    · exact (h.noted j).goto trivial
    · exact (h.noted j).goto (active_spec (by assumption))
  | reading k s size b a =>
    dsimp only [Generator.next]
    split
    · exact h.goto trivial
    · rename_i hok
      push Not at hok
      split
      · rename_i hsent
        exact (h.pass (p := ⟨j, k, false, b, a, g.now⟩) rfl ⟨s, hc, hok.2.2, hok.1⟩ hsent).goto trivial
      · exact (h.rateAllow k b.length).goto trivial
  | close k => exact (h.close k).goto trivial
  | sweep cs =>
    cases cs with
    | nil => exact h.goto trivial
    | cons =>
      dsimp only [Generator.next]
      split
      · exact (h.noted j).goto trivial
      · exact (h.noted j).goto trivial
  | sweepClose k => exact (h.close k).goto trivial
  | closeAll cs =>
    cases cs with
    | nil => exact h.goto trivial
    | cons k => exact (h.close k).goto trivial
  | done => exact h

theorem Inv.step (a : Action) : Inv x lib unix local_ (g.step x lib unix local_ a) := by
  cases a with
  | tick => exact { h with updated := fun k => (h.updated k).trans (le_max_left _ _) }
  | rewrite => exact { h with nodup := h.nodup }
  | begin b => exact h.begin b
  | go j w =>
    unfold Generator.step
    dsimp only
    split
    · exact h
    · exact h.next w (h.knows j _ (by assumption))

end

theorem inv_init (now : ℚ) : Inv x lib unix local_ (init now) where
  nodup := nodup_nil
  known := nofun
  length_le := Nat.zero_le _
  count_le _ := Nat.zero_le _
  raw := nofun
  named := nofun
  knows := nofun
  licensed := nofun
  updated _ := le_rfl
  metered _ := Bucket.Metered.full (by norm_num) (by norm_num)

end Generator

end Relay

end StrixAlloy.MobileRelay

import StrixAlloy.MobileRelay.Authentication
import StrixAlloy.MobileRelay.Sockets

/-!
# Relayed packets

What every run of the relay keeps: the counts, what each datagram was authorised by, the bytes in any window, and
that a socket found inactive is closed. `Close` does not wait for the calls that are under way, so a datagram that
such a call took from the socket before still arrives, if that call's own registry read showed the session.
-/

namespace StrixAlloy.MobileRelay

open List Function Runs

section Relay

variable {F : Type} [LinearOrder F] (x : Float64 F) (lib : Library F) (unix : ℚ → F) (local_ : List (List ℕ))

/-- A registry read shows an unexpired session with the id, instance, service and token hash that the socket was
allocated for, while the socket is younger than an hour. -/
structure Live (r : Read) (p : GuardedPacket F) (s : Session F) : Prop where
  listed : ∃ sessions, load x lib r.file (unix r.time) = some sessions ∧ s ∈ sessions
  unexpired : unix r.time < s.expires_at
  id : s.id = p.session.id
  instance_ : s.instance_ = p.session.instance_
  service_id : s.service_id = p.session.service_id
  token : hexDecode s.token_sha256.toList = hexDecode p.session.token_sha256.toList
  young : r.time - p.created < 3600

/-- The datagram that a call has taken from a socket. -/
def Call.holds : Call F → Option (ℕ × List UInt8 × Addr)
  | .received k _ b a => some (k, b, a)
  | .reading k _ _ b a => some (k, b, a)
  | _ => none

/-- The socket whose activity a call reads next. -/
def Call.checks : Call F → Option ℕ
  | .write k _ _ => some k
  | .read k _ => some k
  | .received k _ _ _ => some k
  | .sweep (k :: _) => some k
  | _ => none

/-- The socket that a call is about to close. -/
def Call.closes : Call F → Option ℕ
  | .close k => some k
  | .sweepClose k _ => some k
  | .closeAll (k :: _) => some k
  | _ => none

namespace Generator

/-- The socket is closed and not counted. -/
def Closed (g : Generator F) (k : ℕ) : Prop := g.raw k = false ∧ k ∉ g.conns ∧ k < g.sockets.length

/-- The call `j` has taken this datagram from the socket `k`. -/
def Held (g : Generator F) (k j : ℕ) (b : List UInt8) (a : Addr) : Prop :=
  ∃ c, g.calls[j]? = some c ∧ c.holds = some (k, b, a)

/-- From `g` on the socket `k` stays closed, and only what was taken from it before passes. -/
structure Shut (k : ℕ) (g t : Generator F) : Prop where
  closed : t.Closed k
  held : ∀ j b a, t.Held k j b a → g.Held k j b a
  begun : g.calls.length ≤ t.calls.length
  passed : ∃ more, t.passed = g.passed ++ more ∧
    ∀ p ∈ more, p.socket = k → p.outward = false ∧ g.Held k p.call p.data p.addr

variable {x lib unix local_} {g t : Generator F} {j k : ℕ} {s : Session F}

theorem Authorised.live (h : Inv x lib unix local_ g) (hs : g.Authorised x lib unix j k s) :
    ∃ p, g.sockets[k]? = some p ∧ ∃ r ∈ g.reads, r.call = j ∧ Live x lib unix r p s := by
  obtain ⟨p, hp, r, hr, hcall, hsession, hidentity, hyoung⟩ := hs
  obtain ⟨sessions, hload, hfind⟩ := Option.bind_eq_some_iff.1 hsession
  have hmem := mem_of_find?_eq_some hfind
  have hpred : s.id = p.id ∧ unix r.time < s.expires_at := of_decide_eq_true (List.find?_some hfind :)
  obtain ⟨-, hpidentity, hloaded⟩ := h.named p (mem_of_getElem? hp)
  obtain ⟨hid, hinst, hservice, htoken⟩ :=
    identity_inj ⟨_, _, sessions, hload, hmem⟩ hloaded (hidentity.trans hpidentity)
  exact ⟨p, hp, r, hr, hcall, ⟨sessions, hload, hmem⟩, hpred.2, hid, hinst, hservice, htoken, hyoung⟩

/-- The open sockets are counted. -/
theorem Inv.open_le (h : Inv x lib unix local_ g) {l : List ℕ} (hl : l.Nodup) (hopen : ∀ k ∈ l, g.raw k) :
    l.length ≤ 8 ∧ ∀ id, (∀ k ∈ l, g.id? k = some id) → l.length ≤ 4 := by
  constructor
  · exact (subperm_of_subset hl fun k hk => h.raw k (hopen k hk)).length_le.trans h.length_le
  · intro id hid
    refine (subperm_of_subset hl fun k hk => ?_).length_le.trans (h.count_le id)
    exact mem_filter.2 ⟨h.raw k (hopen k hk), decide_eq_true (hid k hk)⟩

/-! ## Closing -/

section

omit [LinearOrder F]

theorem Shut.refl (h : g.Closed k) : Shut k g g :=
  ⟨h, fun _ _ _ h => h, le_rfl, [], (append_nil _).symm, nofun⟩

/-- A call goes on, without a datagram or with the one that it held. -/
theorem Shut.goto (h : Shut k g t) {c : Call F} (hc : ∀ b a, c.holds = some (k, b, a) → t.Held k j b a) :
    Shut k g (t.goto j c) := by
  refine { h with held := fun i b a hi => ?_, begun := ?_ }
  · obtain ⟨d, hd, hholds⟩ := hi
    change (t.calls.set j c)[i]? = some d at hd
    rw [List.getElem?_set] at hd
    split_ifs at hd with hij hlt
    · subst hij
      cases hd
      exact h.held j b a (hc b a hholds)
    · exact h.held i b a ⟨d, hd, hholds⟩
  · change g.calls.length ≤ (t.calls.set j c).length
    rw [length_set]
    exact h.begun

theorem Shut.noted (h : Shut k g t) (j : ℕ) : Shut k g (t.noted j) := { h with held := h.held }

theorem Shut.close (h : Shut k g t) (i : ℕ) : Shut k g (t.close i) := by
  refine { h with closed := ⟨?_, fun hk => h.closed.2.1 (mem_filter.1 hk).1, h.closed.2.2⟩ }
  change update t.raw i false k = false
  by_cases hki : k = i
  · rw [hki, update_self]
  · rw [update_of_ne hki]
    exact h.closed.1

theorem Shut.rateAllow (h : Shut k g t) (i n : ℕ) : Shut k g (t.rateAllow i n).2 := { h with held := h.held }

theorem Shut.pass (h : Shut k g t) {p : Pass}
    (hp : p.socket = k → p.outward = false ∧ t.Held k p.call p.data p.addr) : Shut k g (t.pass p) := by
  obtain ⟨more, hmore, hold⟩ := h.passed
  refine { h with passed := ⟨more ++ [p], ?_, fun q hq hk => ?_⟩ }
  · change t.passed ++ [p] = _
    rw [hmore, append_assoc]
  · rcases mem_append.1 hq with hq | hq
    · exact hold q hq hk
    · obtain rfl := mem_singleton.1 hq
      exact ⟨(hp hk).1, h.held _ _ _ (hp hk).2⟩

theorem Shut.allocate (h : Shut k g t) (s : Session F) (w : World) : Shut k g (t.allocate s w) := by
  unfold Generator.allocate
  dsimp only
  split_ifs
  · exact h
  · have hne : k ≠ t.sockets.length := h.closed.2.2.ne
    refine { h with closed := ⟨?_, fun hk => ?_, ?_⟩ }
    · change update t.raw t.sockets.length true k = false
      rw [update_of_ne hne]
      exact h.closed.1
    · rcases mem_append.1 hk with hk | hk
      · exact h.closed.2.1 hk
      · exact hne (mem_singleton.1 hk)
    · change k < (t.sockets ++ [_]).length
      rw [length_append]
      exact Nat.lt_add_right _ h.closed.2.2

theorem Shut.begin (h : Shut k g t) (b : Begin) : Shut k g (t.begin b) := by
  have hheld : ∀ {c : Call F}, c.holds = none → ∀ j b a,
      (∃ d, (t.calls ++ [c])[j]? = some d ∧ d.holds = some (k, b, a)) → g.Held k j b a := by
    rintro c hc j b a ⟨d, hd, hholds⟩
    rw [List.getElem?_append] at hd
    split_ifs at hd
    · exact h.held j b a ⟨d, hd, hholds⟩
    · obtain rfl := mem_singleton.1 (mem_of_getElem? hd)
      cases hc.symm.trans hholds
  have hbegun : ∀ c : Call F, g.calls.length ≤ (t.calls ++ [c]).length := by
    intro c
    rw [length_append]
    exact Nat.le_add_right_of_le h.begun
  cases b with
  | closeAll =>
    refine { h with held := hheld ?_, begun := hbegun _ }
    cases t.closed <;> rfl
  | _ => exact { h with held := hheld rfl, begun := hbegun _ }

end

theorem Shut.next (h : Shut k g t) (w : World) {c : Call F} (hc : t.calls[j]? = some c) :
    Shut k g (t.next x lib unix local_ j w c) := by
  cases c with
  | allocate =>
    dsimp only [Generator.next]
    split
    · exact h.goto nofun
    · split
      · exact h.goto nofun
      · exact h.goto nofun
  | bound s => exact (h.allocate s w).goto nofun
  | write =>
    dsimp only [Generator.next]
    split
    · exact (h.noted j).goto nofun
    · exact (h.noted j).goto nofun
  | writing i s b =>
    dsimp only [Generator.next]
    split
    · exact h.goto nofun
    · split
      · rename_i hsent
        refine ((h.rateAllow i b.length).pass fun hi => ?_).goto nofun
        obtain rfl : i = k := hi
        exact absurd (hsent.2.1.symm.trans h.closed.1) Bool.false_ne_true.symm
      · exact (h.rateAllow i b.length).goto nofun
  | read =>
    dsimp only [Generator.next]
    split
    · exact (h.noted j).goto nofun
    · exact (h.noted j).goto nofun
  | receive =>
    dsimp only [Generator.next]
    split
    · rename_i b a _
      split
      · rename_i hraw
        refine h.goto fun b' a' hholds => ?_
        cases hholds
        exact absurd (hraw.symm.trans h.closed.1) Bool.false_ne_true.symm
      · exact h.goto nofun
    · exact h.goto nofun
  | received =>
    dsimp only [Generator.next]
    split
    · exact (h.noted j).goto nofun
    · exact (h.noted j).goto fun b' a' hholds => ⟨_, hc, hholds⟩
  | reading i s size b a =>
    dsimp only [Generator.next]
    split
    · exact h.goto nofun
    · split
      · refine ((h.rateAllow i b.length).pass fun hi => ?_).goto nofun
        obtain rfl : i = k := hi
        exact ⟨rfl, .reading i s size b a, hc, rfl⟩
      · exact (h.rateAllow i b.length).goto nofun
  | close i => exact (h.close i).goto nofun
  | sweep cs =>
    cases cs with
    | nil => exact h.goto nofun
    | cons =>
      dsimp only [Generator.next]
      split
      · exact (h.noted j).goto nofun
      · exact (h.noted j).goto nofun
  | sweepClose i => exact (h.close i).goto nofun
  | closeAll cs =>
    cases cs with
    | nil => exact h.goto nofun
    | cons i => exact (h.close i).goto nofun
  | done => exact h

theorem Shut.step (h : Shut k g t) (a : Action) : Shut k g (t.step x lib unix local_ a) := by
  cases a with
  | tick => exact { h with held := h.held }
  | rewrite => exact { h with held := h.held }
  | begin b => exact h.begin b
  | go j w =>
    unfold Generator.step
    dsimp only
    split
    · exact h
    · exact h.next w (by assumption)

omit [LinearOrder F] in
theorem goto_self {c c' : Call F} (hc : g.calls[j]? = some c) : (g.goto j c').calls[j]? = some c' :=
  List.getElem?_set_self (List.getElem?_eq_some_iff.1 hc).1

/-- A call that finds a socket inactive closes it next. -/
theorem next_inactive {c : Call F} (w : World) (hc : g.calls[j]? = some c) (hchecks : c.checks = some k)
    (hinactive : g.active x lib unix k = none) :
    ∃ c', (g.next x lib unix local_ j w c).calls[j]? = some c' ∧ c'.closes = some k := by
  cases c with
  | write =>
    cases hchecks
    dsimp only [Generator.next]
    rw [hinactive]
    exact ⟨.close k, goto_self hc, rfl⟩
  | read =>
    cases hchecks
    dsimp only [Generator.next]
    rw [hinactive]
    exact ⟨.close k, goto_self hc, rfl⟩
  | received =>
    cases hchecks
    dsimp only [Generator.next]
    rw [hinactive]
    exact ⟨.close k, goto_self hc, rfl⟩
  | sweep cs =>
    cases cs with
    | nil => cases hchecks
    | cons i cs =>
      cases hchecks
      dsimp only [Generator.next]
      rw [hinactive]
      exact ⟨.sweepClose k cs, goto_self hc, rfl⟩
  | _ => cases hchecks

theorem next_closes {c : Call F} (w : World) (hcloses : c.closes = some k) (hk : k < g.sockets.length) :
    (g.next x lib unix local_ j w c).Closed k := by
  have hclosed : (g.close k).Closed k :=
    ⟨update_self .., fun hmem => of_decide_eq_true (mem_filter.1 hmem).2 rfl, hk⟩
  cases c with
  | close =>
    cases hcloses
    exact hclosed
  | sweepClose =>
    cases hcloses
    exact hclosed
  | closeAll cs =>
    cases cs with
    | nil => cases hcloses
    | cons =>
      cases hcloses
      exact hclosed
  | _ => cases hcloses

end Generator

/-- In every run of the relay: at most eight sockets are open and counted, and at most four of one session id. What
passed was authorised by a registry read of its call, has at most 8192 bytes and a local address that the session
lists. The bytes in a window of time are bounded. A socket that is found inactive is closed by the next step of the
call that found it so; a closed one stays closed, and nothing passes it any more but the datagrams that calls had
taken from it. -/
theorem relayed_packets (now : ℚ) (actions : List Action) :
    let g := run (Generator.step x lib unix local_) (Generator.init now) actions
    (g.conns.length ≤ 8 ∧ (∀ id, (g.conns.filter fun k => g.id? k = some id).length ≤ 4) ∧
      ∀ l : List ℕ, l.Nodup → (∀ k ∈ l, g.raw k) →
        l.length ≤ 8 ∧ ∀ id, (∀ k ∈ l, g.id? k = some id) → l.length ≤ 4) ∧
    (∀ p ∈ g.passed, p.data.length ≤ 8192 ∧ ∃ q s, g.sockets[p.socket]? = some q ∧
      (∃ r ∈ g.reads, r.call = p.call ∧ Live x lib unix r q s) ∧
      ∃ ip port, p.addr = .udp (some ip) port ∧ ip ∈ local_ ∧
        ∃ peer ∈ s.peers, peer.port = port ∧ to4 lib peer.ip = some ip) ∧
    (∀ k a t, 0 ≤ t → Bucket.within a (a + t) (g.log k) ≤ 1048576 * (1 + t)) ∧
    (∀ j c k w, g.calls[j]? = some c →
      (c.checks = some k → g.active x lib unix k = none →
        ∃ c', (g.next x lib unix local_ j w c).calls[j]? = some c' ∧ c'.closes = some k) ∧
      (c.closes = some k → k < g.sockets.length → (g.next x lib unix local_ j w c).Closed k)) ∧
    ∀ k, g.Closed k → ∀ more, Generator.Shut k g (run (Generator.step x lib unix local_) g more) := by
  intro g
  have h : Generator.Inv x lib unix local_ g :=
    run_invariant (fun _ a h => h.step a) actions (Generator.inv_init now)
  refine ⟨⟨h.length_le, h.count_le, fun l hl hopen => h.open_le hl hopen⟩, ?_, ?_, ?_, ?_⟩
  · intro p hp
    obtain ⟨s, hs, hallowed, hlength⟩ := h.licensed p hp
    obtain ⟨q, hq, r, hr, hcall, hlive⟩ := hs.live h
    refine ⟨hlength, q, s, hq, ⟨r, hr, hcall, hlive⟩, ?_⟩
    cases haddr : p.addr with
    | other =>
      rw [haddr] at hallowed
      cases hallowed
    | udp ip port =>
      rw [haddr] at hallowed
      cases ip with
      | none => cases hallowed
      | some ip =>
        obtain ⟨hlocal, hpeers⟩ := (Bool.and_eq_true _ _ ▸ hallowed :)
        obtain ⟨peer, hpeer, hport⟩ := any_eq_true.1 hpeers
        exact ⟨ip, port, rfl, contains_iff_mem.1 hlocal, peer, hpeer, of_decide_eq_true hport⟩
  · intro k a t ht
    have hwindow := (h.metered k).window a (a + t) (le_add_of_nonneg_right ht)
    linarith
  · intro j c k w hc
    exact ⟨Generator.next_inactive w hc, Generator.next_closes w⟩
  · intro k hk more
    exact run_invariant (fun _ a h => h.step a) more (Generator.Shut.refl hk)

end Relay

/-! ## A datagram on its way -/

/-- A datagram of one byte arrives. -/
def arrival (a : Addr) : World where
  listens := true
  arrives := some ([1], a)
  sends := true

/-- A socket is allocated, and a receive takes a datagram from it and reads the registry. -/
def taken (file userID : List UInt8) (a : Addr) : List Action :=
  [.rewrite (some file), .begin (.allocate "udp4" 0 userID), .go 0 (arrival a), .go 0 (arrival a),
    .begin (.read 0 8192), .go 1 (arrival a), .go 1 (arrival a), .go 1 (arrival a)]

/-- The sessions are revoked, and a sweep closes the socket. -/
def revoked (a : Addr) : List Action := [.rewrite none, .begin .sweep, .go 2 (arrival a), .go 2 (arrival a)]

section OnItsWay

variable {F : Type} [LinearOrder F] {x : Float64 F} {lib : Library F} {unix : ℚ → F} {local_ : List (List ℕ)}
  {s : Session F} {file userID : List UInt8} {a : Addr}

namespace Generator

variable {g : Generator F} {j k : ℕ} {w : World}

theorem step_go {c : Call F} (hc : g.calls[j]? = some c) :
    g.step x lib unix local_ (.go j w) = g.next x lib unix local_ j w c := by
  unfold step
  dsimp only
  rw [hc]

theorem next_allocate (h : boundSession x lib g.file userID (unix g.now) = some s) :
    g.next x lib unix local_ j w (.allocate "udp4" 0 userID) = g.goto j (.bound s) := by
  dsimp only [next]
  rw [if_neg (by decide), h]

/-- The first socket is active while the file lists its session. -/
theorem active_first {p : GuardedPacket F} (hp : g.sockets = [p]) (hid : p.identity = identity s)
    (hyoung : g.now - p.created < maxConnLifetime) (h : session x lib g.file p.id (unix g.now) = some s) :
    g.active x lib unix 0 = some s := by
  unfold active
  rw [hp]
  change (session x lib g.file p.id (unix g.now)).filter _ = some s
  rw [h]
  exact Option.filter_some_pos (decide_eq_true ⟨hid.symm, hyoung⟩)

theorem active_none (h : g.file = none) : g.active x lib unix k = none := by
  unfold active session
  rw [h]
  cases g.sockets[k]? <;> rfl

omit [LinearOrder F] in
/-- The state in which the receive has read the registry. -/
def underWay (file : List UInt8) (s : Session F) (a : Addr) : Generator F :=
  let g : Generator F := { init 0 with file := some file }
  { g.added s with
    calls := [.done, .reading 0 s 8192 [1] a]
    reads := [⟨1, some file, 0⟩, ⟨1, some file, 0⟩] }

theorem run_taken (hbound : boundSession x lib (some file) userID (unix 0) = some s)
    (hsession : session x lib (some file) s.id (unix 0) = some s) :
    run (step x lib unix local_) (init 0) (taken file userID a) = underWay file s a := by
  let g₁ : Generator F := { init 0 with file := some file, calls := [.bound s] }
  have h₁ : step x lib unix local_ (step x lib unix local_ (step x lib unix local_ (init 0) (.rewrite (some file)))
      (.begin (.allocate "udp4" 0 userID))) (.go 0 (arrival a)) = g₁ := by
    rw [step_go rfl]
    exact next_allocate hbound
  let g₂ : Generator F := { g₁.added s with calls := [.done, .read 0 8192] }
  have h₂ : step x lib unix local_ (step x lib unix local_ g₁ (.go 0 (arrival a))) (.begin (.read 0 8192)) = g₂ := rfl
  have hactive : ∀ g : Generator F, g.file = some file → g.now = 0 → g.sockets = g₂.sockets →
      g.active x lib unix 0 = some s := by
    intro g hfile hnow hsockets
    refine active_first hsockets rfl ?_ (hfile ▸ hnow ▸ hsession)
    rw [hnow]
    change (0 : ℚ) - 0 < 3600
    norm_num
  let g₃ := (g₂.noted 1).goto 1 (.receive 0 8192)
  have h₃ : step x lib unix local_ g₂ (.go 1 (arrival a)) = g₃ := by
    rw [step_go rfl]
    dsimp only [next]
    rw [hactive g₂ rfl rfl rfl]
  let g₄ := g₃.goto 1 (.received 0 8192 [1] a)
  have h₄ : step x lib unix local_ g₃ (.go 1 (arrival a)) = g₄ := rfl
  have h₅ : step x lib unix local_ g₄ (.go 1 (arrival a)) = underWay file s a := by
    rw [step_go rfl]
    dsimp only [next]
    rw [hactive g₄ rfl rfl rfl]
    rfl
  simp only [taken, run_cons, run_nil]
  rw [h₁, h₂, h₃, h₄, h₅]

omit [LinearOrder F] in
/-- The state in which the sweep has closed the socket. -/
def closedUnderWay (file : List UInt8) (s : Session F) (a : Addr) : Generator F :=
  { (underWay file s a).close 0 with
    file := none
    calls := [.done, .reading 0 s 8192 [1] a, .sweep []]
    reads := [⟨1, some file, 0⟩, ⟨1, some file, 0⟩, ⟨2, none, 0⟩] }

theorem run_revoked :
    run (step x lib unix local_) (underWay file s a) (revoked a) = closedUnderWay file s a := by
  let g₁ := (step x lib unix local_ (step x lib unix local_ (underWay file s a) (.rewrite none)) (.begin .sweep))
  have h₁ : step x lib unix local_ g₁ (.go 2 (arrival a)) = (g₁.noted 2).goto 2 (.sweepClose 0 []) := by
    rw [step_go (c := .sweep [0]) rfl]
    dsimp only [next]
    rw [active_none rfl]
  simp only [revoked, run_cons, run_nil]
  rw [h₁]
  rfl

end Generator

/-- The receive under way lets the datagram in, an hour later. -/
theorem delivered_late (hbound : boundSession x lib (some file) userID (unix 0) = some s)
    (hsession : session x lib (some file) s.id (unix 0) = some s) (hallowed : Generator.allowed lib local_ s a) :
    let step := Generator.step x lib unix local_
    let g := run step (Generator.init 0) (taken file userID a ++ revoked a)
    g.Closed 0 ∧ g.passed = [] ∧ g.sockets.map GuardedPacket.created = [0] ∧
      (run step g [.tick 3600, .go 1 (arrival a)]).passed = [⟨1, 0, false, [1], a, 3600⟩] := by
  intro step g
  have hg : g = Generator.closedUnderWay file s a := by
    have htaken : run step (Generator.init 0) (taken file userID a) = _ := Generator.run_taken hbound hsession
    have hrevoked : run step _ (revoked a) = Generator.closedUnderWay file s a := Generator.run_revoked
    rw [← hrevoked, ← htaken]
    exact run_append _ _ _ _
  rw [hg]
  have hconns : (Generator.closedUnderWay file s a).conns = [] := rfl
  refine ⟨⟨rfl, hconns ▸ not_mem_nil, Nat.lt_succ_self 0⟩, rfl, rfl, ?_⟩
  change (step (step (Generator.closedUnderWay file s a) (.tick 3600)) (.go 1 (arrival a))).passed = _
  have hmax : max (0 : ℚ) 3600 = 3600 := by norm_num
  have hrate : ((step (Generator.closedUnderWay file s a) (.tick 3600)).rateAllow 0 [(1 : UInt8)].length).1 = true := by
    change (Bucket.take 1048576 1048576 (max (0 : ℚ) 3600) ((1 : ℕ) : ℚ) ⟨0, 1048576⟩).1 = true
    decide +kernel
  have hgo : step (step (Generator.closedUnderWay file s a) (.tick 3600)) (.go 1 (arrival a)) = _ :=
    Generator.step_go rfl
  rw [hgo]
  dsimp only [Generator.next]
  rw [if_neg (by simp [hallowed, maxPayload]), if_pos hrate]
  change [] ++ [Pass.mk 1 0 false [1] a (max 0 3600)] = _
  rw [hmax, nil_append]

end OnItsWay

local instance neZero_seconds : NeZero (2 ^ 40) := ⟨by decide⟩

/-- A session with one peer. -/
def relayed : Session (Fin (2 ^ 40)) where
  id := "00000000000000000000000000000000"
  instance_ := "a"
  service_id := "00000000000000000000000000000000"
  token_sha256 := "36a9e7f1c95b82ffb99743e0c5c4ce95d83c9a430aac59f84ef3cbfab6145068"
  expires_at := 60
  peers := [⟨"10.0.0.1", 5004⟩]

/-- The whole seconds of a reading. -/
def wholeSeconds (t : ℚ) : Fin (2 ^ 40) := Fin.ofNat (2 ^ 40) t.floor.toNat

theorem load_relayed : load seconds (exactLibrary _ blankHash) (some (encoded seconds [relayed])) (wholeSeconds 0) =
    some [relayed] := by
  apply load_encoded
  refine ⟨fun s hs => ?_, by decide, by decide⟩
  rw [mem_singleton.1 hs]
  refine ⟨by decide +kernel, by decide +kernel, by decide +kernel, by decide +kernel, by decide +kernel, by decide, ?_⟩
  intro p hp
  rw [mem_singleton.1 hp]
  exact ⟨by decide +kernel, by decide⟩

/-- The session is revoked and its socket closed; then, when the socket is an hour old, a datagram passes it. -/
theorem closed_socket_lets_in :
    let step := Generator.step seconds (exactLibrary _ blankHash) wholeSeconds [[10, 0, 0, 1]]
    let g := run step (Generator.init 0) (taken (encoded seconds [relayed]) (utf8 (hexEncode (blankHash [])))
      (.udp (some [10, 0, 0, 1]) 5004) ++ revoked (.udp (some [10, 0, 0, 1]) 5004))
    g.Closed 0 ∧ g.passed = [] ∧ g.sockets.map GuardedPacket.created = [0] ∧
      (run step g [.tick 3600, .go 1 (arrival (.udp (some [10, 0, 0, 1]) 5004))]).passed =
        [⟨1, 0, false, [1], .udp (some [10, 0, 0, 1]) 5004, 3600⟩] := by
  have hbound : boundSession seconds (exactLibrary _ blankHash) (some (encoded seconds [relayed]))
      (utf8 (hexEncode (blankHash []))) (wholeSeconds 0) = some relayed := by
    rw [boundSession, load_relayed]
    decide +kernel
  have hsession : session seconds (exactLibrary _ blankHash) (some (encoded seconds [relayed])) relayed.id
      (wholeSeconds 0) = some relayed := by
    rw [session, load_relayed]
    decide +kernel
  exact delivered_late hbound hsession (by decide +kernel)

end StrixAlloy.MobileRelay

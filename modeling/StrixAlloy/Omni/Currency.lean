import StrixAlloy.Lib.Runs
import StrixAlloy.Omni.Conversation
import StrixAlloy.Omni.Numbers

/-!
# No stale output

What holds of a conversation in every run, for any server and any order of its calls and coroutines
(`Inv`), and what follows for its output: a reply without a failure is the newest one of the current
epoch; what was issued before an invalidation is never current again; the deltas of such a reply make up
its text; and after the server broke the protocol there is no such reply.
-/

namespace StrixAlloy.Omni

open Runs Checked List Option
open Routing (strip)

/-! ## Numbers -/

/-- The numbers of all replies are at most those of the last response. -/
def Below (l : List Returned) (o : Observed) : Prop :=
  ∀ x ∈ l, ∀ i, x.reply.identity = some i →
    i.turn_id ≤ o.last_turn ∧ i.generation_id ≤ o.last_generation

/-- The numbers of the socket's response are higher than those of all replies. -/
def Newer (l : List Returned) (o : Observed) : Prop :=
  ∀ x ∈ l, ∀ i, x.reply.identity = some i →
    (∀ v, o.turn_id = some v → i.turn_id < v) ∧ ∀ g, o.generation_id = some g → i.generation_id < g

variable {l : List Returned} {o o' : Observed}

theorem Below.same (h : Below l o) (hs : Observed.SameNumbers o o') : Below l o' := by
  intro x hx i hi
  rw [hs.last_turn, hs.last_generation]
  exact h x hx i hi

theorem Newer.same (h : Newer l o) (hs : Observed.SameNumbers o o') : Newer l o' := by
  intro x hx i hi
  rw [hs.turn_id, hs.generation_id]
  exact h x hx i hi

/-- A response without numbers. -/
theorem newer_of_none (ht : o.turn_id = none) (hg : o.generation_id = none) : Newer l o := by
  intro x _ i _
  refine ⟨fun v hv => ?_, fun g hg' => ?_⟩
  · rw [ht] at hv
    cases hv
  · rw [hg] at hg'
    cases hg'

/-- An event keeps the order of the numbers. -/
theorem Below.numbers {event : Members} (hb : Below l o) (hn : Newer l o) (h : Observed.Numbers o event o') :
    Below l o' ∧ Newer l o' := by
  cases h with
  | old _ _ _ hsame => exact ⟨hb.same hsame, hn.same hsame⟩
  | other _ _ _ _ hsame => exact ⟨hb.same hsame, hn.same hsame⟩
  | committed turn _ _ _ hlt hnew hsame =>
    refine ⟨fun x hx i hi => ?_, fun x hx i hi => ⟨fun v hv => ?_, fun g hg => ?_⟩⟩
    · rw [hsame.2.1, hsame.2.2]
      exact hb x hx i hi
    · rw [hnew] at hv
      cases hv
      exact (hb x hx i hi).1.trans_lt hlt
    · rw [hsame.1] at hg
      exact (hn x hx i hi).2 g hg
  | created generation _ _ hlt hnew hsame =>
    refine ⟨fun x hx i hi => ?_, fun x hx i hi => ⟨fun v hv => ?_, fun g hg => ?_⟩⟩
    · rw [hsame.2.1, hsame.2.2]
      exact hb x hx i hi
    · rw [hsame.1] at hv
      exact (hn x hx i hi).1 v hv
    · rw [hnew] at hg
      cases hg
      exact (hb x hx i hi).2.trans_lt hlt
  | metrics turn generation _ hcur hnew hsame =>
    refine ⟨fun x hx i hi => ?_, fun x hx i hi => ?_⟩
    · obtain ⟨h1, h2⟩ := hn x hx i hi
      rw [hnew.1, hnew.2]
      exact ⟨(h1 _ hcur.turn_id).le, (h2 _ hcur.generation_id).le⟩
    · rw [hsame.1, hsame.2]
      exact hn x hx i hi

/-- One more reply, whose numbers are those of the last response, if it has any. -/
theorem Below.concat {x : Returned} (h : Below l o)
    (hx : ∀ i, x.reply.identity = some i → i.turn_id ≤ o.last_turn ∧ i.generation_id ≤ o.last_generation) :
    Below (l ++ [x]) o := by
  intro y hy
  rcases mem_append.1 hy with hy | hy
  · exact h y hy
  · rw [mem_singleton.1 hy]
    exact hx

/-- One more reply without an identity. -/
theorem Newer.concat {x : Returned} (h : Newer l o) (hx : x.reply.identity = none) : Newer (l ++ [x]) o := by
  intro y hy i hi
  rcases mem_append.1 hy with hy | hy
  · exact h y hy i hi
  · rw [mem_singleton.1 hy, hx] at hi
    cases hi

namespace Conversation

/-! ## The invariant -/

/-- The response of `r` was not given up. -/
def Live (s : Conversation) (r : Respond) (o : Observed) : Prop :=
  s.key = some r.key ∧ o.closed = false

/-- The calls of `on_delta` so far are the text that the turn has streamed. -/
def Streamed (s : Conversation) (r : Respond) (o : Observed) (t : Turn) : Prop :=
  t.on_delta = r.on_delta ∧ (s.Live r o → t.cancelled = false → s.session.cancel_requested = false →
    r.on_delta → String.join r.deltas = t.streamed)

/-- What the await of a turn tells about the numbers and the text. -/
def TurnOk (s : Conversation) (r : Respond) (o : Observed) (t : TurnTask) : Prop :=
  match t.phase with
  | .created | .sending => Sync o t.locals s.session ∧ t.locals = Turn.init r.on_delta ∧ r.deltas = []
  | .receiving | .delivering => Sync o t.locals s.session ∧ s.Streamed r o t.locals
  | .heard event => (∃ o1, Sync o1 t.locals s.session ∧ Observed.Numbers o1 event o) ∧
      s.Streamed r o t.locals
  | .refused | .raised => False
  | .returned result => o.turn_id = some result.turn_id ∧ o.generation_id = some result.generation_id ∧
      o.last_turn = result.turn_id ∧ o.last_generation = result.generation_id ∧
      o.last_turn = s.session.last_turn ∧ o.last_generation = s.session.last_generation ∧
      (s.Live r o → result.cancelled = false → r.on_delta →
        strip (String.join r.deltas) = strip result.text)

/-- Where `respond` is while the conversation is ready. -/
inductive Serving (s : Conversation) (o : Observed) : Prop where
  | idle (hsession : o.session_id ≠ none) (hbelow : Below s.replies o) (hrespond : s.respond = none)
      (hturn : s.active_turn = none) (hbusy : s.busy = false)
      (hlast : o.last_turn = s.session.last_turn ∧ o.last_generation = s.session.last_generation)
  | updating (r : Respond) (hsession : o.session_id ≠ none) (hbelow : Below s.replies o)
      (hrespond : s.respond = some r) (hphase : r.phase = .updating ∨ r.phase = .failing)
      (hturn : s.active_turn = none) (hbusy : s.busy)
      (hlast : Sync o (Turn.init r.on_delta) s.session) (hdeltas : r.deltas = [])
  | turning (r : Respond) (t : TurnTask) (hsession : o.session_id ≠ none) (hbelow : Below s.replies o)
      (hrespond : s.respond = some r) (hphase : r.phase = .turning) (hturn : s.active_turn = some t)
      (hbusy : s.busy) (hnew : Newer s.replies o) (hok : s.TurnOk r o t)
  | broken (r : Respond) (t : TurnTask) (hrespond : s.respond = some r) (hphase : r.phase = .turning)
      (hturn : s.active_turn = some t) (hbusy : s.busy)
      (hbroken : t.phase = .refused ∨ t.phase = .raised)

/-- The identities that were given out: to `on_delta`, and with a reply. -/
def issued (s : Conversation) : List Identity :=
  s.calls.map Prod.snd ++ s.replies.filterMap fun x => x.reply.identity

/-- What the await of `start` tells about the socket. -/
def HandshakeOk (o : Observed) : Handshake → Prop
  | .waiting => o.session_id = none ∧ o.turn_id = none ∧ o.generation_id = none ∧ o.last_turn = 0 ∧
      o.last_generation = 0
  | .heard _ => o.session_id ≠ none ∧ o.turn_id = none ∧ o.generation_id = none ∧ o.last_turn = 0 ∧
      o.last_generation = 0
  | .refused => True

/-- What holds in every run. -/
structure Inv (s : Conversation) : Prop where
  fresh : s.state = .new ∨ s.state = .starting → s.respond = none ∧ s.active_turn = none ∧
    s.busy = false ∧ s.session.last_turn = 0 ∧ s.session.last_generation = 0 ∧ s.issued = []
  handshake : s.handshake ≠ none → s.state = .starting ∨ s.state = .unavailable
  starting : s.state = .starting → ∃ o h, s.socket = some o ∧ s.handshake = some h ∧ HandshakeOk o h
  ready : s.state = .ready → ∃ o, s.socket = some o ∧ s.Serving o
  key : ∀ k, s.key = some k → s.state = .ready ∧ k.output_epoch = s.output_epoch ∧ s.invalidating = 0
  issued : ∀ i ∈ s.issued, i.key.output_epoch ≤ s.output_epoch
  responding : ∀ r, s.respond = some r → r.key.output_epoch ≤ s.output_epoch
  violated : s.violated → s.state ≠ .new ∧ (s.state = .starting → s.handshake = some .refused) ∧
    (s.state = .ready → ∃ t, s.active_turn = some t ∧ (t.phase = .refused ∨ t.phase = .raised))

theorem inv_init : Inv init where
  fresh _ := ⟨rfl, rfl, rfl, rfl, rfl, rfl⟩
  handshake h := absurd rfl h
  starting h := by cases h
  ready h := by cases h
  key k h := by cases h
  issued i h := by cases h
  responding r h := by cases h
  violated h := by cases h

variable {s s' : Conversation}

variable {r : Respond}

theorem ne_fresh (hi : Inv s) (h : s.respond = some r) : s.state ≠ .new ∧ s.state ≠ .starting := by
  constructor
  · intro hs
    rw [(hi.fresh (.inl hs)).1] at h
    cases h
  · intro hs
    rw [(hi.fresh (.inr hs)).1] at h
    cases h

variable {o : Observed} {t : TurnTask}

/-- The response that a running turn is of. -/
theorem Serving.of_turn (h : Serving s o) (ht : s.active_turn = some t) :
    ∃ r, s.respond = some r ∧ r.phase = .turning ∧ s.busy ∧
      (t.phase = .refused ∨ t.phase = .raised ∨
        o.session_id ≠ none ∧ Below s.replies o ∧ Newer s.replies o ∧ s.TurnOk r o t) := by
  cases h with
  | idle _ _ _ hturn =>
    rw [hturn] at ht
    cases ht
  | updating _ _ _ _ _ hturn =>
    rw [hturn] at ht
    cases ht
  | turning r t' hsession hbelow hrespond hphase hturn hbusy hnew hok =>
    cases hturn.symm.trans ht
    exact ⟨r, hrespond, hphase, hbusy, .inr (.inr ⟨hsession, hbelow, hnew, hok⟩)⟩
  | broken r t' hrespond hphase hturn hbusy hbroken =>
    cases hturn.symm.trans ht
    exact ⟨r, hrespond, hphase, hbusy, hbroken.imp_right .inl⟩

/-- A conversation that is unavailable stays so, and only its epochs matter. -/
theorem Inv.of_unavailable (hstate : s'.state = .unavailable) (hkey : s'.key = none)
    (hissued : ∀ i ∈ s'.issued, i.key.output_epoch ≤ s'.output_epoch)
    (hrespond : ∀ r, s'.respond = some r → r.key.output_epoch ≤ s'.output_epoch) : Inv s' where
  fresh h := by
    rw [hstate] at h
    rcases h with h | h <;> cases h
  handshake _ := .inr hstate
  starting h := by
    rw [hstate] at h
    cases h
  ready h := by
    rw [hstate] at h
    cases h
  key k h := by
    rw [hkey] at h
    cases h
  issued := hissued
  responding := hrespond
  violated _ := by
    rw [hstate]
    exact ⟨nofun, nofun, nofun⟩

/-- A step of a turn or of `respond`, which leaves the rest alone. -/
theorem Inv.serve (hi : Inv s) (hr : s.respond = some r) (hstate : s'.state = s.state)
    (hhandshake : s'.handshake = s.handshake) (hkey : s'.key = s.key) (hepoch : s'.output_epoch = s.output_epoch)
    (hinvalidating : s'.invalidating = s.invalidating)
    (hissued : ∀ i ∈ s'.issued, i.key.output_epoch ≤ s.output_epoch)
    (hrespond : ∀ r, s'.respond = some r → r.key.output_epoch ≤ s.output_epoch)
    (hready : s.state = .ready → ∃ o, s'.socket = some o ∧ s'.Serving o)
    (hviolated : s'.violated → s.state = .ready → ∃ t, s'.active_turn = some t ∧ (t.phase = .refused ∨
      t.phase = .raised)) :
    Inv s' where
  fresh h := by
    rw [hstate] at h
    rcases h with h | h
    · exact absurd h (ne_fresh hi hr).1
    · exact absurd h (ne_fresh hi hr).2
  handshake h := by
    rw [hhandshake] at h
    rw [hstate]
    exact hi.handshake h
  starting h := by
    rw [hstate] at h
    exact absurd h (ne_fresh hi hr).2
  ready h := by
    rw [hstate] at h
    exact hready h
  key k h := by
    rw [hkey] at h
    rw [hstate, hepoch, hinvalidating]
    exact hi.key k h
  issued := by
    rw [hepoch]
    exact hissued
  responding := by
    rw [hepoch]
    exact hrespond
  violated h := by
    rw [hstate]
    exact ⟨(ne_fresh hi hr).1, fun hs => absurd hs (ne_fresh hi hr).2, hviolated h⟩

/-- What is told about a turn stays true when its response is given up or its cancellation is requested,
and when the socket closes. -/
theorem TurnOk.mono {o' : Observed} (h : s.TurnOk r o t) (hlive : s'.Live r o' → s.Live r o)
    (ho : Observed.SameNumbers o o')
    (hlast : s'.session.last_turn = s.session.last_turn ∧ s'.session.last_generation = s.session.last_generation)
    (hcancel : s'.session.cancel_requested = false → s.session.cancel_requested = false) :
    s'.TurnOk r o' t := by
  have hsync : ∀ {o1 : Observed} {t : Turn}, Sync o1 t s.session → Sync o1 t s'.session := fun h =>
    ⟨h.turn_id, h.generation_id, h.last_turn.trans hlast.1.symm, h.last_generation.trans hlast.2.symm⟩
  have hstreamed : ∀ {t : Turn}, s.Streamed r o t → s'.Streamed r o' t := fun h =>
    ⟨h.1, fun hl hc hcr => h.2 (hlive hl) hc (hcancel hcr)⟩
  unfold TurnOk at h ⊢
  split at h
  · exact ⟨(hsync h.1).same ho rfl rfl, h.2⟩
  · exact ⟨(hsync h.1).same ho rfl rfl, h.2⟩
  · exact ⟨(hsync h.1).same ho rfl rfl, hstreamed h.2⟩
  · exact ⟨(hsync h.1).same ho rfl rfl, hstreamed h.2⟩
  · obtain ⟨⟨o1, h1, hn⟩, hst⟩ := h
    exact ⟨⟨o1, hsync h1, hn.same ho⟩, hstreamed hst⟩
  · exact h
  · exact h
  · obtain ⟨h1, h2, h3, h4, h5, h6, h7⟩ := h
    refine ⟨ho.turn_id.trans h1, ho.generation_id.trans h2, ho.last_turn.trans h3,
      ho.last_generation.trans h4, ?_, ?_, fun hl => h7 (hlive hl)⟩
    · rw [ho.last_turn, hlast.1, h5]
    · rw [ho.last_generation, hlast.2, h6]

/-- A step beside the response: it may be given up, its cancellation may be requested, and the socket may
close. -/
theorem Inv.beside (hi : Inv s) (hstate : s'.state = s.state) (hhandshake : s'.handshake = s.handshake)
    (hkey : ∀ k, s'.key = some k → s.key = some k ∧ s'.output_epoch = s.output_epoch ∧
      (s.invalidating = 0 → s'.invalidating = 0))
    (hepoch : s.output_epoch ≤ s'.output_epoch) (hcalls : s'.calls = s.calls)
    (hreplies : s'.replies = s.replies) (hrespond : s'.respond = s.respond)
    (hturn : s'.active_turn = s.active_turn) (hbusy : s'.busy = s.busy)
    (hviolated : s'.violated = s.violated)
    (hlast : s'.session.last_turn = s.session.last_turn ∧
      s'.session.last_generation = s.session.last_generation)
    (hcancel : s'.session.cancel_requested = false → s.session.cancel_requested = false)
    (hsocket : ∀ o, s.socket = some o → ∃ o', s'.socket = some o' ∧ Observed.SameNumbers o o' ∧
      o'.session_id = o.session_id ∧ (o'.closed = false → o.closed = false)) : Inv s' := by
  have hissued : s'.issued = s.issued := by
    unfold Conversation.issued
    rw [hcalls, hreplies]
  refine ⟨?_, ?_, ?_, ?_, ?_, ?_, ?_, ?_⟩
  · intro h
    rw [hstate] at h
    rw [hrespond, hturn, hbusy, hlast.1, hlast.2, hissued]
    exact hi.fresh h
  · rw [hhandshake, hstate]
    exact hi.handshake
  · intro h
    rw [hstate] at h
    obtain ⟨o, x, ho, hx, hok⟩ := hi.starting h
    obtain ⟨o', ho', hsame, hsession, -⟩ := hsocket o ho
    refine ⟨o', x, ho', hhandshake.trans hx, ?_⟩
    cases x with
    | waiting | heard =>
      obtain ⟨h1, h2, h3, h4, h5⟩ := hok
      exact ⟨by rwa [hsession], hsame.turn_id.trans h2, hsame.generation_id.trans h3,
        hsame.last_turn.trans h4, hsame.last_generation.trans h5⟩
    | refused => exact trivial
  · intro h
    rw [hstate] at h
    obtain ⟨o, ho, hserving⟩ := hi.ready h
    obtain ⟨o', ho', hsame, hsession, hclosed⟩ := hsocket o ho
    refine ⟨o', ho', ?_⟩
    have hbelow : Below s.replies o → Below s'.replies o' := by
      rw [hreplies]
      exact fun h => h.same hsame
    have hlive : ∀ {r : Respond}, s'.Live r o' → s.Live r o := fun h =>
      ⟨(hkey _ h.1).1, hclosed h.2⟩
    cases hserving with
    | idle h1 h2 h3 h4 h5 h6 =>
      refine .idle (by rwa [hsession]) (hbelow h2) (hrespond.trans h3) (hturn.trans h4) (hbusy.trans h5) ?_
      rw [hsame.last_turn, hsame.last_generation, hlast.1, hlast.2]
      exact h6
    | updating r h1 h2 h3 h4 h5 h6 h7 h8 =>
      refine .updating r (by rwa [hsession]) (hbelow h2) (hrespond.trans h3) h4 (hturn.trans h5)
        (hbusy.trans h6) ?_ h8
      exact ⟨hsame.turn_id.trans h7.turn_id, hsame.generation_id.trans h7.generation_id,
        hsame.last_turn.trans (h7.last_turn.trans hlast.1.symm),
        hsame.last_generation.trans (h7.last_generation.trans hlast.2.symm)⟩
    | turning r t h1 h2 h3 h4 h5 h6 h7 h8 =>
      refine .turning r t (by rwa [hsession]) (hbelow h2) (hrespond.trans h3) h4 (hturn.trans h5)
        (hbusy.trans h6) ?_ (h8.mono hlive hsame hlast hcancel)
      rw [hreplies]
      exact h7.same hsame
    | broken r t h1 h2 h3 h4 h5 =>
      exact .broken r t (hrespond.trans h1) h2 (hturn.trans h3) (hbusy.trans h4) h5
  · intro k h
    obtain ⟨h1, h2, h3⟩ := hkey k h
    obtain ⟨hs, he, hz⟩ := hi.key k h1
    exact ⟨hstate.trans hs, he.trans h2.symm, h3 hz⟩
  · rw [hissued]
    exact fun i h => (hi.issued i h).trans hepoch
  · rw [hrespond]
    exact fun r h => (hi.responding r h).trans hepoch
  · rw [hviolated, hstate, hhandshake, hturn]
    exact hi.violated

/-! ## The steps -/

/-- A conversation that is aborted, and what was issued in it. -/
theorem Inv.aborted (hi : Inv s) (hstate : s'.state = .unavailable) (hkey : s'.key = none)
    (hepoch : s.output_epoch ≤ s'.output_epoch) (hissued : s'.issued = s.issued)
    (hrespond : ∀ r, s'.respond = some r → r.key.output_epoch ≤ s.output_epoch) : Inv s' := by
  refine .of_unavailable hstate hkey (fun i h => ?_) fun r h => (hrespond r h).trans hepoch
  rw [hissued] at h
  exact (hi.issued i h).trans hepoch

/-- A conversation has no key when it is unavailable. -/
theorem key_of_unavailable (hi : Inv s) (h : s.state = .unavailable) : s.key = none := by
  by_contra hne
  obtain ⟨k, hk⟩ := ne_none_iff_exists'.1 hne
  have hs := (hi.key k hk).1
  rw [h] at hs
  cases hs

theorem inv_start (hi : Inv s) (call_id : String) (output_epoch : ℤ) (seed_rules socket_instance : String) :
    Inv (s.start call_id output_epoch seed_rules socket_instance) := by
  unfold start
  split_ifs with hguard
  · exact hi
  · rw [not_or, not_not] at hguard
    obtain ⟨hnew, -⟩ := hguard
    obtain ⟨h1, h2, h3, h4, h5, h6⟩ := hi.fresh (.inl hnew)
    refine ⟨fun _ => ⟨h1, h2, h3, h4, h5, h6⟩, fun _ => .inl rfl,
      fun _ => ⟨.init, .waiting, rfl, rfl, rfl, rfl, rfl, rfl, rfl⟩, nofun, fun k h => ?_, fun i h => ?_,
      fun r h => ?_, fun h => ?_⟩
    · have hs := (hi.key k h).1
      rw [hnew] at hs
      cases hs
    · have h : i ∈ s.issued := h
      rw [h6] at h
      cases h
    · rw [show s.respond = some r from h] at h1
      cases h1
    · exact absurd hnew (hi.violated h).1

/-- A change of `start` while it waits. -/
theorem Inv.hears (hi : Inv s) {x : Handshake} (hx : s.handshake ≠ none) {violated : Bool}
    (hv : violated → s.state = .starting → x = .refused) (hok : s.state = .starting → HandshakeOk o x) :
    Inv { s with socket := some o, handshake := some x, violated := violated } := by
  rcases hi.handshake hx with hs | hs
  · refine ⟨hi.fresh, fun _ => .inl hs, fun _ => ⟨o, x, rfl, rfl, hok hs⟩, fun h => ?_, hi.key,
      hi.issued, hi.responding, fun h => ⟨?_, fun _ => ?_, fun h => ?_⟩⟩
    · rw [show s.state = .ready from h] at hs
      cases hs
    · intro h
      rw [show s.state = .new from h] at hs
      cases hs
    · rw [hv h hs]
    · rw [show s.state = .ready from h] at hs
      cases hs
  · exact hi.aborted hs (show s.key = none from key_of_unavailable hi hs) le_rfl rfl hi.responding

theorem inv_startHears (hi : Inv s) (small : FloatText → Bool) (now : Option ℚ) (event : Json) :
    Inv (s.startHears small now event) := by
  unfold startHears
  split
  · rename_i o hsocket hhandshake
    have hsome : s.handshake ≠ none := by
      rw [hhandshake]
      exact some_ne_none _
    have hviolated : s.violated → s.state = .starting → False := by
      intro hv hs
      have h := (hi.violated hv).2.1 hs
      rw [hhandshake] at h
      cases h
    have hok : s.state = .starting → HandshakeOk o .waiting := by
      intro hs
      obtain ⟨o', x, ho, hx, hok⟩ := hi.starting hs
      rw [hsocket] at ho
      rw [hhandshake] at hx
      cases ho
      cases hx
      exact hok
    split
    · rename_i o' e hr
      refine hi.hears hsome (fun hv hs => absurd hs (hviolated hv)) fun hs => ?_
      obtain ⟨hnone, h1, h2, h3, h4⟩ := hok hs
      cases event with
      | dict =>
        obtain ⟨session_id, rfl, -⟩ := (Observed.receives_of_receive hr).of_none hnone
        exact ⟨some_ne_none _, h1, h2, h3, h4⟩
      | null | bool _ | int _ | float _ | nonfinite _ | str _ | list _ => cases hr
    · rename_i o' hr
      have hsame : { s with socket := some o', handshake := some .waiting, violated := s.violated } =
          { s with socket := some o' } := by rw [← hhandshake]
      rw [← hsame]
      refine hi.hears hsome (fun hv hs => absurd hs (hviolated hv)) fun hs => ?_
      obtain ⟨hnone, h1, h2, h3, h4⟩ := hok hs
      cases event with
      | dict =>
        obtain ⟨session_id, rfl, hx, -⟩ := (Observed.receives_of_receive hr).of_none hnone
        cases hx
      | null | bool _ | int _ | float _ | nonfinite _ | str _ | list _ => cases hr
    · exact hi.hears hsome (fun _ _ => rfl) fun _ => trivial
  · exact hi

theorem inv_startEnds (hi : Inv s) : Inv s.startEnds := by
  have hnone : ∀ {s' : Conversation}, s'.state = .unavailable → s'.key = none →
      s'.output_epoch = s.output_epoch → s'.issued = s.issued → s'.respond = s.respond → Inv s' := by
    intro s' h1 h2 h3 h4 h5
    refine hi.aborted h1 h2 h3.ge h4 ?_
    rw [h5]
    exact hi.responding
  unfold startEnds
  split
  · exact hi
  · exact hi
  · exact hnone rfl rfl rfl rfl rfl
  · rename_i event hhandshake
    split
    · exact hnone rfl rfl rfl rfl rfl
    · rename_i session_id hid
      split_ifs with hkind hs
      · exact hnone rfl rfl rfl rfl rfl
      · exact hnone rfl rfl rfl rfl rfl
      · -- the session is ready, and nothing has happened in it
        rw [not_not] at hs
        obtain ⟨h1, h2, h3, h4, h5, h6⟩ := hi.fresh (.inr hs)
        obtain ⟨o, x, ho, hx, hok⟩ := hi.starting hs
        rw [hhandshake] at hx
        cases hx
        obtain ⟨hsession, -, -, hturn, hgeneration⟩ := hok
        have hbelow : Below s.replies o := by
          intro y hy i hyi
          have hmem : i ∈ s.issued :=
            mem_append_right _ (mem_filterMap.2 ⟨y, hy, hyi⟩)
          rw [h6] at hmem
          cases hmem
        refine ⟨nofun, fun h => absurd rfl h, nofun, fun _ => ⟨o, ho, ?_⟩, fun k h => ?_, hi.issued,
          hi.responding, fun h => ?_⟩
        · exact .idle hsession hbelow h1 h2 h3 ⟨hturn.trans h4.symm, hgeneration.trans h5.symm⟩
        · have h := (hi.key k h).1
          rw [hs] at h
          cases h
        · have h := (hi.violated h).2.1 hs
          rw [hhandshake] at h
          cases h

theorem inv_startFails (hi : Inv s) : Inv s.startFails := by
  unfold startFails
  split_ifs
  · exact hi.aborted rfl rfl le_rfl rfl hi.responding
  · exact hi

/-- A reply without an identity changes nothing for the others. -/
theorem inv_refuse (hi : Inv s) (failure : Failure) : Inv (s.refuse failure) := by
  have hissued : (s.refuse failure).issued = s.issued := by
    unfold refuse issued
    rw [filterMap_append]
    exact congrArg _ (append_nil _)
  refine ⟨?_, hi.handshake, hi.starting, ?_, hi.key, ?_, hi.responding, hi.violated⟩
  · rw [hissued]
    exact hi.fresh
  · intro h
    obtain ⟨o, ho, hserving⟩ := hi.ready h
    refine ⟨o, ho, ?_⟩
    have hbelow : Below s.replies o → Below (s.refuse failure).replies o := fun h =>
      h.concat fun i hi => by cases hi
    cases hserving with
    | idle h1 h2 h3 h4 h5 h6 => exact .idle h1 (hbelow h2) h3 h4 h5 h6
    | updating r h1 h2 h3 h4 h5 h6 h7 h8 => exact .updating r h1 (hbelow h2) h3 h4 h5 h6 h7 h8
    | turning r t h1 h2 h3 h4 h5 h6 h7 h8 =>
      exact .turning r t h1 (hbelow h2) h3 h4 h5 h6 (h7.concat rfl)
        (h8.mono id ⟨rfl, rfl, rfl, rfl⟩ ⟨rfl, rfl⟩ fun h => h)
    | broken r t h1 h2 h3 h4 h5 => exact .broken r t h1 h2 h3 h4 h5
  · rw [hissued]
    exact hi.issued

theorem not_fresh (h : s.state = .ready) : ¬ (s.state = .new ∨ s.state = .starting) := by
  rw [h]
  rintro (h | h) <;> cases h

theorem inv_begin (hi : Inv s) (raw : String) (patch : Option String) (key : Key) (on_delta : Bool)
    (now : Option ℚ) : Inv (s.begin raw patch key on_delta now) := by
  unfold begin
  split_ifs with hs hbusy
  · exact inv_refuse hi _
  · exact inv_refuse hi _
  · rw [not_not] at hs
    rw [not_or, not_not] at hbusy
    split
    · exact inv_refuse hi _
    · split_ifs with hvalid
      · exact inv_refuse hi _
      · simp only [not_or, Bool.not_eq_true, Bool.not_eq_false'] at hvalid
        have hepoch : key.output_epoch = s.output_epoch := by
          have h := hvalid.2.2
          unfold acceptable at h
          simp only [Bool.and_eq_true, decide_eq_true_eq] at h
          exact h.1.1.2
        split
        · refine hi.aborted rfl rfl le_rfl rfl fun r h => ?_
          cases h
          exact hepoch.le
        · rename_i now
          obtain ⟨o, ho, hserving⟩ := hi.ready hs
          refine ⟨fun h => absurd h (not_fresh hs), hi.handshake,
            fun h => absurd (.inr h) (not_fresh hs), fun _ => ⟨o.beginResponse, ?_, ?_⟩, fun k h => ?_,
            hi.issued, fun r h => ?_, hi.violated⟩
          · rw [ho, map_some]
          · cases hserving with
            | idle h1 h2 h3 h4 h5 h6 =>
              exact .updating _ h1 h2 rfl (.inl rfl) h4 rfl ⟨rfl, rfl, h6.1, h6.2⟩ rfl
            | updating _ _ _ _ _ _ h => exact absurd h hbusy.1
            | turning _ _ _ _ _ _ _ h => exact absurd h hbusy.1
            | broken _ _ _ _ _ h => exact absurd h hbusy.1
          · cases h
            exact ⟨hs, hepoch, hbusy.2⟩
          · cases h
            exact hepoch.le

/-- The call of `respond` that has not begun its turn. -/
theorem Serving.of_respond (h : Serving s o) (hr : s.respond = some r) (hp : r.phase ≠ .turning) :
    o.session_id ≠ none ∧ Below s.replies o ∧
      (r.phase = .updating ∨ r.phase = .failing) ∧ s.active_turn = none ∧ s.busy ∧
      Sync o (Turn.init r.on_delta) s.session ∧ r.deltas = [] := by
  cases h with
  | idle _ _ h =>
    rw [h] at hr
    cases hr
  | updating r' h1 h2 h3 h4 h5 h6 h7 h8 =>
    cases h3.symm.trans hr
    exact ⟨h1, h2, h4, h5, h6, h7, h8⟩
  | turning r' t _ _ h3 h4 =>
    cases h3.symm.trans hr
    exact absurd h4 hp
  | broken r' t h1 h2 =>
    cases h1.symm.trans hr
    exact absurd h2 hp

/-- The session fails in `update_context`. -/
theorem Inv.update_failed (hi : Inv s) (hr : s.respond = some r) (hp : r.phase = .updating) :
    Inv { s.failed with respond := some { r with phase := .failing } } := by
  refine hi.serve hr rfl rfl rfl rfl rfl hi.issued (fun r' h => ?_) (fun hs => ?_)
    fun hv hs => (hi.violated hv).2.2 hs
  · cases h
    exact hi.responding r hr
  · obtain ⟨o, ho, hserving⟩ := hi.ready hs
    obtain ⟨h1, h2, -, h4, h5, h6, h7⟩ := hserving.of_respond hr (by rw [hp]; exact nofun)
    exact ⟨o, ho, .updating _ h1 h2 rfl (.inr rfl) h4 h5
      { h6 with } h7⟩

/-- What a response that ends adds to the issued identities. -/
theorem issued_finish (s : Conversation) (r : Respond) (reply : Option Reply) :
    (s.finish r reply).issued = s.issued ++ (reply.bind Reply.identity).toList := by
  unfold finish issued
  rw [filterMap_append, ← append_assoc]
  congr 1
  cases reply with
  | none => rfl
  | some reply =>
    rw [map_some, toList_some, filterMap_cons, filterMap_nil, bind_some]
    cases reply.identity <;> simp

/-- The identity of a response has its key. -/
theorem identity_eq {key : Key} {i : Identity} (h : s.identity key = some i) :
    i.key = key ∧ i.socket_instance = s.socket_instance ∧ i.server_session_id = s.server_session_id ∧
      ∃ o, s.socket = some o ∧ o.turn_id = some i.turn_id ∧ o.generation_id = some i.generation_id := by
  unfold identity at h
  split at h
  · rename_i turn generation ht hg
    cases h
    obtain ⟨o, ho, ht⟩ := bind_eq_some_iff.1 ht
    obtain ⟨o', ho', hg⟩ := bind_eq_some_iff.1 hg
    cases ho.symm.trans ho'
    exact ⟨rfl, rfl, rfl, o, ho, ht, hg⟩
  · cases h

/-- The end of a response whose identity is that of the last one, if it has any. -/
theorem Inv.finished (hi : Inv s) (hr : s.respond = some r) {reply : Option Reply}
    (hreply : ∀ x i, reply = some x → x.identity = some i → i.key = r.key)
    (hready : s.state = .ready → ∃ o, s.socket = some o ∧ o.session_id ≠ none ∧ Below s.replies o ∧ o.last_turn =
      s.session.last_turn ∧ o.last_generation = s.session.last_generation ∧ (∀ x i, reply = some x → x.identity =
      some i → i.turn_id ≤ o.last_turn ∧ i.generation_id ≤ o.last_generation) ∧ s.violated = false) :
    Inv (s.finish r reply) := by
  have hissued : ∀ i ∈ (s.finish r reply).issued, i.key.output_epoch ≤ s.output_epoch := by
    intro i h
    rw [issued_finish] at h
    rcases mem_append.1 h with h | h
    · exact hi.issued i h
    · rw [mem_toList, bind_eq_some_iff] at h
      obtain ⟨x, hx, hix⟩ := h
      rw [hreply x i hx hix]
      exact hi.responding r hr
  refine hi.serve hr rfl rfl rfl rfl rfl hissued (fun r' h => by cases h) (fun hs => ?_) fun hv hs => ?_
  · obtain ⟨o, ho, h1, h2, h3, h4, h5, -⟩ := hready hs
    refine ⟨o, ho, .idle h1 ?_ rfl rfl rfl ⟨h3, h4⟩⟩
    cases reply with
    | none =>
      show Below (s.replies ++ []) o
      rwa [append_nil]
    | some x => exact h2.concat fun i hi => h5 x i rfl hi
  · obtain ⟨o, -, -, -, -, -, -, hv'⟩ := hready hs
    rw [show s.violated = true from hv] at hv'
    cases hv'

/-- A broken protocol shows in the turn. -/
theorem not_violated (hi : Inv s) (hs : s.state = .ready)
    (h : ∀ t, s.active_turn = some t → ¬ (t.phase = .refused ∨ t.phase = .raised)) : s.violated = false := by
  by_contra hv
  obtain ⟨t, ht, hp⟩ := (hi.violated (Bool.eq_true_of_not_eq_false hv)).2.2 hs
  exact h t ht hp

theorem inv_updateEnds (hi : Inv s) : Inv s.updateEnds := by
  unfold updateEnds
  split
  · rename_i r hr
    split_ifs with hp hsession hcurrent
    · exact hi
    · exact hi.update_failed hr (not_not.1 hp)
    · rw [not_not] at hp
      refine hi.finished hr (fun x i hx hi => ?_) fun hs => ?_
      · cases hx
        exact (identity_eq hi).1
      · obtain ⟨o, ho, hserving⟩ := hi.ready hs
        obtain ⟨h1, h2, -, h4, h5, h6, h7⟩ := hserving.of_respond hr (by rw [hp]; exact nofun)
        refine ⟨o, ho, h1, h2, h6.last_turn, h6.last_generation, fun x i hx hi => ?_,
          not_violated hi hs fun t ht => ?_⟩
        · -- no response has begun
          cases hx
          obtain ⟨-, -, -, o', ho', ht, -⟩ := identity_eq hi
          cases ho.symm.trans ho'
          rw [h6.turn_id] at ht
          cases ht
        · rw [h4] at ht
          cases ht
    · rw [not_not] at hp
      refine hi.serve hr rfl rfl rfl rfl rfl hi.issued (fun r' h => ?_) (fun hs => ?_) fun hv hs => ?_
      · cases h
        exact hi.responding r hr
      · obtain ⟨o, ho, hserving⟩ := hi.ready hs
        obtain ⟨h1, h2, -, h4, h5, h6, h7⟩ := hserving.of_respond hr (by rw [hp]; exact nofun)
        exact ⟨o, ho, .turning _ _ h1 h2 rfl rfl rfl h5 (newer_of_none h6.turn_id h6.generation_id)
          ⟨h6, rfl, h7⟩⟩
      · obtain ⟨o, ho, hserving⟩ := hi.ready hs
        obtain ⟨-, -, -, h4, -⟩ := hserving.of_respond hr (by rw [hp]; exact nofun)
        obtain ⟨t, ht, -⟩ := (hi.violated hv).2.2 hs
        rw [h4] at ht
        cases ht
  · exact hi

theorem inv_updateFails (hi : Inv s) : Inv s.updateFails := by
  unfold updateFails
  split
  · rename_i r hr
    split_ifs with hp
    · exact hi
    · exact hi.update_failed hr (not_not.1 hp)
  · exact hi

/-- What is known of a turn that is to go on. -/
def TurnKnown (s : Conversation) (r : Respond) (o : Observed) (t : TurnTask) : Prop :=
  (t.phase = .refused ∨ t.phase = .raised) ∨
    o.session_id ≠ none ∧ Below s.replies o ∧ Newer s.replies o ∧ s.TurnOk r o t

/-- A step of the turn. It changes the socket, the session, and the call of `respond` that waits for it. -/
theorem Inv.turned (hi : Inv s) {t' : TurnTask} (ht : s.active_turn = some t) (ht' : s'.active_turn = some t')
    (hstate : s'.state = s.state) (hhandshake : s'.handshake = s.handshake) (hkey : s'.key = s.key)
    (hepoch : s'.output_epoch = s.output_epoch) (hinvalidating : s'.invalidating = s.invalidating)
    (hbusy : s'.busy = s.busy) (hissued : ∀ i ∈ s'.issued, i.key.output_epoch ≤ s.output_epoch)
    (hrespond : ∀ r', s'.respond = some r' → ∃ r, s.respond = some r ∧ r'.key = r.key)
    (hready : s.state = .ready → ∀ r o, s.respond = some r → r.phase = .turning → s.socket = some o →
      s.TurnKnown r o t → ∃ r' o', s'.respond = some r' ∧ r'.phase = .turning ∧ s'.socket = some o' ∧
      s'.TurnKnown r' o' t')
    (hviolated : s'.violated → s.state = .ready → t'.phase = .refused ∨ t'.phase = .raised) :
    Inv s' := by
  have hresp : ∀ r', s'.respond = some r' → r'.key.output_epoch ≤ s.output_epoch := by
    intro r' h
    obtain ⟨r, hr, hk⟩ := hrespond r' h
    rw [hk]
    exact hi.responding r hr
  have hne : ¬ (s.state = .new ∨ s.state = .starting) := by
    intro h
    rw [(hi.fresh h).2.1] at ht
    cases ht
  have hne' : ¬ (s'.state = .new ∨ s'.state = .starting) := by
    rw [hstate]
    exact hne
  refine ⟨fun h => absurd h hne', ?_, fun h => absurd (.inr h) hne', fun h => ?_, ?_, ?_, ?_, fun h => ?_⟩
  · rw [hhandshake, hstate]
    exact hi.handshake
  · rw [hstate] at h
    obtain ⟨o, ho, hserving⟩ := hi.ready h
    obtain ⟨r, hr, hp, hb, hok⟩ := hserving.of_turn ht
    have hknown : s.TurnKnown r o t := by
      rcases hok with hok | hok | hok
      · exact .inl (.inl hok)
      · exact .inl (.inr hok)
      · exact .inr hok
    obtain ⟨r', o', hr', hp', ho', hok'⟩ := hready h r o hr hp ho hknown
    refine ⟨o', ho', ?_⟩
    rcases hok' with hok' | ⟨h1, h2, h3, h4⟩
    · exact .broken r' t' hr' hp' ht' (hbusy.trans hb) hok'
    · exact .turning r' t' h1 h2 hr' hp' ht' (hbusy.trans hb) h3 h4
  · intro k h
    rw [hkey] at h
    rw [hstate, hepoch, hinvalidating]
    exact hi.key k h
  · rw [hepoch]
    exact hissued
  · rw [hepoch]
    exact hresp
  · refine ⟨fun h => hne' (.inl h), fun h => absurd (.inr h) hne', fun hs => ?_⟩
    rw [hstate] at hs
    exact ⟨t', ht', hviolated h hs⟩

/-- A turn that is to raise. -/
theorem Inv.turn_raised (hi : Inv s) (ht : s.active_turn = some t) {phase : TurnPhase}
    (hphase : phase = .refused ∨ phase = .raised) {session : Session} {socket : Option Observed}
    (hsocket : s.socket.isSome → socket.isSome) {closing violated : Bool} :
    Inv { s with session := session, socket := socket, closing := closing, violated := violated,
                 active_turn := some { t with phase := phase } } := by
  refine hi.turned ht rfl rfl rfl rfl rfl rfl rfl hi.issued (fun r h => ⟨r, h, rfl⟩)
    (fun _ r o hr hp ho _ => ?_) fun _ _ => hphase
  obtain ⟨o', ho'⟩ := isSome_iff_exists.1 (hsocket (by rw [ho]; rfl))
  exact ⟨r, o', hr, hp, ho', .inl hphase⟩

/-- An event that comes after the turn has been given up. -/
theorem Inv.stray (hi : Inv s) (ht : s.active_turn = some t) (hp : t.phase = .raised) {violated : Bool} :
    Inv { s with socket := some o, violated := violated } := by
  refine hi.turned ht (show s.active_turn = some t from ht) rfl rfl rfl rfl rfl rfl hi.issued
    (fun r h => ⟨r, h, rfl⟩) (fun _ r _ hr hturning _ _ => ⟨r, o, hr, hturning, rfl, ?_⟩) fun _ _ => .inr hp
  exact .inl (.inr hp)

/-- While a turn has not failed, the protocol has not been broken. -/
theorem turn_kept (hi : Inv s) (ht : s.active_turn = some t) (hp : t.phase ≠ .refused ∧ t.phase ≠ .raised)
    (hv : s.violated) (hs : s.state = .ready) : False := by
  obtain ⟨t', ht', hfailed⟩ := (hi.violated hv).2.2 hs
  cases ht.symm.trans ht'
  exact hfailed.elim hp.1 hp.2

theorem inv_turnStarts (hi : Inv s) : Inv s.turnStarts := by
  unfold turnStarts
  split
  · rename_i r t hr ht
    split
    · rename_i hp
      split_ifs
      · exact hi.turn_raised ht (.inr rfl) fun h => h
      · refine hi.turned ht rfl rfl rfl rfl rfl rfl rfl hi.issued (fun r h => ⟨r, h, rfl⟩)
          (fun _ r o hr hturning ho hknown => ?_) fun hv hs => ?_
        · refine ⟨r, o, hr, hturning, ho, .inr ?_⟩
          unfold TurnKnown TurnOk at hknown
          rw [hp] at hknown
          obtain ⟨h1, h2, h3, h4, h5, h6⟩ := hknown.resolve_left (by rintro (h | h) <;> cases h)
          exact ⟨h1, h2, h3, { h4 with }, h5, h6⟩
        · exact (turn_kept hi ht (by rw [hp]; exact ⟨nofun, nofun⟩) hv hs).elim
    · exact hi
  · exact hi

theorem inv_turnSends (hi : Inv s) : Inv s.turnSends := by
  unfold turnSends
  split
  · rename_i t o ht ho
    split
    · rename_i hp
      split_ifs
      · exact hi.turn_raised ht (.inr rfl) fun h => h
      · refine hi.turned ht rfl rfl rfl rfl rfl rfl rfl hi.issued (fun r h => ⟨r, h, rfl⟩)
          (fun _ r o' hr hturning ho' hknown => ?_) fun hv hs => ?_
        · cases ho.symm.trans ho'
          refine ⟨r, o.beginResponse, hr, hturning, rfl, .inr ?_⟩
          unfold TurnKnown TurnOk at hknown
          rw [hp] at hknown
          obtain ⟨h1, h2, -, h4, h5, h6⟩ := hknown.resolve_left (by rintro (h | h) <;> cases h)
          refine ⟨h1, h2, newer_of_none rfl rfl, ⟨?_, ?_, h4.last_turn, h4.last_generation⟩, ?_, ?_⟩
          · rw [h5]
            rfl
          · rw [h5]
            rfl
          · rw [h5]
            rfl
          · intro _ _ _ _
            rw [h5, h6]
            rfl
        · exact (turn_kept hi ht (by rw [hp]; exact ⟨nofun, nofun⟩) hv hs).elim
    · exact hi
  · exact hi

theorem inv_turnHears (hi : Inv s) (small : FloatText → Bool) (now : Option ℚ) (event : Json) :
    Inv (s.turnHears small now event) := by
  unfold turnHears
  split
  · rename_i t o ht ho
    split
    · rename_i hp
      have hviolated := turn_kept hi ht (by rw [hp]; exact ⟨nofun, nofun⟩)
      split
      · -- the event is kept for the turn
        rename_i o' e hr
        cases event with
        | null | bool _ | int _ | float _ | nonfinite _ | str _ | list _ => cases hr
        | dict =>
          have hrec := Observed.receives_of_receive hr
          obtain ⟨hclosed, hsession⟩ := hrec.session
          refine hi.turned ht rfl rfl rfl rfl rfl rfl rfl hi.issued (fun r h => ⟨r, h, rfl⟩)
            (fun _ r o1 hr' hturning ho' hknown => ?_) fun hv hs => absurd hs (hviolated hv)
          cases ho.symm.trans ho'
          refine ⟨r, o', hr', hturning, rfl, .inr ?_⟩
          unfold TurnKnown TurnOk at hknown
          rw [hp] at hknown
          obtain ⟨h1, h2, h3, h4, h5⟩ := hknown.resolve_left (by rintro (h | h) <;> cases h)
          have hn := hrec.numbers h1
          obtain ⟨hbelow, hnewer⟩ := h2.numbers h3 hn
          obtain rfl := hrec.event
          refine ⟨hsession h1, hbelow, hnewer, ⟨⟨o, h4, hn⟩, h5.1, fun hl => h5.2 ⟨hl.1, ?_⟩⟩⟩
          rw [← hclosed]
          exact hl.2
      · -- an empty delta is passed over
        rename_i o' hr
        cases event with
        | null | bool _ | int _ | float _ | nonfinite _ | str _ | list _ => cases hr
        | dict =>
          have hrec := Observed.receives_of_receive hr
          obtain ⟨hclosed, hsession⟩ := hrec.session
          refine hi.turned ht (show s.active_turn = some t from ht) rfl rfl rfl rfl rfl rfl hi.issued
            (fun r h => ⟨r, h, rfl⟩) (fun _ r o1 hr' hturning ho' hknown => ?_)
            fun hv hs => absurd hs (hviolated hv)
          cases ho.symm.trans ho'
          refine ⟨r, o', hr', hturning, rfl, .inr ?_⟩
          unfold TurnKnown TurnOk at hknown
          rw [hp] at hknown
          obtain ⟨h1, h2, h3, h4, h5⟩ := hknown.resolve_left (by rintro (h | h) <;> cases h)
          have hsame := hrec.of_skipped
          unfold TurnOk
          rw [hp]
          refine ⟨hsession h1, h2.same hsame, h3.same hsame, h4.same hsame rfl rfl, h5.1,
            fun hl => h5.2 ⟨hl.1, ?_⟩⟩
          rw [← hclosed]
          exact hl.2
      · exact hi.turn_raised ht (.inl rfl) fun _ => rfl
    · -- the turn has been given up
      rename_i hp
      split
      · exact hi.stray ht hp
      · exact hi.stray ht hp
    · exact hi
  · exact hi

variable {event : Members}

/-- The deltas after one more event. -/
theorem Streamed.takes {t t' : Turn} {delta : Option String} (h : s.Streamed r o t)
    (ht : Turn.Takes s.session t event (.next t' delta)) :
    t'.on_delta = r.on_delta ∧ (s.Live r o → t'.cancelled = false → s.session.cancel_requested = false →
      r.on_delta → String.join r.deltas ++ delta.getD "" = t'.streamed) := by
  obtain ⟨hon, htext⟩ := h
  -- an event without a delta leaves the text as it is
  have hsame : s.Live r o → t.cancelled = false → s.session.cancel_requested = false → r.on_delta →
      String.join r.deltas ++ "" = t.streamed := by
    rw [String.append_empty]
    exact htext
  cases ht with
  | stale => exact ⟨hon, hsame⟩
  | committed => exact ⟨hon, hsame⟩
  | created => exact ⟨hon, hsame⟩
  | silent => exact ⟨hon, hsame⟩
  | textDone => exact ⟨hon, hsame⟩
  | cancelled => exact ⟨hon, fun _ hc => by cases hc⟩
  | textDelta =>
    refine ⟨hon, fun hl hc hr hd => ?_⟩
    have hc : t.cancelled = false := hc
    rw [hc, hr, htext hl hc hr hd]
    rfl

/-- The text that the deltas of a reply make up. -/
theorem Streamed.returns {t : Turn} {result : Result} (h : s.Streamed r o t)
    (ht : Turn.Takes s.session t event (.returned result)) (hl : s.Live r o) (hc : result.cancelled = false)
    (hd : r.on_delta) : strip (String.join r.deltas) = strip result.text := by
  obtain ⟨hon, htext⟩ := h
  cases ht with
  | dropped => cases hc
  | reply turn generation done _ _ _ hcancelled hstrip =>
    rw [htext hl hcancelled.1 hcancelled.2 hd]
    exact hstrip (hon.trans hd)

/-- While the response is not given up, its deltas are delivered. -/
theorem stream_current (hi : Inv s) (hs : s.state = .ready) (ho : s.socket = some o) (hl : s.Live r o)
    {turn generation : ℤ} (hturn : o.turn_id = some turn) (hgeneration : o.generation_id = some generation) :
    ∃ i, s.identity r.key = some i ∧ s.isStreamCurrent i := by
  obtain ⟨-, hepoch, hinvalidating⟩ := hi.key r.key hl.1
  refine ⟨⟨r.key, s.socket_instance, s.server_session_id, turn, generation⟩, ?_, ?_⟩
  · unfold identity
    rw [ho, bind_some, bind_some, hturn, hgeneration]
  · unfold isStreamCurrent currentFor
    rw [hs, hl.1, hinvalidating, hepoch, ho, any_some, hl.2, hturn, hgeneration]
    simp

/-- A turn whose event has come from the socket. -/
theorem TurnKnown.heard (h : s.TurnKnown r o t) (hp : t.phase = .heard event) :
    o.session_id ≠ none ∧ Below s.replies o ∧
      Newer s.replies o ∧ (∃ o1, Sync o1 t.locals s.session ∧ Observed.Numbers o1 event o) ∧
      s.Streamed r o t.locals := by
  unfold TurnKnown TurnOk at h
  rw [hp] at h
  exact h.resolve_left (by rintro (h | h) <;> cases h)

/-- The turn waits for its next event. -/
theorem Inv.turn_next (hi : Inv s) (hr : s.respond = some r) (ht : s.active_turn = some t)
    (hp : t.phase = .heard event) {locals : Turn} {delta : Option String}
    (htake : t.locals.take s.session event = some (.next locals delta))
    (hdelta : s.state = .ready → ∀ o, s.socket = some o → Sync o locals s.session → s.Live r o → delta = none) :
    Inv (s.goto { t with locals := locals } .receiving) := by
  refine hi.turned ht rfl rfl rfl rfl rfl rfl rfl hi.issued (fun r h => ⟨r, h, rfl⟩)
    (fun hs r' o hr' hturning ho hknown => ?_) fun hv hs => ?_
  · cases hr.symm.trans hr'
    obtain ⟨h1, h2, h3, ⟨o1, hsync, hn⟩, hst⟩ := hknown.heard hp
    have htakes := Turn.takes_of_take htake
    have hsync' := hsync.takes_next hn htakes
    obtain ⟨hon, htext⟩ := hst.takes htakes
    refine ⟨r, o, hr, hturning, ho, .inr ⟨h1, h2, h3, hsync', hon, fun hl hc hcr hd => ?_⟩⟩
    have h := htext hl hc hcr hd
    rw [hdelta hs o ho hsync' hl, getD_none, String.append_empty] at h
    exact h
  · exact (turn_kept hi ht (by rw [hp]; exact ⟨nofun, nofun⟩) hv hs).elim

/-- The turn has a delta for its caller. -/
theorem Inv.turn_stream (hi : Inv s) (hr : s.respond = some r) (ht : s.active_turn = some t)
    (hp : t.phase = .heard event) {locals : Turn} {delta : String}
    (htake : t.locals.take s.session event = some (.next locals (some delta))) :
    Inv (s.stream r { t with locals := locals } delta) := by
  have htakes := Turn.takes_of_take htake
  -- where the delta is not delivered, the response was given up
  have hdropped : (∀ i, s.identity r.key = some i → ¬ s.isStreamCurrent i) →
      Inv (s.goto { t with locals := locals } .receiving) := by
    intro hnot
    refine hi.turn_next hr ht hp htake fun hs o ho hsync hl => ?_
    obtain ⟨turn, generation, hturn, hgeneration⟩ := htakes.of_delta
    obtain ⟨i, hid, hcur⟩ := stream_current hi hs ho hl (hsync.turn_id.trans hturn)
      (hsync.generation_id.trans hgeneration)
    exact absurd hcur (hnot i hid)
  unfold stream
  split
  · rename_i i hid
    split_ifs with hcur
    · refine hi.turned ht rfl rfl rfl rfl rfl rfl rfl (fun j h => ?_) (fun r' h => ?_)
        (fun hs r' o hr' hturning ho hknown => ?_) fun hv hs => ?_
      · have h : j ∈ (s.calls ++ [(delta, i)]).map Prod.snd ++
            s.replies.filterMap fun x => x.reply.identity := h
        rw [map_append, append_assoc] at h
        rcases mem_append.1 h with h | h
        · exact hi.issued j (mem_append_left _ h)
        · rcases mem_append.1 h with h | h
          · rw [map_singleton, mem_singleton] at h
            rw [h, (identity_eq hid).1]
            exact hi.responding r hr
          · exact hi.issued j (mem_append_right _ h)
      · cases h
        exact ⟨r, hr, rfl⟩
      · cases hr.symm.trans hr'
        obtain ⟨h1, h2, h3, ⟨o1, hsync, hn⟩, hst⟩ := hknown.heard hp
        obtain ⟨hon, htext⟩ := hst.takes htakes
        refine ⟨{ r with deltas := r.deltas ++ [delta] }, o, rfl, hturning, ho,
          .inr ⟨h1, h2, h3, hsync.takes_next hn htakes, hon, fun hl hc hcr hd => ?_⟩⟩
        rw [← htext hl hc hcr hd]
        simp
      · exact (turn_kept hi ht (by rw [hp]; exact ⟨nofun, nofun⟩) hv hs).elim
    · exact hdropped fun j hj => by rwa [← Option.some.inj (hid.symm.trans hj)]
  · rename_i hid
    refine hdropped fun j hj => ?_
    rw [hid] at hj
    cases hj

theorem inv_turnTakes (hi : Inv s) : Inv s.turnTakes := by
  unfold turnTakes
  split
  · rename_i r t hr ht
    split
    · exact hi.turn_raised ht (.inr rfl) fun h => h
    · rename_i event hp
      have hviolated := turn_kept hi ht (by rw [hp]; exact ⟨nofun, nofun⟩)
      split
      · exact hi.turn_raised ht (.inr rfl) fun h => h
      · rename_i locals htake
        exact hi.turn_next hr ht hp htake fun _ _ _ _ _ => rfl
      · rename_i locals delta htake
        exact hi.turn_stream hr ht hp htake
      · rename_i result htake
        have htakes := Turn.takes_of_take htake
        refine hi.turned ht rfl rfl rfl rfl rfl rfl rfl hi.issued (fun r h => ⟨r, h, rfl⟩)
          (fun hs r' o hr' hturning ho hknown => ?_) fun hv hs => absurd hs (hviolated hv)
        cases hr.symm.trans hr'
        obtain ⟨h1, h2, h3, ⟨o1, hsync, hn⟩, hst⟩ := hknown.heard hp
        refine ⟨r, o, hr, hturning, ho, .inr ⟨h1, h2, h3, ?_⟩⟩
        rcases hsync.takes hn htakes with ⟨t', d, h, -⟩ | ⟨_, h, h4, h5, h6, h7⟩
        · cases h
        · cases h
          exact ⟨h4, h5, h6, h7, h6, h7, fun hl => hst.returns htakes hl⟩
    · exact hi
  · exact hi

theorem inv_turnDelivers (hi : Inv s) : Inv s.turnDelivers := by
  unfold turnDelivers
  split
  · rename_i t ht
    split
    · rename_i hp
      refine hi.turned ht rfl rfl rfl rfl rfl rfl rfl hi.issued (fun r h => ⟨r, h, rfl⟩)
        (fun _ r o hr hturning ho hknown => ?_) fun hv hs => ?_
      · unfold TurnKnown TurnOk at hknown
        rw [hp] at hknown
        exact ⟨r, o, hr, hturning, ho, .inr (hknown.resolve_left (by rintro (h | h) <;> cases h))⟩
      · exact (turn_kept hi ht (by rw [hp]; exact ⟨nofun, nofun⟩) hv hs).elim
    · exact hi
  · exact hi

theorem inv_turnFails (hi : Inv s) : Inv s.turnFails := by
  unfold turnFails
  split
  · rename_i t ht
    split
    · exact hi
    · exact hi
    · exact hi.turn_raised ht (.inr rfl) fun h => h
    · exact hi.turn_raised ht (.inr rfl) fun h => h
  · exact hi

/-- `respond` awaits `_abort`. -/
theorem inv_abortRespond (hi : Inv s) (hr : s.respond = some r) (why : Aborting) :
    Inv (s.abortRespond r why) := by
  refine hi.aborted rfl rfl le_rfl rfl fun r' h => ?_
  cases h
  exact hi.responding r hr

/-- The response whose turn has returned. -/
theorem Serving.of_returned (h : Serving s o) (hr : s.respond = some r) (ht : s.active_turn = some t)
    {result : Result} (hp : t.phase = .returned result) :
    o.session_id ≠ none ∧ Below s.replies o ∧ Newer s.replies o ∧ s.TurnOk r o t := by
  obtain ⟨r', hr', -, -, h | h | h⟩ := h.of_turn ht
  · rw [hp] at h
    cases h
  · rw [hp] at h
    cases h
  · cases hr.symm.trans hr'
    exact h

/-- The end of a response whose turn has returned. -/
theorem Inv.turn_finished (hi : Inv s) (hr : s.respond = some r) (ht : s.active_turn = some t) {result : Result}
    (hp : t.phase = .returned result) {reply : Reply} (hreply : reply.identity = s.identity r.key) :
    Inv (s.finish r (some reply)) := by
  refine hi.finished hr (fun x i hx hid => ?_) fun hs => ?_
  · cases hx
    rw [hreply] at hid
    exact (identity_eq hid).1
  · obtain ⟨o, ho, hserving⟩ := hi.ready hs
    obtain ⟨h1, h2, -, hok⟩ := hserving.of_returned hr ht hp
    unfold TurnOk at hok
    rw [hp] at hok
    obtain ⟨hturn, hgeneration, h3, h4, h5, h6, -⟩ := hok
    refine ⟨o, ho, h1, h2, h5, h6, fun x i hx hid => ?_, not_violated hi hs fun t' ht' h => ?_⟩
    · cases hx
      rw [hreply] at hid
      obtain ⟨-, -, -, o', ho', hturn', hgeneration'⟩ := identity_eq hid
      cases ho.symm.trans ho'
      rw [h3, h4, Option.some.inj (hturn'.symm.trans hturn),
        Option.some.inj (hgeneration'.symm.trans hgeneration)]
      exact ⟨le_rfl, le_rfl⟩
    · cases ht.symm.trans ht'
      rw [hp] at h
      rcases h with h | h <;> cases h

theorem inv_respondEnds (hi : Inv s) : Inv s.respondEnds := by
  unfold respondEnds
  split
  · rename_i r t hr ht
    by_cases hturning : r.phase ≠ .turning
    · rw [if_pos hturning]
      exact hi
    · rw [if_neg hturning]
      split
      · exact inv_abortRespond hi hr _
      · rename_i result hp
        dsimp only
        split_ifs
        · exact hi.turn_finished hr ht hp rfl
        · exact inv_abortRespond hi hr _
        · exact hi.turn_finished hr ht hp rfl
      · exact hi
  · exact hi

theorem inv_respondFails (hi : Inv s) : Inv s.respondFails := by
  unfold respondFails
  split
  · rename_i r hr
    split_ifs
    · exact inv_abortRespond hi hr _
    · exact hi
  · exact hi

theorem inv_respondCancelled (hi : Inv s) : Inv s.respondCancelled := by
  unfold respondCancelled
  split
  · rename_i r hr
    split
    · exact hi
    · exact inv_abortRespond hi hr _
  · exact hi

/-- A conversation whose `respond` is in `_abort` is unavailable. -/
theorem not_ready_of_aborting (hi : Inv s) (hr : s.respond = some r) {why : Aborting} (hp : r.phase = .aborting why) :
    s.state ≠ .ready := by
  intro hs
  obtain ⟨o, -, hserving⟩ := hi.ready hs
  cases hserving with
  | idle _ _ h =>
    rw [h] at hr
    cases hr
  | updating r' _ _ h hphase =>
    cases h.symm.trans hr
    rw [hp] at hphase
    rcases hphase with h | h <;> cases h
  | turning r' _ _ _ h hphase =>
    cases h.symm.trans hr
    rw [hp] at hphase
    cases hphase
  | broken r' _ h hphase =>
    cases h.symm.trans hr
    rw [hp] at hphase
    cases hphase

theorem inv_respondReturns (hi : Inv s) : Inv s.respondReturns := by
  unfold respondReturns
  split
  · rename_i r hr
    split
    · rename_i hp
      refine hi.finished hr (fun x i hx hid => ?_) fun hs => absurd hs (not_ready_of_aborting hi hr hp)
      cases hx
      exact (identity_eq hid).1
    · rename_i hp
      refine hi.finished hr (fun x i hx hid => ?_) fun hs => absurd hs (not_ready_of_aborting hi hr hp)
      cases hx
      exact (identity_eq hid).1
    · rename_i hp
      exact hi.finished hr (fun x i hx => by cases hx) fun hs =>
        absurd hs (not_ready_of_aborting hi hr hp)
    · exact hi
  · exact hi

theorem inv_invalidate (hi : Inv s) (new_epoch : ℤ) (reason : String) :
    Inv (s.invalidate new_epoch reason) := by
  unfold invalidate
  split_ifs with h
  · have hlt : s.output_epoch < new_epoch := by
      unfold invalidates at h
      simp only [Bool.and_eq_true, decide_eq_true_eq] at h
      exact h.1.2
    exact hi.beside rfl rfl (fun k h => by cases h) hlt.le rfl rfl rfl rfl rfl rfl ⟨rfl, rfl⟩ id
      fun o ho => ⟨o, ho, ⟨rfl, rfl, rfl, rfl⟩, rfl, fun h => h⟩
  · exact hi

/-- A step of the drains that changes no more than their count. -/
theorem Inv.drained (hi : Inv s) {drains : List Drain} {invalidating : ℕ}
    (h : s.invalidating = 0 → invalidating = 0) :
    Inv { s with drains := drains, invalidating := invalidating } :=
  hi.beside rfl rfl (fun _ hk => ⟨hk, rfl, h⟩) le_rfl rfl rfl rfl rfl rfl rfl ⟨rfl, rfl⟩ id
    fun o ho => ⟨o, ho, ⟨rfl, rfl, rfl, rfl⟩, rfl, fun h => h⟩

theorem Inv.drain_aborts (hi : Inv s) {d d' : Drain} : Inv (s.abort.drainGoto d d') :=
  hi.aborted rfl rfl le_rfl rfl hi.responding

theorem inv_drain (hi : Inv s) (d : Drain) (fails : Bool) : Inv (s.drain d fails) := by
  have hgoto : ∀ d', Inv (s.drainGoto d d') := fun _ => hi.drained fun h => h
  have hends : Inv (s.drainEnds d) := hi.drained fun h => by rw [h]
  unfold drain
  by_cases hd : d ∉ s.drains
  · rw [if_pos hd]
    exact hi
  · rw [if_neg hd]
    cases d with
    | created =>
      dsimp only
      split_ifs
      · exact hgoto _
      · exact hgoto _
      · exact hends
    | cancelling =>
      cases fails with
      | false =>
        dsimp only
        split_ifs
        · exact hi.drain_aborts
        · exact hi.beside rfl rfl (fun _ hk => ⟨hk, rfl, fun h => h⟩) le_rfl rfl rfl rfl rfl rfl rfl
            ⟨rfl, rfl⟩ nofun fun o ho => ⟨o, ho, ⟨rfl, rfl, rfl, rfl⟩, rfl, fun h => h⟩
        · exact hgoto _
      | true => exact hi.drain_aborts
    | sent =>
      cases fails with
      | false => exact hgoto _
      | true =>
        exact hi.beside rfl rfl (fun _ hk => ⟨hk, rfl, fun h => h⟩) le_rfl rfl rfl rfl rfl rfl rfl
          ⟨rfl, rfl⟩ id fun o ho => ⟨o, ho, ⟨rfl, rfl, rfl, rfl⟩, rfl, fun h => h⟩
    | failing => exact hi.drain_aborts
    | waiting =>
      cases fails with
      | false =>
        dsimp only
        split_ifs
        · exact hi
        · exact hi.drain_aborts
        · exact hends
      | true => exact hi.drain_aborts
    | aborting => exact hends

theorem inv_close (hi : Inv s) : Inv s.close := by
  unfold close
  split_ifs
  · exact hi
  · exact hi.aborted rfl rfl (Int.le_add_one le_rfl) rfl hi.responding

theorem inv_step (hi : Inv s) (small : FloatText → Bool) (a : Act) : Inv (s.step small a) := by
  cases a with
  | start => exact inv_start hi _ _ _ _
  | startHears now event => exact inv_startHears hi small now event
  | startEnds => exact inv_startEnds hi
  | startFails => exact inv_startFails hi
  | respond raw patch key on_delta now => exact inv_begin hi raw patch key on_delta now
  | updateEnds => exact inv_updateEnds hi
  | updateFails => exact inv_updateFails hi
  | turnStarts => exact inv_turnStarts hi
  | turnSends => exact inv_turnSends hi
  | turnHears now event => exact inv_turnHears hi small now event
  | turnTakes => exact inv_turnTakes hi
  | turnDelivers => exact inv_turnDelivers hi
  | turnFails => exact inv_turnFails hi
  | respondEnds => exact inv_respondEnds hi
  | respondFails => exact inv_respondFails hi
  | respondCancelled => exact inv_respondCancelled hi
  | respondReturns => exact inv_respondReturns hi
  | invalidate new_epoch reason => exact inv_invalidate hi new_epoch reason
  | drain d fails => exact inv_drain hi d fails
  | close => exact inv_close hi
  | sessionCloses =>
    show Inv (if s.state = .unavailable then s.failed else s)
    split_ifs with hs
    · exact hi.aborted hs (show s.key = none from key_of_unavailable hi hs) le_rfl rfl hi.responding
    · exact hi
  | socketCloses =>
    show Inv (if s.closing then _ else s)
    split_ifs
    · refine hi.beside rfl rfl (fun _ hk => ⟨hk, rfl, fun h => h⟩) le_rfl rfl rfl rfl rfl rfl rfl
        ⟨rfl, rfl⟩ id fun o ho => ⟨{ o with closed := true }, ?_, ⟨rfl, rfl, rfl, rfl⟩, rfl, nofun⟩
      rw [ho, map_some]
    · exact hi

/-- The invariant holds in every run. -/
theorem inv_run (small : FloatText → Bool) (as : List Act) : Inv (run (step small) init as) :=
  run_invariant (P := Inv) (fun _ a h => inv_step h small a) as inv_init

end Conversation

end StrixAlloy.Omni

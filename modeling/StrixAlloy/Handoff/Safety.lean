import StrixAlloy.Handoff.System
import StrixAlloy.Lib.Runs

/-!
# The handoff is all or nothing

The invariant of every run of parent, guardian and clients (`Inv`): the pipe between the parent and its
slot carries a commit only if the parent has sent it, and an acknowledgement only once `handoff.json` was
replaced; the guardian's original channel is the parent's. Every step keeps it (`step_inv`).
-/

namespace StrixAlloy.Handoff

open List

open Channel hiding init

variable {x : Setting} {s : State}

/-- What the parent says: a commit only after it has noted that it sends one. -/
def ParentSays (p : Parent) (m : Message) : Prop := m.command = some "commit" → p.committed

/-- What the guardian says: that it has committed only after the file was replaced. -/
def GuardianSays (written : Bool) (m : Message) : Prop := m.state = some "committed" → written

/-- A server's end that no client has used. -/
def waiting (challenge : String) : Channel :=
  { Channel.init challenge with mode := .connect, operation := some .connect }

/-- The slot `k`. -/
structure SlotOk (x : Setting) (p : Parent) (written : Bool) (k : ℕ) (c : Slot) : Prop where
  fresh : c.client = .nobody → (∃ challenge, c.server = waiting challenge) ∧ c.up = [] ∧ c.down = []
  parent : c.client = .parent → p.slot = k ∧ p.stage ≠ .idle ∧
    Pipe x.codec (ParentSays p) (GuardianSays written) p.channel c.server c.up c.down
  other : ∀ q, c.client = .other q → x.isParent q = false
  peer : ∀ q, c.peer = some q → State.clientIdentity x c.client = some q

/-- An event that is no disconnect belongs to a slot whose request was read and not answered. -/
structure EventOk (s : State) (e : Event) : Prop where
  slot : ∃ c, s.slots[e.slot]? = some c ∧ c.server.operation = none ∧ c.server.mode = .received ∧
    c.peer = e.peer ∧ (e.command = .commit → c.client = .parent → s.parent.committed)

/-- The requests that wait to be handled. -/
def requests (s : State) : List Event := s.events.filter (·.command ≠ .disconnect)

/-- The parent's own state. -/
structure ParentOk (p : Parent) (written : Bool) : Prop where
  late : p.committed → p.stage = .committing ∨ p.stage = .acknowledging ∨ p.stage = .ended
  ended : p.outcome ≠ none → p.stage = .ended
  raised : p.outcome = some .raised → p.committed = false
  acknowledged : p.outcome = some .committed → written

/-- The guardian's own state. -/
structure GuardianOk (s : State) : Prop where
  readied : s.status = .ready → s.readied
  committed : s.commits ≠ [] → s.committed ∨ s.crashed
  once : s.commits.length ≤ 1
  commits : ∀ k ∈ s.commits, s.parent_event = some k ∧ s.written ∧ s.parent.committed ∧ s.readied

/-- The invariant of every run. -/
structure Inv (x : Setting) (s : State) : Prop where
  slots : ∀ k c, s.slots[k]? = some c → SlotOk x s.parent s.written k c
  events : ∀ e ∈ requests s, EventOk s e
  distinct : ((requests s).map (·.slot)).Nodup
  original : ∀ k, s.parent_event = some k → ∃ c, s.slots[k]? = some c ∧ c.client = .parent
  parent : ParentOk s.parent s.written
  guardian : GuardianOk s

/-- No request of the slot `k` waits. -/
def Quiet (s : State) (k : ℕ) : Prop := ∀ e ∈ requests s, e.slot ≠ k

theorem inv_init : Inv x Handoff.init where
  slots k c h := by cases h
  events e h := by cases h
  distinct := nodup_nil
  original k h := by cases h
  parent := ⟨nofun, nofun, nofun, nofun⟩
  guardian := ⟨nofun, nofun, Nat.zero_le _, nofun⟩

/-! ## Parts of a step -/

variable {k : ℕ} {f : Slot → Slot}

/-- The slots of a list after a change of one of them. -/
theorem modify_cases {j : ℕ} {c' : Slot} (h : (s.modify k f).slots[j]? = some c') :
    ∃ c, s.slots[j]? = some c ∧ (j = k ∧ c' = f c ∨ j ≠ k ∧ c' = c) := by
  have h : (s.slots.modify k f)[j]? = some c' := h
  rw [List.getElem?_modify, Option.map_eq_map, Option.map_eq_some_iff] at h
  obtain ⟨c, hc, rfl⟩ := h
  refine ⟨c, hc, ?_⟩
  by_cases hk : k = j
  · exact .inl ⟨hk.symm, if_pos hk⟩
  · exact .inr ⟨fun e => hk e.symm, if_neg hk⟩

variable {c : Slot}

theorem modify_get {j : ℕ} (h : s.slots[j]? = some c) :
    (s.modify k f).slots[j]? = some (if k = j then f c else c) := by
  show (s.slots.modify k f)[j]? = _
  rw [List.getElem?_modify, h]
  by_cases hk : k = j
  · simp [hk]
  · simp [hk]

variable {p : Parent}

/-- A slot changes, and so does the parent. A request of the slot that waits must still be there. -/
theorem Inv.change (h : Inv x s) (hc : s.slots[k]? = some c) (hclient : c.client = .parent → (f c).client = .parent)
    (hslots : ∀ j c', (s.modify k f).slots[j]? = some c' → SlotOk x p s.written j c') (hp : ParentOk p s.written)
    (hsent : s.parent.committed → p.committed)
    (hrequest : Quiet s k ∨ (f c).server.operation = none ∧ (f c).server.mode = .received ∧ (f c).peer = c.peer ∧
      (f c).client = c.client) :
    Inv x { s.modify k f with parent := p } where
  slots := hslots
  events e he := by
    obtain ⟨c₀, hc₀, hop, hmode, hpeer, hcommit⟩ := (h.events e he).slot
    by_cases hk : k = e.slot
    · subst hk
      cases hc.symm.trans hc₀
      rcases hrequest with hquiet | ⟨hop', hmode', hpeer', hclient'⟩
      · exact absurd rfl (hquiet e he)
      refine ⟨f c, ?_, hop', hmode', hpeer'.trans hpeer, fun hcmd hparent => ?_⟩
      · have hget := modify_get (k := e.slot) (f := f) hc
        rwa [if_pos rfl] at hget
      · rw [hclient'] at hparent
        exact hsent (hcommit hcmd hparent)
    · refine ⟨c₀, ?_, hop, hmode, hpeer, fun hcmd hparent => hsent (hcommit hcmd hparent)⟩
      have hget := modify_get (k := k) (f := f) hc₀
      rwa [if_neg hk] at hget
  distinct := h.distinct
  original j hj := by
    obtain ⟨c₀, hc₀, hclient₀⟩ := h.original j hj
    refine ⟨_, modify_get hc₀, ?_⟩
    split_ifs with hk
    · subst hk
      cases hc.symm.trans hc₀
      exact hclient hclient₀
    · exact hclient₀
  parent := hp
  guardian := by
    refine ⟨h.guardian.readied, h.guardian.committed, h.guardian.once, fun j hj => ?_⟩
    obtain ⟨horiginal, hwritten, hs, hreadied⟩ := h.guardian.commits j hj
    exact ⟨horiginal, hwritten, hsent hs, hreadied⟩

/-- A slot that changes and keeps its client. -/
theorem Inv.slot (h : Inv x s) (hc : s.slots[k]? = some c) (hclient : (f c).client = c.client)
    (hok : SlotOk x s.parent s.written k (f c))
    (hrequest : Quiet s k ∨ (f c).server.operation = none ∧ (f c).server.mode = .received ∧ (f c).peer = c.peer) :
    Inv x (s.modify k f) := by
  refine h.change hc (fun hp => hclient.trans hp) (fun j c' hj => ?_) h.parent id ?_
  · obtain ⟨c₀, hc₀, ⟨rfl, rfl⟩ | ⟨-, rfl⟩⟩ := modify_cases hj
    · cases hc.symm.trans hc₀
      exact hok
    · exact h.slots j _ hc₀
  · rcases hrequest with hquiet | ⟨hop, hmode, hpeer⟩
    · exact .inl hquiet
    · exact .inr ⟨hop, hmode, hpeer, hclient⟩

theorem modify_none (h : s.slots[k]? = none) : s.modify k f = s := by
  have hle : s.slots.length ≤ k := List.getElem?_eq_none_iff.1 h
  unfold State.modify
  rw [modify_eq_self hle]

/-- A slot whose request waits. -/
theorem Inv.waits (h : Inv x s) (hc : s.slots[k]? = some c) (hq : ¬ Quiet s k) :
    c.server.operation = none ∧ c.server.mode = .received := by
  unfold Quiet at hq
  push Not at hq
  obtain ⟨e, he, rfl⟩ := hq
  obtain ⟨c₀, hc₀, hop, hmode, -⟩ := (h.events e he).slot
  cases hc.symm.trans hc₀
  exact ⟨hop, hmode⟩

/-- A slot that fails. -/
theorem Inv.disconnect (h : Inv x s) (k : ℕ) : Inv x (s.disconnect k) := by
  have hslot : Inv x (s.modify k fun c => { c with listed := false }) := by
    cases hc : s.slots[k]? with
    | none =>
      rw [modify_none hc]
      exact h
    | some c =>
      have hok := h.slots k c hc
      refine h.slot hc rfl { hok with } ?_
      by_cases hq : Quiet s k
      · exact .inl hq
      · obtain ⟨hop, hmode⟩ := h.waits hc hq
        exact .inr ⟨hop, hmode, rfl⟩
  have hrequests : requests (s.disconnect k) = requests (s.modify k fun c => { c with listed := false }) := by
    show List.filter _ (s.events ++ _) = List.filter _ s.events
    rw [filter_append]
    simp
  refine ⟨hslot.slots, fun e he => ?_, ?_, hslot.original, hslot.parent, ?_⟩
  · rw [hrequests] at he
    exact ⟨(hslot.events e he).slot⟩
  · rw [hrequests]
    exact hslot.distinct
  · exact ⟨h.guardian.readied, h.guardian.committed, h.guardian.once, h.guardian.commits⟩

/-- The guardian's end of a slot with a client takes a step. -/
theorem SlotOk.server {written : Bool} {ch : Channel} {up : List UInt8} (h : SlotOk x p written k c)
    (hne : c.client ≠ .nobody) (hs : Ok c.server → Step x.codec (GuardianSays written) c.server ch c.up up) :
    SlotOk x p written k { c with server := ch, up := up } where
  __ := h
  fresh hn := absurd hn hne
  parent hp := by
    obtain ⟨hslot, hstage, hpipe⟩ := h.parent hp
    exact ⟨hslot, hstage, (hpipe.symm.step (hs hpipe.right)).symm⟩

theorem Inv.quiet (h : Inv x s) (hc : s.slots[k]? = some c) (hop : c.server.operation ≠ none) : Quiet s k := by
  rintro e he rfl
  obtain ⟨c₀, hc₀, hop₀, -⟩ := (h.events e he).slot
  cases hc.symm.trans hc₀
  exact hop hop₀

/-- A request that was read. -/
theorem Inv.event (h : Inv x s) {e : Event} (he : EventOk s e) (hq : Quiet s e.slot)
    (hcmd : e.command ≠ .disconnect) : Inv x { s with events := s.events ++ [e] } := by
  have hrequests : requests { s with events := s.events ++ [e] } = requests s ++ [e] := by
    show List.filter _ (s.events ++ _) = List.filter _ s.events ++ [e]
    rw [filter_append]
    simp [hcmd]
  refine ⟨h.slots, fun e' he' => ?_, ?_, h.original, h.parent, ?_⟩
  · rw [hrequests, mem_append, mem_singleton] at he'
    rcases he' with he' | rfl
    · exact ⟨(h.events e' he').slot⟩
    · exact ⟨he.slot⟩
  · rw [hrequests, map_append, nodup_append]
    refine ⟨h.distinct, by simp, ?_⟩
    intro a ha b hb
    obtain ⟨e', he', rfl⟩ := mem_map.1 ha
    rw [map_singleton, mem_singleton] at hb
    rw [hb]
    exact hq e' he'
  · exact ⟨h.guardian.readied, h.guardian.committed, h.guardian.once, h.guardian.commits⟩

theorem parse_commit {o : Option String} (h : o.bind Command.parse = some .commit) : o = some "commit" := by
  obtain ⟨t, rfl, ht⟩ := Option.bind_eq_some_iff.1 h
  unfold Command.parse at ht
  by_cases hcommit : t = "commit"
  · rw [hcommit]
  · rw [if_neg hcommit] at ht
    split_ifs at ht <;> cases ht

theorem parse_ne_disconnect {o : Option String} : o.bind Command.parse ≠ some .disconnect := by
  intro h
  obtain ⟨t, rfl, ht⟩ := Option.bind_eq_some_iff.1 h
  unfold Command.parse at ht
  split_ifs at ht <;> cases ht

/-- The guardian's end of a slot takes a step that leaves its incoming bytes. -/
theorem Inv.serverStep (h : Inv x s) {ch : Channel} (hc : s.slots[k]? = some c) (hne : c.client ≠ .nobody)
    (hq : Quiet s k) (hs : Ok c.server → Step x.codec (GuardianSays s.written) c.server ch c.up c.up) :
    Inv x (s.modify k fun c => { c with server := ch }) :=
  h.slot hc rfl ((h.slots k c hc).server hne hs) (.inl hq)

/-- A message of another state. -/
theorem guardianSays {written : Bool} {challenge : String} {body : Message} (h : body.state ≠ some "committed") :
    GuardianSays written (x.envelope challenge body) := fun e => absurd e h

theorem settled_request : Settled .request := ⟨nofun, nofun⟩

/-- The server's poll of a slot without a client. -/
theorem Inv.slotAdvance_nobody (h : Inv x s) (hc : s.slots[k]? = some c) (hn : c.client = .nobody) (report : Report)
    (known starts : Bool) : Inv x (s.slotAdvance x k report known starts) := by
  obtain ⟨⟨challenge, hserver⟩, hup, hdown⟩ := (h.slots k c hc).fresh hn
  have hop : c.server.operation = some .connect := by rw [hserver]; rfl
  have hqueue : c.server.queued_send = none := by rw [hserver]; rfl
  obtain ⟨r, hpoll, hr⟩ : ∃ r, poll x.codec c.server c.up false report starts = (c.server, c.up, r) ∧
      (r = .nothing ∨ r = .raised) := poll_fresh hop hqueue
  unfold State.slotAdvance
  rw [hc]
  dsimp only
  by_cases hidle : s.crashed ∨ ¬ c.listed
  · rw [if_pos hidle]
    exact h
  rw [if_neg hidle]
  have hjoined : decide (c.client ≠ .nobody) = false := by rw [hn]; rfl
  rw [hjoined, hpoll]
  rcases hr with rfl | rfl
  · have hok := h.slots k c hc
    exact h.slot hc rfl { hok with }
      (.inl (h.quiet hc (by rw [hop]; nofun)))
  · exact h.disconnect k

/-- The server's poll of a slot. -/
theorem Inv.slotAdvance (h : Inv x s) (k : ℕ) (report : Report) (known starts : Bool) :
    Inv x (s.slotAdvance x k report known starts) := by
  cases hc : s.slots[k]? with
  | none =>
    unfold State.slotAdvance
    rw [hc]
    exact h
  | some c =>
  by_cases hn : c.client = .nobody
  · exact h.slotAdvance_nobody hc hn report known starts
  unfold State.slotAdvance
  rw [hc]
  dsimp only
  by_cases hidle : s.crashed ∨ ¬ c.listed
  · rw [if_pos hidle]
    exact h
  rw [if_neg hidle]
  have hok := h.slots k c hc
  rcases hpoll : c.server.poll x.codec c.up (c.client ≠ .nobody) report starts with ⟨ch, up, r⟩
  have hstep : Ok c.server → Step x.codec (GuardianSays s.written) c.server ch c.up up :=
    fun ho => poll_step ho hpoll
  have hslot := hok.server hn hstep
  have hended := poll_ended hpoll
  -- a slot whose request waits has no operation, and a poll of it does nothing
  have hquiet : r ≠ .nothing → Quiet s k := by
    intro hr
    apply h.quiet hc
    intro hop
    rw [poll_none hop] at hpoll
    cases hpoll
    exact hr rfl
  cases r with
  | raised => exact h.disconnect k
  | nothing =>
    refine h.slot hc rfl hslot ?_
    by_cases hop : c.server.operation = none
    · rw [poll_none hop] at hpoll
      cases hpoll
      by_cases hq : Quiet s k
      · exact .inl hq
      · obtain ⟨hop, hmode⟩ := h.waits hc hq
        exact .inr ⟨hop, hmode, rfl⟩
    · exact .inl (h.quiet hc hop)
  | connected =>
    have h1 : Inv x (s.modify k fun c =>
        { c with server := ch, up := up, peer := State.clientIdentity x c.client }) :=
      h.slot hc rfl { hslot with peer := fun q hq => hq } (.inl (hquiet nofun))
    dsimp only
    split
    · exact h1.disconnect k
    split
    · exact h1.disconnect k
    · rename_i ch' hsend
      have hc1 := modify_get (k := k) (f := fun c =>
        { c with server := ch, up := up, peer := State.clientIdentity x c.client }) hc
      rw [if_pos rfl] at hc1
      exact h1.serverStep hc1 hn (hquiet nofun)
        (fun ho => send_step ho (guardianSays (by simp [emptyBody])) settled_request hsend)
  | sent =>
    have h1 : Inv x (s.modify k fun c => { c with server := ch, up := up }) :=
      h.slot hc rfl hslot (.inl (hquiet nofun))
    have hc1 := modify_get (k := k) (f := fun c => { c with server := ch, up := up }) hc
    rw [if_pos rfl] at hc1
    have hop : ch.operation = none := by
      rcases hended with hr | hr | hr
      · cases hr
      · cases hr
      · exact hr.1
    dsimp only
    split
    · split
      · exact h1.disconnect k
      · rename_i ch' hreceive
        exact h1.serverStep hc1 hn (hquiet nofun) (fun ho => receive_step ho hop hreceive)
    · have hok1 := h1.slots k _ hc1
      exact h1.slot hc1 rfl { hok1 with } (.inl (hquiet nofun))
  | message m =>
    have h1 : Inv x (s.modify k fun c => { c with server := ch, up := up }) :=
      h.slot hc rfl hslot (.inl (hquiet nofun))
    have hc1 := modify_get (k := k) (f := fun c => { c with server := ch, up := up }) hc
    rw [if_pos rfl] at hc1
    obtain ⟨hop, hmessage⟩ : ch.operation = none ∧ ∀ m', Result.message m = .message m' →
        ch.mode = .received ∧ ∃ p ∈ ch.taken, x.codec.decode p = some m' := by
      rcases hended with hr | hr | hr
      · cases hr
      · cases hr
      · exact hr
    obtain ⟨hmode, p, hp, hdecode⟩ := hmessage m rfl
    dsimp only
    split
    case h_2 => exact h1.disconnect k
    rename_i peer client command hpeer hclient hcommand
    split
    case isFalse => exact h1.disconnect k
    have hne : command ≠ .disconnect := by
      rintro rfl
      exact parse_ne_disconnect hcommand
    refine h1.event ⟨⟨_, hc1, hop, hmode, hpeer, fun hcommit hparent => ?_⟩⟩ (hquiet nofun) hne
    -- a commit on the parent's pipe was sent by the parent
    obtain ⟨-, -, hpipe⟩ := hslot.parent hparent
    have hcommit : command = .commit := hcommit
    rw [hcommit] at hcommand
    exact hpipe.symm.received hp hdecode (parse_commit hcommand)

/-- Fields of an end that its streams do not depend on. -/
theorem relabel_step {c : Codec} {P : Message → Prop} {ch : Channel} {wire : List UInt8} (h : Ok ch)
    (challenge : String) (retained : Bool) :
    Step c P ch { ch with challenge := challenge, retained := retained } wire wire where
  ok := { h with }
  reads := rfl
  writes _ hmoved := hmoved
  speaks hs := ⟨hs.issued, hs.queued⟩

/-- The guardian's flags change. -/
theorem Inv.flags (h : Inv x s) {s' : State} (hslots : s'.slots = s.slots) (hevents : requests s' = requests s)
    (hparent : s'.parent = s.parent) (hwritten : s.written → s'.written)
    (horiginal : ∀ k, s'.parent_event = some k → ∃ c, s.slots[k]? = some c ∧ c.client = .parent)
    (hg : GuardianOk s') : Inv x s' where
  slots k c hc := by
    rw [hslots] at hc
    have hok := h.slots k c hc
    rw [hparent]
    refine ⟨hok.fresh, fun hp => ?_, hok.other, hok.peer⟩
    obtain ⟨hslot, hstage, hpipe⟩ := hok.parent hp
    exact ⟨hslot, hstage, hpipe.mono (fun _ hm => hm) (fun _ hm e => hwritten (hm e))⟩
  events e he := by
    rw [hevents] at he
    obtain ⟨c, hc, hop, hmode, hpeer, hcommit⟩ := (h.events e he).slot
    rw [← hslots] at hc
    exact ⟨c, hc, hop, hmode, hpeer, by rw [hparent]; exact hcommit⟩
  distinct := by
    rw [hevents]
    exact h.distinct
  original k hk := by
    rw [hslots]
    exact horiginal k hk
  parent := by
    rw [hparent]
    exact ⟨h.parent.late, h.parent.ended, h.parent.raised, fun e => hwritten (h.parent.acknowledged e)⟩
  guardian := hg

/-- A crash changes no flag but its own. -/
theorem Inv.crash (h : Inv x s) : Inv x { s with crashed := true } :=
  h.flags rfl rfl rfl id h.original
    ⟨h.guardian.readied, fun _ => .inr rfl, h.guardian.once, h.guardian.commits⟩

/-- `reply`, on a slot whose request does not wait any more. -/
theorem Inv.reply (h : Inv x s) (hq : Quiet s k) {body : Message} {retain : Bool} (starts : Bool)
    (hm : body.state = some "committed" → s.written) : Inv x (s.reply x k body retain starts) := by
  unfold State.reply
  cases hc : s.slots[k]? with
  | none => exact h
  | some c =>
    dsimp only
    split
    · exact h.crash
    rename_i ch hsend
    by_cases hn : c.client = .nobody
    · -- a slot that waits for a client cannot be written to
      obtain ⟨⟨challenge, hserver⟩, -⟩ := (h.slots k c hc).fresh hn
      rw [hserver] at hsend
      simp [waiting, Channel.send] at hsend
    have hafter : Settled (if retain then .commit else .close) := by
      cases retain
      · exact ⟨nofun, nofun⟩
      · exact ⟨nofun, nofun⟩
    refine h.slot hc rfl ?_ (.inl hq)
    have hm : GuardianSays s.written (x.envelope c.server.challenge body) := hm
    have hrelabel := (h.slots k c hc).server hn (fun ho => relabel_step ho c.server.challenge retain)
    exact hrelabel.server hn (fun ho => send_step ho hm hafter hsend)

/-! ## The lifecycle -/

/-- The first request is taken from the queue. -/
theorem Inv.pop (h : Inv x s) {e : Event} {events : List Event} (he : s.events = e :: events) :
    Inv x { s with events := events } ∧
      (e.command ≠ .disconnect → Quiet { s with events := events } e.slot) := by
  have hrequests : requests s =
      if e.command ≠ .disconnect then e :: requests { s with events := events }
      else requests { s with events := events } := by
    show List.filter _ s.events = _
    rw [he, filter_cons]
    by_cases hcmd : e.command = .disconnect
    · simp [hcmd, requests]
    · simp [hcmd, requests]
  refine ⟨⟨h.slots, fun e' he' => ⟨(h.events e' ?_).slot⟩, ?_, h.original, h.parent, ?_⟩, fun hcmd e' he' => ?_⟩
  · rw [hrequests]
    split
    · exact mem_cons_of_mem _ he'
    · exact he'
  · have hdistinct := h.distinct
    rw [hrequests] at hdistinct
    split at hdistinct
    · exact (nodup_cons.1 hdistinct).2
    · exact hdistinct
  · exact ⟨h.guardian.readied, h.guardian.committed, h.guardian.once, h.guardian.commits⟩
  · have hdistinct := h.distinct
    rw [hrequests, if_pos hcmd] at hdistinct
    intro heq
    exact (nodup_cons.1 hdistinct).1 (mem_map.2 ⟨e', he', heq⟩)

/-- What a process that matches the parent's identity is. -/
theorem isParent_of_match {p : Identity} (h : x.matchIdentity x.parent p) : x.isParent p := by
  simp only [Setting.matchIdentity, Bool.and_eq_true, decide_eq_true_eq] at h
  simp only [Setting.isParent, Bool.and_eq_true, decide_eq_true_eq]
  exact ⟨h.1.1.1.symm, h.1.1.2.symm⟩

/-- A `handoff` command: the client that it makes the original one is the parent. -/
theorem Inv.beginHandoff (h : Inv x s) {e : Event} (he : EventOk s e) (hq : Quiet s e.slot) (starts : Bool) :
    Inv x (s.beginHandoff x e starts) := by
  obtain ⟨c, hc, hop, hmode, hpeer, -⟩ := he.slot
  unfold State.beginHandoff
  rw [hc]
  cases hp : e.peer with
  | none => exact h
  | some peer =>
    dsimp only
    split
    case isFalse => exact h.reply hq starts (by simp [State.stateBody, emptyBody])
    rename_i hstart
    obtain ⟨hmatch, hnone, huncommitted⟩ := hstart
    have hparent : c.client = .parent := by
      have hpeer' := (h.slots _ c hc).peer peer (hpeer.trans hp)
      cases hclient : c.client with
      | nobody =>
        rw [hclient] at hpeer'
        cases hpeer'
      | parent => rfl
      | other =>
        rw [hclient] at hpeer'
        cases hpeer'
        have hother := (h.slots _ c hc).other peer hclient
        rw [isParent_of_match hmatch] at hother
        cases hother
    have hcommits : s.commits = [] := by
      by_contra hne
      obtain ⟨k, hk⟩ := exists_mem_of_ne_nil _ hne
      have horiginal := (h.guardian.commits k hk).1
      rw [hnone] at horiginal
      cases horiginal
    have h1 : Inv x { s with parent_event := some e.slot } := by
      refine h.flags rfl rfl rfl id ?_ ⟨h.guardian.readied, h.guardian.committed, h.guardian.once, ?_⟩
      · rintro k ⟨⟩
        exact ⟨c, hc, hparent⟩
      · intro k hk
        have hk : k ∈ s.commits := hk
        rw [hcommits] at hk
        cases hk
    split
    · exact h1.crash
    · rename_i ch hreceive
      have hne : c.client ≠ .nobody := by rw [hparent]; nofun
      refine h1.slot hc rfl ?_ (.inl hq)
      have hrelabel := (h1.slots _ c hc).server hne (fun ho => relabel_step ho c.server.challenge true)
      exact hrelabel.server hne (fun ho => receive_step ho hop hreceive)

/-- A commit that the guardian takes: the first one, on the original channel, in the ready state. -/
theorem Inv.commit (h : Inv x s) (hq : Quiet s k) (horiginal : s.parent_event = some k) (hready : s.status = .ready)
    (hc : s.committed = false) (hcrashed : s.crashed = false) (hsent : s.parent.committed) (saved : Saved)
    (starts : Bool) : Inv x (s.commit x k saved starts) := by
  have hcommits : s.commits = [] := by
    by_contra hne
    rcases h.guardian.committed hne with hcommitted | hcrash
    · rw [hc] at hcommitted
      cases hcommitted
    · rw [hcrashed] at hcrash
      cases hcrash
  have hreadied := h.guardian.readied hready
  have hone : ∀ j ∈ s.commits ++ [k], s.parent_event = some j ∧ (true : Bool) = true ∧
      s.parent.committed ∧ s.readied := by
    intro j hj
    rw [hcommits, nil_append, mem_singleton] at hj
    rw [hj]
    exact ⟨horiginal, rfl, hsent, hreadied⟩
  have honce : (s.commits ++ [k]).length ≤ 1 := by
    rw [hcommits]
    exact Nat.le_refl 1
  cases saved with
  | lost => exact h.crash
  | interrupted =>
    exact h.flags rfl rfl rfl (fun _ => rfl) h.original
      ⟨h.guardian.readied, fun _ => .inr rfl, honce, hone⟩
  | replaced =>
    have h1 : Inv x { s with written := true, commits := s.commits ++ [k], committed := true
                             status := .running } :=
      h.flags rfl rfl rfl (fun _ => rfl) h.original ⟨nofun, fun _ => .inl rfl, honce, hone⟩
    exact h1.reply hq starts (fun _ => rfl)

theorem status_text (status : Status) : some status.text ≠ some "committed" := by
  cases status <;> simp [Status.text]

/-- One event of the lifecycle's poll. -/
theorem Inv.handle (h : Inv x s) (authorized : Bool) (saved : Saved) (snapshot : Message) (starts : Bool) :
    Inv x (s.handle x authorized saved snapshot starts) := by
  have hrefused : ∀ text, text ≠ "committed" → (State.stateBody text).state ≠ some "committed" := by
    intro text ht e
    exact ht (Option.some.inj e)
  unfold State.handle
  split
  · exact h
  rename_i e events he
  split
  · exact h
  rename_i hcrashed
  obtain ⟨h1, hquiet⟩ := h.pop he
  have hmem : e.command ≠ .disconnect → e ∈ requests s := by
    intro hcmd
    unfold requests
    rw [he]
    exact mem_filter.2 ⟨mem_cons_self, by simpa using hcmd⟩
  have hfail : ∀ b, Inv x { s with events := events, failed := b } := fun b =>
    h1.flags rfl rfl rfl id h1.original ⟨h1.guardian.readied, h1.guardian.committed, h1.guardian.once,
      h1.guardian.commits⟩
  dsimp only
  split
  · rename_i hunauthorized
    exact h1.reply (hquiet hunauthorized.1) starts (fun e => absurd e (hrefused _ (by decide)))
  cases hcmd : e.command with
  | disconnect =>
    dsimp only
    split
    · exact hfail true
    · exact h1
  | handoff =>
    have hne : e.command ≠ .disconnect := by rw [hcmd]; nofun
    dsimp only
    split
    · exact (hfail true).reply (hquiet hne) starts (fun e => absurd e (hrefused _ (by decide)))
    · exact h1.beginHandoff ⟨(h.events e (hmem hne)).slot⟩ (hquiet hne) starts
  | commit =>
    have hne : e.command ≠ .disconnect := by rw [hcmd]; nofun
    dsimp only
    split
    · exact (hfail (s.failed || (decide (s.parent_event = some e.slot) && !s.committed))).reply (hquiet hne)
        starts (fun e => absurd e (hrefused _ (by decide)))
    rename_i hguard
    push Not at hguard
    obtain ⟨horiginal, hready, hcommitted, hstopping, hfailed⟩ := hguard
    obtain ⟨c, hc, hclient⟩ := h.original _ horiginal
    obtain ⟨c₀, hc₀, -, -, -, hsent⟩ := (h.events e (hmem hne)).slot
    cases hc.symm.trans hc₀
    have hcommitted : s.committed = false := by simpa using hcommitted
    have hcrashed : s.crashed = false := by simpa using hcrashed
    exact h1.commit (hquiet hne) horiginal hready hcommitted hcrashed (hsent hcmd hclient) saved starts
  | stop =>
    have hne : e.command ≠ .disconnect := by rw [hcmd]; nofun
    have h2 : Inv x { s with events := events, stopping := true, status := .stopping } :=
      h1.flags rfl rfl rfl id h1.original ⟨nofun, h1.guardian.committed, h1.guardian.once, h1.guardian.commits⟩
    exact h2.reply (hquiet hne) starts (fun e => absurd e (hrefused _ (by decide)))
  | status =>
    have hne : e.command ≠ .disconnect := by rw [hcmd]; nofun
    dsimp only
    split
    · exact (hfail true).reply (hquiet hne) starts (fun e => absurd e (hrefused _ (by decide)))
    · exact h1.reply (hquiet hne) starts (fun e => absurd e (status_text _))

/-- `on_ready`. -/
theorem Inv.ready (h : Inv x s) (bound starts : Bool) : Inv x (s.ready x bound starts) := by
  unfold State.ready
  split
  · exact h
  rename_i hguard
  push Not at hguard
  split
  · exact h.crash
  split
  · exact h.crash
  have h1 : Inv x { s with status := .ready, readied := true } := by
    refine h.flags rfl rfl rfl id h.original ⟨fun _ => rfl, h.guardian.committed, h.guardian.once, ?_⟩
    intro k hk
    obtain ⟨horiginal, hwritten, hsent, -⟩ := h.guardian.commits k hk
    exact ⟨horiginal, hwritten, hsent, rfl⟩
  refine h1.reply ?_ starts (by simp [State.stateBody, emptyBody])
  intro e he
  have he : e ∈ s.events.filter _ := he
  rw [hguard.2.2] at he
  cases he

/-! ## The clients and the system -/

theorem Inv.listen (h : Inv x s) (challenge : String) : Inv x (s.listen challenge) := by
  unfold State.listen
  split
  · exact h
  have hold : ∀ {k : ℕ} {c : Slot} (c' : Slot), s.slots[k]? = some c → (s.slots ++ [c'])[k]? = some c := by
    intro k c c' hc
    rw [List.getElem?_append_left (List.getElem?_eq_some_iff.1 hc).1]
    exact hc
  refine ⟨fun k c hc => ?_, fun e he => ?_, h.distinct, fun k hk => ?_, h.parent, ?_⟩
  · have hc : (s.slots ++ [_])[k]? = some c := hc
    rcases Nat.lt_or_ge k s.slots.length with hlt | hge
    · rw [List.getElem?_append_left hlt] at hc
      exact h.slots k c hc
    · rw [List.getElem?_append_right hge] at hc
      rw [List.getElem?_singleton] at hc
      split at hc
      case isFalse => cases hc
      cases hc
      exact ⟨fun _ => ⟨⟨challenge, rfl⟩, rfl, rfl⟩, nofun, nofun, nofun⟩
  · obtain ⟨c, hc, hrest⟩ := (h.events e he).slot
    exact ⟨c, hold _ hc, hrest⟩
  · obtain ⟨c, hc, hclient⟩ := h.original k hk
    exact ⟨c, hold _ hc, hclient⟩
  · exact ⟨h.guardian.readied, h.guardian.committed, h.guardian.once, h.guardian.commits⟩

/-- A change of a slot that may not be there. -/
theorem Inv.modify (h : Inv x s)
    (hf : ∀ c, s.slots[k]? = some c → (f c).client = c.client ∧ SlotOk x s.parent s.written k (f c) ∧
      ((f c).server.operation = none ↔ c.server.operation = none) ∧ (f c).server.mode = c.server.mode ∧ (f c).peer =
      c.peer) :
    Inv x (s.modify k f) := by
  cases hc : s.slots[k]? with
  | none =>
    rw [modify_none hc]
    exact h
  | some c =>
    obtain ⟨hclient, hok, hop, hmode, hpeer⟩ := hf c hc
    refine h.slot hc hclient hok ?_
    by_cases hq : Quiet s k
    · exact .inl hq
    · obtain ⟨hop₀, hmode₀⟩ := h.waits hc hq
      exact .inr ⟨hop.2 hop₀, hmode.trans hmode₀, hpeer⟩

theorem Inv.inject (h : Inv x s) (k : ℕ) (bytes : List UInt8) : Inv x (s.inject k bytes) := by
  refine h.modify (fun c hc => ?_)
  have hok := h.slots k c hc
  split
  · rename_i q hother
    refine ⟨rfl, ⟨fun hn => ?_, fun hp => ?_, hok.other, hok.peer⟩, Iff.rfl, rfl, rfl⟩
    · cases hother.symm.trans hn
    · cases hother.symm.trans hp
  · exact ⟨rfl, hok, Iff.rfl, rfl, rfl⟩

theorem Inv.transferDown (h : Inv x s) (k count : ℕ) : Inv x (s.transferDown k count) := by
  refine h.modify (fun c hc => ?_)
  have hok := h.slots k c hc
  obtain ⟨-, -, -, -, hmode, hop⟩ := transfer_same c.server c.down count
  refine ⟨rfl, ⟨fun hn => ?_, fun hp => ?_, hok.other, hok.peer⟩, hop, hmode, rfl⟩
  · obtain ⟨⟨challenge, hserver⟩, hup, hdown⟩ := hok.fresh hn
    rw [hserver, hdown]
    exact ⟨⟨challenge, rfl⟩, hup, rfl⟩
  · obtain ⟨hslot, hstage, hpipe⟩ := hok.parent hp
    exact ⟨hslot, hstage, (hpipe.symm.transfer count).symm⟩

theorem Inv.clientConnect (h : Inv x s) (k : ℕ) (q : Identity) : Inv x (s.clientConnect x k q) := by
  unfold State.clientConnect
  split
  · exact h
  rename_i hparent
  cases hc : s.slots[k]? with
  | none =>
    rw [modify_none hc]
    exact h
  | some c =>
    by_cases hfree : c.listed ∧ c.client = .nobody
    · have hok := h.slots k c hc
      obtain ⟨⟨challenge, hserver⟩, -⟩ := hok.fresh hfree.2
      have hquiet : Quiet s k := h.quiet hc (by rw [hserver]; nofun)
      refine h.change hc (fun hp => ?_) (fun j c' hj => ?_) h.parent id (.inl hquiet)
      · cases hfree.2.symm.trans hp
      · obtain ⟨c₀, hc₀, ⟨rfl, rfl⟩ | ⟨-, rfl⟩⟩ := modify_cases hj
        · cases hc.symm.trans hc₀
          rw [if_pos hfree]
          refine ⟨nofun, nofun, ?_, fun q' hq' => ?_⟩
          · rintro q' ⟨⟩
            simpa using hparent
          · have hnone := hok.peer q' hq'
            rw [hfree.2] at hnone
            cases hnone
        · exact h.slots j _ hc₀
    · refine h.modify (fun c' hc' => ?_)
      cases hc.symm.trans hc'
      rw [if_neg hfree]
      exact ⟨rfl, h.slots k c hc, Iff.rfl, rfl, rfl⟩

/-! ## The parent -/

/-- The parent's state changes, and its channel does not. -/
theorem Inv.parentOnly (h : Inv x s) (hslot : p.slot = s.parent.slot) (hchannel : p.channel = s.parent.channel)
    (hstage : p.stage ≠ .idle) (hsent : p.committed = s.parent.committed) (hp : ParentOk p s.written) :
    Inv x { s with parent := p } where
  __ := h
  slots k c hc := by
    have hok := h.slots k c hc
    refine ⟨hok.fresh, fun hparent => ?_, hok.other, hok.peer⟩
    obtain ⟨hk, -, hpipe⟩ := hok.parent hparent
    refine ⟨hslot.trans hk, hstage, ?_⟩
    rw [hchannel]
    refine hpipe.mono (fun m hm e => ?_) (fun m hm => hm)
    rw [hsent]
    exact hm e
  events e he := by
    obtain ⟨c, hc, hop, hmode, hpeer, hcommit⟩ := (h.events e he).slot
    exact ⟨c, hc, hop, hmode, hpeer, by rw [hsent]; exact hcommit⟩
  parent := hp
  guardian := by
    refine ⟨h.guardian.readied, h.guardian.committed, h.guardian.once, fun j hj => ?_⟩
    obtain ⟨horiginal, hwritten, hs, hreadied⟩ := h.guardian.commits j hj
    exact ⟨horiginal, hwritten, by rw [hsent]; exact hs, hreadied⟩

/-- An exception leaves the parent with what it had noted. -/
theorem Inv.parentFail (h : Inv x s) : Inv x s.parentFail := by
  unfold State.parentFail
  split
  · exact h
  have hother : ∀ b : Bool, (some (if b then Outcome.indeterminate else .raised) : Option Outcome) ≠
      some .committed := by
    intro b
    cases b <;> nofun
  refine h.parentOnly rfl rfl nofun rfl ⟨fun _ => .inr (.inr rfl), fun _ => rfl, fun e => ?_, fun e => ?_⟩
  · cases hc : s.parent.committed with
    | false => rfl
    | true =>
      have e : some (if s.parent.committed then Outcome.indeterminate else .raised) = some .raised := e
      rw [hc] at e
      cases e
  · exact absurd e (hother _)

/-- The parent's end of its pipe takes a step. -/
theorem Inv.parentStep (h : Inv x s) (hc : s.slots[s.parent.slot]? = some c) (hclient : c.client = .parent)
    {down : List UInt8} (hslot : p.slot = s.parent.slot) (hstage : p.stage ≠ .idle)
    (hsent : s.parent.committed → p.committed) (hp : ParentOk p s.written)
    (hs : Ok s.parent.channel → Step x.codec (ParentSays p) s.parent.channel p.channel c.down down) :
    Inv x { s.modify s.parent.slot (fun c => { c with down := down }) with parent := p } := by
  have hok := h.slots _ c hc
  obtain ⟨-, -, hpipe⟩ := hok.parent hclient
  refine h.change hc id (fun j c' hj => ?_) hp hsent ?_
  · obtain ⟨c₀, hc₀, ⟨rfl, rfl⟩ | ⟨hj, rfl⟩⟩ := modify_cases hj
    · cases hc.symm.trans hc₀
      refine ⟨fun hn => ?_, fun _ => ⟨hslot, hstage, ?_⟩, hok.other, hok.peer⟩
      · cases hclient.symm.trans hn
      · have hmono : Pipe x.codec (ParentSays p) (GuardianSays s.written) s.parent.channel c.server c.up c.down :=
          hpipe.mono (fun m hm e => hsent (hm e)) (fun m hm => hm)
        exact hmono.step (hs hpipe.left)
    · have hok' := h.slots j _ hc₀
      exact ⟨hok'.fresh, fun hparent => absurd (hok'.parent hparent).1.symm hj, hok'.other, hok'.peer⟩
  · by_cases hq : Quiet s s.parent.slot
    · exact .inl hq
    · obtain ⟨hop, hmode⟩ := h.waits hc hq
      exact .inr ⟨hop, hmode, rfl, rfl⟩

/-- A step of the parent's end that leaves its incoming bytes. -/
theorem Inv.parentStay (h : Inv x s) (hc : s.slots[s.parent.slot]? = some c) (hclient : c.client = .parent)
    (hslot : p.slot = s.parent.slot) (hstage : p.stage ≠ .idle) (hsent : s.parent.committed → p.committed)
    (hp : ParentOk p s.written)
    (hs : Ok s.parent.channel → Step x.codec (ParentSays p) s.parent.channel p.channel c.down c.down) :
    Inv x { s with parent := p } := by
  have hsame : s.modify s.parent.slot (fun c₀ => { c₀ with down := c.down }) = s := by
    have hlist : s.slots.modify s.parent.slot (fun c₀ => { c₀ with down := c.down }) = s.slots := by
      apply ext_getElem?
      intro j
      rw [List.getElem?_modify]
      by_cases hj : s.parent.slot = j
      · subst hj
        rw [hc]
        simp
      · simp [hj]
    unfold State.modify
    rw [hlist]
  have hstep := h.parentStep hc hclient hslot hstage hsent hp hs
  rwa [hsame] at hstep

/-- The parent is within its call, at a stage before it has sent its commit. -/
theorem ParentOk.early {written : Bool} (h : ParentOk p written)
    (hstage : p.stage ≠ .committing ∧ p.stage ≠ .acknowledging ∧ p.stage ≠ .ended) :
    p.committed = false ∧ p.outcome = none := by
  constructor
  · by_contra hc
    rw [Bool.not_eq_false] at hc
    rcases h.late hc with e | e | e
    · exact hstage.1 e
    · exact hstage.2.1 e
    · exact hstage.2.2 e
  · by_contra ho
    exact hstage.2.2 (h.ended ho)

/-- A parent without an outcome. -/
theorem ParentOk.running {written : Bool} (ho : p.outcome = none)
    (hlate : p.committed → p.stage = .committing ∨ p.stage = .acknowledging ∨ p.stage = .ended) :
    ParentOk p written where
  late := hlate
  ended e := absurd ho e
  raised e := by cases ho.symm.trans e
  acknowledged e := by cases ho.symm.trans e

/-- The parent sends a command that is no commit. -/
theorem Inv.parentSend (h : Inv x s) (hc : s.slots[s.parent.slot]? = some c) (hclient : c.client = .parent)
    {command : String} {stage : Stage} (hcommand : command ≠ "commit") (hstage : stage ≠ .idle)
    (huncommitted : s.parent.committed = false) (hrunning : s.parent.outcome = none) (starts : Bool) :
    Inv x (s.parentSend x command stage starts) := by
  unfold State.parentSend
  dsimp only
  split
  · exact h.parentFail
  rename_i ch hsend
  refine h.parentStay hc hclient rfl hstage id (.running hrunning fun e => ?_) (fun ho => ?_)
  · cases huncommitted.symm.trans e
  · refine send_step ho (fun e => ?_) settled_request hsend
    exact absurd (Option.some.inj e) hcommand

/-- The parent sends its commit. -/
theorem Inv.parentCommit (h : Inv x s) (hc : s.slots[s.parent.slot]? = some c) (hclient : c.client = .parent)
    (huncommitted : s.parent.committed = false) (hrunning : s.parent.outcome = none)
    (hstage : s.parent.stage ≠ .ended) (starts : Bool) : Inv x (s.parentCommit x starts) := by
  unfold State.parentCommit State.parentSend
  dsimp only
  split
  · -- nothing was sent
    unfold State.parentFail
    rw [if_neg hstage]
    refine h.parentOnly rfl rfl nofun huncommitted.symm ⟨nofun, fun _ => rfl, fun _ => rfl, fun e => ?_⟩
    have e : some (if s.parent.committed then Outcome.indeterminate else .raised) = some .committed := e
    rw [huncommitted] at e
    cases e
  rename_i ch hsend
  refine h.parentStay hc hclient rfl nofun (fun _ => rfl) (.running hrunning fun _ => .inl rfl) (fun ho => ?_)
  exact send_step ho (fun _ => rfl) settled_request hsend

/-- What the parent does with a message that it has read. -/
theorem Inv.parentMessage (h : Inv x s) (hc : s.slots[s.parent.slot]? = some c) (hclient : c.client = .parent)
    {m : Message} {p : List UInt8} (hp : p ∈ s.parent.channel.taken) (hm : x.codec.decode p = some m) (starts : Bool) :
    Inv x (s.parentMessage x m starts) := by
  obtain ⟨-, -, hpipe⟩ := (h.slots _ c hc).parent hclient
  unfold State.parentMessage
  split
  · rename_i hgreeting
    obtain ⟨hu, ho⟩ := h.parent.early (by rw [hgreeting]; exact ⟨nofun, nofun, nofun⟩)
    split
    · split
      case isFalse => exact h.parentFail
      rename_i challenge _ _
      have h1 : Inv x (s.parentAt .greeting { s.parent.channel with challenge := challenge }) := by
        refine h.parentStay hc hclient rfl nofun id (.running ho fun e => ?_)
          (fun hok => relabel_step hok challenge s.parent.channel.retained)
        cases hu.symm.trans e
      have hcommand : "handoff" ≠ "commit" := by decide
      have hstage : Stage.requesting ≠ .idle := nofun
      exact h1.parentSend hc hclient hcommand hstage hu ho starts
    · exact h.parentFail
  · rename_i hready
    obtain ⟨hu, ho⟩ := h.parent.early (by rw [hready]; exact ⟨nofun, nofun, nofun⟩)
    split
    · exact h.parentCommit hc hclient hu ho (by rw [hready]; nofun) starts
    · exact h.parentFail
  · split
    case isFalse => exact h.parentFail
    rename_i hack
    -- the acknowledgement was sent by the guardian
    have hwritten : s.written := hpipe.received hp hm hack.2
    exact h.parentOnly rfl rfl nofun rfl ⟨fun _ => .inr (.inr rfl), fun _ => rfl, nofun, fun _ => hwritten⟩
  · exact h.parentFail

/-- The parent's poll of its channel. -/
theorem Inv.parentAdvance (h : Inv x s) (report : Report) (starts : Bool) :
    Inv x (s.parentAdvance x report starts) := by
  unfold State.parentAdvance
  split
  · exact h
  rename_i c hc
  split
  · exact h
  rename_i hguard
  push Not at hguard
  obtain ⟨hidle, hended, hclient⟩ := hguard
  have hrunning : s.parent.outcome = none := by
    by_contra ho
    exact hended (h.parent.ended ho)
  rcases hpoll : s.parent.channel.poll x.codec c.down true report starts with ⟨ch, down, r⟩
  have hresult := poll_ended hpoll
  have h1 : Inv x ((s.modify s.parent.slot (fun c => { c with down := down })).parentAt s.parent.stage ch) := by
    refine h.parentStep (p := { s.parent with channel := ch }) hc hclient rfl hidle id ?_
      (fun ho => poll_step ho hpoll)
    exact .running hrunning h.parent.late
  have hc1 := modify_get (k := s.parent.slot) (f := fun c => { c with down := down }) hc
  rw [if_pos rfl] at hc1
  have hsent : ∀ r, r = .connected ∨ r = .sent → Ended x.codec ch r → ∀ ch', ch.receive starts = some ch' →
      Inv x (((s.modify s.parent.slot (fun c => { c with down := down })).parentAt s.parent.stage ch).parentAt
        (if s.parent.stage = .requesting then .ready else .acknowledging) ch') := by
    intro r hr he ch' hreceive
    have hop : ch.operation = none := by
      rcases he with e | e | e
      · rcases hr with rfl | rfl <;> cases e
      · rcases hr with rfl | rfl <;> cases e
      · exact e.1
    refine h1.parentStay hc1 hclient rfl ?_ id (.running hrunning fun e => ?_) (fun ho => receive_step ho hop hreceive)
    · split_ifs <;> exact fun e => by cases e
    · have hlater : s.parent.stage ≠ .requesting := by
        rcases h.parent.late e with hs | hs | hs
        · rw [hs]
          decide
        · rw [hs]
          decide
        · exact absurd hs hended
      exact .inr (.inl (if_neg hlater))
  cases r with
  | raised => exact h.parentFail
  | nothing => exact h1
  | connected =>
    dsimp only
    cases hreceive : ch.receive starts with
    | none => exact h1.parentFail
    | some ch' => exact hsent .connected (.inl rfl) hresult ch' hreceive
  | sent =>
    dsimp only
    cases hreceive : ch.receive starts with
    | none => exact h1.parentFail
    | some ch' => exact hsent .sent (.inr rfl) hresult ch' hreceive
  | message m =>
    rcases hresult with e | e | ⟨-, hmessage⟩
    · cases e
    · cases e
    · obtain ⟨-, p, hp, hm⟩ := hmessage m rfl
      exact h1.parentMessage hc1 hclient hp hm starts

theorem Inv.transferUp (h : Inv x s) (count : ℕ) : Inv x (s.transferUp count) := by
  unfold State.transferUp
  split
  · exact h
  rename_i c hc
  split
  · exact h
  rename_i hclient
  rw [not_not] at hclient
  have hok := h.slots _ c hc
  obtain ⟨-, hstage, hpipe⟩ := hok.parent hclient
  obtain ⟨-, htaken, -⟩ := transfer_same s.parent.channel c.up count
  refine h.change hc id (fun j c' hj => ?_) ⟨h.parent.late, h.parent.ended, h.parent.raised,
    h.parent.acknowledged⟩ id ?_
  · obtain ⟨c₀, hc₀, ⟨rfl, rfl⟩ | ⟨hj, rfl⟩⟩ := modify_cases hj
    · cases hc.symm.trans hc₀
      refine ⟨fun hn => ?_, fun _ => ⟨rfl, hstage, hpipe.transfer count⟩, hok.other, hok.peer⟩
      cases hclient.symm.trans hn
    · have hok' := h.slots j _ hc₀
      exact ⟨hok'.fresh, fun hparent => absurd (hok'.parent hparent).1.symm hj, hok'.other, hok'.peer⟩
  · by_cases hq : Quiet s s.parent.slot
    · exact .inl hq
    · obtain ⟨hop, hmode⟩ := h.waits hc hq
      exact .inr ⟨hop, hmode, rfl, rfl⟩

/-- A pipe that nothing has gone through. -/
theorem pipe_new {c : Codec} {P Q : Message → Prop} {ch : Channel} {challenge : String} {starts : Bool}
    (hreceive : (Channel.init "").receive starts = some ch) : Pipe c P Q ch (waiting challenge) [] [] := by
  have hstep : Step c P (Channel.init "") ch [] [] := receive_step (ok_init "") rfl hreceive
  have hwaiting : Ok (waiting challenge) :=
    ⟨nofun, nofun, nofun, ⟨nofun, nofun⟩, fun q hq => (by cases hq), fun p hp => (by cases hp)⟩
  have hsilent : ∀ {P : Message → Prop} {ch : Channel}, ch.issued = [] → ch.queued_send = none → Says c P ch := by
    intro P ch hissued hqueued
    refine ⟨fun p hp => ?_, fun q hq => ?_⟩
    · rw [hissued] at hp
      cases hp
    · cases hqueued.symm.trans hq
  refine ⟨hstep.ok, hwaiting, ?_, ?_, hstep.speaks (hsilent rfl rfl), hsilent rfl rfl⟩
  · exact hstep.writes [] rfl
  · have hreads := hstep.reads
    unfold Flow
    rw [hreads]
    rfl

theorem Inv.parentConnect (h : Inv x s) (k : ℕ) (starts : Bool) : Inv x (s.parentConnect k starts) := by
  unfold State.parentConnect
  split
  · exact h
  rename_i c hc
  split
  · exact h
  rename_i hguard
  push Not at hguard
  obtain ⟨hidle, hlisted, hfree⟩ := hguard
  split
  · exact h.parentFail
  rename_i ch hreceive
  obtain ⟨hu, ho⟩ := h.parent.early (by rw [hidle]; exact ⟨nofun, nofun, nofun⟩)
  have hok := h.slots k c hc
  obtain ⟨⟨challenge, hserver⟩, hup, hdown⟩ := hok.fresh hfree
  have hquiet : Quiet s k := h.quiet hc (by rw [hserver]; nofun)
  refine h.change hc (fun _ => rfl) (fun j c' hj => ?_) (.running ho fun e => ?_) id (.inl hquiet)
  · obtain ⟨c₀, hc₀, ⟨rfl, rfl⟩ | ⟨hj, rfl⟩⟩ := modify_cases hj
    · cases hc.symm.trans hc₀
      refine ⟨nofun, fun _ => ⟨rfl, nofun, ?_⟩, nofun, fun q hq => ?_⟩
      · dsimp only
        rw [hserver, hup, hdown]
        exact pipe_new hreceive
      · have hnone := hok.peer q hq
        rw [hfree] at hnone
        cases hnone
    · have hok' := h.slots j _ hc₀
      exact ⟨hok'.fresh, fun hparent => absurd hidle (hok'.parent hparent).2.1, hok'.other, hok'.peer⟩
  · cases hu.symm.trans e

/-! ## Every run -/

theorem step_inv (h : Inv x s) (a : Act) : Inv x (step x s a) := by
  have hg := h.guardian
  cases a with
  | listen challenge => exact h.listen challenge
  | slotAdvance k report known starts => exact h.slotAdvance k report known starts
  | slotTimeout k =>
    show Inv x (s.slotTimeout k)
    unfold State.slotTimeout
    split
    · exact h
    split
    · exact h
    · exact h.disconnect k
  | handle authorized saved snapshot starts => exact h.handle authorized saved snapshot starts
  | ready bound starts => exact h.ready bound starts
  | expire =>
    show Inv x s.expire
    unfold State.expire
    split
    · exact h
    · exact h.flags rfl rfl rfl id h.original { hg with }
  | result => exact h.flags rfl rfl rfl id h.original ⟨nofun, hg.committed, hg.once, hg.commits⟩
  | guardianFail => exact h.crash
  | clientConnect k p => exact h.clientConnect k p
  | inject k bytes => exact h.inject k bytes
  | transferDown k count => exact h.transferDown k count
  | transferUp count => exact h.transferUp count
  | parentConnect k starts => exact h.parentConnect k starts
  | parentAdvance report starts => exact h.parentAdvance report starts
  | parentFail => exact h.parentFail

theorem run_inv (as : List Act) : Inv x (Runs.run (step x) init as) :=
  Runs.run_invariant (P := Inv x) (fun _ a h => step_inv h a) as inv_init

end StrixAlloy.Handoff

import StrixAlloy.Lib.Runs
import StrixAlloy.VoicePreview.Alias

/-!
# A preview's voice does not outlive its record

The calls come one after another, each in an environment of its own that may fail or stop any step, and the
server may act before each step. Since a stop can come before any step, what holds after every call holds at
every point.
-/

namespace StrixAlloy.VoicePreview

open Faulty Faulty.Prog List

variable {s0 s t : State} {o : Env} {x : Option Record} {c : Prop} {a : Name} {r : Request}

/-- What holds at every point of a run from `s0`. -/
structure Inv (s0 s : State) : Prop where
  /-- A preview's voice that is registered has its record. -/
  named : ∀ a ∈ s.registered, isPreview a → s.record = some ⟨1, a⟩
  /-- So has one whose registration waits. -/
  pending : ∀ r ∈ s.queue, r.registers → s.record = some ⟨1, r.name⟩
  queued : ∀ r ∈ s.queue, isPreview r.name
  own : ∀ y ∈ s.sent, isPreview y.1.name
  /-- When a registration was sent, no preview's voice was registered. -/
  apart : ∀ y ∈ s.sent, y.1.registers → ∀ a ∈ y.2, ¬isPreview a
  /-- The last request is answered after all others. -/
  answered : s.answer ≠ none → s.queue = []
  removed : ∀ a reply, s.answer = some (.delete a, reply) → reply.confirms → a ∉ s.registered
  down : s.up = false → s.registered = [] ∧ s.queue = []
  /-- The other voices are those of the start, until the server exits. -/
  others : (∀ a, ¬isPreview a → (a ∈ s.registered ↔ a ∈ s0.registered)) ∨ ∀ a ∈ s.registered, isPreview a

/-- No preview's voice is registered or waits to be. -/
def Clear (s : State) : Prop := (∀ a ∈ s.registered, ¬isPreview a) ∧ ∀ r ∈ s.queue, ¬r.registers

/-- What a program knows between two steps: the record, and whether no preview's voice is registered. -/
structure Knows (s0 : State) (x : Option Record) (c : Prop) (s : State) : Prop where
  inv : Inv s0 s
  record : s.record = x
  clear : c → Clear s

theorem Knows.weaken {c' : Prop} (h : Knows s0 x c s) (hc : c' → c) : Knows s0 x c' s :=
  ⟨h.inv, h.record, fun h' => h.clear (hc h')⟩

/-- Without a record there is no preview's voice. -/
theorem Inv.clear (h : Inv s0 s) (hrecord : s.record = none) : Clear s := by
  constructor
  · intro a ha hpreview
    have := (h.named a ha hpreview).symm.trans hrecord
    cases this
  · intro r hr hregisters
    have := (h.pending r hr hregisters).symm.trans hrecord
    cases this

/-! ## The server -/

theorem mem_effect {names : List Name} (h : a ∈ effect r names) : a ∈ names ∨ (r.registers ∧ a = r.name) := by
  cases r with
  | delete => exact .inl (mem_of_mem_filter h)
  | register =>
    rcases mem_cons.1 h with rfl | h
    · exact .inr ⟨rfl, rfl⟩
    · exact .inl (mem_of_mem_filter h)
  | speech => exact .inl h

theorem mem_effect_of_ne {names : List Name} (hne : a ≠ r.name) : a ∈ effect r names ↔ a ∈ names := by
  have hfilter : a ∈ names.filter (· ≠ r.name) ↔ a ∈ names := by
    rw [mem_filter, decide_eq_true_eq]
    exact and_iff_left hne
  cases r with
  | delete => exact hfilter
  | register => exact mem_cons.trans ((or_iff_right hne).trans hfilter)
  | speech => exact Iff.rfl

/-- A request that is handled without effect. -/
theorem Knows.drop {rest : List Request} {answer : Option (Request × Reply)} (h : Knows s0 x c s)
    (hq : s.queue = r :: rest) (hanswer : answer ≠ none → rest = [])
    (hremoved : ∀ a reply, answer = some (.delete a, reply) → ¬reply.confirms) :
    Knows s0 x c { s with queue := rest, answer := answer } := by
  have hmem : ∀ {r'}, r' ∈ rest → r' ∈ s.queue := fun h' => hq ▸ mem_cons_of_mem r h'
  refine ⟨⟨h.inv.named, fun r' hr' => h.inv.pending r' (hmem hr'), fun r' hr' => h.inv.queued r' (hmem hr'),
    h.inv.own, h.inv.apart, hanswer, fun a reply ha hc => absurd hc (hremoved a reply ha), fun hdown => ?_,
    h.inv.others⟩, h.record, fun hc => ⟨(h.clear hc).1, fun r' hr' => (h.clear hc).2 r' (hmem hr')⟩⟩
  have := hq.symm.trans (h.inv.down hdown).2
  cases this

/-- A request that takes effect. -/
theorem Knows.take {rest : List Request} {answer : Option (Request × Reply)} (h : Knows s0 x c s)
    (hq : s.queue = r :: rest) (hanswer : answer ≠ none → rest = []) (hof : ∀ r' reply, answer = some (r', reply) →
      r' = r) :
    Knows s0 x c { s with queue := rest, registered := effect r s.registered, answer := answer } := by
  have hr : r ∈ s.queue := hq ▸ mem_cons_self
  have hmem : ∀ {r'}, r' ∈ rest → r' ∈ s.queue := fun h' => hq ▸ mem_cons_of_mem r h'
  refine ⟨⟨fun a ha hpreview => ?_, fun r' hr' => h.inv.pending r' (hmem hr'),
    fun r' hr' => h.inv.queued r' (hmem hr'), h.inv.own, h.inv.apart, hanswer, fun a reply ha _ => ?_,
    fun hdown => ?_, ?_⟩, h.record, fun hc => ⟨fun a ha => ?_, fun r' hr' => (h.clear hc).2 r' (hmem hr')⟩⟩
  · rcases mem_effect ha with ha | ⟨hregisters, rfl⟩
    · exact h.inv.named a ha hpreview
    · exact h.inv.pending r hr hregisters
  · obtain rfl := hof _ _ ha
    intro hmem
    have := (mem_filter.1 hmem).2
    exact of_decide_eq_true this rfl
  · have := hq.symm.trans (h.inv.down hdown).2
    cases this
  · rcases h.inv.others with hothers | hothers
    · refine .inl fun a ha => ?_
      have hne : a ≠ r.name := by
        rintro rfl
        exact ha (h.inv.queued r hr)
      exact (mem_effect_of_ne hne).trans (hothers a ha)
    · refine .inr fun a ha => ?_
      rcases mem_effect ha with ha | ⟨-, rfl⟩
      · exact hothers a ha
      · exact h.inv.queued r hr
  · rcases mem_effect ha with ha | ⟨hregisters, rfl⟩
    · exact (h.clear hc).1 a ha
    · exact absurd hregisters ((h.clear hc).2 r hr)

theorem Knows.exit (h : Knows s0 x c s) (up : Bool) :
    Knows s0 x c { s with up := up, registered := [], queue := [], answer := none } :=
  ⟨⟨nofun, nofun, nofun, h.inv.own, h.inv.apart, fun hne => absurd rfl hne, nofun, fun _ => ⟨rfl, rfl⟩,
    .inr nofun⟩, h.record,
    fun _ => ⟨nofun, nofun⟩⟩

/-- Only the last request is answered. -/
theorem last_answer {rest : List Request} {y z : Request × Reply}
    (h : (if rest.isEmpty then some y else none) = some z) : rest = [] ∧ y = z := by
  split_ifs at h with hempty
  exact ⟨isEmpty_iff.1 hempty, Option.some.inj h⟩

/-- The server alone changes nothing that a program knows. -/
theorem Knows.move (h : Knows s0 x c s) (m : Move) : Knows s0 x c (move s m) := by
  cases m with
  | exits => exact h.exit false
  | starts =>
    unfold VoicePreview.move
    split_ifs
    · exact h
    · exact h.exit true
  | handles fate =>
    unfold VoicePreview.move
    cases hq : s.queue with
    | nil => exact h
    | cons =>
      cases fate with
      | lost =>
        have hnone : s.answer = none := by
          by_contra hne
          rw [h.inv.answered hne] at hq
          cases hq
        exact h.drop hq (fun hne => absurd hnone hne) fun a reply ha => by rw [hnone] at ha; cases ha
      | refused refusal =>
        refine h.drop hq (fun hne => (last_answer (Option.ne_none_iff_exists'.1 hne).choose_spec).1) ?_
        intro a reply ha
        obtain ⟨-, heq⟩ := last_answer ha
        cases heq
        exact refusal.not_confirms
      | done =>
        refine h.take hq (fun hne => (last_answer (Option.ne_none_iff_exists'.1 hne).choose_spec).1) ?_
        intro r' reply ha
        obtain ⟨-, heq⟩ := last_answer ha
        cases heq
        rfl

/-- A request goes into the queue. -/
theorem Knows.send (h : Knows s0 x c s) (hup : s.up) (hr : isPreview r.name)
    (hregister : r.registers → c ∧ x = some ⟨1, r.name⟩) :
    Knows s0 x (c ∧ ¬r.registers) (VoicePreview.send r s) := by
  have hqueue : ∀ {r'}, r' ∈ s.queue ++ [r] → r' ∈ s.queue ∨ r' = r := fun hmem =>
    (mem_append.1 hmem).imp id mem_singleton.1
  refine ⟨⟨h.inv.named, fun r' hr' hregisters => ?_, fun r' hr' => ?_, fun y hy => ?_, fun y hy hregisters => ?_,
    fun hne => absurd rfl hne, nofun, fun hdown => ?_, h.inv.others⟩, h.record,
    fun hc => ⟨(h.clear hc.1).1, fun r' hr' => ?_⟩⟩
  · rcases hqueue hr' with hmem | rfl
    · exact h.inv.pending r' hmem hregisters
    · exact h.record.trans (hregister hregisters).2
  · rcases hqueue hr' with hmem | rfl
    · exact h.inv.queued r' hmem
    · exact hr
  · rcases mem_append.1 hy with hmem | hmem
    · exact h.inv.own y hmem
    · obtain rfl := mem_singleton.1 hmem
      exact hr
  · rcases mem_append.1 hy with hmem | hmem
    · exact h.inv.apart y hmem hregisters
    · obtain rfl := mem_singleton.1 hmem
      exact (h.clear (hregister hregisters).1).1
  · have := hup.symm.trans hdown
    cases this
  · rcases hqueue hr' with hmem | rfl
    · exact (h.clear hc.1).2 r' hmem
    · exact hc.2

/-- The request that was sent last is the one that is answered. -/
def Awaits (r : Request) (s : State) : Prop :=
  (∀ r' ∈ s.queue.getLast?, r' = r) ∧ ∀ y ∈ s.answer, y.1 = r

theorem Awaits.move (h : Awaits r s) (m : Move) : Awaits r (move s m) := by
  cases m with
  | exits => exact ⟨nofun, nofun⟩
  | starts =>
    unfold VoicePreview.move
    split_ifs
    · exact h
    · exact ⟨nofun, nofun⟩
  | handles fate =>
    unfold VoicePreview.move
    cases hq : s.queue with
    | nil => exact h
    | cons r1 rest =>
      have hlast : ∀ r' ∈ rest.getLast?, r' = r := by
        intro r' hr'
        refine h.1 r' ?_
        rw [hq, List.getLast?_cons, Option.mem_def.1 hr']
        rfl
      have hone : rest = [] → r1 = r := by
        rintro rfl
        exact h.1 r1 (by rw [hq]; rfl)
      have hanswer : ∀ {reply : Reply}, ∀ y ∈ (if rest.isEmpty then some (r1, reply) else none), y.1 = r := by
        intro reply y hy
        obtain ⟨hnil, heq⟩ := last_answer hy
        cases heq
        exact hone hnil
      cases fate with
      | lost => exact ⟨hlast, h.2⟩
      | refused => exact ⟨hlast, hanswer⟩
      | done => exact ⟨hlast, hanswer⟩

theorem awaits_send (r : Request) (s : State) : Awaits r (send r s) := by
  refine ⟨fun r' hr' => ?_, nofun⟩
  rw [VoicePreview.send, List.getLast?_concat] at hr'
  exact (Option.some.inj hr').symm

/-! ## The steps of a program -/

/-- The demand that the invariant holds however a program ends, and `Q` where it returns. -/
def keeps {α : Type} (s0 : State) (Q : α → State → Prop) : Post State Error α :=
  ⟨Q, fun _ => Inv s0, Inv s0⟩

section

variable {α : Type} {e : Error} {R : Post State Error α} {K : State → Prop}

/-- A step: the server acts, and then it is done or not. -/
theorem op_ends {f : State → State} {P : Post State Error Unit} (hK : ∀ t m, K t → K (move t m)) (h : K s)
    (hd : ∀ t, K t → P.returned () (f t)) (he : ∀ t, K t → P.raised e t) (hl : ∀ t, K t → P.raised e (f t))
    (hs : ∀ t, K t → P.stopped t) : Ends o s (op e f) P := by
  refine Ends.answer fun n => Ends.bind (Ends.modify ?_)
  have hmoved : ∀ (ms : List Move) (t : State), K t → K (ms.foldl move t) := by
    intro ms
    induction ms with
    | nil => exact fun t ht => ht
    | cons m ms ih => exact fun t ht => ih _ (hK t m ht)
  have hmoved := hmoved (Env.moves o n) s h
  exact Ends.step (hd _ hmoved) (fun _ => he _ hmoved) (fun _ => hl _ hmoved) fun _ => hs _ hmoved

/-- A step without effect. -/
theorem op_bind {f : Unit → Studio α} (hK : ∀ t m, K t → K (move t m)) (h : K s)
    (hk : ∀ t, K t → Ends o t (f ()) R) (he : ∀ t, K t → R.raised e t) (hs : ∀ t, K t → R.stopped t) :
    Ends o s (op e id >>= f) R :=
  Ends.bind (op_ends hK h hk he he hs)

/-- A step without effect, where a program knows something. -/
theorem Knows.op {f : Unit → Studio α} (h : Knows s0 x c s) (hk : ∀ t, Knows s0 x c t → Ends o t (f ()) R)
    (he : ∀ t, Knows s0 x c t → R.raised e t) (hs : ∀ t, Knows s0 x c t → R.stopped t) :
    Ends o s (op e id >>= f) R :=
  op_bind (fun _ m ht => ht.move m) h hk he hs

end

/-- A request: what is answered was handled after everything that was sent before it. -/
theorem exchange_ends (h : Knows s0 x c s) (hr : isPreview r.name)
    (hregister : r.registers → c ∧ x = some ⟨1, r.name⟩) :
    Ends o s (exchange r) ⟨fun reply t => Knows s0 x (c ∧ ¬r.registers) t ∧ t.answer = some (r, reply),
      fun _ => Knows s0 x (c ∧ ¬r.registers), Knows s0 x (c ∧ ¬r.registers)⟩ := by
  have hweak : ∀ t, Knows s0 x c t → Knows s0 x (c ∧ ¬r.registers) t := fun t ht => ht.weaken And.left
  refine h.op (fun t ht => Ends.look (Ends.guard (hweak t ht) fun hup => ?_)) hweak hweak
  refine Ends.bind (Ends.modify ?_)
  refine op_bind (K := fun t => Knows s0 x (c ∧ ¬r.registers) t ∧ Awaits r t)
    (fun _ m ht => ⟨ht.1.move m, ht.2.move m⟩) ⟨ht.send hup hr hregister, awaits_send r t⟩ ?_ (fun _ ht => ht.1)
    fun _ ht => ht.1
  rintro u ⟨hu, hawaits⟩
  refine Ends.look ?_
  cases hanswer : u.answer with
  | none => exact Ends.raise hu
  | some y =>
    obtain ⟨r', reply⟩ := y
    obtain rfl : r' = r := hawaits.2 _ hanswer
    exact Ends.pure ⟨hu, hanswer⟩

/-- Where a removal returns, no name waits any more, and this one is not registered. -/
theorem remove_ends (h : Knows s0 x c s) (ha : isPreview a) : Ends o s (removePreviewAlias a)
    ⟨fun _ t => Knows s0 x c t ∧ a ∉ t.registered ∧ t.queue = [], fun _ => Knows s0 x c, Knows s0 x c⟩ := by
  have hand : ∀ {t}, Knows s0 x (c ∧ ¬(Request.delete a).registers) t → Knows s0 x c t := fun ht =>
    ht.weaken fun hc => ⟨hc, nofun⟩
  refine Ends.seq (exchange_ends h ha nofun) ?_ (fun _ _ ht => hand ht) fun _ ht => hand ht
  rintro reply t ⟨ht, hanswer⟩
  have hdone : reply.confirms → Knows s0 x c t ∧ a ∉ t.registered ∧ t.queue = [] := fun hc =>
    ⟨hand ht, ht.inv.removed a reply hanswer hc, ht.inv.answered (by rw [hanswer]; nofun)⟩
  have hrest : Ends o t
      (if reply = ⟨200, .deleted⟩ then return true
        else if reply = ⟨404, .absent⟩ then return false
        else raise (.runtime "Native voice removal is unavailable") : Studio Bool)
      ⟨fun _ t => Knows s0 x c t ∧ a ∉ t.registered ∧ t.queue = [], fun _ => Knows s0 x c, Knows s0 x c⟩ := by
    split_ifs with hdeleted habsent
    · exact Ends.pure (hdone (.inl hdeleted))
    · exact Ends.pure (hdone (.inr habsent))
    · exact Ends.raise (hand ht)
  split
  · exact Ends.raise (hand ht)
  · exact hrest

/-- Nothing is left of the preview that the record names. -/
theorem clear_of_removed (h : Knows s0 (some ⟨1, a⟩) c s) (ha : a ∉ s.registered) (hq : s.queue = []) :
    Knows s0 (some ⟨1, a⟩) True s := by
  refine ⟨h.inv, h.record, fun _ => ⟨fun b hb hpreview => ?_, ?_⟩⟩
  · have hnamed := (h.inv.named b hb hpreview).symm.trans h.record
    cases hnamed
    exact ha hb
  · rw [hq]
    nofun

/-- The record goes when nothing is left. -/
theorem Knows.write (h : Knows s0 x True s) (x' : Option Record) :
    Knows s0 x' True { s with record := x' } := by
  obtain ⟨hregistered, hqueue⟩ := h.clear trivial
  exact ⟨⟨fun b hb hpreview => absurd hpreview (hregistered b hb), fun r hr hregisters =>
    absurd hregisters (hqueue r hr), h.inv.queued, h.inv.own, h.inv.apart, h.inv.answered, h.inv.removed,
    h.inv.down, h.inv.others⟩, rfl, fun _ => ⟨hregistered, hqueue⟩⟩

theorem unlink_ends (h : Knows s0 x True s) : Ends o s unlink (keeps s0 fun _ => Knows s0 none True) :=
  op_ends (fun _ m ht => ht.move m) h (fun _ ht => ht.write none) (fun _ ht => ht.inv)
    (fun _ ht => (ht.write none).inv) fun _ ht => ht.inv

/-- What an interrupted preview left is removed, or the record stays. -/
theorem recover_ends (h : Inv s0 s) :
    Ends o s recoverPreviewAlias (keeps s0 fun _ => Knows s0 none True) := by
  have hknows : Knows s0 s.record False s := ⟨h, rfl, False.elim⟩
  refine hknows.op (fun t ht => Ends.look ?_) (fun _ ht => ht.inv) fun _ ht => ht.inv
  cases hrecord : t.record with
  | none => exact Ends.pure ⟨ht.inv, hrecord, fun _ => ht.inv.clear hrecord⟩
  | some record =>
    have ht : Knows s0 (some record) False t := ⟨ht.inv, hrecord, False.elim⟩
    refine Ends.attempt ?_
    refine ht.op (fun u hu => Ends.guard (Ends.raise hu.inv) ?_) (fun _ hu => Ends.raise hu.inv) fun _ hu => hu.inv
    rintro ⟨hversion, hpreview⟩
    obtain ⟨version, a⟩ := record
    obtain rfl : version = 1 := hversion
    refine Ends.seq (remove_ends hu hpreview) ?_ (fun _ _ ht => Ends.raise ht.inv) fun _ ht => ht.inv
    rintro _ v ⟨hv, hgone, hqueue⟩
    exact Ends.mono (unlink_ends (clear_of_removed hv hgone hqueue)) (fun _ _ hw => hw) (fun _ _ hw => Ends.raise hw)
      fun _ hw => hw

/-! ## The programs -/

theorem isPreview_aliasName (token : Token) : isPreview token.aliasName := by
  have htake : token.aliasName.take 12 = aliasHead := take_left' rfl
  have hdrop : token.aliasName.drop 12 = token.digits := drop_left' rfl
  rw [isPreview, htake, hdrop, token.length_digits, token.hex]
  rfl

/-- Whatever becomes of a preview's requests, the record names its voice. -/
theorem speak_ends {reference : Reference} {text : String} (h : Knows s0 (some ⟨1, a⟩) True s) (ha : isPreview a) :
    Ends o s (speak a reference text) (Post.always (Knows s0 (some ⟨1, a⟩) False)) := by
  have hweak : ∀ {c : Prop} {t}, Knows s0 (some ⟨1, a⟩) c t → Knows s0 (some ⟨1, a⟩) False t := fun ht =>
    ht.weaken False.elim
  refine h.op (fun t ht => ?_) (fun _ ht => hweak ht) fun _ ht => hweak ht
  refine Ends.seq (exchange_ends ht ha fun _ => ⟨trivial, rfl⟩) ?_
    (fun _ _ ht => hweak ht) fun _ ht => hweak ht
  rintro reply u ⟨hu, -⟩
  have hrest : Ends o u
      (do
        require (reply = ⟨200, .registered a⟩) (.runtime "Native preview registration was rejected")
        op .denied id
        let reply ← exchange (.speech a text)
        require (reply.status = 200) (.runtime "Native preview synthesis failed")
        return reply.raw : Studio Raw)
      (Post.always (Knows s0 (some ⟨1, a⟩) False)) := by
    refine Ends.guard (hweak hu) fun _ => hu.op (fun v hv => ?_) (fun _ hv => hweak hv) fun _ hv => hweak hv
    refine Ends.seq (exchange_ends hv ha nofun) ?_ (fun _ _ hw => hweak hw)
      fun _ hw => hweak hw
    rintro reply w ⟨hw, -⟩
    exact Ends.guard (hweak hw) fun _ => Ends.pure (hweak hw)
  split
  · exact Ends.raise (hweak hu)
  · exact hrest

/-- The final clause removes the voice and then the record, or leaves both. -/
theorem discard_ends (h : Knows s0 (some ⟨1, a⟩) False s) (ha : isPreview a) :
    Ends o s (discard a) (keeps s0 fun _ => Knows s0 none True) := by
  refine Ends.attempt ?_
  refine Ends.seq (P := ⟨fun _ t => Knows s0 (some ⟨1, a⟩) False t ∧ a ∉ t.registered ∧ t.queue = [],
    fun _ => Inv s0, Inv s0⟩) ?_ ?_ (fun _ _ ht => Ends.raise ht) fun _ ht => ht
  · refine Ends.attempt (Ends.mono (remove_ends h ha) (fun _ _ ht => ht) (fun _ t ht => ?_) fun _ ht => ht.inv)
    exact Ends.mono (remove_ends ht ha) (fun _ _ hu => hu) (fun _ _ hu => hu.inv) fun _ hu => hu.inv
  · rintro _ t ⟨ht, hgone, hqueue⟩
    exact Ends.mono (unlink_ends (clear_of_removed ht hgone hqueue)) (fun _ _ hu => hu) (fun _ _ hu => Ends.raise hu)
      fun _ hu => hu

/-- A preview that returns leaves neither the voice nor the record. -/
theorem nativeProfilePreview_ends (reference_text text : String) (h : Inv s0 s) :
    Ends o s (nativeProfilePreview reference_text text) (keeps s0 fun _ => Knows s0 none True) := by
  have hknows : Knows s0 s.record False s := ⟨h, rfl, False.elim⟩
  refine hknows.op (fun t ht => ?_) (fun _ ht => ht.inv) fun _ ht => ht.inv
  refine Ends.seq (recover_ends ht.inv) (fun _ t ht => ?_) (fun _ _ ht => ht) fun _ ht => ht
  refine Ends.answer fun _ => Ends.guard ht.inv fun _ => Ends.answer fun n => ?_
  have ha := isPreview_aliasName (Env.token o n)
  refine Ends.seq (remove_ends ht ha) ?_ (fun _ _ ht => ht.inv) fun _ ht => ht.inv
  rintro collision t ⟨ht, -, -⟩
  cases collision with
  | true => exact Ends.raise ht.inv
  | false =>
    refine ht.op (fun t ht => Ends.answer fun _ => ?_) (fun _ ht => ht.inv) fun _ ht => ht.inv
    refine ht.op (fun t ht => ?_) (fun _ ht => ht.inv) fun _ ht => ht.inv
    refine Ends.bind (op_ends (fun _ m ht => ht.move m) ht (fun t ht => ?_)
      (fun _ ht => ht.inv) (fun _ ht => (ht.write _).inv) fun _ ht => ht.inv)
    refine Ends.ensure (Ends.mono (speak_ends (ht.write _) ha) ?_ ?_ fun _ hu => hu.inv)
    · exact fun _ u hu => discard_ends hu ha
    · exact fun _ u hu => Ends.mono (discard_ends hu ha) (fun _ _ hv => hv.inv) (fun _ _ hv => hv) fun _ hv => hv

/-- The retention cleanup removes the voice with the record, or leaves both. A server that does not run has no
voices. -/
theorem cleanup_ends (h : Inv s0 s) : Ends o s cleanupPreviewAlias (keeps s0 fun _ => Inv s0) := by
  have hknows : ∀ {t}, Inv s0 t → Knows s0 t.record False t := fun ht => ⟨ht, rfl, False.elim⟩
  refine (hknows h).op (fun t ht => Ends.look ?_) (fun _ ht => ht.inv) fun _ ht => ht.inv
  cases t.record with
  | none => exact Ends.pure ht.inv
  | some record =>
    refine Ends.seq ?_ ?_ (fun _ _ hu => hu) fun _ hu => hu
    · exact ht.op (fun u hu => Ends.answer fun _ => Ends.require (fun _ => hu.inv) fun _ => hu.inv)
        (fun _ hu => hu.inv) fun _ hu => hu.inv
    · intro _ u hu
      refine Ends.look ?_
      cases hup : u.up with
      | true =>
        refine (hknows hu).op (fun v hv => Ends.guard hv.inv fun _ => ?_) (fun _ hv => hv.inv) fun _ hv => hv.inv
        refine Ends.attempt (Ends.mono (recover_ends hv.inv) (fun _ _ hw => hw.inv) (fun e w hw => ?_) fun _ hw => hw)
        show Ends o w (if e = .cleanup_failed then raise (.deferred "preview_cleanup_failed") else raise e) _
        split_ifs
        · exact Ends.raise hw
        · exact Ends.raise hw
      | false =>
        obtain ⟨hregistered, hqueue⟩ := hu.down hup
        have hclear : Knows s0 u.record True u := ⟨hu, rfl, fun _ => ⟨by rw [hregistered]; nofun,
          by rw [hqueue]; nofun⟩⟩
        refine hclear.op (fun v hv => Ends.guard hv.inv fun _ => ?_) (fun _ hv => hv.inv) fun _ hv => hv.inv
        exact Ends.mono (unlink_ends hv) (fun _ _ hw => hw.inv) (fun _ _ hw => hw) fun _ hw => hw

/-! ## Runs -/

inductive Call where
  | preview (reference_text text : String)
  | recover
  | cleanup

def Call.run : Call → Studio Unit
  | .preview reference_text text => do
    let _ ← nativeProfilePreview reference_text text
  | .recover => recoverPreviewAlias
  | .cleanup => cleanupPreviewAlias

/-- One call, however it ends. -/
def step (s : State) (call : Call × Env) : State := (call.1.run call.2 0 s).2.2

/-- No preview was made yet. -/
structure Start (s : State) : Prop where
  registered : ∀ a ∈ s.registered, ¬isPreview a
  queue : s.queue = []
  answer : s.answer = none
  sent : s.sent = []
  down : s.up = false → s.registered = []

theorem Start.inv (h : Start s) : Inv s s where
  named a ha hpreview := absurd hpreview (h.registered a ha)
  pending r hr := by rw [h.queue] at hr; cases hr
  queued r hr := by rw [h.queue] at hr; cases hr
  own y hy := by rw [h.sent] at hy; cases hy
  apart y hy := by rw [h.sent] at hy; cases hy
  answered hne := absurd h.answer hne
  removed a reply ha := by rw [h.answer] at ha; cases ha
  down hdown := ⟨h.down hdown, h.queue⟩
  others := .inl fun _ _ => Iff.rfl

theorem step_inv (h : Inv s0 s) (call : Call × Env) : Inv s0 (step s call) := by
  obtain ⟨call, o⟩ := call
  have hends : Ends o s call.run (Post.always (Inv s0)) := by
    cases call with
    | preview reference_text text =>
      refine Ends.seq (nativeProfilePreview_ends reference_text text h) (fun _ _ ht => Ends.pure ht.inv)
        (fun _ _ ht => ht) fun _ ht => ht
    | recover => exact Ends.mono (recover_ends h) (fun _ _ ht => ht.inv) (fun _ _ ht => ht) fun _ ht => ht
    | cleanup => exact cleanup_ends h
  have hholds := hends 0
  unfold step
  generalize call.run o 0 s = r at hholds ⊢
  obtain ⟨_ | _ | _, n, t⟩ := r <;> exact hholds

/-- After any previews, recoveries and cleanups, each of which may have raised or stopped anywhere, with any of
their requests lost, refused or answered otherwise: at most one preview's voice is registered, and the record
names it; a registration was sent only when none was; no other voice was registered or removed; and a preview
that returns leaves neither the voice nor the record. -/
theorem preview_alias_recorded (h0 : Start s0) (calls : List (Call × Env)) :
    let t := Runs.run step s0 calls
    (∀ a ∈ t.registered, isPreview a → t.record = some ⟨1, a⟩ ∧ ∀ b ∈ t.registered, isPreview b → b = a) ∧
    (∀ y ∈ t.sent, isPreview y.1.name ∧ (y.1.registers → ∀ a ∈ y.2, ¬isPreview a)) ∧
    ((∀ a, ¬isPreview a → (a ∈ t.registered ↔ a ∈ s0.registered)) ∨ ∀ a ∈ t.registered, isPreview a) ∧
    ∀ o reference_text text pcm n u, nativeProfilePreview reference_text text o 0 t = (.returned pcm, n, u) →
      u.record = none ∧ (∀ a ∈ u.registered, ¬isPreview a) ∧ ∀ r ∈ u.queue, ¬r.registers := by
  intro t
  have h : Inv s0 t := Runs.run_invariant (P := Inv s0) (fun _ call h => step_inv h call) calls h0.inv
  refine ⟨fun a ha hpreview => ⟨h.named a ha hpreview, fun b hb hb' => ?_⟩,
    fun y hy => ⟨h.own y hy, h.apart y hy⟩, h.others, ?_⟩
  · have := (h.named b hb hb').symm.trans (h.named a ha hpreview)
    cases this
    rfl
  · intro o reference_text text pcm n u heq
    have hends := nativeProfilePreview_ends (o := o) reference_text text h 0
    rw [heq] at hends
    exact ⟨hends.record, hends.clear trivial⟩

/-- A server with the voice of the product. -/
def sampleState : State where
  up := true
  registered := ["scc-native".toList]
  queue := []
  answer := none
  record := none
  sent := []

def sampleToken : Token := ⟨List.replicate 32 '0', rfl, by decide⟩

/-- The server answers every request at once, and the process is stopped at one step. -/
def sampleEnv (stop : ℕ) : Env where
  moves _ := [.handles (.done [] none)]
  fault n := if n = stop then .stops else .quiet
  token _ := sampleToken
  wav _ := []
  available _ := 32 * 1024 ^ 3
  idle _ := true

/-- A preview that is stopped behind its registration leaves the voice and the record; the next cleanup removes
them. -/
theorem preview_alias_recorded_sample :
    let t := step sampleState (.preview "" "", sampleEnv 22)
    sampleToken.aliasName ∈ t.registered ∧ t.record = some ⟨1, sampleToken.aliasName⟩ ∧
      (step t (.cleanup, sampleEnv 1000)).registered = ["scc-native".toList] := by
  have hstart : Start sampleState := ⟨by decide, rfl, rfl, rfl, nofun⟩
  have hmem : sampleToken.aliasName ∈ (step sampleState (.preview "" "", sampleEnv 22)).registered := by
    decide +kernel
  refine ⟨hmem, ?_, by decide +kernel⟩
  exact ((preview_alias_recorded hstart [(.preview "" "", sampleEnv 22)]).1 _ hmem
    (isPreview_aliasName sampleToken)).1

end StrixAlloy.VoicePreview

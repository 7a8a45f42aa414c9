import StrixAlloy.OutputArbiter.Arbiter

/-!
# The queue of the arbiter

`Sound` says what holds between any two steps: the queue is short and in order, its entries are not started, and an
entry that is neither queued nor active has no future that someone still waits for. Each way in which an entry leaves
the queue is one of a few changes (`Sound.remove`, `Sound.claim`, `Sound.release`), and each of them is shown to keep
`Sound` once.
-/

namespace StrixAlloy.OutputArbiter

open scoped List

variable {γ : Type}

/-- What is spoken before: the smaller priority, and of one priority what arrived before. -/
def Before (entries : ℕ → Entry) (i j : ℕ) : Prop :=
  (entries i).event.priority < (entries j).event.priority ∨
    (entries i).event.priority = (entries j).event.priority ∧ i < j

/-- The entry has left the queue. -/
def SpeakPc.claimed : SpeakPc → Bool
  | .transcript => true
  | .synthesis => true
  | .full _ => true
  | .closing => true
  | .last => true
  | _ => false

/-- The entry was not yet handed to the synthesis. -/
def SpeakPc.silent : SpeakPc → Bool
  | .begin => true
  | .draining => true
  | .transcript => true
  | _ => false

/-- Where the worker has an active entry. -/
def WorkerPc.busy : WorkerPc → Bool
  | .speaking => true
  | .errorTranscript => true
  | _ => false

structure Sound (entries : ℕ → Entry) (next : ℕ) (pending : List ℕ) (active : Option Task)
    (active_entry : Option ℕ) (worker : WorkerPc) (said : List ℕ) : Prop where
  bound : pending.length ≤ 8
  ordered : pending.Pairwise (Before entries)
  fresh : ∀ i ∈ pending, i < next
  waiting : ∀ i ∈ pending, (entries i).started = false
  resolved : ∀ i < next, i ∉ pending → active_entry ≠ some i → (entries i).completion ≠ some false
  joint : active.map Task.entry = active_entry
  made : ∀ i ∈ active_entry, i < next
  busy : worker.busy = active_entry.isSome
  claimed : ∀ t ∈ active, t.pc.claimed → (entries t.entry).started
  once : said.Nodup
  said_started : ∀ i ∈ said, i < next ∧ (entries i).started
  said_active : ∀ t ∈ active, t.pc.silent → t.entry ∉ said

/-- An entry changes without being started, and its future does not become open. -/
structure Gentle (e e' : Entry) : Prop where
  event : e'.event = e.event
  started : e'.started = e.started
  completion : e'.completion = some false → e.completion = some false

theorem Gentle.refl (e : Entry) : Gentle e e := ⟨rfl, rfl, id⟩

theorem complete_ne (e : Entry) : e.complete.completion ≠ some false := by
  unfold Entry.complete
  cases e.completion with
  | none => exact nofun
  | some => exact nofun

theorem gentle_complete (e : Entry) : Gentle e e.complete := ⟨rfl, rfl, fun h => absurd h (complete_ne e)⟩

variable {entries entries' : ℕ → Entry} {next : ℕ} {pending pending' said : List ℕ} {active : Option Task}
  {active_entry : Option ℕ} {worker : WorkerPc}

theorem Before.trans {i j k : ℕ} (h : Before entries i j) (h' : Before entries j k) : Before entries i k := by
  unfold Before at h h' ⊢
  omega

theorem Before.ne {i j : ℕ} (h : Before entries i j) : i ≠ j := by
  rintro rfl
  unfold Before at h
  omega

/-- An insertion keeps an order that agrees with its test. -/
theorem pairwise_orderedInsert {R r : ℕ → ℕ → Prop} [DecidableRel r] [IsTrans ℕ R] {i : ℕ} {l : List ℕ}
    (h : l.Pairwise R) (hi : ∀ j ∈ l, (r i j → R i j) ∧ (¬ r i j → R j i)) : (l.orderedInsert r i).Pairwise R := by
  induction l with
  | nil => exact List.pairwise_singleton _ _
  | cons j l ih =>
    obtain ⟨hj, hl⟩ := List.pairwise_cons.1 h
    have hhead := hi j (List.mem_cons_self ..)
    rw [List.orderedInsert]
    split_ifs with hr
    · refine List.pairwise_cons.2 ⟨fun k hk => ?_, h⟩
      obtain rfl | hk := List.mem_cons.1 hk
      · exact hhead.1 hr
      · exact IsTrans.trans _ _ _ (hhead.1 hr) (hj k hk)
    · refine List.pairwise_cons.2 ⟨fun k hk => ?_, ih hl fun k hk => hi k (List.mem_cons_of_mem _ hk)⟩
      obtain rfl | hk := (List.mem_orderedInsert r).1 hk
      · exact hhead.2 hr
      · exact hj k hk

instance : IsTrans ℕ (Before entries) := ⟨fun _ _ _ => Before.trans⟩

namespace Sound

section

variable (h : Sound entries next pending active active_entry worker said)
include h

theorem nodup : pending.Nodup := h.ordered.imp Before.ne

/-- Entries change, but none starts. -/
theorem entries_of (hg : ∀ i < next, Gentle (entries i) (entries' i)) :
    Sound entries' next pending active active_entry worker said where
  __ := h
  ordered := by
    refine h.ordered.imp_of_mem fun {i j} hi hj hb => ?_
    unfold Before at hb ⊢
    rw [(hg i (h.fresh i hi)).event, (hg j (h.fresh j hj)).event]
    exact hb
  waiting := fun i hi => (hg i (h.fresh i hi)).started.trans (h.waiting i hi)
  resolved := fun i hi hp ha hc => h.resolved i hi hp ha ((hg i hi).completion hc)
  claimed := by
    intro t ht hc
    have hlt := h.made t.entry (by rw [← h.joint, ht]; rfl)
    rw [(hg _ hlt).started]
    exact h.claimed t ht hc
  said_started := fun i hi => ⟨(h.said_started i hi).1, by
    rw [(hg i (h.said_started i hi).1).started]
    exact (h.said_started i hi).2⟩

/-- Entries leave the queue; those that do are resolved. -/
theorem remove (hsub : pending' <+ pending)
    (hgone : ∀ i ∈ pending, i ∉ pending' → (entries i).completion ≠ some false) :
    Sound entries next pending' active active_entry worker said where
  __ := h
  bound := Nat.le_trans hsub.length_le h.bound
  ordered := h.ordered.sublist hsub
  fresh := fun i hi => h.fresh i (hsub.subset hi)
  waiting := fun i hi => h.waiting i (hsub.subset hi)
  resolved := by
    intro i hi hp ha
    by_cases hin : i ∈ pending
    · exact hgone i hin hp
    · exact h.resolved i hi hin ha

/-- Queued entries are resolved and leave the queue. -/
theorem discard (p : ℕ → Bool) {f : Entry → Entry} (hf : ∀ e, Gentle e (f e))
    (hc : ∀ e, (f e).completion ≠ some false) :
    Sound (fun i => if i ∈ pending.filter p then f (entries i) else entries i) next (pending.filter fun i => !p i)
      active active_entry worker said := by
  refine (h.entries_of fun j _ => ?_).remove List.filter_sublist fun j hj hout => ?_
  · split_ifs
    · exact hf _
    · exact Gentle.refl _
  · have hp : p j := by
      by_contra hp
      exact hout (List.mem_filter.2 ⟨hj, by rw [Bool.eq_false_iff.2 hp]; rfl⟩)
    rw [if_pos (List.mem_filter.2 ⟨hj, hp⟩)]
    exact hc _

/-- A new entry that is not queued has no open future. -/
theorem grow (hnew : (entries next).completion ≠ some false) :
    Sound entries (next + 1) pending active active_entry worker said where
  __ := h
  fresh := fun i hi => Nat.lt_succ_of_lt (h.fresh i hi)
  resolved := by
    intro i hi hp ha
    obtain hlt | rfl := Nat.lt_succ_iff_lt_or_eq.1 hi
    · exact h.resolved i hlt hp ha
    · exact hnew
  made := fun i hi => Nat.lt_succ_of_lt (h.made i hi)
  said_started := fun i hi => ⟨Nat.lt_succ_of_lt (h.said_started i hi).1, (h.said_started i hi).2⟩

/-- A new entry is queued behind those of its priority. -/
theorem enqueue (hroom : pending.length < 8) (hnew : (entries next).started = false) :
    Sound entries (next + 1)
      ((pending ++ [next]).insertionSort fun i j => (entries i).event.priority ≤ (entries j).event.priority) active
      active_entry worker said := by
  set r : ℕ → ℕ → Prop := fun i j => (entries i).event.priority ≤ (entries j).event.priority with hr
  have hperm : (pending ++ [next]).insertionSort r ~ pending ++ [next] := List.perm_insertionSort r _
  have hsorted : ∀ l : List ℕ, l.Pairwise (Before entries) → (∀ i ∈ l, i < next) →
      ((l ++ [next]).insertionSort r).Pairwise (Before entries) := by
    intro l
    induction l with
    | nil => exact fun _ _ => List.pairwise_singleton _ _
    | cons i l ih =>
      intro hp hlt
      obtain ⟨hi, hl⟩ := List.pairwise_cons.1 hp
      refine pairwise_orderedInsert (ih hl fun j hj => hlt j (List.mem_cons_of_mem _ hj)) fun j hj => ?_
      obtain hj | hj := List.mem_append.1 ((List.perm_insertionSort r _).subset hj)
      · have hb := hi j hj
        refine ⟨fun _ => hb, fun hn => absurd ?_ hn⟩
        unfold Before at hb
        rw [hr]
        omega
      · rw [List.mem_singleton.1 hj, hr]
        have hlti := hlt i (List.mem_cons_self ..)
        unfold Before
        constructor
        · intro hle
          omega
        · intro hn
          omega
  constructor
  · rw [hperm.length_eq, List.length_append]
    exact hroom
  · exact hsorted pending h.ordered h.fresh
  · intro i hi
    obtain hi | hi := List.mem_append.1 (hperm.subset hi)
    · exact Nat.lt_succ_of_lt (h.fresh i hi)
    · rw [List.mem_singleton.1 hi]
      exact Nat.lt_succ_self _
  · intro i hi
    obtain hi | hi := List.mem_append.1 (hperm.subset hi)
    · exact h.waiting i hi
    · rw [List.mem_singleton.1 hi]
      exact hnew
  · intro i hi hp ha
    have hout : i ∉ pending ++ [next] := fun hin => hp (hperm.symm.subset hin)
    obtain hlt | rfl := Nat.lt_succ_iff_lt_or_eq.1 hi
    · exact h.resolved i hlt (fun hin => hout (List.mem_append_left _ hin)) ha
    · exact absurd (List.mem_append_right _ (List.mem_singleton.2 rfl)) hout
  · exact h.joint
  · exact fun i hi => Nat.lt_succ_of_lt (h.made i hi)
  · exact h.busy
  · exact h.claimed
  · exact h.once
  · exact fun i hi => ⟨Nat.lt_succ_of_lt (h.said_started i hi).1, (h.said_started i hi).2⟩
  · exact h.said_active

/-- No entry is active, and the worker does not wait for one. -/
theorem rest (hactive : active_entry = none) {w : WorkerPc} (hw : w.busy = false) :
    Sound entries next pending active active_entry w said :=
  { h with busy := by rw [hw, hactive]; rfl }

/-- A queued entry becomes the active one. -/
theorem activate (hactive : active_entry = none) {i : ℕ} (hi : i ∈ pending) :
    Sound entries next pending (some ⟨i, .begin, false⟩) (some i) .speaking said where
  __ := h
  resolved := fun j hj hp _ => h.resolved j hj hp (by rw [hactive]; exact nofun)
  joint := rfl
  made := by
    rintro j ⟨⟩
    exact h.fresh i hi
  busy := rfl
  claimed := by
    rintro t ⟨⟩ hc
    cases hc
  said_active := by
    rintro t ⟨⟩ - hin
    have hs := (h.said_started i hin).2
    rw [h.waiting i hi] at hs
    cases hs

/-- The active entry is let go: it is queued still, or resolved. -/
theorem release {i : ℕ} (hi : active_entry = some i) (hgone : i ∉ pending → (entries i).completion ≠ some false)
    {w : WorkerPc} (hw : w.busy = false) : Sound entries next pending none none w said where
  __ := h
  resolved := by
    intro j hj hp _
    by_cases he : j = i
    · rw [he]
      exact hgone (he ▸ hp)
    · exact h.resolved j hj hp (by rw [hi]; exact fun e => he (Option.some.inj e).symm)
  joint := rfl
  made := nofun
  busy := hw
  claimed := nofun
  said_active := nofun

variable {t : Task} (ht : active = some t)
include ht

theorem entry_eq : active_entry = some t.entry := by rw [← h.joint, ht]; rfl

/-- The task that speaks goes on. -/
theorem setPc {pc : SpeakPc} {c : Bool} (hc : pc.claimed → (entries t.entry).started)
    (hs : pc.silent → t.entry ∉ said) :
    Sound entries next pending (some ⟨t.entry, pc, c⟩) active_entry worker said where
  __ := h
  joint := (h.entry_eq ht).symm
  claimed := by
    rintro u ⟨⟩
    exact hc
  said_active := by
    rintro u ⟨⟩
    exact hs

/-- The active entry leaves the queue to be spoken. -/
theorem claim (hs : t.pc.silent)
    (hg : ∀ i < next, i ≠ t.entry → Gentle (entries i) (entries' i))
    (hevent : (entries' t.entry).event = (entries t.entry).event) (hstart : (entries' t.entry).started) :
    Sound entries' next (pending.erase t.entry) (some ⟨t.entry, .transcript, false⟩) active_entry worker said := by
  have hne : ∀ i ∈ pending.erase t.entry, i ∈ pending ∧ i ≠ t.entry := fun i hin =>
    ⟨List.mem_of_mem_erase hin, ((List.Nodup.mem_erase_iff h.nodup).1 hin).1⟩
  have hevents : ∀ i ∈ pending, (entries' i).event = (entries i).event := by
    intro i hin
    by_cases he : i = t.entry
    · rw [he]
      exact hevent
    · exact (hg i (h.fresh i hin) he).event
  have hmade := h.made t.entry (h.entry_eq ht)
  constructor
  · exact Nat.le_trans (List.length_erase_le) h.bound
  · refine (h.ordered.sublist List.erase_sublist).imp_of_mem fun {i j} hi hj hb => ?_
    unfold Before at hb ⊢
    rw [hevents i (hne i hi).1, hevents j (hne j hj).1]
    exact hb
  · exact fun i hin => h.fresh i (hne i hin).1
  · intro i hin
    obtain ⟨hp, he⟩ := hne i hin
    rw [(hg i (h.fresh i hp) he).started]
    exact h.waiting i hp
  · intro i hlt hout ha
    have he : i ≠ t.entry := by
      rintro rfl
      exact ha (h.entry_eq ht)
    have hp : i ∉ pending := fun hin => hout ((List.Nodup.mem_erase_iff h.nodup).2 ⟨he, hin⟩)
    exact fun hc => h.resolved i hlt hp ha ((hg i hlt he).completion hc)
  · exact (h.entry_eq ht).symm
  · exact h.made
  · exact h.busy
  · rintro u ⟨⟩ -
    exact hstart
  · exact h.once
  · intro i hin
    obtain ⟨hlt, hst⟩ := h.said_started i hin
    refine ⟨hlt, ?_⟩
    by_cases he : i = t.entry
    · rw [he]
      exact hstart
    · rw [(hg i hlt he).started]
      exact hst
  · rintro u ⟨⟩ -
    exact h.said_active t ht hs

/-- The active entry is handed to the synthesis. -/
theorem say (hc : t.pc.claimed) (hs : t.pc.silent) :
    Sound entries next pending (some ⟨t.entry, .synthesis, false⟩) active_entry worker (said ++ [t.entry]) where
  __ := h
  joint := (h.entry_eq ht).symm
  claimed := by
    rintro u ⟨⟩ -
    exact h.claimed t ht hc
  once := List.Nodup.append h.once (List.nodup_singleton _) (List.disjoint_singleton.2 (h.said_active t ht hs))
  said_started := by
    intro i hin
    obtain hin | hin := List.mem_append.1 hin
    · exact h.said_started i hin
    · rw [List.mem_singleton.1 hin]
      exact ⟨h.made _ (h.entry_eq ht), h.claimed t ht hc⟩
  said_active := by
    rintro u ⟨⟩ hc
    cases hc

end

end Sound

end StrixAlloy.OutputArbiter

import StrixAlloy.Gateway.Slots

/-!
# Slot accounting

What every interleaving keeps: the reserved slots are those of the requests that hold one and of the
granted waiters that have not resumed; a waiter waits only while all slots are reserved and the
gateway is not draining; grants follow the order of arrival; and each slot is given back once. The
history makes the count exact: `active` is the number of grants less the number of releases.
-/

namespace StrixAlloy.Gateway

open List Function

variable {limits : Limits} {s : State} {r : ℕ}

/-- A slot is reserved for the request: it holds one, or its grant waits for it to resume. -/
def State.Reserved (s : State) (r : ℕ) : Prop :=
  s.phase r = .holding ∨ s.phase r = .waiting ∧ s.waiter r = .granted

instance (s : State) (r : ℕ) : Decidable (s.Reserved r) := inferInstanceAs (Decidable (_ ∨ _))

/-- The invariant of the slots. -/
structure Accounted (limits : Limits) (s : State) : Prop where
  /-- Grants follow the order of arrival, and whoever waits arrived after them. -/
  ordered : (s.granted ++ s.waiters).Pairwise (· < ·)
  numbered : ∀ r ∈ s.granted ++ s.waiters, r < s.arrived
  absent : ∀ r, s.arrived ≤ r → s.phase r = .absent
  /-- The deque holds the requests that wait for a future that is not done. -/
  waits : ∀ r, r ∈ s.waiters ↔ s.phase r = .waiting ∧ s.waiter r = .pending
  reserved : ∀ r, s.Reserved r ↔ r ∈ s.granted ∧ r ∉ s.released
  once : s.released.Nodup
  acquired : s.released ⊆ s.granted
  given : ∀ r ∈ s.released, s.phase r = .ended
  count : s.active = s.granted.length - s.released.length
  bounded : s.active ≤ limits.concurrency
  full : s.waiters ≠ [] → s.active = limits.concurrency ∧ s.draining = false
  short : s.waiters.length ≤ limits.queue_limit

/-! ## The loops -/

/-- The loop of `release_slot` grants the oldest waiters `gs`, as many as there is room for. -/
theorem handOff_eq (limits : Limits) (ws : List ℕ) (s : State) (hp : ∀ w ∈ ws, s.waiter w = .pending) (hws : ws.Nodup) :
    ∃ gs rest, ws = gs ++ rest ∧
      handOff limits ws s = { s with
        active := s.active + gs.length
        waiters := rest
        waiter := fun w => if w ∈ gs then .granted else s.waiter w
        granted := s.granted ++ gs } ∧
      (rest ≠ [] → s.draining ∨ limits.concurrency ≤ s.active + gs.length) ∧
      (gs ≠ [] → s.active + gs.length ≤ limits.concurrency) := by
  induction ws generalizing s with
  | nil => exact ⟨[], [], rfl, by simp [handOff], by simp, by simp⟩
  | cons w ws ih =>
    obtain ⟨hw, hws⟩ := nodup_cons.1 hws
    by_cases hroom : ¬ s.draining ∧ s.active < limits.concurrency
    · have hdone : ¬ (s.waiter w).done := by simp [Waiter.done, hp w mem_cons_self]
      -- the grant of `w` leaves the waiters behind it pending
      have hrest : ∀ v ∈ ws, update s.waiter w Waiter.granted v = .pending := by
        intro v hv
        have hne : v ≠ w := fun h => hw (h ▸ hv)
        rw [update_of_ne hne]
        exact hp v (mem_cons_of_mem _ hv)
      obtain ⟨gs, rest, rfl, heq, hstop, hle⟩ := ih
        { s with
          active := s.active + 1
          waiter := update s.waiter w .granted
          granted := s.granted ++ [w] } hrest hws
      refine ⟨w :: gs, rest, rfl, ?_, ?_, ?_⟩
      · unfold handOff
        rw [if_pos hroom, if_neg hdone, heq]
        simp only [State.mk.injEq, true_and, length_cons, append_assoc, singleton_append,
          and_true]
        refine ⟨by push_cast; ring, ?_⟩
        funext v
        by_cases hv : v = w <;> simp [hv]
      · intro hne
        rw [length_cons]
        have := hstop hne
        simp only at this
        push_cast
        rw [← add_assoc, add_right_comm]
        exact this
      · intro _
        rw [length_cons]
        obtain ⟨-, hlt⟩ := hroom
        rcases gs with _ | ⟨g, gs⟩
        · simp only [length_nil, Nat.zero_add, Nat.cast_one]
          omega
        · have := hle (cons_ne_nil _ _)
          simp only at this
          push_cast at this ⊢
          omega
    · refine ⟨[], w :: ws, rfl, ?_, ?_, by simp⟩
      · unfold handOff
        rw [if_neg hroom]
        simp
      · intro _
        simp only [length_nil]
        by_cases hd : s.draining
        · exact .inl hd
        · have : ¬ s.active < limits.concurrency := fun h => hroom ⟨hd, h⟩
          push_cast
          omega

/-- The loop of the setter of `draining` refuses every waiter. -/
theorem refuseAll_eq (ws : List ℕ) (s : State) (hp : ∀ w ∈ ws, s.waiter w = .pending) (hws : ws.Nodup) :
    refuseAll ws s = { s with
      waiters := []
      waiter := fun w => if w ∈ ws then .refused else s.waiter w } := by
  induction ws generalizing s with
  | nil => simp [refuseAll]
  | cons w ws ih =>
    obtain ⟨hw, hws⟩ := nodup_cons.1 hws
    have hdone : ¬ (s.waiter w).done := by simp [Waiter.done, hp w mem_cons_self]
    have hrest : ∀ v ∈ ws, update s.waiter w Waiter.refused v = .pending := by
      intro v hv
      have hne : v ≠ w := fun h => hw (h ▸ hv)
      rw [update_of_ne hne]
      exact hp v (mem_cons_of_mem _ hv)
    unfold refuseAll
    rw [if_neg hdone, ih { s with waiter := update s.waiter w .refused } hrest hws]
    simp only [State.mk.injEq, true_and, and_true]
    funext v
    by_cases hv : v = w <;> simp [hv]

/-! ## What the invariant says -/

namespace Accounted

variable (h : Accounted limits s)
include h

theorem nodup_waiters : s.waiters.Nodup :=
  ((pairwise_append.1 h.ordered).2.1).imp Nat.ne_of_lt

theorem nodup_granted : s.granted.Nodup :=
  ((pairwise_append.1 h.ordered).1).imp Nat.ne_of_lt

theorem pending : ∀ w ∈ s.waiters, s.waiter w = .pending := fun w hw => ((h.waits w).1 hw).2

/-- A waiter has no slot yet. -/
theorem not_granted {w : ℕ} (hw : w ∈ s.waiters) : w ∉ s.granted := by
  intro hg
  have := (pairwise_append.1 h.ordered).2.2 w hg w hw
  omega

theorem released_le : s.released.length ≤ s.granted.length :=
  (subperm_of_subset h.once h.acquired).length_le

/-- A request that is numbered below `arrived` is not the next one. -/
theorem lt_arrived (hr : s.phase r ≠ .absent) : r < s.arrived := by
  by_contra hle
  exact hr (h.absent r (by omega))

/-- A request that is numbered does not make those beyond it known. -/
theorem absent_enter {phase : Phase} (hr : r < s.arrived) :
    ∀ w, s.arrived ≤ w → update s.phase r phase w = .absent := by
  intro w hw
  have hne : w ≠ r := by omega
  rw [update_of_ne hne]
  exact h.absent w hw

/-- A request that has not ended goes on without a release. -/
theorem given_enter {phase : Phase} (hr : s.phase r ≠ .ended) :
    ∀ w ∈ s.released, update s.phase r phase w = .ended := by
  intro w hw
  have hended := h.given w hw
  have hne : w ≠ r := fun e => hr (e ▸ hended)
  rw [update_of_ne hne]
  exact hended

/-! ## Steps -/

/-- The slot of a request is given back as it leaves: the oldest waiter gets it, if there is one. -/
theorem release (hr : s.Reserved r) : Accounted limits (enter r (releaseSlot limits s r, .ended)) := by
  obtain ⟨hgranted, hkept⟩ := (h.reserved r).1 hr
  have hphase : r < s.arrived := h.numbered r (mem_append_left _ hgranted)
  obtain ⟨gs, rest, hsplit, heq, hstop, hle⟩ := handOff_eq limits s.waiters
    { s with active := s.active - 1, released := s.released ++ [r] } h.pending h.nodup_waiters
  simp only at hstop hle
  have hnodup : (gs ++ rest).Nodup := hsplit ▸ h.nodup_waiters
  have hmem : ∀ w, w ∈ s.waiters ↔ w ∈ gs ∨ w ∈ rest := fun w => by rw [hsplit, mem_append]
  have hr' : r ∉ s.waiters := fun hw => h.not_granted hw hgranted
  have hcount := h.count
  have hbound := h.bounded
  unfold releaseSlot enter
  rw [heq]
  constructor
  · rw [append_assoc, ← hsplit]
    exact h.ordered
  · rw [append_assoc, ← hsplit]
    exact h.numbered
  · exact h.absent_enter hphase
  · intro w
    show w ∈ rest ↔ update s.phase r .ended w = .waiting ∧
      (if w ∈ gs then Waiter.granted else s.waiter w) = .pending
    by_cases hw : w = r
    · subst hw
      have : w ∉ rest := fun hw => hr' ((hmem w).2 (.inr hw))
      simp [this]
    · rw [update_of_ne hw]
      have := h.waits w
      by_cases hg : w ∈ gs
      · have : w ∉ rest := (disjoint_of_nodup_append hnodup) hg
        simp [hg, this]
      · rw [if_neg hg, ← h.waits w, hmem w]
        simp [hg]
  · intro w
    show update s.phase r .ended w = .holding ∨ update s.phase r .ended w = .waiting ∧
      (if w ∈ gs then Waiter.granted else s.waiter w) = .granted ↔
      w ∈ s.granted ++ gs ∧ w ∉ s.released ++ [r]
    by_cases hw : w = r
    · simp [hw]
    · rw [update_of_ne hw]
      by_cases hg : w ∈ gs
      · -- a waiter that gets the slot
        have hwait := (hmem w).2 (.inl hg)
        have hphase := ((h.waits w).1 hwait).1
        have hnew : w ∉ s.released := fun hrel => h.not_granted hwait (h.acquired hrel)
        simp [hg, hw, hphase, hnew]
      · rw [if_neg hg]
        have := h.reserved w
        unfold State.Reserved at this
        simp [this, hg, hw]
  · rw [nodup_append]
    refine ⟨h.once, nodup_singleton r, ?_⟩
    intro a ha b hb
    rw [mem_singleton.1 hb]
    exact fun e => hkept (e ▸ ha)
  · intro w hw
    rcases mem_append.1 hw with hw | hw
    · exact mem_append_left _ (h.acquired hw)
    · exact mem_append_left _ (mem_singleton.1 hw ▸ hgranted)
  · intro w hw
    show update s.phase r .ended w = .ended
    by_cases hne : w = r
    · simp [hne]
    · rw [update_of_ne hne]
      have hw' : w ∈ s.released ++ [r] := hw
      exact h.given w (by simpa [hne] using hw')
  · simp only [length_append, length_singleton]
    push_cast
    omega
  · rcases gs with _ | ⟨g, gs⟩
    · simp only [length_nil]
      omega
    · exact hle (cons_ne_nil _ _)
  · intro hrest
    have hwaiters : s.waiters ≠ [] := by
      rw [hsplit]
      exact append_ne_nil_of_right_ne_nil _ hrest
    obtain ⟨hfull, hdrain⟩ := h.full hwaiters
    refine ⟨?_, hdrain⟩
    have hge := (hstop hrest).resolve_left (by simp [hdrain])
    rcases gs with _ | ⟨g, gs⟩
    · simp only [length_nil] at hge ⊢
      omega
    · exact le_antisymm (hle (cons_ne_nil _ _)) hge
  · show rest.length ≤ limits.queue_limit
    have hlen := congrArg List.length hsplit
    rw [length_append] at hlen
    have := h.short
    omega

/-- A request that is refused a slot, or that waits no more, has none. -/
theorem leave {waiters : List ℕ} {waiter : ℕ → Waiter} (hr : ¬ s.Reserved r) (hlt : r < s.arrived)
    (hsub : waiters = s.waiters.erase r) (hwaiter : ∀ w, w ≠ r → waiter w = s.waiter w) :
    Accounted limits (enter r ({ s with waiters := waiters, waiter := waiter }, .ended)) := by
  subst hsub
  have hsublist : (s.waiters.erase r).Sublist s.waiters := erase_sublist
  unfold enter
  constructor
  · exact h.ordered.sublist (hsublist.append_left _)
  · intro w hw
    exact h.numbered w ((hsublist.append_left _).subset hw)
  · exact h.absent_enter hlt
  · intro w
    show w ∈ s.waiters.erase r ↔ update s.phase r .ended w = .waiting ∧ waiter w = .pending
    rw [h.nodup_waiters.mem_erase_iff]
    by_cases hw : w = r
    · simp [hw]
    · rw [update_of_ne hw, hwaiter w hw, h.waits w]
      simp [hw]
  · intro w
    show update s.phase r .ended w = .holding ∨
      update s.phase r .ended w = .waiting ∧ waiter w = .granted ↔ w ∈ s.granted ∧ w ∉ s.released
    by_cases hw : w = r
    · subst hw
      rw [← h.reserved w]
      simp [hr]
    · rw [update_of_ne hw, hwaiter w hw]
      exact h.reserved w
  · exact h.once
  · exact h.acquired
  · intro w hw
    show update s.phase r .ended w = .ended
    by_cases hne : w = r
    · simp [hne]
    · rw [update_of_ne hne]
      exact h.given w hw
  · exact h.count
  · exact h.bounded
  · intro hne
    exact h.full fun hnil => hne (by rw [hnil]; rfl)
  · exact hsublist.length_le.trans h.short

/-- A number is given to the request that calls. -/
theorem called : Accounted limits { s with arrived := s.arrived + 1 } :=
  { h with
    numbered := fun r hr => Nat.lt_succ_of_lt (h.numbered r hr)
    absent := fun r hr => h.absent r (Nat.le_of_succ_le hr) }

/-- A free slot is reserved for a request that nobody waits before. -/
theorem acquire (hr : s.phase r = .absent) (hlast : ∀ w ∈ s.granted, w < r) (hlt : r < s.arrived)
    (hroom : s.active < limits.concurrency) (hnone : s.waiters = []) :
    Accounted limits
      (enter r ({ s with active := s.active + 1, granted := s.granted ++ [r] }, .holding)) := by
  have hnew : r ∉ s.granted := fun hg => by have := hlast r hg; omega
  have hcount := h.count
  have hordered := h.ordered
  rw [hnone, append_nil] at hordered
  unfold enter
  constructor
  · rw [hnone, append_nil, pairwise_append]
    refine ⟨hordered, pairwise_singleton _ _, fun a ha b hb => ?_⟩
    rw [mem_singleton.1 hb]
    exact hlast a ha
  · intro w hw
    have hw' : w ∈ (s.granted ++ [r]) ++ s.waiters := hw
    rw [hnone, append_nil, mem_append, mem_singleton] at hw'
    rcases hw' with hg | rfl
    · exact h.numbered w (mem_append_left _ hg)
    · exact hlt
  · exact h.absent_enter hlt
  · intro w
    show w ∈ s.waiters ↔ update s.phase r .holding w = .waiting ∧ s.waiter w = .pending
    by_cases hw : w = r
    · simp [hw, hnone]
    · rw [update_of_ne hw]
      exact h.waits w
  · intro w
    show update s.phase r .holding w = .holding ∨
      update s.phase r .holding w = .waiting ∧ s.waiter w = .granted ↔
      w ∈ s.granted ++ [r] ∧ w ∉ s.released
    by_cases hw : w = r
    · have : r ∉ s.released := fun hrel => hnew (h.acquired hrel)
      simp [hw, this]
    · rw [update_of_ne hw]
      have := h.reserved w
      unfold State.Reserved at this
      simp [this, hw]
  · exact h.once
  · exact fun w hw => mem_append_left _ (h.acquired hw)
  · exact h.given_enter (by simp [hr])
  · rw [length_append, length_singleton]
    push_cast
    omega
  · show s.active + 1 ≤ limits.concurrency
    omega
  · exact fun hne => absurd hnone hne
  · exact h.short

/-- A request waits behind the others, while all slots are reserved. -/
theorem wait (hr : s.phase r = .absent) (hlast : ∀ w ∈ s.granted ++ s.waiters, w < r)
    (hlt : r < s.arrived) (hdrain : s.draining = false)
    (hroom : ¬ (s.active < limits.concurrency ∧ s.waiters = []))
    (hshort : s.waiters.length < limits.queue_limit) :
    Accounted limits (enter r ({ s with
      waiter := update s.waiter r .pending
      waiters := s.waiters ++ [r] }, .waiting)) := by
  have hnew : r ∉ s.granted := fun hg => by have := hlast r (mem_append_left _ hg); omega
  unfold enter
  constructor
  · rw [← append_assoc, pairwise_append]
    refine ⟨h.ordered, pairwise_singleton _ _, fun a ha b hb => ?_⟩
    rw [mem_singleton.1 hb]
    exact hlast a ha
  · intro w hw
    have hw' : w ∈ s.granted ++ (s.waiters ++ [r]) := hw
    rw [← append_assoc, mem_append, mem_singleton] at hw'
    rcases hw' with hold | rfl
    · exact h.numbered w hold
    · exact hlt
  · exact h.absent_enter hlt
  · intro w
    show w ∈ s.waiters ++ [r] ↔ update s.phase r .waiting w = .waiting ∧
      update s.waiter r .pending w = .pending
    by_cases hw : w = r
    · simp [hw]
    · rw [update_of_ne hw, update_of_ne hw, ← h.waits w]
      simp [hw]
  · intro w
    show update s.phase r .waiting w = .holding ∨
      update s.phase r .waiting w = .waiting ∧ update s.waiter r .pending w = .granted ↔
      w ∈ s.granted ∧ w ∉ s.released
    by_cases hw : w = r
    · simp [hw, hnew]
    · rw [update_of_ne hw, update_of_ne hw]
      exact h.reserved w
  · exact h.once
  · exact h.acquired
  · exact h.given_enter (by simp [hr])
  · exact h.count
  · exact h.bounded
  · intro _
    show s.active = limits.concurrency ∧ s.draining = false
    refine ⟨?_, hdrain⟩
    -- the slots are all reserved: either no slot was free, or somebody waited already
    by_cases hnone : s.waiters = []
    · have hle := h.bounded
      have : ¬ s.active < limits.concurrency := fun hlt => hroom ⟨hlt, hnone⟩
      omega
    · exact (h.full hnone).1
  · rw [length_append, length_singleton]
    omega

/-- A granted request resumes with its slot. -/
theorem hold (hr : s.phase r = .waiting) (hgrant : s.waiter r = .granted) :
    Accounted limits (enter r (s, .holding)) := by
  have hlt : r < s.arrived := h.lt_arrived (by simp [hr])
  unfold enter
  refine { h with absent := ?_, waits := ?_, reserved := ?_, given := h.given_enter (by simp [hr]) }
  · exact h.absent_enter hlt
  · intro w
    show w ∈ s.waiters ↔ update s.phase r .holding w = .waiting ∧ s.waiter w = .pending
    by_cases hw : w = r
    · rw [h.waits w]
      simp [hw, hgrant]
    · rw [update_of_ne hw]
      exact h.waits w
  · intro w
    show update s.phase r .holding w = .holding ∨
      update s.phase r .holding w = .waiting ∧ s.waiter w = .granted ↔
      w ∈ s.granted ∧ w ∉ s.released
    rw [← h.reserved w]
    unfold State.Reserved
    by_cases hw : w = r
    · simp [hw, hr, hgrant]
    · rw [update_of_ne hw]

/-- The start of the drain refuses all waiters. -/
theorem drain (value : Bool) : Accounted limits (setDraining s value) := by
  unfold setDraining
  cases value with
  | false =>
    refine { h with full := fun hne => ?_ }
    exact ⟨(h.full hne).1, rfl⟩
  | true =>
    rw [if_pos rfl, refuseAll_eq s.waiters { s with draining := true } h.pending h.nodup_waiters]
    have hprefix : s.granted.Sublist (s.granted ++ s.waiters) := sublist_append_left _ _
    constructor
    · rw [append_nil]
      exact h.ordered.sublist hprefix
    · intro w hw
      have hw' : w ∈ s.granted ++ [] := hw
      rw [append_nil] at hw'
      exact h.numbered w (mem_append_left _ hw')
    · exact h.absent
    · intro w
      have := h.waits w
      by_cases hw : w ∈ s.waiters
      · simp [hw]
      · simpa [hw] using this
    · intro w
      show s.phase w = .holding ∨
        s.phase w = .waiting ∧ (if w ∈ s.waiters then Waiter.refused else s.waiter w) = .granted ↔
        w ∈ s.granted ∧ w ∉ s.released
      rw [← h.reserved w]
      unfold State.Reserved
      have := h.waits w
      by_cases hw : w ∈ s.waiters
      · obtain ⟨hphase, hpending⟩ := this.1 hw
        simp [hw, hphase, hpending]
      · rw [if_neg hw]
    · exact h.once
    · exact h.acquired
    · exact h.given
    · exact h.count
    · exact h.bounded
    · exact fun hne => absurd rfl hne
    · exact Nat.zero_le _

/-- A request that calls `acquire_slot` acquires a slot, waits, or is refused. -/
theorem arrive : Accounted limits (step limits s .arrive) := by
  have hcalled := h.called
  have habsent : s.phase s.arrived = .absent := h.absent _ le_rfl
  have hlt : s.arrived < s.arrived + 1 := Nat.lt_succ_self _
  have hnot : ¬ State.Reserved { s with arrived := s.arrived + 1 } s.arrived := by
    simp [State.Reserved, habsent]
  have herase : s.waiters = s.waiters.erase s.arrived := by
    refine (erase_of_not_mem fun hw => ?_).symm
    exact absurd (h.numbered _ (mem_append_right _ hw)) (lt_irrefl _)
  have hrefused : Accounted limits (enter s.arrived ({ s with arrived := s.arrived + 1 }, .ended)) :=
    hcalled.leave hnot hlt herase fun _ _ => rfl
  unfold step acquireSlot
  split_ifs with hdrain hroom hlong
  · exact hrefused
  · exact hcalled.acquire habsent (fun w hw => h.numbered w (mem_append_left _ hw)) hlt hroom.1 hroom.2
  · exact hrefused
  · exact hcalled.wait habsent h.numbered hlt (by simpa using hdrain) hroom (by simpa using hlong)

/-- A waiting request resumes. -/
theorem resume (wake : Wake) : Accounted limits (step limits s (.resume r wake)) := by
  unfold step
  dsimp only
  split_ifs with hwait
  · obtain ⟨hphase, hresult⟩ := hwait
    have hlt : r < s.arrived := h.lt_arrived (by simp [hphase])
    by_cases hgrant : s.waiter r = .granted
    · have hreserved : s.Reserved r := .inr ⟨hphase, hgrant⟩
      cases wake <;> simp only [resumeSlot, if_pos hgrant]
      case result =>
        split_ifs
        · exact h.release hreserved
        · exact h.hold hphase hgrant
      all_goals exact h.release hreserved
    · have hnot : ¬ s.Reserved r := by simp [State.Reserved, hphase, hgrant]
      cases wake <;> simp only [resumeSlot, if_neg hgrant]
      case result =>
        have hdone := hresult rfl
        have hwaiters : r ∉ s.waiters := fun hw => by simp [Waiter.done, h.pending r hw] at hdone
        exact h.leave hnot hlt (erase_of_not_mem hwaiters).symm fun _ _ => rfl
      all_goals
        refine h.leave hnot hlt rfl fun w hw => ?_
        split_ifs
        · rfl
        · exact update_of_ne hw _ _
  · exact h

/-- One step keeps the slots accounted for. -/
theorem step (event : Event) : Accounted limits (Gateway.step limits s event) := by
  cases event with
  | arrive => exact h.arrive
  | resume r wake => exact h.resume wake
  | finish =>
    unfold Gateway.step
    dsimp only
    split_ifs with hphase
    · exact h.release (.inl hphase)
    · exact h
  | drain value => exact h.drain value

/-- The requests below `arrived` that a slot is reserved for are the grants that were not given back. -/
theorem reserved_finset :
    (Finset.range s.arrived).filter s.Reserved = s.granted.toFinset \ s.released.toFinset := by
  ext r
  rw [Finset.mem_filter, Finset.mem_sdiff, mem_toFinset, mem_toFinset, h.reserved r,
    Finset.mem_range]
  refine ⟨fun hr => hr.2, fun hr => ⟨?_, hr⟩⟩
  exact h.numbered r (mem_append_left _ hr.1)

/-- `active` counts the requests that a slot is reserved for. -/
theorem active_eq : s.active = ((Finset.range s.arrived).filter s.Reserved).card := by
  have hsub : s.released.toFinset ⊆ s.granted.toFinset := by
    intro r hr
    rw [mem_toFinset] at hr ⊢
    exact h.acquired hr
  have hcard : ((Finset.range s.arrived).filter s.Reserved).card =
      s.granted.length - s.released.length := by
    calc ((Finset.range s.arrived).filter s.Reserved).card
        = (s.granted.toFinset \ s.released.toFinset).card := by rw [h.reserved_finset]
      _ = s.granted.toFinset.card - s.released.toFinset.card := Finset.card_sdiff_of_subset hsub
      _ = s.granted.length - s.released.length := by
        rw [toFinset_card_of_nodup h.nodup_granted, toFinset_card_of_nodup h.once]
  have hle := h.released_le
  have hcount := h.count
  omega

/-- A slot that was reserved for a request is given back once when the request has ended, and not
before. -/
theorem released_count (r : ℕ) :
    s.released.count r = if s.phase r = .ended then s.granted.count r else 0 := by
  by_cases hmem : r ∈ s.released
  · rw [if_pos (h.given r hmem), count_eq_one_of_mem h.once hmem,
      count_eq_one_of_mem h.nodup_granted (h.acquired hmem)]
  · rw [count_eq_zero_of_not_mem hmem]
    split_ifs with hended
    · -- a grant that was not given back is reserved, and an ended request has none
      refine (count_eq_zero_of_not_mem fun hgranted => ?_).symm
      have := (h.reserved r).2 ⟨hgranted, hmem⟩
      simp [State.Reserved, hended] at this
    · rfl

end Accounted

/-- The slots are accounted for after any steps. -/
theorem after_accounted (limits : Limits) (events : List Event) : Accounted limits (after limits events) := by
  refine Runs.run_invariant (fun s event h => h.step event) events ?_
  constructor
  all_goals simp [State.init, State.Reserved]

/-- The requests that hold a slot, and the granted waiters that have not resumed. -/
def State.holders (s : State) : Finset ℕ := (Finset.range s.arrived).filter fun r => s.phase r = .holding

def State.grantees (s : State) : Finset ℕ :=
  (Finset.range s.arrived).filter fun r => s.phase r = .waiting ∧ s.waiter r = .granted

/-- Slot accounting of the gateway, for all limits and after any steps: `active` stays within its bounds
and counts the requests that hold a slot and the granted waiters that have not resumed; somebody waits
only while all slots are reserved and the gateway is not draining; the deque keeps its limit; slots are
granted in the order of arrival, so that nobody waits who came before one that was granted; a slot is
granted to a request once at most, and given back once if the request has ended and never before; and
without requests `active` is 0. -/
theorem slots_accounted (limits : Limits) (events : List Event) :
    let s := after limits events
    (0 ≤ s.active ∧ s.active ≤ limits.concurrency) ∧
    s.active = s.holders.card + s.grantees.card ∧
    (s.waiters ≠ [] → s.active = limits.concurrency ∧ s.draining = false) ∧
    s.waiters.length ≤ limits.queue_limit ∧
    (s.granted ++ s.waiters).Pairwise (· < ·) ∧
    (∀ r, s.granted.count r ≤ 1 ∧
      s.released.count r = if s.phase r = .ended then s.granted.count r else 0) ∧
    ((∀ r, s.phase r = .absent ∨ s.phase r = .ended) → s.active = 0) := by
  intro s
  have h : Accounted limits s := after_accounted limits events
  have hactive : s.active = s.holders.card + s.grantees.card := by
    have hdisjoint : Disjoint s.holders s.grantees := by
      refine Finset.disjoint_filter.2 fun r _ hhold hwait => ?_
      simp [hhold] at hwait
    have hunion : (Finset.range s.arrived).filter s.Reserved = s.holders ∪ s.grantees :=
      Finset.filter_or _ _ _
    rw [h.active_eq, hunion, Finset.card_union_of_disjoint hdisjoint]
    push_cast
    rfl
  refine ⟨⟨?_, h.bounded⟩, hactive, h.full, h.short, h.ordered, fun r => ⟨?_, h.released_count r⟩,
    fun hnone => ?_⟩
  · omega
  · exact nodup_iff_count_le_one.1 h.nodup_granted r
  · have hempty : (Finset.range s.arrived).filter s.Reserved = ∅ := by
      refine Finset.filter_eq_empty_iff.2 fun r _ => ?_
      rcases hnone r with hr | hr <;> simp [State.Reserved, hr]
    rw [h.active_eq, hempty]
    rfl

/-! ## Waiting -/

/-- What steps do to those who wait: whoever gets a slot, or waits afterwards, waited before or arrived since. -/
structure Served (s s' : State) : Prop where
  arrived : s.arrived ≤ s'.arrived
  waiters : ∀ w ∈ s'.waiters, w ∈ s.waiters ∨ s.arrived ≤ w
  granted : ∃ gs, s'.granted = s.granted ++ gs ∧ ∀ w ∈ gs, w ∈ s.waiters ∨ s.arrived ≤ w

theorem Served.same {s' : State} (harrived : s.arrived ≤ s'.arrived) (hwaiters : s'.waiters ⊆ s.waiters)
    (hgranted : s'.granted = s.granted) : Served s s' :=
  ⟨harrived, fun _ hw => .inl (hwaiters hw), [], by rw [hgranted, append_nil], forall_mem_nil _⟩

theorem Served.trans {s' s'' : State} (h : Served s s') (h' : Served s' s'') : Served s s'' := by
  have hback : ∀ w, w ∈ s'.waiters ∨ s'.arrived ≤ w → w ∈ s.waiters ∨ s.arrived ≤ w := by
    rintro w (hw | hw)
    · exact h.waiters w hw
    · exact .inr (h.arrived.trans hw)
  obtain ⟨gs, hgs, hfrom⟩ := h.granted
  obtain ⟨gs', hgs', hfrom'⟩ := h'.granted
  refine ⟨h.arrived.trans h'.arrived, fun w hw => hback w (h'.waiters w hw), gs ++ gs', ?_, fun w hw => ?_⟩
  · rw [hgs', hgs, append_assoc]
  · rcases mem_append.1 hw with hw | hw
    · exact hfrom w hw
    · exact hback w (hfrom' w hw)

/-- A release serves the oldest waiters. -/
theorem Accounted.served_release (h : Accounted limits s) (phase : Phase) :
    Served s (enter r (releaseSlot limits s r, phase)) := by
  obtain ⟨gs, rest, hsplit, heq, -⟩ := handOff_eq limits s.waiters
    { s with active := s.active - 1, released := s.released ++ [r] } h.pending h.nodup_waiters
  unfold releaseSlot enter
  rw [heq]
  refine ⟨le_rfl, fun w hw => .inl ?_, gs, rfl, fun w hw => .inl ?_⟩
  · rw [hsplit]
    exact mem_append_right gs hw
  · rw [hsplit]
    exact mem_append_left rest hw

theorem Accounted.served (h : Accounted limits s) (event : Event) : Served s (Gateway.step limits s event) := by
  have hstay : ∀ {phase waiter}, Served s { s with phase := phase, waiter := waiter } :=
    .same le_rfl (List.Subset.refl _) rfl
  unfold Gateway.step
  cases event with
  | arrive =>
    have hlater : s.arrived ≤ s.arrived + 1 := Nat.le_succ _
    unfold acquireSlot
    split_ifs
    · exact .same hlater (List.Subset.refl _) rfl
    · refine ⟨hlater, fun w hw => .inl hw, [s.arrived], rfl, fun w hw => .inr ?_⟩
      rw [mem_singleton.1 hw]
    · exact .same hlater (List.Subset.refl _) rfl
    · refine ⟨hlater, fun w hw => (mem_append.1 hw).imp id fun hw => ?_, [], (append_nil _).symm,
        forall_mem_nil _⟩
      rw [mem_singleton.1 hw]
  | resume r wake =>
    have herase : ∀ {phase waiter},
        Served s { s with phase := phase, waiter := waiter, waiters := s.waiters.erase r } :=
      .same le_rfl erase_subset rfl
    dsimp only
    split_ifs
    · cases wake <;> simp only [resumeSlot] <;> split_ifs
      all_goals first | exact h.served_release _ | exact hstay | exact herase
    · exact hstay
  | finish r =>
    dsimp only
    split_ifs
    · exact h.served_release _
    · exact hstay
  | drain value =>
    unfold setDraining
    dsimp only
    split_ifs
    · rw [refuseAll_eq s.waiters { s with draining := value } h.pending h.nodup_waiters]
      exact .same le_rfl (nil_subset _) rfl
    · exact .same le_rfl (List.Subset.refl _) rfl

/-- Whoever waits behind `k` others has its slot, or is gone, once more than `k` slots were given back, whatever else
happens. -/
theorem bounded_waiting (limits : Limits) (pre post : List Event) (r : ℕ) (h : r ∈ (after limits pre).waiters)
    (h' : r ∈ (after limits (pre ++ post)).waiters) :
    (after limits (pre ++ post)).released.length ≤
      (after limits pre).released.length + (after limits pre).waiters.idxOf r := by
  have hs := after_accounted limits pre
  have hs' := after_accounted limits (pre ++ post)
  have hserved : Served (after limits pre) (after limits (pre ++ post)) := by
    unfold after
    rw [Runs.run_append]
    exact (Runs.run_invariant (P := fun s => Accounted limits s ∧ Served (after limits pre) s)
      (fun s event hs => ⟨hs.1.step event, hs.2.trans (hs.1.served event)⟩) post
      ⟨hs, .same le_rfl (List.Subset.refl _) rfl⟩).2
  obtain ⟨gs, hgs, hfrom⟩ := hserved.granted
  obtain ⟨ahead, behind, hsplit, hnot⟩ := eq_append_cons_of_mem h
  have hidx : (after limits pre).waiters.idxOf r = ahead.length := by
    rw [hsplit, idxOf_append, if_neg hnot, idxOf_cons_self, Nat.zero_add]
  -- those who got a slot since then waited ahead of `r`
  have hsub : gs ⊆ ahead := by
    intro w hw
    have hlt : w < r := (pairwise_append.1 hs'.ordered).2.2 w (hgs ▸ mem_append_right _ hw) r h'
    have hr := hs.numbered r (mem_append_right _ h)
    have hin := (hfrom w hw).resolve_right (by omega)
    have hsorted := (pairwise_append.1 hs.ordered).2.1
    rw [hsplit] at hin hsorted
    refine (mem_append.1 hin).resolve_right fun hin => ?_
    rcases mem_cons.1 hin with rfl | hin
    · exact lt_irrefl _ hlt
    · exact lt_asymm hlt (rel_of_pairwise_cons (pairwise_append.1 hsorted).2.1 hin)
  have hnodup : gs.Nodup := (nodup_append.1 (hgs ▸ hs'.nodup_granted)).2.1
  have hle := (hnodup.subperm hsub).length_le
  have hgranted := congrArg List.length hgs
  rw [length_append] at hgranted
  have hcount := hs.count
  have hcount' := hs'.count
  have hfull := (hs.full (ne_nil_of_mem h)).1
  have hfull' := (hs'.full (ne_nil_of_mem h')).1
  rw [hidx]
  omega

/-- Two wait for one slot; the second still waits after the first release. -/
theorem bounded_waiting_two : (after ⟨1, 2⟩ ([.arrive, .arrive, .arrive] ++ [.finish 0])).released.length ≤
    (after ⟨1, 2⟩ [.arrive, .arrive, .arrive]).released.length +
      (after ⟨1, 2⟩ [.arrive, .arrive, .arrive]).waiters.idxOf 2 :=
  bounded_waiting _ _ _ 2 (by decide) (by decide)

end StrixAlloy.Gateway

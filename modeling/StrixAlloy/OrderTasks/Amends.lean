import StrixAlloy.OrderTasks.Readable
import StrixAlloy.OrderTasks.Visibility

/-!
# A task with too many transitions

A caller who amends a proposal 129 times. Each command is accepted, and after the last one the caller's
`status` ends with `invalid_chain`.
-/

namespace StrixAlloy.OrderTasks

open Interleave List

/-! ## The tables after `n` commands -/

/-- The identifier of the `k`-th transition and of its command. -/
def nameOf (k : ℕ) : String := toString k

/-- What the `k`-th command expects. -/
def expected : ℕ → String
  | 0 => "root"
  | k + 1 => nameOf k

def owner : Binding := ⟨"p", "service", "agent", "tool", "revision"⟩

/-- The digest of every text. -/
def digest (_ : List Char) : String := "digest"

def amendProposal : Proposal :=
  [("employee_name", "Ada"), ("start_date", "2030-01-01"), ("delivery_location", "Here"), ("manager_name", "Bo")]

def amendInput (k : ℕ) : Json :=
  .dict [("command_id", .str (nameOf k)), ("expected_revision", .str (expected k)), ("kind", .str "amend"),
    ("context_version", .int 1), ("proposal", proposalJson amendProposal)]

def taskA : Task := ⟨"A", "a", "digest", "order", 3600000, owner⟩

def amendRow (k : ℕ) : Transition where
  id := nameOf k
  task_id := "A"
  predecessor_slot := slot "A" (expected k)
  predecessor := expected k
  command_id := nameOf k
  command_hash := "digest"
  kind := .amend
  version := k + 2
  context_version := some 1
  binding := owner
  proposal := some amendProposal
  payload_hash := some "digest"
  expires_at := some 300000
  proposal_id := none
  utterance_ref := none
  confirmation_id := none
  operation_key := none
  checked_at := none

def amendEvent (k : ℕ) : Event :=
  ⟨nameOf k, "transition:" ++ nameOf k, "A:" ++ toString (k + 2), "A", some (k + 2), some (nameOf k), some 1,
    some "awaiting_input", none⟩

def amended (n : ℕ) : Store where
  tasks := [taskA]
  transitions := (List.range n).map amendRow
  operations := []
  claims := []
  events := (List.range n).map amendEvent
  clock := 0
  submits := []

/-! ## Names -/

/-- The number that a name was made of. -/
def numberOf (s : String) : ℕ := s.toList.foldl (fun n c => 10 * n + (c.toNat - 48)) 0

theorem name_facts : ∀ k < 131, numberOf (toString k) = k ∧ isId (toString k) ∧ toString k ≠ "root" := by
  decide +kernel

theorem toString_inj {j k : ℕ} (hj : j < 131) (hk : k < 131) (h : (toString j : String) = toString k) : j = k := by
  rw [← (name_facts j hj).1, ← (name_facts k hk).1, h]

theorem append_right_inj' {s t u : String} (h : s ++ t = s ++ u) : t = u := by
  have h := congrArg String.toList h
  simp only [String.toList_append] at h
  exact String.toList_injective (append_cancel_left h)

theorem isId_expected {k : ℕ} (hk : k < 129) : isId (expected k) := by
  cases k with
  | zero => decide
  | succ k => exact (name_facts k (by omega)).2.1

/-! ## One command -/

/-- The answers that the caller needs, and one identifier. -/
def chosen (guid : String) (h : guid ≠ "root") : Choice where
  authority := some ⟨owner, true, true, 3600000⟩
  clock := 0
  guid := guid
  guid_ne := h
  fails := false
  result := none

def amendMembers (k : ℕ) : Members :=
  [("command_id", .str (nameOf k)), ("expected_revision", .str (expected k)), ("kind", .str "amend"),
    ("context_version", .int 1), ("proposal", proposalJson amendProposal)]

def amendCommand (k : ℕ) : Command := ⟨amendMembers k, .amend, nameOf k, expected k, 1⟩

section Step

variable {i : ℕ} {s : Store}

theorem ends_idOf {v : String} (h : isId v) : Prog.Ends exec i (idOf (some (.str v))).run s (.ok v) s :=
  ends_then (ends_ensured h) ends_value

theorem ends_schema {members : Members} {required : List String}
    (h : joined (members.map Prod.fst) = joined required) :
    Prog.Ends exec i (schema (some (.dict members)) required).run s (.ok members) s :=
  ends_then (ends_ensured h) ends_value

theorem ends_read {q : Query} {a : Answer q} (c : Choice) (h : exec i c s q = (a, s)) :
    Prog.Ends exec i (step q).run s (.ok a) s := ends_answer c h

theorem joined_amend : joined ["command_id", "expected_revision", "kind", "context_version", "proposal"] =
    joined (["command_id", "expected_revision", "kind", "context_version"] ++ ["proposal"]) := by decide

theorem ends_commandOf {k : ℕ} (hk : k < 129) :
    Prog.Ends exec i (commandOf (amendInput k)).run s (.ok (amendCommand k)) s := by
  refine ends_then (ends_some (a := (.amend, ["proposal"])) rfl) ?_
  refine ends_then (ends_schema joined_amend) ?_
  refine ends_then (ends_idOf (name_facts k (by omega)).2.1) ?_
  refine ends_then (ends_idOf (isId_expected hk)) ?_
  exact ends_then (ends_some rfl) ends_value

variable {c : Choice} (hc : c.authority = some ⟨owner, true, true, 3600000⟩ ∧ c.clock = 0)

include hc

theorem exec_now {n : ℕ} : exec i c (amended n) .now = (0, amended n) := by
  have hclock : max (amended n).clock c.clock = 0 := by
    rw [hc.2]
    exact max_self 0
  rw [exec, hclock]
  rfl

/-- The caller owns the task, which has not expired. -/
theorem ends_taskOf {n : ℕ} {write : Bool} : Prog.Ends exec i (taskOf "A" write).run (amended n)
    (.ok (taskA, ⟨owner, true, true, 3600000⟩)) (amended n) := by
  refine ends_then (ends_ensured (by decide)) ?_
  refine ends_then (ends_read c rfl) ?_
  refine ends_then (ends_some rfl) ?_
  refine ends_then ?_ ends_value
  refine ends_then (ends_read c (by rw [exec, hc.1])) ?_
  refine ends_then (ends_some rfl) ?_
  refine ends_then (ends_ensured ⟨rfl, fun _ => rfl⟩) ?_
  refine ends_then (ends_read c (exec_now hc)) ?_
  refine ends_then (ends_ensured (by decide)) ?_
  refine ends_then (ends_ensured (by decide)) ?_
  refine ends_then (ends_read c (exec_now hc)) ?_
  exact ends_then (ends_ensured (by decide)) ends_value

end Step

/-! ### The rows of the command -/

theorem mem_amended {n : ℕ} {x : Transition} (h : x ∈ (amended n).transitions) : ∃ j < n, x = amendRow j := by
  obtain ⟨j, hj, rfl⟩ := mem_map.1 h
  exact ⟨j, mem_range.1 hj, rfl⟩

theorem nameOf_ne {j k : ℕ} (hj : j < k) (hk : k < 131) : nameOf k ≠ nameOf j := fun h =>
  absurd (toString_inj hk (by omega) h) (by omega)

/-- What the `k`-th command finds. -/
theorem head_amended (n : ℕ) : (amended n).head "A" = if n = 0 then root "A" else amendRow (n - 1) := by
  have hchanges : (amended n).changes "A" = (List.range n).map amendRow := by
    refine filter_eq_self.2 fun x hx => ?_
    obtain ⟨j, -, rfl⟩ := mem_amended hx
    rfl
  rw [Store.head, hchanges]
  cases n with
  | zero => rfl
  | succ => rw [range_succ, map_append, map_singleton, getLastD_concat]; rfl

theorem length_changes_amended (n : ℕ) : ((amended n).changes "A").length = n := by
  have hchanges : (amended n).changes "A" = (List.range n).map amendRow := by
    refine filter_eq_self.2 fun x hx => ?_
    obtain ⟨j, -, rfl⟩ := mem_amended hx
    rfl
  rw [hchanges, length_map, length_range]

/-- After the transition is stored, and before its event is. -/
def halfway (n : ℕ) : Store := { amended n with transitions := (List.range (n + 1)).map amendRow }

theorem exec_insertTransition {i n : ℕ} {c : Choice} (hn : n < 129) (hc : c.fails = false) :
    exec i c (amended n) (.insertTransition (amendRow n)) = (true, halfway n) := by
  have hfree : (amended n).transitions.any (Transition.clash (amendRow n)) = false := by
    rw [any_eq_false]
    intro x hx
    obtain ⟨j, hj, rfl⟩ := mem_amended hx
    have hname := nameOf_ne hj (by omega : n < 131)
    have hslot : slot "A" (expected n) ≠ slot "A" (expected j) := by
      intro h
      have h := append_right_inj' h
      rcases n with _ | n
      · omega
      rcases j with _ | j
      · exact (name_facts n (by omega)).2.2 h
      · exact nameOf_ne (by omega) (by omega : n < 131) h
    simp [Transition.clash, amendRow, hname, hslot]
  have hins : insert c Transition.clash (amended n).transitions (amendRow n) =
      (true, (amended n).transitions ++ [amendRow n]) := by
    rw [insert, hc, hfree]
    rfl
  simp only [exec, hins]
  rw [halfway, range_succ, map_append]
  rfl

theorem exec_insertEvent {i n : ℕ} {c : Choice} (hn : n < 129) (hc : c.fails = false) :
    exec i c (halfway n) (.insertEvent (amendEvent n)) = (true, amended (n + 1)) := by
  have hfree : (amended n).events.any (Event.clash (amendEvent n)) = false := by
    rw [any_eq_false]
    intro x hx
    obtain ⟨j, hj, rfl⟩ := mem_map.1 hx
    have hj := mem_range.1 hj
    have hname := nameOf_ne hj (by omega : n < 131)
    have hevent : "transition:" ++ nameOf n ≠ "transition:" ++ nameOf j := fun h => hname (append_right_inj' h)
    have hseq : "A:" ++ toString (n + 2) ≠ "A:" ++ toString (j + 2) := fun h =>
      absurd (toString_inj (by omega) (by omega) (append_right_inj' h)) (by omega)
    simp only [Event.clash, amendEvent, Bool.or_eq_true, not_or]
    exact ⟨⟨fun h => hname (of_decide_eq_true h), fun h => hevent (of_decide_eq_true h)⟩,
      fun h => hseq (of_decide_eq_true h)⟩
  have hins : insert c Event.clash (halfway n).events (amendEvent n) = (true, (amended (n + 1)).events) := by
    have hrows : (amended (n + 1)).events = (amended n).events ++ [amendEvent n] := by
      show (List.range (n + 1)).map amendEvent = _
      rw [range_succ, map_append]
      rfl
    rw [insert, hc, hrows]
    show (if (false || (amended n).events.any (Event.clash (amendEvent n))) = true then _ else _) = _
    rw [hfree]
    rfl
  simp only [exec, hins]
  rfl

/-! ### The whole command -/

theorem mapM_amendProposal : (amendProposal.map fun m => (m.1, Json.str m.2)).mapM proposalField =
    some amendProposal := by decide

theorem joined_proposal : joined (amendProposal.map Prod.fst) =
    joined ["employee_name", "start_date", "delivery_location", "manager_name"] := by decide

theorem ends_proposalOf {i : ℕ} {s : Store} :
    Prog.Ends exec i (proposalOf (some (proposalJson amendProposal))).run s (.ok amendProposal) s :=
  ends_then (ends_schema joined_proposal) (ends_then (ends_some mapM_amendProposal)
    (ends_then (ends_ensured (by decide)) ends_value))

/-- The answers in the `n`-th command. -/
def choice (n : ℕ) (hn : n < 129) : Choice := chosen (nameOf n) (name_facts n (by omega)).2.2

/-- What the command answers. -/
def amendResult (n : ℕ) : CommandResult where
  task_id := "A"
  command_id := nameOf n
  revision := nameOf n
  kind := .amend
  version := n + 2
  proposal := some amendProposal
  payload_hash := some "digest"
  expires_at := some 300000
  operation := none

section Step

variable {i n : ℕ} (hn : n < 129)

include hn

/-- What `_result` answers and stores for the transition. -/
theorem ends_resultOf :
    Prog.Ends exec i (resultOf taskA (amendRow n)).run (halfway n) (.ok (amendResult n)) (amended (n + 1)) := by
  have hfind : (amended n).events.find? (fun r => r.event_id = "transition:" ++ nameOf n) = none := by
    refine List.find?_eq_none.2 fun x hx heq => ?_
    obtain ⟨j, hj, rfl⟩ := mem_map.1 hx
    exact nameOf_ne (mem_range.1 hj) (by omega : n < 131) (append_right_inj' (of_decide_eq_true heq)).symm
  have hevent : Prog.Ends exec i (ensureEvent taskA (amendRow n)).run (halfway n) (.ok ()) (amended (n + 1)) := by
    refine ends_then (ends_read (choice n hn) (a := none) ?_) ?_
    · rw [exec]
      exact congrArg (·, halfway n) hfind
    refine ends_then (ends_read (choice n hn) (q := .id) (a := ⟨nameOf n, (choice n hn).guid_ne⟩) rfl) ?_
    refine ends_then (ends_then (ends_read (choice n hn) rfl) (ends_ensured rfl)) ?_
    exact ends_then (ends_answer (choice n hn) (exec_insertEvent hn rfl)) ends_value
  exact ends_then ends_value (ends_then hevent ends_value)

theorem ends_storeTransition :
    Prog.Ends exec i (storeTransition (amendRow n)).run (amended n) (.ok (amendRow n)) (halfway n) := by
  refine ends_then (t := amended n) (a := ()) ?_ ?_
  · exact ends_then (ends_read (choice n hn) (a := some taskA) rfl) (ends_ensured rfl)
  · exact ends_then (ends_answer (choice n hn) (exec_insertTransition hn rfl)) ends_value

/-- The head is not in the way, and the row is the one above. -/
theorem ends_decided : Prog.Ends exec i
    (decided digest (amendCommand n) taskA ⟨owner, true, true, 3600000⟩ "digest" ((amended n).head "A")).run
    (amended n) (.ok (amendResult n, ⟨owner, true, true, 3600000⟩)) (amended (n + 1)) := by
  have hhead : ∃ h, (amended n).head "A" = h ∧ h.id = expected n ∧ h.kind ≠ .commit ∧ h.kind ≠ .cancel ∧
      h.context_version.all (· ≤ 1) ∧ h.version = n + 1 := by
    rw [head_amended]
    cases n with
    | zero => exact ⟨_, rfl, rfl, nofun, nofun, rfl, rfl⟩
    | succ => exact ⟨_, rfl, rfl, nofun, nofun, rfl, rfl⟩
  obtain ⟨h, heq, hid, hcommit, hcancel, hversion, hnumber⟩ := hhead
  rw [heq]
  refine ends_then (ends_ensured hid) (ends_then (ends_ensured hcommit) ?_)
  refine ends_then (ends_ensured hcancel) (ends_then (ends_ensured hversion) ?_)
  refine ends_then (ends_read (choice n hn) (q := .id) (a := ⟨nameOf n, (choice n hn).guid_ne⟩) rfl) ?_
  refine ends_then ?_
    (ends_then (ends_storeTransition hn) (ends_then (ends_resultOf hn) ends_value))
  have hmin : min taskA.expires_at (0 + 300000) = 300000 := by decide +kernel
  have hrow : { (amendCommand n).row taskA h (nameOf n) "digest" with
      proposal := some amendProposal
      payload_hash := some (fingerprint digest (proposalJson amendProposal))
      expires_at := some (min taskA.expires_at (0 + 300000)) } = amendRow n := by
    rw [hmin, Command.row, hid, hnumber]
    rfl
  rw [← hrow]
  exact ends_then ends_proposalOf (ends_then (ends_read (choice n hn) (exec_now ⟨rfl, rfl⟩)) ends_value)

/-- The `n`-th command is accepted. -/
theorem ends_command (hi : Inv (amended n)) : Prog.Ends exec i (command digest "A" (amendInput n)).run (amended n)
    (.ok (amendResult n, ⟨owner, true, true, 3600000⟩)) (amended (n + 1)) := by
  have hids : Guids (amended n) := by
    intro task htask
    rw [mem_singleton.1 htask]
    decide
  have hfind : (amended n).transitions.find? (fun r => r.command_id = nameOf n) = none := by
    refine List.find?_eq_none.2 fun x hx heq => ?_
    obtain ⟨j, hj, rfl⟩ := mem_amended hx
    exact nameOf_ne hj (by omega : n < 131) (of_decide_eq_true heq).symm
  rw [command_eq]
  refine ends_then (ends_commandOf hn) (ends_then (ends_taskOf (c := choice n hn) ⟨rfl, rfl⟩) ?_)
  refine ends_then (ends_read (choice n hn) (a := none) ?_) ?_
  · rw [exec]
    exact congrArg (·, amended n) hfind
  refine (ends_after_headOf (t := 0) hi hids (mem_cons_self (a := taskA))).2 ?_
  have hlen : ((amended n).changes "A").length ≤ 128 := by
    rw [length_changes_amended]
    omega
  rw [show taskA.id = "A" from rfl, if_pos hlen]
  exact ends_decided hn

end Step

/-! ## The run -/

theorem ends_create {i : ℕ} : Prog.Ends exec i (create digest (createInput "a")).run (Store.init 0)
    (.ok ⟨"A", "root", "revision"⟩) (amended 0) := by
  have hnow : exec i (chosen "A" (by decide)) (Store.init 0) .now = (0, Store.init 0) := by
    rw [exec, show max (Store.init 0).clock (chosen "A" (by decide)).clock = 0 from max_self 0]
    rfl
  have hactor : Prog.Ends exec i (actor none false).run (Store.init 0)
      (.ok ⟨owner, true, true, 3600000⟩) (Store.init 0) := by
    refine ends_then (ends_read (chosen "A" (by decide)) (a := some ⟨owner, true, true, 3600000⟩) rfl) ?_
    refine ends_then (ends_some rfl) (ends_then (ends_ensured ⟨rfl, nofun⟩) ?_)
    refine ends_then (ends_read (chosen "A" (by decide)) hnow) (ends_then (ends_ensured (by decide)) ?_)
    exact ends_then (ends_ensured (by decide)) ends_value
  refine ends_then (ends_schema (by decide)) (ends_then (ends_idOf (by decide)) ?_)
  refine ends_then (ends_some (a := "order") (by decide)) (ends_then (ends_ensured rfl) ?_)
  refine ends_then hactor (ends_then (ends_read (chosen "A" (by decide)) (a := none) rfl) ?_)
  refine ends_then (ends_read (chosen "A" (by decide)) (q := .id) (a := ⟨"A", by decide⟩) rfl) ?_
  refine ends_then (ends_read (chosen "A" (by decide)) hnow) ?_
  have hmin : min (3600000 : ℚ) (0 + 3600000) = 3600000 := by decide +kernel
  rw [hmin]
  exact ends_then (a := true) (t := amended 0) (ends_answer (chosen "A" (by decide)) rfl)
    (ends_then (ends_ensured rfl) ends_value)

/-- A request that is started and goes on alone. -/
theorem serve_of_ends (hash : List Char → String) (clock : ℚ) (as : List (Act Choice Request)) {s' : Store}
    {r : Request} {a : Response}
    (h : Prog.Ends exec (serve hash clock as).threads.length (prog hash r) (serve hash clock as).state (.ok a) s') :
    ∃ bs, (serve hash clock (as ++ bs)).state = s' ∧ Gives (serve hash clock (as ++ bs)) r a ∧
      ∀ r' a', Gives (serve hash clock as) r' a' → Gives (serve hash clock (as ++ bs)) r' a' := by
  obtain ⟨cs, hcs⟩ := run_of_ends
    (p := ⟨(serve hash clock as).state, (serve hash clock as).threads ++ [(r, prog hash r)]⟩) h
    List.getElem?_concat_length
  have hrun : serve hash clock (as ++ .start r :: cs.map (Act.go _)) = _ :=
    (Runs.run_append _ _ _ _).trans hcs
  have hset : ((serve hash clock as).threads ++ [(r, prog hash r)]).set (serve hash clock as).threads.length
      (r, .done (.ok a)) = (serve hash clock as).threads ++ [(r, .done (.ok a))] := by simp
  rw [hset] at hrun
  refine ⟨_, by rw [hrun], ?_, fun r' a' h' => ?_⟩
  · rw [Gives, hrun]
    exact mem_append_right _ mem_cons_self
  · rw [Gives, hrun]
    exact mem_append_left _ h'

/-- The caller has amended the proposal `n` times. -/
theorem amends (n : ℕ) (hn : n ≤ 129) : ∃ as, (serve digest 0 as).state = amended n ∧
    ∀ k < n, Gives (serve digest 0 as) (.command "A" (amendInput k))
      (.command (amendResult k) ⟨owner, true, true, 3600000⟩) := by
  induction n with
  | zero =>
    obtain ⟨bs, hstate, -⟩ := serve_of_ends digest 0 [] (r := .create (createInput "a"))
      (ends_then ends_create ends_value)
    exact ⟨bs, hstate, nofun⟩
  | succ n ih =>
    obtain ⟨as, hstate, hgives⟩ := ih (by omega)
    have hi := (serve_ok digest 0 as).1
    rw [hstate] at hi
    have hends : Prog.Ends exec (serve digest 0 as).threads.length (prog digest (.command "A" (amendInput n)))
        (serve digest 0 as).state (.ok (.command (amendResult n) ⟨owner, true, true, 3600000⟩)) (amended (n + 1)) := by
      rw [hstate]
      exact ends_then (ends_command (by omega) hi) ends_value
    obtain ⟨bs, hstate', hgives', hkeep⟩ := serve_of_ends _ _ _ hends
    refine ⟨as ++ bs, hstate', fun k hk => ?_⟩
    rcases Nat.lt_succ_iff_lt_or_eq.1 hk with hk | rfl
    · exact hkeep _ _ (hgives k hk)
    · exact hgives'

theorem guids_amended (n : ℕ) : Guids (amended n) := by
  intro task htask
  rw [mem_singleton.1 htask]
  decide

/-- A caller of the task finds it unreadable after 129 commands, which were all accepted. -/
theorem amended_unreadable : ∃ as, (∀ k < 129, Gives (serve digest 0 as) (.command "A" (amendInput k))
      (.command (amendResult k) ⟨owner, true, true, 3600000⟩)) ∧
    (∃ task a s', Prog.Ends exec 0 (taskOf "A" false).run (serve digest 0 as).state (.ok (task, a)) s') ∧
    (∃ s', Prog.Ends exec 0 (status "A").run (serve digest 0 as).state (.error "invalid_chain") s') ∧
    ¬ Readable digest 0 (serve digest 0 as).state "A" := by
  obtain ⟨as, hstate, hgives⟩ := amends 129 le_rfl
  have hcaller : Prog.Ends exec 0 (taskOf "A" false).run (serve digest 0 as).state
      (.ok (taskA, ⟨owner, true, true, 3600000⟩)) (serve digest 0 as).state := by
    rw [hstate]
    exact ends_taskOf (c := chosen "A" (by decide)) ⟨rfl, rfl⟩
  have hlen : ¬((serve digest 0 as).state.changes "A").length ≤ 128 := by
    rw [hstate, length_changes_amended]
    omega
  have hids : Guids (serve digest 0 as).state := by
    rw [hstate]
    exact guids_amended 129
  have hends := status_unreadable (serve_ok digest 0 as).1 hids hlen hcaller
  exact ⟨as, hgives, ⟨_, _, _, hcaller⟩, ⟨_, hends⟩, fun h => (h.status _ _ hends).1 rfl⟩

/-- After one command it is readable. -/
theorem readable_iff_amended : ∃ as, (serve digest 0 as).state = amended 1 ∧
    (Readable digest 0 (serve digest 0 as).state "A" ↔ ((serve digest 0 as).state.changes "A").length ≤ 128) := by
  obtain ⟨as, hstate, -⟩ := amends 1 (by omega)
  refine ⟨as, hstate, readable_iff digest 0 as ?_ ?_⟩
  · rw [hstate]
    exact guids_amended 1
  · rw [hstate]
    exact ⟨_, _, _, ends_taskOf (c := chosen "A" (by decide)) ⟨rfl, rfl⟩⟩

end StrixAlloy.OrderTasks

import StrixAlloy.TaskStore.Validate

/-!
# What is admitted

The nodes of a JSON value by recursion on it, each with its depth, and what `_validate_json` asks of every one of them
(`Admissible`). The walk over the stack visits these nodes, so that it accepts exactly the admissible values
(`validateStack_eq_ok`), and what it has visited and still has to visit never exceeds the number of nodes that it allows.
-/

namespace Json

mutual

/-- The nodes of a value that stands at `depth`, each with its own depth. -/
def nodes (depth : ℕ) : Json → List (Json × ℕ)
  | .list items => (.list items, depth) :: itemNodes (depth + 1) items
  | .dict members => (.dict members, depth) :: memberNodes (depth + 1) members
  | v => [(v, depth)]

/-- The nodes of the items of a list. -/
def itemNodes (depth : ℕ) : List Json → List (Json × ℕ)
  | [] => []
  | v :: vs => nodes depth v ++ itemNodes depth vs

/-- The nodes of the members of an object. -/
def memberNodes (depth : ℕ) : List (String × Json) → List (Json × ℕ)
  | [] => []
  | (_, v) :: ms => nodes depth v ++ memberNodes depth ms

end

/-- The values inside a list or an object. -/
def children : Json → List Json
  | .list items => items
  | .dict members => members.map Prod.snd
  | _ => []

/-- The field names of an object. -/
def keys : Json → List String
  | .dict members => members.map Prod.fst
  | _ => []

theorem itemNodes_eq (depth : ℕ) (vs : List Json) : itemNodes depth vs = vs.flatMap (nodes depth) := by
  induction vs with
  | nil => rfl
  | cons v vs ih => rw [itemNodes, ih, List.flatMap_cons]

theorem memberNodes_eq (depth : ℕ) (ms : List (String × Json)) :
    memberNodes depth ms = (ms.map Prod.snd).flatMap (nodes depth) := by
  induction ms with
  | nil => rfl
  | cons m ms ih =>
    obtain ⟨k, v⟩ := m
    rw [memberNodes, ih, List.map_cons, List.flatMap_cons]

/-- The nodes of a value are the value and the nodes of what is inside. -/
theorem nodes_eq (depth : ℕ) (v : Json) : nodes depth v = (v, depth) :: v.children.flatMap (nodes (depth + 1)) := by
  cases v with
  | list => rw [nodes, itemNodes_eq, children]
  | dict => rw [nodes, memberNodes_eq, children]
  | _ => rfl

/-- The number of a node has a text: it is finite, and it has no more digits than the interpreter converts. -/
def isPrintable : Json → Bool
  | .int n => (Nat.toDigits 10 n.natAbs).length ≤ 4300
  | .nonfinite _ => false
  | _ => true

mutual

/-- A value is encoded exactly when the number of each node is. -/
theorem encodable_iff : ∀ (depth : ℕ) (v : Json), encodable v ↔ ∀ n ∈ nodes depth v, n.1.isPrintable
  | depth, .list items => by
    simp [encodable, nodes, isPrintable, encodableItems_iff (depth + 1) items]
  | depth, .dict members => by
    simp [encodable, nodes, isPrintable, encodableMembers_iff (depth + 1) members]
  | _, .null | _, .bool _ | _, .int _ | _, .float _ | _, .nonfinite _ | _, .str _ => by
    simp [encodable, nodes, isPrintable]

theorem encodableItems_iff : ∀ (depth : ℕ) (vs : List Json),
    encodableItems vs ↔ ∀ n ∈ itemNodes depth vs, n.1.isPrintable
  | _, [] => by simp [encodableItems, itemNodes]
  | depth, v :: vs => by
    rw [encodableItems, Bool.and_eq_true, encodable_iff depth v, encodableItems_iff depth vs, itemNodes,
      List.forall_mem_append]

theorem encodableMembers_iff : ∀ (depth : ℕ) (ms : List (String × Json)),
    encodableMembers ms ↔ ∀ n ∈ memberNodes depth ms, n.1.isPrintable
  | _, [] => by simp [encodableMembers, memberNodes]
  | depth, (_, v) :: ms => by
    rw [encodableMembers, Bool.and_eq_true, encodable_iff depth v, encodableMembers_iff depth ms, memberNodes,
      List.forall_mem_append]

end

end Json

namespace StrixAlloy.TaskStore

open Checked

/-- What `_validate_json` asks of one node in its walk. -/
structure NodeOk (limit : ℕ) (n : Json × ℕ) : Prop where
  depth : n.2 ≤ maxJsonDepth
  keys : ∀ k ∈ n.1.keys, printableKey k ∧ ¬ credentialShaped k
  string : ∀ s, n.1 = .str s → s.length ≤ limit

/-- What `_validate_json` admits. -/
structure Admissible (limit : ℕ) (v : Json) : Prop where
  count : (v.nodes 0).length ≤ maxJsonNodes
  nodes : ∀ n ∈ v.nodes 0, NodeOk limit n
  numbers : ∀ n ∈ v.nodes 0, n.1.isPrintable
  text : (Json.dumps v).length ≤ limit

/-! ## The walk -/

/-- What one iteration of the loop leaves on the stack. -/
def visit (limit budget : ℕ) (n : Json × ℕ) (stack : List (Json × ℕ)) : Except StoreError (List (Json × ℕ)) := do
  require (n.2 ≤ maxJsonDepth) (.invalid "payload too complex")
  match n.1 with
  | .dict members =>
    require (members.length + stack.length ≤ budget) (.invalid "payload too complex")
    require (∀ m ∈ members, printableKey m.1 ∧ ¬ credentialShaped m.1) (.invalid "invalid payload")
    return (members.map fun m => (m.2, n.2 + 1)).reverse ++ stack
  | .list items =>
    require (items.length + stack.length ≤ budget) (.invalid "payload too complex")
    return (items.map fun v => (v, n.2 + 1)).reverse ++ stack
  | .str s =>
    require (s.length ≤ limit) (.invalid "payload too large")
    return stack
  | _ => return stack

/-- The loop is its iterations. -/
theorem validateStack_cons (limit budget : ℕ) (n : Json × ℕ) (stack : List (Json × ℕ)) :
    validateStack limit (budget + 1) (n :: stack) = visit limit budget n stack >>= validateStack limit budget := by
  obtain ⟨item, depth⟩ := n
  unfold validateStack visit
  cases item <;> simp only [bind_assoc, pure_bind]

/-- The nodes of the values on a stack. -/
def stackNodes (stack : List (Json × ℕ)) : List (Json × ℕ) := stack.flatMap fun n => n.1.nodes n.2

/-- A value with what is inside it on the stack. -/
def pushed (n : Json × ℕ) : List (Json × ℕ) := (n.1.children.map fun v => (v, n.2 + 1)).reverse

theorem pushed_dict (members : List (String × Json)) (depth : ℕ) :
    pushed (.dict members, depth) = (members.map fun m => (m.2, depth + 1)).reverse := by
  simp [pushed, Json.children]

variable {budget limit : ℕ} {stack : List (Json × ℕ)}

/-- An iteration that raises nothing found its node in order, with room for what is inside, and pushed that. -/
theorem visit_ok {n : Json × ℕ} {stack' : List (Json × ℕ)} (h : visit limit budget n stack = .ok stack') :
    NodeOk limit n ∧ (n.1.children ≠ [] → n.1.children.length + stack.length ≤ budget) ∧
      stack' = pushed n ++ stack := by
  obtain ⟨item, depth⟩ := n
  cases item with
  | dict =>
    simp only [visit, bind_eq_ok, require_eq_ok, pure_eq_ok] at h
    obtain ⟨-, hdepth, -, hroom, -, hkeys, rfl⟩ := h
    refine ⟨⟨hdepth, List.forall_mem_map.2 hkeys, fun _ e => by cases e⟩, fun _ => ?_, by rw [pushed_dict]⟩
    simpa [Json.children] using hroom
  | list =>
    simp only [visit, bind_eq_ok, require_eq_ok, pure_eq_ok] at h
    obtain ⟨-, hdepth, -, hroom, rfl⟩ := h
    exact ⟨⟨hdepth, List.forall_mem_nil _, fun _ e => by cases e⟩, fun _ => hroom, rfl⟩
  | str =>
    simp only [visit, bind_eq_ok, require_eq_ok, pure_eq_ok] at h
    obtain ⟨-, hdepth, -, hlength, rfl⟩ := h
    refine ⟨⟨hdepth, List.forall_mem_nil _, ?_⟩, fun hne => absurd rfl hne, rfl⟩
    rintro _ ⟨⟩
    exact hlength
  | _ =>
    simp only [visit, bind_eq_ok, require_eq_ok, pure_eq_ok] at h
    obtain ⟨-, hdepth, rfl⟩ := h
    exact ⟨⟨hdepth, List.forall_mem_nil _, fun _ e => by cases e⟩, fun hne => absurd rfl hne, rfl⟩

/-- An iteration raises nothing at a node in order with room for what is inside. -/
theorem visit_of_nodeOk {n : Json × ℕ} (h : NodeOk limit n) (hroom : n.1.children.length + stack.length ≤ budget) :
    visit limit budget n stack = .ok (pushed n ++ stack) := by
  obtain ⟨item, depth⟩ := n
  cases item with
  | dict =>
    simp only [visit, bind_eq_ok, require_eq_ok, pure_eq_ok, pushed_dict]
    exact ⟨(), h.depth, (), by simpa [Json.children] using hroom, (), List.forall_mem_map.1 h.keys, trivial⟩
  | list =>
    simp only [visit, bind_eq_ok, require_eq_ok, pure_eq_ok]
    exact ⟨(), h.depth, (), hroom, rfl⟩
  | str s =>
    simp only [visit, bind_eq_ok, require_eq_ok, pure_eq_ok]
    exact ⟨(), h.depth, (), h.string s rfl, rfl⟩
  | _ =>
    simp only [visit, bind_eq_ok, require_eq_ok, pure_eq_ok]
    exact ⟨(), h.depth, rfl⟩

/-- A node on the stack stands for itself and for the nodes that are pushed for it. -/
theorem stackNodes_cons (n : Json × ℕ) (stack : List (Json × ℕ)) :
    (stackNodes (n :: stack)).Perm (n :: stackNodes (pushed n ++ stack)) := by
  have hpushed : (stackNodes (pushed n)).Perm (n.1.children.flatMap (Json.nodes (n.2 + 1))) := by
    unfold stackNodes pushed
    refine ((List.reverse_perm _).flatMap_right _).trans ?_
    rw [List.flatMap_map]
  unfold stackNodes at hpushed ⊢
  rw [List.flatMap_cons, List.flatMap_append, Json.nodes_eq, List.cons_append]
  exact ((hpushed.symm.append_right _)).cons n

/-- There are as many nodes as values at least. -/
theorem length_le_stackNodes (stack : List (Json × ℕ)) : stack.length ≤ (stackNodes stack).length := by
  induction stack with
  | nil => exact le_rfl
  | cons n stack ih =>
    unfold stackNodes at ih ⊢
    rw [List.flatMap_cons, Json.nodes_eq, List.length_append, List.length_cons, List.length_cons]
    omega

/-- The walk accepts a stack exactly when the nodes of its values are no more than the budget, and all in order. -/
theorem validateStack_eq_ok : validateStack limit budget stack = .ok () ↔
      (stackNodes stack).length ≤ budget ∧ ∀ n ∈ stackNodes stack, NodeOk limit n := by
  induction budget generalizing stack with
  | zero =>
    cases stack with
    | nil => simp [validateStack, stackNodes]
    | cons n stack =>
      have hlength := (stackNodes_cons n stack).length_eq
      simp [validateStack, hlength]
  | succ budget ih =>
    cases stack with
    | nil => simp [validateStack, stackNodes]
    | cons n stack =>
      have hperm := stackNodes_cons n stack
      rw [validateStack_cons, bind_eq_ok, hperm.length_eq, List.length_cons, Nat.add_le_add_iff_right]
      constructor
      · rintro ⟨stack', hvisit, hrest⟩
        obtain ⟨hnode, -, rfl⟩ := visit_ok hvisit
        obtain ⟨hlength, hnodes⟩ := ih.1 hrest
        exact ⟨hlength, fun m hm => List.forall_mem_cons.2 ⟨hnode, hnodes⟩ m (hperm.mem_iff.1 hm)⟩
      · rintro ⟨hlength, hnodes⟩
        have hall := List.forall_mem_cons.1 fun m hm => hnodes m (hperm.mem_iff.2 hm)
        refine ⟨_, visit_of_nodeOk hall.1 ?_, ih.2 ⟨hlength, hall.2⟩⟩
        have hroom := (length_le_stackNodes (pushed n ++ stack)).trans hlength
        rwa [List.length_append, pushed, List.length_reverse, List.length_map] at hroom

/-- `_validate_json` admits what is admissible. -/
theorem validateJson_eq_ok {v : Json} : validateJson v limit = .ok () ↔ Admissible limit v := by
  have hnodes : stackNodes [(v, 0)] = v.nodes 0 := by simp [stackNodes]
  simp only [validateJson, bind_eq_ok, require_eq_ok]
  constructor
  · rintro ⟨⟨⟩, hwalk, ⟨⟩, hnumbers, hlength⟩
    obtain ⟨hcount, hall⟩ := validateStack_eq_ok.1 hwalk
    rw [hnodes] at hcount hall
    exact ⟨hcount, hall, (Json.encodable_iff 0 v).1 hnumbers, hlength⟩
  · rintro ⟨hcount, hall, hnumbers, hlength⟩
    exact ⟨(), validateStack_eq_ok.2 (by rw [hnodes]; exact ⟨hcount, hall⟩), (), (Json.encodable_iff 0 v).2 hnumbers,
      hlength⟩

/-! ## What is pending -/

/-- The loop begins an iteration after so many visited nodes with such a stack. -/
inductive Begins (limit : ℕ) (v : Json) : ℕ → List (Json × ℕ) → Prop where
  | start : Begins limit v 0 [(v, 0)]
  | next {visited : ℕ} {n : Json × ℕ} {stack stack' : List (Json × ℕ)} (h : Begins limit v visited (n :: stack))
      (hbudget : visited < maxJsonNodes) (hvisit : visit limit (maxJsonNodes - (visited + 1)) n stack = .ok stack') :
      Begins limit v (visited + 1) stack'

/-- The walk is at a point with so many visited nodes and such a stack: between two iterations, when a node was popped,
or when there was room for what is inside and some of it is pushed. -/
inductive Point (limit : ℕ) (v : Json) : ℕ → List (Json × ℕ) → Prop where
  | between {visited : ℕ} {stack : List (Json × ℕ)} (h : Begins limit v visited stack) : Point limit v visited stack
  | popped {visited : ℕ} {n : Json × ℕ} {stack : List (Json × ℕ)} (h : Begins limit v visited (n :: stack)) :
      Point limit v (visited + 1) stack
  | pushing {visited : ℕ} {n : Json × ℕ} {stack : List (Json × ℕ)} (h : Begins limit v visited (n :: stack))
      (hroom : n.1.children.length + stack.length ≤ maxJsonNodes - (visited + 1)) (done : ℕ) :
      Point limit v (visited + 1) (((n.1.children.take done).map fun w => (w, n.2 + 1)).reverse ++ stack)

/-- What was visited and what is pending fits into the number of nodes where an iteration begins. -/
theorem Begins.length_le {v : Json} {visited : ℕ} (h : Begins limit v visited stack) :
    visited + stack.length ≤ maxJsonNodes := by
  induction h with
  | start =>
    show 0 + 1 ≤ 2048
    omega
  | next h hbudget hvisit ih =>
    obtain ⟨-, hroom, rfl⟩ := visit_ok hvisit
    rename_i visited n stack
    rw [List.length_cons] at ih
    rw [List.length_append, pushed, List.length_reverse, List.length_map]
    by_cases hne : n.1.children = []
    · rw [hne, List.length_nil]
      omega
    · have hle := hroom hne
      omega

/-- What was visited and what is pending fits into the number of nodes at every point of the walk. -/
theorem Point.length_le {v : Json} {visited : ℕ} (h : Point limit v visited stack) :
    visited + stack.length ≤ maxJsonNodes := by
  cases h with
  | between h => exact h.length_le
  | popped h =>
    have hle := h.length_le
    rw [List.length_cons] at hle
    omega
  | pushing h =>
    have hle := h.length_le
    rw [List.length_cons] at hle
    rw [List.length_append, List.length_reverse, List.length_map, List.length_take]
    omega

/-- `_validate_json` admits what is admissible, and nowhere in its walk do the visited and the pending nodes exceed the
number of nodes that it allows. -/
theorem validateJson_spec (limit : ℕ) (v : Json) : (validateJson v limit = .ok () ↔ Admissible limit v) ∧
    ∀ visited stack, Point limit v visited stack → visited + stack.length ≤ maxJsonNodes :=
  ⟨validateJson_eq_ok, fun _ _ h => h.length_le⟩

/-- A field name that ends in `auth` is refused, although no credential fragment is in it. -/
theorem auth_refused : validateJson (.dict [("auth", .null)]) defaultLimit = .error (.invalid "invalid payload") ∧
    ((Json.dict [("auth", .null)]).nodes 0).length ≤ maxJsonNodes ∧
    (∀ n ∈ (Json.dict [("auth", .null)]).nodes 0, n.2 ≤ maxJsonDepth ∧ n.1.isPrintable ∧
      (∀ k ∈ n.1.keys, printableKey k ∧ ∀ part ∈ credentialKeyParts, ¬ part.toList <:+: normalizedKey k) ∧
      ∀ s, n.1 = .str s → s.length ≤ defaultLimit) ∧
    ((Json.dumps (.dict [("auth", .null)])).map Char.utf8Size).sum ≤ defaultLimit := by
  refine ⟨by decide +kernel, by decide +kernel, ?_, by decide +kernel⟩
  have hnodes : (Json.dict [("auth", .null)]).nodes 0 = [(.dict [("auth", .null)], 0), (.null, 1)] := rfl
  rw [hnodes]
  refine List.forall_mem_cons.2 ⟨⟨by decide, rfl, by decide +kernel, nofun⟩, List.forall_mem_singleton.2 ?_⟩
  exact ⟨by decide, rfl, nofun, nofun⟩

end StrixAlloy.TaskStore

import StrixAlloy.OrderTasks.Repository

/-!
# The control of the order tasks

`LocalLLMVoiceTaskControl` and `LocalLLMVoiceOrderGuard` as programs over the tables: what the requests
`create`, `status`, `operation` and `command` ask, check, store and answer. An input is a value that
`LocalLLMVoiceResource` has parsed, so without arrays, and with an integral number as an `int`, however it
was written. `hash` stands for the digest of a text.
-/

namespace StrixAlloy.OrderTasks

open Interleave

abbrev Members := List (String × Json)

/-! ## Checks -/

/-- The characters of `[A-Za-z0-9]`. -/
def isAlnum (c : Char) : Bool := c.isAlpha || c.isDigit

/-- `_id`'s expression. -/
def isId (s : String) : Bool :=
  match s.toList with
  | [] => false
  | c :: cs => isAlnum c && cs.length ≤ 127 && cs.all fun c => isAlnum c || c ∈ ['_', '.', ':', '-']

/-- `_id`, for a value of a request. -/
def idOf (v : Option Json) : Action String :=
  match v with
  | some (.str s) => do
    ensure (isId s) "invalid_identifier"
    pure s
  | _ => throw "invalid_identifier"

/-- The sorted keys, joined. -/
def joined (keys : List String) : String := "|".intercalate (keys.insertionSort (· ≤ ·))

/-- `_schema`. -/
def schema (value : Option Json) (required : List String) : Action Members :=
  match value with
  | some (.dict members) => do
    ensure (joined (members.map Prod.fst) = joined required) "invalid_schema"
    pure members
  | _ => throw "invalid_schema"

mutual

/-- `_canonical`. -/
def canonical : Json → List Char
  | .dict members => '{' :: (canonicalMembers members ++ ['}'])
  | v => v.text

def canonicalMembers : List (String × Json) → List Char
  | [] => []
  | [(k, v)] => Json.quote k ++ ':' :: canonical v
  | (k, v) :: ms => Json.quote k ++ ':' :: (canonical v ++ ',' :: canonicalMembers ms)

end

/-- The fingerprint of a value: the digest of its canonical text, whose members are sorted. -/
def fingerprint (hash : List Char → String) (v : Json) : String := hash (canonical v.sortKeys)

/-- `_binding`. -/
def bindingJson (b : Binding) : Json :=
  .dict [("principal", .str b.principal), ("service", .str b.service), ("agent", .str b.agent),
    ("tool", .str b.tool), ("registry_revision", .str b.registry_revision)]

def proposalJson (p : Proposal) : Json := .dict (p.map fun m => (m.1, .str m.2))

/-- The characters of `\s`. -/
def isSpace (c : Char) : Bool :=
  c.toNat ∈ [9, 10, 11, 12, 13, 32, 160, 5760, 8232, 8233, 8239, 8287, 12288, 65279] ||
    (8192 ≤ c.toNat && c.toNat ≤ 8202)

/-- `value.replace(/^\s+|\s+$/g, '')`. -/
def trim (s : String) : String :=
  String.ofList ((s.toList.dropWhile isSpace).reverse.dropWhile isSpace).reverse

/-- `length`, in UTF-16 units. -/
def units (s : String) : ℕ := (s.toList.map fun c => if c.toNat < 65536 then 1 else 2).sum

/-- `/^\d{4}-\d{2}-\d{2}$/`. -/
def isDate (s : String) : Bool :=
  match s.toList with
  | [a, b, c, d, '-', e, f, '-', g, h] => [a, b, c, d, e, f, g, h].all Char.isDigit
  | _ => false

/-- One field of a proposal. -/
def proposalField (m : String × Json) : Option (String × String) :=
  match m.2 with
  | .str s =>
    if trim s = "" ∨ 100 < units s ∨ s.toList.any (fun c => c.toNat < 32 || c.toNat = 127) then none
    else some (m.1, trim s)
  | _ => none

/-- `_proposal`. -/
def proposalOf (input : Option Json) : Action Proposal := do
  let members ← schema input ["employee_name", "start_date", "delivery_location", "manager_name"]
  let out ← getSome (members.mapM proposalField) "invalid_proposal"
  ensure ((out.lookup "start_date").any isDate) "invalid_proposal"
  pure out

/-! ## Owners -/

/-- The fields that `_actor` compares. -/
def Binding.fields : List (Binding → String) := [principal, service, agent, tool, registry_revision]

/-- What its loop fails with, at the first field that is no identifier or not the task's. -/
def Binding.refusal (b : Binding) (task : Option Task) : Option String :=
  fields.findSome? fun field =>
    if ¬ isId (field b) then some "invalid_identifier"
    else if task.any fun t => field t.binding ≠ field b then some "denied"
    else none

/-- `_actor`. -/
def actor (task : Option Task) (write : Bool) : Action Authority := do
  let answer ← step (.authorize write)
  let a ← getSome answer "denied"
  ensure (a.execute ∧ (write → a.write)) "denied"
  let now ← step .now
  ensure (now < a.expires_at) "denied"
  ensure (a.binding.refusal task = none) ((a.binding.refusal task).getD "denied")
  match task with
  | none => pure a
  | some task => do
    let now ← step .now
    ensure (now < task.expires_at) "denied"
    pure a

/-- `_task`, with the authority of the caller. -/
def taskOf (id : String) (write : Bool) : Action (Task × Authority) := do
  ensure (isId id) "invalid_identifier"
  let found ← step (.taskById id)
  let task ← getSome found "denied"
  let a ← actor (some task) write
  pure (task, a)

/-! ## Chains -/

/-- The value of the unique column that a successor takes. -/
def slot (task_id predecessor : String) : String := task_id ++ ":" ++ predecessor

/-- The head of a task without transitions. -/
def root (task_id : String) : Transition where
  id := "root"
  task_id := task_id
  predecessor_slot := ""
  predecessor := ""
  command_id := ""
  command_hash := ""
  kind := .create
  version := 1
  context_version := none
  binding := ⟨"", "", "", "", ""⟩
  proposal := none
  payload_hash := none
  expires_at := none
  proposal_id := none
  utterance_ref := none
  confirmation_id := none
  operation_key := none
  checked_at := none

/-- The loop of `_head`, with what is left of its count. -/
def headFrom (task : Task) : ℕ → Transition → Action Transition
  | 0, head => do
    let next ← step (.transitionBySlot (slot task.id head.id))
    match next with
    | none => pure head
    | some _ => throw "invalid_chain"
  | n + 1, head => do
    let next ← step (.transitionBySlot (slot task.id head.id))
    match next with
    | none => pure head
    | some next => do
      ensure (next.task_id = task.id ∧ next.version = head.version + 1) "invalid_chain"
      headFrom task n next

/-- `_head`. -/
def headOf (task : Task) : Action Transition := headFrom task 128 (root task.id)

/-! ## The guard -/

/-- The argument of `submit` for a proposal. -/
def submitInput (p : Option Proposal) : SubmitInput :=
  let field name := p.bind fun p => p.lookup name
  ⟨field "employee_name", field "start_date", field "delivery_location", field "manager_name"⟩

/-- A reference in a result, which has to be an identifier. -/
def reference (s : String) : Action String := do
  ensure (isId s) "invalid_identifier"
  pure s

/-- What `dispatch` makes of the result of `submit`: the operation with the receipt it has stored, or
nothing. -/
def settle (key : String) (result : Option SubmitResult) : Action (Option Operation) := do
  let result ← getSome result "submit_failed"
  match result.ok, result.request_id, result.requested_item_id with
  | true, some request_id, some requested_item_id => do
    let request_ref ← reference request_id
    let execution_ref ← reference requested_item_id
    let op ← storeReceipt key ⟨"succeeded", request_ref, some execution_ref⟩
    pure (some op)
  | _, some request_id, _ => do
    let request_ref ← reference request_id
    let op ← storeReceipt key ⟨"outcome_unknown", request_ref, none⟩
    pure (some op)
  | _, none, _ => pure none

/-- The operation that a fence stores. -/
def Transition.operation (fence : Transition) (task : Task) (id key : String) : Operation where
  id := id
  operation_key := key
  task_id := task.id
  binding := task.binding
  fence_id := fence.id
  proposal_id := fence.proposal_id
  confirmation_id := fence.confirmation_id
  payload_hash := fence.payload_hash
  proposal := fence.proposal
  context_version := fence.context_version
  state := "outcome_unknown"
  receipt := none

/-- The operation of a fence, stored unless there is one with its key. -/
def operationFor (task : Task) (fence : Transition) (key : String) : Action (Option Operation) := do
  let found ← getOperation key
  match found with
  | some op => pure (some op)
  | none => do
    let id ← step .id
    requireTask task.id
    let stored ← step (.insertOperation (fence.operation task id.1 key))
    if stored then pure (some (fence.operation task id.1 key)) else getOperation key

/-- `dispatch` after its claim was stored. -/
def submit (task : Task) (key : String) (op : Operation) (claim : Claim) : Action (Option Operation) := do
  let _ ← actor (some task) true
  let settled ← tryCatch (do
      let result ← step (.submit (submitInput op.proposal) claim)
      settle key result)
    fun _ => pure none
  match settled with
  | some op => pure (some op)
  | none => getOperation key

/-- `dispatch`. -/
def dispatch (task : Task) (fence : Transition) : Action (Option Operation) := do
  let (task, _) ← taskOf task.id true
  let found ← step (.transitionById fence.id)
  let stored ← getSome found "fence_denied"
  ensure (stored.kind = .commit ∧ stored.task_id = task.id ∧ stored.command_hash = fence.command_hash)
    "fence_denied"
  let key ← getSome stored.operation_key "fence_denied"
  let op ← operationFor task stored key
  let op ← getSome op "operation_conflict"
  ensure (op.task_id = task.id ∧ op.fence_id = stored.id ∧ op.payload_hash = stored.payload_hash)
    "operation_conflict"
  if op.receipt.isSome then pure (some op)
  else do
    let id ← step .id
    let now ← step .now
    let claim : Claim := ⟨id.1, key, op.id, task.id, now, 0⟩
    requireTask task.id
    let operation ← step (.operationById op.id)
    ensure operation.isSome "operation_reference_unavailable"
    let claimed ← step (.insertClaim claim)
    if claimed then submit task key op claim else getOperation key

/-! ## Requests -/

structure Created where
  task_id : String
  revision : String
  registry_revision : String

/-- The answer of `command`. -/
structure CommandResult where
  task_id : String
  command_id : String
  revision : String
  kind : Kind
  version : ℕ
  proposal : Option Proposal
  payload_hash : Option String
  expires_at : Option ℚ
  operation : Option Operation

/-- The answer of `status`. -/
structure Status where
  task_id : String
  revision : String
  kind : Kind
  version : ℕ
  registry_revision : String
  operation : Option Operation
  event : Option Event

/-- `create`. -/
def create (hash : List Char → String) (input : Json) : Action Created := do
  let members ← schema (some input) ["command_id", "objective", "context_version"]
  let command_id ← idOf (Json.get? members "command_id")
  let objective ← getSome (match Json.get? members "objective" with
    | some (.str s) => if 0 < units s ∧ units s ≤ 4000 then some s else none
    | _ => none) "invalid_task"
  ensure (Json.get? members "context_version" matches some (.int 1)) "invalid_task"
  let a ← actor none false
  let fp := fingerprint hash (.dict [("binding", bindingJson a.binding), ("input", input)])
  let prior ← step (.taskByCommand command_id)
  match prior with
  | some prior => do
    let _ ← actor (some prior) false
    ensure (prior.command_hash = fp) "command_conflict"
    pure ⟨prior.id, "root", prior.binding.registry_revision⟩
  | none => do
    let id ← step .id
    let now ← step .now
    let row : Task := ⟨id.1, command_id, fp, objective, min a.expires_at (now + 3600000), a.binding⟩
    let stored ← step (.insertTask row)
    ensure stored "create_conflict"
    pure ⟨row.id, "root", row.binding.registry_revision⟩

/-- `status`, with the authority of the caller. -/
def status (id : String) : Action (Status × Authority) := do
  let (task, a) ← taskOf id false
  let head ← headOf task
  let event ← (if head.id = "root" then pure none else step (.eventById ("transition:" ++ head.id)))
  let operation ← (match head.kind, head.operation_key with
    | .commit, some key => getOperation key
    | _, _ => pure none)
  pure (⟨task.id, head.id, head.kind, head.version, task.binding.registry_revision, operation, event⟩, a)

/-- `operation`, with the authority of the caller. -/
def operation (key : String) : Action (Operation × Authority) := do
  ensure (isId key) "invalid_identifier"
  let found ← getOperation key
  let op ← getSome found "denied"
  let (_, a) ← taskOf op.task_id false
  pure (op, a)

/-- The event of a transition, unless it is stored. -/
def ensureEvent (task : Task) (row : Transition) : Action Unit := do
  let eventId := "transition:" ++ row.id
  let event ← step (.eventById eventId)
  match event with
  | some _ => pure ()
  | none => do
    let id ← step .id
    requireTask task.id
    let stored ← step (.insertEvent ⟨id.1, eventId, task.id ++ ":" ++ toString row.version, task.id,
      some row.version, some (row.operation_key.getD row.command_id), row.context_version,
      some (match row.kind with
        | .commit => "submitted"
        | .cancel => "cancelled"
        | _ => "awaiting_input"), none⟩)
    if stored then pure ()
    else do
      let event ← step (.eventById eventId)
      ensure event.isSome "event_unavailable"

/-- `_result`. -/
def resultOf (task : Task) (row : Transition) : Action CommandResult := do
  let operation ← (if row.kind = .commit then dispatch task row else pure none)
  ensureEvent task row
  pure {
    task_id := task.id
    command_id := row.command_id
    revision := row.id
    kind := row.kind
    version := row.version
    proposal := row.proposal
    payload_hash := row.proposal.bind fun _ => row.payload_hash
    expires_at := row.proposal.bind fun _ => row.expires_at
    operation := operation }

/-- The kinds of commands, with their fields. -/
def kinds : List (String × Kind × List String) :=
  [("amend", .amend, ["proposal"]), ("prepare", .prepare, ["proposal"]),
   ("confirm", .confirm, ["proposal_id", "utterance_ref"]), ("cancel", .cancel, []),
   ("commit", .commit, ["proposal_id", "confirmation_id", "operation_key"])]

/-- The fields of a command that all kinds have. -/
structure Command where
  members : Members
  kind : Kind
  command_id : String
  expected_revision : String
  context_version : ℤ

/-- The checks of a command that come before any lookup. -/
def commandOf (input : Json) : Action Command := do
  let (kind, fields) ← getSome (match input with
    | .dict members =>
      match Json.get? members "kind" with
      | some (.str k) => kinds.lookup k
      | _ => none
    | _ => none) "invalid_command"
  let members ← schema (some input) (["command_id", "expected_revision", "kind", "context_version"] ++ fields)
  let command_id ← idOf (Json.get? members "command_id")
  let expected_revision ← idOf (Json.get? members "expected_revision")
  let context_version ← getSome (match Json.get? members "context_version" with
    | some (.int n) => if 1 ≤ n ∧ n ≤ 2147483647 then some n else none
    | _ => none) "invalid_command"
  pure ⟨members, kind, command_id, expected_revision, context_version⟩

/-- The successor of a head, without what its kind adds. -/
def Command.row (c : Command) (task : Task) (head : Transition) (id fp : String) : Transition where
  id := id
  task_id := task.id
  predecessor_slot := slot task.id head.id
  predecessor := head.id
  command_id := c.command_id
  command_hash := fp
  kind := c.kind
  version := head.version + 1
  context_version := some c.context_version
  binding := task.binding
  proposal := none
  payload_hash := none
  expires_at := none
  proposal_id := none
  utterance_ref := none
  confirmation_id := none
  operation_key := none
  checked_at := none

/-- A confirmation of the head, which has to be the proposal it names and not to have expired. -/
def confirmRow (c : Command) (head row : Transition) : Action Transition := do
  let proposal_id ← idOf (Json.get? c.members "proposal_id")
  let utterance_ref ← idOf (Json.get? c.members "utterance_ref")
  ensure (head.kind = .prepare ∧ head.id = proposal_id) "proposal_conflict"
  let now ← step .now
  ensure (head.expires_at.any (now < ·)) "proposal_conflict"
  pure { row with
    proposal_id := some head.id
    proposal := head.proposal
    payload_hash := head.payload_hash
    expires_at := head.expires_at
    utterance_ref := some utterance_ref
    checked_at := some now }

/-- A commit of the head, which has to be the confirmation it names and not to have expired; no operation
has its key. -/
def commitRow (c : Command) (head row : Transition) : Action Transition := do
  let proposal_id ← idOf (Json.get? c.members "proposal_id")
  let confirmation_id ← idOf (Json.get? c.members "confirmation_id")
  let operation_key ← idOf (Json.get? c.members "operation_key")
  ensure (head.kind = .confirm ∧ head.id = confirmation_id ∧ head.proposal_id = some proposal_id)
    "confirmation_conflict"
  let now ← step .now
  ensure (head.expires_at.any (now < ·)) "confirmation_conflict"
  let used ← getOperation operation_key
  ensure used.isNone "operation_conflict"
  pure { row with
    operation_key := some operation_key
    proposal_id := head.proposal_id
    confirmation_id := some head.id
    proposal := head.proposal
    payload_hash := head.payload_hash
    expires_at := head.expires_at
    checked_at := some now }

/-- What the kind of a command adds to its row. -/
def completed (hash : List Char → String) (c : Command) (task : Task) (head row : Transition) :
    Action Transition :=
  match c.kind with
  | .prepare | .amend => do
    let proposal ← proposalOf (Json.get? c.members "proposal")
    let now ← step .now
    pure { row with
      proposal := some proposal
      payload_hash := some (fingerprint hash (proposalJson proposal))
      expires_at := some (min task.expires_at (now + 300000)) }
  | .confirm => confirmRow c head row
  | .commit => commitRow c head row
  | .cancel | .create => pure row

/-- The stored successor: the row, or the same command where another request was faster. -/
def storeTransition (row : Transition) : Action Transition := do
  requireTask row.task_id
  let stored ← step (.insertTransition row)
  if stored then pure row
  else do
    let winner ← step (.transitionBySlot row.predecessor_slot)
    let winner ← getSome winner "revision_conflict"
    ensure (winner.command_id = row.command_id ∧ winner.command_hash = row.command_hash)
      "revision_conflict"
    pure winner

/-- `command`, with the authority of the caller. -/
def command (hash : List Char → String) (id : String) (input : Json) :
    Action (CommandResult × Authority) := do
  let c ← commandOf input
  let (task, a) ← taskOf id (c.kind = .commit)
  let fp := fingerprint hash (.dict [("task_id", .str id), ("binding", bindingJson task.binding),
    ("input", input)])
  let prior ← step (.transitionByCommand c.command_id)
  match prior with
  | some prior => do
    ensure (prior.task_id = id ∧ prior.command_hash = fp) "command_conflict"
    let result ← resultOf task prior
    pure (result, a)
  | none => do
    let head ← headOf task
    ensure (head.id = c.expected_revision) "revision_conflict"
    ensure (head.kind ≠ .commit) "correction_deferred"
    ensure (head.kind ≠ .cancel) "task_cancelled"
    ensure (head.context_version.all (· ≤ c.context_version)) "revision_conflict"
    let guid ← step .id
    let row ← completed hash c task head (c.row task head guid.1 fp)
    let row ← storeTransition row
    let result ← resultOf task row
    pure (result, a)

end StrixAlloy.OrderTasks

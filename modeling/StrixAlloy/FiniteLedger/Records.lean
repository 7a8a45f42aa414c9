import Mathlib.Algebra.BigOperators.Group.List.Basic
import StrixAlloy.Lib.Checked
import StrixAlloy.Lib.Json

/-!
# The records of a finite ledger

The fixed workload of a lifecycle, the slots that it offers, and the records that `Ledger` keeps of
them in its directory. A clock reading is an element of a linear order `T` of finite numbers with an
addition, of which no law is used: `now + 60` may round. The digest and the encoding of a record are parameters of the
ledger, so that nothing depends on the digest being injective.
-/

namespace StrixAlloy.FiniteLedger

open Checked

variable {T : Type}

/-- `KINDS`. -/
inductive Kind where
  | ready | models | post
deriving DecidableEq

def Kind.text : Kind → String
  | .ready => "ready"
  | .models => "models"
  | .post => "post"

def kinds : List Kind := [.ready, .models, .post]

/-- A slot, which the code names by the text `kind-ordinal` with three digits. -/
structure Slot where
  kind : Kind
  ordinal : ℕ
deriving DecidableEq

/-- What `_spec` says of a slot. -/
structure Spec where
  method : String
  path : String
  request_id : Option String
  body_bytes : ℕ
  body_sha256 : String
  wire_allowance : ℕ
  evidence_allowance : ℕ
deriving DecidableEq

/-- A row of the workload's `request_pool`, with its body decoded. -/
structure RequestRow where
  id : String
  route : String
  body : List UInt8
  body_bytes : ℕ
  body_sha256 : String
  scheduled : Bool

/-- What the ledger reads of a `PreparedPost`. -/
structure PreparedPost where
  request_id : String
  route : String
  body : List UInt8
  body_sha256 : String

/-- The workload's `limits`. -/
structure Limits (T : Type) where
  operation_seconds : T
  post_response_wire_bytes : ℕ
  get_response_wire_bytes : ℕ
  generated_text_or_tool_argument_utf8_bytes : ℕ
  post_summary_bytes : ℕ
  get_summary_bytes : ℕ

/-- `RECORD_LIMIT`. -/
def recordLimit : ℕ := 4096

/-- `BASE_EVIDENCE_RESERVE`. -/
def baseEvidenceReserve : ℕ := 1048576

/-- A lifecycle of the workload. `steps` are the requests of its posts by their ids. The workload is
pinned by its digest, and its two lifecycles have at most 240 polls and 66 posts and an evidence
limit of 128 MiB or more, so that ordinals have three digits and the base reserve fits. -/
structure Life (T : Type) where
  maximum_post_attempts : ℕ
  maximum_ready_polls : ℕ
  lifetime_seconds : T
  readiness_seconds : T
  maximum_response_wire_bytes : ℕ
  maximum_client_evidence_bytes : ℕ
  steps : List String
  posts_lt : maximum_post_attempts < 1000
  polls_lt : maximum_ready_polls < 1000
  base_le : baseEvidenceReserve ≤ maximum_client_evidence_bytes

/-- `identity.json`. -/
structure Header (T : Type) where
  schema : ℕ
  profile : String
  workload_sha256 : String
  lifecycle : ℕ
  run_id : String
  resumed_at : T
  deadline : T
deriving DecidableEq

/-- `<slot>.reserved.json`. -/
structure Reservation (T : Type) where
  schema : ℕ
  slot : Slot
  spec : Spec
  started : T
  deadline : T

/-- `<slot>.outcome.json`. -/
structure Outcome where
  schema : ℕ
  slot : Slot
  reservation_sha256 : String
  result : Json

/-- `transport-failed.json`. -/
structure Latch (T : Type) where
  schema : ℕ
  run_id : String
  slot : Slot
  deadline : T
  observed_at : T
  code : String

/-- The records that the ledger writes. -/
inductive Record (T : Type) where
  | identity (header : Header T)
  | reservation (row : Reservation T)
  | outcome (row : Outcome)
  | latch (row : Latch T)

/-- `f'{kind}-{ordinal:03d}'`. -/
def Slot.text (slot : Slot) : String :=
  slot.kind.text ++ "-" ++ String.ofList ((Nat.toDigits 10 slot.ordinal).leftpad 3 '0')

/-- The dictionaries that `_encoded` gets, when a clock reading is the number `number t`. -/
def Record.json (number : T → Json) : Record T → Json
  | .identity h => .dict [("schema", .int h.schema), ("profile", .str h.profile),
      ("workload_sha256", .str h.workload_sha256), ("lifecycle", .int h.lifecycle),
      ("run_id", .str h.run_id), ("resumed_at", number h.resumed_at), ("deadline", number h.deadline)]
  | .reservation r => .dict [("schema", .int r.schema), ("kind", .str r.slot.kind.text),
      ("ordinal", .int r.slot.ordinal), ("method", .str r.spec.method), ("path", .str r.spec.path),
      ("request_id", (r.spec.request_id.map Json.str).getD .null), ("body_bytes", .int r.spec.body_bytes),
      ("body_sha256", .str r.spec.body_sha256), ("wire_allowance", .int r.spec.wire_allowance),
      ("evidence_allowance", .int r.spec.evidence_allowance), ("started", number r.started),
      ("deadline", number r.deadline)]
  | .outcome o => .dict [("schema", .int o.schema), ("slot", .str o.slot.text),
      ("reservation_sha256", .str o.reservation_sha256), ("result", o.result)]
  | .latch x => .dict [("schema", .int x.schema), ("run_id", .str x.run_id), ("slot", .str x.slot.text),
      ("deadline", number x.deadline), ("observed_at", number x.observed_at), ("code", .str x.code)]

/-- `_encoded` of a record in which every character is an ASCII one. -/
def Record.ascii (number : T → Json) (record : Record T) : Option (List UInt8) :=
  if Json.encodable (record.json number) then
    some ((Json.dumps (record.json number) ++ ['\n']).flatMap String.utf8EncodeChar)
  else none

/-- `result.get('success')`, when `result` is an object and the member is a boolean. -/
def success? : Json → Option Bool
  | .dict members =>
    match Json.get? members "success" with
    | some (.bool b) => some b
    | _ => none
  | _ => none

/-- The attributes of a ledger that never change, with `sha256(..).hexdigest().upper()` and
`_encoded`, which has no value where `json.dumps` raises. -/
structure Ledger (T : Type) where
  limits : Limits T
  request_pool : List RequestRow
  life : Life T
  header : Header T
  sha256 : List UInt8 → String
  encoded : Record T → Option (List UInt8)

namespace Ledger

variable (l : Ledger T)

/-- `Workload.post`. -/
def post (attempt : ℕ) : Except String PreparedPost := do
  require (1 ≤ attempt ∧ attempt ≤ l.life.maximum_post_attempts) "finite_post_index"
  let step ← orThrow l.life.steps[attempt - 1]? "IndexError"
  let row ← orThrow (l.request_pool.find? fun row => row.id = step) "StopIteration"
  let digest := l.sha256 row.body
  require (row.scheduled ∧ row.body.length = row.body_bytes ∧ digest = row.body_sha256)
    "finite_request_identity"
  pure ⟨row.id, row.route, row.body, digest⟩

/-- The number of slots of a kind. -/
def count : Kind → ℕ
  | .post => l.life.maximum_post_attempts
  | .ready => l.life.maximum_ready_polls
  | .models => 1

theorem count_lt (k : Kind) : l.count k < 1000 := by
  have hposts := l.life.posts_lt
  have hpolls := l.life.polls_lt
  cases k with
  | ready => exact hpolls
  | models => show 1 < 1000; omega
  | post => exact hposts

/-- `_spec` of a slot whose ordinal is in range, for a post with its request. -/
def postSpec (post : PreparedPost) : Spec where
  method := "POST"
  path := post.route
  request_id := some post.request_id
  body_bytes := post.body.length
  body_sha256 := post.body_sha256
  wire_allowance := l.limits.post_response_wire_bytes
  evidence_allowance := l.limits.post_response_wire_bytes
    + l.limits.generated_text_or_tool_argument_utf8_bytes + l.limits.post_summary_bytes + recordLimit

def getSpec (path : String) : Spec where
  method := "GET"
  path := path
  request_id := none
  body_bytes := 0
  body_sha256 := l.sha256 []
  wire_allowance := l.limits.get_response_wire_bytes
  evidence_allowance := l.limits.get_response_wire_bytes + l.limits.get_summary_bytes + recordLimit

/-- `_spec`. -/
def spec (slot : Slot) : Except String Spec := do
  require (1 ≤ slot.ordinal ∧ slot.ordinal ≤ l.count slot.kind) "finite_slot"
  match slot.kind with
  | .post => l.postSpec <$> l.post slot.ordinal
  | .ready => pure (l.getSpec "/ready")
  | .models => pure (l.getSpec "/v1/models")

/-- A slot that has a specification is one of the lifecycle. -/
theorem spec_range {slot : Slot} {sp : Spec} (h : l.spec slot = .ok sp) :
    1 ≤ slot.ordinal ∧ slot.ordinal ≤ l.count slot.kind := by
  unfold spec at h
  rw [require_bind] at h
  split_ifs at h with hr
  exact hr

/-- `_deadline`. -/
def deadline [LinearOrder T] [Add T] (kind : Kind) (now : T) : T :=
  let last := min (now + l.limits.operation_seconds) l.header.deadline
  if kind = .post then last else min last (l.header.resumed_at + l.life.readiness_seconds)

/-- The limit of an outcome's text. -/
def summaryLimit (kind : Kind) : ℕ :=
  if kind = .post then l.limits.post_summary_bytes else l.limits.get_summary_bytes

end Ledger

/-! ## Sums over reservations -/

/-- The wire bytes that some reservations allow. -/
def wireBytes (rows : List (Reservation T)) : ℕ := (rows.map fun r => r.spec.wire_allowance).sum

/-- The evidence bytes that some reservations allow, with the base reserve. -/
def evidenceBytes (rows : List (Reservation T)) : ℕ :=
  baseEvidenceReserve + (rows.map fun r => r.spec.evidence_allowance).sum

/-- The reservations of a kind. -/
def countOf (kind : Kind) (rows : List (Reservation T)) : ℕ :=
  rows.countP fun r => r.slot.kind = kind

variable {rows rows' : List (Reservation T)}

theorem wireBytes_perm (h : rows.Perm rows') : wireBytes rows = wireBytes rows' := (h.map _).sum_eq

theorem evidenceBytes_perm (h : rows.Perm rows') : evidenceBytes rows = evidenceBytes rows' := by
  unfold evidenceBytes
  rw [(h.map _).sum_eq]

theorem countOf_perm {kind : Kind} (h : rows.Perm rows') :
    countOf kind rows = countOf kind rows' := h.countP_eq _

theorem wireBytes_concat (rows : List (Reservation T)) (r : Reservation T) :
    wireBytes (rows ++ [r]) = wireBytes rows + r.spec.wire_allowance := by
  simp [wireBytes]

theorem evidenceBytes_concat (rows : List (Reservation T)) (r : Reservation T) :
    evidenceBytes (rows ++ [r]) = evidenceBytes rows + r.spec.evidence_allowance := by
  simp [evidenceBytes, Nat.add_assoc]

theorem countOf_concat (kind : Kind) (rows : List (Reservation T)) (r : Reservation T) :
    countOf kind (rows ++ [r]) = countOf kind rows + if r.slot.kind = kind then 1 else 0 := by
  simp [countOf, List.countP_append, List.countP_singleton]

end StrixAlloy.FiniteLedger

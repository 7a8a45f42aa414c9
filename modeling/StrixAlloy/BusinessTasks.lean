import StrixAlloy.Lib.Checked
import Mathlib.Data.List.Nodup

/-!
# Identities of call-scoped business tasks

`Scope` and `Agent` are the validated identities of `business_tasks.py`: each carries the proof that
the checks of its constructor passed, so an invalid one cannot be built. The errors are the four
exceptions of the journal, and the three that the database and the interpreter raise by themselves.
-/

namespace StrixAlloy

open Checked

/-- The exceptions that a journal method raises. -/
inductive StoreError where
  /-- `StoreConflict`: an identity or state already has a different binding. -/
  | conflict (message : String)
  /-- `StoreCapacity`: a per-scope capacity limit was reached. -/
  | capacity (message : String)
  /-- `StoreDenied`: the caller has no access to this call-scoped task. -/
  | denied (message : String)
  /-- `StoreInvalid`: an input does not satisfy the store contract. -/
  | invalid (message : String)
  /-- `sqlite3.IntegrityError`: an inserted row repeats a unique column. -/
  | integrity (column : String)
  /-- `TypeError`: a row that a query expects is missing. -/
  | type
  /-- `OverflowError`: an integer of more than 64 bits is bound to a query. -/
  | overflow
deriving DecidableEq

/-- No control character occurs in `value`. -/
def noControl (value : String) : Bool :=
  value.toList.all fun c => 32 ≤ c.toNat && c.toNat ≠ 127

/-- What `bounded_identifier` accepts with `optional=True`. -/
def isOptionalIdentifier (value : String) : Bool := value.length ≤ 128 && noControl value

/-- What `bounded_identifier` accepts. -/
def isIdentifier (value : String) : Bool := value ≠ "" && isOptionalIdentifier value

/-- `bounded_identifier`, without `optional`. -/
def boundedIdentifier (value : String) : Except StoreError Unit :=
  require (isIdentifier value) (.invalid "invalid identifier")

@[simp]
theorem boundedIdentifier_eq_ok {value : String} {u : Unit} :
    boundedIdentifier value = .ok u ↔ isIdentifier value := require_eq_ok

/-- The scope of one call, as its constructor admits it. -/
structure Scope where
  scope_id : String
  call_id : String
  call_generation : ℕ
  instance_id : String
  assistant_id : String
  principal_id : String
  /-- The checks of `__post_init__`. -/
  valid : isIdentifier scope_id ∧ isIdentifier call_id ∧ isIdentifier instance_id ∧
    isIdentifier assistant_id ∧ isOptionalIdentifier principal_id

/-- The columns of a scope that must agree whenever its identifier is used again. -/
def Scope.binding (scope : Scope) : String × ℕ × String × String × String :=
  (scope.call_id, scope.call_generation, scope.instance_id, scope.assistant_id, scope.principal_id)

/-- The characters that `str.isspace` accepts. -/
def isSpace (c : Char) : Bool :=
  let n := c.toNat
  (9 ≤ n && n ≤ 13) || (28 ≤ n && n ≤ 32) || n = 0x85 || n = 0xa0 || n = 0x1680 ||
    (0x2000 ≤ n && n ≤ 0x200a) || n = 0x2028 || n = 0x2029 || n = 0x202f || n = 0x205f || n = 0x3000

/-- A registered agent, as its constructor admits it. The constructor also refuses two routing
aliases that are equal after case folding; no function here depends on that. -/
structure Agent where
  agent_alias : String
  agent_id : String
  revision : String
  capabilities : List (String × Bool)
  name : String
  description : String
  supported_intents : List String
  routing_aliases : List String
  /-- The checks of `__post_init__` on the identities and capabilities. The capabilities are a
  mapping, so that each name occurs once. -/
  valid : isIdentifier agent_alias ∧ isIdentifier agent_id ∧ isIdentifier revision ∧ capabilities ≠ [] ∧
    (capabilities.map Prod.fst).Nodup ∧ ∀ c ∈ capabilities, isIdentifier c.1
  /-- The checks of `__post_init__` on the texts for routing. -/
  described : (name.length ≤ 80 ∧ noControl name) ∧ (description.length ≤ 400 ∧ noControl description) ∧
    supported_intents.length ≤ 16 ∧
    (∀ v ∈ supported_intents, v ≠ "" ∧ v.length ≤ 64 ∧ noControl v) ∧
    routing_aliases.length ≤ 16 ∧
    ∀ v ∈ routing_aliases, (v.toList.any fun c => !isSpace c) ∧ v.length ≤ 80 ∧ noControl v
deriving DecidableEq

/-- `capabilities.get(key, False)`. -/
def capable (capabilities : List (String × Bool)) (key : String) : Bool :=
  ((capabilities.find? fun c => c.1 = key).map Prod.snd).getD false

end StrixAlloy

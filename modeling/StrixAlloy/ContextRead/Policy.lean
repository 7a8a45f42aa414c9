import Mathlib.Data.List.Nodup

/-!
# The context read policy

`SCCVoiceContextReadPolicy`, over four tables. A secure query returns the rows that match its predicates
and that the user may read, by this policy again or by any other rule, where the platform may drop the
predicate on a reference field. What the platform answers beside the rows is a parameter (`Platform`). An
evaluation that applies the policy more than a given number of times inside itself has no result. The
diagnostics are not modelled.
-/

namespace StrixAlloy.ContextRead

inductive Table where
  | interaction
  | sys_cs_conversation
  | sn_aia_execution_plan
  | sn_aia_message
deriving DecidableEq

inductive Field where
  | sys_id
  | opened_for
  | provider_application
  | channel_metadata_table
  | channel_metadata_document
  | context_profile
  | state
  | conversation
  | usecase
  | execution_plan
  | role
  | message
  | user_message
deriving DecidableEq

/-- A row, with the fields that it has. The value of a field that is `null` is empty. -/
structure Row where
  table : Table
  sys_id : String
  fields : List (Field × String)

def Row.get (r : Row) : Field → Option String
  | .sys_id => some r.sys_id
  | f => r.fields.lookup f

/-- `_id`. -/
def isId (s : String) : Bool := s.length = 32 && s.toList.all fun c => c.isDigit || ('a' ≤ c && c ≤ 'f')

/-- The rows of the tables. An identifier is unique in its table. -/
structure Database where
  rows : List Row
  ids : ∀ r ∈ rows, isId r.sys_id
  unique : (rows.map fun r => (r.table, r.sys_id)).Nodup

/-- What a call of the platform does. -/
inductive Access where
  | throws
  | no
  | yes
deriving DecidableEq

/-- What the platform decides. -/
structure Platform where
  /-- The current user, unless the call throws. -/
  user : Option String
  /-- Whether the user has the role of a reader. -/
  reader : Access
  /-- `AIAgentConstants.ROLES.USER`, if it is a string. -/
  userRole : Option String
  /-- The reference fields whose predicates are dropped. -/
  dropped : Field → Bool
  /-- The rows that other rules let the user read. -/
  other : Row → Bool
  /-- `isValidField` of a row that was queried. -/
  valid : Row → Field → Access
  /-- `getValue` of a row that was queried: the value, or nothing. -/
  value : Row → Field → Access
  /-- `getElement` and its `canRead`, of a row that was queried. -/
  element : Row → Field → Access
  /-- Whether a query throws. -/
  throws : Table → List (Field × String) → Bool

/-! ## Evaluations -/

/-- An evaluation, which may throw, or have no result where the policy is applied too often. -/
abbrev Eval := ExceptT Unit Option

/-- `&&`. -/
def both (x y : Eval Bool) : Eval Bool := do if ← x then y else pure false

def initialUserId : String := "6a0690b893d00b105c8132d47aba1022"
def providerId : String := "200af60f93fb4354e7f2b9fa6aba107d"
def contextProfileId : String := "c623e20f93374354e7f2b9fa6aba1081"
def usecaseId : String := "2f3c8a39931093185c8132d47aba1014"
def notePrefix : String := "SCC_VOICE_USER_CONTEXT_V2\nrequestId:"
def ackPrefix : String := "SCC_VOICE_PROMPT_INCLUDED_V1\nrequestId:"
def noId : String := "00000000000000000000000000000000"
def conversationTable : String := "sys_cs_conversation"

/-- The states of an open conversation. -/
def openStates : List String := ["open", "chatInProgress", "autoPilotInProgress"]

/-- `_value`, of the row that the policy is asked about. -/
def rawValue (r : Row) (f : Field) : Eval String :=
  match r.get f with
  | some v => pure v
  | none => throw ()

/-- `_currentId`. -/
def currentId (r : Row) (t : Table) : String := if r.table = t ∧ isId r.sys_id then r.sys_id else ""

section Secure

variable (P : Platform)

/-- `_value`, of a row that was queried. -/
def secureValue (r : Row) (f : Field) : Eval String :=
  match P.valid r f, P.value r f with
  | .yes, .yes => rawValue r f
  | .yes, .no => pure ""
  | _, _ => throw ()

/-- The loop of `_readable`. -/
def elements (r : Row) : List Field → Eval Bool
  | [] => pure true
  | f :: fs =>
    match P.element r f with
    | .throws => throw ()
    | .no => pure false
    | .yes => elements r fs

variable (acl : Row → Eval Bool)

/-- `_readable`. -/
def readable (r : Row) (fs : List Field) : Eval Bool := both (acl r) (elements P r fs)

/-- A reference field, whose predicate may be dropped. -/
def isReference (f : Field) : Bool := f ∈ [.provider_application, .context_profile, .usecase]

/-- Whether a row matches the predicates that were not dropped. -/
def matching (preds : List (Field × String)) (r : Row) : Bool :=
  preds.all fun p => (isReference p.1 && P.dropped p.1) || (r.get p.1).getD "" = p.2

/-- The rows that the user may read. -/
def allowed : List Row → Eval (List Row)
  | [] => pure []
  | r :: rs => do
    let own ← acl r
    let rest ← allowed rs
    pure (if own then r :: rest else rest)

variable (db : Database)

/-- The rows that match. -/
def found (t : Table) (preds : List (Field × String)) : List Row :=
  db.rows.filter fun r => r.table = t && matching P preds r

/-- A secure query: of the first rows that match, those that the user may read. -/
def query (t : Table) (preds : List (Field × String)) (limit : ℕ) : Eval (List Row) :=
  if P.throws t preds then throw ()
  else allowed acl ((found P db t preds).take limit)

/-! ## The policy -/

/-- `_ownInteraction`. -/
def ownInteraction (row : Row) (userId : String) : Eval Bool :=
  both (pure (currentId row .interaction ≠ "")) <|
  both (do pure ((← rawValue row .opened_for) = userId)) <|
  both (do pure ((← rawValue row .provider_application) = providerId)) <|
  both (do pure ((← rawValue row .channel_metadata_table) = conversationTable))
    (do pure (isId (← rawValue row .channel_metadata_document)))

/-- The predicates of `_referenceFilterIgnored` beside the row's and the impossible one. -/
def controls (t : Table) (conversationId userId : String) : List (Field × String) :=
  match t with
  | .interaction => [(.opened_for, userId), (.channel_metadata_table, conversationTable),
      (.channel_metadata_document, conversationId)]
  | .sn_aia_execution_plan => [(.conversation, conversationId), (.state, "in_progress")]
  | _ => []

/-- The field that `_referenceFilterIgnored` probes. -/
def probe : Table → Option Field
  | .interaction => some .provider_application
  | .sys_cs_conversation => some .context_profile
  | .sn_aia_execution_plan => some .usecase
  | .sn_aia_message => none

/-- `_referenceFilterIgnored`. -/
def referenceFilterIgnored (t : Table) (id conversationId userId : String) : Eval Bool :=
  match probe t with
  | none => pure true
  | some f =>
    if !isId id || (t ≠ .sys_cs_conversation && !isId conversationId) then pure true
    else do
      let rows ← query P acl db t ([(.sys_id, id), (f, noId)] ++ controls t conversationId userId) 1
      pure (rows ≠ [])

/-- `_ownedConversation`. -/
def ownedConversation (conversationId userId : String) : Eval Bool :=
  if !isId conversationId then pure false
  else do
    let rows ← query P acl db .interaction [(.opened_for, userId), (.provider_application, providerId),
      (.channel_metadata_table, conversationTable), (.channel_metadata_document, conversationId)] 2
    match rows with
    | [] => pure false
    | interaction :: more =>
      let interactionId := currentId interaction .interaction
      both (readable P acl interaction
          [.sys_id, .opened_for, .channel_metadata_table, .channel_metadata_document]) <|
      both (pure (interactionId ≠ "")) <|
      both (do pure ((← secureValue P interaction .opened_for) = userId)) <|
      both (do pure ((← secureValue P interaction .channel_metadata_table) = conversationTable)) <|
      both (do pure ((← secureValue P interaction .channel_metadata_document) = conversationId)) <|
      both (pure (more = []))
        (do pure !(← referenceFilterIgnored P acl db .interaction interactionId conversationId userId))

/-- `_secureOwnedConversation`. -/
def secureOwnedConversation (conversationId userId : String) : Eval Bool :=
  if !isId conversationId then pure false
  else do
    let rows ← query P acl db .sys_cs_conversation
      [(.sys_id, conversationId), (.context_profile, contextProfileId)] 2
    match rows with
    | [] => pure false
    | conversation :: more =>
      both (readable P acl conversation [.sys_id, .state]) <|
      both (pure (currentId conversation .sys_cs_conversation = conversationId)) <|
      both (do pure ((← secureValue P conversation .state) ∈ openStates)) <|
      both (pure (more = [])) <|
      both (do pure !(← referenceFilterIgnored P acl db .sys_cs_conversation conversationId "" userId))
        (ownedConversation P acl db conversationId userId)

/-- `_ownActivePlan`. -/
def ownActivePlan (row : Row) (userId : String) : Eval Bool :=
  both (pure (currentId row .sn_aia_execution_plan ≠ "")) <|
  both (do pure ((← rawValue row .state) = "in_progress")) <|
  both (do pure ((← rawValue row .usecase) = usecaseId))
    (do secureOwnedConversation P acl db (← rawValue row .conversation) userId)

/-- `_secureOwnActivePlan`. -/
def secureOwnActivePlan (planId userId : String) : Eval Bool :=
  if !isId planId then pure false
  else do
    let rows ← query P acl db .sn_aia_execution_plan
      [(.sys_id, planId), (.state, "in_progress"), (.usecase, usecaseId)] 2
    match rows with
    | [] => pure false
    | plan :: more =>
      both (readable P acl plan [.sys_id, .conversation, .state]) <|
      both (pure (currentId plan .sn_aia_execution_plan = planId)) <|
      both (do pure ((← secureValue P plan .state) = "in_progress")) (do
        let conversationId ← secureValue P plan .conversation
        both (pure (isId conversationId)) <|
        both (pure (more = [])) <|
        both (do pure !(← referenceFilterIgnored P acl db .sn_aia_execution_plan planId conversationId userId))
          (secureOwnedConversation P acl db conversationId userId))

/-- The characters of a role, `/^[a-z_]{1,32}$/`. -/
def isRole (s : String) : Bool :=
  1 ≤ s.length && s.length ≤ 32 && s.toList.all fun c => ('a' ≤ c && c ≤ 'z') || c = '_'

/-- `_ownContextMessage`. -/
def ownContextMessage (row : Row) (userId : String) : Eval Bool :=
  both (pure (currentId row .sn_aia_message ≠ "")) <|
  match P.userRole with
  | none => pure false
  | some userRole =>
    both (pure (isRole userRole)) <|
    both (do pure ((← rawValue row .role) = userRole)) (do
      let message ← rawValue row .message
      both (do pure (message = (← rawValue row .user_message))) <|
      both (pure (notePrefix.toList <+: message.toList || ackPrefix.toList <+: message.toList))
        (do secureOwnActivePlan P acl db (← rawValue row .execution_plan) userId))

/-- The body of `canRead`. -/
def policy (t : Table) (row : Row) : Eval Bool :=
  match P.user with
  | none => throw ()
  | some userId =>
    if !isId userId || userId ≠ initialUserId then pure false
    else
      match P.reader with
      | .throws => throw ()
      | .no => pure false
      | .yes =>
        match t with
        | .interaction => ownInteraction row userId
        | .sys_cs_conversation =>
          both (do pure ((← rawValue row .context_profile) = contextProfileId)) <|
          both (do pure ((← rawValue row .state) ∈ openStates))
            (ownedConversation P acl db (currentId row .sys_cs_conversation) userId)
        | .sn_aia_execution_plan => ownActivePlan P acl db row userId
        | .sn_aia_message => ownContextMessage P acl db row userId

end Secure

/-- The result of an evaluation, where what it throws is caught. -/
def caught (x : Eval Bool) : Option Bool :=
  match x.run with
  | some (.ok b) => some b
  | some (.error _) => some false
  | none => none

/-- `canRead`, with the policy applied inside itself at most `n` times. -/
def canRead (P : Platform) (db : Database) : ℕ → Table → Row → Option Bool
  | 0, _, _ => none
  | n + 1, t, row => caught (policy P (fun r => do
      let own ← ExceptT.mk ((canRead P db n r.table r).map .ok)
      pure (own || P.other r)) db t row)

end StrixAlloy.ContextRead

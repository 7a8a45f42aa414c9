import StrixAlloy.PersonaRoute.Reference

/-!
# The projection of a mapping and its check

`LocalLLMVoicePersonaRouteSync.syncService` plans its writes from one state of the records, or refuses
(`plan`), and makes them one after the other, so that it may stop after any of them.
`LocalLLMVoiceRuntimePolicy` reads the attributes again before it uses a reference. Checks that can only
refuse, of roles, update sets, scopes and field access, are not modelled: a call may stop before its first
write.
-/

namespace StrixAlloy.PersonaRoute

open Search

/-! ## Records -/

inductive Attribute where
  | route
  | persona
  | backup
  | metadata
deriving DecidableEq

inductive Assistant where
  | voice
  | nava
  | other
deriving DecidableEq

structure Deployment where
  id : String
  assistant : Assistant
  active : Bool

structure Config where
  id : String
  deployment : String
  context_profile : String
deriving DecidableEq

/-- The records. `mapped` is `u_local_llm_execution_profile` of a config. -/
structure State where
  deployments : List Deployment
  configs : List Config
  mapped : String → String
  attrs : String → Attribute → Option Text

/-- The value of an attribute, empty where there is none. -/
def State.value (s : State) (c : String) (a : Attribute) : Text := (s.attrs c a).getD []

/-- Whether a deployment is an active one of the kind. -/
def State.isActive (s : State) (id : String) (kind : Assistant) : Bool :=
  (s.deployments.find? (·.id = id)).any fun d => d.assistant = kind && d.active

def State.isKind (s : State) (id : String) (kind : Assistant) : Bool :=
  (s.deployments.find? (·.id = id)).any fun d => d.assistant = kind

/-- The characters of a digest. -/
def isDigest (h : String) : Bool := h.toList.length = 64 && h.toList.all isHex

/-- The platform's reader of JSON and its digest. -/
structure Platform where
  reader : Json.Reader
  hash : Text → String
  hash_digest : ∀ t, isDigest (hash t)

/-! ## Checks -/

def policyTag : Text := "<!-- LocalLLM native Voice Assistant policy v1 -->".toList
def projectionTag : Text := "<!-- LocalLLM inherited Voice Assistant projection v1 -->".toList
def policy : Text := ['\n', '\n'] ++ (policyTag ++ ['\n'])

/-- `_original` of the projection. -/
def originalOk (t : Text) : Bool :=
  units t ≤ 1000 && !contains openTag t && !contains closeTag t && !contains policyTag t &&
    !contains projectionTag t

/-- The object that the projection stores as metadata. -/
def metadataJson (r : Reference) (sha : String) : Json :=
  .dict [("version", .int 2), ("service_id", .str r.service_id), ("source_config", .str r.source_config),
    ("target_config", .str r.target_config), ("context_profile", .str r.context_profile),
    ("sha256", .str sha)]

section Checks

variable (P : Platform)

def metadataText (r : Reference) (original : Text) : Text := (metadataJson r (P.hash original)).text

/-- The comparisons of the metadata with a reference, in the projection and in the policy. -/
def metadataOk (r : Reference) (original metadata : Text) : Bool :=
  match P.reader.parse metadata with
  | some (.dict members) =>
    keysOf members = "context_profile,service_id,sha256,source_config,target_config,version" &&
      Json.get? members "version" matches some (.int 2) &&
      strOf members "service_id" = some r.service_id &&
      strOf members "source_config" = some r.source_config &&
      strOf members "target_config" = some r.target_config &&
      strOf members "context_profile" = some r.context_profile &&
      strOf members "sha256" = some (P.hash original)
  | _ => false

/-- `_backup`. -/
def backupOk (r : Reference) (original metadata : Text) : Bool :=
  originalOk original && units metadata ≤ 1000 && metadataOk P r original metadata

/-- `_decode` of the projection. -/
def decodePersona (value : Text) : Option (Option Reference) :=
  if !contains openTag value && !contains closeTag value then some none else decode P.reader value

variable (s : State)

/-- `_source`: the config of a service, and whether the service is active. -/
def source (service : String) : Option (Config × Bool) :=
  if isGuid service && s.isKind service .voice then
    match s.configs.filter (·.deployment = service) with
    | [c] => if s.mapped c.id = "" ∨ isGuid (s.mapped c.id) then some (c, s.isActive service .voice) else none
    | _ => none
  else none

/-- `_target`. -/
def target (profile : String) : Option Config :=
  if isGuid profile then
    match s.configs.filter (fun c => c.context_profile = profile && s.isActive c.deployment .nava) with
    | [c] => if isGuid c.deployment then some c else none
    | _ => none
  else none

/-- `_owners`. -/
def owners (service profile : String) (required : Bool) : Bool :=
  match s.configs.filter (fun c => s.mapped c.id = profile && s.isKind c.deployment .voice) with
  | [] => !required
  | [c] => c.deployment = service
  | _ => false

/-- `_attribute`. -/
def attributeOf (c : String) (a : Attribute) : Option (Option Text) :=
  if isGuid c ∧ units (s.value c a) ≤ 1000 then some (s.attrs c a) else none

/-! ## Plans -/

/-- What is projected onto a target. -/
structure Project where
  ref : Reference
  persona : Option Text
  backup : Option Text
  metadata : Option Text
  original : Text

/-- The original of a target that has a backup. -/
def backedUp (ref : Reference) (persona b m : Text) (prior : Option Reference) : Option Text :=
  let same := match prior with
    | some r => decide (encode r = encode ref)
    | none => decide (persona = b)
  if backupOk P ref b m && same then some b else none

/-- `_projectPlan`. -/
def projectPlan (service sourceId profile : String) : Option Project := do
  let t ← target s profile
  let ref : Reference := ⟨service, sourceId, t.id, profile⟩
  if !owners s service profile true || !ref.valid || 1000 < units (encode ref) then none
  else do
    let persona ← attributeOf s t.id .persona
    let backup ← attributeOf s t.id .backup
    let metadata ← attributeOf s t.id .metadata
    let prior ← decodePersona P (persona.getD [])
    let original ← (match backup, metadata with
      | none, none => if prior.isSome then none else some (persona.getD [])
      | some b, some m => backedUp P ref (persona.getD []) b m prior
      | _, _ => none)
    if originalOk original && units (metadataText P ref original) ≤ 1000 then
      some ⟨ref, persona, backup, metadata, original⟩
    else none

/-- What is restored at a target. -/
structure Restore where
  ref : Reference
  persona : Option Text
  original : Text

/-- `_restorePlan`. -/
def restorePlan (service sourceId profile : String) : Option Restore := do
  let t ← target s profile
  let ref : Reference := ⟨service, sourceId, t.id, profile⟩
  if !owners s service profile false then none
  else do
    let persona ← attributeOf s t.id .persona
    let backup ← attributeOf s t.id .backup
    let metadata ← attributeOf s t.id .metadata
    let b ← backup
    let m ← metadata
    let prior ← decodePersona P (persona.getD [])
    let original ← backedUp P ref (persona.getD []) b m prior
    some ⟨ref, persona, original⟩

structure Write where
  config : String
  name : Attribute
  value : Text

/-- `_write`: nothing where the attribute exists and has the value. -/
def write (c : String) (a : Attribute) (current : Option Text) (v : Text) : List Write :=
  if current = some v then [] else [⟨c, a, v⟩]

def Restore.writes (r : Restore) : List Write := write r.ref.target_config .persona r.persona r.original

def Project.writes (p : Project) : List Write :=
  write p.ref.target_config .backup p.backup p.original ++
  (write p.ref.target_config .metadata p.metadata (metadataText P p.ref p.original) ++
  write p.ref.target_config .persona p.persona (encode p.ref))

/-- The source of a call, with the profile that it maps to. -/
def sourceOf (service : String) (removing : Bool) (sourceConfig : String) : Option (String × String) :=
  if removing then if isGuid sourceConfig then some (sourceConfig, "") else none
  else do
    let (c, active) ← source s service
    if sourceConfig ≠ "" ∧ sourceConfig ≠ c.id then none
    else some (c.id, if active then s.mapped c.id else "")

/-- The route attribute, unless the source is removed. -/
def routeOf (id : String) (removing : Bool) : Option (Option Text) :=
  if removing then some none else attributeOf s id .route

/-- What a call has decided before it writes. -/
structure Decision where
  id : String
  route : Option Text
  oldProfile : String
  mapped : String
  restore : Option Restore
  project : Option Project

/-- The preflight of `syncService`. -/
def decision (service previous : String) (removing : Bool) (sourceConfig : String) : Option Decision :=
  if !isGuid service || (previous ≠ "" && !isGuid previous) then none
  else do
    let (id, mapped) ← sourceOf s service removing sourceConfig
    let route ← routeOf s id removing
    let oldRef ← (if route.getD [] = [] then some none else decodePersona P (route.getD []))
    if oldRef.any fun r => r.service_id ≠ service || r.source_config ≠ id then none
    else do
      let oldProfile := oldRef.elim previous Reference.context_profile
      let restore ← (if oldProfile ≠ "" ∧ oldProfile ≠ mapped
        then (restorePlan P s service id oldProfile).map some else some none)
      let project ← (if mapped ≠ "" then (projectPlan P s service id mapped).map some else some none)
      some ⟨id, route, oldProfile, mapped, restore, project⟩

/-- The value of the route in the end. -/
def Decision.desired (d : Decision) : Text := d.project.elim [] fun p => encode p.ref

/-- Whether the route is revoked before anything else. -/
def Decision.revokes (d : Decision) : Bool := d.route.getD [] ≠ [] && d.route.getD [] ≠ d.desired

/-- The writes of `syncService`, in their order. -/
def Decision.writes (d : Decision) (removing : Bool) : List Write :=
  (if d.revokes then write d.id .route d.route [] else []) ++
  (d.restore.elim [] Restore.writes ++
  (d.project.elim [] (Project.writes P) ++
  (if removing then [] else write d.id .route (if d.revokes then some [] else d.route) d.desired)))

end Checks

/-! ## Runs -/

def State.set (s : State) (w : Write) : State :=
  { s with attrs := fun c a => if c = w.config ∧ a = w.name then some w.value else s.attrs c a }

def State.apply (s : State) (ws : List Write) : State := ws.foldl State.set s

/-- What happens. A call of `syncService` stops after `stop` writes, or earlier if it has fewer. -/
inductive Event where
  | map (config profile : String)
  | remove (config : String)
  | sync (service previous : String) (removing : Bool) (sourceConfig : String) (stop : ℕ)

variable (P : Platform)

/-- The deletion of a config of a service, with its attributes. -/
def State.remove (s : State) (config : String) : State :=
  if s.configs.any fun c => c.id = config && s.isKind c.deployment .voice then
    { s with
      configs := s.configs.filter (·.id ≠ config)
      attrs := fun c a => if c = config then none else s.attrs c a }
  else s

def step (s : State) : Event → State
  | .map config profile => { s with mapped := fun c => if c = config then profile else s.mapped c }
  | .remove config => s.remove config
  | .sync service previous removing sourceConfig stop =>
    match decision P s service previous removing sourceConfig with
    | some d => s.apply ((d.writes P removing).take stop)
    | none => s

/-! ## The runtime policy -/

/-- `_config`. -/
def configOf (s : State) (id : String) (deploymentId profileId : Option String) : Option Config := do
  let c ← s.configs.find? (·.id = id)
  if isGuid c.deployment ∧ deploymentId.all (c.deployment = ·) ∧
      s.configs.filter (·.deployment = c.deployment) = [c] ∧ profileId.all (c.context_profile = ·)
  then some c else none

/-- `_original` of the policy. -/
def originalOf (s : State) (t : Config) (r : Reference) : Option Text :=
  let original := s.value t.id .backup
  let metadata := s.value t.id .metadata
  if units original ≤ 1000 ∧ units metadata ≤ 1000 ∧ !contains opening original ∧ !contains closing original ∧
      !contains policy original ∧ isDigest (P.hash original) ∧ metadataOk P r original metadata
  then some original else none

/-- `_route`: the original persona of the target. -/
def route (s : State) (r : Reference) (persona : Text) : Option Text := do
  let src ← configOf s r.source_config (some r.service_id) none
  let tgt ← configOf s r.target_config none (some r.context_profile)
  if s.isActive r.service_id .voice ∧ s.isActive tgt.deployment .nava ∧ s.value src.id .route = persona ∧
      s.value tgt.id .persona = persona
  then originalOf P s tgt r else none

end StrixAlloy.PersonaRoute

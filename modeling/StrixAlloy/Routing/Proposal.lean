import StrixAlloy.Routing.Policy

/-!
# Choices of the model

`ProposalContract` numbers the choices that a snapshot offers to the model, and `decode` finds the
choice that a JSON value names. `evaluateChoice` then accepts the choice, answers it with a question,
or refuses it. Whatever the model returns, no business cancellation comes out, and a task or an agent
is named only as an offered candidate names it.
-/

namespace StrixAlloy.Routing

open Checked TaskStore List

/-! ## The snapshot -/

/-- The exceptions on the way from a context to a choice. -/
inductive RoutingError where
  | store (e : StoreError)
  /-- `ContextBudgetExceeded`. -/
  | budget (message : String)
  /-- `ProposalError`, with the facts that it reports. -/
  | proposal (stage : String) (syntaxOk shapeOk boundsOk bound : Option Bool)
deriving DecidableEq

/-- An optional text of at most 4000 characters. -/
def boundedText (value : Option String) : Bool := value.all fun s => s.length ≤ 4000

/-- `bounded_identifier` for a key that may be missing. -/
def boundedKey (value : Option String) : Bool := value.all isIdentifier

/-- The loop of `RoutingContext.__post_init__` over the tasks; `ids` are those that it has seen. -/
def checkTasks (scope_id : String) (ids : List String) : List RoutingTask → Except StoreError Unit
  | [] => .ok ()
  | task :: tasks => do
    require (task.scope_id = scope_id) (.invalid "invalid routing task scope")
    boundedIdentifier task.task_id
    require (task.task_id ∉ ids) (.invalid "duplicate routing task")
    require (boundedText task.open_question ∧ boundedText task.retained_text ∧
      boundedText task.previous_question) (.invalid "invalid routing text")
    require (boundedKey task.previous_question_id ∧ boundedKey task.previous_operation_id ∧
      boundedKey task.latest_operation_id) (.invalid "invalid identifier")
    checkTasks scope_id (task.task_id :: ids) tasks

/-- `RoutingContext.__post_init__`. -/
def RoutingContext.postInit (context : RoutingContext) : Except StoreError Unit := do
  let ids := context.tasks.map RoutingTask.task_id
  boundedIdentifier context.scope_id
  require (isOptionalIdentifier context.focus_task_id) (.invalid "invalid identifier")
  require (context.tasks.length ≤ 8) (.invalid "invalid routing tasks")
  checkTasks context.scope_id [] context.tasks
  require (context.focus_task_id = "" ∨ context.focus_task_id ∈ ids) (.invalid "invalid focus task")
  require (isOptionalIdentifier context.question_task_id) (.invalid "invalid identifier")
  require (context.question_task_id = "" ∨ context.question_task_id ∈ ids)
    (.invalid "invalid question task")
  require (context.last_question.length ≤ 4000) (.invalid "invalid last question")
  require (isOptionalIdentifier context.workflow_task_id) (.invalid "invalid identifier")
  require (context.workflow_task_id = "" ∨ context.workflow_task_id ∈ ids)
    (.invalid "invalid workflow task")
  require (context.agents.length ≤ 16) (.invalid "invalid routing agents")
  require (context.agents.map Agent.agent_alias).Nodup (.invalid "duplicate routing agent")

/-- A candidate without its number: the defaults of the class. -/
def Candidate.of (intent : Intent) (meanings : List Meaning) : Candidate where
  ref := ""
  intent := intent
  task_id := ""
  agent_alias := ""
  meanings := meanings
  origin := .either
  question := ""
  question_id := ""
  question_version := none
  question_source := ""
  operation_id := ""
  operation_version := none

/-- The last answer of the task may be corrected: it is the newest operation, given to a question of
the version before it. -/
def RoutingTask.amendable (task : RoutingTask) : Bool :=
  !task.state.closed && PolicyRules.given task.previous_question &&
    PolicyRules.given task.previous_question_id && PolicyRules.given task.previous_operation_id &&
    task.previous_operation_version = some task.context_version &&
    task.previous_question_version.map (fun v => (v : ℤ)) = some ((task.context_version : ℤ) - 1) &&
    task.latest_operation_id = task.previous_operation_id &&
    task.latest_operation_version = task.previous_operation_version

/-- The candidates that a task gives. -/
def taskCandidates (grounded : Bool) (task : RoutingTask) : List Candidate :=
  [{ Candidate.of .statusQuery [.reference] with task_id := task.task_id }] ++
    (if grounded then [{ Candidate.of .groundedAnswer [.explain] with task_id := task.task_id }] else []) ++
    (if !task.state.closed then
      [{ Candidate.of .cancelTask [.request] with task_id := task.task_id, origin := .local }] else []) ++
    if task.amendable then
      [{ Candidate.of .amendTask [.correction] with
          task_id := task.task_id
          question := task.previous_question.getD ""
          question_id := task.previous_question_id.getD ""
          question_version := task.previous_question_version
          question_source := task.previous_question_source.getD ""
          operation_id := task.previous_operation_id.getD ""
          operation_version := task.previous_operation_version }] else []

/-- The candidates that the current question gives: its answer, and help with it. -/
def questionCandidates (context : RoutingContext) : List Candidate :=
  match PolicyRules.question context with
  | none => []
  | some task =>
    let bind := fun (c : Candidate) =>
      { c with
        task_id := task.task_id
        question := context.last_question
        question_id := context.question_id
        question_version := context.question_version
        question_source := context.question_source }
    [bind (.of .continueTask [.answer, .dialogue]), bind (.of .clarification [.repeat, .explain])]

/-- The candidate that an agent gives. -/
def agentCandidates (agent : Agent) : List Candidate :=
  if capable agent.capabilities "new_task" ∧ "new_task" ∈ agent.supported_intents then
    [{ Candidate.of .newTask [.request] with agent_alias := agent.agent_alias }] else []

/-- The candidates of a snapshot before they are numbered. -/
def templates (context : RoutingContext) : List Candidate :=
  [.of .clarification [.unclear], .of .stopSpeaking [.audio]] ++
    context.tasks.flatMap (taskCandidates context.grounded_answers_enabled) ++
    questionCandidates context ++ context.agents.flatMap agentCandidates

/-- `policy_snapshot`, for a context: the candidates are numbered in order. -/
def policySnapshot (context : RoutingContext) : Except StoreError PolicySnapshot := do
  context.postInit
  return ⟨context, (templates context).mapIdx fun i c => { c with ref := "c" ++ toString i }⟩

/-! ## The contract -/

/-- The members of `DOMAINS`. -/
inductive Domain where
  | suitable | unsuitable | unclear | na
deriving DecidableEq

/-- `ChoiceOption`. -/
structure ChoiceOption where
  id : String
  candidate : Candidate
  meaning : Meaning
  domain : Domain
deriving DecidableEq

/-- `ProposalContract`. -/
structure ProposalContract where
  snapshot : PolicySnapshot
  options : List ChoiceOption
deriving DecidableEq

/-- The domains in which a candidate is offered. -/
def offeredDomains (intent : Intent) : List Domain :=
  if intent = .newTask then [.suitable, .unsuitable, .unclear] else [.na]

/-- The choices that the candidates give, without their numbers. -/
def offers (candidates : List Candidate) : List (Candidate × Meaning × Domain) :=
  (candidates.filter fun c => c.origin ≠ .local).flatMap fun c =>
    c.meanings.flatMap fun meaning => (offeredDomains c.intent).map fun domain => (c, meaning, domain)

/-- A number of two digits at least. -/
def twoDigits (n : ℕ) : String := if n < 10 then "0" ++ toString n else toString n

/-- The choice with the number of its place. The first is that of the candidate `c0`. -/
def numbered (i : ℕ) (offer : Candidate × Meaning × Domain) : ChoiceOption where
  id := if offer.1.ref = "c0" then "clarify" else "o" ++ twoDigits (i - 1)
  candidate := offer.1
  meaning := offer.2.1
  domain := offer.2.2

/-- `ProposalContract.__post_init__`. -/
def proposalContract (context : RoutingContext) : Except RoutingError ProposalContract := do
  let snapshot ← (policySnapshot context).mapError .store
  let options := (offers snapshot.candidates).mapIdx numbered
  require (options.length ≤ 70) (.budget "too many routing choices")
  return ⟨snapshot, options⟩

/-- `RouteProposal.decode`: an object with the one key `choice`, whose value is a text. -/
def decodeProposal (data : Json) : Except RoutingError String :=
  match data with
  | .dict [("choice", .str choice)] => .ok choice
  | _ => .error (.proposal "shape_rejected" (some true) (some false) (some true) none)

/-- `ProposalContract.decode`. Of options with one number the last counts. -/
def ProposalContract.decode (contract : ProposalContract) (data : Json) :
    Except RoutingError ChoiceOption := do
  let choice ← decodeProposal data
  orThrow (contract.options.reverse.find? fun o => o.id = choice)
    (.proposal "binding_rejected" (some true) (some true) (some true) (some false))

/-! ## The decision -/

/-- `Route`. -/
structure Route where
  intent : Intent
  task_id : String
  agent_alias : String
  reply : String
deriving DecidableEq

/-- The dispositions of a decision. -/
inductive Disposition where
  | decision | clarification | groundedRepeat | groundedExplanation

/-- The members of `REASONS` under which a choice of the model is decided. -/
inductive Reason where
  | acceptedModel | semanticReference | groundedHelp | unclear | «schema» | evidenceRole
  | targetAmbiguity | typeContradiction | operationIneligible | competingRequest | domainUnsuitable
  | domainUnclear | selectionRequired | audioContext

/-- `HelpSource`. -/
structure HelpSource where
  task_id : String
  question_id : String
  context_version : Option ℕ
  source : String
  question : String
  definition_key : PolicyRules.AnswerKind

/-- `RoutingDecision`, as the policy makes it. -/
structure RoutingDecision where
  route : Route
  disposition : Disposition
  reason : Reason
  help_source : Option HelpSource

/-- `clarify`: a question back, with the agents or the tasks that there are. -/
def clarify (snapshot : PolicySnapshot) (reason : Reason) : RoutingDecision :=
  let names := ", ".intercalate (snapshot.context.agents.map fun a => PolicyRules.orElse a.name a.agent_alias)
  let names := if names = "" then
    ", ".intercalate (snapshot.context.tasks.map RoutingTask.task_id) else names
  let reply := "Bitte präzisiere, welche Aufgabe oder welchen Agenten du meinst." ++
    if names = "" then "" else " Verfügbar: " ++ names ++ "."
  ⟨⟨.clarification, "", "", reply⟩, .clarification, reason, none⟩

/-- `DEFINITIONS`. -/
def definitions : PolicyRules.AnswerKind → Option String
  | .name => some "Mit Name ist der Vor- und Nachname der erfragten Person gemeint."
  | .manager => some "Mit Führungskraft oder Manager ist die zuständige vorgesetzte Person gemeint."
  | .date =>
    some "Ein Datum bezeichnet den erfragten Kalendertag, gegebenenfalls mit Monat und Jahr."
  | .location =>
    some "Der Lieferort ist der Ort beziehungsweise die Adresse, an die geliefert werden soll."
  | .yesNo => some "Diese Frage erwartet eine Zustimmung oder Ablehnung mit Ja oder Nein."
  | .spelling => some "Buchstabieren bedeutet, die Buchstaben des erfragten Namens einzeln anzugeben."
  | .none | .ambiguous => none

/-- The help with a question: its definition, if there is one and it fits, and the question. -/
def help (e : Engine) (candidate : Candidate) (meaning : Meaning) : RoutingDecision :=
  let key := if meaning = .explain then PolicyRules.answerKind e candidate.question else .none
  let definition := definitions key
  let reply := definition.elim "" (fun d => d ++ " ") ++ "Die aktuelle Frage lautet: " ++ candidate.question
  let definition := if reply.length > 4000 then none else definition
  let reply := if reply.length > 4000 then candidate.question else reply
  let route : Route := ⟨.clarification, "", "", reply⟩
  if candidate.question_id = "" then ⟨route, .clarification, .unclear, none⟩
  else
    let source : HelpSource := ⟨candidate.task_id, candidate.question_id, candidate.question_version,
      candidate.question_source, candidate.question, if definition.isSome then key else .none⟩
    ⟨route, if definition.isSome then .groundedExplanation else .groundedRepeat, .groundedHelp, some source⟩

/-- What the checks of an intent leave to do: nothing, or a decision of their own. -/
abbrev Checks := Except RoutingDecision Unit

section Checks

variable (e : Engine) (snapshot : PolicySnapshot) (text : String) (candidate : Candidate)

/-- The checks of a choice that reads the state of a task. -/
def checkQuery : Checks := do
  let bound := PolicyRules.statusTarget e snapshot.context text candidate.task_id
  require (¬ (PolicyRules.reference e snapshot.context text).2 ∧ bound ≠ "" ∧ bound = candidate.task_id)
    (clarify snapshot .targetAmbiguity)
  require (¬ (candidate.intent = .groundedAnswer ∧ PolicyRules.separateAction e text))
    (clarify snapshot .competingRequest)

/-- The checks of a choice that gives an agent a new task. -/
def checkNewTask (domain : Domain) : Checks := do
  let (selected, payload) := PolicyRules.selectedAgent e snapshot.context text
  require (selected = candidate.agent_alias ∧ 2 ≤ (words payload).length)
    (clarify snapshot .selectionRequired)
  require (¬ PolicyRules.requestContextVeto e payload) (clarify snapshot .evidenceRole)
  let actions := PolicyRules.actionClauses e payload true
  require (actions = [] ∨ ¬ actions.all (PolicyRules.actionNegated e)) (clarify snapshot .evidenceRole)
  let (target, bad) := PolicyRules.reference e snapshot.context payload
  require (target = "" ∧ ¬ bad) (clarify snapshot .targetAmbiguity)
  require (domain = .suitable)
    (clarify snapshot (if domain = .unsuitable then .domainUnsuitable else .domainUnclear))

/-- The check of a choice that asks for help with a question, which is a decision already. -/
def checkHelp (meaning : Meaning) : Checks := do
  require (¬ PolicyRules.controlContextVeto e text) (clarify snapshot .evidenceRole)
  throw (help e candidate meaning)

/-- The checks of a choice that answers a question or corrects an answer. -/
def checkValue (meaning : Meaning) : Checks := do
  require (¬ PolicyRules.separateAction e text) (clarify snapshot .competingRequest)
  let clauses := ((e.split r"(?<!\d)[.!?;]" text).map strip).filter fun c => c ≠ ""
  let conflict := if meaning = .answer ∨ candidate.intent = .amendTask then
      clauses.any fun clause => PolicyRules.contradiction e clause candidate.question
    else PolicyRules.ambiguousQuestion e candidate.question
  require (¬ conflict) (clarify snapshot .typeContradiction)
  let amendments := snapshot.candidates.filter fun c => c.intent = .amendTask
  require (¬ (candidate.intent = .amendTask ∧
    (((PolicyRules.reference e snapshot.context text).1 = "" ∧ amendments.length ≠ 1) ∨
      PolicyRules.correctionCompetes e snapshot candidate text))) (clarify snapshot .targetAmbiguity)

/-- The checks of a choice that concerns a question. -/
def checkAnswer (meaning : Meaning) : Checks := do
  let (explicit, conflict) := PolicyRules.reference e snapshot.context text
  require (¬ (conflict ∨ (explicit ≠ "" ∧ explicit ≠ candidate.task_id)))
    (clarify snapshot .targetAmbiguity)
  if candidate.intent = .clarification then checkHelp e snapshot text candidate meaning
  else checkValue e snapshot text candidate meaning

end Checks

/-- The checks of `_evaluate` with `local=False`, in order. -/
def checkChoice (e : Engine) (snapshot : PolicySnapshot) (text : String) (option : ChoiceOption) :
    Checks := do
  let candidate := option.candidate
  require (candidate ∈ snapshot.candidates ∧ option.meaning ∈ candidate.meanings)
    (clarify snapshot .schema)
  require (candidate.origin ≠ .local) (clarify snapshot .operationIneligible)
  require (candidate.ref ≠ "c0") (clarify snapshot .unclear)
  match candidate.intent with
  | .cancelTask => throw (clarify snapshot .evidenceRole)
  | .stopSpeaking =>
    require (¬ PolicyRules.audioContextVeto e text) (clarify snapshot .audioContext)
  | .statusQuery | .groundedAnswer => checkQuery e snapshot text candidate
  | .newTask => checkNewTask e snapshot text candidate option.domain
  | .continueTask | .amendTask | .clarification => checkAnswer e snapshot text candidate option.meaning

/-- `evaluate_choice`: a choice that passes its checks is accepted with its target. -/
def evaluateChoice (e : Engine) (snapshot : PolicySnapshot) (text : String) (option : ChoiceOption) :
    RoutingDecision :=
  match checkChoice e snapshot text option with
  | .error decision => decision
  | .ok _ =>
    let candidate := option.candidate
    ⟨⟨candidate.intent, candidate.task_id, candidate.agent_alias, ""⟩, .decision,
      if candidate.intent = .statusQuery then .semanticReference else .acceptedModel, none⟩

/-! ## What a decision names -/

/-- The tasks of a context that passes its checks are distinct. -/
theorem checkTasks_ok {scope_id : String} {tasks : List RoutingTask} {ids : List String} {u : Unit}
    (h : checkTasks scope_id ids tasks = .ok u) :
    (tasks.map RoutingTask.task_id).Nodup ∧ ∀ t ∈ tasks, t.task_id ∉ ids := by
  induction tasks generalizing ids with
  | nil => simp
  | cons task tasks ih =>
    simp only [checkTasks, bind_eq_ok, require_eq_ok] at h
    obtain ⟨_, _, _, _, _, hnew, _, _, _, _, hrest⟩ := h
    obtain ⟨hnodup, hseen⟩ := ih hrest
    have hhead : task.task_id ∉ tasks.map RoutingTask.task_id := by
      intro hmem
      obtain ⟨t, ht, heq⟩ := mem_map.1 hmem
      exact hseen t ht (heq ▸ mem_cons_self)
    refine ⟨nodup_cons.2 ⟨hhead, hnodup⟩, ?_⟩
    rw [forall_mem_cons]
    exact ⟨hnew, fun t ht hmem => hseen t ht (mem_cons_of_mem _ hmem)⟩

theorem RoutingContext.postInit_ok {context : RoutingContext} {u : Unit}
    (h : context.postInit = .ok u) : (context.tasks.map RoutingTask.task_id).Nodup := by
  simp only [RoutingContext.postInit, bind_eq_ok] at h
  obtain ⟨_, _, _, _, _, _, _, htasks, _⟩ := h
  exact (checkTasks_ok htasks).1

/-- What a candidate names belongs to the context, and what it continues or amends is not closed. -/
structure Candidate.Bound (context : RoutingContext) (c : Candidate) : Prop where
  task : c.task_id = "" ∨ c.task_id ∈ context.tasks.map RoutingTask.task_id
  agent : c.agent_alias = "" ∨ c.agent_alias ∈ context.agents.map Agent.agent_alias
  active : c.intent = .continueTask ∨ c.intent = .amendTask →
    ∃ t ∈ context.tasks, t.task_id = c.task_id ∧ t.state.closed = false

section Decisions

variable {context : RoutingContext} {contract : ProposalContract} {c : Candidate}

theorem taskCandidates_bound {grounded : Bool} {task : RoutingTask} (ht : task ∈ context.tasks)
    (hc : c ∈ taskCandidates grounded task) : c.Bound context := by
  have hmem : task.task_id ∈ context.tasks.map RoutingTask.task_id := mem_map_of_mem ht
  unfold taskCandidates at hc
  simp only [mem_append, mem_ite_nil_right, mem_singleton] at hc
  obtain ((rfl | ⟨_, rfl⟩) | ⟨_, rfl⟩) | ⟨hamend, rfl⟩ := hc
  · exact ⟨.inr hmem, .inl rfl, by simp [Candidate.of]⟩
  · exact ⟨.inr hmem, .inl rfl, by simp [Candidate.of]⟩
  · exact ⟨.inr hmem, .inl rfl, by simp [Candidate.of]⟩
  · refine ⟨.inr hmem, .inl rfl, fun _ => ⟨task, ht, rfl, ?_⟩⟩
    unfold RoutingTask.amendable at hamend
    simp_all

/-- The current question belongs to an open task of the context. -/
theorem question_open {task : RoutingTask} (h : PolicyRules.question context = some task) :
    task ∈ context.tasks ∧ task.state.closed = false := by
  unfold PolicyRules.question at h
  obtain ⟨hfind, hcond⟩ := Option.filter_eq_some_iff.1 h
  simp only [Bool.and_eq_true, Bool.not_eq_true'] at hcond
  exact ⟨mem_of_find?_eq_some hfind, hcond.1.1.1.1.1⟩

theorem questionCandidates_bound (hc : c ∈ questionCandidates context) : c.Bound context := by
  unfold questionCandidates at hc
  split at hc
  · simp at hc
  · rename_i task hq
    obtain ⟨ht, hopen⟩ := question_open hq
    have hmem : task.task_id ∈ context.tasks.map RoutingTask.task_id := mem_map_of_mem ht
    simp only [mem_cons, not_mem_nil, or_false] at hc
    obtain rfl | rfl := hc
    · exact ⟨.inr hmem, .inl rfl, fun _ => ⟨task, ht, rfl, hopen⟩⟩
    · exact ⟨.inr hmem, .inl rfl, by simp [Candidate.of]⟩

theorem agentCandidates_bound {agent : Agent} (ha : agent ∈ context.agents)
    (hc : c ∈ agentCandidates agent) : c.Bound context := by
  unfold agentCandidates at hc
  simp only [mem_ite_nil_right, mem_singleton] at hc
  obtain ⟨_, rfl⟩ := hc
  exact ⟨.inl rfl, .inr (mem_map_of_mem ha), by simp [Candidate.of]⟩

theorem templates_bound (hc : c ∈ templates context) : c.Bound context := by
  unfold templates at hc
  simp only [mem_append, mem_cons, not_mem_nil, or_false, mem_flatMap] at hc
  obtain (((rfl | rfl) | ⟨task, ht, hc⟩) | hc) | ⟨agent, ha, hc⟩ := hc
  · exact ⟨.inl rfl, .inl rfl, by simp [Candidate.of]⟩
  · exact ⟨.inl rfl, .inl rfl, by simp [Candidate.of]⟩
  · exact taskCandidates_bound ht hc
  · exact questionCandidates_bound hc
  · exact agentCandidates_bound ha hc

/-- The candidates of a snapshot are the templates of its context, numbered. -/
theorem policySnapshot_ok {snapshot : PolicySnapshot} (h : policySnapshot context = .ok snapshot) :
    snapshot.context = context ∧ (context.tasks.map RoutingTask.task_id).Nodup ∧
    ∀ c ∈ snapshot.candidates, c.Bound context := by
  simp only [policySnapshot, bind_eq_ok, pure_eq_ok] at h
  obtain ⟨_, hcontext, rfl⟩ := h
  refine ⟨rfl, RoutingContext.postInit_ok hcontext, fun c hc => ?_⟩
  obtain ⟨i, hi, rfl⟩ := mem_mapIdx.1 hc
  have hbound := templates_bound (getElem_mem hi)
  exact ⟨hbound.task, hbound.agent, hbound.active⟩

theorem mem_offers {candidates : List Candidate} {offer : Candidate × Meaning × Domain}
    (h : offer ∈ offers candidates) : offer.1 ∈ candidates ∧ offer.1.origin ≠ .local := by
  unfold offers at h
  simp only [mem_flatMap, mem_map, mem_filter, decide_eq_true_eq] at h
  obtain ⟨c, ⟨hc, horigin⟩, _, _, _, _, rfl⟩ := h
  exact ⟨hc, horigin⟩

/-- A contract keeps the snapshot of its context, and each of its choices is of a candidate that is not
local. -/
theorem proposalContract_ok (h : proposalContract context = .ok contract) :
    policySnapshot context = .ok contract.snapshot ∧
    ∀ o ∈ contract.options, o.candidate ∈ contract.snapshot.candidates ∧ o.candidate.origin ≠ .local := by
  simp only [proposalContract, bind_eq_ok, mapError_eq_ok, pure_eq_ok] at h
  obtain ⟨snapshot, hs, _, _, rfl⟩ := h
  refine ⟨hs, fun o ho => ?_⟩
  obtain ⟨i, hi, rfl⟩ := mem_mapIdx.1 ho
  exact mem_offers (getElem_mem hi)

/-- A choice that is decoded is one of the contract. -/
theorem decode_mem {data : Json} {option : ChoiceOption} (h : contract.decode data = .ok option) :
    option ∈ contract.options := by
  simp only [ProposalContract.decode, bind_eq_ok, orThrow_eq_ok] at h
  obtain ⟨_, _, hfind⟩ := h
  exact mem_reverse.1 (mem_of_find?_eq_some hfind)

/-- A decision that only asks back: it names nothing. -/
def RoutingDecision.Silent (d : RoutingDecision) : Prop :=
  d.route.intent = .clarification ∧ d.route.task_id = "" ∧ d.route.agent_alias = ""

section Silent

variable {e : Engine} {snapshot : PolicySnapshot} {text : String} {option : ChoiceOption}

@[simp]
theorem clarify_silent {reason : Reason} : (clarify snapshot reason).Silent := ⟨rfl, rfl, rfl⟩

@[simp]
theorem help_silent {meaning : Meaning} : (help e c meaning).Silent := by
  unfold help
  by_cases h : c.question_id = "" <;> simp [h, RoutingDecision.Silent]

/-- A check that is refused is clarified. -/
theorem require_refuses {p : Prop} [Decidable p] {reason : Reason} {α : Type} {k : Unit → Except RoutingDecision α}
    (hk : Refuses RoutingDecision.Silent (k ())) :
    Refuses RoutingDecision.Silent (require p (clarify snapshot reason) >>= k) :=
  (Refuses.require clarify_silent).bind fun _ _ => hk

theorem checkQuery_refuses : Refuses RoutingDecision.Silent (checkQuery e snapshot text c) := by
  unfold checkQuery
  exact require_refuses (.require clarify_silent)

theorem checkNewTask_refuses {domain : Domain} :
    Refuses RoutingDecision.Silent (checkNewTask e snapshot text c domain) := by
  unfold checkNewTask
  exact require_refuses (require_refuses (require_refuses (require_refuses (.require clarify_silent))))

theorem checkHelp_refuses {meaning : Meaning} :
    Refuses RoutingDecision.Silent (checkHelp e snapshot text c meaning) := by
  unfold checkHelp
  exact require_refuses (.throw help_silent)

theorem checkValue_refuses {meaning : Meaning} :
    Refuses RoutingDecision.Silent (checkValue e snapshot text c meaning) := by
  unfold checkValue
  exact require_refuses (require_refuses (.require clarify_silent))

theorem checkAnswer_refuses {meaning : Meaning} :
    Refuses RoutingDecision.Silent (checkAnswer e snapshot text c meaning) := by
  unfold checkAnswer
  refine require_refuses ?_
  by_cases hhelp : c.intent = .clarification
  · rw [if_pos hhelp]
    exact checkHelp_refuses
  · rw [if_neg hhelp]
    exact checkValue_refuses

theorem checkChoice_refuses : Refuses RoutingDecision.Silent (checkChoice e snapshot text option) := by
  unfold checkChoice
  refine require_refuses (require_refuses (require_refuses ?_))
  -- one case for each intent
  split
  · exact .throw clarify_silent
  · exact .require clarify_silent
  · exact checkQuery_refuses
  · exact checkQuery_refuses
  · exact checkNewTask_refuses
  · exact checkAnswer_refuses
  · exact checkAnswer_refuses
  · exact checkAnswer_refuses

/-- A choice that passes its checks is no cancellation. -/
theorem checkChoice_ok {u : Unit} (h : checkChoice e snapshot text option = .ok u) :
    option.candidate.intent ≠ .cancelTask := by
  simp only [checkChoice, bind_eq_ok] at h
  obtain ⟨_, _, _, _, _, _, h⟩ := h
  intro hcancel
  simp [hcancel] at h

/-- A decision is silent, or it has the intent and the names of its candidate, which is no
cancellation. -/
theorem evaluateChoice_route :
    (evaluateChoice e snapshot text option).Silent ∨
    option.candidate.intent ≠ .cancelTask ∧ (evaluateChoice e snapshot text option).route =
      ⟨option.candidate.intent, option.candidate.task_id, option.candidate.agent_alias, ""⟩ := by
  unfold evaluateChoice
  split
  · rename_i d h
    exact .inl (checkChoice_refuses d h)
  · rename_i h
    exact .inr ⟨checkChoice_ok h, rfl⟩

end Silent

end Decisions

/-- The model cannot cancel and cannot invent a target. Whatever JSON value it returns, the route is no
`cancel_task`; a task or an agent that it names is that of a choice offered to the model, and belongs to
the context; and what it continues or amends is one task of the context, which is not closed. -/
theorem model_route_offered (e : Engine) (context : RoutingContext) (contract : ProposalContract)
    (text : String) (data : Json) (option : ChoiceOption) (hc : proposalContract context = .ok contract)
    (hd : contract.decode data = .ok option) :
    let route := (evaluateChoice e contract.snapshot text option).route
    route.intent ≠ .cancelTask ∧
    (route.task_id ≠ "" ∨ route.agent_alias ≠ "" →
      ∃ o ∈ contract.options, o.candidate ∈ contract.snapshot.candidates ∧ o.candidate.origin ≠ .local ∧
        o.candidate.intent = route.intent ∧ o.candidate.task_id = route.task_id ∧
        o.candidate.agent_alias = route.agent_alias) ∧
    (route.task_id ≠ "" → route.task_id ∈ context.tasks.map RoutingTask.task_id) ∧
    (route.agent_alias ≠ "" → route.agent_alias ∈ context.agents.map Agent.agent_alias) ∧
    (route.intent = .continueTask ∨ route.intent = .amendTask →
      ∃ t ∈ context.tasks, t.task_id = route.task_id ∧ t.state.closed = false ∧
        ∀ t' ∈ context.tasks, t'.task_id = route.task_id → t' = t) := by
  obtain ⟨hsnapshot, hoffered⟩ := proposalContract_ok hc
  obtain ⟨-, hnodup, hbound⟩ := policySnapshot_ok hsnapshot
  have hmem := decode_mem hd
  obtain ⟨hcandidate, horigin⟩ := hoffered option hmem
  rcases @evaluateChoice_route e contract.snapshot text option with hsilent | ⟨hcancel, hroute⟩
  · obtain ⟨hintent, htask, hagent⟩ := hsilent
    simp [hintent, htask, hagent]
  · obtain ⟨htask, hagent, hactive⟩ := hbound _ hcandidate
    rw [hroute]
    refine ⟨hcancel, fun _ => ⟨option, hmem, hcandidate, horigin, rfl, rfl, rfl⟩, htask.resolve_left,
      hagent.resolve_left, fun h => ?_⟩
    obtain ⟨t, ht, hid, hopen⟩ := hactive h
    refine ⟨t, ht, hid, hopen, fun t' ht' hid' => ?_⟩
    exact inj_on_of_nodup_map hnodup ht' ht (hid'.trans hid.symm)

namespace Sample

/-- A task that waits for an answer. -/
def task : RoutingTask where
  task_id := "task"
  scope_id := "scope"
  agent_alias := "shop"
  objective := "Stoff"
  state := .awaitingInput
  context_version := 1
  open_question := some "Farbe?"
  pending_delivery := false
  retained_text := none
  latest_operation_id := some "first"
  latest_operation_version := some 1
  previous_question := none
  previous_question_id := none
  previous_question_version := none
  previous_question_source := none
  previous_operation_id := none
  previous_operation_version := none

def context : RoutingContext where
  scope_id := "scope"
  tasks := [task]
  focus_task_id := ""
  last_question := "Farbe?"
  agents := []
  question_task_id := "task"
  question_version := some 1
  workflow_task_id := "task"
  question_id := "question"
  question_source := "backend"
  grounded_answers_enabled := false

/-- What the interpreter finds in the text `Rot` and in the question `Farbe?`: one clause, the text
itself, and no word of any other pattern. -/
def engine : Engine where
  finditer pattern _ text :=
    if pattern ∈ [r"[^.!?;]+", "Rot"] ∧ text = "Rot" then [⟨0, 3, "Rot", []⟩] else []
  matchStart _ _ _ := none
  fullmatch _ _ _ := none
  sub _ _ _ text := text
  split _ text := if text = "farbe?" then ["farbe", ""] else [text]
  casefold text := if text = "Farbe?" then "farbe?" else text
  isalnum c := c.isAlphanum

def contract : ProposalContract :=
  let snapshot := ⟨context, (templates context).mapIdx fun i c => { c with ref := "c" ++ toString i }⟩
  ⟨snapshot, (offers snapshot.candidates).mapIdx numbered⟩

def answer : ChoiceOption where
  id := "o02"
  candidate := { Candidate.of .continueTask [.answer, .dialogue] with
    ref := "c4", task_id := "task", question := "Farbe?", question_id := "question",
    question_version := some 1, question_source := "backend" }
  meaning := .answer
  domain := .na

end Sample

/-- The choice `o02` for the text `Rot` answers the question of the one task there is. -/
theorem model_route_offered_answer :
    let route := (evaluateChoice Sample.engine Sample.contract.snapshot "Rot" Sample.answer).route
    route = ⟨.continueTask, "task", "", ""⟩ ∧
    ∃ t ∈ Sample.context.tasks, t.task_id = route.task_id ∧ t.state.closed = false ∧
      ∀ t' ∈ Sample.context.tasks, t'.task_id = route.task_id → t' = t := by
  intro route
  have hroute : route = ⟨.continueTask, "task", "", ""⟩ := by decide +kernel
  have hoffered := model_route_offered Sample.engine Sample.context Sample.contract "Rot"
    (.dict [("choice", .str "o02")]) Sample.answer (by decide +kernel) (by decide +kernel)
  exact ⟨hroute, hoffered.2.2.2.2 (.inl (congrArg Route.intent hroute))⟩

end StrixAlloy.Routing

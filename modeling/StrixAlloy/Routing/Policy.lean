import Mathlib.Data.List.Dedup
import StrixAlloy.Routing.Text
import StrixAlloy.TaskStore.Schema

/-!
# The routing policy

A request is routed on an immutable snapshot of the tasks and agents of one scope, with the candidates
that they give. `PolicyRules` is the class of that name: the recognizers of targets, questions and
contradictions in the caller's text.
-/

namespace StrixAlloy.Routing

open Checked TaskStore

/-! ## Snapshots -/

/-- A task as the coordinator describes it for routing: its row in the journal, and what it was asked
and told last. -/
structure RoutingTask where
  task_id : String
  scope_id : String
  agent_alias : String
  objective : String
  state : TaskState
  context_version : ℕ
  open_question : Option String
  pending_delivery : Bool
  retained_text : Option String
  latest_operation_id : Option String
  latest_operation_version : Option ℕ
  previous_question : Option String
  previous_question_id : Option String
  previous_question_version : Option ℕ
  previous_question_source : Option String
  previous_operation_id : Option String
  previous_operation_version : Option ℕ
deriving DecidableEq

/-- `RoutingContext`. -/
structure RoutingContext where
  scope_id : String
  tasks : List RoutingTask
  focus_task_id : String
  last_question : String
  agents : List Agent
  question_task_id : String
  question_version : Option ℕ
  workflow_task_id : String
  question_id : String
  question_source : String
  grounded_answers_enabled : Bool
deriving DecidableEq

/-- The intents of a candidate. -/
inductive Intent where
  | clarification | stopSpeaking | statusQuery | groundedAnswer | cancelTask | amendTask | continueTask
  | newTask
deriving DecidableEq

/-- The members of `MEANINGS`. -/
inductive Meaning where
  | answer | dialogue | correction | reference | audio | request | repeat | explain | unclear
deriving DecidableEq

/-- Who may choose a candidate: the local rules alone, or either they or the model. -/
inductive Origin where
  | either | local
deriving DecidableEq

/-- `Candidate`. -/
structure Candidate where
  ref : String
  intent : Intent
  task_id : String
  agent_alias : String
  meanings : List Meaning
  origin : Origin
  question : String
  question_id : String
  question_version : Option ℕ
  question_source : String
  operation_id : String
  operation_version : Option ℕ
deriving DecidableEq

/-- `PolicySnapshot`. -/
structure PolicySnapshot where
  context : RoutingContext
  candidates : List Candidate
deriving DecidableEq

/-! ## PolicyRules -/

namespace PolicyRules

variable (e : Engine) (context : RoutingContext)

/-- `_mentions`. -/
def mentions (text label : String) : Bool :=
  label ≠ "" && e.search (r"(?<![\w-])" ++ escape label ++ r"(?![\w-])") true text

/-- The names of an agent. -/
def labels (a : Agent) : List String := a.agent_alias :: a.name :: a.routing_aliases

/-- Longest first, as `sorted(…, key=len, reverse=True)` orders them. -/
def longestFirst (xs : List String) : List String :=
  xs.insertionSort fun a b => a.length ≥ b.length

/-- `_agents`. -/
def agents (text : String) : List Agent :=
  context.agents.filter fun a => (labels a).any fun label => mentions e text label

/-- The identifiers of the tasks that meet `p`, as a set. -/
def taskIds (p : RoutingTask → Bool) : List String :=
  ((context.tasks.filter p).map RoutingTask.task_id).dedup

/-- Two sets have the same members. -/
def sameSet (xs ys : List String) : Bool := decide (xs ⊆ ys ∧ ys ⊆ xs)

/-- The texts in the shape of an identifier, and those after a marker of one. -/
def referenced (text : String) : List String :=
  [r"(?<![\w-])(?:[a-z][a-z0-9_-]*\d+[a-z0-9_-]*|[0-9a-f]{8}-[0-9a-f-]{27,})(?![\w-])",
    r"\b(?:aufgabe|auftrag|task|ticket)\s+(?:id|nummer|nr\.?|#|:)\s*([a-z0-9][a-z0-9_-]{1,127})\b",
    r"\b(?:id|nummer|nr\.?)\s+([a-z0-9][a-z0-9_-]{1,127})\b",
    r"(?<!\w)#([a-z0-9][a-z0-9_-]{1,127})\b"].flatMap fun pattern => e.findall pattern true text

/-- `_reference`: the one task that the text names, and whether its references conflict. -/
def reference (text : String) : String × Bool :=
  let «matches» := taskIds context fun t => mentions e text t.task_id
  let known := context.tasks.map fun t => e.casefold t.task_id
  if (referenced e text).any fun v => e.casefold v ∉ known then ("", true)
  else
    let named_agents := agents e context text
    let targets := taskIds context fun t => t.agent_alias ∈ named_agents.map Agent.agent_alias
    if named_agents ≠ [] ∧ (named_agents.length ≠ 1 ∨ targets.length ≠ 1 ∨
        («matches» ≠ [] ∧ ¬ sameSet «matches» targets)) then ("", true)
    else
      let «matches» := if named_agents ≠ [] then targets else «matches»
      let named := taskIds context fun t => mentions e text t.objective
      if named ≠ [] ∧ «matches» ≠ [] ∧ ¬ sameSet named «matches» then ("", true)
      else
        match if named ≠ [] then named else «matches» with
        | [] => ("", false)
        | [target] => (target, false)
        | _ => ("", true)

/-- The loop of `_quoted_ranges`: the spans that have ended, and the open one with the mark that
closes it. -/
structure Quotes where
  spans : List (ℕ × ℕ)
  opening : ℕ
  closing : Option Char

/-- The quotation marks that open a span, each with the mark that closes it. -/
def quotePairs : List (Char × Char) :=
  [('\u0022', '\u0022'), ('„', '“'), ('“', '”'), ('«', '»'), ('\u0060', '\u0060'),
    ('\u0027', '\u0027'), ('‘', '’'), ('‚', '‘'), ('‹', '›')]

/-- `_quoted_ranges`. An apostrophe inside a word is text, and an unmatched opener stays open to the
end. -/
def quotedRanges (text : String) : List (ℕ × ℕ) :=
  let chars := text.toList
  let «end» := (List.range chars.length).foldl
    (fun (q : Quotes) index =>
      let char := chars.getD index ' '
      if char ∈ ['\u0027', '’'] ∧ 0 < index ∧ index + 1 < chars.length ∧
          e.isalnum (chars.getD (index - 1) ' ') ∧ e.isalnum (chars.getD (index + 1) ' ') then q
      else
        match q.closing with
        | some mark =>
          if char = mark then ⟨q.spans ++ [(q.opening, index + 1)], q.opening, none⟩ else q
        | none =>
          match quotePairs.find? fun p => p.1 = char with
          | some pair => ⟨q.spans, index, some pair.2⟩
          | none => if char ∈ ['”', '»', '’', '›'] then ⟨q.spans, index, some char⟩ else q)
    ⟨[], 0, none⟩
  match «end».closing with
  | some _ => «end».spans ++ [(«end».opening, chars.length)]
  | none => «end».spans

/-- A modal of the conditional that is no polite question at the start of the text. -/
def conditionalModal (text : String) : Bool :=
  e.search r"\b(?:würde|würdest|würden)\b" true text &&
    (e.matchStart r"^(?:würdest du|würden sie)\b" true (strip text)).isNone

/-- `control_context_veto`. -/
def controlContextVeto (text : String) : Bool :=
  !(quotedRanges e text).isEmpty ||
    e.search r"\b(?:nicht|nichts|kein\w*|niemals|nie|wenn|falls|hypothetisch|beispiel|zitiert|sagte|sagt|berichtete)\b"
      true text ||
    conditionalModal e text

/-- `audio_context_veto`. -/
def audioContextVeto (text : String) : Bool :=
  controlContextVeto e text ||
    e.search r"[;,:\n]|[.!?]\s*\S|\b(?:und|oder|außerdem|zusätzlich|danach)\b" true text

/-- `request_context_veto`. -/
def requestContextVeto (text : String) : Bool :=
  !(quotedRanges e text).isEmpty ||
    e.search r"\b(?:wenn|falls|hypothetisch|beispiel|zitiert|sagte)\b" true text ||
    conditionalModal e text

/-- The words of a generic question for the status. -/
def statusGrammar : List String :=
  ["status", "stand", "fortschritt", "wie", "weit", "schon", "fertig", "erledigt",
    "was", "macht", "läuft", "noch", "ist", "sind", "es", "sie", "er", "der", "die", "das",
    "den", "des", "dem", "mein", "meine", "meiner", "meinen", "meinem", "meines",
    "dieser", "diese", "dieses", "diesem", "diesen", "von", "vom", "für", "zu", "zum", "zur",
    "mit", "bei", "beim", "bitte", "mir", "zeig", "zeige", "zeigen", "sag", "sage", "sagen",
    "du", "kannst", "können", "auftrag", "aufgabe", "ticket", "bestellung", "anfrage",
    "gibt", "einen", "ein", "einem", "eine", "einer", "aktuell", "aktuelle", "aktuellen",
    "aktuellem", "heute", "jetzt", "id", "nummer", "nr"]

/-- `a or b` on texts. -/
def orElse (a b : String) : String := if a = "" then b else a

/-- `status_target`. -/
def statusTarget (text semantic_task_id : String) : String :=
  let (target, conflict) := reference e context text
  if controlContextVeto e text then ""
  else if conflict || e.search r"\bfremd\w* (?:aufgabe|auftrag|ticket|anfrage)|\b(?:eines|einem|einer|der) anderen (?:kunden?|anrufers?|nutzers?)\b|\bnicht mein\w* (?:aufgabe|auftrag|ticket)"
      true text then ""
  else
    let all := context.tasks.map RoutingTask.task_id ++ context.tasks.map RoutingTask.objective ++
      context.agents.flatMap labels
    let remaining := (longestFirst (all.filter fun label => label ≠ "")).foldl
      (fun remaining label => e.sub (r"(?<![\w-])" ++ escape label ++ r"(?![\w-])") true " " remaining) text
    if (e.findall r"[\w-]+" false remaining).any fun word => e.casefold word ∉ statusGrammar then
      if semantic_task_id = "" then ""
      else
        let folded := fun (t : RoutingTask) => e.casefold (strip t.objective)
        let objective := ((context.tasks.find? fun t => t.task_id = semantic_task_id).map folded).getD ""
        if target = "" ∧ objective ≠ "" ∧ (context.tasks.countP fun t => folded t = objective) > 1 then ""
        else orElse target semantic_task_id
    else
      match context.tasks with
      | [t] => orElse target t.task_id
      | _ => target

/-- `bool(value)` for a text that may be absent. -/
def given (value : Option String) : Bool := value.any fun s => s ≠ ""

/-- `_question`: the task whose open question the caller was asked last, if no other task has one. The
states of `_TERMINAL` are the closed ones. -/
def question : Option RoutingTask :=
  let open_tasks := context.tasks.filter fun t =>
    given t.open_question && !t.pending_delivery && !t.state.closed
  (context.tasks.find? fun t => t.task_id = context.question_task_id).filter fun task =>
    !task.state.closed && !task.pending_delivery && context.last_question ≠ "" &&
      context.question_version = some task.context_version &&
      task.open_question = some context.last_question && open_tasks.length = 1

/-- The values of `_answer_kind`. -/
inductive AnswerKind where
  | none | ambiguous | yesNo | spelling | location | manager | name | date
deriving DecidableEq

/-- The finite verbs that begin a polar question. -/
def finiteVerbs : String :=
  "ist|sind|bin|bist|seid|war|waren|wäre|wären|" ++
  "kann|kannst|können|könnt|könnte|könnten|" ++
  "darf|darfst|dürfen|dürft|muss|musst|müssen|müsst|" ++
  "hat|hast|haben|habt|wird|wirst|werden|werdet|wurde|wurden|" ++
  "möchte|möchtest|möchten|möchtet|will|willst|wollen|wollt|" ++
  "soll|sollst|sollen|sollt|stimmt|stimmen|passt|passen|" ++
  "lautet|lauten|entspricht|entsprechen|gilt|gelten|trifft|treffen"

/-- `_answer_kind`. -/
def answerKind (question : String) : AnswerKind :=
  let question := e.casefold (strip question)
  let search := fun pattern => e.search pattern false question
  let wh := search r"\b(?:wer|wen|wem|wessen|was|wann|wo|wohin|woher|wie|welch\w*|who|what|which|where|when|how)\b"
  let requested := search r"\b(?:nenn\w*|angeb\w*|geben sie|gib|mitteil\w*|teilen sie|sag\w*|schreib\w*|buchstab\w*)\b"
  let polar := search (r"(?:^|[,?.!;]\s*)(?:bitte[, ]+)?(?:" ++ finiteVerbs ++ r")\b")
  let confirmation := search r"ja.{0,12}nein|bestätigen sie|bestätigst du|einverstanden|fortfahren|\b(?:do|would|are) you\b"
  let tag := search r",\s*(?:oder|richtig|korrekt|stimmt das|nicht wahr)\s*\?$"
  let first_clause := (e.split r"[,;?.!]" question).headD ""
  let clause_wh := e.search r"\b(?:wer|wen|wem|wessen|was|wann|wo|wohin|woher|wie|welch\w*)\b" false first_clause
  let correctness := !clause_wh &&
    e.search (r"\b(?:stimmt|stimmen|passt|passen|entspricht|entsprechen)\b|" ++
      r"\b(?:ist|sind)\b.*\b(?:korrekt|richtig|zutreffend|bestätigt|in ordnung)\b") false first_clause
  let value_groups := [r"\bnamen?\b|vorname|nachname", r"datum|termin|welchem tag|wann|\bdate\b",
    r"liefer(?:ort|adresse|anschrift)|wohin", r"vorgesetzt|manager|führungskraft"]
  if polar || confirmation || tag || correctness then
    if wh || requested then .ambiguous else .yesNo
  else if value_groups.countP search > 1 then .ambiguous
  else if search r"buchstab|spell" then .spelling
  else
    let short_field := (e.fullmatch r"(?:(?:ihr\w*|dein\w*|your|der|die|das)\s+)?(?:vollständige\w*\s+)?(?:namen?|vorname|nachname|datum|termin|lieferort|lieferadresse|manager|führungskraft|address|date)\s*[?.:]?"
      false question).isSome
    if !(wh || requested || short_field) then
      if search r"\bnamen?\b|vorname|nachname|datum|termin|liefer(?:ort|adresse|anschrift)|manager|führungskraft|vorgesetzt|\bdate\b" then
        .ambiguous
      else .none
    else if search r"liefer(?:ort|adresse|anschrift)|lieferung.*(?:wo|adresse)|delivery.*(?:location|address)|wohin" then
      .location
    else if search r"vorgesetzt|manager|führungskraft" then .manager
    else if search r"\bnamen?\b|heißen|heissen|vorname|nachname" then .name
    else if search r"datum|termin|welchem tag|wann|\bdate\b" then .date
    else .none

/-- `_matches_answer`. -/
def matchesAnswer (text : String) (kind : AnswerKind) : Bool :=
  let value := rstrip ['.', '!'] (strip text)
  let fullmatch := fun pattern ignorecase value => (e.fullmatch pattern ignorecase value).isSome
  let polar := fullmatch r"ja|nein|nee|j[aä]" true value
  if kind ≠ .yesNo ∧ polar then false
  else
    match kind with
    | .yesNo => polar
    | .spelling => fullmatch r"[A-Za-zÄÖÜäöü](?:[ -][A-Za-zÄÖÜäöü]){1,39}" false value
    | .name | .manager =>
      let value := e.sub r"^(?:mein name ist|ich heiße|ich heisse|der name ist)\s+" true "" value
      fullmatch r"[A-ZÄÖÜ][a-zäöüß]+(?:[-'’ ][A-ZÄÖÜ][a-zäöüß]+){0,5}" false value &&
        e.casefold value ∉ ["ja", "nein", "hallo", "danke", "bitte", "status"]
    | .date =>
      fullmatch r"(?:am\s+)?(?:\d{1,2}[./]\d{1,2}(?:[./]\d{2,4})?\.?|\d{4}-\d{2}-\d{2}|\d{1,2}\.?(?:\s+)(?:januar|februar|märz|april|mai|juni|juli|august|september|oktober|november|dezember)(?:\s+\d{4})?)"
        true value
    | .location =>
      if e.search r"\b(?:ich|möchte|brauche|will|bitte|kann|können|wie|warum)\b" true value then false
      else value.length ≤ 300 && fullmatch r"[\wÄÖÜäöüß .,/()\-]+" false value &&
        (words value).length ≤ 20
    | .none | .ambiguous => false

/-- `evidence_clauses`, without `action`: the clauses in which the text has the evidence outside
quotations and hypotheses. -/
def evidenceClauses (text evidence : String) : List String :=
  if evidence = "" then []
  else
    let quotes := quotedRanges e text
    (e.finditer (escape evidence) false text).foldl (fun clauses m =>
      if quotes.any fun q => q.1 < m.stop && m.start < q.2 then clauses
      else
        let marks := ['.', '!', '?', ';']
        let clause := strip (slice text (afterLast marks text m.start) (firstFrom marks text m.stop))
        if e.search r"\b(?:wenn|falls|hypothetisch|beispiel|zitiert|sagte)\b" true clause then clauses
        else if e.search r"\b(?:würde|würdest|würden)\b" true clause &&
            (e.matchStart r"^(?:würdest du|würden sie)\b" true clause).isNone then clauses
        else if clause ∈ clauses then clauses
        else clauses ++ [clause]) []

/-- `action_negated`. -/
def actionNegated (clause : String) : Bool :=
  e.search r"\b(?:nicht|nichts|kein\w*|niemals)\b" true clause

/-- The imperatives and infinitives of a request, and the object that a short form needs. -/
def imperative : String :=
  "(?:stornier(?:e)?|bestell(?:e)?|buche|kaufe|reservier(?:e)?|beantrag(?:e)?|beauftrag(?:e)?|beend(?:e)?|brich|stoppe)"

def infinitive : String :=
  "(?:stornieren|bestellen|buchen|kaufen|reservieren|beantragen|beauftragen|beenden|abbrechen|stoppen|anlegen|erstellen)"

def objectPhrase : String :=
  r"(?:(?:mir|uns)\s+)?(?:ein(?:en|e)?|den|die|das|mein(?:en|e)?|dies(?:en|e|es))\s+\S.*"

/-- The forms of a request. -/
def actionPatterns : List String :=
  [r"(?:bitte\s+)?" ++ imperative ++ r"\s+.+",
    r"(?:bitte\s+)?(?:kauf|buch|stopp)\s+(?:bitte\s+)?" ++ objectPhrase,
    infinitive ++ r"\s+Sie\s+.+",
    r"(?:kannst du|können sie|würdest du|würden sie)\s+(?:bitte\s+)?.+\s+" ++ infinitive,
    r"(?:ich (?:möchte|will)|(?:möchte|will) ich)\s+.+\s+" ++ infinitive,
    r"bitte\s+.+\s+" ++ infinitive,
    objectPhrase ++ r"\s+bitte\s+" ++ infinitive]

/-- `action_clauses`. -/
def actionClauses (text : String) (include_negative : Bool) : List String :=
  ((e.finditer r"[^.!?;]+" false text).map fun m => strip m.group).filter fun clause =>
    !(evidenceClauses e text clause).isEmpty &&
      let command := e.sub r"^[^:]+:\s*" false "" clause
      let command := e.sub r"^(?:außerdem|zusätzlich)\s+" true "" command
      let ability_statement := (e.fullmatch (r"(?:ich (?:kann|konnte)|wir (?:können|konnten)|" ++
        r".+ (?:kann|konnte) ich|.+ (?:können|konnten) wir)\s+.+\s+" ++ infinitive) true command).isSome
      let negative_action := include_negative && !ability_statement && actionNegated e command &&
        e.search (r"\b" ++ infinitive ++ r"(?:\s+bitte)?$") true command
      negative_action || actionPatterns.any fun pattern => (e.fullmatch pattern true command).isSome

/-- `separate_action`. -/
def separateAction (text : String) : Bool :=
  (actionClauses e text false).any fun clause => !actionNegated e clause

/-- `selected_agent`: the agent that the text addresses, with what it says to it. -/
def selectedAgent (text : String) : String × String :=
  let text := strip text
  match agents e context text with
  | [agent] =>
    let names := "|".intercalate (((longestFirst (labels agent)).filter fun v => v ≠ "").map escape)
    let patterns := [r"^(?:bitte\s+)?(?:" ++ names ++ r")\s*[:,]\s*(\S.*)$",
      r"^(?:bitte\s+)?(?:an|für)\s+(?:" ++ names ++ r")\s*[:,]\s*(\S.*)$",
      r"^(?:" ++ names ++ r")\s+bitte\s*[:,]?\s+(\S.*)$"]
    match patterns.findSome? fun pattern => e.matchStart pattern true text with
    | some selected => (agent.agent_alias, selected.groups.headD "")
    | none => ("", "")
  | _ => ("", "")

/-- `ambiguous_question`. -/
def ambiguousQuestion (question : String) : Bool :=
  answerKind e question = .ambiguous &&
    e.search r"\b(?:und|oder)\b|\?.+\?|[,;].*(?:möchten|ist|sind|soll)" true question

/-- `contradiction`. -/
def contradiction (text question : String) : Bool :=
  if ambiguousQuestion e question then true
  else
    let value := strip (rstrip ['.', '!', '?'] (strip text))
    let value := e.sub r"^(?:korrektur|ich korrigiere)\s*:\s*" true "" value
    let supplied := e.fullmatch r"(?:sie (?:können|dürfen)|du (?:kannst|darfst)) (.+?) (?:eintragen|verwenden|nehmen)" true value
    let value := supplied.elim value fun m => m.groups.headD ""
    let kind := answerKind e question
    let polar := (e.fullmatch r"(?:ja|nein|nee)(?:,? (?:bitte|danke|das passt))?" true value).isSome
    if kind ∈ [AnswerKind.name, .manager, .date, .location, .spelling] ∧ polar then true
    else if kind = .yesNo ∧ ¬ polar then
      [AnswerKind.name, .date, .spelling].any fun k => matchesAnswer e value k
    else kind ∈ [AnswerKind.name, .manager] && matchesAnswer e value .date

/-- `correction_competes`: the text may as well answer the current question. -/
def correctionCompetes (snapshot : PolicySnapshot) (candidate : Candidate) (text : String) : Bool :=
  let explicit := (reference e snapshot.context text).1
  let others := snapshot.candidates.filter fun c => c.intent = .continueTask &&
    (!(explicit ≠ "" && explicit = candidate.task_id) || c.task_id = explicit)
  others.any fun current =>
    let prior_kind := answerKind e candidate.question
    let current_kind := answerKind e current.question
    let established := fun kind => kind ≠ AnswerKind.none ∧ kind ≠ .ambiguous
    if current.question = candidate.question then true
    -- distinct established fields do not compete
    else if established current_kind ∧ established prior_kind ∧ current_kind ≠ prior_kind then false
    else if occursIn candidate.question text && !occursIn current.question text ||
        e.search r"\b(?:vorige|vorherige|frühere|vorige[nrms]?|vorherige[nrms]?|frühere[nrms]?)\s+(?:angabe|antwort|frage)\b"
          true text then false
    else established prior_kind ∧ established current_kind

end PolicyRules

end StrixAlloy.Routing

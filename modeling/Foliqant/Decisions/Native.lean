import Foliqant.Core.Runner
import Foliqant.Decisions.Results

/-!
# Decision steps

A decision step is compiled from its authored questions. At runtime its questions and the resolved
texts of its sources make the task of a model, and the raw output of the model is validated against
the task and projected to the facts that the engine uses.
-/

namespace Foliqant.Decisions

open Foliqant.Core JsonText

/-- A value with a property, when it has it. -/
def checked {α : Type} (p : α → Prop) [DecidablePred p] (a : α) : Option { a // p a } :=
  if h : p a then some ⟨a, h⟩ else none

/-! ## Plans -/

/-- An option of a compiled question. -/
structure DecisionOptionPlan where
  id : String
  description : String

/-- A compiled question. -/
structure DecisionQuestionPlan where
  id : String
  type : QuestionType
  prompt : String
  criteria : List String
  allowedSourceIds : List String
  options : List DecisionOptionPlan := []
  minSelections : Option ℕ := none
  maxSelections : Option ℕ := none
  allowNoMatch : Option Bool := none

/-- Whether a step asks one question or several. -/
inductive QuestionMode where
  | single | multiple
  deriving DecidableEq

/-- The classification for explicitly allowed uncertainty. -/
structure FallbackPlan where
  category : CategoryPlan
  on : List DecisionIssue

/-- How a source is written. -/
inductive SourceFormat where
  | text | json
  deriving DecidableEq

/-- A compiled decision. -/
structure DecisionStepPlan where
  sources : Bindings
  sourceFormats : List (String × SourceFormat)
  questions : List DecisionQuestionPlan
  questionMode : QuestionMode
  fallback : Option FallbackPlan

/-! ## Authored steps -/

/-- A text with a character that is no space. -/
def isNonBlank (text : String) : Bool := text.toList.any fun c => !isSpace c

/-- Texts that are not blank. -/
abbrev NonBlank := { text : String // isNonBlank text = true }

/-- A normalized key of a category. -/
abbrev CategoryKey := { text : String // isItemId text = true ∧ text.length ≤ 128 }

/-- A category as it is authored. -/
structure CategoryDefinition where
  id : CategoryKey
  description : NonBlank

/-- Categories with different identifiers. -/
abbrev CategoryCatalog := { categories : List CategoryDefinition //
  1 ≤ categories.length ∧ categories.length ≤ 1024 ∧ (categories.map CategoryDefinition.id).Nodup }

/-- A question about all sources of its step. -/
inductive QuestionShorthand where
  | choice (catalog : CategoryCatalog)
  | multiselect (catalog : CategoryCatalog) (minSelections maxSelections : ℕ)
  | predicate
  | ordinal (levels : List DecisionOption)
  | requestUnits (catalog : CategoryCatalog) (allowNoMatch : Bool)

/-- One question in short form with its criteria, or several complete ones. -/
inductive AuthoredQuestions where
  | question (shorthand : QuestionShorthand) (criteria : List NonBlank)
  | questions (questions : List Question) (bounds : 2 ≤ questions.length ∧ questions.length ≤ 64)
      (unique : (questions.map Question.id).Nodup)

/-- The category when issues remain. -/
structure DecisionFallback where
  id : CategoryKey
  description : Option NonBlank
  on : { issues : UniqueList DecisionIssue 3 // 1 ≤ issues.1.length }

/-- A fallback needs a single choice question without its category. -/
def AuthoredQuestions.admits (fallback : DecisionFallback) : AuthoredQuestions → Prop
  | .question (.choice catalog) _ => fallback.id ∉ catalog.1.map CategoryDefinition.id
  | _ => False

instance (fallback : DecisionFallback) : (questions : AuthoredQuestions) →
    Decidable (questions.admits fallback)
  | .question (.choice catalog) _ =>
      inferInstanceAs (Decidable (fallback.id ∉ catalog.1.map CategoryDefinition.id))
  | .question (.multiselect ..) _ | .question .predicate _ | .question (.ordinal _) _
  | .question (.requestUnits ..) _ | .questions .. => inferInstanceAs (Decidable False)

/-- A decision as it is authored. -/
structure DecisionStepAuthoring where
  sources : List (String × BindingPlan × SourceFormat)
  questions : AuthoredQuestions
  instructions : NonBlank
  fallback : Option DecisionFallback
  fallback_admitted : ∀ authored ∈ fallback, questions.admits authored

/-! ## Compilation -/

/-- A native question, when its values meet the contract. -/
def nativeQuestion (id prompt : String) (criteria allowedSourceIds : List String)
    (kind : QuestionKind) : Option Question := do
  let id ← checked _ id
  let prompt ← checked _ prompt
  let criteria ← criteria.mapM (checked _)
  let allowedSourceIds ← allowedSourceIds.mapM (checked _)
  if h : (1 ≤ criteria.length ∧ criteria.length ≤ 64 ∧ criteria.Nodup) ∧
      (1 ≤ allowedSourceIds.length ∧ allowedSourceIds.length ≤ 256 ∧ allowedSourceIds.Nodup) ∧
      kind.Valid then
    some ⟨id, prompt, criteria, allowedSourceIds, kind, h.1, h.2.1, h.2.2⟩
  else none

/-- The option of a question, if it is valid. -/
def nativeOption (option : DecisionOptionPlan) : Option DecisionOption := do
  return ⟨← checked _ option.id, ← checked _ option.description⟩

/-- The options of a catalog. -/
def decisionOptions (catalog : CategoryCatalog) : Option (List DecisionOption) :=
  catalog.1.mapM fun category => nativeOption ⟨category.id.1, category.description.1⟩

/-- The question that a shorthand stands for. -/
def QuestionShorthand.kind : QuestionShorthand → Option QuestionKind
  | choice catalog => (decisionOptions catalog).map .choice
  | multiselect catalog minSelections maxSelections =>
      (decisionOptions catalog).map fun options => .multiselect options minSelections maxSelections
  | predicate => some .predicate
  | ordinal levels => some (.ordinal levels)
  | requestUnits catalog allowNoMatch =>
      (decisionOptions catalog).map fun options => .requestUnits options allowNoMatch

/-- The plan of a native question. -/
def Question.plan (question : Question) : DecisionQuestionPlan where
  id := question.id.1
  type := question.kind.type
  prompt := question.prompt.1
  criteria := question.criteria.map Subtype.val
  allowedSourceIds := question.allowedSourceIds.map Subtype.val
  options := question.kind.options.map fun option => ⟨option.id.1, option.description.1⟩
  minSelections := match question.kind with
    | .multiselect _ minSelections _ => some minSelections
    | _ => none
  maxSelections := match question.kind with
    | .multiselect _ _ maxSelections => some maxSelections
    | _ => none
  allowNoMatch := match question.kind with
    | .requestUnits _ allowNoMatch => some allowNoMatch
    | _ => none

/-- The questions of a step; a question in short form takes the name and the instructions of the
step. -/
def compileQuestions (stepId : String) (authored : DecisionStepAuthoring) : Option (List Question) :=
  match authored.questions with
  | .question shorthand criteria => do
      let kind ← shorthand.kind
      let question ← nativeQuestion stepId authored.instructions.1 (criteria.map Subtype.val)
        (authored.sources.map Prod.fst) kind
      return [question]
  | .questions questions _ _ => some questions

/-- Why a decision is refused. -/
inductive DecisionStepError where
  | invalidQuestion | unknownQuestionSource
  deriving DecidableEq

/-- The fallback as it is compiled. -/
def FallbackPlan.compile (fallback : DecisionFallback) : FallbackPlan where
  category := ⟨fallback.id.1, fallback.description.map Subtype.val⟩
  on := fallback.on.1.1

/-- The decision as it is compiled. -/
def compileDecision (stepId : String) (authored : DecisionStepAuthoring) :
    Except DecisionStepError DecisionStepPlan :=
  match compileQuestions stepId authored with
  | none => .error .invalidQuestion
  | some questions =>
      if ∀ question ∈ questions, ∀ id ∈ question.allowedSourceIds,
          id.1 ∈ authored.sources.map Prod.fst then
        let sorted := authored.sources.mergeSort fun a b => a.1 ≤ b.1
        .ok {
          sources := sorted.map fun (id, binding, _) => (id, binding)
          sourceFormats := sorted.map fun (id, _, format) => (id, format)
          questions := questions.map Question.plan
          questionMode := match authored.questions with
            | .question _ _ => .single
            | .questions _ _ _ => .multiple
          fallback := authored.fallback.map FallbackPlan.compile }
      else .error .unknownQuestionSource

/-! ## Tasks -/

/-- What a question asks for, from its plan; a missing value is an invalid configuration. -/
def DecisionQuestionPlan.kind (question : DecisionQuestionPlan) : Option QuestionKind := do
  let options ← question.options.mapM nativeOption
  match question.type with
  | .choice => some (.choice options)
  | .multiselect => do return .multiselect options (← question.minSelections) (← question.maxSelections)
  | .predicate => some .predicate
  | .ordinal => some (.ordinal options)
  | .requestUnits => do return .requestUnits options (← question.allowNoMatch)

/-- The question, if it is valid. -/
def DecisionQuestionPlan.native (question : DecisionQuestionPlan) : Option Question := do
  nativeQuestion question.id question.prompt question.criteria question.allowedSourceIds
    (← question.kind)

/-- The input of a decision, if it is valid. -/
def nativeInput (sources : List (String × String)) (questions : List DecisionQuestionPlan) :
    Option DecisionInput := do
  let sources ← sources.mapM fun (id, text) => do
    return (⟨← checked _ id, ← checked _ text⟩ : DecisionSource)
  let questions ← questions.mapM DecisionQuestionPlan.native
  if h : (1 ≤ sources.length ∧ sources.length ≤ 256 ∧ (sources.map DecisionSource.id).Nodup) ∧
      (1 ≤ questions.length ∧ questions.length ≤ 256 ∧ (questions.map Question.id).Nodup) ∧
      ∀ question ∈ questions, ∀ source ∈ question.allowedSourceIds,
        source ∈ sources.map DecisionSource.id then
    some ⟨sources, questions, h.1, h.2.1, h.2.2⟩
  else none

/-- The text of a resolved source; `dumps` writes a JSON source. -/
def sourceText (dumps : Json → Option String) (formats : List (String × SourceFormat))
    (sources : Object) (id : String) : Except Exn (String × String) := do
  let text ← match sources.lookup id, (formats.lookup id).getD .text with
    | some value, .json => match dumps value with
        | some text => .ok text
        | none => fail .invalidInput
    | some (.str text), .text => .ok text
    | _, _ => fail .invalidInput
  if text.toList.all isWhitespace then fail .invalidInput else return (id, text)

/-- The task of the resolved sources and every compiled question. -/
def buildDecisionInput (dumps : Json → Option String) (step : DecisionStepPlan) (sources : Object) :
    Except Exn DecisionInput := do
  let expected := step.sources.map Prod.fst
  if ¬ ((∀ id ∈ Dict.keys sources, id ∈ expected) ∧ (∀ id ∈ expected, id ∈ Dict.keys sources) ∧
      sources.length = expected.length) then fail .invalidInput
  else
    let texts ← expected.mapM (sourceText dumps step.sourceFormats sources)
    match nativeInput texts step.questions with
    | some task => return task
    | none => fail .invalidConfiguration

/-! ## Outputs -/

/-- What the model returned: a typed output with its JSON text, or any other value. Text that is no
JSON is absent. -/
inductive RawOutput where
  | typed (json : Option Json)
  | untyped (json : Option Json)

/-- An invalid output with the feedback for its correction. -/
structure InvalidOutput where
  error : ServiceError
  feedback : String

/-- Why an output is refused. -/
inductive DecisionError where
  | service (error : ServiceError)
  /-- The first problem of the JSON contract, which its validator explains. -/
  | schemaViolation
  | invalid (violation : InvalidOutput)

/-- A word for a log, made of few characters. -/
def keyword (text : String) : String :=
  String.ofList ((text.toList.map fun c =>
    let c := c.toLower
    if isLower c || isDigit c || c == '_' then c else '_').take 64)

/-- The text before and after the last colon. -/
def splitLastColon (text : String) : String × String :=
  let parts := text.toList.splitOn ':'
  (String.ofList (List.intercalate [':'] parts.dropLast), String.ofList (parts.getLastD []))

/-- The first problem; only a configured question is located. -/
def contractViolation (problems : List String) (questions : List Id) : InvalidOutput :=
  let (place, kind) := splitLastColon (problems.headD "result:invalid")
  let located := questions.any fun id => "question:" ++ id.1 == place || id.1 == place
  { error := .raise .invalidOutput false (some .decisionContract)
      (if located then some place else none) (some (keyword kind))
    feedback := String.ofList (("The decision result violates its contract: " ++
      "; ".intercalate (problems.take 8) ++
      ". Correct these problems and return the complete result again.").toList.take 800) }

/-- Read the output by its JSON contract. -/
def validateOutput : RawOutput → Except DecisionError DecisionOutput
  | .typed none => .error (.service ErrorCode.invalidOutput.error)
  | .typed (some json) => readOutput json
  | .untyped none => .error (.service ErrorCode.invalidOutput.error)
  | .untyped (some json) =>
      if depth json > MAX_JSON_DEPTH then .error (.service ErrorCode.invalidOutput.error)
      else match json with
        | .obj _ => readOutput json
        | _ => .error (.service ErrorCode.invalidOutput.error)
where
  readOutput (json : Json) : Except DecisionError DecisionOutput :=
    match outputCodec.decode json with
    | some output => .ok output
    | none => .error .schemaViolation

/-- The key of an answer for routing. -/
def answerKey : Answer → Option String
  | .choice answer => answer.map Subtype.val
  | .ordinal answer => answer.map Subtype.val
  | .predicate .yes => some "true"
  | .predicate .no => some "false"
  | _ => none

/-- Facts of a decision for the engine. -/
structure ValidatedDecision where
  value : Json
  answerable : Bool
  answerKey : Option String
  selection : Option Selection := none
  unresolvedIssues : List DecisionIssue := []

/-- The results in the order of the questions. -/
def inQuestionOrder (task : DecisionInput) (results : List DecisionResult) : List DecisionResult :=
  task.questions.filterMap fun question =>
    results.find? fun item => item.1.questionId = question.id

/-- The issues of the unanswered questions, each at its first place; an undetermined question
reports none. -/
def unresolvedIssues (results : List DecisionResult) : List DecisionIssue :=
  let unresolved := results.filter fun item => item.1.answerability.status ≠ .answerable
  if unresolved.all fun item => item.1.answerability.status ≠ .undetermined then
    (unresolved.flatMap fun item => item.1.answerability.issues.1).reverse.dedup.reverse
  else []

/-- The category of a single choice question: the chosen option, or the fallback for issues that it
covers. -/
def selectionOf (step : DecisionStepPlan) (item : DecisionResult) (answerable : Bool)
    (key : Option String) (issues : List DecisionIssue) : Option Selection :=
  if answerable then
    (step.questions.head?.bind fun question =>
      question.options.find? fun option => some option.id = key).map fun option =>
        ⟨⟨option.id, some option.description⟩, .model⟩
  else
    match step.fallback with
    | some fallback =>
        if item.1.answerability.status = .notAnswerable ∧ issues ≠ [] ∧
            ∀ issue ∈ issues, issue ∈ fallback.on then
          some ⟨fallback.category, .fallback⟩
        else none
    | none => none

/-- A single choice question. -/
def DecisionStepPlan.singleChoice (step : DecisionStepPlan) : Bool :=
  step.questionMode = .single && (step.questions.head?.map DecisionQuestionPlan.type) = some .choice

/-- Validate the raw output against the task, and project the facts of the decision. -/
def validateDecisionResult (step : DecisionStepPlan) (task : DecisionInput) (raw : RawOutput) :
    Except DecisionError ValidatedDecision := do
  let output ← validateOutput raw
  let problems := validateDecisionOutput task (output.1.map Subtype.val)
  if problems ≠ [] then .error (.invalid (contractViolation problems (task.questions.map Question.id)))
  else
    let results := inQuestionOrder task output.1
    let answerable := !results.isEmpty &&
      results.all fun item => item.1.answerability.status = .answerable
    let issues := unresolvedIssues results
    match step.questionMode with
    | .single =>
        match results with
        | [item] =>
            let key := if answerable then answerKey item.1.answer else none
            let value := resultCodec.encode item
            if depth value > MAX_JSON_DEPTH then .error (.service ErrorCode.invalidOutput.error)
            else return {
              value := value
              answerable := answerable
              answerKey := key
              selection := if step.singleChoice then selectionOf step item answerable key issues
                else none
              unresolvedIssues := issues }
        | _ => .error (.invalid (contractViolation ["result:result-count"] []))
    | .multiple =>
        let value : Json := .obj [("results", .arr (results.map resultCodec.encode))]
        if depth value > MAX_JSON_DEPTH then .error (.service ErrorCode.invalidOutput.error)
        else return { value := value, answerable := answerable, answerKey := none,
                      unresolvedIssues := issues }

/-- The outcome of a decision step. -/
def ValidatedDecision.outcome (decision : ValidatedDecision) : StepOutcome where
  result := some decision.value
  needsReview := !decision.answerable
  selection := decision.selection
  unresolvedIssues := decision.unresolvedIssues

end Foliqant.Decisions

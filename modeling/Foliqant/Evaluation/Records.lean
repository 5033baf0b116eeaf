import Foliqant.Core.Execution
import Foliqant.Core.Pointers

/-!
# Execution records of a result

The public result of a run: its records with the ledgers of their collections, the JSON document they
make, the index of its final records, and the snapshot that an evaluation scores. The order of the
members of an object is not observed.
-/

namespace Foliqant.Evaluation

open Foliqant.Core JsonText

/-! ## Results -/

/-- The measured usage of a record: counts and an estimate, with a split by model below them. -/
structure UsageDocument where
  value : Json
  depth_le : depth value ≤ 3

/-- The status and the measurements of a step or of one run of a flow. -/
structure Outcome where
  status : Status
  usage : Option UsageDocument := none
  elapsedSeconds : Option ℚ := none
  error : Option Failure := none

/-- How often a flow ran, and the documents of its runs when it is repeated or a retry flow. -/
structure Runs where
  attemptCount : ℕ
  attempts : List Json := []
  usage : Option UsageDocument := none
  elapsedSeconds : Option ℚ := none
  stoppedBy : Option RepeatStop := none

/-- What an item of a collection adds to the record of its flow: its identity, its flow, and the document
of its retry flow. -/
structure ItemPart where
  id : String
  flow : String
  retry : Option Json := none

/-- The field of a collection step that holds its ledger. -/
inductive LedgerField where
  | result | partialResult
  deriving DecidableEq

/-- The key of a ledger. -/
def LedgerField.key : LedgerField → String
  | result => "result"
  | partialResult => "partial_result"

mutual

/-- The record of a flow: its last run, whose result is present or not, and all its runs. -/
inductive FlowResult where
  | mk (outcome : Outcome) (result : Option Json) (steps : List (String × StepResult)) (runs : Runs)

/-- The record of a step. A collection step has its items in one of two fields, or stopped before it
had any. -/
inductive StepResult where
  | operation (outcome : Outcome) (result : Option Json) (selection : Option Selection)
  | collection (outcome : Outcome) (field : LedgerField) (items : List ItemResult)
  | stopped (outcome : Outcome)

/-- The result of one item. -/
inductive ItemResult where
  | mk (item : ItemPart) (record : FlowResult)

end

/-- The value of a flow. -/
def FlowResult.result : FlowResult → Option Json
  | .mk _ result _ _ => result

/-- The steps of a flow. -/
def FlowResult.steps : FlowResult → List (String × StepResult)
  | .mk _ _ steps _ => steps

/-- The attempts of a flow. -/
def FlowResult.attempts : FlowResult → List Json
  | .mk _ _ _ runs => runs.attempts

/-- The items of a marked collection and the field that holds them. -/
def StepResult.ledger : StepResult → Option (LedgerField × List ItemResult)
  | .collection _ field items => some (field, items)
  | _ => none

/-- The item. -/
def ItemResult.item : ItemResult → ItemPart
  | .mk item _ => item

/-- The record of the item's flow. -/
def ItemResult.record : ItemResult → FlowResult
  | .mk _ record => record

/-! ## Documents -/

/-- The members that step and flow records share. -/
def Outcome.members (outcome : Outcome) (result : Option Json) : Object :=
  presentMembers [("status", some (.str outcome.status.value)), ("result", result),
    ("usage", outcome.usage.map UsageDocument.value),
    ("elapsed_seconds", outcome.elapsedSeconds.map .float),
    ("error", outcome.error.map ServiceError.asJson)]

/-- The members that only a flow record has. -/
def Runs.members (runs : Runs) : Object :=
  [("attempt_count", .int runs.attemptCount)] ++
    (if runs.attempts.isEmpty then []
      else presentMembers [("attempts", some (.arr runs.attempts)),
        ("attempts_usage", runs.usage.map UsageDocument.value),
        ("attempts_elapsed_seconds", runs.elapsedSeconds.map .float)]) ++
    presentMembers [("repeat", runs.stoppedBy.map fun stop =>
      .obj [("stopped_by", .str stop.value)])]

/-- The document of a flow record, which may be an item's. -/
def flowDocument (item : Option ItemPart) (members : Object) : Json :=
  match item with
  | none => .obj members
  | some item => .obj ([("id", .str item.id), ("flow", .str item.flow)] ++ members ++
      presentMembers [("retry", item.retry)])

mutual

/-- The members of the document of a flow record. -/
def FlowResult.members : FlowResult → Object
  | .mk outcome result steps runs =>
      outcome.members result ++ [("steps", .obj (stepDocuments steps))] ++ runs.members

/-- The JSON of steps. -/
def stepDocuments : List (String × StepResult) → Object
  | [] => []
  | (name, step) :: rest => (name, step.document) :: stepDocuments rest

/-- The JSON of a step. -/
def StepResult.document : StepResult → Json
  | .operation outcome result selection =>
      .obj (outcome.members result ++ presentMembers [("selection", selection.map Selection.asJson)])
  | .collection outcome .result items =>
      .obj (outcome.members (some (.obj [("items", .arr (itemDocuments items))])) ++
        [("kind", .str "flow_collection")])
  | .collection outcome .partialResult items =>
      .obj (outcome.members none ++
        [("partial_result", .obj [("items", .arr (itemDocuments items))]),
          ("kind", .str "flow_collection")])
  | .stopped outcome => .obj (outcome.members none ++ [("kind", .str "flow_collection")])

/-- The JSON of items. -/
def itemDocuments : List ItemResult → List Json
  | [] => []
  | .mk item record :: rest => flowDocument (some item) record.members :: itemDocuments rest

end

/-- The word for a kind of route. -/
def RouteKind.value : RouteKind → String
  | .direct => "direct"
  | .cases => "cases"
  | .route => "route"
  | .review => "review"

/-- The word for a disposition. -/
def Disposition.value : Disposition → String
  | .completed => "completed"
  | .needsReview => "needs_review"

/-- The JSON of a transition. -/
def transitionDocument (transition : TransitionRecord) : Json :=
  .obj (presentMembers [("source", some (.str transition.source)),
    ("reason", some (.str (Disposition.value transition.reason))),
    ("flow", transition.flow.map .str),
    ("outcome", transition.outcome.map fun outcome => .str (Disposition.value outcome)),
    ("route", some (.obj (presentMembers [
      ("kind", some (.str (RouteKind.value transition.routeKind))),
      ("index", transition.routeIndex.map fun index => .int index),
      ("case", transition.routeCase.map .str)])))])

/-- A start with an index was routed. -/
def startDocument (start : StartRecord) : Json :=
  .obj [("flow", .str start.flow), ("route", .obj (presentMembers [
    ("kind", some (.str (if start.routeIndex.isSome then "route" else "direct"))),
    ("index", start.routeIndex.map fun index => .int index)]))]

/-- The facts of a run beside its payload and its records. -/
def executionDocument (id workflow revision : String) (status : Status) (usage : Json)
    (error : Option Failure) : Json :=
  .obj (presentMembers [("id", some (.str id)), ("workflow", some (.str workflow)),
    ("revision", some (.str revision)), ("status", some (.str status.value)),
    ("usage", some usage), ("error", error.map ServiceError.asJson)])

/-- The JSON of a result. -/
def resultDocument (payload : Json) (metadata flows : Object) (transitions : List TransitionRecord)
    (execution : Json) (start : Option StartRecord) : Json :=
  .obj (presentMembers [("payload", some payload), ("metadata", some (.obj metadata)),
    ("flows", some (.obj flows)), ("transitions", some (.arr (transitions.map transitionDocument))),
    ("execution", some execution), ("start", start.map startDocument)])

mutual

/-- Every dictionary of step records has distinct names. -/
def FlowResult.Distinct : FlowResult → Prop
  | .mk _ _ steps _ => (Dict.keys steps).Nodup ∧ StepsDistinct steps

/-- Steps without duplicate names. -/
def StepsDistinct : List (String × StepResult) → Prop
  | [] => True
  | (_, step) :: rest => step.Distinct ∧ StepsDistinct rest

/-- A step without duplicate names. -/
def StepResult.Distinct : StepResult → Prop
  | .collection _ _ items => ItemsDistinct items
  | _ => True

/-- Items without duplicate names. -/
def ItemsDistinct : List ItemResult → Prop
  | [] => True
  | .mk _ record :: rest => record.Distinct ∧ ItemsDistinct rest

end

/-- One run: its payload, its flow records, its transitions and its terminal facts. -/
structure ExecutionResult where
  id : String
  workflow : String
  revision : String
  status : Status
  usage : UsageDocument
  error : Option Failure := none
  payload : Json
  metadata : Object
  flows : List (String × FlowResult)
  transitions : List TransitionRecord := []
  start : Option StartRecord := none
  nodup : (Dict.keys flows).Nodup
  distinct : ∀ entry ∈ flows, entry.2.Distinct

/-- The JSON of flows. -/
def flowDocuments (flows : List (String × FlowResult)) : Object :=
  flows.map fun entry => (entry.1, .obj entry.2.members)

/-- The JSON document of a result. -/
def ExecutionResult.modelDump (result : ExecutionResult) : Json :=
  resultDocument result.payload result.metadata (flowDocuments result.flows) result.transitions
    (executionDocument result.id result.workflow result.revision result.status result.usage.value
      result.error) result.start

/-! ## Mapping the result of a run -/

/-- The flow records by name; a repeated name fails. -/
def flowValues (done : Object) : List (String × FlowRecord) → Except Exn Object
  | [] => .ok done
  | (name, record) :: rest =>
      if name ∈ Dict.keys done then fail .invalidOutput
      else do
        let members ← flowRecordValue record
        flowValues (done ++ [(name, .obj members)]) rest

/-- The document that is validated as the public result of a run. -/
def toExecutionDocument (id : String) (value : RunResult) : Except Exn Json := do
  let flows ← flowValues [] value.flows
  let usage ← usageValue value.usage
  return resultDocument value.payload value.metadata flows value.transitions
    (executionDocument id value.workflow value.revision value.status usage value.error) value.start

/-- Validation of the document of a run gives records of that document. -/
def Mapped (id : String) (value : RunResult) (result : ExecutionResult) : Prop :=
  toExecutionDocument id value = .ok result.modelDump

/-! ## The index of the final records -/

/-- A flow that was observed, at its path. -/
structure FlowObservation where
  name : String
  path : String
  record : FlowResult
  item : Option ItemPart := none

/-- A step that was observed, at its path. -/
structure StepObservation where
  flow : String
  name : String
  path : String
  record : StepResult

/-- A visited record, which is a flow's or a step's. -/
inductive Record where
  | flow (name : String) (item : Option ItemPart) (record : FlowResult)
  | step (flow name : String) (record : StepResult)

mutual

/-- The records of a flow and of everything in the ledgers of its marked collections, each with its
path. -/
def visitFlow (name path : String) (item : Option ItemPart) : FlowResult → List (String × Record)
  | .mk outcome result steps runs =>
      (path, .flow name item (.mk outcome result steps runs)) :: visitSteps name path steps

/-- The records of steps and below, with their paths. -/
def visitSteps (name path : String) : List (String × StepResult) → List (String × Record)
  | [] => []
  | (stepName, step) :: rest =>
      (path ++ "/steps/" ++ token stepName, .step name stepName step) ::
        (visitStep (path ++ "/steps/" ++ token stepName) step ++ visitSteps name path rest)

/-- The records below a step, with their paths. -/
def visitStep (path : String) : StepResult → List (String × Record)
  | .collection _ field items => visitItems (path ++ "/" ++ field.key ++ "/items") 0 items
  | _ => []

/-- The records of items and below, with their paths. -/
def visitItems (path : String) (index : ℕ) : List ItemResult → List (String × Record)
  | [] => []
  | .mk item record :: rest =>
      visitFlow item.flow (path ++ "/" ++ toString index) (some item) record ++
        visitItems path (index + 1) rest

end

/-- The records of a result, with their paths. -/
def visited (result : ExecutionResult) : List (String × Record) :=
  result.flows.flatMap fun entry => visitFlow entry.1 ("/flows/" ++ token entry.1) none entry.2

/-- A record of a flow. -/
def flowObservation : String × Record → Option FlowObservation
  | (path, .flow name item record) => some ⟨name, path, record, item⟩
  | _ => none

/-- A record of a step. -/
def stepObservation : String × Record → Option StepObservation
  | (path, .step flow name record) => some ⟨flow, name, path, record⟩
  | _ => none

/-- Every actual invocation in authored order, skipped records included. -/
def executionRecords (result : ExecutionResult) : List FlowObservation × List StepObservation :=
  ((visited result).filterMap flowObservation, (visited result).filterMap stepObservation)

/-! ## The snapshot -/

/-- The number of collections around a flow record: each adds five segments to a path. -/
def collectionDepth (path : String) : ℕ := ((path.toList.splitOn '/').length - 3) / 5

/-- The greatest value; zero without any. -/
def greatest (values : List ℕ) : ℕ := values.foldl max 0

/-- A path is a record's own, or lies below it. -/
def under (path other : String) : Bool :=
  other == path || (path.toList ++ ['/']).isPrefixOf other.toList

/-- How many collections nest below a flow record. -/
def childDepth (depths : List (String × ℕ)) (path : String) : ℕ :=
  let own := (depths.lookup path).getD 0
  greatest ((depths.filter fun entry => under path entry.1).map Prod.snd) - own

/-- A value is kept when it is not too deep. -/
def freezeResult (maxDepth : ℕ) : Option Json → Except Exn Unit
  | some value => do
      let _ ← freezeJson maxDepth value
      return ()
  | none => .ok ()

/-- The result of an operation; the ledger of a collection is bounded by the document alone. -/
def StepResult.operationResult : StepResult → Option Json
  | .operation _ result _ => result
  | _ => none

/-- The frozen document of a result with the index of its records. -/
def snapshotExecution (result : ExecutionResult) :
    Except Exn (Json × List FlowObservation × List StepObservation) := do
  let (flows, steps) := executionRecords result
  let depths := Dict.ofList (flows.map fun flow => (flow.path, collectionDepth flow.path))
  let maximum := greatest (depths.map Prod.snd)
  if maximum > MAX_COLLECTION_DEPTH then fail .invalidOutput
  let _ ← freezeJson (MAX_JSON_DEPTH + 5 * maximum) result.payload
  flows.forM fun flow =>
    freezeResult (MAX_JSON_DEPTH + 5 * childDepth depths flow.path) flow.record.result
  steps.forM fun step => freezeResult MAX_JSON_DEPTH step.record.operationResult
  let document ← freezeJson (min MAX_EXECUTION_JSON_DEPTH (MAX_JSON_DEPTH + 5 + 5 * maximum))
    result.modelDump
  return (document, flows, steps)

end Foliqant.Evaluation

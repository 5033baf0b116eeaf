import Foliqant.Compiler.Navigation
import Foliqant.Decisions.Native

/-!
# Scopes

The static value of a pointer inside a flow and at the boundaries of a workflow: the input schemas, the
result schemas of the steps, and the outputs that flows project from them.
-/

namespace Foliqant.Compiler

open Foliqant.Core JsonText
open Foliqant.Decisions (DecisionStepPlan DecisionQuestionPlan)

/-! ## Known schemas -/

/-- The strings of an `enum`. -/
def strings (values : List String) : Json := .arr (values.map .str)

/-- A schema of strings. -/
def oneOf (values : List String) : Json := .obj [("type", .str "string"), ("enum", strings values)]

/-- The schema of a type. -/
def ofType (kind : String) : Json := .obj [("type", .str kind)]

/-- The issues of a decision. -/
def ISSUES : List String :=
  ["no_supported_answer", "conflicting_information", "multiple_valid_options"]

/-- The statuses of a record. -/
def STATUSES : List String := ["completed", "needs_review", "failed", "cancelled", "skipped"]

/-- The schema of an error. -/
def ERROR_SCHEMA : Object :=
  [("type", .str "object"),
    ("properties", .obj [("code", ofType "string"), ("message", ofType "string"),
      ("retryable", ofType "boolean")]),
    ("additionalProperties", .bool false)]

/-- The members of an entry of the ledger of a collection. -/
def entryProperties : Object :=
  [("id", ofType "string"), ("flow", ofType "string"), ("status", ofType "string"),
    ("steps", ofType "object"), ("result", .obj []), ("usage", ofType "object"),
    ("elapsed_seconds", ofType "number"), ("error", ofType "object"),
      ("attempt_count", ofType "integer"),
    ("attempts", ofType "array"), ("attempts_usage", ofType "object"),
    ("attempts_elapsed_seconds", ofType "number"),
    ("repeat", .obj [("type", .str "object"), ("properties", .obj [("stopped_by",
      oneOf ["until", "exhausted", "continue_when", "review", "failure"])])]),
    ("retry", ofType "object")]

/-- The schema of an item's entry. -/
def entrySchema : Object :=
  [("type", .str "object"), ("properties", .obj entryProperties),
    ("additionalProperties", .bool false)]

/-- Known ledger structure; child business results keep their authored types. -/
def collectionResultSchema : Object :=
  [("type", .str "object"), ("required", strings ["items"]), ("additionalProperties", .bool false),
    ("properties", .obj [("items", .obj [("type", .str "array"), ("items", .obj entrySchema)])])]

/-- An answer that may be null. -/
def nullable (properties : Object) : Object :=
  [("anyOf", .arr [ofType "null", .obj [("type", .str "object"), ("properties", .obj properties)]])]

/-- The schema of an answer. -/
def answerSchema (question : DecisionQuestionPlan) : Object :=
  let options := question.options.map (·.id)
  match question.type with
  | .choice => nullable [("optionId", oneOf options)]
  | .multiselect =>
      nullable [("optionIds", .obj [("type", .str "array"), ("items", oneOf options)])]
  | .predicate =>
      [("type", .str "object"), ("properties", .obj [("value", oneOf ["true", "false", "unknown"])])]
  | .ordinal => nullable [("levelId", oneOf options)]
  | .requestUnits => nullable [("units", ofType "array"), ("relations", ofType "array")]

/-- The schema of a question's result. -/
def questionSchema (question : DecisionQuestionPlan) : Object :=
  [("type", .str "object"),
    ("properties", .obj [
      ("questionId", .obj [("type", .str "string"), ("const", .str question.id)]),
      ("type", .obj [("type", .str "string"), ("const", .str question.type.value)]),
      ("answer", .obj (answerSchema question)),
      ("answerability", .obj [("type", .str "object"), ("properties", .obj [
        ("status", oneOf ["answerable", "not_answerable", "undetermined"]),
        ("issues", .obj [("type", .str "array"), ("items", oneOf ISSUES)])])]),
      ("reason", ofType "string"),
      ("evidence_strength", .obj [("enum", .arr [.str "limited", .str "strong", .null])])])]

/-- The validated native result shape; objects stay open for unknown keys. -/
def decisionResultSchema (step : DecisionStepPlan) : Object :=
  match step.questionMode, step.questions with
  | .single, question :: _ => questionSchema question
  | _, questions =>
      [("type", .str "object"),
        ("properties", .obj [("results", .obj [("type", .str "array"),
          ("items", .obj [("anyOf", .arr
            (questions.map fun question => .obj (questionSchema question)))])])])]

/-! ## Steps -/

/-- What a scope knows of a compiled step. -/
inductive CompiledStep where
  | decision (step : DecisionStepPlan)
  | llm (outputSchemaPath : Option String)
  | mcp (server tool : String)
  | handler (handler : String)
  | flowCollection

/-- The schema of a selected category: the options of a choice with its fallback, any other name for a
handler. -/
def categorySchema : CompiledStep → Json
  | .decision step =>
      if step.singleChoice then
        let options := (step.questions.head?.map fun question => question.options.map (·.id)).getD []
        oneOf (options ++ (step.fallback.map fun fallback => fallback.category.id).toList)
      else ofType "string"
  | _ => ofType "string"

/-- The schema of a selection. -/
def selectionSchema (step : CompiledStep) : Object :=
  [("type", .str "object"),
    ("properties", .obj [("origin", oneOf ["model", "fallback"]),
      ("category", .obj [("type", .str "object"),
        ("properties", .obj [("id", categorySchema step), ("description", ofType "string")]),
        ("additionalProperties", .bool false)])]),
    ("additionalProperties", .bool false)]

/-- The step can select a category. -/
def CompiledStep.selects : CompiledStep → Bool
  | .handler _ => true
  | .decision step => step.singleChoice
  | _ => false

/-- A step that runs a collection. -/
def CompiledStep.isCollection : CompiledStep → Bool
  | .flowCollection => true
  | _ => false

/-- Step record fields a later binding can read. A failure stops the flow, so no binding reads one. -/
def recordSchema (step : CompiledStep) : Object :=
  [("type", .str "object"),
    ("properties", .obj ([("status", oneOf STATUSES), ("result", .obj [])] ++
      (if step.isCollection then [("kind", .obj [("const", .str "flow_collection")])] else []) ++
      if step.selects then [("selection", .obj (selectionSchema step))] else [])),
    ("additionalProperties", .bool false)]

/-! ## Bindings -/

/-- What is known about the value of a pointer. -/
abbrev PointerResolver := String → Except ValueError Static

/-- An authored default stands in for an absent value. -/
def Static.withDefault (static : Static) : Option Json → Static
  | some value => { alternatives := static.alternatives ++ [.const value] }
  | none => static

section Bindings

variable (resources : SchemaResources) (resolve : PointerResolver)

/-- A null member is skipped like a missing one. -/
def skippable (member : Static) : Bool :=
  member.absent || ((types resources member).map fun kinds => kinds.contains "null").getD true

mutual

/-- Static value of any binding kind, including its authored default. -/
def bindingStatic : BindingPlan → Except ValueError Static
  | .literal value => .ok (.of [.const value])
  | .pointer path default => do return (← resolve path).withDefault default
  | .firstOf members default => do
      let members ← members.mapM resolve
      return (union members (some (members.all (skippable resources)))).withDefault default
  | .fields entries => do return .of [.obj (Dict.ofList (← bindingStatics entries))]

/-- What is known about the values of bindings. -/
def bindingStatics : Bindings → Except ValueError (List (String × Static))
  | [] => .ok []
  | (name, binding) :: rest => do
      let static ← bindingStatic binding
      let others ← bindingStatics rest
      return (name, static) :: others

end

end Bindings

/-! ## The scope of a flow -/

/-- Pointers inside one flow: `/payload`, `/metadata` and `/steps/<id>`. A tool or a handler has an output
schema when it declares one. -/
structure FlowScope where
  steps : List (String × CompiledStep)
  inputPath : Option String
  schemas : List (String × Object)
  catalogs : List (String × List (String × Option Object)) := []
  handlers : List (String × Option Object) := []

/-- A schema of its own. -/
def rootView (schema : Object) (path : String) : SchemaView := ⟨.obj schema, schema, path⟩

/-- The schema of a resource. -/
def resourceView (schemas : List (String × Object)) (path : String) : SchemaView :=
  rootView ((schemas.lookup path).getD []) path

/-- The input that a schema describes, if there is one. -/
def inputStatic (schemas : List (String × Object)) (otherwise : Object) : Option String → Static
  | some path => .of [.view (resourceView schemas path)]
  | none => .of [.view (rootView otherwise "")]

/-- Any object. -/
def anyObject : Static := .of [.view (rootView [("type", .str "object")] "")]

/-- A value about which nothing is known. -/
def anything : Static := .of [.view (rootView [] "")]

namespace FlowScope

variable (scope : FlowScope)

/-- What is known about the payload. -/
def payload : Static := inputStatic scope.schemas [] scope.inputPath

/-- What is known about a step's result. -/
def stepResult : CompiledStep → Static
  | .flowCollection => .of [.view (rootView collectionResultSchema "")]
  | .llm path => inputStatic scope.schemas [("type", .str "string")] path
  | .mcp server tool =>
      .of [.view (rootView (((scope.catalogs.lookup server).bind (·.lookup tool)).join.getD []) "")]
  | .handler name => .of [.view (rootView ((scope.handlers.lookup name).join.getD []) "")]
  | .decision step => .of [.view (rootView (decisionResultSchema step) "")]

/-- What a pointer may find. -/
def resolve (resources : SchemaResources) : PointerResolver := fun pointer =>
  match tokens pointer with
  | [] => .ok anyObject
  | "payload" :: below => scope.payload.pointer resources below
  | "metadata" :: below => anyObject.pointer resources below
  | ["steps"] => .ok anyObject
  | "steps" :: name :: below =>
      match scope.steps.lookup name, below with
      | none, _ => .ok { alternatives := [], absent := true }
      | some step, "result" :: below => (scope.stepResult step).pointer resources below
      | some step, below =>
          Static.pointer resources (.of [.view (rootView (recordSchema step) "")]) below
  | _ => .ok anything

end FlowScope

/-! ## The scope of a workflow -/

mutual

/-- A flow output as projected after the flow completed: the default of a pointer to a step that always
runs is dropped. -/
def completionBinding (conditional : List String) : BindingPlan → BindingPlan
  | .fields entries => .fields (completionBindings conditional entries)
  | .pointer path (some default) =>
      match tokens path with
      | "steps" :: name :: _ =>
          .pointer path (if conditional.contains name then some default else none)
      | _ => .pointer path (some default)
  | binding => binding

/-- The bindings of a step that completed. -/
def completionBindings (conditional : List String) : Bindings → Bindings
  | [] => []
  | (name, binding) :: rest =>
      (name, completionBinding conditional binding) :: completionBindings conditional rest

end

/-- Boundary pointers: `/payload`, `/metadata` and `/flows/<id>/result|attempts`. `completed` are the flows
known to have completed where the pointer is resolved. -/
structure WorkflowScope where
  flows : List FlowPlan
  flowScopes : List (String × FlowScope)
  inputPath : Option String
  schemas : List (String × Object)
  completed : List String := []

namespace WorkflowScope

variable (resources : SchemaResources) (scope : WorkflowScope)

/-- The same scope where some flows are known to have completed. -/
def completedAt (names : List String) : WorkflowScope := { scope with completed := names }

/-- The scope of the repeat of a callable flow: its own records and those of its retry flow, over the input
of an item. -/
def itemScope (flow : FlowPlan) (inputPath : Option String) : WorkflowScope where
  flows := scope.flows.filter fun other =>
    (flow.name :: (flow.repeatPlan.bind RepeatPlan.retryFlow).toList).contains other.name
  flowScopes := scope.flowScopes
  inputPath := inputPath
  schemas := scope.schemas

/-- A flow without an output returns its input. -/
def flowResult (flow : FlowPlan) (local_ : FlowScope) : Except ValueError Static :=
  match flow.output with
  | none => .ok (inputStatic scope.schemas [("type", .str "object")] local_.inputPath)
  | some output =>
      let conditional := (flow.steps.filter fun step => step.guard.isSome).map StepPlan.name
      bindingStatic resources (local_.resolve resources)
        (if scope.completed.contains flow.name then completionBinding conditional output else output)

/-- Bindable attempt entries. Only a failed attempt has an error, and a failure stops the run. -/
def attemptFields (result : Static) : List (String × Static) :=
  [("attempt", .of [.view (rootView [("type", .str "integer"), ("minimum", .int 1)] "")]),
    ("status", .of [.view (rootView [("type", .str "string"), ("enum", strings STATUSES)] "")]),
    ("result", { alternatives := result.alternatives, absent := true }),
    ("error", { alternatives := [.view (rootView ERROR_SCHEMA "")], absent := true, missing := true })]

/-- What is known about attempts. -/
def attempts (result : Static) : Static := .of [.arr (.of [.obj (attemptFields result)])]

/-- A flow of the scope with its own scope. -/
def flow? (name : String) : Option (FlowPlan × FlowScope) :=
  (scope.flows.find? fun flow => flow.name = name).bind fun flow =>
    (scope.flowScopes.lookup name).map fun local_ => (flow, local_)

/-- What a pointer may find in the workflow, seen from the scope of one of its flows. -/
def resolve : PointerResolver := fun pointer =>
  match tokens pointer with
  | [] => .ok anyObject
  | "payload" :: below => (inputStatic scope.schemas [] scope.inputPath).pointer resources below
  | "metadata" :: below => anyObject.pointer resources below
  | "flows" :: name :: field :: below =>
      match scope.flow? name, field with
      | some (flow, local_), "result" => do
          (← scope.flowResult resources flow local_).pointer resources below
      | some (flow, local_), "attempts" => do
          (attempts (← scope.flowResult resources flow local_)).pointer resources below
      | _, _ => .ok anything
  | _ => .ok anything

end WorkflowScope

end Foliqant.Compiler

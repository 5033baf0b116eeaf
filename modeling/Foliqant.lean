import Foliqant.Common.Accounting
import Foliqant.Common.Aftermath
import Foliqant.Common.Backtracking
import Foliqant.Common.DecimalContext
import Foliqant.Common.DepthFirst
import Foliqant.Common.Dict
import Foliqant.Common.Digraph
import Foliqant.Common.Dominators
import Foliqant.Common.Emission
import Foliqant.Common.Fallible
import Foliqant.Common.Formula
import Foliqant.Common.Guarantee
import Foliqant.Common.JsonCodec
import Foliqant.Common.JsonLexemes
import Foliqant.Common.JsonRoundTrip
import Foliqant.Common.JsonText
import Foliqant.Common.KeyedFilter
import Foliqant.Common.KeyedMerge
import Foliqant.Common.Machine
import Foliqant.Common.Metering
import Foliqant.Common.Semaphore
import Foliqant.Common.Tally
import Foliqant.Common.TextSearch
import Foliqant.Core.Admission
import Foliqant.Core.Bindings
import Foliqant.Core.CollectionLedger
import Foliqant.Core.Conditions
import Foliqant.Core.Doubles
import Foliqant.Core.Engine
import Foliqant.Core.EngineErrors
import Foliqant.Core.Errors
import Foliqant.Core.Execution
import Foliqant.Core.Failures
import Foliqant.Core.FlowBehavior
import Foliqant.Core.FlowShape
import Foliqant.Core.Json
import Foliqant.Core.Plan
import Foliqant.Core.Pointers
import Foliqant.Core.Pricing
import Foliqant.Core.Prompt
import Foliqant.Core.PromptSpec
import Foliqant.Core.RepeatBehavior
import Foliqant.Core.RepeatProtocol
import Foliqant.Core.RepeatRounds
import Foliqant.Core.Retry
import Foliqant.Core.RunBehavior
import Foliqant.Core.RunRecords
import Foliqant.Core.RunTriples
import Foliqant.Core.Runner
import Foliqant.Core.StartedFlows
import Foliqant.Core.StepBudget
import Foliqant.Core.TracedCalls
import Foliqant.Core.Usage
import Foliqant.Core.UsageAlgebra
import Foliqant.Core.UsageRuns
import Foliqant.Compiler.Boundaries
import Foliqant.Compiler.BoundaryRuns
import Foliqant.Compiler.BoundarySpec
import Foliqant.Compiler.BudgetSpec
import Foliqant.Compiler.Budgets
import Foliqant.Compiler.Conditions
import Foliqant.Compiler.ConditionsSpec
import Foliqant.Compiler.Graph
import Foliqant.Compiler.GraphRuns
import Foliqant.Compiler.GraphSafety
import Foliqant.Compiler.GraphSpec
import Foliqant.Compiler.JsonEquality
import Foliqant.Compiler.JsonKeys
import Foliqant.Compiler.Navigation
import Foliqant.Compiler.PatternBounds
import Foliqant.Compiler.PatternMatch
import Foliqant.Compiler.PatternShapes
import Foliqant.Compiler.Patterns
import Foliqant.Compiler.PlainSchemas
import Foliqant.Compiler.RouteChecks
import Foliqant.Compiler.RouteVerdicts
import Foliqant.Compiler.RoutedRuns
import Foliqant.Compiler.Routing
import Foliqant.Compiler.SchemaNavigation
import Foliqant.Compiler.Scopes
import Foliqant.Compiler.ScopesSpec
import Foliqant.Compiler.StaticValues
import Foliqant.Compiler.StaticVerdicts
import Foliqant.Compiler.StepBindings
import Foliqant.Compiler.StepBindingsSpec
import Foliqant.Compiler.TypedRuns
import Foliqant.Decisions.Contracts
import Foliqant.Decisions.ContractsSpec
import Foliqant.Decisions.Native
import Foliqant.Decisions.NativeSpec
import Foliqant.Decisions.RelationReports
import Foliqant.Decisions.Results
import Foliqant.Decisions.ResultsSpec
import Foliqant.Decisions.StepContract
import Foliqant.Evaluation.Attempts
import Foliqant.Evaluation.Checkpoint
import Foliqant.Evaluation.Journal
import Foliqant.Evaluation.Metrics
import Foliqant.Evaluation.MetricsSpec
import Foliqant.Evaluation.PathStatus
import Foliqant.Evaluation.Records
import Foliqant.Evaluation.RecordsSpec
import Foliqant.Evaluation.Schedule
import Foliqant.Evaluation.ScheduleRuns
import Foliqant.Evaluation.Snapshots
import Foliqant.Evaluation.Spans
import Foliqant.Adapters.Blocking
import Foliqant.Adapters.ModelRequests
import Foliqant.Adapters.ToolCalls
import Foliqant.Adapters.ToolProtocol
import Foliqant.Adapters.TracePrivacy
import Foliqant.Adapters.TracePrivacySpec
import Foliqant.Application.ConditionLabels
import Foliqant.Application.Explain
import Foliqant.Application.ExplainSpec
import Foliqant.Application.Shutdown

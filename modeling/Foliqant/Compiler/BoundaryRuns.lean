import Foliqant.Compiler.BoundarySpec
import Foliqant.Core.RunTriples

/-!
# Boundaries in runs

At every boundary that a run of an accepted workflow evaluates, the flows that the analysis finds
available have a result in the records, and the flows it finds completed did complete, if they ran. The
invariant of a run is the path it has walked: what is on the path has finished, what is not is untouched,
and a flow that was left for review leads on through a review route. A fact that every execution of a flow
has unless it failed holds of every run in those records.
-/

namespace Foliqant.Compiler

open Foliqant.Core Exec
open Emission (after)

/-- What the analysis promises of the records at a boundary. -/
structure BoundaryReady (plan : WorkflowPlan) (graph : Graph) (place : Boundary) (records : Records) :
    Prop where
  available : ∀ name ∈ availableAt plan graph place, Supplies plan records name
  completed : ∀ name ∈ completedAt plan graph place, ∀ record, records.lookup name = some record →
    record.status = .completed ∨ record.status = .skipped

/-- A boundary is ready, and what is recorded there has a fact. -/
def Ready (plan : WorkflowPlan) (graph : Graph) (fact : RunFact) (event : Event) : Prop :=
  ∀ place records, event = .boundary place records →
    BoundaryReady plan graph place records ∧ Holding plan fact records

section Records

variable {plan : WorkflowPlan} {graph : Graph} {fact : RunFact} {records : Records} {name : String}

/-- Only boundaries may be unready. -/
theorem ready_plain : OfBoundaries (Ready plan graph fact) :=
  fun _ plain place records same => absurd same (plain place records)

/-- A boundary that is ready, with the facts of its records. -/
theorem BoundaryReady.ready {place : Boundary} (h : BoundaryReady plan graph place records)
    (holding : Holding plan fact records) : Ready plan graph fact (.boundary place records) := by
  intro place' records' same
  obtain ⟨rfl, rfl⟩ := Event.boundary.inj same
  exact ⟨h, holding⟩

/-- A flow that provides its output supplies it. -/
theorem provided_supplies (h : Provided records name) : Supplies plan records name := by
  obtain ⟨record, known, provides⟩ := h
  exact ⟨record, known, provides.result, fun _ => provides.attempts⟩

/-- A flow that provides its output has completed or needs review. -/
theorem provided_completed (h : Provided records name) :
    ∀ record, records.lookup name = some record → record.status = .completed ∨
    record.status = .skipped := by
  obtain ⟨own, known, provides⟩ := h
  intro record known'
  obtain rfl := Option.some.inj (known.symm.trans known')
  exact .inl provides.status

/-! ## Items -/

variable {retryOf : List (String × String)}

/-- A flow is not its own retry flow. -/
theorem Accepts.retry_apart (h : Accepts plan retryOf graph) {flow : FlowPlan}
    (mem : flow ∈ plan.flows)
    {rep : RepeatPlan} (repeats : flow.repeatPlan = some rep) : rep.retryFlow ≠ some flow.name :=
  fun self => (h.owners.accepted _ (h.owners.owns flow mem rep flow.name repeats self)).1 rfl

/-- Nothing has completed before an item. -/
theorem completedEarlier_item {flow : FlowPlan} (mem : flow ∈ plan.flows)
    (callable : flow.callable = true) :
    completedEarlier plan graph flow.name = [] := by
  unfold completedEarlier
  rw [isCallable_of_mem mem, if_pos callable]

/-- The repeats of collection items find what is available to them. -/
theorem Accepts.itemsAttend (h : Accepts plan retryOf graph) :
    ItemsAttend (Ready plan graph fact) plan fact := by
  intro flow mem callable rep repeats
  have none_ := @completedEarlier_item plan graph flow mem callable
  refine ⟨h.retry_apart mem repeats, fun retry _ known _ _ own holding => holding.setRetry known own,
    fun records attempted => BoundaryReady.ready ?_ attempted.1,
    fun records retried => BoundaryReady.ready ?_ retried.1.1⟩
  · have own := attempted.2
    refine ⟨?_, ?_⟩
    · rw [availableAt_retryInput mem, if_pos callable]
      exact List.forall_mem_singleton.mpr (provided_supplies own)
    · show ∀ name ∈ flow.name :: completedEarlier plan graph flow.name, _
      rw [none_]
      exact List.forall_mem_singleton.mpr (provided_completed own)
  · have own := retried.1.2
    refine ⟨?_, ?_⟩
    · rw [availableAt_nextInput mem repeats, if_pos callable]
      refine List.forall_mem_cons.mpr ⟨provided_supplies own, fun name retry => ?_⟩
      exact provided_supplies (retried.2 name (Option.mem_toList.mp retry))
    · show ∀ name ∈ flow.name :: completedEarlier plan graph flow.name ++ retryOwned plan flow.name, _
      rw [none_, retryOwned_eq mem repeats]
      refine List.forall_mem_cons.mpr ⟨provided_completed own, fun name retry => ?_⟩
      exact provided_completed (retried.2 name (Option.mem_toList.mp retry))

/-! ## The path of a run -/

/-- A finished run of a flow. -/
structure Finishes (plan : WorkflowPlan) (name : String) (record : FlowRecord) : Prop where
  status : record.status = .completed ∨ record.status = .needsReview
  result : record.result.isSome
  attempts : Repeated plan name → record.attempts ≠ []

/-- A flow that a run left before another one. -/
def Passed (plan : WorkflowPlan) (records : Records) (name f : String) : Prop :=
  ∃ record, records.lookup f = some record ∧ Finishes plan f record ∧
    (record.status = .completed ∨ ReviewLeads plan f name)

/-- The records when a run arrives at a flow. -/
structure Walked (plan : WorkflowPlan) (behind : List String) (name : String) (records : Records) :
    Prop where
  passed : ∀ f ∈ behind, Passed plan records name f
  untouched : ∀ f, isRouted plan f = true → f ≠ name → f ∉ behind → ∀ record,
    records.lookup f = some record → record.status = .skipped

/-- A flow that a route passed supplies its output. -/
theorem Passed.supplies {f : String} (h : Passed plan records name f) : Supplies plan records f := by
  obtain ⟨record, known, finishes, -⟩ := h
  exact ⟨record, known, finishes.result, finishes.attempts⟩

/-- A flow of the plan is routed or callable. -/
theorem isRouted_of_mem {flow : FlowPlan} (mem : flow ∈ plan.flows) :
    isRouted plan flow.name = !flow.callable := by
  unfold isRouted
  rw [WorkflowPlan.flow?_of_mem mem]
  rfl

section Path

variable {behind : List String} {flow : FlowPlan} (h : Accepts plan retryOf graph)
  (path : RoutePath plan (flow.name :: behind) flow.name) (mem : flow ∈ plan.flows)
  (single : flow.callable = false)
include h path

/-- A record of the flow itself, or of one that is not routed, leaves the path as it is. -/
theorem Walked.set (walked : Walked plan behind flow.name records) {other : String}
    (apart : other = flow.name ∨ isRouted plan other = false) (record : FlowRecord) :
    Walked plan behind flow.name (Dict.set other record records) := by
  have fresh := (List.nodup_cons.mp (path.nodup h)).1
  have kept {f : String} (single : isRouted plan f = true) (ne : f ≠ flow.name) :
      (Dict.set other record records).lookup f = records.lookup f := by
    refine Dict.lookup_set_of_ne ?_ record records
    rintro rfl
    rcases apart with same | callable
    · exact ne same
    · rw [callable] at single
      cases single
  refine ⟨fun f before => ?_, fun f single ne outside own known => ?_⟩
  · obtain ⟨own, known, passed⟩ := walked.passed f before
    have ne : f ≠ flow.name := by
      rintro rfl
      exact fresh before
    exact ⟨own, (kept (path.routed h f (List.mem_cons_of_mem _ before)) ne).trans known, passed⟩
  · rw [kept single ne] at known
    exact walked.untouched f single ne outside own known

include mem single

/-- Whatever is available before a flow has finished. -/
theorem Walked.available (walked : Walked plan behind flow.name records) {f : String}
    (dominates : f ∈ graph.dominating plan flow.name) (ne : f ≠ flow.name) :
    Supplies plan records f := by
  have routed_ : isRouted plan flow.name = true := by rw [isRouted_of_mem mem, single, Bool.not_false]
  have on := h.mem_dominating routed_ dominates _ path
  exact (walked.passed f ((List.mem_cons.mp on).resolve_left ne)).supplies

omit path in
/-- Whatever counts as completed before a flow completed or did not run. -/
theorem Walked.completed (walked : Walked plan behind flow.name records) :
    ∀ f ∈ completedEarlier plan graph flow.name, ∀ record, records.lookup f = some record →
      record.status = .completed ∨ record.status = .skipped := by
  intro f earlier record known
  unfold completedEarlier at earlier
  rw [isCallable_of_mem mem, if_neg (Bool.eq_false_iff.mp single)] at earlier
  have routed_ : isRouted plan flow.name = true := by rw [isRouted_of_mem mem, single, Bool.not_false]
  obtain ⟨ne, ⟨other, path_, on⟩, reviews⟩ := (h.mem_completedBefore routed_).mp earlier
  by_cases before : f ∈ behind
  · obtain ⟨own, known', -, completed | leads⟩ := walked.passed f before
    · obtain rfl := Option.some.inj (known'.symm.trans known)
      exact .inl completed
    · exact absurd leads reviews
  · exact .inr (walked.untouched f (path_.routed h f on) ne before record known)

/-- The repeat of a routed flow finds what is available to it. -/
theorem Walked.attends {rep : RepeatPlan} (repeats : flow.repeatPlan = some rep) :
    Attends (Ready plan graph fact) plan fact
      (fun records => Walked plan behind flow.name records ∧ Holding plan fact records) flow rep := by
  have dominated {records : Records} (walked : Walked plan behind flow.name records)
      (provided : Provided records flow.name) (f : String)
        (dominates : f ∈ graph.dominating plan flow.name) :
      Supplies plan records f := by
    by_cases own : f = flow.name
    · rw [own]
      exact provided_supplies provided
    · exact walked.available h path mem single dominates own
  refine ⟨h.retry_apart mem repeats,
    fun retry retries known records run own kept => ⟨?_, kept.2.setRetry known own⟩,
    fun records attempted => BoundaryReady.ready ?_ attempted.1.2,
    fun records retried => BoundaryReady.ready ?_ retried.1.1.2⟩
  · obtain ⟨-, target, known, callable, -⟩ :=
      h.owners.accepted _ (h.owners.owns flow mem rep retry.name repeats retries)
    refine kept.1.set h path (.inr ?_) _
    unfold isRouted
    rw [known, Option.map_some, Option.getD_some, callable, Bool.not_true]
  · refine ⟨?_, List.forall_mem_cons.mpr ⟨provided_completed attempted.2, ?_⟩⟩
    · rw [availableAt_retryInput mem, if_neg (Bool.eq_false_iff.mp single)]
      exact dominated attempted.1.1 attempted.2
    · exact attempted.1.1.completed h mem single
  · have retry (name : String) (own : name ∈ rep.retryFlow.toList) : Provided records name :=
      retried.2 name (Option.mem_toList.mp own)
    obtain ⟨⟨walked, -⟩, provided⟩ := retried.1
    refine ⟨?_, List.forall_mem_cons.mpr ⟨provided_completed provided, ?_⟩⟩
    · rw [availableAt_nextInput mem repeats, if_neg (Bool.eq_false_iff.mp single)]
      exact List.forall_mem_append.mpr ⟨dominated walked provided,
        fun name own => provided_supplies (retry name own)⟩
    · rw [retryOwned_eq mem repeats]
      exact List.forall_mem_append.mpr ⟨walked.completed h mem single,
        fun name own => provided_completed (retry name own)⟩

end Path

end Records

/-! ## Routed flows -/

/-- Where a flow that finished goes. -/
structure GoesTo (flow : FlowPlan) (status : Status) (target : TransitionTargetPlan) : Prop where
  single : target.flow.isNone ≠ target.outcome.isNone
  chosen : (status ≠ .needsReview ∧ target ∈ flowTransitions flow) ∨
    (status = .needsReview ∧ target ∈ flowReviews flow) ∨
    (status = .needsReview ∧ flow.onUnresolved = none ∧ target = { outcome := some .needsReview })

/-- The records when a run leaves a flow for a target. -/
structure Departure (plan : WorkflowPlan) (behind : List String) (flow : FlowPlan)
    (target : TransitionTargetPlan) (records : Records) : Prop where
  walked : Walked plan behind flow.name records
  record : ∃ record, records.lookup flow.name = some record ∧ Finishes plan flow.name record ∧
    GoesTo flow record.status target

/-- A flow leaves for a target with its output supplied. -/
def Departs (plan : WorkflowPlan) (fact : RunFact) (behind : List String)
    (flow : FlowPlan) (routed : Routed)
    (l : RunLocals) : Prop :=
  ∀ target transition, routed = .boundary target transition →
    Departure plan behind flow target l.records ∧ Holding plan fact l.records

section Departing

variable {plan : WorkflowPlan} {retryOf : List (String × String)} {graph : Graph}
    {behind : List String}
  {flow : FlowPlan} {target : TransitionTargetPlan} {records : Records}

/-- The next flow continues the path. -/
theorem Departure.next (departure : Departure plan behind flow target records)
    (path : RoutePath plan (flow.name :: behind) flow.name) (mem : flow ∈ plan.flows) {name : String}
    (goes : target.flow = some name) : RoutePath plan (name :: flow.name :: behind) name ∧
      Walked plan (flow.name :: behind) name records := by
  obtain ⟨walked, record, known, finishes, leaves⟩ := departure
  have onward : target ∈ flowTargets flow := by
    rcases leaves.chosen with ⟨-, among⟩ | ⟨-, among⟩ | ⟨-, -, same⟩
    · exact List.mem_append_left _ among
    · exact List.mem_append_right _ among
    · rw [same] at goes
      cases goes
  have edge : name ∈ routed flow := mem_routed.mpr ⟨target, onward, goes⟩
  have route : Routes plan flow.name name := .single (by rwa [ofName_of_mem routed mem])
  refine ⟨path.step mem edge,
      List.forall_mem_cons.mpr ⟨⟨record, known, finishes, ?_⟩, fun f before => ?_⟩,
    fun f single ne outside => ?_⟩
  · refine finishes.status.imp_right fun review => ?_
    rcases leaves.chosen with ⟨other, -⟩ | ⟨-, among⟩ | ⟨-, -, same⟩
    · exact absurd review other
    · exact ⟨flow, mem, rfl, name, List.mem_filterMap.mpr ⟨target, among, goes⟩, .refl⟩
    · rw [same] at goes
      cases goes
  · obtain ⟨own, known, finishes, passed⟩ := walked.passed f before
    refine ⟨own, known, finishes, passed.imp_right fun leads => ?_⟩
    obtain ⟨other, mem', same, first, among, routes⟩ := leads
    exact ⟨other, mem', same, first, among, routes.trans route⟩
  · obtain ⟨other, outside⟩ := not_or.mp fun before => outside (List.mem_cons.mpr before)
    exact walked.untouched f single other outside

/-- A flow after which a run ends is one of the terminals, so what is on all their paths has finished. -/
theorem Departure.output (h : Accepts plan retryOf graph)
    (departure : Departure plan behind flow target records)
    (path : RoutePath plan (flow.name :: behind) flow.name) (mem : flow ∈ plan.flows)
    (single : flow.callable = false) (ends : target.flow = none) :
    ∀ f ∈ outputFlows plan graph, Supplies plan records f := by
  obtain ⟨walked, record, known, finishes, leaves⟩ := departure
  have terminal : isTerminal flow = true := by
    have outcome : target.outcome.isSome = true := by
      have one := leaves.single
      rw [ends] at one
      cases decided : target.outcome with
      | some outcome => rfl
      | none =>
        rw [decided] at one
        exact absurd rfl one
    unfold isTerminal
    rw [single, Bool.not_false, Bool.true_and, Bool.or_eq_true]
    rcases leaves.chosen with ⟨-, among⟩ | ⟨-, among⟩ | ⟨-, none_, -⟩
    · exact .inr (List.any_eq_true.mpr ⟨target, List.mem_append_left _ among, outcome⟩)
    · exact .inr (List.any_eq_true.mpr ⟨target, List.mem_append_right _ among, outcome⟩)
    · exact .inl (Option.isNone_iff_eq_none.mpr none_)
  intro f output
  unfold outputFlows at output
  dsimp only at output
  split_ifs at output with empty
  · cases output
  have all := (List.mem_filter.mp output).2
  have dominates := List.contains_iff_mem.mp
    (List.all_eq_true.mp all flow (List.mem_filter.mpr ⟨mem, terminal⟩))
  by_cases own : f = flow.name
  · rw [own]
    exact ⟨record, known, finishes.result, finishes.attempts⟩
  · exact walked.available h path mem single dominates own

end Departing

section Runs

variable {r : WorkflowRunner} {envelope : AcceptedEnvelope}
    {retryOf : List (String × String)} {graph : Graph}
  {fact : RunFact} {behind : List String} {flow : FlowPlan}

/-- Decided conditions are no boundaries. -/
theorem conditions_ready {plan : WorkflowPlan} {events : List Event}
    (conditions : Conditions events) :
    ∀ event ∈ events, Ready plan graph fact event := by
  intro event among
  obtain ⟨location, result, rfl⟩ := conditions event among
  exact ready_plain _ fun _ _ => Event.noConfusion

/-- A run has arrived at the flow. -/
def Arrived (plan : WorkflowPlan) (fact : RunFact) (behind : List String)
    (flow : FlowPlan) (l : RunLocals) :
    Prop :=
  Walked plan behind flow.name l.records ∧ Holding plan fact l.records

/-- A fact that does not depend on whether a run was completed or left for review. -/
def OfOutcomes (fact : RunFact) : Prop :=
  ∀ flow run, fact flow run → fact flow { run with status := .needsReview }

/-- A decided flow has the facts of its attempts. -/
theorem decided_holds (outcomes : OfOutcomes fact) {record : FlowRun} (own : fact flow record)
    {attempts : List FlowRun} (earlier : ∀ attempt ∈ attempts, fact flow attempt)
    {decision : RepeatDecision}
    (reviews : decision.Reviews record) :
    RecordHolds fact flow (decided record (attempts ++ [record]) decision) := by
  have each : ∀ attempt ∈ attempts ++ [record], fact flow attempt :=
    List.forall_mem_append.mpr ⟨earlier, List.forall_mem_singleton.mpr own⟩
  cases decision with
  | again => exact ⟨own, each⟩
  | stopped stop issues status failure =>
    refine ⟨?_, each⟩
    rcases reviews with rfl | ⟨rfl, -⟩
    · exact own
    · exact outcomes flow record own

/-- A review is not a failure. -/
theorem unfailed_of_decided {record : FlowRun} {attempts : List FlowRun} {stop : RepeatStop}
    {issues : List DecisionIssue} {status : Option Status} {failure : Option Failure}
    (reviews : RepeatDecision.Reviews record (.stopped stop issues status failure))
    (open_ : (decided record attempts (.stopped stop issues status failure)).status ≠ .failed) :
    record.status ≠ .failed := by
  rcases reviews with rfl | ⟨rfl, completed⟩
  · exact open_
  · rw [completed]
    exact Status.noConfusion

/-- The last attempt of a repeat that did not fail. -/
theorem decided_finishes {record : FlowRun} (ends : Ends record) {attempts : List FlowRun}
    {stop : RepeatStop}
    {issues : List DecisionIssue} {status : Option Status} {failure : Option Failure}
    (reviews : RepeatDecision.Reviews record (.stopped stop issues status failure))
    (open_ : (decided record (attempts ++ [record]) (.stopped stop issues status failure)).status ≠
      .failed) :
    Finishes r.plan flow.name (decided record (attempts ++ [record])
      (.stopped stop issues status failure)) := by
  have attempts_ : attempts ++ [record] ≠ [] := List.concat_ne_nil _ _
  refine ⟨?_, ends.result (unfailed_of_decided reviews open_), fun _ => attempts_⟩
  rcases reviews with rfl | ⟨rfl, -⟩
  · exact (or_assoc.mpr ends.status).resolve_right open_
  · exact .inr rfl

variable (h : Accepts r.plan retryOf graph) (path : RoutePath r.plan (flow.name :: behind) flow.name)
  (mem : flow ∈ r.plan.flows) (single : flow.callable = false)
include h path mem single

/-- The routes of a flow are ready with its finished record. -/
theorem triple_selectTarget {record : FlowRecord} (finishes : Finishes r.plan flow.name record)
    (issues : List DecisionIssue) : Triple (Ready r.plan graph fact)
      (fun l => Arrived r.plan fact behind flow l ∧ l.records.lookup flow.name = some record)
      (selectTarget r envelope flow record issues) (Departs r.plan fact behind flow) fun _ =>
      True := by
  refine triple_of_grown fun l w given => ?_
  obtain ⟨⟨walked, holding⟩, known⟩ := given
  have reached : Ready r.plan graph fact (.boundary (.routes flow.name) l.records) := by
    refine BoundaryReady.ready ⟨fun f dominates => ?_, walked.completed h mem single⟩ holding
    by_cases own : f = flow.name
    · rw [own]
      exact ⟨record, known, finishes.result, finishes.attempts⟩
    · exact walked.available h path mem single dominates own
  have begins {events : List Event} (conditions : Conditions events) :
      ∀ event ∈ Event.boundary (.routes flow.name) l.records :: events,
        Ready r.plan graph fact event :=
    List.forall_mem_cons.mpr ⟨reached, conditions_ready conditions⟩
  have last {event : Event} (plain : event.Plain) :
      ∀ other ∈ [event], Ready r.plan graph fact other :=
    List.forall_mem_singleton.mpr (ready_plain _ plain)
  have ran := selectTarget_ran r envelope flow record issues l w
  generalize selectTarget r envelope flow record issues (l, w) = result at ran
  cases ran with
  | @boundary selected events chosen conditions =>
    refine ⟨grown_append (List.forall_mem_append.mpr ⟨begins conditions,
      last fun _ _ => Event.noConfusion⟩) w, fun target transition same => ?_⟩
    obtain ⟨rfl, -⟩ := Routed.boundary.inj same
    exact ⟨⟨walked, record, known, finishes, chosen.single,
      boundary_target ⟨chosen.review, chosen.transition⟩⟩, holding⟩
  | failed cause conditions => exact ⟨grown_append (begins conditions) w, trivial⟩
  | misrouted cause conditions =>
    exact ⟨grown_append (List.forall_mem_append.mpr
        ⟨begins conditions, last fun _ _ => Event.noConfusion⟩) w,
      trivial⟩

omit mem single in
/-- A record of the flow with the fact keeps the run where it is. -/
theorem Arrived.set {l : RunLocals} (arrived : Arrived r.plan fact behind flow l)
    (known : r.plan.flow? flow.name = some flow) {record : FlowRecord}
    (own : RecordHolds fact flow record) :
    Walked r.plan behind flow.name (Dict.set flow.name record l.records) ∧
      Holding r.plan fact (Dict.set flow.name record l.records) :=
  ⟨arrived.1.set h path (.inl rfl) _, arrived.2.set known own⟩

/-- A finished flow selects its target unless the run fails. -/
theorem triple_finish {pre : RunLocals → Prop} {record : FlowRecord} {failed : Prop}
    [Decidable failed]
    {failure : Option Failure} (issues : List DecisionIssue)
    (arrived : ¬ failed → ∀ l, pre l → Arrived r.plan fact behind flow l)
    (own : ¬ failed → RecordHolds fact flow record)
    (finishes : ¬ failed → Finishes r.plan flow.name record) :
    Triple (Ready r.plan graph fact) pre
      (do
        update (RunLocals.finish flow.name record)
        if failed then return .failed failure else selectTarget r envelope flow record issues)
      (Departs r.plan fact behind flow) fun _ => True := by
  have finished : Triple (Ready r.plan graph fact) pre (update (RunLocals.finish flow.name record))
      (fun _ l => ¬ failed → Arrived r.plan fact behind flow l ∧
        l.records.lookup flow.name = some record)
      fun _ => True :=
    triple_update fun l given clear =>
        ⟨(arrived clear l given).set h path (WorkflowPlan.flow?_of_mem mem)
      (own clear), Dict.lookup_set_self _ _ _⟩
  refine finished.bind fun _ => .ite (fun _ => triple_pure fun _ _ _ _ same => ?_) fun clear => ?_
  · cases same
  · exact Triple.weaken (triple_selectTarget h path mem single (finishes clear)
      issues) fun _ given => given clear

omit path in
/-- A routed flow without a repeat of its own is in no repeat. -/
theorem not_repeated (once : flow.repeatPlan = none) : ¬ Repeated r.plan flow.name := by
  rintro ⟨other, mem', rep, repeats, same | retries⟩
  · obtain rfl := List.inj_on_of_nodup_map r.plan.nodup mem' mem same
    rw [once] at repeats
    cases repeats
  · have routed : isRouted r.plan flow.name = true := by
      rw [isRouted_of_mem mem, single, Bool.not_false]
    exact h.retry_callable routed (h.owners.owns other mem' rep flow.name repeats retries)

variable (outcomes : OfOutcomes fact) (facts : FlowsHave r fact)
include outcomes facts

/-- The attempts of a routed flow. -/
theorem triple_runRoutedAttempts {rep : RepeatPlan}
    (repeats : flow.repeatPlan = some rep) (remaining : ℕ)
    {attempts : List FlowRun} (earlier : ∀ attempt ∈ attempts, fact flow attempt) {inputs : Object}
    (valid : r.services.validateFlowInput flow.name (.obj inputs) = .ok ()) :
    Triple (Ready r.plan graph fact) (Arrived r.plan fact behind flow)
      (runRoutedAttempts r envelope flow rep remaining attempts inputs)
      (Departs r.plan fact behind flow)
      fun _ => True := by
  induction remaining generalizing attempts inputs with
  | zero => exact triple_refuse ready_plain _ fun _ _ => trivial
  | succ remaining ih =>
    have known := WorkflowPlan.flow?_of_mem mem
    have runs : RunsReturn (Ready r.plan graph fact) fact r (executeFlow r) :=
      executeFlow_returns ready_plain h.itemsAttend facts
    have activated : Triple (Ready r.plan graph fact) (Arrived r.plan fact behind flow)
        (update (RunLocals.activate flow.name)) (fun _ => Arrived r.plan fact behind flow) fun _ =>
          True :=
      triple_update fun _ => id
    refine activated.bind fun _ => (triple_received envelope inputs).keep fun received accepted => ?_
    have call : ValidCall r (routedCall flow received (attempts.length + 1)) :=
      validCall_of_withPayload known rfl valid accepted rfl
    refine (triple_emit_plain ready_plain fun _ _ => Event.noConfusion).bind fun _ =>
      (triple_run runs call).keep fun ran returned => ?_
    obtain ⟨record, issues⟩ := ran
    let inv (records : Records) : Prop :=
      Walked r.plan behind flow.name records ∧ Holding r.plan fact records
    have recorded : Triple (Ready r.plan graph fact) (Arrived r.plan fact behind flow)
        (update fun l => { l with records := setAttempt flow.name record attempts l.records })
        (fun _ l => AttemptRecorded inv flow.name record l.records) fun _ => True :=
      triple_update fun l given unfailed => ⟨⟨given.1.set h path (.inl rfl) _,
        given.2.setAttempt known (returned.fact unfailed) earlier⟩,
        provided_setAttempt flow.name returned.ends attempts l.records⟩
    have attends : Attends (Ready r.plan graph fact) r.plan fact inv flow rep :=
      Walked.attends h path mem single repeats
    have decides := @triple_repeatDecision (Ready r.plan graph fact) ready_plain r fact
        (executeFlow r) inv flow
      rep { envelope := envelope } runs attends record returned.ends (attempts.length + 1) issues
    refine recorded.bind fun _ => ((triple_onRecords decides).mono (fun _ => id) (fun _ _ => id)
      fun _ _ => trivial).bind fun decision => ?_
    -- A stopped repeat selects a target; otherwise the induction takes the next attempt.
    rcases decision with ⟨stop, others, status, failure⟩ | ⟨others, inputs⟩
    · let decision : RepeatDecision := .stopped stop others status failure
      refine .given (c := decision.Reviews record) (fun _ given => given.reviews) fun reviews => ?_
      refine (triple_emit_plain ready_plain fun _ _ => Event.noConfusion).bind fun _ => ?_
      let last := decided record (attempts ++ [record]) decision
      have unfailed (clear : ¬ (last.status = .failed ∨ failure.isSome)) : record.status ≠ .failed :=
        unfailed_of_decided reviews (not_or.mp clear).1
      refine triple_finish h path mem single others
          (fun clear l given => given.kept ⟨unfailed clear, ?_⟩)
        (fun clear => decided_holds outcomes (returned.fact (unfailed clear)) earlier reviews)
        fun clear => decided_finishes returned.ends reviews (not_or.mp clear).1
      exact Option.not_isSome_iff_eq_none.mp (not_or.mp clear).2
    · let decision : RepeatDecision := .again others inputs
      let last := decided record (attempts ++ [record]) decision
      refine .given (c := record.status ≠ .failed ∧
          r.services.validateFlowInput flow.name (.obj inputs) = .ok ())
        (fun _ given => given.again others inputs rfl) fun onward => ?_
      obtain ⟨unfailed, valid⟩ := onward
      have reviews : decision.Reviews record := trivial
      have own := decided_holds outcomes (returned.fact unfailed) earlier reviews
      have again : Triple (Ready r.plan graph fact)
          (fun l => Concludes r inv flow.name record decision l.records)
          (update fun l => { l with records := Dict.set flow.name last l.records })
          (fun _ => Arrived r.plan fact behind flow) fun _ => True := by
        refine triple_update fun l given => ?_
        have arrived : Arrived r.plan fact behind flow l := given.kept trivial
        exact arrived.set h path known own
      exact again.bind fun _ => ih own.attempts valid

/-- A routed flow that does not repeat and is not routed to by a repeat runs once. -/
theorem triple_runRouted : Triple (Ready r.plan graph fact) (Arrived r.plan fact behind flow)
    (runRouted r envelope flow) (Departs r.plan fact behind flow) fun _ => True := by
  have known := WorkflowPlan.flow?_of_mem mem
  have runs : RunsReturn (Ready r.plan graph fact) fact r (executeFlow r) :=
    executeFlow_returns ready_plain h.itemsAttend facts
  let inv (records : Records) : Prop :=
    Walked r.plan behind flow.name records ∧ Holding r.plan fact records
  have input (records : Records) (arrived : inv records) :
      Ready r.plan graph fact (.boundary (.input flow.name) records) := by
    refine BoundaryReady.ready ⟨fun f available => ?_, arrived.1.completed h mem single⟩ arrived.2
    have ne := (of_decide_eq_true (List.mem_filter.mp available).2).2
    exact arrived.1.available h path mem single (mem_availableFlows_dominating available) ne
  have activated : Triple (Ready r.plan graph fact) (Arrived r.plan fact behind flow)
      (update (RunLocals.activate flow.name)) (fun _ => Arrived r.plan fact behind flow) fun _ =>
        True :=
    triple_update fun _ => id
  refine (triple_checkDeadline r fun _ _ => trivial).bind fun _ => activated.bind fun _ => ?_
  refine ((triple_onRecords (triple_flowInput input flow.name flow.input envelope)).mono (fun _ => id)
    (fun _ _ => id) fun _ _ => trivial).keep fun inputs valid => ?_
  split
  case h_1 rep repeats =>
    exact triple_runRoutedAttempts h path mem single outcomes facts repeats _
      (List.forall_mem_nil _) valid
  case h_2 once =>
    refine (triple_received envelope inputs).keep fun received accepted => ?_
    have call : ValidCall r (routedCall flow received 1) :=
      validCall_of_withPayload known rfl valid accepted rfl
    refine (triple_emit_plain ready_plain fun _ _ => Event.noConfusion).bind fun _ =>
      (triple_run runs call).keep fun ran returned => ?_
    obtain ⟨record, issues⟩ := ran
    refine triple_finish h path mem single issues (fun _ _ => id)
      (fun unfailed => ⟨returned.fact unfailed, List.forall_mem_nil _⟩) fun unfailed =>
        ⟨(or_assoc.mpr returned.ends.status).resolve_right unfailed, returned.ends.result unfailed,
          fun repeats => ?_⟩
    exact absurd repeats (not_repeated h mem single once)

end Runs

/-! ## Whole runs -/

section Workflow

variable {r : WorkflowRunner} {envelope : AcceptedEnvelope}
    {retryOf : List (String × String)} {graph : Graph}
  {fact : RunFact} (h : Accepts r.plan retryOf graph) (outcomes : OfOutcomes fact)
    (facts : FlowsHave r fact)

/-- What is on every path to an end of the run has finished, unless the run failed. -/
def OutputReady (plan : WorkflowPlan) (graph : Graph) (fact : RunFact) (ending : Ending)
    (l : RunLocals) : Prop :=
  ending.status ≠ .failed →
    (∀ f ∈ outputFlows plan graph, Supplies plan l.records f) ∧ Holding plan fact l.records

section Routing

include h outcomes facts

/-- The routing from a flow on, along its path. -/
theorem triple_runFlows (remaining : ℕ) (visited : List String) {behind : List String}
    {current : String}
    (path : RoutePath r.plan (current :: behind) current) : Triple (Ready r.plan graph fact)
      (fun l => Walked r.plan behind current l.records ∧ Holding r.plan fact l.records)
      (runFlows r envelope remaining visited current) (OutputReady r.plan graph fact) fun _ =>
      True := by
  induction remaining generalizing visited behind current with
  | zero =>
    exact (triple_checkDeadline r fun _ _ => trivial).bind fun _ =>
      triple_refuse ready_plain _ fun _ _ => trivial
  | succ remaining ih =>
    refine (triple_checkDeadline r fun _ _ => trivial).bind fun _ =>
      .ite (fun _ => triple_refuse ready_plain _ fun _ _ => trivial) fun _ => ?_
    split
    case h_1 => exact triple_refuse ready_plain _ fun _ _ => trivial
    case h_2 flow known =>
      refine .ite (fun _ => triple_refuse ready_plain _ fun _ _ => trivial) fun callable => ?_
      obtain rfl := WorkflowPlan.flow?_name known
      have mem := WorkflowPlan.flow?_mem known
      have single := Bool.eq_false_iff.mpr callable
      refine (triple_runRouted h path mem single outcomes facts).bind fun routed => ?_
      rcases routed with error | ⟨target, transition⟩
      · exact triple_pure fun _ _ unfailed => absurd rfl unfailed
      · have taken : Triple (Ready r.plan graph fact)
            (Departs r.plan fact behind flow (.boundary target transition))
            (update (RunLocals.take transition))
            (fun _ l => Departure r.plan behind flow target l.records ∧ Holding r.plan fact l.records)
            fun _ => True := triple_update fun l departs => departs target transition rfl
        refine taken.bind fun _ => ?_
        split
        case h_1 next goes =>
          -- the path to the next flow exists whatever the records are
          intro s departed
          obtain ⟨onward, walked⟩ := Departure.next departed.1 path mem goes
          exact ih (flow.name :: visited) onward s ⟨walked, departed.2⟩
        case h_2 ends =>
          exact triple_pure fun _ departed _ =>
            ⟨Departure.output h departed.1 path mem single ends, departed.2⟩

end Routing

/-- Before a run every flow is untouched. -/
theorem walked_start {start : String} : Walked r.plan [] start (initialRecords r .workflow) :=
  ⟨List.forall_mem_nil _, fun _ _ _ _ _ known => initialRecords_skipped known⟩

/-- Before a run no flow has run. -/
theorem holding_start (unvisited : ∀ flow, fact flow (skipped flow).toFlowRun) (target : RunTarget) :
    Holding r.plan fact (initialRecords r target) := by
  intro flow known record found
  obtain ⟨other, among, same⟩ := List.mem_map.mp (Dict.mem_of_mem_ofList (Dict.mem_of_lookup found))
  obtain ⟨own, rfl⟩ := Prod.mk.inj same
  have listed := (List.mem_filter.mp among).1
  have found' := WorkflowPlan.flow?_of_mem listed
  rw [own] at found'
  obtain rfl := Option.some.inj (known.symm.trans found')
  exact ⟨unvisited flow, List.forall_mem_nil _⟩

/-- The choice of the first flow. -/
theorem triple_selectStart :
    Triple (Ready r.plan graph fact) (fun l => l.records = initialRecords r .workflow)
    (selectStart r envelope) (fun first l => first.flow ∈ startPaths r.plan ∧
      l.records = initialRecords r .workflow) fun _ => True := by
  refine triple_of_grown fun l w start => ?_
  have ran := selectStart_ran r envelope l w
  generalize selectStart r envelope (l, w) = result at ran
  have last {event : Event} (plain : event.Plain) :
      ∀ other ∈ [event], Ready r.plan graph fact other :=
    List.forall_mem_singleton.mpr (ready_plain _ plain)
  have ran_ := ran
  cases ran with
  | direct =>
    exact ⟨grown_append (last fun _ _ => Event.noConfusion) w, startRan_candidate ran_, start⟩
  | routed _ _ _ conditions =>
    exact ⟨grown_append (List.forall_mem_append.mpr ⟨conditions_ready conditions,
      last fun _ _ => Event.noConfusion⟩) w, startRan_candidate ran_, start⟩
  | failed _ conditions => exact ⟨grown_append (conditions_ready conditions) w, trivial⟩
  | misrouted _ _ conditions =>
    exact ⟨grown_append (List.forall_mem_append.mpr ⟨conditions_ready conditions,
      last fun _ _ => Event.noConfusion⟩) w, trivial⟩

/-- The output of the workflow. -/
theorem triple_projectWorkflow (ending : Ending) :
    Triple (Ready r.plan graph fact) (OutputReady r.plan graph fact ending)
      (projectWorkflow r envelope ending) (fun _ _ => True) fun _ => True := by
  refine .ite (fun _ => triple_pure fun _ _ => trivial) fun unfailed => ?_
  split
  · exact triple_pure fun _ _ => trivial
  · refine triple_read.keep fun l output => ?_
    obtain ⟨supplied, holding⟩ := output unfailed
    have reached : Ready r.plan graph fact (.boundary .output l.records) :=
      BoundaryReady.ready ⟨supplied, List.forall_mem_nil _⟩ holding
    exact (triple_emit fun _ _ => List.forall_mem_singleton.mpr reached).bind fun _ =>
      (triple_lifted _ fun _ _ => trivial).bind fun _ => triple_pure fun _ _ => trivial

variable (unvisited : ∀ flow, fact flow (skipped flow).toFlowRun)
include h outcomes facts unvisited

/-- A run of the workflow. -/
theorem triple_runWorkflow :
    Triple (Ready r.plan graph fact) (fun l => l.records = initialRecords r .workflow)
    (runWorkflow r envelope) (fun _ _ => True) fun _ => True := by
  refine triple_selectStart.bind fun first => ?_
  refine .given (c := first.flow ∈ startPaths r.plan) (fun _ given => given.1) fun candidate => ?_
  have started : Triple (Ready r.plan graph fact)
      (fun l : RunLocals => first.flow ∈ startPaths r.plan ∧ l.records = initialRecords r .workflow)
      (update fun l : RunLocals => { l with start := some first })
      (fun _ l => Walked r.plan [] first.flow l.records ∧ Holding r.plan fact l.records) fun _ =>
        True := by
    refine triple_update fun l given => ?_
    show Walked r.plan [] first.flow l.records ∧ Holding r.plan fact l.records
    rw [given.2]
    exact ⟨walked_start, holding_start unvisited .workflow⟩
  exact started.bind fun _ =>
      (triple_runFlows h outcomes facts _ [] (.start candidate)).bind fun ending =>
    triple_projectWorkflow ending

/-- Every boundary that a run of the workflow evaluates is ready. -/
theorem run_ready : ∀ event ∈ (run r envelope .workflow).2.log, Ready r.plan graph fact event := by
  have whole : Triple (Ready r.plan graph fact) (fun l => l.records = initialRecords r .workflow)
      (runTarget r envelope .workflow) (fun _ _ => True) fun _ => True :=
    (triple_runWorkflow h outcomes facts unvisited).bind fun _ =>
      (triple_checkDeadline r fun _ _ => trivial).bind fun _ => triple_pure fun _ => id
  obtain ⟨grows, -⟩ := whole ({ records := initialRecords r .workflow }, {}) rfl
  have grown : Grown (Ready r.plan graph fact) {} (run r envelope .workflow).2 := by
    unfold run
    rcases ran : runTarget r envelope .workflow ({ records := initialRecords r .workflow }, {}) with
      ⟨ending, l, w⟩ | ⟨error, l, w⟩
    all_goals rw [ran] at grows
    · exact grows
    · exact Guarantee.Grows.trans grows (grown_recordFailure ready_plain error w)
  exact Guarantee.Grows.sound grown rfl

omit outcomes facts unvisited in
/-- Every boundary is ready, whatever is known of the flows. -/
theorem boundary_ready {place : Boundary} {records : Records}
    (reached : .boundary place records ∈ (run r envelope .workflow).2.log) :
    BoundaryReady r.plan graph place records := by
  let fact : RunFact := fun _ _ => True
  have ready := @run_ready r envelope retryOf graph fact h (fun _ _ => id) (fun _ _ _ _ _ => trivial)
    fun _ => trivial
  exact (ready _ reached place records rfl).1

end Workflow

/-! ## Promises of the analysis -/

/-- The run evaluated the boundary. -/
def evaluates (place : Boundary) : Event → Bool
  | .boundary other _ => other == place
  | _ => false

/-- A place that was evaluated is a boundary of the log. -/
theorem evaluated_at {place : Boundary} {log : List Event}
    (reached : log.any (evaluates place) = true) :
    ∃ records, .boundary place records ∈ log := by
  obtain ⟨event, mem, own⟩ := List.any_eq_true.mp reached
  cases event with
  | boundary other records =>
    obtain rfl : other = place := eq_of_beq own
    exact ⟨records, mem⟩
  | _ => cases own

/-- The intake flow reads the payload first, and on its second attempt what the adjustment found. -/
def boundRepeat : RepeatPlan :=
  { intakeRepeat with
    retryFlowInput := [("found", .pointer "/flows/intake/result" none)]
    retryInput := [("document", .pointer "/flows/adjust/result" none)] }

/-- The first flow, with an input and a repeat that are bound. -/
def boundIntake : FlowPlan :=
  { intakeFlow with input := [("document", .pointer "/payload" none)], repeatPlan := some boundRepeat }

/-- A routed flow may lead somewhere. -/
theorem check_routed (callable : false = true) :
    some (TransitionPlan.direct { flow := some "close" }) = none ∧
      some (ReviewRoutePlan.direct { flow := some "close" }) = none :=
  intake_routed callable

/-- What stops for review at the check goes on as well. -/
def reviewedCheck : FlowPlan where
  name := "check"
  steps := [itemsStep]
  transition := some (.direct { flow := some "close" })
  onUnresolved := some (.direct { flow := some "close" })
  nodup := itemsStep_nodup
  called := check_routed

/-- The last flow reads every attempt, and the check only where it ran. -/
def boundClosing : FlowPlan :=
  { closingFlow with
    input := [("attempts", .pointer "/flows/intake/attempts" none),
      ("checked", .pointer "/flows/check/result" (some .null))] }

/-- The flows have different names. -/
theorem bound_flows :
    ([boundIntake, reviewedCheck, boundClosing, helperFlow "item", helperFlow "adjust"].map
      FlowPlan.name).Nodup := by
  decide

/-- A workflow with bindings at every boundary. -/
def boundPlan : WorkflowPlan :=
  { intakePlan with
    output := some (.fields [("intake", .pointer "/flows/intake/result" none)])
    flows := [boundIntake, reviewedCheck, boundClosing, helperFlow "item", helperFlow "adjust"]
    nodup := bound_flows }

/-- A runner of that workflow. -/
def boundRunner : WorkflowRunner := { intakeRunner with plan := boundPlan }

/-- Its graph. -/
def boundGraph : Graph := graphOf boundPlan [("adjust", "intake")]

/-- Its repeats are accepted. -/
theorem bound_repeats :
    validateRepeats boundRunner.plan (fun _ => none) = .ok [("adjust", "intake")] := rfl

/-- Its graph is accepted. -/
theorem bound_graph : validateGraph boundRunner.plan [("adjust", "intake")] = .ok boundGraph := rfl

/-- Its bindings are accepted. -/
theorem bound_boundaries : validateBoundaries boundRunner.plan boundGraph = .ok () := by
  decide +kernel

/-- Every boundary that is reached is supplied. -/
theorem bound_reached {place : Boundary}
    (reached : (run boundRunner exampleEnvelope .workflow).2.log.any (evaluates place) = true) :
    ∃ records, .boundary place records ∈ (run boundRunner exampleEnvelope .workflow).2.log :=
  evaluated_at reached

section Promises

variable {r : WorkflowRunner} {declared : FlowPlan → Option (List String)}
  {retryOf : List (String × String)} {graph : Graph}
  (repeats : validateRepeats r.plan declared = .ok retryOf)
  (valid : validateGraph r.plan retryOf = .ok graph)
include repeats valid

/-- With accepted boundaries, every required source has its data whenever a run evaluates a boundary, so a
binding that reads data itself never misses. -/
theorem run_suppliesBoundaries (boundaries : validateBoundaries r.plan graph = .ok ())
    {envelope : AcceptedEnvelope} {place : Boundary} {records : Records}
    (reached : .boundary place records ∈ (run r envelope .workflow).2.log)
    (received : AcceptedEnvelope) :
    ∀ entry ∈ bindingsAt r.plan place, Supplied (workflowContext received records) entry.2 ∧
      (ReadsWhole entry.2 → resolveBinding (workflowContext received records) entry.2 ≠
        .error missingBindingError) := by
  have accepted := validateGraph_spec repeats valid
  have ready := boundary_ready accepted reached
  intro entry bound
  have supplied := accepted.supplied boundaries ready.available received entry bound
  exact ⟨supplied, fun whole failed => resolveBinding_found entry.2 supplied whole failed rfl⟩

omit repeats valid in
/-- The second attempt gets what the adjustment found. -/
theorem bound_suppliesBoundaries :
    ∃ records, .boundary (.nextInput "intake") records ∈
    (run boundRunner exampleEnvelope .workflow).2.log ∧
      resolveBinding (workflowContext exampleEnvelope records)
      (.pointer "/flows/adjust/result" none) ≠
        .error missingBindingError := by
  obtain ⟨records, reached⟩ := @bound_reached (.nextInput "intake") (by decide +kernel)
  have bound : ("document", .pointer "/flows/adjust/result" none) ∈
      bindingsAt boundRunner.plan (.nextInput "intake") := List.mem_singleton_self _
  refine ⟨records, reached, ?_⟩
  exact (run_suppliesBoundaries bound_repeats bound_graph bound_boundaries reached exampleEnvelope _ bound).2
    (.inr (by decide +kernel))

variable {flow : FlowPlan} (mem : flow ∈ r.plan.flows) (single : flow.callable = false)
include mem single

/-- The flows that the compiler takes to have completed before a routed flow are exactly the other flows
on some route path to it without a review route that leads there, and in every run, at every boundary,
each of the flows that should have completed there did, unless it was skipped. -/
theorem completedBefore_exact :
    (∀ f, f ∈ completedBefore r.plan graph flow.name ↔
      f ≠ flow.name ∧ (∃ path, RoutePath r.plan path flow.name ∧ f ∈ path) ∧
      ¬ ReviewLeads r.plan f flow.name) ∧
    ∀ envelope place records, .boundary place records ∈ (run r envelope .workflow).2.log →
      ∀ f ∈ completedAt r.plan graph place, ∀ record, records.lookup f = some record →
        record.status = .completed ∨ record.status = .skipped := by
  have accepted := validateGraph_spec repeats valid
  have routed_ := mem_routedNames.mp (List.mem_map_of_mem (mem_routedFlows.mpr ⟨mem, single⟩))
  exact ⟨fun f => accepted.mem_completedBefore routed_,
    fun _ _ _ reached => (boundary_ready accepted reached).completed⟩

omit repeats valid mem single in
/-- Before the last flow the intake has completed; the check may have stopped for review. -/
theorem bound_completedBefore :
    "intake" ∈ completedBefore boundPlan boundGraph "close" ∧ ReviewLeads boundPlan "check" "close" ∧
      ∃ records, .boundary (.input "close") records ∈
      (run boundRunner exampleEnvelope .workflow).2.log ∧
        ∀ record, records.lookup "intake" = some record →
          record.status = .completed ∨ record.status = .skipped := by
  have completed : "intake" ∈ completedBefore boundPlan boundGraph "close" := by decide +kernel
  have mem : boundClosing ∈ boundRunner.plan.flows :=
    List.mem_cons_of_mem _ (List.mem_cons_of_mem _ List.mem_cons_self)
  obtain ⟨records, reached⟩ := @bound_reached (.input "close") (by decide +kernel)
  refine ⟨completed, ⟨reviewedCheck, List.mem_cons_of_mem _ List.mem_cons_self, rfl, "close",
    List.mem_singleton_self _, .refl⟩, records, reached, ?_⟩
  exact (completedBefore_exact bound_repeats bound_graph mem rfl).2 exampleEnvelope
      (.input "close") records
    reached "intake" completed

end Promises

end Foliqant.Compiler

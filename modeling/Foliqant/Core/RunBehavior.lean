import Foliqant.Core.EngineErrors
import Foliqant.Core.RepeatBehavior

/-!
# What a run can do

Inversion of the runner for the selection of a boundary, the attempts of a routed flow, the routing
over the flows of a workflow, and a whole run.
-/

namespace Foliqant.Core

open Exec JsonText

variable (r : WorkflowRunner) (envelope : AcceptedEnvelope)

/-- Working on the records of a run keeps its other locals. -/
theorem onRecords_ok {α : Type} {x : Exec Records α} {s : RunLocals × World} {a : α}
    {records : Records} {w : World} (h : x (s.1.records, s.2) = .ok a (records, w)) :
    onRecords x s = .ok a ({ s.1 with records := records }, w) := by
  rw [onRecords, h]

/-- A failure while working on the records keeps what was recorded before it. -/
theorem onRecords_error {α : Type} {x : Exec Records α} {s : RunLocals × World} {e : Exn}
    {records : Records} {w : World} (h : x (s.1.records, s.2) = .error e (records, w)) :
    onRecords x s = .error e ({ s.1 with records := records }, w) := by
  rw [onRecords, h]

/-! ## Boundaries -/

/-- Only conditions were evaluated. -/
def Conditions (events : List Event) : Prop :=
  ∀ event ∈ events, ∃ location result, event = .conditionEvaluated location result

/-- No events are conditions. -/
theorem Conditions.nil : Conditions [] := fun _ h => absurd h List.not_mem_nil

/-- A condition that was decided comes before other decided conditions. -/
theorem Conditions.cons {location : String} {result : Bool} {events : List Event}
    (h : Conditions events) : Conditions (.conditionEvaluated location result :: events) := by
  intro event mem
  rcases List.mem_cons.mp mem with rfl | mem
  · exact ⟨_, _, rfl⟩
  · exact h event mem

/-- What a defensive check of the graph fails with. -/
abbrev misroutedError : Exn := .service ErrorCode.invalidConfiguration.error

/-- How a conditional route ends. -/
inductive SelectRan (index : ℕ) (entries : List RouteEntryPlan) (l : RunLocals) (w : World) :
    EStateM.Result Exn (RunLocals × World) (TransitionTargetPlan × ℕ) → Prop
  | selected {i : ℕ} {entry : RouteEntryPlan} {events : List Event} (at_ : entries[i]? = some entry)
      (conditions : Conditions events) :
      SelectRan index entries l w (.ok (entry.target, index + i) (l, w.append events))
  | failed {error : Exn} {events : List Event}
      (cause : EngineError error) (conditions : Conditions events) :
      SelectRan index entries l w (.error error (l, w.append events))
  | unmatched {events : List Event} (guarded : ∀ entry ∈ entries, entry.condition ≠ none)
      (conditions : Conditions events) :
      SelectRan index entries l w
        (.error misroutedError (l, w.append (events ++ [.misrouted .missingTarget])))

/-- A guarded entry that is not met leaves the choice to the entries after it. -/
theorem SelectRan.cons {index : ℕ} {entry : RouteEntryPlan} {entries : List RouteEntryPlan}
    {l : RunLocals} {w : World} {location : String} {met : Bool}
    {result : EStateM.Result Exn (RunLocals × World) (TransitionTargetPlan × ℕ)}
    (guarded : entry.condition ≠ none)
    (h : SelectRan (index + 1) entries l
      (w.append [.conditionEvaluated location met]) result) :
    SelectRan index (entry :: entries) l w result := by
  cases h with
  | unmatched others conditions =>
    rw [World.append_append]
    exact .unmatched (List.forall_mem_cons.mpr ⟨guarded, others⟩) conditions.cons
  | @selected i found events at_ conditions =>
    rw [World.append_append, Nat.add_assoc, Nat.add_comm 1 i]
    exact .selected (by simpa using at_) conditions.cons
  | failed cause conditions =>
    rw [World.append_append]
    exact .failed cause conditions.cons

/-- A condition that raises ends the choice before anything is decided. -/
theorem SelectRan.failed_now {index : ℕ} {entries : List RouteEntryPlan} {l : RunLocals} {w : World}
    {error : Exn} (cause : EngineError error) :
    SelectRan index entries l w (.error error (l, w)) := by
  have failed : SelectRan index entries l w (.error error (l, w.append [])) :=
    .failed cause .nil
  rwa [World.append_nil] at failed

/-- An unguarded entry is chosen where the choice gets to it. -/
theorem SelectRan.selected_now {index : ℕ} {entry : RouteEntryPlan} {entries : List RouteEntryPlan}
    {l : RunLocals} {w : World} :
    SelectRan index (entry :: entries) l w (.ok (entry.target, index) (l, w)) := by
  have selected : SelectRan index (entry :: entries) l w
      (.ok (entry.target, index + 0) (l, w.append [])) := .selected rfl .nil
  rwa [World.append_nil] at selected

/-- The choice among route entries, from some entry on. -/
theorem selectFrom_ran (location : String) (context : Json) (index : ℕ)
    (entries : List RouteEntryPlan) (l : RunLocals) (w : World) :
    SelectRan index entries l w (selectFrom r location context index entries (l, w)) := by
  induction entries generalizing index w with
  | nil => exact .unmatched (fun _ h => absurd h List.not_mem_nil) .nil
  | cons entry entries ih =>
    unfold selectFrom
    cases guarded : entry.condition with
    | none => exact .selected_now
    | some condition =>
      simp only
      cases value : evaluateCondition r.services.tables context condition with
      | error error =>
        rw [bind_error (onRecords_error (holds_error r _ value))]
        exact .failed_now (evaluateCondition_error value)
      | ok met =>
        rw [bind_ok (onRecords_ok (holds_ok r _ value))]
        cases met with
        | true => exact .selected (i := 0) rfl Conditions.nil.cons
        | false => exact .cons (by rw [guarded]; exact Option.some_ne_none _) (ih (index + 1) _)

/-- The target of a review route with what selected it. -/
inductive ReviewChosen (issues : List DecisionIssue) : Option ReviewRoutePlan → Selected → Prop
  | absent : ReviewChosen issues none ⟨{ outcome := some .needsReview }, .review, none, none⟩
  | direct {target : TransitionTargetPlan} :
      ReviewChosen issues (some (.direct target)) ⟨target, .review, none, none⟩
  | issues {route : UnresolvedRoutingPlan} :
      ReviewChosen issues (some (.issues route))
        ⟨(route.select issues).1, .review, none, (route.select issues).2.map DecisionIssue.value⟩
  | route {route : ConditionalRoutingPlan} {i : ℕ} {entry : RouteEntryPlan}
      (at_ : route.entries[i]? = some entry) :
      ReviewChosen issues (some (.route route)) ⟨entry.target, .review, some i, none⟩

/-- The target of a completed flow with what selected it. -/
inductive TransitionChosen (context : Json) : Option TransitionPlan → Selected → Prop
  | direct {target : TransitionTargetPlan} :
      TransitionChosen context (some (.direct target)) ⟨target, .direct, none, none⟩
  | cases {route : MatchRoutingPlan} {value : Json} {selected : Selected}
      (bound : resolveBinding context route.binding = .ok value)
      (chosen : route.selectCase value = .ok selected) :
      TransitionChosen context (some (.cases route)) selected
  | route {route : ConditionalRoutingPlan} {i : ℕ} {entry : RouteEntryPlan}
      (at_ : route.entries[i]? = some entry) :
      TransitionChosen context (some (.route route)) ⟨entry.target, .route, some i, none⟩

/-- A conditional route that may select nothing. -/
def ConditionalRoutingPlan.Open (route : ConditionalRoutingPlan) : Prop :=
  ∀ entry ∈ route.entries, entry.condition ≠ none

/-- A review route that may find no entry. -/
def ReviewMissing : Option ReviewRoutePlan → Prop
  | some (.route route) => route.Open
  | _ => False

/-- A transition that may find no entry, or is not configured. -/
def TransitionMissing : Option TransitionPlan → Prop
  | none => True
  | some (.route route) => route.Open
  | _ => False

/-- How the choice of a target ends. -/
inductive ChoiceRan (chosen : Selected → Prop) (missing : Prop) (l : RunLocals) (w : World) :
    EStateM.Result Exn (RunLocals × World) Selected → Prop
  | selected {selected : Selected} {events : List Event} (choice : chosen selected)
      (conditions : Conditions events) :
      ChoiceRan chosen missing l w (.ok selected (l, w.append events))
  | failed {error : Exn} {events : List Event} (cause : EngineError error)
      (conditions : Conditions events) :
      ChoiceRan chosen missing l w (.error error (l, w.append events))
  | misrouted {events : List Event} (cause : missing) (conditions : Conditions events) :
      ChoiceRan chosen missing l w
        (.error misroutedError (l, w.append (events ++ [.misrouted .missingTarget])))

/-- A choice that decides no condition. -/
theorem ChoiceRan.selected_now {chosen : Selected → Prop} {missing : Prop} {l : RunLocals} {w : World}
    {selected : Selected} (choice : chosen selected) :
    ChoiceRan chosen missing l w (.ok selected (l, w)) := by
  have selected : ChoiceRan chosen missing l w (.ok selected (l, w.append [])) :=
    .selected choice .nil
  rwa [World.append_nil] at selected

/-- A choice that fails before it decides a condition. -/
theorem ChoiceRan.failed_now {chosen : Selected → Prop} {missing : Prop} {l : RunLocals} {w : World}
    {error : Exn}
    (cause : EngineError error) :
    ChoiceRan chosen missing l w (.error error (l, w)) := by
  have failed : ChoiceRan chosen missing l w (.error error (l, w.append [])) := .failed cause .nil
  rwa [World.append_nil] at failed

/-- What is chosen and what is missing may be said more weakly. -/
theorem ChoiceRan.mono {chosen chosen' : Selected → Prop} {missing missing' : Prop} {l : RunLocals}
    {w : World} {result : EStateM.Result Exn (RunLocals × World) Selected}
    (h : ChoiceRan chosen missing l w result) (imp : ∀ selected, chosen selected → chosen' selected)
    (imp' : missing → missing') : ChoiceRan chosen' missing' l w result := by
  cases h with
  | selected choice conditions => exact .selected (imp _ choice) conditions
  | failed cause conditions => exact .failed cause conditions
  | misrouted cause conditions => exact .misrouted (imp' cause) conditions

/-- A conditional route chooses the target of an entry. -/
theorem select_choice {chosen : Selected → Prop} {missing : Prop} (route : ConditionalRoutingPlan)
    (location : String)
    (context : Json) (form : TransitionTargetPlan → ℕ → Selected)
    (choice : ∀ i entry, route.entries[i]? = some entry → chosen (form entry.target i))
    (open_ : route.Open → missing) (l : RunLocals) (w : World) :
    ChoiceRan chosen missing l w ((do
      let (target, index) ← select r route location context
      return form target index : Exec RunLocals Selected) (l, w)) := by
  have ran := selectFrom_ran r location context 0 route.entries l w
  unfold select
  cases ended : selectFrom r location context 0 route.entries (l, w) with
  | error error s =>
    rw [ended] at ran
    rw [bind_error ended]
    cases ran with
    | failed cause conditions => exact .failed cause conditions
    | unmatched guarded conditions => exact .misrouted (open_ guarded) conditions
  | ok pair s =>
    rw [ended] at ran
    rw [bind_ok ended]
    cases ran with
    | @selected i entry events at_ conditions =>
      rw [Nat.zero_add]
      exact .selected (choice i entry at_) conditions

/-- Where a flow that needs review goes. -/
theorem selectReview_ran (route : Option ReviewRoutePlan) (issues : List DecisionIssue)
    (context : Json) (l : RunLocals) (w : World) :
    ChoiceRan (ReviewChosen issues route) (ReviewMissing route) l w
    (selectReview r route issues context (l, w)) := by
  unfold selectReview
  cases route with
  | none => exact .selected_now .absent
  | some route =>
    cases route with
    | direct target => exact .selected_now .direct
    | issues route => exact .selected_now .issues
    | route route =>
      exact select_choice r route "on_unresolved.route" context
        (fun target index => ⟨target, .review, some index, none⟩) (fun i entry at_ => .route at_)
        (fun open_ => open_) l w

/-- A case value that cannot be compared is an error of the engine. -/
theorem selectCase_error {route : MatchRoutingPlan} {value : Json} {error : Exn}
    (h : route.selectCase value = .error error) : EngineError error := by
  unfold MatchRoutingPlan.selectCase at h
  split at h
  · cases h
  · split at h <;> cases h
  · exact .of_input h

/-- Where a completed flow goes. -/
theorem selectTransition_ran (transition : Option TransitionPlan) (context : Json) (l : RunLocals)
    (w : World) :
    ChoiceRan (TransitionChosen context transition) (TransitionMissing transition) l w
      (selectTransition r transition context (l, w)) := by
  unfold selectTransition
  cases transition with
  | none => exact .misrouted trivial .nil
  | some transition =>
    cases transition with
    | direct target => exact .selected_now .direct
    | route route =>
      exact select_choice r route "transition.route" context
        (fun target index => ⟨target, .route, some index, none⟩) (fun i entry at_ => .route at_)
        (fun open_ => open_) l w
    | cases route =>
      simp only
      cases bound : resolveBinding context route.binding with
      | error error =>
        exact .failed_now (resolveBinding_error bound)
      | ok value =>
        simp only [bind, Except.bind]
        cases chosen : route.selectCase value with
        | error error => exact .failed_now (selectCase_error chosen)
        | ok selected => exact .selected_now (.cases bound chosen)

/-- A target that a finished flow may take. -/
structure Chosen (flow : FlowPlan) (status : Status) (issues : List DecisionIssue) (context : Json)
    (selected : Selected) : Prop where
  review : status = .needsReview → ReviewChosen issues flow.onUnresolved selected
  transition : status ≠ .needsReview → TransitionChosen context flow.transition selected
  noCompletion : status = .needsReview → selected.target.outcome ≠ some .completed
  single : selected.target.flow.isNone ≠ selected.target.outcome.isNone

/-- The target of a flow that finished, before the checks on it. -/
def BoundaryChosen (flow : FlowPlan) (status : Status) (issues : List DecisionIssue) (context : Json)
    (selected : Selected) : Prop :=
  (status = .needsReview → ReviewChosen issues flow.onUnresolved selected) ∧
    (status ≠ .needsReview → TransitionChosen context flow.transition selected)

/-- Which check on the boundary of a flow fails. -/
inductive TargetFault (flow : FlowPlan) (status : Status) (issues : List DecisionIssue)
    (context : Json) : GraphFault → Prop
  | noReview (review : status = .needsReview) (missing : ReviewMissing flow.onUnresolved) :
      TargetFault flow status issues context .missingTarget
  | noTransition (review : status ≠ .needsReview) (missing : TransitionMissing flow.transition) :
      TargetFault flow status issues context .missingTarget
  | completes {selected : Selected} (review : status = .needsReview)
      (chosen : BoundaryChosen flow status issues context selected)
      (outcome : selected.target.outcome = some .completed) :
      TargetFault flow status issues context .reviewCompletes
  | ambiguous {selected : Selected} (chosen : BoundaryChosen flow status issues context selected)
      (ambiguous : selected.target.flow.isNone = selected.target.outcome.isNone) :
      TargetFault flow status issues context .missingTarget

/-- How the selection of a boundary ends. -/
inductive TargetRan (flow : FlowPlan) (record : FlowRecord) (issues : List DecisionIssue)
    (l : RunLocals) (w : World) : EStateM.Result Exn (RunLocals × World) Routed → Prop
  | boundary {selected : Selected} {events : List Event}
      (chosen : Chosen flow record.status issues (workflowContext envelope l.records) selected)
      (conditions : Conditions events) :
      TargetRan flow record issues l w
        (.ok (.boundary selected.target (selected.transition flow.name record.status))
          (l, w.append (.boundary (.routes flow.name) l.records :: events ++
            [.routeSelected selected.kind selected.target selected.index selected.case])))
  | failed {error : Exn} {events : List Event} (cause : EngineError error)
      (conditions : Conditions events) :
      TargetRan flow record issues l w (.error error
        (l, w.append (.boundary (.routes flow.name) l.records :: events)))
  | misrouted {fault : GraphFault} {events : List Event}
      (cause : TargetFault flow record.status issues (workflowContext envelope l.records) fault)
      (conditions : Conditions events) :
      TargetRan flow record issues l w (.error misroutedError
        (l, w.append (.boundary (.routes flow.name) l.records :: events ++ [.misrouted fault])))

/-- Where a flow goes: by its review route when it needs review, by its transition otherwise. -/
theorem selectBoundary_ran (flow : FlowPlan) (status : Status) (issues : List DecisionIssue)
    (context : Json) (l : RunLocals) (w : World) :
    ChoiceRan (BoundaryChosen flow status issues context)
      ((status = .needsReview ∧ ReviewMissing flow.onUnresolved) ∨
        (status ≠ .needsReview ∧ TransitionMissing flow.transition)) l w
      (selectBoundary r flow status issues context (l, w)) := by
  unfold selectBoundary
  by_cases review : status = .needsReview
  · rw [if_pos review]
    exact (selectReview_ran ..).mono (fun _ h => ⟨fun _ => h, fun other => absurd review other⟩)
      fun missing => .inl ⟨review, missing⟩
  · rw [if_neg review]
    exact (selectTransition_ran ..).mono (fun _ h => ⟨fun other => absurd other review, fun _ => h⟩)
      fun missing => .inr ⟨review, missing⟩

/-- The target of an ended flow, with the context it is chosen from. -/
theorem selectTarget_ran (flow : FlowPlan) (record : FlowRecord) (issues : List DecisionIssue)
    (l : RunLocals) (w : World) :
    TargetRan envelope flow record issues l w
      (selectTarget r envelope flow record issues (l, w)) := by
  unfold selectTarget
  rw [locals_bind, emit_bind]
  have ran := selectBoundary_ran r flow record.status issues (workflowContext envelope l.records) l
    (w.append [.boundary (.routes flow.name) l.records])
  cases ended : selectBoundary r flow record.status issues (workflowContext envelope l.records)
      (l, w.append [.boundary (.routes flow.name) l.records]) with
  | error error s =>
    rw [ended] at ran
    rw [bind_error ended]
    cases ran with
    | failed cause conditions =>
      rw [World.append_append]
      exact .failed cause conditions
    | misrouted cause conditions =>
      rw [World.append_append]
      rcases cause with ⟨review, missing⟩ | ⟨review, missing⟩
      · exact .misrouted (.noReview review missing) conditions
      · exact .misrouted (.noTransition review missing) conditions
  | ok selected s =>
    rw [ended] at ran
    rw [bind_ok ended]
    cases ran with
    | @selected _ events choice conditions =>
      rw [World.append_append]
      by_cases completion : record.status = .needsReview ∧ selected.target.outcome = some .completed
      · rw [if_pos completion, refuse_apply, World.append_append]
        exact .misrouted (.completes completion.1 choice completion.2) conditions
      rw [if_neg completion]
      by_cases single : selected.target.flow.isNone = selected.target.outcome.isNone
      · rw [if_pos single, refuse_apply, World.append_append]
        exact .misrouted (.ambiguous choice single) conditions
      rw [if_neg single, emit_bind, World.append_append]
      exact .boundary
        ⟨choice.1, choice.2, fun review outcome => completion ⟨review, outcome⟩, single⟩ conditions

/-! ## Routed flows -/

/-- The world when an attempt of a routed flow starts. -/
def World.startRouted (flow : FlowPlan) (w : World) : World :=
  w.append [.flowStarted flow.name .routed]

/-- A routed flow starts with its event. -/
theorem startRouted_bind {α : Type} (flow : FlowPlan) (f : Unit → Exec RunLocals α)
    (s : RunLocals × World) :
    (emit [.flowStarted flow.name .routed] >>= f) s = f () (s.1, s.2.startRouted flow) := rfl

/-- How the remaining attempts of a repeated routed flow end. -/
inductive RoutedAttemptsRan (flow : FlowPlan) (rep : RepeatPlan) :
    ℕ → List FlowRun → Object → RunLocals → World →
      EStateM.Result Exn (RunLocals × World) Routed → Prop
  | none {attempts : List FlowRun} {inputs : Object} {l : RunLocals} {w : World} :
      RoutedAttemptsRan flow rep 0 attempts inputs l w
        (.error misroutedError (l, w.append [.misrouted .attemptsExhausted]))
  | envelopeFailed {remaining : ℕ} {attempts : List FlowRun} {inputs : Object} {l : RunLocals}
      {w : World} {error : Exn} (received : envelope.withPayload (.obj inputs) = .error error) :
      RoutedAttemptsRan flow rep (remaining + 1) attempts inputs l w
        (.error error (l.activate flow.name, w))
  | decisionFailed {remaining : ℕ} {attempts : List FlowRun} {inputs : Object} {l : RunLocals}
      {received : AcceptedEnvelope} {record : FlowRun} {issues : List DecisionIssue}
      {records' : Records} {w w₁ w₂ : World} {error : Exn}
      (receives : envelope.withPayload (.obj inputs) = .ok received)
      (ran : executeFlow r (routedCall flow received (attempts.length + 1)) (w.startRouted flow) =
        ((record, issues), w₁))
      (decision : DecisionRan r (executeFlow r) flow rep { envelope := envelope } record
        (attempts.length + 1) issues (setAttempt flow.name record attempts l.records) w₁
        (.error error (records', w₂))) :
      RoutedAttemptsRan flow rep (remaining + 1) attempts inputs l w
        (.error error ({ l.activate flow.name with records := records' }, w₂))
  | again {remaining : ℕ} {attempts : List FlowRun} {inputs inputs' : Object} {l : RunLocals}
      {received : AcceptedEnvelope} {record : FlowRun} {issues issues' : List DecisionIssue}
      {records' : Records} {w w₁ w₂ : World}
      {result : EStateM.Result Exn (RunLocals × World) Routed}
      (receives : envelope.withPayload (.obj inputs) = .ok received)
      (ran : executeFlow r (routedCall flow received (attempts.length + 1)) (w.startRouted flow) =
        ((record, issues), w₁))
      (decision : DecisionRan r (executeFlow r) flow rep { envelope := envelope } record
        (attempts.length + 1) issues (setAttempt flow.name record attempts l.records) w₁
        (.ok (.again issues' inputs') (records', w₂)))
      (rest : RoutedAttemptsRan flow rep remaining (attempts ++ [record]) inputs'
        { l.activate flow.name with
          records := Dict.set flow.name { toFlowRun := record, attempts := attempts ++ [record] }
            records' } w₂ result) :
      RoutedAttemptsRan flow rep (remaining + 1) attempts inputs l w result
  | failed {remaining : ℕ} {attempts : List FlowRun} {inputs : Object} {l : RunLocals}
      {received : AcceptedEnvelope} {record : FlowRun} {issues issues' : List DecisionIssue}
      {records' : Records} {w w₁ w₂ : World} {stop : RepeatStop} {status : Option Status}
      {failure : Option Failure} {aggregated : FlowRecord}
      (receives : envelope.withPayload (.obj inputs) = .ok received)
      (ran : executeFlow r (routedCall flow received (attempts.length + 1)) (w.startRouted flow) =
        ((record, issues), w₁))
      (decision : DecisionRan r (executeFlow r) flow rep { envelope := envelope } record
        (attempts.length + 1) issues (setAttempt flow.name record attempts l.records) w₁
        (.ok (.stopped stop issues' status failure) (records', w₂)))
      (aggregates : aggregated =
        decided record (attempts ++ [record]) (.stopped stop issues' status failure))
      (fails : aggregated.status = .failed ∨ failure.isSome) :
      RoutedAttemptsRan flow rep (remaining + 1) attempts inputs l w
        (.ok (.failed (failure <|> aggregated.error))
          ({ l with records := records' }.finish flow.name aggregated,
            w₂.append [.repeatStopped stop]))
  | ended {remaining : ℕ} {attempts : List FlowRun} {inputs : Object} {l : RunLocals}
      {received : AcceptedEnvelope} {record : FlowRun} {issues issues' : List DecisionIssue}
      {records' : Records} {w w₁ w₂ : World} {stop : RepeatStop} {status : Option Status}
      {failure : Option Failure} {aggregated : FlowRecord}
      {result : EStateM.Result Exn (RunLocals × World) Routed}
      (receives : envelope.withPayload (.obj inputs) = .ok received)
      (ran : executeFlow r (routedCall flow received (attempts.length + 1)) (w.startRouted flow) =
        ((record, issues), w₁))
      (decision : DecisionRan r (executeFlow r) flow rep { envelope := envelope } record
        (attempts.length + 1) issues (setAttempt flow.name record attempts l.records) w₁
        (.ok (.stopped stop issues' status failure) (records', w₂)))
      (aggregates : aggregated =
        decided record (attempts ++ [record]) (.stopped stop issues' status failure))
      (fails : ¬ (aggregated.status = .failed ∨ failure.isSome))
      (target : TargetRan envelope flow aggregated issues'
        ({ l with records := records' }.finish flow.name aggregated)
        (w₂.append [.repeatStopped stop]) result) :
      RoutedAttemptsRan flow rep (remaining + 1) attempts inputs l w result

/-- The attempts of a repeated routed flow, from some attempt on. -/
theorem runRoutedAttempts_ran (flow : FlowPlan) (rep : RepeatPlan) (remaining : ℕ)
    (attempts : List FlowRun) (inputs : Object) (l : RunLocals) (w : World) :
    RoutedAttemptsRan r envelope flow rep remaining attempts inputs l w
      (runRoutedAttempts r envelope flow rep remaining attempts inputs (l, w)) := by
  induction remaining generalizing attempts inputs l w with
  | zero => exact .none
  | succ remaining ih =>
    unfold runRoutedAttempts
    rw [update_bind]
    cases receives : envelope.withPayload (.obj inputs) with
    | error error =>
      rw [bind_error (lift_error _ rfl)]
      exact .envelopeFailed receives
    | ok received =>
      rw [bind_ok (lift_ok _ rfl), startRouted_bind, total_bind]
      cases ran : executeFlow r (routedCall flow received (attempts.length + 1))
          (w.startRouted flow) with
      | mk result w₁ =>
        obtain ⟨record, issues⟩ := result
        dsimp only
        rw [update_bind]
        have decision := repeatDecision_ran r (executeFlow r) flow rep { envelope := envelope } record
          (attempts.length + 1) issues (setAttempt flow.name record attempts l.records) w₁
        cases ended : repeatDecision r (executeFlow r) flow rep { envelope := envelope } record
            (attempts.length + 1) issues
            (setAttempt flow.name record attempts l.records, w₁) with
        | error error s =>
          rw [ended] at decision
          rw [bind_error (onRecords_error ended)]
          exact .decisionFailed receives ran decision
        | ok choice s =>
          rw [ended] at decision
          rw [bind_ok (onRecords_ok ended)]
          cases choice with
          | again issues' inputs' => exact .again receives ran decision (ih ..)
          | stopped stop issues' status failure =>
            simp only
            rw [emit_bind, update_bind]
            by_cases fails : (decided record (attempts ++ [record])
                (.stopped stop issues' status failure)).status = .failed ∨ failure.isSome
            · rw [if_pos fails]
              exact .failed receives ran decision rfl fails
            · rw [if_neg fails]
              exact .ended receives ran decision rfl fails (selectTarget_ran ..)

/-- How a routed flow ends. -/
inductive RoutedRan (flow : FlowPlan) (l : RunLocals) (w : World) :
    EStateM.Result Exn (RunLocals × World) Routed → Prop
  | late (late : r.deadline ≤ r.services.clock w.reads) :
      RoutedRan flow l w (.error (.service ErrorCode.runTimeout.error) (l, w.tick))
  | inputFailed {error : Exn}
      (input : inputValue r flow.name flow.input envelope l.records = .error error) :
      RoutedRan flow l w (.error error
        (l.activate flow.name, w.tick.append [.boundary (.input flow.name) l.records]))
  | repeated {inputs : Object} {rep : RepeatPlan}
      {result : EStateM.Result Exn (RunLocals × World) Routed}
      (input : inputValue r flow.name flow.input envelope l.records = .ok inputs)
      (repeats : flow.repeatPlan = some rep)
      (ran : RoutedAttemptsRan r envelope flow rep rep.maxAttempts [] inputs (l.activate flow.name)
        (w.tick.append [.boundary (.input flow.name) l.records]) result) :
      RoutedRan flow l w result
  | envelopeFailed {inputs : Object} {error : Exn}
      (input : inputValue r flow.name flow.input envelope l.records = .ok inputs)
      (single : flow.repeatPlan = none)
      (receives : envelope.withPayload (.obj inputs) = .error error) :
      RoutedRan flow l w (.error error
        (l.activate flow.name, w.tick.append [.boundary (.input flow.name) l.records]))
  | failed {inputs : Object} {received : AcceptedEnvelope} {record : FlowRun}
      {issues : List DecisionIssue} {w' : World}
      (input : inputValue r flow.name flow.input envelope l.records = .ok inputs)
      (single : flow.repeatPlan = none)
      (receives : envelope.withPayload (.obj inputs) = .ok received)
      (ran : executeFlow r (routedCall flow received 1)
        ((w.tick.append [.boundary (.input flow.name) l.records]).startRouted flow) =
          ((record, issues), w'))
      (fails : record.status = .failed) :
      RoutedRan flow l w (.ok (.failed record.error)
        (l.finish flow.name { toFlowRun := record }, w'))
  | ended {inputs : Object} {received : AcceptedEnvelope} {record : FlowRun}
      {issues : List DecisionIssue} {w' : World}
      {result : EStateM.Result Exn (RunLocals × World) Routed}
      (input : inputValue r flow.name flow.input envelope l.records = .ok inputs)
      (single : flow.repeatPlan = none)
      (receives : envelope.withPayload (.obj inputs) = .ok received)
      (ran : executeFlow r (routedCall flow received 1)
        ((w.tick.append [.boundary (.input flow.name) l.records]).startRouted flow) =
          ((record, issues), w'))
      (fails : record.status ≠ .failed)
      (target : TargetRan envelope flow { toFlowRun := record } issues
        (l.finish flow.name { toFlowRun := record }) w' result) :
      RoutedRan flow l w result

/-- One routed flow, repeated or not. -/
theorem runRouted_ran (flow : FlowPlan) (l : RunLocals) (w : World) :
    RoutedRan r envelope flow l w (runRouted r envelope flow (l, w)) := by
  unfold runRouted
  by_cases late : r.deadline ≤ r.services.clock w.reads
  · rw [checkDeadline_bind_late late]
    exact .late late
  rw [checkDeadline_bind late, update_bind]
  have applied := flowInput_apply r (.input flow.name) flow.name flow.input envelope l.records w.tick
  cases input : inputValue r flow.name flow.input envelope l.records with
  | error error =>
    rw [lift_error _ input] at applied
    rw [bind_error (onRecords_error applied)]
    exact .inputFailed input
  | ok inputs =>
    rw [lift_ok _ input] at applied
    rw [bind_ok (onRecords_ok applied)]
    cases repeats : flow.repeatPlan with
    | some rep => exact .repeated input repeats (runRoutedAttempts_ran ..)
    | none =>
      simp only
      cases receives : envelope.withPayload (.obj inputs) with
      | error error =>
        rw [bind_error (lift_error _ rfl)]
        exact .envelopeFailed input repeats receives
      | ok received =>
        rw [bind_ok (lift_ok _ rfl), startRouted_bind, total_bind, update_bind]
        cases ran : executeFlow r (routedCall flow received 1)
            ((w.tick.append [.boundary (.input flow.name) l.records]).startRouted flow) with
        | mk result w' =>
          obtain ⟨record, issues⟩ := result
          dsimp only
          by_cases fails : record.status = .failed
          · rw [if_pos fails]
            exact .failed input repeats receives ran fails
          · rw [if_neg fails]
            exact .ended input repeats receives ran fails (selectTarget_ran ..)

/-! ## The routing -/

/-- Which check refuses to enter a flow. -/
inductive EntryFault (remaining : ℕ) (visited : List String) (name : String) : GraphFault → Prop
  | exhausted (exhausted : remaining = 0) : EntryFault remaining visited name .revisited
  | revisited (seen : name ∈ visited) : EntryFault remaining visited name .revisited
  | unknown (unknown : r.plan.flow? name = none) : EntryFault remaining visited name .unknownFlow
  | callable {flow : FlowPlan} (known : r.plan.flow? name = some flow)
      (callable : flow.callable = true) : EntryFault remaining visited name .callableRouted

/-- The flow may be entered: it is known, routed and was not entered before. -/
structure Enters (visited : List String) (name : String) (flow : FlowPlan) : Prop where
  fresh : name ∉ visited
  known : r.plan.flow? name = some flow
  routed : flow.callable = false

/-- How the routing from a flow on ends. -/
inductive FlowsRan : ℕ → List String → String → RunLocals → World →
    EStateM.Result Exn (RunLocals × World) Ending → Prop
  | late {remaining : ℕ} {visited : List String} {name : String} {l : RunLocals} {w : World}
      (late : r.deadline ≤ r.services.clock w.reads) :
      FlowsRan remaining visited name l w (.error (.service ErrorCode.runTimeout.error) (l, w.tick))
  | misrouted {remaining : ℕ} {visited : List String} {name : String} {l : RunLocals} {w : World}
      {fault : GraphFault} (cause : EntryFault r remaining visited name fault) :
      FlowsRan remaining visited name l w
        (.error misroutedError (l, w.tick.append [.misrouted fault]))
  | raised {remaining : ℕ} {visited : List String} {name : String} {flow : FlowPlan}
      {l l' : RunLocals} {w w' : World} {error : Exn} (enters : Enters r visited name flow)
      (ran : RoutedRan r envelope flow l w.tick (.error error (l', w'))) :
      FlowsRan (remaining + 1) visited name l w (.error error (l', w'))
  | failed {remaining : ℕ} {visited : List String} {name : String} {flow : FlowPlan}
      {l l' : RunLocals} {w w' : World} {error : Option Failure} (enters : Enters r visited name flow)
      (ran : RoutedRan r envelope flow l w.tick (.ok (.failed error) (l', w'))) :
      FlowsRan (remaining + 1) visited name l w (.ok ⟨.failed, error, envelope.payload⟩ (l', w'))
  | ended {remaining : ℕ} {visited : List String} {name : String} {flow : FlowPlan}
      {l l' : RunLocals} {w w' : World} {target : TransitionTargetPlan}
      {transition : TransitionRecord} (enters : Enters r visited name flow)
      (ran : RoutedRan r envelope flow l w.tick (.ok (.boundary target transition) (l', w')))
      (terminal : target.flow = none) :
      FlowsRan (remaining + 1) visited name l w
        (.ok (target.ending envelope) (l'.take transition, w'))
  | next {remaining : ℕ} {visited : List String} {name next : String} {flow : FlowPlan}
      {l l' : RunLocals} {w w' : World} {target : TransitionTargetPlan}
      {transition : TransitionRecord} {result : EStateM.Result Exn (RunLocals × World) Ending}
      (enters : Enters r visited name flow)
      (ran : RoutedRan r envelope flow l w.tick (.ok (.boundary target transition) (l', w')))
      (flow : target.flow = some next)
      (rest : FlowsRan remaining (name :: visited) next (l'.take transition) w' result) :
      FlowsRan (remaining + 1) visited name l w result

/-- The routing from one flow on, with the flows that may still be visited. -/
theorem runFlows_ran (remaining : ℕ) (visited : List String) (name : String) (l : RunLocals)
    (w : World) :
    FlowsRan r envelope remaining visited name l w
      (runFlows r envelope remaining visited name (l, w)) := by
  induction remaining generalizing visited name l w with
  | zero =>
    unfold runFlows
    by_cases late : r.deadline ≤ r.services.clock w.reads
    · rw [checkDeadline_bind_late late]
      exact .late late
    · rw [checkDeadline_bind late]
      -- more flows than the plan has: the source's loop is bounded by their number
      exact .misrouted (.exhausted rfl)
  | succ remaining ih =>
    unfold runFlows
    by_cases late : r.deadline ≤ r.services.clock w.reads
    · rw [checkDeadline_bind_late late]
      exact .late late
    rw [checkDeadline_bind late]
    by_cases seen : name ∈ visited
    · rw [if_pos seen]
      exact .misrouted (.revisited seen)
    rw [if_neg seen]
    cases known : r.plan.flow? name with
    | none => exact .misrouted (.unknown known)
    | some flow =>
      simp only
      cases callable : flow.callable with
      | true =>
        rw [if_pos rfl]
        exact .misrouted (.callable known callable)
      | false =>
        rw [if_neg Bool.false_ne_true]
        have enters : Enters r visited name flow := ⟨seen, known, callable⟩
        have ran := runRouted_ran r envelope flow l w.tick
        cases ended : runRouted r envelope flow (l, w.tick) with
        | error error s =>
          rw [ended] at ran
          rw [bind_error ended]
          exact .raised enters ran
        | ok routed s =>
          rw [ended] at ran
          rw [bind_ok ended]
          cases routed with
          | failed error => exact .failed enters ran
          | boundary target transition =>
            simp only
            rw [update_bind]
            cases flow : target.flow with
            | none => exact .ended enters ran flow
            | some next => exact .next enters ran flow (ih ..)

/-! ## Runs -/

/-- How the selection of the first flow ends. -/
inductive StartRan (l : RunLocals) (w : World) :
    EStateM.Result Exn (RunLocals × World) StartRecord → Prop
  | direct {name : String} (start : r.plan.start = .flow name) :
      StartRan l w (.ok { flow := name }
        (l, w.append [.routeSelected .direct { flow := some name } none none]))
  | routed {route : ConditionalRoutingPlan} {i : ℕ} {entry : RouteEntryPlan} {name : String}
      {events : List Event} (start : r.plan.start = .route route)
      (at_ : route.entries[i]? = some entry) (flow : entry.target.flow = some name)
      (conditions : Conditions events) :
      StartRan l w (.ok { flow := name, routeIndex := some i }
        (l, w.append (events ++ [.routeSelected .route entry.target (some i) none])))
  | failed {error : Exn} {events : List Event}
      (cause : EngineError error) (conditions : Conditions events) :
      StartRan l w (.error error (l, w.append events))
  | misrouted {route : ConditionalRoutingPlan} {events : List Event}
      (start : r.plan.start = .route route)
      (cause : route.Open ∨ ∃ entry ∈ route.entries, entry.target.flow = none)
      (conditions : Conditions events) :
      StartRan l w (.error misroutedError (l, w.append (events ++ [.misrouted .missingTarget])))

/-- The flow that a run starts with. -/
theorem selectStart_ran (l : RunLocals) (w : World) :
    StartRan r l w (selectStart r envelope (l, w)) := by
  unfold selectStart
  cases start : r.plan.start with
  | flow name => exact .direct start
  | route route =>
    simp only
    unfold select
    have ran := selectFrom_ran r "start.route" (startContext envelope) 0 route.entries l w
    cases ended : selectFrom r "start.route" (startContext envelope) 0 route.entries (l, w) with
    | error error s =>
      rw [ended] at ran
      rw [bind_error ended]
      cases ran with
      | failed cause conditions => exact .failed cause conditions
      | unmatched guarded conditions => exact .misrouted start (.inl guarded) conditions
    | ok pair s =>
      rw [ended] at ran
      rw [bind_ok ended]
      cases ran with
      | @selected i entry events at_ conditions =>
        simp only
        cases flow : entry.target.flow with
        | none =>
          simp only
          rw [refuse_apply, World.append_append]
          exact .misrouted start (.inr ⟨entry, List.mem_of_getElem? at_, flow⟩) conditions
        | some name =>
          simp only [Nat.zero_add]
          rw [emit_bind, World.append_append]
          exact .routed start at_ flow conditions

/-- How a flow that runs alone ends. -/
inductive AloneRan (name : String) (stepId : Option String) (l : RunLocals) (w : World) :
    EStateM.Result Exn (RunLocals × World) Ending → Prop
  | late (late : r.deadline ≤ r.services.clock w.reads) :
      AloneRan name stepId l w (.error (.service ErrorCode.runTimeout.error) (l, w.tick))
  | unknown (unknown : r.plan.flow? name = none) :
      AloneRan name stepId l w
        (.error misroutedError (l, w.tick.append [.misrouted .unknownFlow]))
  | ran {flow : FlowPlan} {record : FlowRun} {issues : List DecisionIssue} {w' : World}
      (known : r.plan.flow? name = some flow)
      (ran : executeFlow r (aloneCall flow envelope stepId)
        (w.tick.append [.flowStarted name (aloneCall flow envelope stepId).role]) =
          ((record, issues), w')) :
      AloneRan name stepId l w (.ok (record.ending envelope)
        (l.finish name { toFlowRun := record }, w'))

/-- A run of one flow, or of one step of it. -/
theorem runAlone_ran (name : String) (stepId : Option String) (l : RunLocals) (w : World) :
    AloneRan r envelope name stepId l w (runAlone r envelope name stepId (l, w)) := by
  unfold runAlone
  by_cases late : r.deadline ≤ r.services.clock w.reads
  · rw [checkDeadline_bind_late late]
    exact .late late
  rw [checkDeadline_bind late]
  cases known : r.plan.flow? name with
  | none => exact .unknown known
  | some flow =>
    simp only
    rw [update_bind, emit_bind, total_bind]
    exact .ran known rfl

/-- How the output of a workflow ends. -/
inductive OutputRan (ending : Ending) (l : RunLocals) (w : World) :
    EStateM.Result Exn (RunLocals × World) Ending → Prop
  | unchanged (unchanged : ending.status = .failed ∨ r.plan.output = none) :
      OutputRan ending l w (.ok ending (l, w))
  | bound {output : BindingPlan} {payload : Json} (status : ending.status ≠ .failed)
      (declared : r.plan.output = some output)
      (value : resolveBinding (workflowContext envelope l.records) output = .ok payload) :
      OutputRan ending l w
        (.ok { ending with payload := payload } (l, w.append [.boundary .output l.records]))
  | failed {output : BindingPlan} {error : Exn} (status : ending.status ≠ .failed)
      (declared : r.plan.output = some output)
      (value : resolveBinding (workflowContext envelope l.records) output = .error error) :
      OutputRan ending l w (.error error (l, w.append [.boundary .output l.records]))

/-- The output of a workflow that has ended. -/
theorem projectWorkflow_ran (ending : Ending) (l : RunLocals) (w : World) :
    OutputRan r envelope ending l w (projectWorkflow r envelope ending (l, w)) := by
  unfold projectWorkflow
  by_cases status : ending.status = .failed
  · rw [if_pos status]
    exact .unchanged (.inl status)
  rw [if_neg status]
  cases output : r.plan.output with
  | none => exact .unchanged (.inr output)
  | some output' =>
    simp only
    rw [locals_bind, emit_bind]
    cases value : resolveBinding (workflowContext envelope l.records) output' with
    | error error =>
      rw [bind_error (lift_error _ rfl)]
      exact .failed status output value
    | ok payload =>
      rw [bind_ok (lift_ok _ rfl)]
      exact .bound status output value

/-- How the part of a run before the final deadline check ends. -/
inductive TargetBody (l : RunLocals) (w : World) :
    RunTarget → EStateM.Result Exn (RunLocals × World) Ending → Prop
  | startFailed {error : Exn} {l₁ : RunLocals} {w₁ : World}
      (start : StartRan r l w (.error error (l₁, w₁))) :
      TargetBody l w .workflow (.error error (l₁, w₁))
  | routingFailed {first : StartRecord} {l₁ l₂ : RunLocals} {w₁ w₂ : World} {error : Exn}
      (start : StartRan r l w (.ok first (l₁, w₁)))
      (flows : FlowsRan r envelope r.plan.flows.length [] first.flow
        { l₁ with start := some first } w₁ (.error error (l₂, w₂))) :
      TargetBody l w .workflow (.error error (l₂, w₂))
  | routed {first : StartRecord} {l₁ l₂ : RunLocals} {w₁ w₂ : World} {ending : Ending}
      {result : EStateM.Result Exn (RunLocals × World) Ending}
      (start : StartRan r l w (.ok first (l₁, w₁)))
      (flows : FlowsRan r envelope r.plan.flows.length [] first.flow
        { l₁ with start := some first } w₁ (.ok ending (l₂, w₂)))
      (output : OutputRan r envelope ending l₂ w₂ result) :
      TargetBody l w .workflow result
  | flow {name : String} {result : EStateM.Result Exn (RunLocals × World) Ending}
      (ran : AloneRan r envelope name none l w result) : TargetBody l w (.flow name) result
  | step {flow step : String} {result : EStateM.Result Exn (RunLocals × World) Ending}
      (ran : AloneRan r envelope flow (some step) l w result) :
      TargetBody l w (.step flow step) result

/-- How a run ends before an exception becomes its failure. -/
inductive BodyRan (target : RunTarget) (l : RunLocals) (w : World) :
    EStateM.Result Exn (RunLocals × World) Ending → Prop
  | raised {error : Exn} {l' : RunLocals} {w' : World}
      (body : TargetBody r envelope l w target (.error error (l', w'))) :
      BodyRan target l w (.error error (l', w'))
  | late {ending : Ending} {l' : RunLocals} {w' : World}
      (body : TargetBody r envelope l w target (.ok ending (l', w')))
      (late : r.deadline ≤ r.services.clock w'.reads) :
      BodyRan target l w (.error (.service ErrorCode.runTimeout.error) (l', w'.tick))
  | ended {ending : Ending} {l' : RunLocals} {w' : World}
      (body : TargetBody r envelope l w target (.ok ending (l', w')))
      (late : ¬ r.deadline ≤ r.services.clock w'.reads) :
      BodyRan target l w (.ok ending (l', w'.tick))

/-- What a run does for its target before anything is caught. -/
theorem runBody_ran (target : RunTarget) (l : RunLocals) (w : World) :
    TargetBody r envelope l w target (runBody r envelope target (l, w)) := by
  cases target with
  | flow name => exact .flow (runAlone_ran ..)
  | step flow step => exact .step (runAlone_ran ..)
  | workflow =>
    show TargetBody r envelope l w .workflow (runWorkflow r envelope (l, w))
    unfold runWorkflow
    have started := selectStart_ran r envelope l w
    cases start : selectStart r envelope (l, w) with
    | error error s =>
      rw [start] at started
      rw [bind_error start]
      exact .startFailed started
    | ok first s =>
      rw [start] at started
      rw [bind_ok start, update_bind]
      have flows := runFlows_ran r envelope r.plan.flows.length [] first.flow
        { s.1 with start := some first } s.2
      cases ended : runFlows r envelope r.plan.flows.length [] first.flow
          ({ s.1 with start := some first }, s.2) with
      | error error s' =>
        rw [ended] at flows
        rw [bind_error ended]
        exact .routingFailed started flows
      | ok ending s' =>
        rw [ended] at flows
        rw [bind_ok ended]
        exact .routed started flows (projectWorkflow_ran ..)

/-- What a run does for its target, with its failures caught. -/
theorem runTarget_ran (target : RunTarget) (l : RunLocals) (w : World) :
    BodyRan r envelope target l w (runTarget r envelope target (l, w)) := by
  unfold runTarget
  have body := runBody_ran r envelope target l w
  cases ended : runBody r envelope target (l, w) with
  | error error s =>
    rw [ended] at body
    rw [bind_error ended]
    exact .raised body
  | ok ending s =>
    rw [ended] at body
    rw [bind_ok ended]
    by_cases late : r.deadline ≤ r.services.clock s.2.reads
    · rw [checkDeadline_bind_late late]
      exact .late body late
    · rw [checkDeadline_bind late]
      exact .ended body late

/-- The data a run starts with. -/
def startLocals (target : RunTarget) : RunLocals := { records := initialRecords r target }

/-- How a run ends. -/
inductive RunRan (target : RunTarget) : RunResult × World → Prop
  | ended {ending : Ending} {l : RunLocals} {w : World}
      (body : BodyRan r envelope target (startLocals r target) {} (.ok ending (l, w))) :
      RunRan target (runResult r envelope l ending, w)
  | raised {error : Exn} {failure : Failure} {l : RunLocals} {w w' : World}
      (body : BodyRan r envelope target (startLocals r target) {} (.error error (l, w)))
      (of : FailureOf error failure) (idle : w.Idle w') :
      RunRan target (runResult r envelope (interrupted r failure l)
        ⟨.failed, some failure, envelope.payload⟩, w'.append [.failed failure])

/-- A whole run, from its events to its result. -/
theorem run_ran (target : RunTarget) : RunRan r envelope target (run r envelope target) := by
  have body := runTarget_ran r envelope target (startLocals r target) {}
  have start : ({ records := initialRecords r target } : RunLocals) = startLocals r target := rfl
  unfold run
  rw [start]
  cases ended : runTarget r envelope target (startLocals r target, {}) with
  | ok ending s =>
    rw [ended] at body
    exact .ended body
  | error error s =>
    rw [ended] at body
    obtain ⟨failure, w₁, recorded, of, idle⟩ := recordFailure_spec r error s.2
    simp only [recorded]
    exact .raised body of idle

end Foliqant.Core

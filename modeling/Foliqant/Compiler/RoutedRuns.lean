import Foliqant.Compiler.GraphRuns

/-!
# The routing of an accepted workflow

A run of an accepted workflow follows authored targets from a start candidate on. It never enters a flow
twice, never fails a check of the graph, and takes no more steps than the most expensive path.
-/

namespace Foliqant.Compiler

open Foliqant.Core Exec Metering
open Emission (after)

/-! ## Boundaries -/

/-- What the runner relies on at the boundaries of the flows. -/
structure Routable (plan : WorkflowPlan) : Prop where
  start : ∀ route, plan.start = .route route →
    ¬ route.Open ∧ ∀ entry ∈ route.entries, entry.target.flow ≠ none
  transitions : ∀ flow ∈ plan.flows, flow.callable = false → ¬ TransitionMissing flow.transition
  reviews : ∀ flow ∈ plan.flows, ¬ ReviewMissing flow.onUnresolved
  single : ∀ flow ∈ plan.flows, flow.callable = false → ∀ target ∈ flowTargets flow,
    TransitionTargetPlan.Single target
  noCompletion : ∀ flow ∈ plan.flows, flow.callable = false → ∀ target ∈ flowReviews flow,
    target.outcome ≠ some .completed

section Boundaries

variable {plan : WorkflowPlan} {retryOf : List (String × String)} {graph : Graph}
  {parse : String → Option Pattern} {casefold : ℕ → List ℕ}

/-- A routed flow whose review ends the run routes its completion elsewhere. -/
theorem Accepts.noCompletion (h : Accepts plan retryOf graph) {flow : FlowPlan}
    (mem : flow ∈ plan.flows) (routed : flow.callable = false) :
    ∀ target ∈ flowReviews flow, target.outcome ≠ some .completed := by
  have checked := h.targets flow mem
  unfold checkTargets at checked
  obtain ⟨_, reviews, -⟩ := Except.bind_eq_ok.mp checked
  have none_ := require_eq_ok.mp reviews
  rw [routed, Bool.false_or, Bool.not_eq_true'] at none_
  intro target among completes
  have some_ := List.any_eq_false.mp none_ target among
  exact some_ (decide_eq_true completes)

/-- Compiled routes of an accepted graph always have a target. -/
theorem RoutesCompiled.routable (routes : RoutesCompiled parse casefold plan)
    (h : Accepts plan retryOf graph) : Routable plan where
  start route start := by
    obtain ⟨authored, compiled⟩ := routes.start
    rw [start] at compiled
    exact compileStart_spec compiled
  transitions flow mem routed := by
    obtain ⟨authored, transition, compiled, own⟩ := routes.transitions flow mem routed
    rw [own]
    exact (compileTransition_single compiled).1
  reviews flow mem := by
    cases review : flow.onUnresolved with
    | none => exact id
    | some review_ =>
      obtain ⟨authored, compiled⟩ := routes.reviews flow mem review_ review
      exact (compileReview_single compiled).1
  single flow mem routed target among := by
    rcases List.mem_append.mp among with among | among
    · obtain ⟨authored, transition, compiled, own⟩ := routes.transitions flow mem routed
      rw [flowTransitions, own] at among
      exact (compileTransition_single compiled).2 target among
    · unfold flowReviews at among
      cases review : flow.onUnresolved with
      | none =>
        rw [review] at among
        cases among
      | some review_ =>
        obtain ⟨authored, compiled⟩ := routes.reviews flow mem review_ review
        rw [review] at among
        exact (compileReview_single compiled).2 target among
  noCompletion flow mem routed := h.noCompletion mem routed

/-- A chosen target is authored, or the default of a flow without a review route. -/
theorem boundary_target {flow : FlowPlan} {status : Status} {issues : List DecisionIssue}
    {context : Json} {selected : Selected}
    (chosen : BoundaryChosen flow status issues context selected) :
    (status ≠ .needsReview ∧ selected.target ∈ flowTransitions flow) ∨
      (status = .needsReview ∧ selected.target ∈ flowReviews flow) ∨
      (status = .needsReview ∧ flow.onUnresolved = none ∧
        selected.target = { outcome := some .needsReview }) := by
  by_cases review : status = .needsReview
  · have picked := chosen.1 review
    unfold flowReviews
    cases route : flow.onUnresolved with
    | none =>
      rw [route] at picked
      cases picked
      exact .inr (.inr ⟨review, rfl, rfl⟩)
    | some route_ =>
      rw [route] at picked
      exact .inr (.inl ⟨review, ReviewChosen.mem picked⟩)
  · have picked := chosen.2 review
    unfold flowTransitions
    cases transition : flow.transition with
    | none =>
      rw [transition] at picked
      cases picked
    | some transition_ =>
      rw [transition] at picked
      exact .inl ⟨review, TransitionChosen.mem picked⟩

/-- A routed flow of an accepted workflow has a valid boundary. -/
theorem Routable.noFault (routable : Routable plan) {flow : FlowPlan} (mem : flow ∈ plan.flows)
    (routed : flow.callable = false) {status : Status} {issues : List DecisionIssue} {context : Json}
    {fault : GraphFault} : ¬ TargetFault flow status issues context fault := by
  intro cause
  cases cause with
  | noReview _ missing => exact routable.reviews flow mem missing
  | noTransition _ missing => exact routable.transitions flow mem routed missing
  | completes review chosen outcome =>
    rcases boundary_target chosen with ⟨other, -⟩ | ⟨-, among⟩ | ⟨-, -, default⟩
    · exact other review
    · exact routable.noCompletion flow mem routed _ among outcome
    · rw [default] at outcome
      cases outcome
  | ambiguous chosen both =>
    rcases boundary_target chosen with ⟨-, among⟩ | ⟨-, among⟩ | ⟨-, -, default⟩
    · exact routable.single flow mem routed _ (List.mem_append_left _ among) both
    · exact routable.single flow mem routed _ (List.mem_append_right _ among) both
    · rw [default] at both
      cases both

/-- The flow of a chosen target is one that the flow routes to. -/
theorem boundary_routed {flow : FlowPlan} {status : Status} {issues : List DecisionIssue}
    {context : Json} {selected : Selected}
    (chosen : BoundaryChosen flow status issues context selected)
    {name : String} (target : selected.target.flow = some name) : name ∈ routed flow := by
  rcases boundary_target chosen with ⟨-, among⟩ | ⟨-, among⟩ | ⟨-, -, default⟩
  · exact mem_routed.mpr ⟨_, List.mem_append_left _ among, target⟩
  · exact mem_routed.mpr ⟨_, List.mem_append_right _ among, target⟩
  · rw [default] at target
    cases target

end Boundaries

/-! ## Passages -/

/-- The routed flows that began or reached their routes, with the records there. -/
def visits (log : List Event) : List (Boundary × Records) :=
  log.filterMap fun event =>
    match event with
    | .boundary (.input name) records => some (.input name, records)
    | .boundary (.routes name) records => some (.routes name, records)
    | _ => none

/-- The visits of two parts of a log. -/
theorem visits_append (events more : List Event) :
    visits (events ++ more) = visits events ++ visits more :=
  List.filterMap_append

/-- Inside flows nothing is visited. -/
theorem visits_inside {events : List Event} (stays : ∀ event ∈ events, ¬ Strays event) :
    visits events = [] := by
  refine List.filterMap_eq_nil_iff.mpr fun event mem => ?_
  have own := stays event mem
  split
  · exact absurd (.inr ⟨_, _, ⟨_, .inl rfl⟩, rfl⟩) own
  · exact absurd (.inr ⟨_, _, ⟨_, .inr rfl⟩, rfl⟩) own
  · rfl

/-- What happens on a part of the route: the steps taken, what is visited, and no failed check. -/
structure Passage (r : WorkflowRunner) (n : ℕ) (seen : List (Boundary × Records)) (w w' : World)
    (events : List Event) : Prop where
  log : w'.log = w.log ++ events
  consumed : w'.consumed ≤ w.consumed + n
  checks : ∀ fault, .misrouted fault ∉ events
  limit : .limitReached ∈ events → r.limits.maxSteps < w.consumed + n
  seen : visits events = seen

/-- A part of the route. -/
def Travels (r : WorkflowRunner) (n : ℕ) (seen : List (Boundary × Records)) (w w' : World) : Prop :=
  ∃ events, Passage r n seen w w' events

section Travels

variable {r : WorkflowRunner} {n m : ℕ} {seen seen' : List (Boundary × Records)} {w w' w'' : World}

/-- A part that stays inside flows. -/
theorem travels_steps (h : Steps r n w w') : Travels r n [] w w' := by
  obtain ⟨events, grows, spent, each⟩ := h
  exact ⟨events, grows, spent, fun fault mem => (each _ mem).1 (.inl ⟨fault, rfl⟩),
    fun reached => (each _ reached).2 rfl, visits_inside fun event mem => (each event mem).1⟩

/-- The boundary of an input is a visit. -/
theorem travels_input (name : String) (records : Records) :
    Travels r 0 [(.input name, records)] w (w.append [.boundary (.input name) records]) := by
  refine ⟨[.boundary (.input name) records],
    rfl, Nat.le_refl _, fun fault mem => ?_, fun mem => ?_, rfl⟩
  all_goals cases List.mem_singleton.mp mem

/-- The boundary of a choice is a visit. -/
theorem travels_routes (name : String) (records : Records) :
    Travels r 0 [(.routes name, records)] w (w.append [.boundary (.routes name) records]) := by
  refine ⟨[.boundary (.routes name) records],
    rfl, Nat.le_refl _, fun fault mem => ?_, fun mem => ?_, rfl⟩
  all_goals cases List.mem_singleton.mp mem

/-- More steps may be allowed. -/
theorem Travels.le (h : Travels r n seen w w') (le : n ≤ m) : Travels r m seen w w' := by
  obtain ⟨events, h⟩ := h
  have spent := h.consumed
  refine ⟨events, h.log, by omega, h.checks, fun reached => ?_, h.seen⟩
  have := h.limit reached
  omega

/-- A way and what follows it. -/
theorem Travels.trans (first : Travels r n seen w w') (rest : Travels r m seen' w' w'') :
    Travels r (n + m) (seen ++ seen') w w'' := by
  obtain ⟨early, first⟩ := first
  obtain ⟨late, rest⟩ := rest
  have spent := first.consumed
  have spent' := rest.consumed
  refine ⟨early ++ late, by rw [rest.log, first.log,
      List.append_assoc], by omega, fun fault mem => ?_,
    fun reached => ?_, by rw [visits_append, first.seen, rest.seen]⟩
  · rcases List.mem_append.mp mem with mem | mem
    · exact first.checks fault mem
    · exact rest.checks fault mem
  · rcases List.mem_append.mp reached with reached | reached
    · have := first.limit reached
      omega
    · have := rest.limit reached
      omega

/-- A part inside flows before the rest of the route. -/
theorem Travels.after (rest : Travels r m seen w' w'') (first : Steps r n w w') :
    Travels r (n + m) seen w w'' := (travels_steps first).trans rest

/-- Steps after a way. -/
theorem Travels.before (first : Travels r n seen w w') (rest : Steps r m w' w'') :
    Travels r (n + m) seen w w'' := by
  have whole := first.trans (travels_steps rest)
  rwa [List.append_nil] at whole

end Travels

/-! ## Routed flows -/

section Routed

variable {r : WorkflowRunner} {envelope : AcceptedEnvelope} {flow : FlowPlan} {n m : ℕ}
  {level : String → ℕ} {worst : String → Option ℕ} {α : Type}

/-- The part of a routed flow up to its routes, which a flow without a boundary may not reach. -/
structure Crossed (flow : FlowPlan) (result : EStateM.Result Exn (RunLocals × World) Routed)
    (seen : List (Boundary × Records)) : Prop where
  routes : seen = [] ∨ seen = [(.routes flow.name, (after result).1.records)]
  boundary : ∀ target transition s, result = .ok (.boundary target transition) s →
    seen = [(.routes flow.name, s.1.records)] ∧
      ∀ name, target.flow = some name → name ∈ routed flow

/-- A computation of a routed flow takes at most some steps up to its routes. -/
def Crosses (r : WorkflowRunner) (n : ℕ) (flow : FlowPlan) (x : Exec RunLocals Routed) : Prop :=
  ∀ s, ∃ seen, Travels r n seen s.2 (after (x s)).2 ∧ Crossed flow (x s) seen

/-- More steps may be allowed. -/
theorem Crosses.le {x : Exec RunLocals Routed} (h : Crosses r n flow x) (le : n ≤ m) :
    Crosses r m flow x := by
  intro s
  obtain ⟨seen, travels, crossed⟩ := h s
  exact ⟨seen, travels.le le, crossed⟩

/-- A failed flow visits nothing more. -/
theorem crosses_failed (error : Option Failure) : Crosses r n flow (pure (.failed error)) := by
  intro s
  have idle : Steps r 0 s.2 s.2 := Spends.refl s.2
  refine ⟨[], (travels_steps idle).le (Nat.zero_le n), .inl rfl, fun target transition s' same => ?_⟩
  cases same

/-- Steps before a crossing. -/
theorem Crosses.bind {x : Exec RunLocals α} {f : α → Exec RunLocals Routed} {post : α → Prop}
    (first : Takes r n x post) (rest : ∀ a, post a → Crosses r m flow (f a)) :
    Crosses r (n + m) flow (x >>= f) := by
  intro s
  have start := first s
  have unfolded : (x >>= f) s = EStateM.bind x f s := rfl
  rw [unfolded]
  unfold EStateM.bind
  rcases ran : x s with ⟨a, s'⟩ | ⟨error, s'⟩
  all_goals rw [ran] at start
  · obtain ⟨seen, travels, crossed⟩ := rest a (start.2 a s' rfl) s'
    have steps : Steps r n s.2 s'.2 := start.1
    exact ⟨seen, travels.after steps, crossed⟩
  · have steps : Steps r n s.2 s'.2 := start.1
    refine ⟨[], (travels_steps steps).le (Nat.le_add_right n m),
      .inl rfl, fun target transition s'' same => ?_⟩
    cases same

/-- What takes no step before a crossing. -/
theorem Crosses.free_bind {x : Exec RunLocals α} {f : α → Exec RunLocals Routed} {post : α → Prop}
    (first : Takes r 0 x post) (rest : ∀ a, post a → Crosses r n flow (f a)) :
    Crosses r n flow (x >>= f) :=
  (Crosses.bind first rest).le (Nat.zero_add n).le

/-- Both branches of a test. -/
theorem Crosses.ite {c : Prop} [Decidable c] {x y : Exec RunLocals Routed}
    (yes : c → Crosses r n flow x) (no : ¬ c → Crosses r n flow y) :
    Crosses r n flow (if c then x else y) := by
  by_cases h : c
  · rw [if_pos h]
    exact yes h
  · rw [if_neg h]
    exact no h

/-- The choice of a target visits the flow's routes. -/
theorem crosses_selectTarget (routable : Routable r.plan) (mem : flow ∈ r.plan.flows)
    (single : flow.callable = false) (record : FlowRecord) (issues : List DecisionIssue) :
    Crosses r 0 flow (selectTarget r envelope flow record issues) := by
  intro s
  have ran := selectTarget_ran r envelope flow record issues s.1 s.2
  have same : selectTarget r envelope flow record issues s =
      selectTarget r envelope flow record issues (s.1, s.2) := rfl
  rw [same]
  have travels (events : List Event) (calm : Calm events) :
      Travels r 0 [(.routes flow.name, s.1.records)] s.2
      (s.2.append (.boundary (.routes flow.name) s.1.records :: events)) := by
    have whole := (@travels_routes r s.2 flow.name s.1.records).before (steps_append calm _)
    rwa [World.append_append] at whole
  rcases ended : selectTarget r envelope flow record issues (s.1, s.2) with ⟨_, s'⟩ | ⟨error, s'⟩
  all_goals rw [ended] at ran
  · cases ran with
    | @boundary selected events chosen conditions =>
      have selection : Calm [.routeSelected selected.kind selected.target
          selected.index selected.case] :=
        calm_single (fun _ => Event.noConfusion) (fun _ _ => Event.noConfusion) Event.noConfusion
      refine ⟨_, travels _ (calm_append (calm_conditions conditions) selection), .inr rfl,
        fun target transition s'' same => ?_⟩
      obtain ⟨own, rfl⟩ := EStateM.Result.ok.inj same
      obtain ⟨rfl, -⟩ := Routed.boundary.inj own
      exact ⟨rfl, fun name goes => boundary_routed ⟨chosen.review, chosen.transition⟩ goes⟩
  · cases ran with
    | failed cause conditions =>
      refine ⟨_, travels _ (calm_conditions conditions),
        .inr rfl, fun target transition s'' same => ?_⟩
      cases same
    | misrouted cause conditions => exact absurd cause (routable.noFault mem single)

/-- A routed flow fits the workflow level. -/
theorem Measured.fits (measured : Measured r.plan level worst) (mem : flow ∈ r.plan.flows) :
    Fits r level MAX_COLLECTION_DEPTH 0 flow :=
  ⟨mem, measured.level_le flow mem, (Nat.zero_add _).le.trans (measured.level_le flow mem)⟩

/-- Every run of a flow takes at most its worst case. -/
theorem Measured.runsTake (measured : Measured r.plan level worst) :
    RunsTake r level worst MAX_COLLECTION_DEPTH (executeFlow r) :=
  fun _ _ fits steps w => steps_executeFlow measured fits steps w

/-- An execution of a flow at the workflow level. -/
theorem Measured.executes (measured : Measured r.plan level worst)
    (mem : flow ∈ r.plan.flows) {own : ℕ}
    (steps : stepsCost worst flow.steps = some own) {call : FlowCall} (called : call.flow = flow)
    (outside : call.collectionDepth = 0) (w : World) : Steps r own w (executeFlow r call w).2 := by
  subst called
  refine steps_executeFlow measured ?_ steps w
  rw [outside]
  exact measured.fits mem

variable (measured : Measured r.plan level worst) (routable : Routable r.plan)
  (mem : flow ∈ r.plan.flows) (single : flow.callable = false)
include measured routable mem single

/-- The attempts of a routed flow. -/
theorem crosses_runRoutedAttempts {rep : RepeatPlan} {own retry : ℕ}
    (repeats : flow.repeatPlan = some rep) (steps : stepsCost worst flow.steps = some own)
    (cost : retryCost worst flow = some retry) (remaining : ℕ) (attempts : List FlowRun)
    (inputs : Object) (count : attempts.length + remaining = rep.maxAttempts)
    (open_ : attempts.length < rep.maxAttempts) :
    Crosses r (remainingCost own retry remaining) flow
      (runRoutedAttempts r envelope flow rep remaining attempts inputs) := by
  induction remaining generalizing attempts inputs with
  | zero => omega
  | succ remaining ih =>
    rw [← remainingCost_succ]
    refine .free_bind (takes_update _) fun _ _ => .free_bind (takes_lift _) fun received _ =>
      .free_bind (takes_emit (calm_started _ _)) fun _ _ =>
        .bind (takes_total fun w => ?_) fun ran _ => ?_
    · exact measured.executes mem steps rfl rfl w
    have fits : Fits r level MAX_COLLECTION_DEPTH
        ({ envelope := envelope } : RepeatScope).collectionDepth flow := measured.fits mem
    have decides := takes_onRecords (takes_repeatDecision measured measured.runsTake fits repeats cost
      ran.1 (attempts.length + 1) ran.2)
    have more : (if attempts.length + 1 < rep.maxAttempts then retry else 0) ≤
        if 0 < remaining then retry else 0 := by
      split_ifs <;> omega
    refine .free_bind (takes_update _) fun _ _ => .bind (decides.le more) fun decision post => ?_
    rcases decision with stop | _
    · have stopped : Calm [.repeatStopped stop] :=
        calm_single (fun _ => Event.noConfusion) (fun _ _ => Event.noConfusion) Event.noConfusion
      refine Crosses.le ?_ (Nat.zero_le _)
      refine .free_bind (takes_emit stopped) fun _ _ => .free_bind (takes_update _) fun _ _ => ?_
      exact .ite (fun _ => crosses_failed _) fun _ => crosses_selectTarget routable mem single _ _
    · have again := post _ _ rfl
      refine .free_bind (takes_update _) fun _ _ => ih _ _ ?_ ?_
      all_goals
        rw [List.length_append, List.length_singleton]
        omega

/-- What follows the input of a routed flow. -/
theorem crosses_attempts (cost : worst flow.name = some n) (inputs : Object) :
    Crosses r n flow (match flow.repeatPlan with
      | some rep => runRoutedAttempts r envelope flow rep rep.maxAttempts [] inputs
      | none => do
          let received ← lift (envelope.withPayload (.obj inputs))
          emit [.flowStarted flow.name .routed]
          let (record, issues) ← total (executeFlow r (routedCall flow received 1))
          update (RunLocals.finish flow.name { toFlowRun := record })
          if record.status = .failed then return .failed record.error
          else selectTarget r envelope flow { toFlowRun := record } issues) := by
  obtain ⟨own, retry, steps, retries, total⟩ := measured.bounds flow mem
  obtain rfl := Option.some.inj (cost.symm.trans total)
  split
  case h_1 rep repeats =>
    rw [repeats]
    exact crosses_runRoutedAttempts measured routable mem single repeats steps retries
        rep.maxAttempts []
      _ (Nat.zero_add _) (repeat_room rep)
  case h_2 once =>
    rw [once]
    refine .free_bind (takes_lift _) fun received _ => .free_bind (takes_emit (calm_started _ _))
      fun _ _ => (Crosses.bind (takes_total fun w => ?_) fun ran _ => ?_).le (Nat.add_zero own).le
    · exact measured.executes mem steps rfl rfl w
    · exact .free_bind (takes_update _) fun _ _ => .ite (fun _ => crosses_failed _)
        fun _ => crosses_selectTarget routable mem single _ _

end Routed

/-! ## The route -/

/-- What a run visits from a flow on, with the records there. -/
inductive Route (plan : WorkflowPlan) : String → Records → List (Boundary × Records) → Prop
  | idle {name : String} {records : Records} : Route plan name records []
  | entered {flow : FlowPlan} {records : Records} (mem : flow ∈ plan.flows)
      (single : flow.callable = false) : Route plan flow.name records [(.input flow.name, records)]
  | left {flow : FlowPlan} {records records' : Records} (mem : flow ∈ plan.flows)
      (single : flow.callable = false) (kept : OthersKept flow records records') :
      Route plan flow.name records [(.input flow.name, records), (.routes flow.name, records')]
  | next {flow : FlowPlan} {records records' : Records} {name : String}
      {seen : List (Boundary × Records)} (mem : flow ∈ plan.flows) (single : flow.callable = false)
      (kept : OthersKept flow records records')
      (finished : ∃ record, records'.lookup flow.name = some record ∧ Finished record)
      (leads : name ∈ routed flow) (rest : Route plan name records' seen) :
      Route plan flow.name records
        ((.input flow.name, records) :: (.routes flow.name, records') :: seen)

section Route

variable {r : WorkflowRunner} {envelope : AcceptedEnvelope} {n : ℕ} {level : String → ℕ}
  {worst : String → Option ℕ}

/-- What one routed flow visits. -/
structure Stage (flow : FlowPlan) (records : Records)
    (result : EStateM.Result Exn (RunLocals × World) Routed) (seen : List (Boundary × Records)) :
    Prop where
  visited : seen = [] ∨ seen = [(.input flow.name, records)] ∨
    seen = [(.input flow.name, records), (.routes flow.name, (after result).1.records)]
  boundary : ∀ target transition s, result = .ok (.boundary target transition) s →
    seen = [(.input flow.name, records), (.routes flow.name, s.1.records)] ∧
      ∀ name, target.flow = some name → name ∈ routed flow

/-- A reading of the clock takes no step. -/
theorem steps_tick (w : World) : Steps r 0 w w.tick := steps_idle (.tick w)

/-- A routed flow. -/
theorem travels_runRouted (measured : Measured r.plan level worst) (routable : Routable r.plan)
    {flow : FlowPlan} (mem : flow ∈ r.plan.flows) (single : flow.callable = false)
    (cost : worst flow.name = some n) (l : RunLocals) (w : World) :
    ∃ seen, Travels r n seen w (after (runRouted r envelope flow (l, w))).2 ∧
      Stage flow l.records (runRouted r envelope flow (l, w)) seen := by
  unfold runRouted
  by_cases late : r.deadline ≤ r.services.clock w.reads
  · rw [checkDeadline_bind_late late]
    refine ⟨[], (travels_steps (steps_tick w)).le (Nat.zero_le n),
      .inl rfl, fun target transition s same => ?_⟩
    cases same
  rw [checkDeadline_bind late, update_bind]
  have applied := flowInput_apply r (.input flow.name) flow.name flow.input envelope l.records w.tick
  have begins := (@travels_input r w.tick flow.name l.records).after (steps_tick w)
  cases input : inputValue r flow.name flow.input envelope l.records with
  | error error =>
    rw [lift_error _ input] at applied
    rw [bind_error (onRecords_error applied)]
    refine ⟨_, begins.le (Nat.zero_le n), .inr (.inl rfl), fun target transition s same => ?_⟩
    cases same
  | ok inputs =>
    rw [lift_ok _ input] at applied
    rw [bind_ok (onRecords_ok applied)]
    have rest := @crosses_attempts r envelope flow n level worst measured routable mem
      single cost inputs
    obtain ⟨seen, travels, crossed⟩ :=
      rest (l.activate flow.name, w.tick.append [.boundary (.input flow.name) l.records])
    refine ⟨(.input flow.name, l.records) :: seen, (begins.trans travels).le (Nat.zero_add n).le, ?_,
      fun target transition s same => ?_⟩
    · rcases crossed.routes with none_ | own
      · exact .inr (.inl (congrArg _ none_))
      · exact .inr (.inr (congrArg _ own))
    · obtain ⟨own, leads⟩ := crossed.boundary target transition s same
      exact ⟨congrArg _ own, leads⟩

/-- The flows before a flow on the route: different declared flows, all of which lead to it. -/
structure Behind (plan : WorkflowPlan) (retryOf : List (String × String)) (remaining : ℕ)
    (visited : List String) (name : String) : Prop where
  nodup : visited.Nodup
  declared : visited ⊆ plan.flows.map FlowPlan.name
  leads : ∀ other ∈ visited,
    Relation.TransGen (fun first next => next ∈ successors plan retryOf first) other name
  count : visited.length + remaining = plan.flows.length

variable {plan : WorkflowPlan} {retryOf : List (String × String)} {graph : Graph}

/-- No flow of an accepted plan leads back to itself. -/
theorem Accepts.acyclic (h : Accepts plan retryOf graph) {flow : FlowPlan} (mem : flow ∈ plan.flows) :
    ¬ Relation.TransGen (fun first next => next ∈ successors plan retryOf first)
    flow.name flow.name := by
  obtain ⟨visited, topological, all, -⟩ := h.topological
  exact topological.acyclic (all flow mem)

/-- The next flow was not visited before. -/
theorem Behind.fresh {remaining : ℕ} {visited : List String} {flow : FlowPlan}
    (behind : Behind plan retryOf remaining visited flow.name) (h : Accepts plan retryOf graph)
    (mem : flow ∈ plan.flows) : flow.name ∉ visited :=
  fun seen => h.acyclic mem (behind.leads flow.name seen)

/-- There is room for a flow that was not visited. -/
theorem Behind.room {remaining : ℕ} {visited : List String} {flow : FlowPlan}
    (behind : Behind plan retryOf remaining visited flow.name) (h : Accepts plan retryOf graph)
    (mem : flow ∈ plan.flows) : 0 < remaining := by
  have nodup : (flow.name :: visited).Nodup := List.nodup_cons.mpr ⟨behind.fresh h mem, behind.nodup⟩
  have subset : flow.name :: visited ⊆ plan.flows.map FlowPlan.name :=
    List.cons_subset.mpr ⟨List.mem_map_of_mem mem, behind.declared⟩
  have short := (List.subperm_of_subset nodup subset).length_le
  rw [List.length_cons, List.length_map] at short
  have := behind.count
  omega

/-- A flow that leads on is visited. -/
theorem Behind.next {remaining : ℕ} {visited : List String} {flow : FlowPlan} {name : String}
    (behind : Behind plan retryOf (remaining + 1) visited flow.name) (h : Accepts plan retryOf graph)
    (mem : flow ∈ plan.flows) (edge : name ∈ routed flow) :
    Behind plan retryOf remaining (flow.name :: visited) name := by
  have along : name ∈ successors plan retryOf flow.name := (mem_successors mem).mpr (.inl edge)
  refine ⟨List.nodup_cons.mpr ⟨behind.fresh h mem, behind.nodup⟩,
    List.cons_subset.mpr ⟨List.mem_map_of_mem mem, behind.declared⟩,
    List.forall_mem_cons.mpr ⟨.single along, fun other seen => ?_⟩, ?_⟩
  · exact (behind.leads other seen).tail along
  · rw [List.length_cons, Nat.add_right_comm, Nat.add_assoc]
    exact behind.count

/-- The cost of a flow covers its own steps and the cost of every flow that it routes to. -/
theorem Accepts.cost_next (h : Accepts plan retryOf graph) {flow : FlowPlan} (mem : flow ∈ plan.flows)
    (single : flow.callable = false) {c : ℕ × List String}
    (cost_ : cost plan graph (pathFuel plan) flow.name = some c) :
    ∃ own, worstSteps plan (pathFuel plan) flow.name = some own ∧ own ≤ c.1 ∧
      ∀ name ∈ routed flow, ∃ c', cost plan graph (pathFuel plan) name = some c' ∧
      own + c'.1 ≤ c.1 := by
  obtain ⟨tails, own, below, known, rfl⟩ := cost_eq_some.mp cost_
  refine ⟨own, known, Nat.le_add_right _ _, fun name edge => ?_⟩
  rw [h.routeSuccessors_eq mem single] at below
  obtain ⟨c', among, found⟩ := (List.forall₂_of_mapM below).exists_of_mem_left edge
  exact ⟨c', cost_succ found, Nat.add_le_add_left (le_longest among) own⟩

/-- One routed flow is left by its routes to the next one, or the run ends with what it visited. -/
theorem Stage.route {flow : FlowPlan} {l : RunLocals} {w : World}
    {result : EStateM.Result Exn (RunLocals × World) Routed} {seen : List (Boundary × Records)}
    (stage : Stage flow l.records result seen) (ran : RoutedRan r envelope flow l w result)
    (mem : flow ∈ r.plan.flows) (single : flow.callable = false) :
    Route r.plan flow.name l.records seen := by
  have left := routedRan_leaves ran
  rcases stage.visited with rfl | rfl | rfl
  · exact .idle
  · exact .entered mem single
  · exact .left mem single left.kept

/-- From a routed flow on, a run takes at most the cost of the most expensive path. -/
theorem travels_runFlows (accepted : Accepts r.plan retryOf graph)
    (measured : Measured r.plan level (worstSteps r.plan (pathFuel r.plan)))
    (routable : Routable r.plan) (remaining : ℕ) {visited : List String} {flow : FlowPlan}
    (mem : flow ∈ r.plan.flows) (single : flow.callable = false)
    (behind : Behind r.plan retryOf remaining visited flow.name) {c : ℕ × List String}
    (cost_ : cost r.plan graph (pathFuel r.plan) flow.name = some c) (l : RunLocals) (w : World) :
    ∃ seen, Travels r c.1 seen w (after (runFlows r envelope remaining visited flow.name (l, w))).2 ∧
      Route r.plan flow.name l.records seen := by
  induction remaining generalizing visited flow c l w with
  | zero => exact absurd (behind.room accepted mem) (Nat.lt_irrefl 0)
  | succ remaining ih =>
    -- the cost of a flow is its own steps and the worst of its successors
    obtain ⟨own, worst_, within, rest⟩ := accepted.cost_next mem single cost_
    unfold runFlows
    by_cases late : r.deadline ≤ r.services.clock w.reads
    · rw [checkDeadline_bind_late late]
      exact ⟨[], (travels_steps (steps_tick w)).le (Nat.zero_le _), .idle⟩
    rw [checkDeadline_bind late, if_neg (behind.fresh accepted mem)]
    simp only [WorkflowPlan.flow?_of_mem mem]
    rw [if_neg (Bool.eq_false_iff.mp single)]
    obtain ⟨seen, travels, stage⟩ := travels_runRouted measured routable mem single worst_ l w.tick
    have ran := runRouted_ran r envelope flow l w.tick
    have travels := (travels.after (steps_tick w)).le (Nat.zero_add own).le
    cases ended : runRouted r envelope flow (l, w.tick) with
    | error error s =>
      rw [ended] at ran travels stage
      rw [bind_error ended]
      exact ⟨seen, travels.le within, stage.route ran mem single⟩
    | ok routed s =>
      rw [ended] at ran travels stage
      rw [bind_ok ended]
      rcases routed with error | ⟨target, transition⟩
      · exact ⟨seen, travels.le within, stage.route ran mem single⟩
      · simp only
        rw [update_bind]
        obtain ⟨own_, leads⟩ := stage.boundary target transition s rfl
        have left := routedRan_leaves ran
        cases goes : target.flow with
        | none =>
          exact ⟨seen, travels.le within, stage.route ran mem single⟩
        | some name =>
          -- the transition follows an edge of the graph, along which the cost falls
          have edge := leads name goes
          obtain ⟨c', cost', below⟩ := rest name edge
          obtain ⟨next, known, routed_⟩ := isRouted_spec (accepted.target_routed mem edge)
          obtain rfl := WorkflowPlan.flow?_name known
          obtain ⟨seen', travels', route⟩ := ih (WorkflowPlan.flow?_mem known) routed_
            (behind.next accepted mem edge) cost' (s.1.take transition) s.2
          refine ⟨seen ++ seen', (travels.trans travels').le below, ?_⟩
          rw [own_]
          exact .next mem single left.kept (left.finished _ _ _ rfl) edge route

/-! ## Runs -/

/-- The most expensive path of a run is found, and costs as much as the path from any start candidate. -/
theorem Accepts.runCost_total (h : Accepts plan retryOf graph) :
    ∃ c, runCost plan graph = some c ∧ ∀ name ∈ startPaths plan,
      ∃ c', cost plan graph (pathFuel plan) name = some c' ∧ c'.1 ≤ c.1 := by
  have found : ∀ name ∈ startPaths plan, ∃ c, cost plan graph (pathFuel plan) name = some c := by
    intro name start
    obtain ⟨flow, known, -⟩ := isRouted_spec (h.starts name start)
    obtain rfl := WorkflowPlan.flow?_name known
    exact h.cost_total (WorkflowPlan.flow?_mem known)
  obtain ⟨paths, all⟩ := List.mapM_total found
  refine ⟨longest paths, by simp [runCost, all], fun name start => ?_⟩
  obtain ⟨c', among, found⟩ := (List.forall₂_of_mapM all).exists_of_mem_left start
  exact ⟨c', found, le_longest among⟩

/-- The selected start is a start candidate. -/
theorem startRan_candidate {l l' : RunLocals} {w w' : World} {start : StartRecord}
    (ran : StartRan r l w (.ok start (l', w'))) : start.flow ∈ startPaths r.plan := by
  unfold startPaths
  cases ran with
  | direct direct =>
    rw [direct]
    exact List.mem_singleton_self _
  | routed route at_ goes =>
    rw [route]
    exact List.mem_filterMap.mpr ⟨_, List.mem_of_getElem? at_, goes⟩

/-- The choice of the first flow takes no step. -/
theorem steps_start (routable : Routable r.plan) {l : RunLocals} {w : World}
    {result : EStateM.Result Exn (RunLocals × World) StartRecord} (ran : StartRan r l w result) :
    Steps r 0 w (after result).2 ∧ (after result).1 = l := by
  have selected (kind : RouteKind) (target : TransitionTargetPlan) (index : Option ℕ) :
      Calm [.routeSelected kind target index none] :=
    calm_single (fun _ => Event.noConfusion) (fun _ _ => Event.noConfusion) Event.noConfusion
  cases ran with
  | direct => exact ⟨steps_append (selected _ _ _) w, rfl⟩
  | routed _ _ _ conditions =>
    exact ⟨steps_append (calm_append (calm_conditions conditions) (selected _ _ _)) w, rfl⟩
  | failed cause conditions => exact ⟨steps_append (calm_conditions conditions) w, rfl⟩
  | misrouted start cause =>
    obtain ⟨open_, flows⟩ := routable.start _ start
    rcases cause with missing | ⟨entry, mem, none_⟩
    · exact absurd missing open_
    · exact absurd none_ (flows entry mem)

/-- The output takes no step. -/
theorem steps_output {ending : Ending} {l : RunLocals} {w : World}
    {result : EStateM.Result Exn (RunLocals × World) Ending}
    (ran : OutputRan r envelope ending l w result) :
    Steps r 0 w (after result).2 := by
  cases ran with
  | unchanged => exact Spends.refl w
  | bound => exact steps_append (calm_boundary inside_output _) w
  | failed => exact steps_append (calm_boundary inside_output _) w

/-- What a run of the workflow visits, from the selected start on. -/
def Visits (plan : WorkflowPlan) (records : Records) (seen : List (Boundary × Records)) : Prop :=
  seen = [] ∨ ∃ start ∈ startPaths plan, Route plan start records seen

/-- A run of the workflow. -/
theorem travels_runWorkflow (accepted : Accepts r.plan retryOf graph)
    (measured : Measured r.plan level (worstSteps r.plan (pathFuel r.plan)))
    (routable : Routable r.plan) {c : ℕ × List String} (cost_ : runCost r.plan graph = some c)
    (l : RunLocals) (w : World) :
    ∃ seen, Travels r c.1 seen w (after (runWorkflow r envelope (l, w))).2 ∧
      Visits r.plan l.records seen := by
  obtain ⟨total, found, paths⟩ := accepted.runCost_total
  obtain rfl := Option.some.inj (cost_.symm.trans found)
  unfold runWorkflow
  have started := selectStart_ran r envelope l w
  cases start : selectStart r envelope (l, w) with
  | error error s =>
    rw [start] at started
    rw [bind_error start]
    obtain ⟨steps, -⟩ := steps_start routable started
    exact ⟨[], (travels_steps steps).le (Nat.zero_le _), .inl rfl⟩
  | ok first s =>
    rw [start] at started
    rw [bind_ok start, update_bind]
    obtain ⟨steps, same⟩ := steps_start routable started
    have same : s.1 = l := same
    have steps : Steps r 0 w s.2 := steps
    have candidate := startRan_candidate started
    obtain ⟨flow, known, single⟩ := isRouted_spec (accepted.starts _ candidate)
    obtain ⟨c', cost', below⟩ := paths _ candidate
    rw [← WorkflowPlan.flow?_name known] at candidate cost' ⊢
    have behind : Behind r.plan retryOf r.plan.flows.length [] flow.name :=
      ⟨List.nodup_nil, List.nil_subset _, List.forall_mem_nil _, Nat.zero_add _⟩
    obtain ⟨seen, travels, route⟩ :=
        @travels_runFlows r envelope level retryOf graph accepted measured
      routable _ [] flow (WorkflowPlan.flow?_mem known) single behind c' cost'
      { s.1 with start := some first } s.2
    have travels := ((travels.after steps).le (Nat.zero_add _).le).le below
    have visits_ : Visits r.plan l.records seen := by
      refine .inr ⟨flow.name, candidate, ?_⟩
      rw [← same]
      exact route
    refine ⟨seen, ?_, visits_⟩
    cases ended : runFlows r envelope r.plan.flows.length [] flow.name
        ({ s.1 with start := some first }, s.2) with
    | error error s' =>
      rw [ended] at travels
      rw [bind_error ended]
      exact travels
    | ok ending s' =>
      rw [ended] at travels
      rw [bind_ok ended]
      exact travels.before (steps_output (projectWorkflow_ran r envelope ending s'.1 s'.2))

/-- What a run asks for is declared. -/
def Asks (plan : WorkflowPlan) : RunTarget → Prop
  | .workflow => True
  | .flow name | .step name _ => ∃ flow ∈ plan.flows, flow.name = name

/-- A flow that runs alone visits nothing of the route. -/
theorem travels_runAlone (measured : Measured r.plan level worst) {flow : FlowPlan}
    (mem : flow ∈ r.plan.flows) (stepId : Option String) (l : RunLocals) (w : World) :
    ∃ own, Travels r own [] w (after (runAlone r envelope flow.name stepId (l, w))).2 := by
  obtain ⟨own, retry, steps, -, -⟩ := measured.bounds flow mem
  refine ⟨own, travels_steps ?_⟩
  unfold runAlone
  by_cases late : r.deadline ≤ r.services.clock w.reads
  · rw [checkDeadline_bind_late late]
    exact (steps_tick w).mono (Nat.zero_le own)
  rw [checkDeadline_bind late]
  simp only [WorkflowPlan.flow?_of_mem mem]
  rw [update_bind, emit_bind, total_bind]
  have begins := (@steps_tick r w).trans (steps_append (calm_started flow.name
    (aloneCall flow envelope stepId).role) w.tick)
  exact (begins.trans (measured.executes mem steps rfl rfl _)).mono (Nat.zero_add own).le

/-- A run of the workflow, with its failures caught. -/
theorem travels_runTarget {target : RunTarget} {seen : List (Boundary × Records)} {l : RunLocals}
    {w : World} (body : Travels r n seen w (after (runBody r envelope target (l, w))).2) :
    Travels r n seen w (after (runTarget r envelope target (l, w))).2 := by
  unfold runTarget
  cases ended : runBody r envelope target (l, w) with
  | error error s =>
    rw [ended] at body
    rw [bind_error ended]
    exact body
  | ok ending s =>
    rw [ended] at body
    rw [bind_ok ended]
    have checked : Takes r 0 (checkDeadline r >>= fun _ => pure ending : Exec RunLocals
        Ending) fun _ => True :=
      takes_checkDeadline.free_bind fun _ _ => costs_pure trivial
    exact body.before (checked.steps s)

/-- The end of a run adds nothing to what its target visited. -/
theorem travels_run {target : RunTarget} {seen : List (Boundary × Records)}
    (body : Travels r n seen {} (after (runBody r envelope target (startLocals r target, {}))).2) :
    Travels r n seen {} (run r envelope target).2 := by
  have whole := travels_runTarget body
  have start : ({ records := initialRecords r target } : RunLocals) = startLocals r target := rfl
  unfold run
  rw [start]
  cases ended : runTarget r envelope target (startLocals r target, {}) with
  | ok ending s =>
    rw [ended] at whole
    exact whole
  | error error s =>
    rw [ended] at whole
    exact whole.before (steps_recordFailure error s.2)

/-- A run of the workflow takes at most the cost of the most expensive path, along a route from a start
candidate. -/
theorem travels_workflow (accepted : Accepts r.plan retryOf graph) (routable : Routable r.plan)
    {c : ℕ × List String} (cost_ : runCost r.plan graph = some c) :
    ∃ seen, Travels r c.1 seen {} (run r envelope .workflow).2 ∧
      Visits r.plan (initialRecords r .workflow) seen := by
  obtain ⟨level, measured⟩ := accepted.measured
  obtain ⟨seen, travels, visits_⟩ :=
      @travels_runWorkflow r envelope level retryOf graph accepted measured
    routable c cost_ (startLocals r .workflow) {}
  exact ⟨seen, travels_run travels, visits_⟩

/-- A run of one declared flow visits nothing of the route. -/
theorem travels_alone (accepted : Accepts r.plan retryOf graph) {flow : FlowPlan}
    (mem : flow ∈ r.plan.flows) {target : RunTarget} {stepId : Option String}
    (alone : ∀ s, runBody r envelope target s = runAlone r envelope flow.name stepId s) :
    ∃ own, Travels r own [] {} (run r envelope target).2 := by
  obtain ⟨level, measured⟩ := accepted.measured
  obtain ⟨own, travels⟩ := @travels_runAlone r envelope level _ measured flow mem stepId
    (startLocals r target) {}
  refine ⟨own, travels_run ?_⟩
  rw [alone]
  exact travels

end Route

end Foliqant.Compiler

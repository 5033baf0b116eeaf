import Foliqant.Compiler.Boundaries
import Foliqant.Compiler.GraphSafety

/-!
# What accepted boundaries promise

An accepted boundary binding names, at every required source, data that the records have as soon as the
flows available there have finished. The available flows are those on every route path, and a flow counts
as completed when no review route of it leads on.
-/

namespace Foliqant.Compiler

open Foliqant.Core JsonText

/-! ## Sources -/

/-- The data that a pointer reads: the record of a flow at one of its fields, or a whole root. -/
def dataPath (pointer : String) : List String :=
  match tokens pointer with
  | "flows" :: name :: field :: _ => ["flows", name, field]
  | root :: _ => [root]
  | [] => []

/-- The context has the data that a pointer reads. -/
def HasData (context : Json) (pointer : String) : Prop :=
  ∃ value, lookupTokens context (dataPath pointer) = some value

mutual

/-- Every required source has a pointer whose data is there. -/
def Supplied (context : Json) : BindingPlan → Prop
  | .literal _ => True
  | .pointer path default => default.isSome ∨ HasData context path
  | .firstOf members default => default.isSome ∨ ∃ member ∈ members, HasData context member
  | .fields entries => AllSupplied context entries

/-- Each binding is supplied. -/
def AllSupplied (context : Json) : Bindings → Prop
  | [] => True
  | (_, binding) :: rest => Supplied context binding ∧ AllSupplied context rest

end

/-- Bindings are supplied when each is. -/
theorem allSupplied_iff {context : Json} {bindings : Bindings} :
    AllSupplied context bindings ↔ ∀ entry ∈ bindings, Supplied context entry.2 := by
  induction bindings with
  | nil => exact ⟨fun _ => List.forall_mem_nil _, fun _ => trivial⟩
  | cons entry rest ih =>
    rw [List.forall_mem_cons, ← ih]
    exact Iff.rfl

/-- A check passes when its test does. -/
theorem orElse_eq_ok {ε : Type} {c : Bool} {fail : ε} {u : Unit} :
    (if c then Except.ok () else Except.error fail) = Except.ok u ↔ c = true := by
  cases c with
  | true => exact ⟨fun _ => rfl, fun _ => rfl⟩
  | false =>
    constructor
    · intro failed
      cases failed
    · intro failed
      cases failed

section Sources

variable {ε : Type} {check : String → Except ε Unit} {available : String → Bool}
    {fail : ε} {context : Json}

mutual

/-- Whatever makes every available pointer find its data supplies the bindings that were accepted. -/
theorem requireSource_supplied
    (found : ∀ pointer, check pointer = .ok () → available pointer = true → HasData context pointer) :
    (binding : BindingPlan) →
    requireSource check available fail binding = .ok () → Supplied context binding
  | .literal _, _ => trivial
  | .pointer path default, accepted => by
      obtain ⟨_, checked, required⟩ := Except.bind_eq_ok.mp accepted
      rcases Bool.or_eq_true_iff.mp (orElse_eq_ok.mp required) with default | available
      · exact .inl default
      · exact .inr (found path checked available)
  | .firstOf members default, accepted => by
      obtain ⟨_, checked, required⟩ := Except.bind_eq_ok.mp accepted
      rcases Bool.or_eq_true_iff.mp (orElse_eq_ok.mp required) with default | available
      · exact .inl default
      · obtain ⟨member, mem, available⟩ := List.any_eq_true.mp available
        exact .inr ⟨member, mem, found member (Except.forM_eq_ok.mp checked member mem) available⟩
  | .fields entries, accepted => requireSources_supplied found entries accepted

/-- Required sources that passed are supplied. -/
theorem requireSources_supplied
    (found : ∀ pointer, check pointer = .ok () → available pointer = true → HasData context pointer) :
    (bindings : Bindings) →
    requireSources check available fail bindings = .ok () → AllSupplied context bindings
  | [], _ => trivial
  | (_, binding) :: rest, accepted => by
      unfold requireSources at accepted
      obtain ⟨_, first, accepted⟩ := Except.bind_eq_ok.mp accepted
      exact ⟨requireSource_supplied found binding first, requireSources_supplied found rest accepted⟩

end

end Sources

/-! ## Resolution -/

mutual

/-- Every required source is a pointer to data itself, not to anything below it. -/
def ReadsWhole : BindingPlan → Prop
  | .literal _ => True
  | .pointer path default => default.isSome ∨ tokens path = dataPath path
  | .firstOf _ default => default.isSome
  | .fields entries => AllReadWhole entries

/-- Each binding reads whole values. -/
def AllReadWhole : Bindings → Prop
  | [] => True
  | (_, binding) :: rest => ReadsWhole binding ∧ AllReadWhole rest

end

/-- An invalid configuration is no missing binding. -/
theorem configuration_found {α : Type} {error : Exn}
    (failed : (fail .invalidConfiguration : Except Exn α) = .error error) :
    error ≠ missingBindingError := by
  obtain rfl := Except.error.inj failed
  decide

/-- A value that is too deep is no missing binding. -/
theorem freezeJson_found {maxDepth : ℕ} {value : Json} {error : Exn}
    (failed : freezeJson maxDepth value = .error error) : error ≠ missingBindingError := by
  unfold freezeJson at failed
  split_ifs at failed
  obtain rfl := Except.error.inj failed
  decide

/-- What was found or has a default is not missing. -/
theorem resolveFound_found {found default : Option Json}
    (given : found.isSome ∨ default.isSome) {error : Exn}
    (failed : resolveFound found default = .error error) : error ≠ missingBindingError := by
  cases found with
  | some value => cases failed
  | none =>
    obtain ⟨value, rfl⟩ := Option.isSome_iff_exists.mp (given.resolve_left Bool.false_ne_true)
    exact freezeJson_found failed

section Found

variable {context : Json} {error : Exn}

mutual

/-- A supplied binding whose required pointers read data itself never misses. -/
theorem resolveBinding_found : (binding : BindingPlan) → Supplied context binding →
    ReadsWhole binding →
    resolveBinding context binding = .error error → error ≠ missingBindingError
  | .literal _, _, _, failed => freezeJson_found failed
  | .pointer path default, supplied, whole, failed => by
      unfold resolveBinding at failed
      rcases Except.bind_eq_error.mp failed with failed | ⟨found, looked, failed⟩
      · exact lookupPointer_error failed
      refine resolveFound_found ?_ failed
      rcases whole with given | direct
      · exact .inr given
      rcases supplied with given | ⟨value, data⟩
      · exact .inr given
      · rw [lookupPointer_tokens looked, direct, data]
        exact .inl rfl
  | .firstOf members default, _, given, failed => by
      unfold resolveBinding at failed
      split_ifs at failed
      · exact configuration_found failed
      rcases Except.bind_eq_error.mp failed with failed | ⟨found, -, failed⟩
      · exact lookupMembers_error failed
      · exact resolveFound_found (.inr given) failed
  | .fields [], _, _, failed => by
      unfold resolveBinding at failed
      exact configuration_found failed
  | .fields (entry :: entries), supplied, whole, failed => by
      unfold resolveBinding at failed
      rcases Except.bind_eq_error.mp failed with failed | ⟨_, -, failed⟩
      · exact resolveBindingsFrom_found (entry :: entries) [] supplied whole failed
      · cases failed

/-- Bindings that are supplied are not missing. -/
theorem resolveBindingsFrom_found : (bindings : Bindings) → (values : Object) →
    AllSupplied context bindings → AllReadWhole bindings →
    resolveBindingsFrom context values bindings = .error error → error ≠ missingBindingError
  | [], _, _, _, failed => by
      unfold resolveBindingsFrom at failed
      cases failed
  | (name, binding) :: rest, values, supplied, whole, failed => by
      unfold resolveBindingsFrom at failed
      split_ifs at failed
      · exact configuration_found failed
      rcases Except.bind_eq_error.mp failed with failed | ⟨value, -, failed⟩
      · exact resolveBinding_found binding supplied.1 whole.1 failed
      · exact resolveBindingsFrom_found rest _ supplied.2 whole.2 failed

end

end Found

/-! ## References -/

/-- The flow repeats, or it is run again by one that does. -/
def Repeated (plan : WorkflowPlan) (name : String) : Prop :=
  ∃ flow ∈ plan.flows, ∃ rep, flow.repeatPlan = some rep ∧
    (flow.name = name ∨ rep.retryFlow = some name)

/-- What a checked pointer reads. -/
inductive Refers (plan : WorkflowPlan) (pointer : String) : Prop
  | whole (path : tokens pointer = [])
  | payload {below : List String} (path : tokens pointer = "payload" :: below)
  | metadata {below : List String} (path : tokens pointer = "metadata" :: below)
  | result {name : String} {below : List String}
      (path : tokens pointer = "flows" :: name :: "result" :: below)
  | attempts {name : String} {below : List String}
      (path : tokens pointer = "flows" :: name :: "attempts" :: below) (repeats : Repeated plan name)

/-- A pointer with a known root that reads no flow. -/
theorem refers_root {plan : WorkflowPlan} {pointer root : String} {parts : List String}
    (path : tokens pointer = root :: parts) (known : boundaryRoots.contains root = true)
    (other : root ≠ "flows") : Refers plan pointer := by
  have roots : root = "payload" ∨ root = "metadata" ∨ root = "flows" := by
    simpa [boundaryRoots] using known
  rcases roots with rfl | rfl | same
  · exact .payload path
  · exact .metadata path
  · exact absurd same other

/-- A pointer to a known field of a flow. -/
theorem refers_field {plan : WorkflowPlan} {pointer name field : String} {below : List String}
    (path : tokens pointer = "flows" :: name :: field :: below)
    (known : recordFields.contains field = true)
    (repeats : field = "attempts" → Repeated plan name) : Refers plan pointer := by
  have fields : field = "result" ∨ field = "attempts" := by simpa [recordFields] using known
  rcases fields with rfl | rfl
  · exact .result path
  · exact .attempts path (repeats rfl)

section References

variable {plan : WorkflowPlan} {retryOf : List (String × String)} {graph : Graph}

/-- A retry flow belongs to a repeated one. -/
theorem Accepts.isRetry (h : Accepts plan retryOf graph) {name : String}
    (retry : graph.isRetry name = true) :
    Repeated plan name := by
  obtain ⟨⟨_, owner⟩, mem, rfl⟩ := List.mem_map.mp (List.contains_iff_mem.mp retry)
  rw [h.analysed] at mem
  obtain ⟨flow, among, -, rep, repeats, retries⟩ := h.owners.owned _ (List.mem_filter.mp mem).1
  exact ⟨flow, among, rep, repeats, .inr retries⟩

/-- What the check of a flow reference promises. -/
theorem flowReferenceCheck_refers (h : Accepts plan retryOf graph) {pointer : String}
    (checked : flowReferenceCheck plan graph pointer = .ok ()) : Refers plan pointer := by
  unfold flowReferenceCheck at checked
  split at checked
  case h_1 path => exact .whole path
  case h_2 root parts path =>
    by_cases known : boundaryRoots.contains root = true
    swap
    · rw [if_pos (by simpa using known)] at checked
      cases checked
    rw [if_neg (by simpa using known)] at checked
    by_cases other : root = "flows"
    swap
    · exact refers_root path known other
    subst other
    rw [if_neg (by simp)] at checked
    split at checked
    case h_2 => cases checked
    case h_1 name field below =>
      split at checked
      case h_1 => cases checked
      case h_2 target declared =>
        split_ifs at checked with unknown callable single
        refine refers_field path (by simpa using unknown) fun attempts => ?_
        subst attempts
        by_cases retry : graph.isRetry name = true
        · exact h.isRetry retry
        · have repeats : target.repeatPlan.isNone ≠ true := by simpa [retry] using single
          obtain ⟨rep, repeats⟩ := Option.ne_none_iff_exists'.mp fun once =>
            repeats (Option.isNone_iff_eq_none.mpr once)
          exact ⟨target, WorkflowPlan.flow?_mem declared, rep, repeats,
            .inl (WorkflowPlan.flow?_name declared)⟩

/-- What the check of a reference in an item promises. -/
theorem itemReferenceCheck_refers {names : List String} (repeats : ∀ name ∈ names, Repeated plan name)
    {pointer : String} (checked : itemReferenceCheck names pointer = .ok ()) :
    Refers plan pointer := by
  unfold itemReferenceCheck at checked
  split at checked
  case h_1 path => exact .whole path
  case h_2 root parts path =>
    by_cases known : boundaryRoots.contains root = true
    swap
    · rw [if_pos (by simpa using known)] at checked
      cases checked
    rw [if_neg (by simpa using known)] at checked
    by_cases other : root = "flows"
    swap
    · exact refers_root path known other
    subst other
    rw [if_neg (by simp)] at checked
    split at checked
    case h_2 => cases checked
    case h_1 name field below =>
      split_ifs at checked with unknown
      have known : names.contains name = true ∧ recordFields.contains field = true := by
        simpa [not_or] using unknown
      exact refers_field path known.2 fun _ => repeats name (List.contains_iff_mem.mp known.1)

end References

/-! ## Records -/

/-- The flow has a result, and its runs when it runs more than once. -/
def Supplies (plan : WorkflowPlan) (records : Records) (name : String) : Prop :=
  ∃ record, records.lookup name = some record ∧ record.result.isSome ∧
    (Repeated plan name → record.attempts ≠ [])

/-- A flow's data is found by its name. -/
theorem lookup_data (records : Records) (name : String) :
    (records.map fun (name, record) => (name, record.data)).lookup name =
      (records.lookup name).map FlowRecord.data := by
  induction records with
  | nil => rfl
  | cons entry rest ih =>
    rw [List.map_cons, List.lookup_cons, List.lookup_cons, ih]
    by_cases same : name = entry.1
    · rw [beq_iff_eq.mpr same]
      rfl
    · rw [beq_false_of_ne same]

/-- A field of the record of a flow in the context of a boundary. -/
theorem lookupTokens_flow (envelope : AcceptedEnvelope) {records : Records} {name : String}
    {record : FlowRecord} (recorded : records.lookup name = some record) (below : List String) :
    lookupTokens (workflowContext envelope records) ("flows" :: name :: below) =
      lookupTokens record.data below := by
  show ((records.map fun (name, record) => (name, record.data)).lookup name).bind _ = _
  rw [lookup_data, recorded]
  rfl

/-- The members of a record that bindings see when they are present. -/
def flowMembers (record : FlowRecord) : List (String × Option Json) :=
  [("status", some (.str record.status.value)), ("result", record.result),
    ("error", record.error.map ServiceError.asJson),
    ("attempts", if record.attempts = [] then none
      else some (.arr (attemptData 1 record.attempts)))]

/-- A member of a flow's data. -/
theorem lookupTokens_data (record : FlowRecord) (field : String) :
    lookupTokens record.data [field] = ((flowMembers record).lookup field).join := by
  have nodup : ((flowMembers record).map Prod.fst).Nodup := by
    show ["status", "result", "error", "attempts"].Nodup
    decide
  have found : childToken record.data field = ((flowMembers record).lookup field).join :=
    lookup_presentMembers nodup field
  unfold lookupTokens
  rw [found]
  exact Option.bind_fun_some _

/-- A checked pointer to what is available finds its data in every context with the records. -/
theorem Refers.hasData {plan : WorkflowPlan} {pointer : String} (refers : Refers plan pointer)
    {available : List String} (reads : flowAvailable available pointer = true) {records : Records}
    (supplies : ∀ name ∈ available, Supplies plan records name) (envelope : AcceptedEnvelope) :
    HasData (workflowContext envelope records) pointer := by
  unfold HasData dataPath
  unfold flowAvailable at reads
  cases refers with
  | whole path =>
    rw [path]
    exact ⟨_, rfl⟩
  | payload path =>
    rw [path]
    exact ⟨envelope.payload, rfl⟩
  | metadata path =>
    rw [path]
    exact ⟨.obj envelope.metadata, rfl⟩
  | result path =>
    rw [path] at reads ⊢
    obtain ⟨record, recorded, result, -⟩ := supplies _ (List.contains_iff_mem.mp reads)
    obtain ⟨value, result⟩ := Option.isSome_iff_exists.mp result
    refine ⟨value, (lookupTokens_flow envelope recorded _).trans ?_⟩
    rw [lookupTokens_data, flowMembers, result]
    rfl
  | attempts path repeats =>
    rw [path] at reads ⊢
    obtain ⟨record, recorded, -, attempts⟩ := supplies _ (List.contains_iff_mem.mp reads)
    refine ⟨.arr (attemptData 1 record.attempts), (lookupTokens_flow envelope recorded _).trans ?_⟩
    rw [lookupTokens_data, flowMembers, if_neg (attempts repeats)]
    rfl

/-! ## The boundaries of a plan -/

section Places

variable (plan : WorkflowPlan) (graph : Graph)

/-- The retry flow of a repeated flow. -/
def retryOwned (name : String) : List String :=
  (((plan.flow? name).bind FlowPlan.repeatPlan).bind RepeatPlan.retryFlow).toList

/-- The flows available to a repeat, which inside a collection item is the flow of the item only. -/
def repeatAvailable (name : String) : List String :=
  if isCallable plan name then [name] else graph.dominating plan name

/-- The flows that are available at a boundary. -/
def availableAt : Boundary → List String
  | .input name => graph.availableFlows plan name
  | .routes name => graph.dominating plan name
  | .retryInput name => repeatAvailable plan graph name
  | .nextInput name => repeatAvailable plan graph name ++ retryOwned plan name
  | .output => outputFlows plan graph

/-- The flows that completed before a routed flow; a collection item sees none of them. -/
def completedEarlier (name : String) : List String :=
  if isCallable plan name then [] else completedBefore plan graph name

/-- The flows that, wherever they ran, completed at a boundary. -/
def completedAt : Boundary → List String
  | .input name => completedEarlier plan graph name
  | .routes name => completedEarlier plan graph name
  | .retryInput name => name :: completedEarlier plan graph name
  | .nextInput name => name :: completedEarlier plan graph name ++ retryOwned plan name
  | .output => []

/-- The input bindings of a routed flow; a callable flow gets its input from its caller. -/
def inputBindings (flow : FlowPlan) : Bindings := if flow.callable then [] else flow.input

/-- The bindings of a repeat. -/
def repeatBindings (f : FlowPlan → RepeatPlan → Bindings) (flow : FlowPlan) : Bindings :=
  (flow.repeatPlan.map (f flow)).getD []

/-- The bindings of a retry flow, if there is one. -/
def retryBindings (_ : FlowPlan) (rep : RepeatPlan) : Bindings :=
  if rep.retryFlow.isSome then rep.retryFlowInput else []

/-- The bindings of the next attempt, which inside a collection item override its input. -/
def nextBindings (flow : FlowPlan) (rep : RepeatPlan) : Bindings :=
  if flow.callable then rep.retryInput else overridden flow.input rep.retryInput

/-- The bindings that a boundary evaluates. -/
def bindingsAt : Boundary → Bindings
  | .input name => ofName plan inputBindings name
  | .routes name => ofName plan caseBindings name
  | .retryInput name => ofName plan (repeatBindings retryBindings) name
  | .nextInput name => ofName plan (repeatBindings nextBindings) name
  | .output => outputBindings plan

end Places

section Accepted

variable {plan : WorkflowPlan} {retryOf : List (String × String)} {graph : Graph} {records : Records}

/-- Bindings that were accepted at a boundary are supplied there. -/
theorem Accepts.boundary_supplied (h : Accepts plan retryOf graph) {available : List String}
    {bindings : Bindings} (valid : boundaryBindings plan graph available bindings = .ok ())
    (supplies : ∀ name ∈ available, Supplies plan records name) (envelope : AcceptedEnvelope) :
    AllSupplied (workflowContext envelope records) bindings :=
  requireSources_supplied (fun _ checked reads =>
    (flowReferenceCheck_refers h checked).hasData reads supplies envelope) bindings valid

/-- The names that a repeat inside a collection item reads are those of flows that run more than once. -/
theorem repeated_item {flow : FlowPlan} (mem : flow ∈ plan.flows) {rep : RepeatPlan}
    (repeats : flow.repeatPlan = some rep) :
    ∀ name ∈ flow.name :: rep.retryFlow.toList, Repeated plan name := by
  refine List.forall_mem_cons.mpr ⟨⟨flow, mem, rep, repeats, .inl rfl⟩, fun name retry => ?_⟩
  exact ⟨flow, mem, rep, repeats, .inr (Option.mem_toList.mp retry)⟩

/-- Bindings that were accepted for an item are supplied in it. -/
theorem item_supplied {flow : FlowPlan} (mem : flow ∈ plan.flows) {rep : RepeatPlan}
    (repeats : flow.repeatPlan = some rep) {available : List String} {bindings : Bindings}
    (valid : requireSources (itemReferenceCheck (flow.name :: rep.retryFlow.toList))
      (flowAvailable available) BoundaryError.unavailableFlowReference bindings = .ok ())
    (supplies : ∀ name ∈ available, Supplies plan records name) (envelope : AcceptedEnvelope) :
    AllSupplied (workflowContext envelope records) bindings :=
  requireSources_supplied (fun _ checked reads =>
    (itemReferenceCheck_refers (repeated_item mem repeats) checked).hasData reads supplies envelope)
    bindings valid

/-- The accepted boundaries of a routed flow. -/
structure RoutedBoundaries (plan : WorkflowPlan) (graph : Graph) (flow : FlowPlan) : Prop where
  input : boundaryBindings plan graph (graph.availableFlows plan flow.name) flow.input = .ok ()
  cases_ : boundaryBindings plan graph (graph.dominating plan flow.name) (caseBindings flow) = .ok ()
  retry : ∀ rep, flow.repeatPlan = some rep → rep.retryFlow.isSome = true →
    boundaryBindings plan graph (graph.dominating plan flow.name) rep.retryFlowInput = .ok ()
  next : ∀ rep, flow.repeatPlan = some rep → boundaryBindings plan graph
    (graph.dominating plan flow.name ++ rep.retryFlow.toList) rep.retryInput = .ok ()

/-- What is accepted about a routed flow's boundaries. -/
theorem validateFlowBoundaries_routed {flow : FlowPlan} (single : flow.callable = false)
    (valid : validateFlowBoundaries plan graph flow = .ok ()) : RoutedBoundaries plan graph flow := by
  unfold validateFlowBoundaries at valid
  rw [if_neg (Bool.eq_false_iff.mp single)] at valid
  obtain ⟨_, input, valid⟩ := Except.bind_eq_ok.mp valid
  obtain ⟨_, cases_, valid⟩ := Except.bind_eq_ok.mp valid
  refine ⟨input, cases_, fun rep repeats retries => ?_, fun rep repeats => ?_⟩
  all_goals
    rw [repeats] at valid
    have valid : validateRepeatBindings plan graph flow rep = .ok () := valid
    unfold validateRepeatBindings at valid
    dsimp only at valid
  · rw [if_pos retries] at valid
    obtain ⟨_, retry, -⟩ := Except.bind_eq_ok.mp valid
    exact retry
  · split_ifs at valid
    · obtain ⟨_, -, next⟩ := Except.bind_eq_ok.mp valid
      exact next
    · exact valid

/-- What is accepted about an item's boundaries. -/
theorem validateFlowBoundaries_item {flow : FlowPlan} (callable : flow.callable = true)
    {rep : RepeatPlan}
    (repeats : flow.repeatPlan = some rep) (valid : validateFlowBoundaries plan graph flow = .ok ()) :
    validateItemRepeat flow rep = .ok () := by
  unfold validateFlowBoundaries at valid
  rw [if_pos callable, repeats] at valid
  exact valid

/-- Available flows come before on every path. -/
theorem mem_availableFlows_dominating {f name : String}
    (available : f ∈ graph.availableFlows plan name) :
    f ∈ graph.dominating plan name := by
  obtain ⟨declared, given⟩ := List.mem_filter.mp available
  exact List.mem_filter.mpr ⟨declared, decide_eq_true (of_decide_eq_true given).1⟩

/-- The retry flow that a flow owns. -/
theorem retryOwned_eq {flow : FlowPlan} (mem : flow ∈ plan.flows) {rep : RepeatPlan}
    (repeats : flow.repeatPlan = some rep) : retryOwned plan flow.name = rep.retryFlow.toList := by
  unfold retryOwned
  rw [WorkflowPlan.flow?_of_mem mem, Option.bind_some, repeats]
  rfl

/-- A flow of the plan is callable as it says. -/
theorem isCallable_of_mem {flow : FlowPlan} (mem : flow ∈ plan.flows) :
    isCallable plan flow.name = flow.callable := by
  unfold isCallable
  rw [WorkflowPlan.flow?_of_mem mem]
  rfl

/-- What is read off a flow by its name. -/
theorem mem_ofName {α : Type} {f : FlowPlan → List α} {name : String} {a : α}
    (mem : a ∈ ofName plan f name) :
    ∃ flow ∈ plan.flows, flow.name = name ∧ a ∈ f flow := by
  unfold ofName at mem
  cases known : plan.flow? name with
  | none =>
    rw [known] at mem
    cases mem
  | some flow =>
    rw [known] at mem
    exact ⟨flow, WorkflowPlan.flow?_mem known, WorkflowPlan.flow?_name known, mem⟩

/-- Bindings of a repeat belong to a repeated flow. -/
theorem mem_repeatBindings {f : FlowPlan → RepeatPlan → Bindings} {flow : FlowPlan}
    {entry : String × BindingPlan} (bound : entry ∈ repeatBindings f flow) :
    ∃ rep, flow.repeatPlan = some rep ∧ entry ∈ f flow rep := by
  unfold repeatBindings at bound
  cases repeats : flow.repeatPlan with
  | none =>
    rw [repeats] at bound
    cases bound
  | some rep =>
    rw [repeats] at bound
    exact ⟨rep, rfl, bound⟩

/-- Whatever is overridden is a binding of the flow or one of the overrides. -/
theorem mem_overridden {base overrides : Bindings} {entry : String × BindingPlan}
    (mem : entry ∈ overridden base overrides) :
    (∃ name, (name, entry.2) ∈ base) ∨ ∃ name, (name, entry.2) ∈ overrides := by
  obtain ⟨⟨name, binding⟩, own, rfl⟩ := List.mem_map.mp mem
  dsimp only
  cases replaced : (Dict.ofList overrides).lookup name with
  | none => exact .inl ⟨name, own⟩
  | some other => exact .inr ⟨name, Dict.mem_of_mem_ofList (Dict.mem_of_lookup replaced)⟩

/-- What is available to a retry run. -/
theorem availableAt_retryInput {flow : FlowPlan} (mem : flow ∈ plan.flows) :
    availableAt plan graph (.retryInput flow.name) =
      if flow.callable then [flow.name] else graph.dominating plan flow.name := by
  show repeatAvailable plan graph flow.name = _
  rw [repeatAvailable, isCallable_of_mem mem]

/-- What is available to the next attempt. -/
theorem availableAt_nextInput {flow : FlowPlan} (mem : flow ∈ plan.flows) {rep : RepeatPlan}
    (repeats : flow.repeatPlan = some rep) : availableAt plan graph (.nextInput flow.name) =
      (if flow.callable then [flow.name] else graph.dominating plan flow.name) ++
      rep.retryFlow.toList := by
  show repeatAvailable plan graph flow.name ++ retryOwned plan flow.name = _
  rw [repeatAvailable, isCallable_of_mem mem, retryOwned_eq mem repeats]

/-- With the available flows supplied, every binding of an accepted boundary is supplied. -/
theorem Accepts.supplied (h : Accepts plan retryOf graph)
    (valid : validateBoundaries plan graph = .ok ())
    {place : Boundary} (supplies : ∀ name ∈ availableAt plan graph place, Supplies plan records name)
    (envelope : AcceptedEnvelope) :
    ∀ entry ∈ bindingsAt plan place, Supplied (workflowContext envelope records) entry.2 := by
  obtain ⟨_, flows, output⟩ := Except.bind_eq_ok.mp valid
  have flows := Except.forM_eq_ok.mp flows
  intro entry bound
  cases place with
  | input name =>
    have bound : entry ∈ ofName plan inputBindings name := bound
    obtain ⟨flow, mem, rfl, among⟩ := mem_ofName bound
    unfold inputBindings at among
    split_ifs at among with callable
    · cases among
    have own := validateFlowBoundaries_routed (Bool.eq_false_iff.mpr callable) (flows flow mem)
    exact allSupplied_iff.mp (h.boundary_supplied own.input supplies envelope) entry among
  | routes name =>
    have bound : entry ∈ ofName plan caseBindings name := bound
    obtain ⟨flow, mem, rfl, among⟩ := mem_ofName bound
    cases callable : flow.callable with
    | true =>
      unfold caseBindings at among
      rw [(flow.called callable).1] at among
      cases among
    | false =>
      have own := validateFlowBoundaries_routed callable (flows flow mem)
      exact allSupplied_iff.mp (h.boundary_supplied own.cases_ supplies envelope) entry among
  | retryInput name =>
    have bound : entry ∈ ofName plan (repeatBindings retryBindings) name := bound
    obtain ⟨flow, mem, rfl, among⟩ := mem_ofName bound
    obtain ⟨rep, repeats, among⟩ := mem_repeatBindings among
    unfold retryBindings at among
    split_ifs at among with retries
    swap
    · cases among
    rw [availableAt_retryInput mem] at supplies
    split_ifs at supplies with callable
    · obtain ⟨_, retry, -⟩ := Except.bind_eq_ok.mp
        (validateFlowBoundaries_item callable repeats (flows flow mem))
      exact allSupplied_iff.mp (item_supplied mem repeats retry supplies envelope) entry among
    · have own := validateFlowBoundaries_routed (Bool.eq_false_iff.mpr callable) (flows flow mem)
      exact allSupplied_iff.mp (h.boundary_supplied (own.retry rep repeats retries) supplies
        envelope) entry among
  | nextInput name =>
    have bound : entry ∈ ofName plan (repeatBindings nextBindings) name := bound
    obtain ⟨flow, mem, rfl, among⟩ := mem_ofName bound
    obtain ⟨rep, repeats, among⟩ := mem_repeatBindings among
    unfold nextBindings at among
    rw [availableAt_nextInput mem repeats] at supplies
    split_ifs at among supplies with callable
    · obtain ⟨_, -, next⟩ := Except.bind_eq_ok.mp
        (validateFlowBoundaries_item callable repeats (flows flow mem))
      exact allSupplied_iff.mp (item_supplied mem repeats next supplies envelope) entry among
    have own := validateFlowBoundaries_routed (Bool.eq_false_iff.mpr callable) (flows flow mem)
    -- the next input keeps the flow's own bindings where the retry input names no other
    rcases mem_overridden among with ⟨name, input⟩ | ⟨name, next⟩
    · have inputs (f : String) (available : f ∈ graph.availableFlows plan flow.name) :
          Supplies plan records f :=
        supplies f (List.mem_append_left _ (mem_availableFlows_dominating available))
      exact allSupplied_iff.mp (h.boundary_supplied own.input inputs envelope) (name, entry.2) input
    · have nexts := h.boundary_supplied (own.next rep repeats) supplies envelope
      exact allSupplied_iff.mp nexts (name, entry.2) next
  | output => exact allSupplied_iff.mp (h.boundary_supplied output supplies envelope) entry bound

/-! ## The analysis -/

/-- The flows that dominate a routed flow are those on every route path to it. -/
theorem Accepts.mem_dominating (h : Accepts plan retryOf graph) {f name : String}
    (single : isRouted plan name = true) (dominates : f ∈ graph.dominating plan name) :
    ∀ path, RoutePath plan path name → f ∈ path := by
  obtain ⟨-, dominates⟩ := List.mem_filter.mp dominates
  have dominates := of_decide_eq_true dominates
  rw [h.analysed] at dominates
  exact fun path path_ => Dominators.solve_sound predecessors_closed h.entered
      (mem_routedNames.mpr single)
    dominates (routePath_iff.mp path_)

/-- The routes of a flow, by name. -/
abbrev Routes (plan : WorkflowPlan) (start goal : String) : Prop :=
  Digraph.Reaches (ofName plan routed) start goal

/-- The analysed successors of a flow are its routes. -/
theorem Accepts.successors_eq (h : Accepts plan retryOf graph) :
    (fun name => (graph.successors.lookup name).getD []) = ofName plan routed := by
  funext name
  rw [h.analysed]
  cases single : isRouted plan name with
  | true =>
    obtain ⟨flow, known, own⟩ := isRouted_spec single
    obtain rfl := WorkflowPlan.flow?_name known
    have mem := WorkflowPlan.flow?_mem known
    unfold graphOf
    rw [lookup_map (routedFlows_nodup plan) (mem_routedFlows.mpr ⟨mem, own⟩),
      ofName_of_mem routed mem]
    rfl
  | false =>
    have outside : name ∉ Dict.keys (graphOf plan retryOf).successors := by
      intro mem
      have named : name ∈ (routedFlows plan).map FlowPlan.name := by
        unfold Dict.keys graphOf at mem
        rwa [List.map_map] at mem
      rw [mem_routedNames.mp named] at single
      cases single
    rw [Dict.lookup_eq_none.mpr outside]
    unfold ofName
    cases known : plan.flow? name with
    | none => rfl
    | some flow =>
      have callable : flow.callable = true := by
        unfold isRouted at single
        rw [known] at single
        simpa using single
      obtain ⟨transition, reviews⟩ := flow.called callable
      show [] = routed flow
      unfold routed flowTargets flowTransitions flowReviews
      rw [transition, reviews]
      rfl

/-- The worklist decides whether a route path leads from a routed flow to another one. -/
theorem Accepts.leads_iff (h : Accepts plan retryOf graph) {start goal : String}
    (single : isRouted plan start = true) :
    graph.leads start goal = true ↔ Routes plan start goal := by
  have nodes : Dict.keys graph.successors = (routedFlows plan).map FlowPlan.name := by
    rw [h.analysed]
    exact (List.map_map ..)
  have closed : ∀ node ∈ Dict.keys graph.successors,
      ∀ other ∈ ofName plan routed node, other ∈ Dict.keys graph.successors := by
    intro node mem other edge
    rw [nodes] at mem ⊢
    obtain ⟨flow, known, -⟩ := isRouted_spec (mem_routedNames.mp mem)
    obtain rfl := WorkflowPlan.flow?_name known
    have mem := WorkflowPlan.flow?_mem known
    rw [ofName_of_mem routed mem] at edge
    exact mem_routedNames.mpr (h.target_routed mem edge)
  have inside : ∀ node ∈ [start], node ∈ Dict.keys graph.successors := by
    rw [nodes]
    exact List.forall_mem_singleton.mpr (mem_routedNames.mpr single)
  unfold Graph.leads
  rw [h.successors_eq, List.contains_iff_mem, Digraph.mem_reachable closed inside]
  exact ⟨fun ⟨_, mem, routes⟩ => List.mem_singleton.mp mem ▸ routes,
    fun routes => ⟨start, List.mem_singleton_self _, routes⟩⟩

/-- A review route of the flow leads on to another one. -/
def ReviewLeads (plan : WorkflowPlan) (f name : String) : Prop :=
  ∃ flow ∈ plan.flows, flow.name = f ∧
    ∃ target ∈ (flowReviews flow).filterMap TransitionTargetPlan.flow, Routes plan target name

/-- The flows that count as completed before a routed flow are the other flows on some route path to it
with no review route that leads there. -/
theorem Accepts.mem_completedBefore (h : Accepts plan retryOf graph) {f name : String}
    (single : isRouted plan name = true) : f ∈ completedBefore plan graph name ↔
      f ≠ name ∧ (∃ path, RoutePath plan path name ∧ f ∈ path) ∧ ¬ ReviewLeads plan f name := by
  have reviews {flow : FlowPlan} (mem : flow ∈ plan.flows) {target : String}
      (among : target ∈ (flowReviews flow).filterMap TransitionTargetPlan.flow) :
      (target == name || graph.leads target name) = true ↔ Routes plan target name := by
    obtain ⟨review, own, goes⟩ := List.mem_filterMap.mp among
    have routed_ := h.target_routed mem (mem_routed.mpr ⟨review, List.mem_append_right _ own, goes⟩)
    rw [Bool.or_eq_true, h.leads_iff routed_, beq_iff_eq, or_iff_right_iff_imp]
    rintro rfl
    exact .refl
  unfold completedBefore
  rw [List.mem_filter, h.mem_mayHaveRun single]
  constructor
  · rintro ⟨⟨path, path_, other, inside, ran⟩, given⟩
    obtain ⟨ne, given⟩ := Bool.and_eq_true_iff.mp given
    split at given
    case h_1 => cases given
    case h_2 flow known =>
      obtain ⟨own, none_⟩ := Bool.and_eq_true_iff.mp given
      have routed_ : isRouted plan f = true := by
        unfold isRouted
        rw [known]
        exact own
      -- a routed flow is no retry flow, so it ran as a stop of the path itself
      have on : f ∈ path := by
        rcases ran with rfl | retry
        · exact inside
        · exact absurd retry (h.retry_callable routed_)
      refine ⟨by simpa using ne, ⟨path, path_, on⟩, ?_⟩
      rintro ⟨other, mem, name, target, among, routes⟩
      obtain rfl : other = flow := by
        rw [← name, WorkflowPlan.flow?_of_mem mem] at known
        exact Option.some.inj known
      exact List.any_eq_false.mp (Bool.not_eq_true' _ |>.mp none_) target among
        ((reviews mem among).mpr routes)
  · rintro ⟨ne, ⟨path, path_, on⟩, none_⟩
    refine ⟨⟨path, path_, f, on, .inl rfl⟩, Bool.and_eq_true_iff.mpr ⟨by simpa using ne, ?_⟩⟩
    obtain ⟨flow, known, own⟩ := isRouted_spec (path_.routed h f on)
    have mem := WorkflowPlan.flow?_mem known
    rw [known]
    refine Bool.and_eq_true_iff.mpr ⟨by simpa using own, (Bool.not_eq_true' _).mpr ?_⟩
    refine List.any_eq_false.mpr fun target among leads => none_ ?_
    exact ⟨flow, mem, WorkflowPlan.flow?_name known, target, among, (reviews mem among).mp leads⟩

end Accepted

end Foliqant.Compiler

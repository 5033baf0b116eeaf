import Foliqant.Common.Fallible
import Foliqant.Decisions.ResultsSpec
import Foliqant.Decisions.StepContract

/-!
# What the engine gets from a decision

An accepted output has one fitting result for each question of the task, returned in the order of the
questions. The facts derived from it pass the checks of the engine, and with the returned value they
make a record that the public contract accepts.
-/

namespace Foliqant.Decisions

open Foliqant.Core JsonText

/-! ## Compiled steps and their tasks -/

/-- A checked value is the value. -/
theorem checked_eq_some {α : Type} {p : α → Prop} [DecidablePred p] {a : α} {b : { a // p a }} :
    checked p a = some b ↔ b.1 = a := by
  unfold checked
  constructor
  · intro h
    by_cases ha : p a
    · rw [dif_pos ha] at h
      rw [← Option.some.inj h]
    · rw [dif_neg ha] at h
      cases h
  · rintro rfl
    rw [dif_pos b.2]

/-- Letters and digits are no spaces. -/
theorem not_space_of_alphanumeric {c : Char} (h : isAlphanumeric c = true) :
    isWhitespace c = false ∧ isSpace c = false := by
  have range : 48 ≤ c.toNat ∧ c.toNat ≤ 122 := by
    simp only [isAlphanumeric, isUpper, isLower, isDigit, Bool.or_eq_true, Bool.and_eq_true,
      decide_eq_true_eq, Char.le_def, UInt32.le_iff_toNat_le] at h
    have value : c.val.toNat = c.toNat := rfl
    rw [value] at h
    have bounds : 'A'.val.toNat = 65 ∧ 'Z'.val.toNat = 90 ∧ 'a'.val.toNat = 97 ∧
        'z'.val.toNat = 122 ∧ '0'.val.toNat = 48 ∧ '9'.val.toNat = 57 := by decide
    omega
  constructor
  · simp only [isWhitespace, Bool.or_eq_false_iff, Bool.and_eq_false_iff, decide_eq_false_iff_not,
      List.contains_eq_mem, List.mem_cons, List.not_mem_nil, or_false]
    omega
  · simp only [isSpace, Bool.or_eq_false_iff, Bool.and_eq_false_iff, decide_eq_false_iff_not,
      List.contains_eq_mem, List.mem_cons, List.not_mem_nil, or_false]
    omega

/-- A category that the engine and the public contract accept. -/
structure CategoryValid (category : CategoryPlan) : Prop where
  written : category.id.toList.all isWhitespace = false
  spaced : category.id.toList.any (fun c => !isSpace c) = true
  nonempty : 1 ≤ category.id.length
  bounded : category.id.length ≤ 128
  described : category.description ≠ some ""

/-- An identifier whose first character is a letter or a digit is not blank. -/
theorem CategoryValid.of_first {category : CategoryPlan} {first : Char} {rest : List Char}
    (chars : category.id.toList = first :: rest) (alphanumeric : isAlphanumeric first = true)
    (bounded : category.id.length ≤ 128) (described : category.description ≠ some "") :
    CategoryValid category := by
  obtain ⟨written, spaced⟩ := not_space_of_alphanumeric alphanumeric
  refine ⟨?_, ?_, ?_, bounded, described⟩
  · rw [chars, List.all_cons, written, Bool.false_and]
  · rw [chars, List.any_cons, spaced, Bool.not_false, Bool.true_or]
  · rw [← String.length_toList, chars, List.length_cons]
    omega

/-- A category with an identifier is valid. -/
theorem CategoryValid.of_isId {category : CategoryPlan} (h : isId category.id = true)
    (described : category.description ≠ some "") : CategoryValid category := by
  unfold isId at h
  cases chars : category.id.toList with
  | nil =>
    rw [chars] at h
    cases h
  | cons first rest =>
    simp only [chars, Bool.and_eq_true, decide_eq_true_eq] at h
    refine .of_first chars h.1.1 ?_ described
    rw [← String.length_toList, chars, List.length_cons]
    omega

/-- A category with an item's identifier is valid. -/
theorem CategoryValid.of_isItemId {category : CategoryPlan} (h : isItemId category.id = true)
    (bounded : category.id.length ≤ 128) (described : category.description ≠ some "") :
    CategoryValid category := by
  unfold isItemId at h
  cases chars : category.id.toList with
  | nil =>
    rw [chars] at h
    cases h
  | cons first rest =>
    rw [chars, List.splitOn, List.splitOnP_cons_eq_if_modifyHead] at h
    refine .of_first chars ?_ bounded described
    by_cases separator : (first == '_') = true
    · rw [if_pos separator] at h
      cases h
    · rw [if_neg separator] at h
      cases parts : rest.splitOnP (· == '_') with
      | nil => exact absurd parts (List.splitOnP_ne_nil _ _)
      | cons part others =>
        simp only [parts, List.modifyHead_cons, Bool.and_eq_true] at h
        simp only [isAlphanumeric, h.1.1, Bool.or_true, Bool.true_or]

/-- What compilation promises about a decision step. -/
structure Compiled (step : DecisionStepPlan) : Prop where
  single : step.questionMode = .single → ∃ question, step.questions = [question]
  fallback : ∀ fallback ∈ step.fallback, CategoryValid fallback.category

/-- The compiled fallback is valid. -/
theorem FallbackPlan.compile_valid (fallback : DecisionFallback) :
    CategoryValid (FallbackPlan.compile fallback).category := by
  refine .of_isItemId fallback.id.2.1 fallback.id.2.2 ?_
  intro empty
  obtain ⟨description, -, blank⟩ := Option.map_eq_some_iff.mp empty
  have written := description.2
  rw [blank] at written
  cases written

/-- A compiled decision has valid categories. -/
theorem compileDecision_compiled {stepId : String} {authored : DecisionStepAuthoring}
    {step : DecisionStepPlan} (h : compileDecision stepId authored = .ok step) : Compiled step := by
  unfold compileDecision at h
  cases compiled : compileQuestions stepId authored with
  | none =>
    rw [compiled] at h
    cases h
  | some questions =>
    simp only [compiled] at h
    by_cases known : ∀ question ∈ questions, ∀ id ∈ question.allowedSourceIds,
        id.1 ∈ authored.sources.map Prod.fst
    · rw [if_pos known] at h
      cases h
      refine ⟨fun single => ?_, ?_⟩
      · unfold compileQuestions at compiled
        cases form : authored.questions with
        | question shorthand criteria =>
          simp only [form, Option.bind_eq_bind, Option.bind_eq_some_iff, Option.pure_def,
            Option.some.injEq] at compiled
          obtain ⟨kind, -, question, -, rfl⟩ := compiled
          exact ⟨question.plan, rfl⟩
        | questions _ _ _ =>
          simp only [form] at single
          cases single
      · intro fallback mem
        obtain ⟨written, -, rfl⟩ := Option.map_eq_some_iff.mp mem
        exact FallbackPlan.compile_valid written
    · rw [if_neg known] at h
      cases h

/-- A question of the task is the native form of a compiled one. -/
structure Native (plan : DecisionQuestionPlan) (question : Question) : Prop where
  id : question.id.1 = plan.id
  kind : plan.kind = some question.kind

/-- A question that is valid is the compiled one. -/
theorem native_of_eq_some {plan : DecisionQuestionPlan} {question : Question}
    (h : plan.native = some question) : Native plan question := by
  unfold DecisionQuestionPlan.native at h
  obtain ⟨kind, known, h⟩ := Option.bind_eq_some_iff.mp h
  unfold nativeQuestion at h
  simp only [Option.bind_eq_bind, Option.bind_eq_some_iff, Option.dite_none_right_eq_some,
    Option.some.injEq] at h
  obtain ⟨id, checkedId, prompt, -, criteria, -, sources, -, _, rfl⟩ := h
  exact ⟨checked_eq_some.mp checkedId, known⟩

/-- A task asks the compiled questions in their order. -/
theorem buildDecisionInput_questions {dumps : Json → Option String} {step : DecisionStepPlan}
    {sources : Object} {task : DecisionInput} (h : buildDecisionInput dumps step sources = .ok task) :
    List.Forall₂ Native step.questions task.questions := by
  unfold buildDecisionInput at h
  simp only at h
  split at h
  case isTrue => cases h
  case isFalse =>
    obtain ⟨texts, -, h⟩ := Except.bind_eq_ok.mp h
    cases built : nativeInput texts step.questions with
    | none =>
      rw [built] at h
      cases h
    | some native =>
      rw [built] at h
      cases h
      unfold nativeInput at built
      simp only [Option.bind_eq_bind, Option.bind_eq_some_iff, Option.dite_none_right_eq_some,
        Option.some.injEq] at built
      obtain ⟨_, -, questions, mapped, _, rfl⟩ := built
      exact (List.forall₂_of_mapM mapped).imp fun _ _ => native_of_eq_some

/-- A choice between the options of the plan. -/
theorem Native.choice {plan : DecisionQuestionPlan} {question : Question} (h : Native plan question)
    (type : plan.type = .choice) : ∃ options, question.kind = .choice options ∧
      List.Forall₂ (fun (option : DecisionOptionPlan) (native : DecisionOption) =>
        native.id.1 = option.id ∧ native.description.1 = option.description)
          plan.options options := by
  have known := h.kind
  unfold DecisionQuestionPlan.kind at known
  obtain ⟨options, mapped, known⟩ := Option.bind_eq_some_iff.mp known
  simp only [type, Option.some.injEq] at known
  refine ⟨options, known.symm, (List.forall₂_of_mapM mapped).imp fun option native made => ?_⟩
  unfold nativeOption at made
  simp only [Option.bind_eq_bind, Option.bind_eq_some_iff, Option.pure_def, Option.some.injEq] at made
  obtain ⟨id, checkedId, description, checkedDescription, rfl⟩ := made
  exact ⟨checked_eq_some.mp checkedId, checked_eq_some.mp checkedDescription⟩

/-! ## The order of the results -/

section Order

variable {task : DecisionInput} {results : List DecisionResult}

/-- An accepted output answers the questions it is asked, in any order. -/
theorem inQuestionOrder_ids (accepted : Accepted task (results.map Subtype.val)) :
    (inQuestionOrder task results).map (fun item => item.1.questionId) =
      task.questions.map Question.id := by
  have answered : ∀ question ∈ task.questions, ∃ item ∈ results, item.1.questionId = question.id := by
    intro question asked
    have answered := accepted.complete.symm.subset (List.mem_map_of_mem asked)
    obtain ⟨fields, read, same⟩ := List.mem_map.mp answered
    obtain ⟨item, mem, rfl⟩ := List.mem_map.mp read
    exact ⟨item, mem, same⟩
  unfold inQuestionOrder
  generalize task.questions = questions at answered
  induction questions with
  | nil => rfl
  | cons question rest ih =>
    obtain ⟨item, mem, same⟩ := answered question List.mem_cons_self
    obtain ⟨found, first⟩ : ∃ found,
        (results.find? fun item => item.1.questionId = question.id) = some found := by
      rw [← Option.isSome_iff_exists, List.find?_isSome]
      exact ⟨item, mem, by simp [same]⟩
    have asked : found.1.questionId = question.id := by simpa using List.find?_some first
    simp only [List.filterMap_cons, first, List.map_cons, asked]
    rw [ih fun other mem => answered other (List.mem_cons_of_mem _ mem)]

/-- Ordering adds no result. -/
theorem mem_of_mem_inQuestionOrder {item : DecisionResult} (h : item ∈ inQuestionOrder task results) :
    item ∈ results := by
  obtain ⟨question, -, found⟩ := List.mem_filterMap.mp h
  exact List.mem_of_find?_eq_some found

/-- Ordering keeps every accepted result. -/
theorem inQuestionOrder_perm (accepted : Accepted task (results.map Subtype.val)) :
    (inQuestionOrder task results).Perm results := by
  have ids := inQuestionOrder_ids accepted
  have nodup : (inQuestionOrder task results).Nodup := by
    refine List.Nodup.of_map (fun item => item.1.questionId) ?_
    rw [ids]
    exact task.questions_valid.2.2
  refine (List.subperm_of_subset nodup fun _ => mem_of_mem_inQuestionOrder).perm_of_length_le ?_
  have counted := accepted.complete.length_eq
  have ordered := congrArg List.length ids
  simp only [List.length_map] at counted ordered
  omega

end Order

/-! ## Decisions -/

/-- The facts of accepted results in the order of the questions. -/
structure Decided (step : DecisionStepPlan) (results : List DecisionResult)
    (decision : ValidatedDecision) : Prop where
  depth : depth decision.value ≤ MAX_JSON_DEPTH
  answerable : decision.answerable = true ↔
    results ≠ [] ∧ ∀ item ∈ results, item.1.answerability.status = .answerable
  issues : decision.unresolvedIssues = unresolvedIssues results
  single : step.questionMode = .single → ∃ item, results = [item] ∧
    decision.value = resultCodec.encode item ∧
    decision.selection = if step.singleChoice then
      selectionOf step item decision.answerable
        (if decision.answerable then answerKey item.1.answer else none) decision.unresolvedIssues
      else none
  multiple : step.questionMode = .multiple →
    decision.value = .obj [("results", .arr (results.map resultCodec.encode))] ∧
      decision.selection = none

/-- Every question was answered, and there is one. -/
theorem allAnswerable_iff {results : List DecisionResult} :
    (!results.isEmpty && results.all fun item => decide (item.1.answerability.status = .answerable)) =
        true ↔
      results ≠ [] ∧ ∀ item ∈ results, item.1.answerability.status = .answerable := by
  simp only [Bool.and_eq_true, Bool.not_eq_true', List.isEmpty_eq_false_iff, List.all_eq_true,
    decide_eq_true_iff]

/-- A decision comes from an output with accepted results. -/
theorem validateDecisionResult_decided {step : DecisionStepPlan} {task : DecisionInput}
    {raw : RawOutput} {decision : ValidatedDecision}
    (h : validateDecisionResult step task raw = .ok decision) :
    ∃ output, validateOutput raw = .ok output ∧ Accepted task (output.1.map Subtype.val) ∧
      Decided step (inQuestionOrder task output.1) decision := by
  unfold validateDecisionResult at h
  obtain ⟨output, read, h⟩ := Except.bind_eq_ok.mp h
  refine ⟨output, read, ?_⟩
  by_cases problems : validateDecisionOutput task (output.1.map Subtype.val) = []
  · simp only [problems, ne_eq, not_true_eq_false, if_false] at h
    refine ⟨validateDecisionOutput_eq_nil.mp problems, ?_⟩
    generalize inQuestionOrder task output.1 = results at *
    cases mode : step.questionMode with
    | single =>
      simp only [mode] at h
      cases results with
      | nil => cases h
      | cons item rest =>
        cases rest with
        | cons => cases h
        | nil =>
          simp only at h
          split at h
          case isTrue => cases h
          case isFalse shallow =>
            cases h
            exact ⟨not_lt.mp shallow, @allAnswerable_iff [item], rfl,
              fun _ => ⟨item, rfl, rfl, rfl⟩, fun other => absurd (mode.symm.trans other) (by decide)⟩
    | multiple =>
      simp only [mode] at h
      split at h
      case isTrue => cases h
      case isFalse shallow =>
        cases h
        exact ⟨not_lt.mp shallow, @allAnswerable_iff results, rfl,
          fun other => absurd (mode.symm.trans other) (by decide), fun _ => ⟨rfl, rfl⟩⟩
  · simp only [problems, ne_eq, not_false_eq_true, if_true] at h
    cases h

/-- The category a decision selects, by the answer to its question. -/
inductive Selects (item : ResultFields) : Bool → Option Selection → Prop
  | model {id : Id} {category : CategoryPlan} (answer : item.answer = .choice (some id))
      (status : item.answerability.status = .answerable) (chosen : category.id = id.1)
      (valid : CategoryValid category) : Selects item true (some ⟨category, .model⟩)
  | fallback {category : CategoryPlan} (answer : item.answer = .choice none)
      (status : item.answerability.status = .notAnswerable)
      (issues : item.answerability.issues.1 ≠ [])
      (valid : CategoryValid category) : Selects item false (some ⟨category, .fallback⟩)
  | unanswered : Selects item false none

section Selection

variable {step : DecisionStepPlan} {task : DecisionInput} {item : DecisionResult}

/-- The chosen option is an option of the plan. -/
theorem chosen_option {plan : DecisionQuestionPlan} {options : List DecisionOption} {id : Id}
    (native : List.Forall₂ (fun (option : DecisionOptionPlan) (native : DecisionOption) =>
      native.id.1 = option.id ∧ native.description.1 = option.description) plan.options options)
    (declared : id ∈ options.map DecisionOption.id) :
    ∃ option, (plan.options.find? fun option => some option.id = some id.1) = some option ∧
      option.id = id.1 ∧ CategoryValid ⟨option.id, some option.description⟩ := by
  obtain ⟨chosen, mem, same⟩ := List.mem_map.mp declared
  obtain ⟨option, known, sameId, -⟩ := native.exists_of_mem_right mem
  obtain ⟨found, first⟩ : ∃ found,
      (plan.options.find? fun option => some option.id = some id.1) = some found := by
    rw [← Option.isSome_iff_exists, List.find?_isSome]
    refine ⟨option, known, decide_eq_true ?_⟩
    rw [← sameId, same]
  have foundId : found.id = id.1 := by simpa using List.find?_some first
  obtain ⟨native, -, nativeId, nativeDescription⟩ :=
    native.exists_of_mem_left (List.mem_of_find?_eq_some first)
  refine ⟨found, first, foundId, .of_isId ?_ ?_⟩
  · rw [← nativeId]
    exact native.id.2
  · intro empty
    rw [← nativeDescription] at empty
    exact native.description.2 (Option.some.inj empty)

/-- An answered choice selects its option, an unanswered one the fallback or nothing. -/
theorem selectionOf_selects (compiled : Compiled step) (choice : step.singleChoice = true)
    (asked : List.Forall₂ Native step.questions task.questions)
    (fits : ∃ question ∈ task.questions, ResultFits task question item.1) {answerable : Bool}
    (status : answerable = true ↔ item.1.answerability.status = .answerable)
    {issues : List DecisionIssue} :
    Selects item.1 answerable (selectionOf step item answerable
      (if answerable then answerKey item.1.answer else none) issues) := by
  obtain ⟨single, type⟩ := (Bool.and_eq_true _ _).mp choice
  -- a single choice has one question, and the only answer is the answer to it
  obtain ⟨plan, questions⟩ := compiled.single (of_decide_eq_true single)
  rw [questions] at asked type
  obtain ⟨question, rest, native, others, same⟩ := List.forall₂_cons_left_iff.mp asked
  cases others
  obtain ⟨options, kind, optionsNative⟩ := native.choice (by simpa using type)
  obtain ⟨other, mem, fits⟩ := fits
  rw [same, List.mem_singleton] at mem
  obtain rfl := mem
  have answer := fits.answer
  rw [kind] at answer
  cases given : item.1.answer with
  | choice chosen =>
    rw [given] at answer
    have substance := fits.consistent.substance
    rw [given] at substance
    cases answer with
    | choice declared =>
      cases answerable with
      | true =>
        have status := status.mp rfl
        obtain ⟨id, rfl⟩ := Option.isSome_iff_exists.mp (substance.mpr (.inl status))
        obtain ⟨option, found, sameId, valid⟩ := chosen_option optionsNative (declared id rfl)
        have selected : selectionOf step item true (answerKey (.choice (some id))) issues =
            some ⟨⟨option.id, some option.description⟩, .model⟩ := by
          simp only [selectionOf, questions, answerKey, List.head?_cons, Option.bind_some,
            Option.map_some, if_true]
          exact congrArg (Option.map _) found
        rw [if_pos rfl, selected]
        exact .model given status sameId valid
      | false =>
        unfold selectionOf
        simp only [Bool.false_eq_true, if_false]
        cases covered : step.fallback with
        | none => exact .unanswered
        | some fallback =>
          simp only
          split
          case isFalse => exact .unanswered
          case isTrue applies =>
            have unexplained : item.1.answerability.status ≠ .answerable := by
              rw [applies.1]
              decide
            -- the fallback replaces no answer: a result with the issue of the fallback has none
            have absent : chosen = none := by
              cases chosen with
              | none => rfl
              | some id =>
                have := substance.mp rfl
                rw [applies.1] at this
                simp at this
            rw [absent] at given
            exact .fallback given applies.1 (fits.consistent.explained unexplained)
              (compiled.fallback fallback covered)
  | _ =>
    rw [given] at answer
    cases answer

/-- A chosen option brings its description. -/
theorem selectionOf_describes {key : Option String} {issues : List DecisionIssue}
    {selection : Selection} (h : selectionOf step item true key issues = some selection) :
    selection.category.description.isSome = true := by
  unfold selectionOf at h
  rw [if_pos rfl] at h
  obtain ⟨option, -, rfl⟩ := Option.map_eq_some_iff.mp h
  rfl

variable {results : List DecisionResult} {decision : ValidatedDecision}

/-- An answered decision selects a category with its description, or none. -/
theorem Decided.describes (decided : Decided step results decision)
    (answered : decision.answerable = true) {selection : Selection}
    (selected : decision.selection = some selection) :
    selection.category.description.isSome = true := by
  cases mode : step.questionMode with
  | single =>
    obtain ⟨item, -, -, selects⟩ := decided.single mode
    rw [selected, answered] at selects
    split at selects
    · exact selectionOf_describes selects.symm
    · cases selects
  | multiple =>
    rw [(decided.multiple mode).2] at selected
    cases selected

/-- The selection of a decision. -/
inductive DecisionSelects (step : DecisionStepPlan) (results : List DecisionResult)
    (decision : ValidatedDecision) : Prop
  | choice {item : DecisionResult} (choice : step.singleChoice = true) (only : results = [item])
      (value : decision.value = resultCodec.encode item)
      (selects : Selects item.1 decision.answerable decision.selection)
  | without (other : step.singleChoice = false) (selection : decision.selection = none)

/-- A decision selects as its step says. -/
theorem Decided.selects (decided : Decided step results decision) (compiled : Compiled step)
    (asked : List.Forall₂ Native step.questions task.questions)
    (fits : ∀ item ∈ results, ∃ question ∈ task.questions, ResultFits task question item.1) :
    DecisionSelects step results decision := by
  cases mode : step.questionMode with
  | single =>
    obtain ⟨item, rfl, value, selection⟩ := decided.single mode
    cases choice : step.singleChoice with
    | true =>
      rw [if_pos choice] at selection
      refine .choice choice rfl value ?_
      rw [selection]
      refine selectionOf_selects compiled choice asked (fits item (List.mem_singleton_self _)) ?_
      rw [decided.answerable]
      simp
    | false =>
      rw [if_neg (by rw [choice]; exact Bool.false_ne_true)] at selection
      exact .without choice selection
  | multiple =>
    refine .without ?_ (decided.multiple mode).2
    rw [DecisionStepPlan.singleChoice, mode]
    rfl

/-- No issue is listed twice. -/
theorem nodup_unresolvedIssues (results : List DecisionResult) :
    (unresolvedIssues results).Nodup := by
  unfold unresolvedIssues
  simp only
  split
  · exact List.nodup_reverse.mpr (List.nodup_dedup _)
  · exact List.nodup_nil

/-- An answerable decision leaves no issue. -/
theorem Decided.issues_of_answerable (decided : Decided step results decision)
    (answerable : decision.answerable = true) : decision.unresolvedIssues = [] := by
  have none_open : results.filter (fun item => decide (item.1.answerability.status ≠ .answerable)) =
      [] := by
    rw [List.filter_eq_nil_iff]
    intro item mem
    simp [(decided.answerable.mp answerable).2 item mem]
  rw [decided.issues, unresolvedIssues]
  simp only [none_open, List.all_nil, if_true]
  rfl

/-- The engine accepts the facts of a decision. -/
theorem Decided.validateOutcome (decided : Decided step results decision)
    (selects : DecisionSelects step results decision) (sources : Bindings) :
    Core.validateOutcome decision.outcome (.decision sources) = true := by
  have nodup : decision.outcome.unresolvedIssues.Nodup := by
    show decision.unresolvedIssues.Nodup
    rw [decided.issues]
    exact nodup_unresolvedIssues results
  have reviewed : (decision.unresolvedIssues.isEmpty || !decision.answerable) = true := by
    cases answerable : decision.answerable with
    | false => exact Bool.or_true _
    | true => rw [decided.issues_of_answerable answerable]; rfl
  have accepted : ∀ {category : CategoryPlan} {origin : SelectionOrigin}, CategoryValid category →
      (!decision.answerable) = (origin == .fallback) →
      selectionAccepted decision.outcome (.decision sources) ⟨category, origin⟩ = true := by
    intro category origin valid same
    simp only [selectionAccepted, valid.written, valid.bounded, ValidatedDecision.outcome, same,
      bne_iff_ne.mpr valid.described, Bool.not_false, Bool.and_true, decide_true, beq_self_eq_true]
  have selection : decision.outcome.selection = decision.selection := rfl
  unfold Core.validateOutcome
  rw [Bool.and_eq_true, Bool.and_eq_true, selection]
  refine ⟨⟨decide_eq_true nodup, reviewed⟩, ?_⟩
  cases selects with
  | without _ absent => rw [absent]
  | choice _ _ _ selects =>
    cases selected : decision.selection with
    | none => rfl
    | some selection =>
      rw [selected] at selects
      cases answerable : decision.answerable with
      | true =>
        rw [answerable] at selects
        cases selects with
        | model _ _ _ valid => exact accepted valid (by rw [answerable]; rfl)
      | false =>
        rw [answerable] at selects
        cases selects with
        | fallback _ _ _ valid => exact accepted valid (by rw [answerable]; rfl)

/-- The engine accepts the outcome of a decision with its value. -/
theorem Decided.acceptOutcome (decided : Decided step results decision)
    (selects : DecisionSelects step results decision) (sources : Bindings) :
    Core.acceptOutcome (.returned decision.outcome) (.decision sources) =
      .ok (decision.outcome, decision.value) := by
  have result : decision.outcome.result = some decision.value := rfl
  simp only [Core.acceptOutcome, decided.validateOutcome selects sources, result, decided.depth,
    Bool.not_true, Bool.false_eq_true, if_false, if_true]

/-! ## The public record -/

/-- A valid category passes the check of a selection. -/
theorem CategoryValid.selected {category : CategoryPlan} (h : CategoryValid category) :
    selectedCategoryValid category = true := by
  simp [selectedCategoryValid, h.nonempty, h.bounded, h.spaced, h.described]

/-- The record of a decision step. -/
def decisionRecord (decision : ValidatedDecision) (elapsedSeconds : ℚ) (usage : Usage) :
    StepRecord where
  status := if decision.outcome.needsReview then .needsReview else .completed
  result := some decision.value
  elapsedSeconds := some elapsedSeconds
  usage := some usage
  selection := decision.outcome.selection

/-- A written result with the members that the public contract reads. -/
theorem resultCodec_encode (item : DecisionResult) : ∃ members answerability,
    resultCodec.encode item = .obj members ∧
      members.lookup "type" = some (.str item.1.answer.type.value) ∧
      members.lookup "answer" = some item.1.answer.encode ∧
      members.lookup "answerability" = some (.obj answerability) ∧
      answerability.lookup "status" = some (.str item.1.answerability.status.value) ∧
      answerability.lookup "issues" =
        some (.arr (item.1.answerability.issues.1.map issueCodec.encode)) :=
  ⟨_, _, rfl, rfl, rfl, rfl, rfl, rfl⟩

/-- A choice is written as one. -/
theorem isChoiceResult_encode {item : DecisionResult} {chosen : Option Id}
    (answer : item.1.answer = .choice chosen) : isChoiceResult (resultCodec.encode item) = true := by
  rw [isChoiceResult, resultCodec.roundtrip, Option.map_some, Option.getD_some, answer]
  rfl

/-- A selection agrees with the native result it comes from. -/
theorem Selects.agrees {answerable : Bool} {selection : Selection}
    (h : Selects item.1 answerable (some selection)) {members : Object}
    (value : resultCodec.encode item = .obj members) : choiceAgrees members selection = true := by
  obtain ⟨written, answerability, same, -, answered, assessed, reported, listed⟩ :=
    resultCodec_encode item
  obtain rfl : members = written := by
    rw [value] at same
    exact Value.obj.inj same
  cases h with
  | @model id category answer status chosen valid =>
    have option : (Answer.choice (some id)).encode = .obj [("optionId", .str id.1)] := rfl
    rw [answer, option] at answered
    rw [status] at reported
    rw [choiceAgrees, ← value, isChoiceResult_encode answer]
    simp [answered, assessed, reported, hasText, chosen, AnswerabilityStatus.value]
  | @fallback category answer status issues valid =>
    have absent : (Answer.choice none).encode = .null := rfl
    rw [answer, absent] at answered
    rw [status] at reported
    rw [choiceAgrees, ← value, isChoiceResult_encode answer]
    simp [answered, assessed, reported, listed, hasText, issues, AnswerabilityStatus.value]

/-- The recorded selection agrees with the decision. -/
theorem DecisionSelects.selectionAgrees (selects : DecisionSelects step results decision)
    (elapsedSeconds : ℚ) (usage : Usage) : (StepResult.ofRecord
      (decisionRecord decision elapsedSeconds usage)).selectionAgrees = true := by
  cases selects with
  | without _ absent =>
    simp [StepResult.selectionAgrees, StepResult.ofRecord, decisionRecord, ValidatedDecision.outcome,
      absent]
  | @choice item _ _ value selects =>
    cases selected : decision.selection with
    | none =>
      simp [StepResult.selectionAgrees, StepResult.ofRecord, decisionRecord,
        ValidatedDecision.outcome, selected]
    | some selection =>
      rw [selected] at selects
      obtain ⟨members, _, written, -⟩ := resultCodec_encode item
      have agrees := selects.agrees written
      have status : selectedCategoryValid selection.category = true ∧
          (if (!decision.answerable) = true then Status.needsReview else .completed) =
            if selection.origin = .model then .completed else .needsReview := by
        cases answerable : decision.answerable with
        | true =>
          rw [answerable] at selects
          cases selects with
          | model _ _ _ valid => exact ⟨valid.selected, rfl⟩
        | false =>
          rw [answerable] at selects
          cases selects with
          | fallback _ _ _ valid => exact ⟨valid.selected, rfl⟩
      simp only [StepResult.selectionAgrees, StepResult.ofRecord, decisionRecord,
        ValidatedDecision.outcome, selected, Option.map_some, Option.isSome_some,
          value, written, agrees,
        status.1, status.2, beq_self_eq_true, Bool.and_self, ite_self]

/-- The public contract accepts the record of a decision. -/
theorem DecisionSelects.stepResult_valid (selects : DecisionSelects step results decision)
    {elapsedSeconds : ℚ} (measured : 0 ≤ elapsedSeconds) (usage : Usage)
    (ledgerValid : Json → Bool) :
    (StepResult.ofRecord (decisionRecord decision elapsedSeconds usage)).valid ledgerValid =
    true := by
  have status : (StepResult.ofRecord (decisionRecord decision elapsedSeconds usage)).statusAgrees =
      true := by
    cases answerable : decision.answerable <;>
      simp [StepResult.statusAgrees, StepResult.ofRecord, decisionRecord, ValidatedDecision.outcome,
        answerable]
  rw [StepResult.valid, status, selects.selectionAgrees]
  simp [StepResult.ofRecord, decisionRecord, measured, notNull, StepResult.ledgerAgrees]

/-- The engine records a decision as its facts with its measurements. -/
theorem complete_decision (stepId : Option String) (name : String) (decision : ValidatedDecision)
    (ended : ℚ) (l : FlowLocals) :
    (FlowLocals.complete stepId name decision.outcome decision.value ended l).records.lookup name =
      some (decisionRecord decision (ended - l.stepStarted) l.stepUsage) :=
  Dict.lookup_set_self _ _ _

end Selection

/-- An accepted output has one fitting result for each question; the decision returns them in the order
of the questions, the engine accepts its facts, and the public contract accepts its record. -/
theorem decision_acceptance {dumps : Json → Option String} {stepId : String}
    {authored : DecisionStepAuthoring} {step : DecisionStepPlan} {sources : Object}
    {task : DecisionInput} {raw : RawOutput} {decision : ValidatedDecision}
    (compiled : compileDecision stepId authored = .ok step)
    (built : buildDecisionInput dumps step sources = .ok task)
    (accepted : validateDecisionResult step task raw = .ok decision) :
    ∃ (output : DecisionOutput) (results : List DecisionResult),
      validateOutput raw = .ok output ∧ Accepted task (output.1.map Subtype.val) ∧
      results.Perm output.1 ∧
      results.map (fun item => item.1.questionId) = task.questions.map Question.id ∧
      (step.questionMode = .single → ∃ item, results = [item] ∧
        decision.value = resultCodec.encode item) ∧
      (step.questionMode = .multiple →
        decision.value = .obj [("results", .arr (results.map resultCodec.encode))]) ∧
      (∀ bindings, acceptOutcome (.returned decision.outcome) (.decision bindings) =
        .ok (decision.outcome, decision.value)) ∧
      ∀ stepId name ended l ledgerValid, l.stepStarted ≤ ended → ∃ record,
        (FlowLocals.complete stepId name decision.outcome decision.value ended
          l).records.lookup name =
          some record ∧ (StepResult.ofRecord record).valid ledgerValid = true := by
  obtain ⟨output, read, fits, decided⟩ := validateDecisionResult_decided accepted
  have selects := decided.selects (compileDecision_compiled compiled)
      (buildDecisionInput_questions built) (by
    intro item mem
    exact fits.fits item.1 (List.mem_map_of_mem (mem_of_mem_inQuestionOrder mem)))
  refine ⟨output, inQuestionOrder task output.1, read, fits, inQuestionOrder_perm fits,
    inQuestionOrder_ids fits, fun single => ?_, fun multiple => (decided.multiple multiple).1,
    decided.acceptOutcome selects, fun stepId name ended l ledgerValid measured => ?_⟩
  · obtain ⟨item, only, value, -⟩ := decided.single single
    exact ⟨item, only, value⟩
  · exact ⟨_, complete_decision stepId name decision ended l,
      selects.stepResult_valid (sub_nonneg.mpr measured) _ ledgerValid⟩

/-! ## A routed message -/

/-- Two categories. -/
def exampleCatalog : CategoryCatalog :=
  ⟨[⟨⟨"billing", by decide +kernel⟩, ⟨"Invoices and payments", by decide +kernel⟩⟩,
    ⟨⟨"support", by decide +kernel⟩, ⟨"Technical questions", by decide +kernel⟩⟩], by decide +kernel⟩

/-- Route a message to a category, or to a manual one. -/
def exampleAuthoring : DecisionStepAuthoring where
  sources := [("message", .pointer "/payload/message" none, .text)]
  questions := .question (.choice exampleCatalog) [⟨"Pick one", by decide +kernel⟩]
  instructions := ⟨"Route the message", by decide +kernel⟩
  fallback := some {
    id := ⟨"manual", by decide +kernel⟩
    description := none
    on := ⟨⟨[.noSupportedAnswer], by decide⟩, by decide⟩ }
  fallback_admitted := by
    rintro authored ⟨⟩
    decide +kernel

/-- The model finds no category. -/
def exampleOutput : RawOutput := .untyped (some (.obj [("results", .arr [.obj [
  ("questionId", .str "route"), ("type", .str "choice"), ("reason", .str "It says nothing."),
  ("answerability", .obj [("status", .str "not_answerable"),
    ("issues", .arr [.str "no_supported_answer"])]),
  ("evidence_strength", .null), ("answer", .null)]])]))

/-- The text to decide on. -/
def exampleSources : Object := [("message", .str "Hello")]

/-- The message goes to the manual category. -/
def exampleRouted : Bool :=
  match compileDecision "route" exampleAuthoring with
  | .error _ => false
  | .ok step =>
      match buildDecisionInput (fun _ => none) step exampleSources with
      | .error _ => false
      | .ok task =>
          match validateDecisionResult step task exampleOutput with
          | .error _ => false
          | .ok decision => decide (decision.selection = some ⟨⟨"manual", none⟩, .fallback⟩)

/-- The decision goes through all its stages. -/
theorem exampleRouted_steps : ∃ step task decision,
    compileDecision "route" exampleAuthoring = .ok step ∧
      buildDecisionInput (fun _ => none) step exampleSources = .ok task ∧
      validateDecisionResult step task exampleOutput = .ok decision ∧
      decision.selection = some ⟨⟨"manual", none⟩, .fallback⟩ := by
  have routed : exampleRouted = true := by decide +kernel
  unfold exampleRouted at routed
  cases compiled : compileDecision "route" exampleAuthoring with
  | error error =>
    rw [compiled] at routed
    cases routed
  | ok step =>
    simp only [compiled] at routed
    cases built : buildDecisionInput (fun _ => none) step exampleSources with
    | error error =>
      rw [built] at routed
      cases routed
    | ok task =>
      simp only [built] at routed
      cases accepted : validateDecisionResult step task exampleOutput with
      | error error =>
        rw [accepted] at routed
        cases routed
      | ok decision =>
        rw [accepted] at routed
        exact ⟨step, task, decision, rfl, built, accepted, of_decide_eq_true routed⟩

/-- The decision is accepted with its fallback. -/
theorem decision_acceptance_routed : ∃ step task decision,
    decision.selection = some ⟨⟨"manual", none⟩, .fallback⟩ ∧
      validateDecisionResult step task exampleOutput = .ok decision ∧
      ∃ (output : DecisionOutput) (results : List DecisionResult),
        validateOutput exampleOutput = .ok output ∧ Accepted task (output.1.map Subtype.val) ∧
        results.Perm output.1 ∧
        results.map (fun item => item.1.questionId) = task.questions.map Question.id := by
  obtain ⟨step, task, decision, compiled, built, accepted, selection⟩ := exampleRouted_steps
  obtain ⟨output, results, read, fits, perm, ids, -⟩ := decision_acceptance compiled built accepted
  exact ⟨step, task, decision, selection, accepted, output, results, read, fits, perm, ids⟩

end Foliqant.Decisions

import Foliqant.Decisions.ContractsSpec
import Foliqant.Decisions.Results

/-!
# What decision acceptance means

The results of a task are accepted exactly when every question has one result, of its type, whose
answer agrees with its answerability and keeps to what the question and the sources allow.
-/

namespace Foliqant.Decisions

open Foliqant.Core

/-- A requested item of the catalog, about a part of an allowed source. -/
structure UnitFits (task : DecisionInput) (question : Question) (catalog : List DecisionOption)
    (allowNoMatch : Bool) (unit : RequestUnit) : Prop where
  noMatch : unit.categoryId = none → allowNoMatch = true
  category : ∀ category ∈ unit.categoryId, category ∈ catalog.map DecisionOption.id
  subject : ∀ subject ∈ unit.subject, ∃ source ∈ task.sources,
    source.id ∈ question.allowedSourceIds ∧ subject.1.toList <:+: source.text.1.toList

/-- The requested items of an answer with their relations. -/
structure UnitsFit (task : DecisionInput) (question : Question) (catalog : List DecisionOption)
    (allowNoMatch : Bool) (answerability : Answerability) (answer : RequestUnitsAnswer) : Prop where
  nonempty : answerability.status = .partiallyAnswerable → answer.units.1 ≠ []
  explained : ∀ unit ∈ answer.units.1, unit.categoryId = none →
    .noSupportedAnswer ∈ answerability.issues.1
  distinct : (answer.units.1.map RequestUnit.id).Nodup
  units : ∀ unit ∈ answer.units.1, UnitFits task question catalog allowNoMatch unit
  relations : RelationsFit (answer.units.1.map RequestUnit.id) (predicateIds task) answer.relations.1

/-- An answer of the type of the question that keeps to its options and cardinalities. -/
inductive AnswerFits (task : DecisionInput) (question : Question) (answerability : Answerability) :
    QuestionKind → Answer → Prop
  | choice {options : List DecisionOption} {answer : Option Id}
      (declared : ∀ option ∈ answer, option ∈ options.map DecisionOption.id) :
      AnswerFits task question answerability (.choice options) (.choice answer)
  | multiselect {options : List DecisionOption} {minSelections maxSelections : ℕ}
      {answer : Option (UniqueList Id 1024)}
      (declared : ∀ selected ∈ answer, ∀ option ∈ selected.1, option ∈ options.map DecisionOption.id)
      (nonempty : ∀ selected ∈ answer, answerability.status = .partiallyAnswerable → selected.1 ≠ [])
      (cardinality : ∀ selected ∈ answer,
        minSelections ≤ selected.1.length ∧ selected.1.length ≤ maxSelections) :
      AnswerFits task question answerability (.multiselect options minSelections maxSelections)
        (.multiselect answer)
  | predicate {value : PredicateValue} :
      AnswerFits task question answerability .predicate (.predicate value)
  | ordinal {levels : List DecisionOption} {answer : Option Id}
      (declared : ∀ level ∈ answer, level ∈ levels.map DecisionOption.id) :
      AnswerFits task question answerability (.ordinal levels) (.ordinal answer)
  | requestUnits {catalog : List DecisionOption} {allowNoMatch : Bool}
      {answer : Option RequestUnitsAnswer} (fits : ∀ units ∈ answer,
        UnitsFit task question catalog allowNoMatch answerability units) :
      AnswerFits task question answerability (.requestUnits catalog allowNoMatch)
        (.requestUnits answer)

/-- The result of a question. -/
structure ResultFits (task : DecisionInput) (question : Question) (item : ResultFields) : Prop where
  asked : item.questionId = question.id
  consistent : Consistent item.answerability item.answer
  answer : AnswerFits task question item.answerability question.kind item.answer

/-- Every question has exactly one result, and it fits the question. -/
structure Accepted (task : DecisionInput) (results : List ResultFields) : Prop where
  complete : (results.map ResultFields.questionId).Perm (task.questions.map Question.id)
  fits : ∀ item ∈ results, ∃ question ∈ task.questions, ResultFits task question item

/-! ## Answers -/

section Answers

variable {task : DecisionInput} {question : Question} {place : String}

/-- A subject that stands in one of the sources. -/
theorem subjectInSource_iff {subject : NonEmptyStr} :
    subjectInSource task question subject = true ↔ ∃ source ∈ task.sources,
      source.id ∈ question.allowedSourceIds ∧ subject.1.toList <:+: source.text.1.toList := by
  unfold subjectInSource
  rw [List.any_eq_true]
  constructor
  · rintro ⟨id, allowed, quoted⟩
    cases found : task.sources.find? fun source => source.id = id with
    | none =>
      rw [found] at quoted
      cases quoted
    | some source =>
      rw [found] at quoted
      have same : source.id = id := by simpa using List.find?_some found
      refine ⟨source, List.mem_of_find?_eq_some found, ?_, of_decide_eq_true quoted⟩
      rw [same]
      exact allowed
  · rintro ⟨source, known, allowed, quoted⟩
    refine ⟨source.id, allowed, ?_⟩
    rw [Dict.find?_key task.sources_valid.2.2 known]
    exact decide_eq_true quoted

/-- Requests that fit their question. -/
theorem unitProblems_eq_nil {catalog : List DecisionOption}
    {allowNoMatch : Bool} {unit : RequestUnit} :
    unitProblems task question catalog allowNoMatch place unit = [] ↔
      UnitFits task question catalog allowNoMatch unit := by
  have quoted : (unit.subject.any fun subject => !subjectInSource task question subject) = false ↔
      ∀ subject ∈ unit.subject, subjectInSource task question subject = true := by
    cases unit.subject <;> simp
  have declared : (unit.categoryId.any fun category =>
      decide (category ∉ catalog.map DecisionOption.id)) = false ↔
      ∀ category ∈ unit.categoryId, category ∈ catalog.map DecisionOption.id := by
    cases unit.categoryId <;> simp
  have noMatch : (unit.categoryId.isNone && !allowNoMatch) = false ↔
      (unit.categoryId = none → allowNoMatch = true) := by
    cases unit.categoryId <;> simp
  rw [unitProblems, problemsOf_cons, problemsOf_cons, problemsOf_cons, noMatch, declared, quoted]
  constructor
  · rintro ⟨noMatch, category, subject, -⟩
    exact ⟨noMatch, category, fun s h => subjectInSource_iff.mp (subject s h)⟩
  · intro fits
    exact ⟨fits.noMatch, fits.category, fun s h => subjectInSource_iff.mpr (fits.subject s h), rfl⟩

/-- Every selected option is one of the question. -/
theorem not_any_notMem {options : List DecisionOption} {selected : List Id} :
    (selected.any fun option => decide (option ∉ options.map DecisionOption.id)) = false ↔
      ∀ option ∈ selected, option ∈ options.map DecisionOption.id := by
  simp only [List.any_eq_false, decide_eq_true_iff, not_not]

/-- Answers about requests that fit their question. -/
theorem unitsProblems_eq_nil {catalog : List DecisionOption} {allowNoMatch : Bool}
    {answerability : Answerability} {answer : RequestUnitsAnswer}
    (kind : question.kind = .requestUnits catalog allowNoMatch) :
    answerProblems task question place answerability (.requestUnits (some answer)) = [] ↔
      UnitsFit task question catalog allowNoMatch answerability answer := by
  have nonempty : (answerability.status == .partiallyAnswerable && answer.units.1.isEmpty) = false ↔
      (answerability.status = .partiallyAnswerable → answer.units.1 ≠ []) := by
    simp
  have explained : ((answer.units.1.any fun unit => unit.categoryId.isNone) &&
      decide (.noSupportedAnswer ∉ answerability.issues.1)) = false ↔
      ∀ unit ∈ answer.units.1, unit.categoryId = none → .noSupportedAnswer ∈ answerability.issues.1 := by
    rw [Bool.and_eq_false_iff, List.any_eq_false, decide_eq_false_iff_not, not_not]
    constructor
    · rintro (all | issue) unit mem unmatched
      · exact absurd (Option.isNone_iff_eq_none.mpr unmatched) (all unit mem)
      · exact issue
    · intro h
      by_cases issue : .noSupportedAnswer ∈ answerability.issues.1
      · exact .inr issue
      · exact .inl fun unit mem unmatched =>
          issue (h unit mem (Option.isNone_iff_eq_none.mp unmatched))
  unfold answerProblems
  rw [kind]
  simp only [List.append_eq_nil_iff, List.flatMap_eq_nil_iff, problemsOf_cons, problemsOf_nil,
    nonempty, explained, Bool.not_eq_false', decide_eq_true_iff, unitProblems_eq_nil,
    validateRequestRelations_eq_nil, and_true]
  constructor
  · rintro ⟨⟨⟨nonempty, explained, distinct⟩, units⟩, relations⟩
    exact ⟨nonempty, explained, distinct, units, relations⟩
  · intro fits
    exact ⟨⟨⟨fits.nonempty, fits.explained, fits.distinct⟩, fits.units⟩, fits.relations⟩

/-- The checks of an answer accept exactly what fits the question. -/
theorem answerProblems_eq_nil {answerability : Answerability} {answer : Answer}
    (same : answer.type = question.kind.type) :
    answerProblems task question place answerability answer = [] ↔
      AnswerFits task question answerability question.kind answer := by
  -- one case for each kind of question; an answer of another type is excluded by `same`
  cases kind : question.kind with
  | choice options =>
    rw [kind] at same
    cases answer with
    | choice answer =>
      unfold answerProblems
      rw [kind]
      cases answer with
      | none => exact iff_of_true rfl (.choice nofun)
      | some option =>
        simp only [problemsOf_cons, problemsOf_nil, and_true, decide_eq_false_iff_not, not_not]
        constructor
        · intro declared
          refine .choice fun other h => ?_
          rwa [← Option.some.inj h]
        · intro fits
          cases fits with
          | choice declared => exact declared option rfl
    | _ => cases same
  | multiselect options minSelections maxSelections =>
    rw [kind] at same
    cases answer with
    | multiselect answer =>
      unfold answerProblems
      rw [kind]
      cases answer with
      | none => exact iff_of_true rfl (.multiselect nofun nofun nofun)
      | some selected =>
        simp only [problemsOf_cons, problemsOf_nil, and_true, not_any_notMem, Bool.not_eq_false',
          Bool.and_eq_true, decide_eq_true_iff]
        constructor
        · rintro ⟨declared, nonempty, cardinality⟩
          refine .multiselect ?_ ?_ ?_ <;> rintro other ⟨⟩
          · exact declared
          · simpa using nonempty
          · exact cardinality
        · intro fits
          cases fits with
          | multiselect declared nonempty cardinality =>
            exact ⟨declared selected rfl, by simpa using nonempty selected rfl, cardinality selected rfl⟩
    | _ => cases same
  | predicate =>
    rw [kind] at same
    cases answer with
    | predicate value =>
      unfold answerProblems
      rw [kind]
      exact iff_of_true rfl .predicate
    | _ => cases same
  | ordinal levels =>
    rw [kind] at same
    cases answer with
    | ordinal answer =>
      unfold answerProblems
      rw [kind]
      cases answer with
      | none => exact iff_of_true rfl (.ordinal nofun)
      | some level =>
        simp only [problemsOf_cons, problemsOf_nil, and_true, decide_eq_false_iff_not, not_not]
        constructor
        · intro declared
          refine .ordinal fun other h => ?_
          rwa [← Option.some.inj h]
        · intro fits
          cases fits with
          | ordinal declared => exact declared level rfl
    | _ => cases same
  | requestUnits catalog allowNoMatch =>
    rw [kind] at same
    cases answer with
    | requestUnits answer =>
      cases answer with
      | none =>
        unfold answerProblems
        rw [kind]
        exact iff_of_true rfl (.requestUnits nofun)
      | some answer =>
        -- units have their own checks, on the catalog
        rw [unitsProblems_eq_nil kind]
        constructor
        · intro fits
          refine .requestUnits ?_
          rintro other ⟨⟩
          exact fits
        · intro fits
          cases fits with
          | requestUnits fits => exact fits answer rfl
    | _ => cases same

end Answers

/-! ## Results -/

section Results

variable {task : DecisionInput}

/-- A fitting answer is of the question's type. -/
theorem AnswerFits.type_eq {question : Question} {answerability : Answerability} {kind : QuestionKind}
    {answer : Answer} (h : AnswerFits task question answerability kind answer) :
    answer.type = kind.type := by
  cases h <;> rfl

/-- Results whose members agree. -/
theorem ResultFields.problems_eq_nil {item : ResultFields} {place : String} :
    item.problems place = [] ↔ Consistent item.answerability item.answer :=
  validateAnswerability_eq_nil

/-- A result that has no problems answers a question that no earlier result has answered. -/
theorem resultProblems_eq_nil {seen : List Id} {item : ResultFields} :
    resultProblems task seen item = [] ↔
      item.questionId ∉ seen ∧ ∃ question ∈ task.questions, ResultFits task question item := by
  unfold resultProblems
  rw [List.append_eq_nil_iff, problemsOf_cons, decide_eq_false_iff_not]
  refine and_congr ⟨And.left, fun h => ⟨h, rfl⟩⟩ ?_
  cases found : task.questions.find? fun question => question.id = item.questionId with
  | none =>
    refine iff_of_false (List.cons_ne_nil _ _) ?_
    rintro ⟨question, mem, fits⟩
    have := List.find?_eq_none.mp found question mem
    exact this (decide_eq_true fits.asked.symm)
  | some question =>
    have mem := List.mem_of_find?_eq_some found
    have asked : question.id = item.questionId := by simpa using List.find?_some found
    by_cases same : item.answer.type = question.kind.type
    · simp only [ne_eq, same, not_true_eq_false, if_false]
      rw [List.append_eq_nil_iff, ResultFields.problems_eq_nil, answerProblems_eq_nil same]
      constructor
      · rintro ⟨consistent, answer⟩
        exact ⟨question, mem, asked.symm, consistent, answer⟩
      · rintro ⟨other, known, fits⟩
        have : other = question := List.inj_on_of_nodup_map task.questions_valid.2.2 known mem
          (fits.asked.symm.trans asked.symm)
        rw [this] at fits
        exact ⟨fits.consistent, fits.answer⟩
    · simp only [ne_eq, same, not_false_eq_true, if_true]
      refine iff_of_false (List.cons_ne_nil _ _) ?_
      rintro ⟨other, known, fits⟩
      have : other = question := List.inj_on_of_nodup_map task.questions_valid.2.2 known mem
        (fits.asked.symm.trans asked.symm)
      rw [this] at fits
      exact same fits.answer.type_eq

/-- Results that fit their task. -/
theorem resultsProblems_eq_nil {seen : List Id} {results : List ResultFields} :
    resultsProblems task seen results = [] ↔
      (results.map ResultFields.questionId).Nodup ∧ (∀ item ∈ results, item.questionId ∉ seen) ∧
        ∀ item ∈ results, ∃ question ∈ task.questions, ResultFits task question item := by
  induction results generalizing seen with
  | nil => simp [resultsProblems]
  | cons item rest ih =>
    rw [resultsProblems, List.append_eq_nil_iff, resultProblems_eq_nil, ih, List.map_cons,
      List.nodup_cons, List.forall_mem_cons, List.forall_mem_cons]
    constructor
    · rintro ⟨⟨fresh, fits⟩, nodup, unseen, others⟩
      refine ⟨⟨fun repeated => ?_, nodup⟩, ⟨fresh, fun other mem h => ?_⟩, fits, others⟩
      · obtain ⟨other, mem, same⟩ := List.mem_map.mp repeated
        exact unseen other mem (List.mem_cons.mpr (.inl same))
      · exact unseen other mem (List.mem_cons_of_mem _ h)
    · rintro ⟨⟨fresh, nodup⟩, ⟨unseen, rest⟩, fits, others⟩
      refine ⟨⟨unseen, fits⟩, nodup, fun other mem h => ?_, others⟩
      rcases List.mem_cons.mp h with same | h
      · exact fresh (List.mem_map.mpr ⟨other, mem, same⟩)
      · exact rest other mem h

/-- Every question has a result. -/
theorem missingProblems_eq_nil {results : List ResultFields} :
    missingProblems task results = [] ↔
      ∀ id ∈ task.questions.map Question.id, id ∈ results.map ResultFields.questionId := by
  rw [missingProblems, List.map_eq_nil_iff, List.filter_eq_nil_iff]
  simp only [decide_eq_true_iff, not_not]

/-- The results are accepted exactly when every question has one result and it fits. -/
theorem validateDecisionOutput_eq_nil {results : List ResultFields} :
    validateDecisionOutput task results = [] ↔ Accepted task results := by
  have nil_of_sorted : validateDecisionOutput task results = [] ↔
      resultsProblems task [] results ++ missingProblems task results = [] := by
    rw [validateDecisionOutput, ← List.length_eq_zero_iff, List.length_mergeSort,
      List.length_eq_zero_iff, List.dedup_eq_nil]
  rw [nil_of_sorted, List.append_eq_nil_iff, resultsProblems_eq_nil, missingProblems_eq_nil]
  constructor
  · rintro ⟨⟨nodup, -, fits⟩, complete⟩
    refine ⟨(List.perm_ext_iff_of_nodup nodup task.questions_valid.2.2).mpr fun id => ?_, fits⟩
    refine ⟨fun answered => ?_, complete id⟩
    obtain ⟨item, mem, rfl⟩ := List.mem_map.mp answered
    obtain ⟨question, known, itemFits⟩ := fits item mem
    exact List.mem_map.mpr ⟨question, known, itemFits.asked.symm⟩
  · rintro ⟨complete, fits⟩
    exact ⟨⟨complete.symm.nodup task.questions_valid.2.2, fun _ _ => List.not_mem_nil, fits⟩,
      fun id mem => complete.symm.subset mem⟩

end Results

end Foliqant.Decisions

import Foliqant.Common.Fallible
import Foliqant.Core.Prompt

/-!
# Labels of conditions

A label puts a condition into words, with its authored operands. An operand is written as JSON text before
the text is bounded, and writing fails at an integer with too many digits.
-/

namespace Foliqant.Application

open Foliqant.Core Compiler JsonText

/-- What labels need of the interpreter: the letters and digits of Unicode, the characters that can be
printed, and the shortest text of a float. -/
structure LabelTexts where
  isAlnum : Char → Bool
  isPrintable : Char → Bool
  floatText : ℚ → String

/-- The longest text of an operand. -/
def MAX_OPERAND : ℕ := 48

/-- The longest label. -/
def MAX_LABEL : ℕ := 200

/-- A text that is too long ends in dots. -/
def bounded (limit : ℕ) (text : String) : String :=
  if text.length ≤ limit then text else String.ofList (text.toList.take (limit - 3)) ++ "..."

/-- The text of an operator in a plan. -/
def operatorText : ConditionOperator → String
  | .present => "present"
  | .empty => "empty"
  | .equals => "equals"
  | .notEquals => "not_equals"
  | .isIn => "in"
  | .notIn => "not_in"
  | .gt => "gt"
  | .gte => "gte"
  | .lt => "lt"
  | .lte => "lte"
  | .matches => "matches"
  | .length => "length"

/-- The text of the comparison of a length. -/
def comparisonText : Option Comparison → String
  | none => "None"
  | some .gt => "gt"
  | some .gte => "gte"
  | some .lt => "lt"
  | some .lte => "lte"
  | some .equals => "equals"

/-! ## Operands -/

section Texts

variable (texts : LabelTexts)

mutual

/-- JSON text with a space after every comma and colon. -/
def spaced : Json → List Char
  | .null => "null".toList
  | .bool true => "true".toList
  | .bool false => "false".toList
  | .int n => (Number.ofInt n).text
  | .float x => (texts.floatText x).toList
  | .str text => keyString text
  | .arr items => '[' :: spacedItems true items
  | .obj members => '\x7b' :: spacedMembers true members

/-- The items of an array and the closing bracket. -/
def spacedItems (first : Bool) : List Json → List Char
  | [] => [']']
  | item :: rest => (if first then [] else [',', ' ']) ++ (spaced item ++ spacedItems false rest)

/-- The members of an object and the closing brace. -/
def spacedMembers (first : Bool) : Object → List Char
  | [] => ['\x7d']
  | (key, value) :: rest => (if first then [] else [',', ' ']) ++
      (keyString key ++ ':' :: ' ' :: (spaced value ++ spacedMembers false rest))

end

/-- A text with a mark for each character that cannot be printed. -/
def shown (text : String) : String :=
  String.ofList (text.toList.map fun c => if texts.isPrintable c then c else '?')

/-- A string that needs no quotes: letters, digits and a few signs. -/
def plainText : Json → Option String
  | .str text =>
      if text ≠ "" ∧ text.toList.all
      (fun c => texts.isAlnum c || ['_', '-', '.'].contains c) then some text
      else none
  | _ => none

/-- The whole text of an operand; simple strings stay unquoted. -/
def wholeText (value : Json) : Except ValueError String :=
  match plainText texts value with
  | some text => .ok text
  | none => if printable value then .ok (String.ofList (spaced texts (sortedJson value)))
  else .error .digits

/-- An authored operand, compact and bounded. -/
def operandText (value : Json) : Except ValueError String := do
  return bounded MAX_OPERAND (shown texts (← wholeText texts value))

/-! ## Conditions -/

/-- Shorten pointers into `relativeTo`, the result of a flow, for the annotations of its node. -/
def pointerText (relativeTo : Option String) (pointer : String) : String :=
  match relativeTo with
  | some base =>
      if pointer = base then "result"
      else if (base ++ "/").toList <+: pointer.toList then
        String.ofList (pointer.toList.drop (base.length + 1))
      else pointer
  | none => pointer

/-- The source of a condition; a literal stays hidden. -/
def conditionSource (relativeTo : Option String) : BindingPlan → String
  | .literal _ => "literal"
  | .firstOf members _ => "first_of(" ++
      ", ".intercalate (members.map (pointerText relativeTo)) ++ ")"
  | .pointer path _ => pointerText relativeTo path
  | .fields _ => pointerText relativeTo ""

/-- The pattern of a condition. -/
def patternText : Json → String
  | .str pattern => bounded MAX_OPERAND (shown texts pattern)
  | _ => bounded MAX_OPERAND (shown texts "")

/-- The operator and the operand of a leaf. The flag of `present` and `empty` is no compared value, a pattern
is text already, and of a list of alternatives each is an operand of its own. -/
def operatorLabel (leaf : LeafConditionPlan) : Except ValueError String :=
  match leaf.operator, leaf.operand with
  | .present, operand | .empty, operand =>
      .ok (operatorText leaf.operator ++ "=" ++
        match operand with
        | .bool true => "true"
        | _ => "false")
  | .length, operand => do
      return "length " ++ comparisonText leaf.comparison ++ " " ++ (← operandText texts operand)
  | .matches, operand => .ok ("matches /" ++ patternText texts operand ++ "/")
  | .isIn, .arr values | .notIn, .arr values => do
      return operatorText leaf.operator ++ " [" ++
        ", ".intercalate (← values.mapM (operandText texts)) ++ "]"
  | operator, operand => do return operatorText operator ++ " " ++ (← operandText texts operand)

variable (relativeTo : Option String)

mutual

/-- `visit` of `condition_label`. -/
def conditionText : ConditionPlan → Except ValueError String
  | .leaf leaf => do return conditionSource relativeTo leaf.source ++ " " ++
      (← operatorLabel texts leaf)
  | .all operands => do return "all(" ++ "; ".intercalate (← conditionTexts operands) ++ ")"
  | .any operands => do return "any(" ++ "; ".intercalate (← conditionTexts operands) ++ ")"
  | .not operand => do return "not(" ++ (← conditionText operand) ++ ")"

/-- The texts of several conditions. -/
def conditionTexts : List ConditionPlan → Except ValueError (List String)
  | [] => .ok []
  | condition :: rest => do
      let text ← conditionText condition
      let others ← conditionTexts rest
      return text :: others

end

/-- A readable condition with its authored operands. -/
def conditionLabel (condition : ConditionPlan) : Except ValueError String := do
  return bounded MAX_LABEL (← conditionText texts relativeTo condition)

end Texts

/-! ## When there is a label -/

/-- The operands that a leaf writes. -/
def writtenOperands (leaf : LeafConditionPlan) : List Json :=
  match leaf.operator, leaf.operand with
  | .present, _ | .empty, _ | .matches, _ => []
  | .isIn, .arr values | .notIn, .arr values => values
  | _, operand => [operand]

mutual

/-- Every operand that the label of a condition shows can be written. -/
def LabelWrites : ConditionPlan → Prop
  | .leaf leaf => ∀ operand ∈ writtenOperands leaf, printable operand = true
  | .all operands | .any operands => LabelsWrite operands
  | .not operand => LabelWrites operand

/-- The labels of several conditions can be written. -/
def LabelsWrite : List ConditionPlan → Prop
  | [] => True
  | condition :: rest => LabelWrites condition ∧ LabelsWrite rest

end

section Success

variable {texts : LabelTexts} {relativeTo : Option String}

/-- A string without quotes has no integers. -/
theorem printable_of_plainText {value : Json} {text : String}
    (plain : plainText texts value = some text) :
    printable value = true := by
  cases value with
  | str own => rfl
  | _ => cases plain

/-- An operand has a text when its integers can be printed. -/
theorem operandText_succeeds {value : Json} :
    (operandText texts value).Succeeds ↔ printable value = true := by
  refine Except.succeeds_map.trans ?_
  unfold wholeText
  cases plain : plainText texts value with
  | some text => exact iff_of_true (Except.succeeds_ok _) (printable_of_plainText plain)
  | none =>
    dsimp only
    by_cases short : printable value = true
    · rw [if_pos short]
      exact iff_of_true (Except.succeeds_ok _) short
    · rw [if_neg short]
      exact iff_of_false (Except.not_succeeds_error _) short

/-- A leaf has a text when the operands that it writes can be printed. -/
theorem operatorLabel_succeeds {leaf : LeafConditionPlan} : (operatorLabel texts leaf).Succeeds ↔
    ∀ operand ∈ writtenOperands leaf, printable operand = true := by
  have one {f : String → String} {operand : Json} :
      (operandText texts operand >>= fun text => pure (f text)).Succeeds ↔
        ∀ own ∈ [operand], printable own = true := by
    rw [Except.succeeds_map, operandText_succeeds, List.forall_mem_singleton]
  have several {f : List String → String} {values : List Json} :
      (values.mapM (operandText texts) >>= fun all => pure (f all)).Succeeds ↔
        ∀ own ∈ values, printable own = true := by
    rw [Except.succeeds_map, List.succeeds_mapM]
    exact forall₂_congr fun _ _ => operandText_succeeds
  obtain ⟨source, operator, operand, comparison, pattern⟩ := leaf
  unfold operatorLabel writtenOperands
  cases operator with
  | present | empty | «matches» => exact iff_of_true (Except.succeeds_ok _) nofun
  | isIn | notIn =>
    cases operand with
    | arr values => exact several
    | _ => exact one
  | _ => exact one

mutual

/-- A condition has a text when all the operands that it writes can be printed. -/
theorem conditionText_succeeds : (condition : ConditionPlan) →
    ((conditionText texts relativeTo condition).Succeeds ↔ LabelWrites condition)
  | .leaf _ => Except.succeeds_map.trans operatorLabel_succeeds
  | .all operands | .any operands => Except.succeeds_map.trans (conditionTexts_succeeds operands)
  | .not operand => Except.succeeds_map.trans (conditionText_succeeds operand)

/-- The labels of a list of conditions are written exactly when every operand in them can be. -/
theorem conditionTexts_succeeds : (conditions : List ConditionPlan) →
    ((conditionTexts texts relativeTo conditions).Succeeds ↔ LabelsWrite conditions)
  | [] => iff_of_true (Except.succeeds_ok _) trivial
  | condition :: rest => by
      refine (Except.succeeds_bind fun _ _ => Except.succeeds_map).trans ?_
      exact and_congr (conditionText_succeeds condition) (conditionTexts_succeeds rest)

end

/-- A condition has a label when all the operands that it shows can be written. -/
theorem conditionLabel_succeeds {condition : ConditionPlan} :
    (conditionLabel texts relativeTo condition).Succeeds ↔ LabelWrites condition :=
  Except.succeeds_map.trans (conditionText_succeeds condition)

end Success

end Foliqant.Application

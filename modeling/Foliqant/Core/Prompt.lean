import Foliqant.Compiler.JsonEquality
import Foliqant.Core.Runner

/-!
# Prompt templates

Compile the placeholders of a template against declared input names, and render the selected JSON values
once. A value is never read as a template.
-/

namespace Foliqant.Core

open JsonText Compiler

/-! ## Compilation -/

/-- A literal or a reference. -/
inductive PromptPart where
  | literal (text : List Char)
  | input (name : String)
  deriving DecidableEq

/-- A compiled prompt. -/
structure PromptTemplate where
  parts : List PromptPart
  deriving DecidableEq

/-- Four braces are an escape, two open or close a placeholder. -/
inductive Marker where
  | openEscape | closeEscape | opening | closing
  deriving DecidableEq

/-- The text before the first marker, with the marker and the text behind it. -/
def nextMarker : List Char → List Char × Option (Marker × List Char)
  | '\x7b' :: '\x7b' :: '\x7b' :: '\x7b' :: rest => ([], some (.openEscape, rest))
  | '\x7d' :: '\x7d' :: '\x7d' :: '\x7d' :: rest => ([], some (.closeEscape, rest))
  | '\x7b' :: '\x7b' :: rest => ([], some (.opening, rest))
  | '\x7d' :: '\x7d' :: rest => ([], some (.closing, rest))
  | c :: rest => (c :: (nextMarker rest).1, (nextMarker rest).2)
  | [] => ([], none)

/-- The text before the first two closing braces, with the text behind them. -/
def findClosing : List Char → Option (List Char × List Char)
  | '\x7d' :: '\x7d' :: rest => some ([], rest)
  | c :: rest => (findClosing rest).map fun (inside, after) => (c :: inside, after)
  | [] => none

/-- A blank around a name. -/
def isBlank (c : Char) : Bool := c == ' ' || c == '\t'

/-- The name of a placeholder, with spaces and tabs around it. -/
def placeholder (inside : List Char) : Option String :=
  let body := inside.dropWhile isBlank
  let name := String.ofList (body.takeWhile fun c => !isBlank c)
  if isItemId name && (body.dropWhile fun c => !isBlank c).all isBlank then some name else none

/-- Less text is left after a marker. -/
theorem nextMarker_length {text before after : List Char} {marker : Marker}
    (found : nextMarker text = (before, some (marker, after))) : after.length < text.length := by
  induction text using nextMarker.induct generalizing before with
  | case1 rest | case2 rest =>
    cases found
    simp only [List.length_cons]
    omega
  | case3 rest other =>
    rw [nextMarker] at found
    · cases found
      simp only [List.length_cons]
      omega
    · exact other
  | case4 rest other =>
    rw [nextMarker] at found
    · cases found
      simp only [List.length_cons]
      omega
    · exact other
  | case5 c rest h1 h2 h3 h4 ih =>
    rw [nextMarker] at found
    · have shorter := ih (Prod.ext rfl (Prod.mk.inj found).2)
      rw [List.length_cons]
      omega
    · exact h1
    · exact h2
    · exact h3
    · exact h4
  | case6 => cases found

/-- Less text is left after a closing. -/
theorem findClosing_length {text inside after : List Char}
    (found : findClosing text = some (inside, after)) :
    after.length < text.length := by
  induction text using findClosing.induct generalizing inside with
  | case1 rest =>
    cases found
    simp only [List.length_cons]
    omega
  | case2 c rest other ih =>
    rw [findClosing] at found
    · obtain ⟨⟨inside', after'⟩, here, same⟩ := Option.map_eq_some_iff.mp found
      cases same
      have shorter := ih here
      rw [List.length_cons]
      omega
    · exact other
  | case3 => cases found

/-- Compile the rest of a template behind some literal text. The literal before a placeholder is a part of
its own, also when it is empty. -/
def compileFrom (declared : List String) (literal rest : List Char) : Except Exn (List PromptPart) :=
  match _found : nextMarker rest with
  | (before, none) => .ok [.literal (literal ++ before)]
  | (before, some (.openEscape, after)) =>
      compileFrom declared (literal ++ before ++ ['\x7b', '\x7b']) after
  | (before, some (.closeEscape, after)) =>
      compileFrom declared (literal ++ before ++ ['\x7d', '\x7d']) after
  | (_, some (.closing, _)) => fail .invalidConfiguration
  | (before, some (.opening, after)) =>
      match _closed : findClosing after with
      | none => fail .invalidConfiguration
      | some (inside, behind) =>
          match placeholder inside with
          | none => fail .invalidConfiguration
          | some name =>
              if name ∈ declared then
                (compileFrom declared [] behind).map fun parts =>
                  .literal (literal ++ before) :: .input name :: parts
              else fail .invalidConfiguration
termination_by rest.length
decreasing_by
  · exact nextMarker_length _found
  · exact nextMarker_length _found
  · have first := nextMarker_length _found
    have second := findClosing_length _closed
    omega

/-- Compile a template; the declared names must be distinct identifiers. -/
def compilePrompt (template : String) (inputNames : List String) : Except Exn PromptTemplate :=
  if ¬ (inputNames.all isItemId ∧ inputNames.Nodup) then fail .invalidConfiguration
  else (compileFrom inputNames [] template.toList).map PromptTemplate.mk

/-! ## Rendering -/

section Rendering

variable {F : Type}

mutual

/-- The members of every object in the order of their keys. -/
def sortedJson : Value F → Value F
  | .arr items => .arr (sortedItems items)
  | .obj members => .obj (sortMembers (sortedMembers members))
  | value => value

/-- Items with sorted members. -/
def sortedItems : List (Value F) → List (Value F)
  | [] => []
  | item :: rest => sortedJson item :: sortedItems rest

/-- Members with sorted members. -/
def sortedMembers : List (String × Value F) → List (String × Value F)
  | [] => []
  | (key, value) :: rest => (key, sortedJson value) :: sortedMembers rest

end

-- The shortest text of a float; the two zeros have texts of their own.
variable (repr : F → String)

/-- The compact text of a value with sorted keys. -/
def canonicalJson (value : Value F) : List Char := dumps repr (sortedJson value)

/-- A value must be frozen JSON whose integers the interpreter prints. -/
def renderValue (value : Value F) : Except Exn (List Char) := do
  let value ← freezeJson MAX_JSON_DEPTH value
  if printable value then return canonicalJson repr value else fail .invalidInput

/-- The text of one part: the literal itself, or the bound value. -/
def renderPart (inputs : List (String × Value F)) : PromptPart → Except Exn (List Char)
  | .literal text => .ok text
  | .input name =>
      match inputs.lookup name with
      | none => fail .missingBinding
      | some value => renderValue repr value

/-- Render the referenced inputs; a bound value is serialized once and never read as a placeholder. -/
def renderPrompt (template : PromptTemplate) (inputs : List (String × Value F)) :
    Except Exn String := do
  let rendered ← template.parts.mapM (renderPart repr inputs)
  return String.ofList rendered.flatten

end Rendering

end Foliqant.Core

import Foliqant.Common.JsonRoundTrip

/-!
# The evaluation checkpoint

An append-only journal of finished attempts: one JSON object a line. `record` says which bytes one
call appends to the file, `load` reads the recorded attempts of an identity back. A file that does
not exist yet is an empty one. Files are ASCII, so a byte is a character. The reader follows as many
levels of nesting as the writer, so no line that was written, or cut short, is too deep for it.
-/

namespace Foliqant.Evaluation

open JsonText

/-- How large a checkpoint may be. -/
def MAX_CHECKPOINT_BYTES : ℕ := 1024 * 1024 * 1024

/-- The kind of every record. -/
def checkpointKind : String := "evaluation_attempt"

/-- What a recorded attempt must share with an evaluation to be reused. -/
structure CheckpointIdentity (S : Type := String) where
  suite : S
  variant : S
  variantRevision : S
  configurationRevision : S
  workflow : Option S
  flow : Option S
  step : Option S
  deriving DecidableEq

/-- The members of an identity; an absent target is null. -/
def CheckpointIdentity.fields {S : Type} (identity : CheckpointIdentity S) :
    List (String × Option S) :=
  [("suite", some identity.suite), ("variant", some identity.variant),
    ("variant_revision", some identity.variantRevision),
    ("configuration_revision", some identity.configurationRevision),
    ("workflow", identity.workflow), ("flow", identity.flow), ("step", identity.step)]

/-- What the checkpoint raises. -/
inductive CheckpointError where
  /-- The file is over the limit when it is read. -/
  | unbounded
  | invalidRecord
  /-- The suite was recorded for another variant, configuration or target. -/
  | mismatch
  /-- The seconds of a record are an integer that is too large for a float. -/
  | overflow
  /-- An integer of a record has too many digits, a float is not finite or the values nest too deep. -/
  | unwritable
  /-- A record would take the file over the limit. -/
  | sizeLimit
  deriving DecidableEq

/-- The texts of the checkpoint; the interpreter words the other errors. -/
def CheckpointError.message : CheckpointError → Option String
  | .unbounded => some "checkpoint must be a bounded regular file"
  | .invalidRecord => some "checkpoint contains an invalid record"
  | .mismatch =>
      some "checkpoint records this suite for another variant, configuration or target"
  | .sizeLimit => some "checkpoint exceeds size limit"
  | .overflow | .unwritable => none

/-- One recorded attempt: its exact input, invocation seconds and public result. -/
structure SavedAttempt (F : Type) (S : Type := String) where
  input : Value F S
  elapsedSeconds : F
  result : List (S × Value F S)

/-- The arguments of a call of `record`, which checks none of them. -/
structure Attempt (F : Type) (S : Type := String) where
  caseId : Value F S
  repetition : Value F S
  input : Value F S
  elapsedSeconds : Value F S
  result : Value F S
  distinct : ∀ value ∈ [caseId, repetition, input, elapsedSeconds, result], value.Distinct

variable {F S : Type}

/-- A text that may be missing, as JSON. -/
def fieldValue : Option S → Value F S
  | some text => .str text
  | none => .null

/-- A recorded member equals the one of the identity. -/
def sameField [DecidableEq S] : Option (Value F S) → Option S → Bool
  | some (.str found), some text => found = text
  | some .null, none => true
  | _, _ => false

/-- A number that is not negative. -/
def isSeconds (floats : Floats F) : Value F S → Bool
  | .int n => 0 ≤ n
  | .float x => !floats.isNegative x
  | _ => false

/-- A number as a float. -/
def toFloat (floats : Floats F) : Value F S → Option F
  | .int n => floats.ofInt n
  | .float x => some x
  | _ => none

/-- Recorded attempts by case and repetition. -/
abbrev Saved (F : Type) (S : Type := String) := List ((S × ℤ) × SavedAttempt F S)

/-- The last record of an attempt wins. -/
def save [DecidableEq S] (key : S × ℤ) (attempt : SavedAttempt F S) (saved : Saved F S) : Saved F S :=
  (key, attempt) :: saved.filter fun entry => entry.1 != key

variable [Text S]

/-! ## Writing -/

/-- The members of a recorded identity. -/
def CheckpointIdentity.value (identity : CheckpointIdentity S) : List (S × Value F S) :=
  identity.fields.map fun (key, text) => (Text.ofString key, fieldValue text)

/-- The members of a record. -/
def recordFields (identity : CheckpointIdentity S)
    (caseId repetition input elapsedSeconds result : Value F S) : List (S × Value F S) :=
  [(Text.ofString "kind", .str (Text.ofString checkpointKind)),
    (Text.ofString "identity", .obj identity.value), (Text.ofString "case", caseId),
    (Text.ofString "repetition", repetition), (Text.ofString "input", input),
    (Text.ofString "elapsed_seconds", elapsedSeconds), (Text.ofString "result", result)]

/-- The object that is recorded. -/
def recordValue (identity : CheckpointIdentity S) (attempt : Attempt F S) : Value F S :=
  .obj (recordFields identity attempt.caseId attempt.repetition attempt.input attempt.elapsedSeconds
    attempt.result)

/-- The line of a record. -/
def recordLine (floats : Floats F) (identity : CheckpointIdentity S) (attempt : Attempt F S) :
    List Char :=
  write floats (recordValue identity attempt)

/-- What separates a new line from the end of the file: never extend a torn line. -/
def lineBreak (file : List Char) : List Char :=
  if file ≠ [] ∧ file.getLast? ≠ some '\n' then ['\n'] else []

/-- The bytes of a record: its line, after a line break where one is missing. -/
def recordData (floats : Floats F) (identity : CheckpointIdentity S) (attempt : Attempt F S)
    (file : List Char) : List Char :=
  lineBreak file ++ recordLine floats identity attempt ++ ['\n']

/-- The bytes that recording one attempt appends. -/
def record (floats : Floats F) (identity : CheckpointIdentity S) (attempt : Attempt F S)
    (file : List Char) : Except CheckpointError (List Char) :=
  if !(recordValue identity attempt).writable floats then .error .unwritable
  else
    let data := recordData floats identity attempt file
    if file.length + data.length > MAX_CHECKPOINT_BYTES then .error .sizeLimit else .ok data

/-! ## Reading -/

/-- Whitespace that stripping a line removes. -/
def isStripped (c : Char) : Bool :=
  (9 ≤ c.toNat && c.toNat ≤ 13) || (28 ≤ c.toNat && c.toNat ≤ 32)

/-- A line of whitespace. -/
def isBlank (line : List Char) : Bool := line.all isStripped

variable [DecidableEq S]

/-- The value of a key of an object. -/
def field (members : List (S × Value F S)) (key : String) : Option (Value F S) :=
  members.lookup (Text.ofString key)

/-- The value of a key is this text. -/
def hasText (members : List (S × Value F S)) (key : String) (text : S) : Bool :=
  match field members key with
  | some (.str found) => found = text
  | _ => false

/-- The object has exactly the members of the identity. -/
def sameIdentity (members : List (S × Value F S)) (identity : CheckpointIdentity S) : Bool :=
  members.length = identity.fields.length &&
    identity.fields.all fun (key, text) => sameField (field members key) text

/-- The attempt of a record, or nothing for a record of another suite. -/
def readRecord (floats : Floats F) (identity : CheckpointIdentity S) (value : Value F S) :
    Except CheckpointError (Option ((S × ℤ) × SavedAttempt F S)) :=
  match value with
  | .obj members =>
      if !hasText members "kind" (Text.ofString checkpointKind) then .error .invalidRecord
      else
        match field members "identity" with
        | some (.obj recorded) =>
            if !hasText recorded "suite" identity.suite then .ok none
            else if !sameIdentity recorded identity then .error .mismatch
            else
              match field members "case", field members "repetition",
                  field members "elapsed_seconds", field members "input",
                  field members "result" with
              | some (.str caseId), some (.int repetition), some elapsed, some input,
                  some (.obj result) =>
                  if repetition < 1 || !isSeconds floats elapsed then .error .invalidRecord
                  else
                    match toFloat floats elapsed with
                    | some seconds => .ok (some ((caseId, repetition), ⟨input, seconds, result⟩))
                    | none => .error .overflow
              | _, _, _, _, _ => .error .invalidRecord
        | _ => .error .invalidRecord
  | _ => .error .invalidRecord

/-- Read the remaining lines; only the last one may be broken. -/
def loadLines (floats : Floats F) (identity : CheckpointIdentity S) (saved : Saved F S) :
    List (List Char) → Except CheckpointError (Saved F S)
  | [] => .ok saved
  | line :: rest =>
      if isBlank line then loadLines floats identity saved rest
      else
        match loads floats line with
        | none => if rest = [] then .ok saved else .error .invalidRecord
        | some value => do
            match ← readRecord floats identity value with
            | none => loadLines floats identity saved rest
            | some (key, attempt) => loadLines floats identity (save key attempt saved) rest

/-- The recorded attempts of an identity. -/
def load (floats : Floats F) (identity : CheckpointIdentity S) (file : List Char) :
    Except CheckpointError (Saved F S) :=
  if file.length > MAX_CHECKPOINT_BYTES then .error .unbounded
  else loadLines floats identity [] (file.splitOn '\n')

end Foliqant.Evaluation

import Mathlib.Data.List.Nodup
import Foliqant.Evaluation.Checkpoint

/-!
# The checkpoint journal across crashes

A `Disk` is the journal file together with the attempts whose line is completely in it. Processes
append records one after the other, and a process may die with only the first bytes of its last write
in the file. `Survives` says that the journal loads after every call and returns the last complete
record of each attempt.

A crash can leave a torn line at the end of the file, which `load` ignores. The next record starts a
new line, and from then on the torn line is not the last one any more: the journal no longer loads.
And `record` writes records that `load` refuses or reads as others. So the journal survives exactly the
histories in which nothing is appended after a torn line and every complete record is readable
(`survives_iff_staysReadable`).
-/

namespace Foliqant.Evaluation

open JsonText

variable {F S : Type} [Text S] [DecidableEq S]

/-! ## Histories -/

/-- A call of `record`; a process that dies during the call has written only the first bytes. -/
structure Call (F : Type) (S : Type := String) where
  attempt : Attempt F S
  diedAfter : Option ℕ

omit [Text S] [DecidableEq S] in
/-- The bytes of a call's data that reach the file. -/
def Call.written (call : Call F S) (data : List Char) : List Char :=
  match call.diedAfter with
  | none => data
  | some bytes => data.take bytes

/-- The journal file and the attempts whose line it completely holds, the latest first. -/
structure Disk (F : Type) (S : Type := String) where
  file : List Char
  completed : List (Attempt F S)

/-- Nothing has been written. -/
def Disk.empty : Disk F S := ⟨[], []⟩

/-- One call. A refused record writes nothing; a line is complete without its newline. -/
def Disk.step (floats : Floats F) (identity : CheckpointIdentity S) (disk : Disk F S)
    (call : Call F S) : Disk F S :=
  match record floats identity call.attempt disk.file with
  | .error _ => disk
  | .ok data =>
      { file := disk.file ++ call.written data
        completed :=
          if data.length ≤ (call.written data).length + 1 then call.attempt :: disk.completed
          else disk.completed }

/-- The case and repetition of an attempt with what is recorded of it. -/
def Attempt.entry (floats : Floats F) (attempt : Attempt F S) :
    Option ((S × ℤ) × SavedAttempt F S) :=
  match attempt.caseId, attempt.repetition, toFloat floats attempt.elapsedSeconds, attempt.result with
  | .str caseId, .int repetition, some seconds, .obj result =>
      some ((caseId, repetition), ⟨attempt.input, seconds, result⟩)
  | _, _, _, _ => none

/-- The journal loads and holds, for each case and repetition, the last complete record. -/
def Disk.Loads (floats : Floats F) (identity : CheckpointIdentity S) (disk : Disk F S) : Prop :=
  ∃ saved, load floats identity disk.file = .ok saved ∧
    (∀ attempt ∈ disk.completed, (attempt.entry floats).isSome = true) ∧
    ∀ key, saved.lookup key = (disk.completed.filterMap (Attempt.entry floats)).lookup key

/-- The journal loads before the calls and after each of them. -/
def Survives (floats : Floats F) (identity : CheckpointIdentity S) :
    Disk F S → List (Call F S) → Prop
  | disk, [] => disk.Loads floats identity
  | disk, call :: calls =>
      disk.Loads floats identity ∧ Survives floats identity (disk.step floats identity call) calls

/-! ## When a journal survives -/

/-- The file ends in a line that is not a complete JSON text. -/
def Torn (S : Type) [Text S] [DecidableEq S] (floats : Floats F) (file : List Char) : Prop :=
  ∃ line ∈ (file.splitOn '\n').getLast?, line ≠ [] ∧ (loads floats line : Option (Value F S)) = none

/-- A record reads back as it was written: the arguments are what `load` asks for, and no string has
surrogates that reading joins. -/
structure Readable (floats : Floats F) (identity : CheckpointIdentity S) (attempt : Attempt F S) :
    Prop where
  texts : ∀ entry ∈ identity.fields, ∀ text ∈ entry.2, Text.joined text = text
  caseId : ∃ id, attempt.caseId = .str id ∧ Text.joined id = id
  repetition : ∃ n, attempt.repetition = .int n ∧ 1 ≤ n
  elapsed : isSeconds floats attempt.elapsedSeconds = true ∧
    (toFloat floats attempt.elapsedSeconds).isSome = true
  input : attempt.input.isJoined = true
  result : ∃ members, attempt.result = .obj members ∧ (Value.obj members).isJoined = true

/-- The record has a text and fits into the file. -/
def Accepted (floats : Floats F) (identity : CheckpointIdentity S) (attempt : Attempt F S)
    (file : List Char) : Prop :=
  (recordValue identity attempt).writable floats = true ∧
    file.length + (recordData floats identity attempt file).length ≤ MAX_CHECKPOINT_BYTES

/-- Some bytes of the call reach the file. -/
def Call.Appends (floats : Floats F) (identity : CheckpointIdentity S) (call : Call F S)
    (file : List Char) : Prop :=
  Accepted floats identity call.attempt file ∧ call.diedAfter ≠ some 0

/-- The line of the call reaches the file, if not its newline. -/
def Call.Completes (floats : Floats F) (identity : CheckpointIdentity S) (call : Call F S)
    (file : List Char) : Prop :=
  Accepted floats identity call.attempt file ∧ ∀ bytes ∈ call.diedAfter,
    (recordData floats identity call.attempt file).length ≤ bytes + 1

/-- No call appends anything to a file that ends in a torn line, and every line that is completely
written is readable. -/
def StaysReadable (floats : Floats F) (identity : CheckpointIdentity S) :
    Disk F S → List (Call F S) → Prop
  | _, [] => True
  | disk, call :: calls =>
      (Torn S floats disk.file → ¬ call.Appends floats identity disk.file) ∧
        (call.Completes floats identity disk.file → Readable floats identity call.attempt) ∧
        StaysReadable floats identity (disk.step floats identity call) calls

/-! ## Records -/

/-- The identity as it reads back. -/
def CheckpointIdentity.joined (identity : CheckpointIdentity S) : CheckpointIdentity S where
  suite := Text.joined identity.suite
  variant := Text.joined identity.variant
  variantRevision := Text.joined identity.variantRevision
  configurationRevision := Text.joined identity.configurationRevision
  workflow := identity.workflow.map Text.joined
  flow := identity.flow.map Text.joined
  step := identity.step.map Text.joined

omit [DecidableEq S] in
/-- An identity reads back when no text of it has surrogates to join. -/
theorem CheckpointIdentity.joined_eq_self {identity : CheckpointIdentity S} :
    identity.joined = identity ↔ ∀ entry ∈ identity.fields, ∀ text ∈ entry.2,
    Text.joined text = text := by
  obtain ⟨suite, variant, variantRevision, configurationRevision, workflow, flow, step⟩ := identity
  have target (text : Option S) : text.map Text.joined = text ↔ ∀ s ∈ text, Text.joined s = s := by
    cases text <;> simp
  simp [CheckpointIdentity.joined, CheckpointIdentity.fields, target]

/-- Strings of the code are told apart as texts. -/
@[simp] theorem ofString_beq (text other : String) :
    (Text.ofString text == (Text.ofString other : S)) = (text == other) := by
  by_cases same : text = other
  · rw [same, beq_self_eq_true, beq_self_eq_true]
  · rw [beq_false_of_ne same, beq_false_of_ne fun h => same (Text.ofString_injective _ _ h)]

omit [DecidableEq S] in
/-- Different strings of the code are different texts. -/
theorem nodup_ofString {keys : List String} (h : keys.Nodup) :
    (keys.map (Text.ofString : String → S)).Nodup :=
  List.Nodup.map (fun _ _ => Text.ofString_injective _ _) h

omit [DecidableEq S] in
/-- The members of an identity have different keys. -/
theorem nodup_identity (identity : CheckpointIdentity S) :
    ((identity.value : List (S × Value F S)).map Prod.fst).Nodup := by
  have keys : (identity.value : List (S × Value F S)).map Prod.fst = ["suite", "variant",
    "variant_revision", "configuration_revision", "workflow", "flow", "step"].map Text.ofString := rfl
  rw [keys]
  exact nodup_ofString (by decide)

omit [DecidableEq S] in
/-- The members of a record have different keys. -/
theorem nodup_recordFields (identity : CheckpointIdentity S)
    (caseId repetition input elapsedSeconds result : Value F S) :
    ((recordFields identity caseId repetition input elapsedSeconds result).map Prod.fst).Nodup := by
  have keys : (recordFields identity caseId repetition input elapsedSeconds result).map Prod.fst =
    ["kind", "identity", "case", "repetition", "input", "elapsed_seconds", "result"].map
      Text.ofString := rfl
  rw [keys]
  exact nodup_ofString (by decide)

/-- The members of an identity as they read back. -/
theorem joinedMembers_identity (identity : CheckpointIdentity S) :
    joinedMembers (identity.value : List (S × Value F S)) = identity.joined.value := by
  have field (text : Option S) :
      (fieldValue text : Value F S).joined = fieldValue (text.map Text.joined) := by
    cases text <;> rfl
  simp [CheckpointIdentity.value, CheckpointIdentity.fields, CheckpointIdentity.joined, joinedMembers,
    field, Text.joined_ofString]

/-- A record as it reads back. -/
theorem joined_recordValue (identity : CheckpointIdentity S) (attempt : Attempt F S) :
    (recordValue identity attempt).joined = .obj (recordFields identity.joined attempt.caseId.joined
      attempt.repetition.joined attempt.input.joined attempt.elapsedSeconds.joined
      attempt.result.joined) := by
  have members : joinedMembers (recordFields identity attempt.caseId attempt.repetition attempt.input
      attempt.elapsedSeconds attempt.result) = recordFields identity.joined attempt.caseId.joined
        attempt.repetition.joined attempt.input.joined attempt.elapsedSeconds.joined
        attempt.result.joined := by
    simp only [recordFields, joinedMembers, Text.joined_ofString, Value.joined,
        joinedMembers_identity,
      dict_eq_self (nodup_identity _)]
  rw [recordValue, Value.joined, members, dict_eq_self (nodup_recordFields _ _ _ _ _ _)]

section Fields

variable {identity other : CheckpointIdentity S}
  {caseId repetition input elapsedSeconds result : Value F S}

/-- The suite of a recorded identity. -/
theorem hasText_suite {text : S} :
    hasText (other.value : List (S × Value F S)) "suite" text = decide (other.suite = text) := by
  simp [hasText, field, CheckpointIdentity.value, CheckpointIdentity.fields, fieldValue]

omit [Text S] in
/-- A recorded member is compared by its text. -/
theorem sameField_fieldValue {text found : Option S} :
    sameField (some (fieldValue found : Value F S)) text = true ↔ found = text := by
  cases text <;> cases found <;> simp [fieldValue, sameField]

/-- A recorded identity is compared by all its members. -/
theorem sameIdentity_value :
    sameIdentity (other.value : List (S × Value F S)) identity = true ↔ other = identity := by
  obtain ⟨suite, variant, variantRevision, configurationRevision, workflow, flow, step⟩ := identity
  obtain ⟨suite', variant', variantRevision', configurationRevision', workflow', flow', step'⟩ :=
    other
  simp [sameIdentity, field, CheckpointIdentity.value, CheckpointIdentity.fields, List.lookup_cons,
    sameField_fieldValue]

/-- What `load` makes of a record. -/
theorem readRecord_recordFields (floats : Floats F) :
    readRecord floats identity
        (.obj (recordFields other caseId repetition input elapsedSeconds result)) =
      if other.suite ≠ identity.suite then .ok none
      else if other ≠ identity then .error .mismatch
      else
        match caseId, repetition, result with
        | .str caseId, .int repetition, .obj result =>
            if repetition < 1 || !isSeconds floats elapsedSeconds then .error .invalidRecord
            else
              match toFloat floats elapsedSeconds with
              | some seconds => .ok (some ((caseId, repetition), ⟨input, seconds, result⟩))
              | none => .error .overflow
        | _, _, _ => .error .invalidRecord := by
  have kind : hasText (recordFields other caseId repetition input elapsedSeconds result) "kind"
      (Text.ofString checkpointKind) = true := by
    simp [hasText, field, recordFields]
  have recorded : field (recordFields other caseId repetition input elapsedSeconds
      result) "identity" =
      some (.obj other.value) := by
    simp [field, recordFields, List.lookup_cons]
  have caseId_ : field (recordFields other caseId repetition input elapsedSeconds result) "case" =
      some caseId := by
    simp [field, recordFields, List.lookup_cons]
  have repetition_ : field (recordFields other caseId repetition input elapsedSeconds result)
      "repetition" = some repetition := by
    simp [field, recordFields, List.lookup_cons]
  have elapsed_ : field (recordFields other caseId repetition input elapsedSeconds result)
      "elapsed_seconds" = some elapsedSeconds := by
    simp [field, recordFields, List.lookup_cons]
  have input_ : field (recordFields other caseId repetition input elapsedSeconds result) "input" =
      some input := by
    simp [field, recordFields, List.lookup_cons]
  have result_ : field (recordFields other caseId repetition input elapsedSeconds result) "result" =
      some result := by
    simp [field, recordFields, List.lookup_cons]
  have same : sameIdentity (other.value : List (S × Value F S)) identity =
      decide (other = identity) :=
    Bool.eq_iff_iff.mpr (sameIdentity_value.trans (decide_eq_true_iff (p := other = identity)).symm)
  simp only [readRecord, kind, recorded, caseId_, repetition_, elapsed_, input_,
      result_, hasText_suite,
    same, Bool.not_true, Bool.false_eq_true, if_false, Bool.not_eq_true',
      decide_eq_false_iff_not, ne_eq]
  congr 2
  cases caseId <;> cases repetition <;> cases result <;> rfl

end Fields

/-- The attempt is recorded as it is: the line can be written and reads back. -/
structure Kept (floats : Floats F) (identity : CheckpointIdentity S) (attempt : Attempt F S) : Prop
    extends Readable floats identity attempt where
  writable : (recordValue identity attempt).writable floats = true

variable {floats : Floats F} {identity : CheckpointIdentity S} {attempt : Attempt F S}

omit [Text S] [DecidableEq S] in
/-- The keys in each argument differ. -/
theorem Attempt.distinct_of (attempt : Attempt F S) : attempt.caseId.Distinct ∧
    attempt.repetition.Distinct ∧ attempt.input.Distinct ∧ attempt.elapsedSeconds.Distinct ∧
    attempt.result.Distinct := by
  have distinct := attempt.distinct
  simp only [List.forall_mem_cons] at distinct
  exact ⟨distinct.1, distinct.2.1, distinct.2.2.1, distinct.2.2.2.1, distinct.2.2.2.2.1⟩

omit [Text S] [DecidableEq S] in
/-- The arguments of an attempt that can be read back. -/
theorem Attempt.entry_eq_some {entry : (S × ℤ) × SavedAttempt F S}
    (h : attempt.entry floats = some entry) :
    attempt.caseId = .str entry.1.1 ∧ attempt.repetition = .int entry.1.2 ∧
      attempt.input = entry.2.input ∧ (toFloat floats attempt.elapsedSeconds).isSome = true ∧
      attempt.result = .obj entry.2.result := by
  unfold Attempt.entry at h
  split at h
  next caseId repetition elapsed result =>
    cases h
    exact ⟨caseId, repetition, rfl, by rw [elapsed]; rfl, result⟩
  · cases h

/-- Numbers have no surrogates. -/
theorem isSeconds_joined (value : Value F S) :
    isSeconds floats value.joined = isSeconds floats value := by
  cases value <;> rfl

/-- A kept record is read as the attempt. -/
theorem Kept.reads (h : Kept floats identity attempt) : ∃ entry, attempt.entry floats = some entry ∧
    ∃ value, loads floats (recordLine floats identity attempt) = some value ∧
      readRecord floats identity value = .ok (some entry) := by
  obtain ⟨id, caseId, idJoined⟩ := h.caseId
  obtain ⟨n, repetition, pos⟩ := h.repetition
  obtain ⟨seconds, elapsed⟩ := Option.isSome_iff_exists.mp h.elapsed.2
  obtain ⟨members, result, resultJoined⟩ := h.result
  have distinct := attempt.distinct_of
  refine ⟨((id, n), ⟨attempt.input, seconds, members⟩), ?_, _,
    loads_write floats h.writable, ?_⟩
  · simp only [Attempt.entry, caseId, repetition, elapsed, result]
  · have number : attempt.elapsedSeconds.joined = attempt.elapsedSeconds := by
      have numeric := h.elapsed.1
      revert numeric
      cases attempt.elapsedSeconds <;> simp [isSeconds, Value.joined]
    have resultSame : attempt.result.joined = .obj members := by
      rw [joined_eq_self _ distinct.2.2.2.2 (result ▸ resultJoined), result]
    have same := CheckpointIdentity.joined_eq_self.mpr h.texts
    rw [joined_recordValue, readRecord_recordFields, same, caseId, repetition, number,
      joined_eq_self _ distinct.2.2.1 h.input, resultSame]
    simp [Value.joined, idJoined, h.elapsed.1, elapsed, not_lt.mpr pos]

/-! ## Lines -/

section Lines

omit [DecidableEq S]

/-- A line starts with a brace. -/
theorem recordLine_head (floats : Floats F) (identity : CheckpointIdentity S)
    (attempt : Attempt F S) : ∃ rest, recordLine floats identity attempt = '\x7b' :: rest :=
  ⟨_, by rw [recordLine, recordValue, write]⟩

/-- A record is one line. -/
theorem newline_notMem_recordLine (floats : Floats F) (identity : CheckpointIdentity S)
    (attempt : Attempt F S) : '\n' ∉ recordLine floats identity attempt := by
  intro h
  have hprintable := printable_write _ h
  exact absurd hprintable (by decide)

/-- Complete lines, the oldest first. -/
def wholeLines (floats : Floats F) (identity : CheckpointIdentity S)
    (attempts : List (Attempt F S)) : List Char :=
  attempts.flatMap fun attempt => recordLine floats identity attempt ++ ['\n']

/-- The first line of a file. -/
theorem splitOn_line {line : List Char} (h : '\n' ∉ line) (rest : List Char) :
    (line ++ '\n' :: rest).splitOn '\n' = line :: rest.splitOn '\n' := by
  rw [List.splitOn_eq_splitOnP]
  exact List.splitOnP_append_cons_of_forall_mem
    (fun _ hc => beq_false_of_ne (ne_of_mem_of_not_mem hc h)) _ (beq_self_eq_true _) _

/-- A text without a newline is one line. -/
theorem splitOn_tail {line : List Char} (h : '\n' ∉ line) : line.splitOn '\n' = [line] := by
  rw [List.splitOn_eq_splitOnP]
  exact List.splitOnP_eq_singleton fun _ hc => beq_false_of_ne (ne_of_mem_of_not_mem hc h)

/-- The lines of a file that starts with complete lines. -/
theorem splitOn_wholeLines (floats : Floats F) (identity : CheckpointIdentity S)
    (attempts : List (Attempt F S)) (rest : List Char) :
    (wholeLines floats identity attempts ++ rest).splitOn '\n'
      = attempts.map (recordLine floats identity) ++ rest.splitOn '\n' := by
  induction attempts with
  | nil => rfl
  | cons attempt attempts ih =>
    have hline : wholeLines floats identity (attempt :: attempts) ++ rest
        = recordLine floats identity attempt ++
          '\n' :: (wholeLines floats identity attempts ++ rest) := by
      simp [wholeLines]
    rw [hline, splitOn_line (newline_notMem_recordLine floats identity attempt), ih, List.map_cons,
      List.cons_append]

/-- A line that starts with a brace is not blank. -/
theorem not_isBlank {line : List Char} {rest : List Char} (h : line = '\x7b' :: rest) :
    isBlank line = false := by
  subst h
  rfl

/-- One complete line more. -/
theorem wholeLines_append (floats : Floats F) (identity : CheckpointIdentity S)
    (attempts : List (Attempt F S)) (attempt : Attempt F S) :
    wholeLines floats identity (attempts ++ [attempt])
      = wholeLines floats identity attempts ++ (recordLine floats identity attempt ++ ['\n']) := by
  simp [wholeLines]

end Lines

/-! ## What is saved -/

omit [Text S] in
/-- Forgetting a key keeps the others. -/
theorem lookup_filter_ne (key key' : S × ℤ) (h : key ≠ key') (saved : Saved F S) :
    (saved.filter fun entry => entry.1 != key).lookup key' = saved.lookup key' := by
  induction saved with
  | nil => rfl
  | cons entry saved ih =>
    obtain ⟨k, attempt⟩ := entry
    by_cases hk : k = key
    · have hkey : (key' == k) = false := beq_false_of_ne fun heq => h (hk ▸ heq.symm)
      rw [List.filter_cons_of_neg (by simp [hk]), ih, List.lookup_cons, hkey]
    · rw [List.filter_cons_of_pos (by simp [hk]), List.lookup_cons, List.lookup_cons, ih]

omit [Text S] in
/-- The new attempt is found under its key, the others as before. -/
theorem lookup_save (key key' : S × ℤ) (attempt : SavedAttempt F S) (saved : Saved F S) :
    (save key attempt saved).lookup key' =
      if key = key' then some attempt else saved.lookup key' := by
  rw [save, List.lookup_cons]
  by_cases h : key = key'
  · simp [h]
  · have hkey : (key' == key) = false := beq_false_of_ne (Ne.symm h)
    rw [hkey, if_neg h]
    exact lookup_filter_ne key key' h saved

omit [Text S] in
/-- What reading the records of these attempts, the latest first, saves. -/
def savedOf (floats : Floats F) (attempts : List (Attempt F S)) : Saved F S :=
  (attempts.filterMap (Attempt.entry floats)).foldr (fun entry saved => save entry.1 entry.2 saved) []

omit [Text S] in
/-- The latest attempt is saved last. -/
theorem savedOf_cons {entry : (S × ℤ) × SavedAttempt F S} (h : attempt.entry floats = some entry)
    (attempts : List (Attempt F S)) :
    savedOf floats (attempt :: attempts) = save entry.1 entry.2 (savedOf floats attempts) := by
  rw [savedOf, List.filterMap_cons_some h, List.foldr_cons]
  rfl

omit [Text S] in
/-- The latest record of a key is the one found. -/
theorem lookup_savedOf (attempts : List (Attempt F S)) (key : S × ℤ) :
    (savedOf floats attempts).lookup key =
      (attempts.filterMap (Attempt.entry floats)).lookup key := by
  unfold savedOf
  induction attempts.filterMap (Attempt.entry floats) with
  | nil => rfl
  | cons entry entries ih =>
    obtain ⟨other, attempt⟩ := entry
    rw [List.foldr_cons, lookup_save, ih, List.lookup_cons]
    by_cases same : other = key
    · rw [if_pos same, beq_iff_eq.mpr same.symm]
    · rw [if_neg same, beq_false_of_ne (Ne.symm same)]

/-- Reading complete lines saves their attempts, the last one of a key last. -/
theorem loadLines_recordLines {attempts : List (Attempt F S)}
    (kept : ∀ attempt ∈ attempts, Kept floats identity attempt) (before : List (Attempt F S))
    (rest : List (List Char)) :
    loadLines floats identity (savedOf floats before)
        (attempts.map (recordLine floats identity) ++ rest)
      = loadLines floats identity (savedOf floats (attempts.reverse ++ before)) rest := by
  induction attempts generalizing before with
  | nil => rfl
  | cons attempt attempts ih =>
    obtain ⟨tail, hhead⟩ := recordLine_head floats identity attempt
    obtain ⟨entry, hentry, value, hloads, hread⟩ := (kept attempt List.mem_cons_self).reads
    rw [List.map_cons, List.cons_append, loadLines, not_isBlank hhead]
    simp only [Bool.false_eq_true, if_false]
    rw [hloads]
    simp only [hread]
    show loadLines floats identity (save entry.1 entry.2 (savedOf floats before)) _ = _
    rw [← savedOf_cons hentry, ih fun other hother => kept other (List.mem_cons_of_mem _ hother),
      List.reverse_cons, List.append_assoc, List.singleton_append]

/-- Reading a file that starts with complete lines saves their attempts first. -/
theorem load_wholeLines {completed : List (Attempt F S)}
    (kept : ∀ attempt ∈ completed, Kept floats identity attempt) (rest : List Char)
    (hsize : (wholeLines floats identity completed.reverse ++ rest).length ≤ MAX_CHECKPOINT_BYTES) :
    load floats identity (wholeLines floats identity completed.reverse ++ rest)
      = loadLines floats identity (savedOf floats completed) (rest.splitOn '\n') := by
  have lines := loadLines_recordLines
    (fun attempt hmem => kept attempt (List.mem_reverse.mp hmem)) [] (rest.splitOn '\n')
  rw [List.reverse_reverse, List.append_nil] at lines
  rw [load, if_neg (not_lt.mpr hsize), splitOn_wholeLines]
  exact lines

/-! ## The file after a history -/

/-- How the file ends after the complete lines of the disk. -/
inductive Intact (floats : Floats F) (identity : CheckpointIdentity S) : Disk F S → Prop
  | clean (completed : List (Attempt F S))
      (kept : ∀ attempt ∈ completed, Kept floats identity attempt) :
      Intact floats identity ⟨wholeLines floats identity completed.reverse, completed⟩
  | unterminated (attempt : Attempt F S) (completed : List (Attempt F S))
      (kept : ∀ other ∈ attempt :: completed, Kept floats identity other) :
      Intact floats identity
        ⟨wholeLines floats identity completed.reverse ++ recordLine floats identity attempt,
          attempt :: completed⟩
  | torn (attempt : Attempt F S) (completed : List (Attempt F S)) (front back : List Char)
      (kept : ∀ other ∈ completed, Kept floats identity other)
      (writable : (recordValue identity attempt).writable floats = true)
      (split : recordLine floats identity attempt = front ++ back) (front_ne : front ≠ [])
      (back_ne : back ≠ []) :
      Intact floats identity ⟨wholeLines floats identity completed.reverse ++ front, completed⟩

/-- Every complete record of an intact journal is kept. -/
theorem Intact.kept {disk : Disk F S} (h : Intact floats identity disk) :
    ∀ attempt ∈ disk.completed, Kept floats identity attempt := by
  cases h with
  | clean completed kept => exact kept
  | unterminated attempt completed kept => exact kept
  | torn attempt completed front back kept => exact kept

omit [DecidableEq S] in
/-- A torn line starts with a brace. -/
theorem torn_head {front back : List Char}
    (split : recordLine floats identity attempt = front ++ back) (front_ne : front ≠ []) :
    ∃ rest, front = '\x7b' :: rest := by
  obtain ⟨tail, hhead⟩ := recordLine_head floats identity attempt
  cases front with
  | nil => exact absurd rfl front_ne
  | cons c front =>
    rw [hhead, List.cons_append] at split
    exact ⟨front, by rw [(List.cons.inj split).1]⟩

omit [DecidableEq S] in
/-- A torn line is one line. -/
theorem torn_newline {front back : List Char}
    (split : recordLine floats identity attempt = front ++ back) : '\n' ∉ front := fun h =>
  newline_notMem_recordLine floats identity attempt (split ▸ List.mem_append_left back h)

/-- A torn line is no complete text. -/
theorem torn_loads {front back : List Char}
    (writable : (recordValue identity attempt).writable floats = true)
    (split : recordLine floats identity attempt = front ++ back) (back_ne : back ≠ []) :
    (loads floats front : Option (Value F S)) = none :=
  loads_prefix writable split back_ne

/-- An intact journal loads with the last complete record of each attempt. -/
theorem Intact.loads {disk : Disk F S} (h : Intact floats identity disk)
    (hsize : disk.file.length ≤ MAX_CHECKPOINT_BYTES) : disk.Loads floats identity := by
  refine ⟨savedOf floats disk.completed, ?_, fun attempt mem => ?_, lookup_savedOf disk.completed⟩
  · cases h with
    | clean completed kept =>
      have hload := load_wholeLines kept [] (by simpa using hsize)
      rwa [List.append_nil] at hload
    | unterminated attempt completed kept =>
      have single : ∀ other ∈ [attempt], Kept floats identity other := fun other hother =>
        kept other (List.mem_singleton.mp hother ▸ List.mem_cons_self)
      have hline := loadLines_recordLines single completed []
      rw [List.map_singleton, List.append_nil] at hline
      rw [load_wholeLines (fun other hother => kept other (List.mem_cons_of_mem _ hother)) _ hsize,
        splitOn_tail (newline_notMem_recordLine floats identity attempt), hline]
      rfl
    | torn attempt completed front back kept writable split front_ne back_ne =>
      obtain ⟨rest, hhead⟩ := torn_head split front_ne
      rw [load_wholeLines kept _ hsize, splitOn_tail (torn_newline split), loadLines,
        not_isBlank hhead, torn_loads writable split back_ne]
      rfl
  · obtain ⟨entry, hentry, -⟩ := (h.kept attempt mem).reads
    rw [hentry]
    rfl

/-! ## Torn lines -/

omit [DecidableEq S] in
/-- The last line of a file that starts with complete lines. -/
theorem mem_getLast?_splitOn {attempts : List (Attempt F S)} {rest line : List Char}
    (hrest : '\n' ∉ rest) :
    line ∈ ((wholeLines floats identity attempts ++ rest).splitOn '\n').getLast? ↔ line = rest := by
  rw [splitOn_wholeLines, splitOn_tail hrest, List.getLast?_append]
  simp [eq_comm]

/-- A file of complete lines does not end in a torn one. -/
theorem not_torn_clean (attempts : List (Attempt F S)) :
    ¬ Torn S floats (wholeLines floats identity attempts) := by
  rintro ⟨line, hline, hne, _⟩
  rw [← List.append_nil (wholeLines floats identity attempts),
    mem_getLast?_splitOn (List.not_mem_nil)] at hline
  exact hne hline

/-- A line without its newline is not torn. -/
theorem not_torn_unterminated (kept : Kept floats identity attempt) (attempts : List (Attempt F S)) :
    ¬ Torn S floats (wholeLines floats identity attempts ++ recordLine floats identity attempt) := by
  rintro ⟨line, hline, _, hloads⟩
  obtain ⟨_, _, value, reads, _⟩ := kept.reads
  rw [mem_getLast?_splitOn (newline_notMem_recordLine floats identity attempt)] at hline
  rw [hline, reads] at hloads
  cases hloads

/-- A file that ends in the beginning of a line ends in a torn one. -/
theorem torn_of_front {front back : List Char}
    (writable : (recordValue identity attempt).writable floats = true)
    (split : recordLine floats identity attempt = front ++ back) (front_ne : front ≠ [])
    (back_ne : back ≠ []) (attempts : List (Attempt F S)) :
    Torn S floats (wholeLines floats identity attempts ++ front) :=
  ⟨front, (mem_getLast?_splitOn (torn_newline split)).mpr rfl, front_ne,
    torn_loads writable split back_ne⟩

/-! ## One call -/

/-- A line without its newline does not end in one. -/
theorem getLast?_append_of_notMem {file line : List Char} (h : '\n' ∉ line) (hne : line ≠ []) :
    (file ++ line).getLast? ≠ some '\n' := by
  rw [List.getLast?_append_of_ne_nil _ hne]
  exact fun hlast => h (List.mem_of_getLast? hlast)

omit [DecidableEq S] in
/-- After complete lines no line break is missing. -/
theorem lineBreak_clean (completed : List (Attempt F S)) :
    lineBreak (wholeLines floats identity completed.reverse) = [] := by
  cases completed with
  | nil => rfl
  | cons attempt completed =>
    rw [List.reverse_cons, wholeLines_append, lineBreak, if_neg]
    rw [← List.append_assoc, List.getLast?_append_of_ne_nil _ (List.cons_ne_nil _ _)]
    simp

/-- After a line without its newline a line break is missing. -/
theorem lineBreak_of_notMem {file line : List Char} (h : '\n' ∉ line) (hne : line ≠ []) :
    lineBreak (file ++ line) = ['\n'] := by
  rw [lineBreak, if_pos ⟨by simp [hne], getLast?_append_of_notMem h hne⟩]

omit [Text S] [DecidableEq S] in
/-- The bytes that reach the file are the first ones of the data. -/
theorem Call.written_split (call : Call F S) (data : List Char) :
    ∃ lost, data = call.written data ++ lost := by
  unfold Call.written
  cases call.diedAfter with
  | none => exact ⟨[], (List.append_nil _).symm⟩
  | some bytes => exact ⟨_, (List.take_append_drop bytes data).symm⟩

omit [DecidableEq S] in
/-- An accepted record appends its data. -/
theorem record_eq_ok_iff {file data : List Char} : record floats identity attempt file = .ok data ↔
    Accepted floats identity attempt file ∧ data = recordData floats identity attempt file := by
  unfold record Accepted
  simp only
  constructor
  · intro accepted
    split_ifs at accepted with refused hlimit
    cases accepted
    exact ⟨⟨by simpa using refused, not_lt.mp hlimit⟩, rfl⟩
  · rintro ⟨⟨hwritable, hsize⟩, rfl⟩
    rw [if_neg (by simp [hwritable]), if_neg (not_lt.mpr hsize)]

omit [DecidableEq S] in
/-- What completes a line appends something. -/
theorem Call.Completes.appends {call : Call F S} {file : List Char}
    (h : call.Completes floats identity file) : call.Appends floats identity file := by
  refine ⟨h.1, fun died => ?_⟩
  obtain ⟨rest, hhead⟩ := recordLine_head floats identity call.attempt
  have short := h.2 0 died
  simp only [recordData, hhead, List.length_append, List.length_cons] at short
  omega

omit [DecidableEq S] in
/-- One call either changes nothing or appends the first bytes of the record's data. -/
theorem Disk.step_cases (floats : Floats F) (identity : CheckpointIdentity S) (disk : Disk F S)
    (call : Call F S) :
    (¬ call.Appends floats identity disk.file ∧ disk.step floats identity call = disk) ∨
      ∃ written lost, written ≠ [] ∧ call.Appends floats identity disk.file ∧
        recordData floats identity call.attempt disk.file = written ++ lost ∧
        (lost.length ≤ 1 ↔ call.Completes floats identity disk.file) ∧
        disk.step floats identity call = ⟨disk.file ++ written,
          if lost.length ≤ 1 then call.attempt :: disk.completed else disk.completed⟩ := by
  unfold Disk.step
  cases hrecord : record floats identity call.attempt disk.file with
  | error error =>
    refine Or.inl ⟨fun appends => ?_, rfl⟩
    rw [record_eq_ok_iff.mpr ⟨appends.1, rfl⟩] at hrecord
    cases hrecord
  | ok data =>
    obtain ⟨accepted, hdata⟩ := record_eq_ok_iff.mp hrecord
    obtain ⟨lost, hlost⟩ := call.written_split data
    have hlen : data.length = (call.written data).length + lost.length := by
      rw [← List.length_append, ← hlost]
    have hcomplete : data.length ≤ (call.written data).length + 1 ↔ lost.length ≤ 1 := by omega
    have completes : lost.length ≤ 1 ↔ call.Completes floats identity disk.file := by
      rw [← hcomplete, Call.Completes, and_iff_right accepted, ← hdata]
      unfold Call.written
      cases call.diedAfter with
      | none => simp
      | some bytes =>
        simp only [List.length_take, Option.mem_some_iff, forall_eq']
        omega
    simp only [hcomplete]
    -- a call that dies before its first byte leaves the disk as it was
    by_cases died : call.diedAfter = some 0
    · have hlong : ¬ lost.length ≤ 1 := fun short => (completes.mp short).appends.2 died
      have hnone : call.written data = [] := by
        rw [Call.written, died]
        rfl
      rw [if_neg hlong, hnone, List.append_nil]
      exact Or.inl ⟨fun appends => appends.2 died, rfl⟩
    · have hwritten : call.written data ≠ [] := by
        obtain ⟨rest, hhead⟩ := recordLine_head floats identity call.attempt
        have hdata_ne : data ≠ [] := by simp [hdata, recordData, hhead]
        unfold Call.written
        cases hbytes : call.diedAfter with
        | none => exact hdata_ne
        | some bytes =>
          rw [hbytes] at died
          simp only [ne_eq, List.take_eq_nil_iff, hdata_ne, or_false]
          exact fun zero => died (congrArg some zero)
      exact Or.inr ⟨call.written data, lost, hwritten, ⟨accepted, died⟩, by rw [← hdata, ← hlost],
        completes, rfl⟩

omit [DecidableEq S] in
/-- The file of a disk never grows over the limit. -/
theorem Disk.step_size (floats : Floats F) (identity : CheckpointIdentity S) (disk : Disk F S)
    (call : Call F S) (hsize : disk.file.length ≤ MAX_CHECKPOINT_BYTES) :
    (disk.step floats identity call).file.length ≤ MAX_CHECKPOINT_BYTES := by
  rcases disk.step_cases floats identity
    call with ⟨_, heq⟩ | ⟨written, lost, _, appends, hdata, _, heq⟩
  · rw [heq]
    exact hsize
  · have hlimit := appends.1.2
    rw [hdata] at hlimit
    rw [heq]
    simp only [List.length_append] at hlimit ⊢
    omega

/-- What is appended to a journal without a torn line are the first bytes of a line after complete
lines. -/
theorem Intact.append_shape {disk : Disk F S} (h : Intact floats identity disk)
    (htorn : ¬ Torn S floats disk.file) {written lost : List Char} (hne : written ≠ [])
    (hsplit : recordData floats identity attempt disk.file = written ++ lost) :
    ∃ part, disk.file ++ written = wholeLines floats identity disk.completed.reverse ++ part ∧
      recordLine floats identity attempt ++ ['\n'] = part ++ lost := by
  rw [recordData, List.append_assoc] at hsplit
  cases h with
  | clean completed kept =>
    rw [lineBreak_clean, List.nil_append] at hsplit
    exact ⟨written, rfl, hsplit⟩
  | unterminated last completed kept =>
    obtain ⟨rest, hhead⟩ := recordLine_head floats identity last
    rw [lineBreak_of_notMem (newline_notMem_recordLine floats identity last) (by simp [hhead])]
      at hsplit
    obtain ⟨first, part, rfl⟩ := List.exists_cons_of_ne_nil hne
    obtain ⟨rfl, hrest⟩ := List.cons.inj hsplit
    refine ⟨part, ?_, hrest⟩
    simp only [List.reverse_cons, wholeLines_append, List.append_assoc, List.cons_append,
      List.nil_append]
  | torn last completed front back kept writable split front_ne back_ne =>
    exact absurd (torn_of_front writable split front_ne back_ne _) htorn

/-- Part of a record after complete lines leaves the journal intact, unless it is a complete record
that is not readable. -/
theorem intact_append {completed : List (Attempt F S)}
    (kept : ∀ other ∈ completed, Kept floats identity other)
    (writable : (recordValue identity attempt).writable floats = true) {part lost : List Char}
    (hsplit : recordLine floats identity attempt ++ ['\n'] = part ++ lost)
    (readable : lost.length ≤ 1 → Readable floats identity attempt) :
    Intact floats identity ⟨wholeLines floats identity completed.reverse ++ part,
      if lost.length ≤ 1 then attempt :: completed else completed⟩ := by
  rcases List.eq_nil_or_concat lost with rfl | ⟨back, last, rfl⟩
  · have whole : ∀ other ∈ attempt :: completed, Kept floats identity other :=
      List.forall_mem_cons.mpr ⟨⟨readable (Nat.zero_le 1), writable⟩, kept⟩
    have hwhole := Intact.clean _ whole
    rw [List.reverse_cons, wholeLines_append, hsplit, List.append_nil] at hwhole
    exact hwhole
  · rw [List.concat_eq_append, ← List.append_assoc] at hsplit
    obtain ⟨hline, -⟩ := List.append_inj' hsplit rfl
    by_cases hback : back = []
    · subst hback
      have whole : ∀ other ∈ attempt :: completed, Kept floats identity other :=
        List.forall_mem_cons.mpr ⟨⟨readable le_rfl, writable⟩, kept⟩
      rw [List.append_nil] at hline
      rw [← hline]
      exact Intact.unterminated attempt completed whole
    · have hlong : ¬ (back.concat last).length ≤ 1 := by
        have := List.length_pos_of_ne_nil hback
        simp only [List.length_concat]
        omega
      rw [if_neg hlong]
      by_cases hpart : part = []
      · rw [hpart, List.append_nil]
        exact Intact.clean completed kept
      · exact Intact.torn attempt completed part back kept writable hline hpart hback

/-! ## What goes wrong -/

/-- A torn line that is not the last one makes the journal unreadable. -/
theorem Intact.not_loads_after_torn {disk : Disk F S} (h : Intact floats identity disk)
    (hsize : disk.file.length ≤ MAX_CHECKPOINT_BYTES) {call : Call F S}
    (htorn : Torn S floats disk.file) (appends : call.Appends floats identity disk.file) :
    ¬ (disk.step floats identity call).Loads floats identity := by
  have hsize' := disk.step_size floats identity call hsize
  rcases disk.step_cases floats identity
    call with ⟨refused, _⟩ | ⟨written, lost, hne, _, hdata, _, heq⟩
  · exact absurd appends refused
  rw [heq] at hsize' ⊢
  cases h with
  | clean completed kept => exact absurd htorn (not_torn_clean _)
  | unterminated attempt completed kept =>
    exact absurd htorn (not_torn_unterminated (kept attempt List.mem_cons_self) _)
  | torn attempt completed front back kept writable split front_ne back_ne =>
    rw [recordData, List.append_assoc, lineBreak_of_notMem (torn_newline split) front_ne] at hdata
    obtain ⟨first, written, rfl⟩ := List.exists_cons_of_ne_nil hne
    obtain ⟨rfl, -⟩ := List.cons.inj hdata
    obtain ⟨rest, hhead⟩ := torn_head split front_ne
    rintro ⟨saved, hload, -⟩
    simp only [List.append_assoc] at hload hsize'
    rw [load_wholeLines kept _ hsize', splitOn_line (torn_newline split), loadLines,
      not_isBlank hhead, torn_loads writable split back_ne] at hload
    simp only [Bool.false_eq_true, if_false] at hload
    split_ifs at hload with hlast
    exact List.splitOn_ne_nil _ _ hlast

/-- Reading a file that ends in a complete record decides by what the record reads as. -/
theorem load_complete {completed : List (Attempt F S)}
    (kept : ∀ other ∈ completed, Kept floats identity other)
    (writable : (recordValue identity attempt).writable floats = true) {part lost : List Char}
    (hsplit : recordLine floats identity attempt ++ ['\n'] = part ++ lost) (short : lost.length ≤ 1)
    (hsize : (wholeLines floats identity completed.reverse ++ part).length ≤ MAX_CHECKPOINT_BYTES) :
    load floats identity (wholeLines floats identity completed.reverse ++ part) =
      match readRecord floats identity (recordValue identity attempt).joined with
      | .error error => .error error
      | .ok none => .ok (savedOf floats completed)
      | .ok (some (key, saved)) => .ok (save key saved (savedOf floats completed)) := by
  obtain ⟨rest, hhead⟩ := recordLine_head floats identity attempt
  have newline := newline_notMem_recordLine floats identity attempt
  -- the line is the last one, or only an empty one follows it
  have lines : part.splitOn '\n' = [recordLine floats identity attempt] ∨
      part.splitOn '\n' = [recordLine floats identity attempt, []] := by
    rcases List.eq_nil_or_concat lost with rfl | ⟨back, last, rfl⟩
    · rw [List.append_nil] at hsplit
      right
      rw [← hsplit, splitOn_line newline]
      rfl
    · have back_nil : back = [] := by
        rw [List.length_concat] at short
        exact List.length_eq_zero_iff.mp (by omega)
      rw [back_nil, List.concat_eq_append, List.nil_append] at hsplit
      left
      rw [← (List.append_inj' hsplit rfl).1, splitOn_tail newline]
  have ends (saved : Saved F S) (last : List (List Char)) (blank : last = [] ∨ last = [[]]) :
      loadLines floats identity saved last = .ok saved := by
    rcases blank with rfl | rfl <;> rfl
  rw [load_wholeLines kept _ hsize]
  rcases lines with lines | lines
  all_goals
    rw [lines, loadLines, not_isBlank hhead, recordLine, loads_write floats writable]
    simp only [Bool.false_eq_true, if_false]
    cases readRecord floats identity (recordValue identity attempt).joined with
    | error error => rfl
    | ok found =>
      cases found with
      | none => exact ends _ _ (by simp)
      | some entry => exact ends _ _ (by simp)

/-- What a record is read as, if it is read: the identity is the one of the evaluation, and the members
are the arguments with their surrogates joined. -/
theorem readRecord_joined {key : S × ℤ} {saved : SavedAttempt F S}
    (h : readRecord floats identity (recordValue identity attempt).joined = .ok (some (key, saved))) :
    identity.joined = identity ∧ attempt.caseId.joined = .str key.1 ∧
      attempt.repetition.joined = .int key.2 ∧ 1 ≤ key.2 ∧
      isSeconds floats attempt.elapsedSeconds.joined = true ∧ saved.input = attempt.input.joined ∧
      attempt.result.joined = .obj saved.result := by
  rw [joined_recordValue, readRecord_recordFields] at h
  split_ifs at h with other mismatch
  · cases h
  split at h
  next id n members caseId repetition result =>
    split_ifs at h with invalid
    split at h
    · cases h
      simp only [Bool.or_eq_true, decide_eq_true_eq, Bool.not_eq_true', not_or, not_lt,
        Bool.not_eq_false] at invalid
      exact ⟨not_not.mp mismatch, caseId, repetition, invalid.1, invalid.2, rfl, result⟩
    · cases h
  · cases h

/-- A journal that loads with a complete record after it reads the record as it was written. -/
theorem readable_of_loads {completed : List (Attempt F S)}
    (kept : ∀ other ∈ completed, Kept floats identity other)
    (writable : (recordValue identity attempt).writable floats = true) {part lost : List Char}
    (hsplit : recordLine floats identity attempt ++ ['\n'] = part ++ lost) (short : lost.length ≤ 1)
    (hsize : (wholeLines floats identity completed.reverse ++ part).length ≤ MAX_CHECKPOINT_BYTES)
    (hloads : Disk.Loads floats identity
      ⟨wholeLines floats identity completed.reverse ++ part, attempt :: completed⟩) :
    Readable floats identity attempt := by
  obtain ⟨saved, hload, entries, found⟩ := hloads
  rw [load_complete kept writable hsplit short hsize] at hload
  obtain ⟨entry, hentry⟩ := Option.isSome_iff_exists.mp (entries attempt List.mem_cons_self)
  obtain ⟨caseId, repetition, input, elapsed, result⟩ := Attempt.entry_eq_some hentry
  have found := found entry.1
  rw [List.filterMap_cons_some hentry, List.lookup_cons_self] at found
  -- what is not read from this record is read from an earlier one with its key
  have earlier (found : (savedOf floats completed).lookup entry.1 = some entry.2) :
      identity.joined = identity ∧ Text.joined entry.1.1 = entry.1.1 := by
    rw [lookup_savedOf] at found
    obtain ⟨front, back, split, _⟩ := List.lookup_eq_some_iff.mp found
    have mem : entry ∈ completed.filterMap (Attempt.entry floats) := by
      rw [split]
      exact List.mem_append_right _ List.mem_cons_self
    obtain ⟨other, hother, hentry⟩ := List.mem_filterMap.mp mem
    obtain ⟨id, otherId, joined⟩ := (kept other hother).caseId
    cases otherId.symm.trans (Attempt.entry_eq_some hentry).1
    exact ⟨CheckpointIdentity.joined_eq_self.mpr (kept other hother).texts, joined⟩
  cases hread : readRecord floats identity (recordValue identity attempt).joined with
  | error error =>
    rw [hread] at hload
    cases hload
  | ok read =>
    rw [hread] at hload
    cases read with
    | none =>
      cases hload
      -- a record is skipped for its suite only
      obtain ⟨same, _⟩ := earlier found
      rw [joined_recordValue, readRecord_recordFields, same] at hread
      split_ifs at hread with other
      · exact absurd rfl other
      · split at hread
        · split_ifs at hread
          split at hread <;> cases hread
        · cases hread
    | some read =>
      cases hload
      obtain ⟨same, joinedId, joinedRepetition, pos, seconds, joinedInput, joinedResult⟩ :=
        readRecord_joined hread
      rw [caseId] at joinedId
      rw [repetition] at joinedRepetition
      rw [lookup_save] at found
      have key : read.1 = (Text.joined entry.1.1, entry.1.2) :=
        Prod.ext (Value.str.inj joinedId).symm (Value.int.inj joinedRepetition).symm
      have joined : Text.joined entry.1.1 = entry.1.1 := by
        by_cases same : read.1 = entry.1
        · rw [key] at same
          exact congrArg Prod.fst same
        · rw [if_neg same] at found
          exact (earlier found).2
      rw [key, joined, if_pos rfl, Option.some.injEq] at found
      rw [← found] at input result
      refine ⟨CheckpointIdentity.joined_eq_self.mp same, ⟨_, caseId, joined⟩, ⟨_, repetition, ?_⟩,
        ⟨by rwa [isSeconds_joined] at seconds, elapsed⟩, ?_, ⟨_, result, ?_⟩⟩
      · rwa [← Value.int.inj joinedRepetition] at pos
      · rw [input, joinedInput]
        exact isJoined_joined _
      · rw [← joinedResult]
        exact isJoined_joined _

/-! ## Whole histories -/

/-- A call that appends nothing after a torn line and completes only readable lines leaves the journal
intact. -/
theorem Intact.step {disk : Disk F S} (h : Intact floats identity disk) {call : Call F S}
    (untorn : Torn S floats disk.file → ¬ call.Appends floats identity disk.file)
    (readable : call.Completes floats identity disk.file → Readable floats identity call.attempt) :
    Intact floats identity (disk.step floats identity call) := by
  rcases disk.step_cases floats identity call with ⟨_, heq⟩ | ⟨written, lost, hne, appends, hdata,
    completes, heq⟩
  · rwa [heq]
  · obtain ⟨part, hfile, hsplit⟩ := h.append_shape (fun torn => untorn torn appends) hne hdata
    rw [heq, hfile]
    exact intact_append h.kept appends.1.1 hsplit fun short => readable (completes.mp short)

/-- A journal that loads after a call was not appended to after a torn line, and the line that the call
completed is readable. -/
theorem Intact.readable_of_step {disk : Disk F S} (h : Intact floats identity disk)
    (hsize : disk.file.length ≤ MAX_CHECKPOINT_BYTES) {call : Call F S}
    (hloads : (disk.step floats identity call).Loads floats identity) :
    (Torn S floats disk.file → ¬ call.Appends floats identity disk.file) ∧
      (call.Completes floats identity disk.file → Readable floats identity call.attempt) := by
  have untorn : Torn S floats disk.file → ¬ call.Appends floats identity disk.file :=
    fun torn appends => h.not_loads_after_torn hsize torn appends hloads
  refine ⟨untorn, fun done => ?_⟩
  have hsize' := disk.step_size floats identity call hsize
  rcases disk.step_cases floats identity call with ⟨refused, _⟩ | ⟨written, lost, hne, appends, hdata,
    completes, heq⟩
  · exact absurd done.appends refused
  · obtain ⟨part, hfile, hsplit⟩ := h.append_shape (fun torn => untorn torn appends) hne hdata
    rw [heq, hfile] at hloads hsize'
    rw [if_pos (completes.mpr done)] at hloads
    exact readable_of_loads h.kept appends.1.1 hsplit (completes.mpr done) hsize' hloads

/-- What survives loads now. -/
theorem Survives.head {disk : Disk F S} {calls : List (Call F S)}
    (h : Survives floats identity disk calls) : disk.Loads floats identity := by
  cases calls with
  | nil => exact h
  | cons call calls => exact h.1

/-- From an intact journal on, the journal survives exactly what keeps it readable. -/
theorem Intact.survives_iff {disk : Disk F S} (h : Intact floats identity disk)
    (hsize : disk.file.length ≤ MAX_CHECKPOINT_BYTES) (calls : List (Call F S)) :
    Survives floats identity disk calls ↔ StaysReadable floats identity disk calls := by
  induction calls generalizing disk with
  | nil => exact ⟨fun _ => trivial, fun _ => h.loads hsize⟩
  | cons call calls ih =>
    have hsize' := disk.step_size floats identity call hsize
    constructor
    · rintro ⟨_, later⟩
      obtain ⟨untorn, readable⟩ := h.readable_of_step hsize later.head
      exact ⟨untorn, readable, (ih (h.step untorn readable) hsize').mp later⟩
    · rintro ⟨untorn, readable, later⟩
      exact ⟨h.loads hsize, (ih (h.step untorn readable) hsize').mpr later⟩

/-- A journal written by one process after the other, any of which may die during a write, loads at
every moment with the last complete record of each attempt if and only if nothing is ever appended
to a file that ends in a torn line and every complete record is readable. The strings are those of
Python: lists of code points, among which surrogates may stand alone. -/
theorem survives_iff_staysReadable (floats : Floats F) (identity : CheckpointIdentity PyText)
    (calls : List (Call F PyText)) :
    Survives floats identity Disk.empty calls ↔ StaysReadable floats identity Disk.empty calls :=
  (Intact.clean [] (by simp)).survives_iff (Nat.zero_le _) calls

/-! ## A crash followed by a record -/

/-- Floats with one digit on each side of the point. -/
def tenths : Floats (Fin 10 × Fin 10) where
  number x := ⟨false, [x.1.val.digitChar], [x.2.val.digitChar], []⟩
  ofNumber n := (⟨Nat.ofDigitChars 10 n.whole 0 % 10, Nat.mod_lt _ (by decide)⟩,
    ⟨Nat.ofDigitChars 10 n.fraction 0 % 10, Nat.mod_lt _ (by decide)⟩)
  ofInt n := if n.natAbs < 10 then some (⟨n.natAbs % 10, Nat.mod_lt _ (by decide)⟩, 0) else none
  isNegative _ := false
  isFinite _ := true
  maxDigits := 4300
  maxLevels := 1000
  valid x :=
    { whole_ne_nil := List.cons_ne_nil _ _
      whole_digits := by simp [Digits]
      no_leading_zero := by simp
      fraction_digits := by simp [Digits]
      exponent_text := Or.inl rfl }
  not_int x := rfl
  ofNumber_number := by
    rintro ⟨whole, fraction⟩ -
    revert whole fraction
    decide

/-- An evaluation. -/
def exampleIdentity : CheckpointIdentity PyText :=
  ⟨Text.ofString "suite", Text.ofString "variant", Text.ofString "1", Text.ofString "configuration",
    none, none, none⟩

/-- An attempt of it. -/
def exampleAttempt : Attempt (Fin 10 × Fin 10) PyText where
  caseId := .str (Text.ofString "case")
  repetition := .int 1
  input := .null
  elapsedSeconds := .float (0, 5)
  result := .obj []
  distinct := by simp [Value.Distinct, MembersDistinct]

/-- The process dies after one byte of its first record, and the next one records it again. -/
theorem crash_then_record_not_survives :
    ¬ ∀ (F : Type) (floats : Floats F) (identity : CheckpointIdentity PyText)
      (calls : List (Call F PyText)), Survives floats identity Disk.empty calls := by
  intro hall
  obtain ⟨_, _, saved, hload, _⟩ := hall _ tenths exampleIdentity
    [⟨exampleAttempt, some 1⟩, ⟨exampleAttempt, none⟩]
  have hfails : (load tenths exampleIdentity
      (((Disk.empty.step tenths exampleIdentity ⟨exampleAttempt, some 1⟩).step tenths exampleIdentity
        ⟨exampleAttempt, none⟩).file)).toOption.isNone = true := by
    decide +kernel
  rw [hload] at hfails
  cases hfails

end Foliqant.Evaluation

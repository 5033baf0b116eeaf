import Foliqant.Compiler.RouteVerdicts
import Foliqant.Core.Prompt
import Foliqant.Core.RepeatProtocol

/-!
# Templates as an escape language

A template is a sequence of escaped literals with references between them. Exactly these texts compile,
and a compiled template renders the literals with the canonical JSON of the values between them.
-/

namespace Foliqant.Core

open JsonText Compiler

/-! ## Escaped literals -/

/-- Double every pair of equal braces, from left to right. -/
def escapeBraces : List Char → List Char
  | '\x7b' :: '\x7b' :: rest => '\x7b' :: '\x7b' :: '\x7b' :: '\x7b' :: escapeBraces rest
  | '\x7d' :: '\x7d' :: rest => '\x7d' :: '\x7d' :: '\x7d' :: '\x7d' :: escapeBraces rest
  | c :: rest => c :: escapeBraces rest
  | [] => []

/-- A text begins with two equal braces. -/
def Paired : List Char → Prop
  | first :: second :: _ => first = second ∧ (first = '\x7b' ∨ first = '\x7d')
  | _ => False

/-- How many opening braces end a text. -/
def openingEnd (text : List Char) : ℕ := (text.reverse.takeWhile (· = '\x7b')).length

/-- A character that makes no pair is not escaped. -/
theorem escapeBraces_cons {c : Char} {rest : List Char} (single : ¬ Paired (c :: rest)) :
    escapeBraces (c :: rest) = c :: escapeBraces rest := by
  rw [escapeBraces]
  · rintro more rfl rfl
    exact single ⟨rfl, .inl rfl⟩
  · rintro more rfl rfl
    exact single ⟨rfl, .inr rfl⟩

/-- Escaping keeps the first character. -/
theorem escapeBraces_head (text : List Char) : (escapeBraces text).head? = text.head? := by
  cases text using escapeBraces.fun_cases with
  | case1 => rfl
  | case2 => rfl
  | case3 c rest h1 h2 => rw [escapeBraces]; rfl; exact h1; exact h2
  | case4 => rfl

/-- Opening braces end in the text. -/
theorem openingEnd_le (text : List Char) : openingEnd text ≤ text.length := by
  have bound := (List.takeWhile_sublist (fun c : Char => decide (c = '\x7b'))
    (l := text.reverse)).length_le
  rwa [List.length_reverse] at bound

/-- Opening braces from one character on. -/
theorem openingEnd_cons (c : Char) (rest : List Char) : openingEnd (c :: rest) =
    if openingEnd rest = rest.length ∧ c = '\x7b' then rest.length + 1 else openingEnd rest := by
  unfold openingEnd
  rw [List.reverse_cons, List.takeWhile_append, List.length_reverse]
  by_cases all : (rest.reverse.takeWhile (· = '\x7b')).length = rest.length
  · rw [if_pos all, List.length_append, List.length_reverse]
    by_cases brace : c = '\x7b'
    · rw [if_pos ⟨all, brace⟩, List.takeWhile_cons, if_pos (decide_eq_true brace)]
      rfl
    · rw [if_neg (fun h => brace h.2), List.takeWhile_cons, if_neg (by simpa using brace), all]
      rfl
  · rw [if_neg all, if_neg (fun h => all h.1)]

/-- A pair in front does not matter. -/
theorem openingEnd_pair (c : Char) (rest : List Char) :
    openingEnd (c :: c :: rest) % 2 = openingEnd rest % 2 := by
  rw [openingEnd_cons, openingEnd_cons, List.length_cons]
  have bound := openingEnd_le rest
  by_cases brace : c = '\x7b'
  · simp only [brace, and_true]
    split_ifs <;> omega
  · simp only [brace, and_false, if_false]

/-! ## Steps of the compilation -/

variable {declared : List String}

/-- What a template compiles to behind an opening marker. -/
def compileReference (declared : List String) (literal after : List Char) :
    Except Exn (List PromptPart) :=
  match findClosing after with
  | none => fail .invalidConfiguration
  | some (inside, behind) =>
      match placeholder inside with
      | none => fail .invalidConfiguration
      | some name =>
          if name ∈ declared then
            (compileFrom declared [] behind).map fun parts =>
              .literal literal :: .input name :: parts
          else fail .invalidConfiguration

/-- A text without markers is one literal. -/
theorem compileFrom_none {literal rest before : List Char}
    (found : nextMarker rest = (before, none)) :
    compileFrom declared literal rest = .ok [.literal (literal ++ before)] := by
  rw [compileFrom]
  split <;> rename_i marker <;> rw [found] at marker <;> cases marker
  rfl

/-- An escaped opening is part of the literal. -/
theorem compileFrom_openEscape {literal rest before after : List Char}
    (found : nextMarker rest = (before, some (.openEscape, after))) :
    compileFrom declared literal rest =
      compileFrom declared (literal ++ before ++ ['\x7b', '\x7b']) after := by
  rw [compileFrom]
  split <;> rename_i marker <;> rw [found] at marker <;> cases marker
  rfl

/-- An escaped closing is part of the literal. -/
theorem compileFrom_closeEscape {literal rest before after : List Char}
    (found : nextMarker rest = (before, some (.closeEscape, after))) :
    compileFrom declared literal rest =
      compileFrom declared (literal ++ before ++ ['\x7d', '\x7d']) after := by
  rw [compileFrom]
  split <;> rename_i marker <;> rw [found] at marker <;> cases marker
  rfl

/-- A closing without an opening is refused. -/
theorem compileFrom_closing {literal rest before after : List Char}
    (found : nextMarker rest = (before, some (.closing, after))) :
    compileFrom declared literal rest = fail .invalidConfiguration := by
  rw [compileFrom]
  split <;> rename_i marker <;> first | rfl | (rw [found] at marker; cases marker)

/-- An opening starts a reference. -/
theorem compileFrom_opening {literal rest before after : List Char}
    (found : nextMarker rest = (before, some (.opening, after))) :
    compileFrom declared literal rest = compileReference declared (literal ++ before) after := by
  rw [compileFrom]
  split <;> rename_i marker <;> rw [found] at marker <;> cases marker
  unfold compileReference
  split
  · rename_i closed
    rw [closed]
  · rename_i inside behind closed
    cases named : placeholder inside with
    | none => simp only [closed, named]
    | some name => simp only [closed, named]

/-- A character that makes no pair comes before the marker. -/
theorem nextMarker_cons {c : Char} {rest : List Char} (single : ¬ Paired (c :: rest)) :
    nextMarker (c :: rest) = (c :: (nextMarker rest).1, (nextMarker rest).2) := by
  rw [nextMarker]
  · rintro more rfl rfl
    exact single ⟨rfl, .inl rfl⟩
  · rintro more rfl rfl
    exact single ⟨rfl, .inr rfl⟩
  · rintro more rfl rfl
    exact single ⟨rfl, .inl rfl⟩
  · rintro more rfl rfl
    exact single ⟨rfl, .inr rfl⟩

/-- A character that begins no pair is literal. -/
theorem compileFrom_cons {literal rest : List Char} {c : Char} (single : ¬ Paired (c :: rest)) :
    compileFrom declared literal (c :: rest) = compileFrom declared (literal ++ [c]) rest := by
  have cons := nextMarker_cons single
  rcases found : nextMarker rest with ⟨before, _ | ⟨_ | _ | _ | _, after⟩⟩
  all_goals rw [found] at cons
  · rw [compileFrom_none cons, compileFrom_none found, List.append_assoc]
    rfl
  · rw [compileFrom_openEscape cons, compileFrom_openEscape found, List.append_assoc literal [c]]
    rfl
  · rw [compileFrom_closeEscape cons, compileFrom_closeEscape found, List.append_assoc literal [c]]
    rfl
  · rw [compileFrom_opening cons, compileFrom_opening found, List.append_assoc literal [c]]
    rfl
  · rw [compileFrom_closing cons, compileFrom_closing found]

/-! ## References -/

/-- A reference to an input, with spaces and tabs around its name. -/
structure Reference where
  name : String
  left : List Char
  right : List Char
  left_blank : ∀ c ∈ left, isBlank c = true
  right_blank : ∀ c ∈ right, isBlank c = true

/-- What stands between the braces. -/
def Reference.inside (reference : Reference) : List Char :=
  reference.left ++ (reference.name.toList ++ reference.right)

/-- A reference with its braces. -/
def Reference.text (reference : Reference) : List Char :=
  '\x7b' :: '\x7b' :: (reference.inside ++ ['\x7d', '\x7d'])

/-- The characters of an identifier are neither blanks nor braces. -/
theorem name_chars {name : String} (id : isItemId name = true) : name.toList ≠ [] ∧
    ∀ c ∈ name.toList, isBlank c = false ∧ c ≠ '\x7b' ∧ c ≠ '\x7d' := by
  obtain ⟨nonempty, chars⟩ := isItemId_spec id
  refine ⟨fun empty => nonempty (String.toList_injective empty), fun c mem => ?_⟩
  have plain (other : Char) (odd : other ≠ '_') (word : (isLower other || isDigit other) = false) :
      c ≠ other := by
    rintro rfl
    rcases chars c mem with score | letter
    · exact odd score
    · exact absurd letter (by rw [word]; exact Bool.false_ne_true)
  refine ⟨?_, plain _ (by decide) (by decide), plain _ (by decide) (by decide)⟩
  rw [isBlank, beq_false_of_ne (plain ' ' (by decide) (by decide)),
    beq_false_of_ne (plain '\t' (by decide) (by decide))]
  rfl

/-- Blanks are no braces. -/
theorem blank_not_brace {c : Char} (blank : isBlank c = true) : c ≠ '\x7b' ∧ c ≠ '\x7d' := by
  constructor
  · rintro rfl
    exact absurd blank (by decide)
  · rintro rfl
    exact absurd blank (by decide)

/-- There are no braces inside a reference. -/
theorem inside_chars {reference : Reference} (id : isItemId reference.name = true) :
    ∀ c ∈ reference.inside, c ≠ '\x7b' ∧ c ≠ '\x7d' := by
  intro c mem
  rcases List.mem_append.mp mem with mem | mem
  · exact blank_not_brace (reference.left_blank c mem)
  · rcases List.mem_append.mp mem with mem | mem
    · exact ((name_chars id).2 c mem).2
    · exact blank_not_brace (reference.right_blank c mem)

/-- Blanks around a name are dropped. -/
theorem placeholder_inside {reference : Reference} (id : isItemId reference.name = true) :
    placeholder reference.inside = some reference.name := by
  obtain ⟨nonempty, chars⟩ := name_chars id
  have body : reference.inside.dropWhile isBlank = reference.name.toList ++ reference.right := by
    rw [Reference.inside, List.dropWhile_append_of_pos reference.left_blank]
    obtain ⟨c, rest, name⟩ := List.exists_cons_of_ne_nil nonempty
    rw [name, List.cons_append, List.dropWhile_cons_of_neg]
    rw [(chars c (name ▸ List.mem_cons_self)).1]
    exact Bool.false_ne_true
  have solid : ∀ c ∈ reference.name.toList, (!isBlank c) = true :=
    fun c mem => by rw [(chars c mem).1]; rfl
  have ends : reference.right.takeWhile (fun c => !isBlank c) = [] ∧
      reference.right.dropWhile (fun c => !isBlank c) = reference.right := by
    cases right : reference.right with
    | nil => exact ⟨rfl, rfl⟩
    | cons c rest =>
      have blank : isBlank c = true := reference.right_blank c (right ▸ List.mem_cons_self)
      rw [List.takeWhile_cons, List.dropWhile_cons, blank]
      exact ⟨rfl, rfl⟩
  unfold placeholder
  simp only [body]
  rw [List.takeWhile_append_of_pos solid, ends.1, List.append_nil, String.ofList_toList, id,
    Bool.true_and, List.dropWhile_append_of_pos solid, ends.2,
    List.all_eq_true.mpr reference.right_blank, if_pos rfl]

/-- A placeholder is a name with blanks around it. -/
theorem placeholder_eq_some {inside : List Char} {name : String}
    (found : placeholder inside = some name) :
    isItemId name = true ∧ ∃ reference : Reference, reference.name = name ∧
    reference.inside = inside := by
  unfold placeholder at found
  simp only [Option.ite_none_right_eq_some, Bool.and_eq_true, Option.some.injEq] at found
  obtain ⟨⟨id, right⟩, same⟩ := found
  refine ⟨same ▸ id, ⟨name, inside.takeWhile isBlank, _, fun c mem => List.mem_takeWhile_imp mem,
    List.all_eq_true.mp right⟩, rfl, ?_⟩
  show inside.takeWhile isBlank ++ (name.toList ++ _) = inside
  rw [← same, String.toList_ofList, List.takeWhile_append_dropWhile, List.takeWhile_append_dropWhile]

/-- The first closing ends the reference. -/
theorem findClosing_inside {inside : List Char} (plain : ∀ c ∈ inside, c ≠ '\x7d')
    (behind : List Char) :
    findClosing (inside ++ ('\x7d' :: '\x7d' :: behind)) = some (inside, behind) := by
  induction inside with
  | nil => rfl
  | cons c inside ih =>
    obtain ⟨here, later⟩ := List.forall_mem_cons.mp plain
    rw [List.cons_append, findClosing, ih later]
    · rfl
    · exact fun _ brace _ => here brace

/-- What stands before the first closing. -/
theorem findClosing_eq_some {text inside behind : List Char}
    (found : findClosing text = some (inside, behind)) :
    text = inside ++ ('\x7d' :: '\x7d' :: behind) := by
  induction text using findClosing.induct generalizing inside with
  | case1 rest =>
    cases found
    rfl
  | case2 c rest other ih =>
    rw [findClosing] at found
    · obtain ⟨⟨inside', behind'⟩, here, same⟩ := Option.map_eq_some_iff.mp found
      cases same
      rw [ih here]
      rfl
    · exact other
  | case3 => cases found

/-- A reference compiles to its input, with the literal before it. -/
theorem compileFrom_reference {literal tail : List Char} {reference : Reference}
    (id : isItemId reference.name = true) (known : reference.name ∈ declared) :
    compileFrom declared literal (reference.text ++ tail) =
      (compileFrom declared [] tail).map fun parts =>
        .literal literal :: .input reference.name :: parts := by
  have text : reference.text ++ tail =
      '\x7b' :: '\x7b' :: (reference.inside ++ ('\x7d' :: '\x7d' :: tail)) := by
    rw [Reference.text, List.cons_append, List.cons_append, List.append_assoc]
    rfl
  have marker : nextMarker (reference.text ++ tail) =
      ([], some (.opening, reference.inside ++ ('\x7d' :: '\x7d' :: tail))) := by
    rw [text, nextMarker]
    intro more same
    cases inside : reference.inside with
    | nil =>
      rw [inside] at same
      exact absurd (List.cons.inj same).1 (by decide)
    | cons c rest =>
      rw [inside] at same
      exact (inside_chars id c (inside ▸ List.mem_cons_self)).1 (List.cons.inj same).1
  rw [compileFrom_opening marker, compileReference,
    findClosing_inside fun c mem => (inside_chars id c mem).2]
  simp only [placeholder_inside id]
  rw [if_pos known, List.append_nil]

/-! ## Sources -/

/-- The references of a template, each with the literal after it. -/
abbrev References := List (Reference × List Char)

/-- The text of references with the literals after them. -/
def referencesText : References → List Char
  | [] => []
  | (reference, literal) :: rest => reference.text ++ (escapeBraces literal ++ referencesText rest)

/-- The parts of references with the literals after them. -/
def referencesParts : References → List PromptPart
  | [] => []
  | (reference, literal) :: rest => .input reference.name :: .literal literal :: referencesParts rest

/-- The references name declared inputs, and no literal before one ends with an odd run of opening
braces. -/
def Separated (declared : List String) : List Char → References → Prop
  | _, [] => True
  | literal, (reference, next) :: rest =>
      openingEnd literal % 2 = 0 ∧ reference.name ∈ declared ∧ Separated declared next rest

/-- What may follow an escaped literal so that no brace of it pairs with one of the literal. -/
def Follows (literal tail : List Char) : Prop :=
  (tail.head? = some '\x7b' → openingEnd literal % 2 = 0) ∧ tail.head? ≠ some '\x7d'

/-- A pair of braces is two equal ones. -/
theorem paired_cons {c : Char} {rest : List Char} (paired : Paired (c :: rest)) :
    rest.head? = some c ∧
    (c = '\x7b' ∨ c = '\x7d') := by
  cases rest with
  | nil => exact paired.elim
  | cons d rest => exact ⟨congrArg some paired.1.symm, paired.2⟩

/-- A text of opening braces starts with one. -/
theorem head_of_opening {text : List Char} (all : openingEnd text = text.length)
    (nonempty : text ≠ []) :
    text.head? = some '\x7b' := by
  obtain ⟨c, rest, rfl⟩ := List.exists_cons_of_ne_nil nonempty
  rw [openingEnd_cons] at all
  split_ifs at all with brace
  · exact congrArg some brace.2
  · have bound := openingEnd_le rest
    rw [List.length_cons] at all
    omega

/-- A character in front of an escaped literal pairs with its head, or with what follows. -/
theorem head?_escaped (literal tail : List Char) :
    (escapeBraces literal ++ tail).head? = if literal = [] then tail.head? else literal.head? := by
  cases literal with
  | nil => rfl
  | cons c rest =>
    have head := escapeBraces_head (c :: rest)
    rw [if_neg (List.cons_ne_nil _ _), ← head]
    cases escaped : escapeBraces (c :: rest) with
    | nil => exact absurd (head.symm.trans (congrArg List.head? escaped)) (by simp)
    | cons d more => rfl

/-- An escaped literal compiles to itself. -/
theorem compileFrom_literal (literal tail : List Char) (follows : Follows literal tail)
    (done : List Char) : compileFrom declared done (escapeBraces literal ++ tail) =
      compileFrom declared (done ++ literal) tail := by
  induction literal using escapeBraces.induct generalizing done with
  | case1 rest ih =>
    have next : Follows rest tail := ⟨fun head => openingEnd_pair _ rest ▸ follows.1 head, follows.2⟩
    have marker : nextMarker (escapeBraces ('\x7b' :: '\x7b' :: rest) ++ tail) =
        ([], some (.openEscape, escapeBraces rest ++ tail)) := rfl
    rw [compileFrom_openEscape marker, ih next, List.append_nil, List.append_assoc]
    rfl
  | case2 rest ih =>
    have next : Follows rest tail := ⟨fun head => openingEnd_pair _ rest ▸ follows.1 head, follows.2⟩
    have marker : nextMarker (escapeBraces ('\x7d' :: '\x7d' :: rest) ++ tail) =
        ([], some (.closeEscape, escapeBraces rest ++ tail)) := rfl
    rw [compileFrom_closeEscape marker, ih next, List.append_nil, List.append_assoc]
    rfl
  | case3 c rest h1 h2 ih =>
    have single : ¬ Paired (c :: rest) := by
      intro paired
      obtain ⟨head, brace⟩ := paired_cons paired
      obtain ⟨more, rfl⟩ := List.head?_eq_some_iff.mp head
      rcases brace with rfl | rfl
      · exact h1 more rfl rfl
      · exact h2 more rfl rfl
    -- escaping the rest makes no pair with `c`: what follows begins with an even run of braces, or
    -- none
    have apart : ¬ Paired (c :: (escapeBraces rest ++ tail)) := by
      intro paired
      obtain ⟨head, brace⟩ := paired_cons paired
      rw [head?_escaped] at head
      split_ifs at head with empty
      · subst empty
        rcases brace with rfl | rfl
        · exact absurd (follows.1 head) (by decide)
        · exact follows.2 head
      · obtain ⟨more, rfl⟩ := List.head?_eq_some_iff.mp head
        exact single ⟨rfl, brace⟩
    have next : Follows rest tail := by
      refine ⟨fun head => ?_, follows.2⟩
      have even := follows.1 head
      rw [openingEnd_cons] at even
      split_ifs at even with all
      · -- A run of braces that ends the literal would begin with a pair.
        by_cases empty : rest = []
        · subst empty
          exact absurd even (by decide)
        · obtain ⟨more, rfl⟩ := List.head?_eq_some_iff.mp (head_of_opening all.1 empty)
          exact absurd (show Paired (c :: '\x7b' :: more) from ⟨all.2, .inl all.2⟩) single
      · exact even
    rw [escapeBraces_cons single, List.cons_append, compileFrom_cons apart, ih next,
      List.append_assoc]
    rfl
  | case4 => rw [escapeBraces, List.nil_append, List.append_nil]

/-- The text of a template compiles to its parts. -/
theorem compileFrom_text {references : References} (ids : ∀ name ∈ declared, isItemId name = true)
    (literal done : List Char) (separated : Separated declared literal references) :
    compileFrom declared done (escapeBraces literal ++ referencesText references) =
      .ok (.literal (done ++ literal) :: referencesParts references) := by
  induction references generalizing literal done with
  | nil =>
    have follows : Follows literal [] := ⟨fun head => (by cases head), fun head => by cases head⟩
    rw [referencesText, compileFrom_literal literal [] follows, compileFrom_none rfl, List.append_nil]
    rfl
  | cons entry rest ih =>
    obtain ⟨reference, next⟩ := entry
    obtain ⟨even, known, later⟩ := separated
    have follows : Follows literal (referencesText ((reference, next) :: rest)) :=
      ⟨fun _ => even, fun head => absurd (Option.some.inj head) (by decide)⟩
    rw [compileFrom_literal literal _ follows, referencesText,
      compileFrom_reference (ids _ known) known, ih next [] later]
    rfl

/-! ## What compiles -/

/-- A text is one of escaped literals with references between them. -/
def Written (declared : List String) (text : List Char) : Prop :=
  ∃ literal references, Separated declared literal references ∧
    text = escapeBraces literal ++ referencesText references

/-- An escaped brace before a template. -/
theorem Written.pair {text : List Char} {brace : Char} (pair : brace = '\x7b' ∨ brace = '\x7d')
    (written : Written declared text) :
    Written declared (brace :: brace :: brace :: brace :: text) := by
  obtain ⟨literal, references, separated, rfl⟩ := written
  refine ⟨brace :: brace :: literal, references, ?_, ?_⟩
  · cases references with
    | nil => trivial
    | cons entry rest => exact ⟨(openingEnd_pair brace literal).trans separated.1, separated.2⟩
  · rcases pair with rfl | rfl <;> rfl

/-- A character before a template. -/
theorem Written.cons {text : List Char} {c : Char} (single : ¬ Paired (c :: text))
    (written : Written declared text) : Written declared (c :: text) := by
  obtain ⟨literal, references, separated, rfl⟩ := written
  -- The head of the escaped literal is the head of the literal.
  have apart : ¬ Paired (c :: literal) := by
    intro paired
    obtain ⟨head, brace⟩ := paired_cons paired
    obtain ⟨more, rfl⟩ := List.head?_eq_some_iff.mp head
    have first := head?_escaped (c :: more) (referencesText references)
    rw [if_neg (List.cons_ne_nil _ _)] at first
    obtain ⟨tail, text⟩ := List.head?_eq_some_iff.mp first
    rw [text] at single
    exact single ⟨rfl, brace⟩
  refine ⟨c :: literal, references, ?_, by rw [escapeBraces_cons apart, List.cons_append]⟩
  cases references with
  | nil => trivial
  | cons entry rest =>
    refine ⟨?_, separated.2⟩
    rw [openingEnd_cons]
    split_ifs with all
    · obtain ⟨full, rfl⟩ := all
      by_cases empty : literal = []
      · subst empty
        exact absurd (show Paired ('\x7b' :: '\x7b' :: _) from ⟨rfl, .inl rfl⟩) single
      · obtain ⟨more, rfl⟩ := List.head?_eq_some_iff.mp (head_of_opening full empty)
        exact absurd (show Paired ('\x7b' :: '\x7b' :: more) from ⟨rfl, .inl rfl⟩) apart
    · exact separated.1

/-- A reference before a template. -/
theorem Written.reference {behind : List Char} {reference : Reference}
    (known : reference.name ∈ declared)
    (written : Written declared behind) : Written declared (reference.text ++ behind) := by
  obtain ⟨literal, references, separated, rfl⟩ := written
  exact ⟨[], (reference, literal) :: references, ⟨rfl, known, separated⟩, rfl⟩

/-- What follows an opening marker is a reference with the rest of a template, or is refused. -/
theorem reference_or_refused {after : List Char} (done : List Char)
    (rest : ∀ behind : List Char, behind.length < after.length →
      Written declared behind ∨ compileFrom declared [] behind = fail .invalidConfiguration) :
    Written declared ('\x7b' :: '\x7b' :: after) ∨
      compileReference declared done after = fail .invalidConfiguration := by
  unfold compileReference
  cases closed : findClosing after with
  | none => exact .inr rfl
  | some found =>
    obtain ⟨inside, behind⟩ := found
    simp only
    cases named : placeholder inside with
    | none => exact .inr rfl
    | some name =>
      simp only
      obtain ⟨-, reference, rfl, rfl⟩ := placeholder_eq_some named
      by_cases known : reference.name ∈ declared
      · rw [if_pos known]
        rcases rest behind (findClosing_length closed) with written | refused
        · left
          have text : '\x7b' :: '\x7b' :: after = reference.text ++ behind := by
            rw [findClosing_eq_some closed, Reference.text, List.cons_append, List.cons_append,
              List.append_assoc]
            rfl
          rw [text]
          exact written.reference known
        · rw [refused]
          exact .inr rfl
      · rw [if_neg known]
        exact .inr rfl

/-- Every other text is refused. -/
theorem written_or_refused (text done : List Char) : Written declared text ∨
    compileFrom declared done text = fail .invalidConfiguration := by
  induction length : text.length using Nat.strong_induction_on generalizing text done with
  | _ n ih =>
    subst length
    match text with
    | [] => exact .inl ⟨[], [], trivial, rfl⟩
    | c :: rest =>
      by_cases paired : Paired (c :: rest)
      · obtain ⟨head, brace⟩ := paired_cons paired
        obtain ⟨more, rfl⟩ := List.head?_eq_some_iff.mp head
        rcases brace with rfl | rfl
        · by_cases four : ∃ after, more = '\x7b' :: '\x7b' :: after
          · obtain ⟨after, rfl⟩ := four
            rw [compileFrom_openEscape (show nextMarker _ = ([], some (.openEscape, after)) from rfl)]
            refine (ih _ ?_ after _ rfl).imp_left (·.pair (.inl rfl))
            simp only [List.length_cons]
            omega
          · have marker : nextMarker ('\x7b' :: '\x7b' :: more) = ([], some (.opening, more)) := by
              rw [nextMarker]
              exact fun after same => four ⟨after, same⟩
            rw [compileFrom_opening marker]
            refine reference_or_refused _ fun behind shorter => ih _ ?_ behind [] rfl
            simp only [List.length_cons]
            omega
        · by_cases four : ∃ after, more = '\x7d' :: '\x7d' :: after
          · obtain ⟨after, rfl⟩ := four
            rw [compileFrom_closeEscape
              (show nextMarker _ = ([], some (.closeEscape, after)) from rfl)]
            refine (ih _ ?_ after _ rfl).imp_left (·.pair (.inr rfl))
            simp only [List.length_cons]
            omega
          · have marker : nextMarker ('\x7d' :: '\x7d' :: more) = ([], some (.closing, more)) := by
              rw [nextMarker]
              exact fun after same => four ⟨after, same⟩
            exact .inr (compileFrom_closing marker)
      · rw [compileFrom_cons paired]
        exact (ih _ (by rw [List.length_cons]; omega) rest (done ++ [c]) rfl).imp_left (·.cons paired)

/-! ## Rendering -/

section Rendering

variable {F : Type}

/-- A value that can be rendered: it nests within the limit and its integers can be printed. -/
def Renderable (value : Value F) : Prop := depth value ≤ MAX_JSON_DEPTH ∧ printable value = true

instance (value : Value F) : Decidable (Renderable value) :=
  inferInstanceAs (Decidable (_ ∧ _))

/-- The literals with the canonical values between them. -/
def referencesRendered (repr : F → String) (values : String → Value F) : References → List Char
  | [] => []
  | (reference, literal) :: rest =>
      canonicalJson repr (values reference.name) ++ (literal ++ referencesRendered repr values rest)

variable {repr : F → String} {inputs : List (String × Value F)} {values : String → Value F}

/-- A value that can be rendered is rendered as its canonical JSON. -/
theorem renderValue_eq (value : Value F) : renderValue repr value =
    if Renderable value then .ok (canonicalJson repr value) else fail .invalidInput := by
  unfold renderValue
  by_cases nests : depth value ≤ MAX_JSON_DEPTH
  · rw [freezeJson_eq_ok.mpr ⟨nests, rfl⟩]
    by_cases prints : printable value = true
    · rw [if_pos ⟨nests, prints⟩]
      exact if_pos prints
    · rw [if_neg fun h => prints h.2]
      exact if_neg prints
  · rw [freezeJson, if_pos (not_le.mp nests), if_neg fun h => nests h.1]
    rfl

/-- A literal is rendered as it is. -/
theorem renderPart_literal (text : List Char) : renderPart repr inputs (.literal text) = .ok text :=
  rfl

/-- An input is rendered when its value can be. -/
theorem renderPart_input {name : String} (present : inputs.lookup name = some (values name)) :
    renderPart repr inputs (.input name) = if Renderable (values name) then
      .ok (canonicalJson repr (values name)) else fail .invalidInput := by
  rw [renderPart, present]
  exact renderValue_eq _

/-- A part that is rendered comes before the others. -/
theorem mapM_cons_ok {part : PromptPart} {parts : List PromptPart} {text : List Char}
    (here : renderPart repr inputs part = .ok text) :
    (part :: parts).mapM (renderPart repr inputs) =
      (parts.mapM (renderPart repr inputs)).map (text :: ·) := by
  rw [List.mapM_cons, here]
  cases parts.mapM (renderPart repr inputs) <;> rfl

/-- A part that is refused refuses the prompt. -/
theorem mapM_cons_error {part : PromptPart} {parts : List PromptPart} {e : Exn}
    (here : renderPart repr inputs part = .error e) :
    (part :: parts).mapM (renderPart repr inputs) = .error e := by
  rw [List.mapM_cons, here]
  rfl

/-- References that can be rendered are. -/
theorem render_references {references : References}
    (present : ∀ entry ∈ references, inputs.lookup entry.1.name = some (values entry.1.name))
    (renderable : ∀ entry ∈ references, Renderable (values entry.1.name)) :
    ∃ rendered, (referencesParts references).mapM (renderPart repr inputs) = .ok rendered ∧
      rendered.flatten = referencesRendered repr values references := by
  induction references with
  | nil => exact ⟨[], rfl, rfl⟩
  | cons entry rest ih =>
    obtain ⟨here, later⟩ := List.forall_mem_cons.mp present
    obtain ⟨value, others⟩ := List.forall_mem_cons.mp renderable
    obtain ⟨rendered, run, text⟩ := ih later others
    refine ⟨canonicalJson repr (values entry.1.name) :: entry.2 :: rendered, ?_, ?_⟩
    · have first := @renderPart_input F repr _ _ _ here
      rw [if_pos value] at first
      rw [referencesParts, mapM_cons_ok first, mapM_cons_ok (renderPart_literal entry.2), run]
      rfl
    · rw [List.flatten_cons, List.flatten_cons, text]
      rfl

/-- A value that cannot be rendered fails the prompt. -/
theorem render_fails {references : References}
    (present : ∀ entry ∈ references, inputs.lookup entry.1.name = some (values entry.1.name))
    (stuck : ∃ entry ∈ references, ¬ Renderable (values entry.1.name)) :
    (referencesParts references).mapM (renderPart repr inputs) = fail .invalidInput := by
  induction references with
  | nil =>
    obtain ⟨entry, mem, -⟩ := stuck
    exact absurd mem List.not_mem_nil
  | cons entry rest ih =>
    obtain ⟨here, later⟩ := List.forall_mem_cons.mp present
    have first := @renderPart_input F repr _ _ _ here
    rw [referencesParts]
    by_cases value : Renderable (values entry.1.name)
    · rw [if_pos value] at first
      have others : ∃ entry ∈ rest, ¬ Renderable (values entry.1.name) := by
        obtain ⟨other, mem, bad⟩ := stuck
        rcases List.mem_cons.mp mem with rfl | mem
        · exact absurd value bad
        · exact ⟨other, mem, bad⟩
      rw [mapM_cons_ok first, mapM_cons_ok (renderPart_literal entry.2), ih later others]
      rfl
    · rw [if_neg value] at first
      exact mapM_cons_error first

end Rendering

/-! ## The language of templates -/

/-- Declared input names: distinct identifiers. -/
structure InputNames where
  names : List String
  ids : ∀ name ∈ names, isItemId name = true
  distinct : names.Nodup

/-- A prompt is compiled from its first character on. -/
theorem compilePrompt_eq (declared : InputNames) (template : String) :
    compilePrompt template declared.names =
      (compileFrom declared.names [] template.toList).map PromptTemplate.mk :=
  if_neg (not_not.mpr ⟨List.all_eq_true.mpr declared.ids, declared.distinct⟩)

/-- Escaped literals with references between them compile and render to the literals with the canonical
values between them, for all values that can be rendered, whatever the floats are and however they print;
no other text compiles. -/
theorem prompt_language {F : Type} (repr : F → String) (declared : InputNames) :
    (∀ literal references, Separated declared.names literal references →
      ∃ template, compilePrompt (String.ofList (escapeBraces literal ++ referencesText references))
          declared.names = .ok template ∧
        ∀ inputs values, (∀ entry ∈ references,
          inputs.lookup entry.1.name = some (values entry.1.name)) →
          renderPrompt repr template inputs =
            if ∀ entry ∈ references, Renderable (values entry.1.name) then
              .ok (String.ofList (literal ++ referencesRendered repr values references))
            else fail .invalidInput) ∧
      ∀ template, Written declared.names template.toList ∨
        compilePrompt template declared.names = fail .invalidConfiguration := by
  constructor
  · intro literal references separated
    refine ⟨⟨.literal literal :: referencesParts references⟩, ?_, fun inputs values present => ?_⟩
    · rw [compilePrompt_eq, String.toList_ofList, compileFrom_text declared.ids literal [] separated]
      rfl
    · rw [renderPrompt, mapM_cons_ok (renderPart_literal literal)]
      by_cases renderable : ∀ entry ∈ references, Renderable (values entry.1.name)
      · obtain ⟨rendered, run, text⟩ := render_references present renderable
        rw [if_pos renderable, run, ← text]
        rfl
      · rw [if_neg renderable, render_fails present (by push Not at renderable; exact renderable)]
        rfl
  · intro template
    rw [compilePrompt_eq]
    refine (written_or_refused template.toList []).imp_right fun refused => ?_
    rw [refused]
    rfl

/-! ## A value that is not rendered -/

/-- A space is blank. -/
theorem space_blank : ∀ c ∈ [' '], isBlank c = true := List.forall_mem_singleton.mpr rfl

/-- A reference with blanks around its name. -/
def exampleReference : Reference := ⟨"a", [' '], [' '], space_blank, space_blank⟩

/-- A template of one reference is accepted. -/
theorem exampleTemplate_compiles : compilePrompt "\x7b\x7b a \x7d\x7d" ["a"] =
    .ok ⟨[.literal [], .input "a", .literal []]⟩ := by
  have text : "\x7b\x7b a \x7d\x7d".toList =
      escapeBraces [] ++ referencesText [(exampleReference, [])] := rfl
  have separated : Separated ["a"] [] [(exampleReference, [])] := ⟨rfl, List.mem_cons_self, trivial⟩
  rw [compilePrompt_eq ⟨["a"], by decide, by decide⟩, text,
    compileFrom_text (by decide) [] [] separated]
  rfl

/-- A value below too many objects makes rendering fail. -/
theorem deep_value_unrendered : ∃ template,
    compilePrompt "\x7b\x7b a \x7d\x7d" ["a"] = .ok template ∧
      renderPrompt fractionText template [("a", wrapped 65)] ≠
        .ok (String.ofList (canonicalJson fractionText (wrapped 65))) := by
  refine ⟨_, exampleTemplate_compiles, fun rendered => ?_⟩
  have deep : ¬ Renderable (wrapped 65) := by
    intro renderable
    have nests := renderable.1
    rw [depth_wrapped] at nests
    exact absurd nests (by decide)
  have failed : renderPart fractionText [("a", wrapped 65)] (.input "a") = fail .invalidInput :=
    (renderValue_eq (wrapped 65)).trans (if_neg deep)
  rw [renderPrompt, mapM_cons_ok (renderPart_literal []), mapM_cons_error failed] at rendered
  cases rendered

end Foliqant.Core

import Mathlib.Data.List.Induction
import Foliqant.Common.JsonLexemes
import Foliqant.Core.Bindings

/-!
# Pointers of tokens

A pointer is the text of its escaped tokens: it splits back into them, and a lookup decodes and takes
them one by one.
-/

namespace Foliqant.Core

open JsonText

/-! ## Tokens -/

/-- Replace a character everywhere. -/
def replaceChar (c : Char) (text value : List Char) : List Char :=
  value.flatMap fun d => if d = c then text else [d]

/-- The escaped form of a name in a pointer. -/
def token (value : String) : String :=
  String.ofList (replaceChar '/' ['~', '1'] (replaceChar '~' ['~', '0'] value.toList))

/-- The characters of an escaped name. -/
def escaped (value : List Char) : List Char :=
  replaceChar '/' ['~', '1'] (replaceChar '~' ['~', '0'] value)

/-- The characters of a token. -/
theorem token_toList (value : String) : (token value).toList = escaped value.toList :=
  String.toList_ofList

/-- A tilde is escaped. -/
theorem escaped_tilde (rest : List Char) : escaped ('~' :: rest) = '~' :: '0' :: escaped rest := rfl

/-- A slash is escaped. -/
theorem escaped_slash (rest : List Char) : escaped ('/' :: rest) = '~' :: '1' :: escaped rest := rfl

/-- Another character is kept. -/
theorem escaped_cons {c : Char} (tilde : c ≠ '~') (slash : c ≠ '/') (rest : List Char) :
    escaped (c :: rest) = c :: escaped rest := by
  have first : replaceChar '~' ['~', '0'] (c :: rest) = c :: replaceChar '~' ['~', '0'] rest := by
    rw [replaceChar, List.flatMap_cons, if_neg tilde]
    rfl
  rw [escaped, first, replaceChar, List.flatMap_cons, if_neg slash]
  rfl

/-- An escaped token reads back. -/
theorem unescape_escaped (value : List Char) : unescapePart (escaped value) = value := by
  induction value with
  | nil => rfl
  | cons c rest ih =>
    by_cases tilde : c = '~'
    · rw [tilde, escaped_tilde, unescapePart, ih]
    by_cases slash : c = '/'
    · rw [slash, escaped_slash, unescapePart, ih]
    · rw [escaped_cons tilde slash, unescapePart, ih]
      · exact fun _ first _ => tilde first
      · exact fun _ first _ => tilde first

/-- No slash is left in an escaped token. -/
theorem slash_notMem_escaped (value : List Char) : '/' ∉ escaped value := by
  induction value with
  | nil => exact List.not_mem_nil
  | cons c rest ih =>
    by_cases tilde : c = '~'
    · rw [tilde, escaped_tilde]
      simpa using ih
    by_cases slash : c = '/'
    · rw [slash, escaped_slash]
      simpa using ih
    · rw [escaped_cons tilde slash]
      simpa using ⟨Ne.symm slash, ih⟩

/-- Escaped tokens are told apart. -/
theorem escaped_injective : Function.Injective escaped :=
  Function.LeftInverse.injective unescape_escaped

/-- A name without the two special characters is its own token. -/
theorem escaped_plain {value : List Char} (plain : ∀ c ∈ value, c ≠ '~' ∧ c ≠ '/') :
    escaped value = value := by
  induction value with
  | nil => rfl
  | cons c rest ih =>
    obtain ⟨first, others⟩ := List.forall_mem_cons.mp plain
    rw [escaped_cons first.1 first.2, ih others]

/-- The digits of an index are no special characters. -/
theorem token_index (index : ℕ) : token (toString index) = toString index := by
  apply String.toList_injective
  rw [token_toList, escaped_plain]
  rw [Nat.toString_eq_ofList_toDigits, String.toList_ofList]
  intro c mem
  have digit : c.isDigit = true := Nat.isDigit_of_mem_toDigits (by decide) (by decide) mem
  exact ⟨fun tilde => absurd (tilde ▸ digit) (by decide), fun slash => absurd
    (slash ▸ digit) (by decide)⟩

/-! ## Pointers -/

/-- The pointer of some tokens. -/
def pointer : List String → String
  | [] => ""
  | name :: rest => "/" ++ token name ++ pointer rest

/-- The characters of a pointer. -/
theorem pointer_cons_toList (name : String) (rest : List String) :
    (pointer (name :: rest)).toList = '/' :: (escaped name.toList ++ (pointer rest).toList) := by
  rw [pointer, String.toList_append, String.toList_append, token_toList]
  rfl

/-- A pointer of two parts. -/
theorem pointer_append (tokens others : List String) :
    pointer (tokens ++ others) = pointer tokens ++ pointer others := by
  induction tokens with
  | nil => rw [List.nil_append, pointer, String.empty_append]
  | cons name rest ih =>
    rw [List.cons_append, pointer, ih, pointer, ← String.append_assoc]

/-- A pointer splits into its tokens. -/
theorem splitOn_pointer (tokens : List String) : (pointer tokens).toList.splitOn '/' =
    [] :: tokens.map fun name => escaped name.toList := by
  -- a token in front stays whole, since it has no slash of its own
  have split (word : List Char) (whole : '/' ∉ word) (tokens : List String) :
      (word ++ (pointer tokens).toList).splitOn '/' =
        word :: tokens.map fun name => escaped name.toList := by
    induction tokens generalizing word with
    | nil =>
      have bare : word ++ (pointer []).toList = word := List.append_nil word
      rw [bare, List.splitOn_eq_singleton whole]
      rfl
    | cons name rest ih =>
      rw [pointer_cons_toList, List.splitOn_append_cons_self_of_not_mem whole,
          ih _ (slash_notMem_escaped _),
        List.map_cons]
  exact split [] List.not_mem_nil tokens

/-- Escaped names are told apart. -/
theorem escapedName_injective : Function.Injective fun name : String => escaped name.toList :=
  escaped_injective.comp fun _ _ same => String.toList_injective same

/-- Pointers are told apart by their tokens. -/
theorem pointer_injective : Function.Injective pointer := by
  intro tokens others same
  have split := splitOn_pointer tokens
  rw [same, splitOn_pointer] at split
  exact (List.map_injective_iff.mpr escapedName_injective (List.cons.inj split).2).symm

/-- A pointer has one segment more than tokens. -/
theorem segments_pointer (tokens : List String) :
    ((pointer tokens).toList.splitOn '/').length = tokens.length + 1 := by
  rw [splitOn_pointer, List.length_cons, List.length_map]

/-- The parts of a pointer are its escaped tokens. -/
theorem pointerParts_pointer (tokens : List String) (nonempty : tokens ≠ []) :
    pointerParts (pointer tokens) = tokens.map fun name => escaped name.toList := by
  obtain ⟨name, rest, rfl⟩ := List.exists_cons_of_ne_nil nonempty
  have split := splitOn_pointer (name :: rest)
  rw [pointer_cons_toList, List.splitOn_cons_eq_if_modifyHead, if_pos (beq_self_eq_true _)] at split
  rw [pointerParts, pointer_cons_toList]
  exact (List.cons.inj split).2

/-! ## Looking tokens up -/

/-- What a member of an object holds. -/
theorem child_member (members : Object) (name : String) :
    child (.obj members) (escaped name.toList) = members.lookup name := by
  rw [child, unescape_escaped, String.ofList_toList]

/-- The digits of an index read back. -/
theorem digitsValue_toDigits (index : ℕ) : digitsValue (Nat.toDigits 10 index) = index := by
  have folded : digitsValue (Nat.toDigits 10 index) = Nat.ofDigitChars 10
      (Nat.toDigits 10 index) 0 := by
    rw [Nat.ofDigitChars_eq_foldl]
    rfl
  rw [folded, Nat.ofDigitChars_ten_toDigits]

/-- The digits of an index are one. -/
theorem isIndex_toDigits (index : ℕ) : isIndex (Nat.toDigits 10 index) = true := by
  have digits : ∀ c ∈ Nat.toDigits 10 index, isDigit c = true := fun c mem =>
    Nat.isDigit_of_mem_toDigits (by decide) (by decide) mem
  by_cases zero : index = 0
  · rw [zero]
    rfl
  cases chars : Nat.toDigits 10 index with
  | nil => exact absurd chars Nat.toDigits_ne_nil
  | cons first rest =>
    rw [chars] at digits
    have leading : first ≠ '0' := fun h =>
      zero (JsonText.toDigits_head index (by rw [chars, h]; rfl))
    obtain ⟨digit, others⟩ := List.forall_mem_cons.mp digits
    rw [isIndex]
    · simp only [digit, Bool.true_and, Bool.and_eq_true, bne_iff_ne, List.all_eq_true]
      exact ⟨leading, others⟩
    · exact fun h => absurd h leading

/-- The value with one digit more. -/
theorem digitsValue_append (digits : List Char) (c : Char) :
    digitsValue (digits ++ [c]) = 10 * digitsValue digits + (c.toNat - 48) := by
  rw [digitsValue, List.foldl_append]
  rfl

/-- A digit is the character of its value. -/
theorem digitChar_value {c : Char} (digit : isDigit c = true) :
    c.toNat - 48 < 10 ∧ (c.toNat - 48).digitChar = c := by
  rw [isDigit, Bool.and_eq_true, decide_eq_true_iff, decide_eq_true_iff] at digit
  have low : 48 ≤ c.toNat := digit.1
  have high : c.toNat ≤ 57 := digit.2
  refine ⟨by omega, ?_⟩
  apply Char.toNat_inj.mp
  have bound : c.toNat - 48 < 10 := by omega
  have char : ∀ d < 10, d.digitChar.toNat = 48 + d := by decide
  rw [char _ bound]
  omega

/-- Digits without a leading zero are the digits of their positive value. -/
theorem toDigits_digitsValue {digits : List Char} (nonempty : digits ≠ [])
    (each : ∀ c ∈ digits, isDigit c = true) (leading : digits.head? ≠ some '0') :
    0 < digitsValue digits ∧ Nat.toDigits 10 (digitsValue digits) = digits := by
  induction digits using List.reverseRecOn with
  | nil => exact absurd rfl nonempty
  | append_singleton digits c ih =>
    obtain ⟨small, char⟩ := digitChar_value (each c (List.mem_append_right _ List.mem_cons_self))
    rw [digitsValue_append]
    by_cases single : digits = []
    · subst single
      have other : c.toNat - 48 ≠ 0 := by
        intro zero
        rw [zero] at char
        exact leading (congrArg some char.symm)
      have value : 10 * digitsValue [] + (c.toNat - 48) = c.toNat - 48 := Nat.zero_add _
      rw [value, Nat.toDigits_of_lt_base small, char]
      exact ⟨Nat.pos_of_ne_zero other, rfl⟩
    · rw [List.head?_append_of_ne_nil _ single] at leading
      obtain ⟨positive, same⟩ :=
        ih single (fun d mem => each d (List.mem_append_left _ mem)) leading
      refine ⟨by omega, ?_⟩
      rw [← Nat.toDigits_append_toDigits (by decide) positive small, same,
        Nat.toDigits_of_lt_base small, char]

/-- The spelling of an index. -/
theorem isIndex_iff {token : List Char} : isIndex token = true ↔
    token = ['0'] ∨ token ≠ [] ∧ (∀ c ∈ token, isDigit c = true) ∧ token.head? ≠ some '0' := by
  match token with
  | [] => simp [isIndex]
  | first :: rest =>
    by_cases zero : first :: rest = ['0']
    · rw [zero]
      exact iff_of_true rfl (.inl rfl)
    · rw [isIndex]
      · simp only [Bool.and_eq_true, bne_iff_ne, List.all_eq_true, zero, false_or, List.mem_cons,
          forall_eq_or_imp, List.head?_cons, ne_eq, Option.some.injEq, reduceCtorEq,
            not_false_eq_true,
          true_and]
        exact ⟨fun h => ⟨⟨h.1.1, h.2⟩, h.1.2⟩, fun h => ⟨⟨h.1.1, h.2⟩, h.1.2⟩⟩
      · simpa using zero

/-- An index is the text of its value. -/
theorem toDigits_index {token : List Char} (index : isIndex token = true) :
    Nat.toDigits 10 (digitsValue token) = token := by
  rcases isIndex_iff.mp index with rfl | ⟨nonempty, digits, leading⟩
  · rfl
  · exact (toDigits_digitsValue nonempty digits leading).2

/-- The number of digits grows with the number. -/
theorem length_toDigits_mono {small large : ℕ} (le : small ≤ large) :
    (Nat.toDigits 10 small).length ≤ (Nat.toDigits 10 large).length := by
  have fits := (Nat.length_toDigits_le_iff (by decide : 1 < 10)
    (Nat.length_toDigits_pos (b := 10) (n := large))).mp le_rfl
  exact (Nat.length_toDigits_le_iff (by decide) Nat.length_toDigits_pos).mpr (le.trans_lt fits)

/-- The lookup compares the lengths of the texts to bound the parsing only: an index below the length
of a list has no more digits than the length. -/
theorem indexItem_eq (items : List Json) (token : List Char) :
    indexItem items token = if isIndex token then items[digitsValue token]? else none := by
  unfold indexItem
  by_cases index : isIndex token = true
  · rw [if_pos index]
    by_cases bounded : token.length ≤ (toString items.length).length
    · rw [if_pos ⟨index, bounded⟩]
    · rw [if_neg (fun h => bounded h.2), eq_comm, List.getElem?_eq_none_iff]
      by_contra inside
      refine bounded ?_
      rw [Nat.toString_eq_ofList_toDigits, String.length_ofList]
      have longer := length_toDigits_mono (not_le.mp inside).le
      rwa [toDigits_index index] at longer
  · rw [if_neg (fun h => index h.1), if_neg index]

/-- What the item of a list holds. -/
theorem child_item {items : List Json} {index : ℕ} {item : Json} (here : items[index]? = some item) :
    child (.arr items) (escaped (toString index).toList) = some item := by
  rw [child, unescape_escaped, Nat.toString_eq_ofList_toDigits, String.toList_ofList, indexItem_eq,
    if_pos (isIndex_toDigits index), digitsValue_toDigits, here]

/-! ## Valid pointers -/

/-- Another character needs no escape. -/
theorem escapesValid_cons {c : Char} (tilde : c ≠ '~') (rest : List Char) :
    escapesValid (c :: rest) = escapesValid rest := by
  rw [escapesValid]
  · rw [bne_iff_ne.mpr tilde, Bool.true_and]
  · exact fun _ first _ => tilde first
  · exact fun _ first _ => tilde first

/-- Escaped tokens are valid. -/
theorem escapesValid_escaped (value rest : List Char) :
    escapesValid (escaped value ++ rest) = escapesValid rest := by
  induction value with
  | nil => rfl
  | cons c value ih =>
    by_cases tilde : c = '~'
    · rw [tilde, escaped_tilde, List.cons_append, List.cons_append, escapesValid, ih]
    by_cases slash : c = '/'
    · rw [slash, escaped_slash, List.cons_append, List.cons_append, escapesValid, ih]
    · rw [escaped_cons tilde slash, List.cons_append, escapesValid_cons tilde, ih]

/-- Pointers are valid. -/
theorem escapesValid_pointer (tokens : List String) :
    escapesValid (pointer tokens).toList = true := by
  induction tokens with
  | nil => rfl
  | cons name rest ih =>
    rw [pointer_cons_toList, escapesValid_cons (by decide), escapesValid_escaped, ih]

/-- A pointer is empty or opens with a slash. -/
theorem pointer_opens (tokens : List String) :
    pointer tokens = "" ∨ (pointer tokens).toList.head? = some '/' := by
  cases tokens with
  | nil => exact .inl rfl
  | cons name rest => exact .inr (by rw [pointer_cons_toList, List.head?_cons])

/-- The pointer of tokens is valid unless there are too many. -/
theorem pointerValid_pointer {tokens : List String} (bounded : tokens.length ≤ MAX_JSON_DEPTH) :
    pointerValid (pointer tokens) = true := by
  unfold pointerValid
  rw [escapesValid_pointer, Bool.and_true, Bool.and_eq_true]
  cases tokens with
  | nil => exact ⟨rfl, rfl⟩
  | cons name rest =>
    rw [pointer_cons_toList, List.head?_cons,
      pointerParts_pointer _ (List.cons_ne_nil _ _), List.length_map]
    simpa using bounded

/-- A lookup of a pointer takes its tokens one by one. -/
theorem lookupPointer_pointer {tokens : List String} (bounded : tokens.length ≤ MAX_JSON_DEPTH)
    (context : Json) : lookupPointer (pointer tokens) context =
      .ok (lookupParts context (tokens.map fun name => escaped name.toList)) := by
  rw [lookupPointer, pointerValid_pointer bounded]
  cases tokens with
  | nil => rfl
  | cons name rest =>
    have chars : (pointer (name :: rest)).toList ≠ [] := by
      rw [pointer_cons_toList]
      exact List.cons_ne_nil _ _
    rw [pointerParts_pointer _ (List.cons_ne_nil _ _)]
    simp [chars]

end Foliqant.Core

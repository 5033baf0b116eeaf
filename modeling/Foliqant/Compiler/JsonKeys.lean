import Foliqant.Common.JsonRoundTrip
import Foliqant.Compiler.StaticVerdicts

/-!
# Keys tell values apart

The compact text of a value can be split off from what follows it in one way only, so two canonical
values with one key are the same.
-/

namespace Foliqant.Compiler

open Foliqant.Core JsonText

/-! ## Strings -/

/-- A character of a key reads back. -/
theorem scanChar_keyChar (c : Char) (rest : List Char) :
    scanChar (keyChar c ++ rest) = some (.char c, rest) := by
  unfold keyChar
  split
  · rename_i high
    have other : c ≠ '\\' := by
      rintro rfl
      exact absurd high (by decide)
    have control : ¬ c.toNat < 32 := by omega
    simp only [List.singleton_append, scanChar, if_neg other, if_neg control]
  · exact scanChar_escapeChar c rest

/-- No character of a key ends it. -/
theorem keyChar_head (c : Char) (rest : List Char) : (keyChar c ++ rest).head? ≠ some '"' := by
  unfold keyChar
  split
  · rename_i high
    intro quote
    have same : c = '"' := Option.some.inj quote
    rw [same] at high
    exact absurd high (by decide)
  · exact escapeChar_head c rest

/-- The characters of a key read back. -/
theorem scanChars_key (cs rest : List Char) {fuel : ℕ} (enough : cs.length < fuel) :
    scanChars fuel (cs.flatMap keyChar ++ '"' :: rest) = some (cs.map .char, rest) := by
  induction cs generalizing fuel with
  | nil =>
    obtain ⟨fuel, rfl⟩ := Nat.exists_eq_succ_of_ne_zero (Nat.ne_of_gt enough)
    simp [scanChars]
  | cons c cs ih =>
    obtain ⟨fuel, rfl⟩ := Nat.exists_eq_succ_of_ne_zero (Nat.ne_zero_of_lt enough)
    rw [List.length_cons] at enough
    rw [List.flatMap_cons, List.append_assoc, scanChars, if_neg (keyChar_head c _), scanChar_keyChar]
    simp only
    rw [ih (by omega)]
    rfl

/-- A string ends at its closing quote. -/
theorem keyString_inj {text other : String} {rest rest' : List Char}
    (same : keyString text ++ rest = keyString other ++ rest') : text = other ∧ rest = rest' := by
  unfold keyString at same
  rw [List.cons_append, List.cons_append, List.cons.injEq, List.append_assoc,
    List.append_assoc] at same
  have left := @scanChars_key text.toList rest
    (text.toList.length + other.toList.length + 1) (by omega)
  have right := @scanChars_key other.toList rest'
    (text.toList.length + other.toList.length + 1) (by omega)
  rw [← List.singleton_append, same.2, List.singleton_append, right] at left
  obtain ⟨points, rests⟩ := Prod.mk.inj (Option.some.inj left)
  have chars : other.toList = text.toList :=
    List.map_injective_iff.mpr (fun _ _ => Point.char.inj) points
  exact ⟨(String.toList_injective chars).symm, rests.symm⟩

/-! ## Numbers -/

/-- A character of a number. -/
def isNumberChar (c : Char) : Bool := c.isDigit || c == '-' || c == '+' || c == '.' || c == 'e'

/-- What follows a value in a text: nothing, or no character of a number. -/
def Stops (rest : List Char) : Prop := ∀ c ∈ rest.head?, isNumberChar c = false

/-- Two runs of characters that stop are the same run. -/
theorem run_inj {run other rest rest' : List Char} (chars : ∀ c ∈ run, isNumberChar c = true)
    (chars' : ∀ c ∈ other, isNumberChar c = true) (stops : Stops rest) (stops' : Stops rest')
    (same : run ++ rest = other ++ rest') : run = other ∧ rest = rest' := by
  have take {run rest : List Char} (chars : ∀ c ∈ run, isNumberChar c = true) (stops : Stops rest) :
      (run ++ rest).takeWhile isNumberChar = run := by
    rw [List.takeWhile_append_of_pos chars]
    cases rest with
    | nil => exact List.append_nil run
    | cons c rest =>
      have stop : isNumberChar c = false := stops c rfl
      rw [List.takeWhile_cons, stop]
      exact List.append_nil run
  have runs : run = other := by rw [← take chars stops, same, take chars' stops']
  subst runs
  exact ⟨rfl, List.append_cancel_left same⟩

/-- The characters of an integer. -/
theorem ofInt_chars (n : ℤ) : ∀ c ∈ (Number.ofInt n).text, c.isDigit = true ∨ c = '-' := by
  intro c mem
  have text : (Number.ofInt n).text = (if n < 0 then ['-'] else []) ++ Nat.toDigits 10 n.natAbs := by
    simp [Number.text, Number.ofInt]
  rw [text] at mem
  rcases List.mem_append.mp mem with sign | digit
  · split_ifs at sign
    · exact .inr (List.mem_singleton.mp sign)
    · exact absurd sign List.not_mem_nil
  · exact .inl (Nat.isDigit_of_mem_toDigits (by decide) (by decide) digit)

/-- Integers are told apart by their texts. -/
theorem ofInt_inj {n m : ℤ} (same : (Number.ofInt n).text = (Number.ofInt m).text) : n = m := by
  have left := scanNumber_text (Number.ofInt_valid n) (show Ends [] by simp [Ends])
  have right := scanNumber_text (Number.ofInt_valid m) (show Ends [] by simp [Ends])
  rw [same, right] at left
  have numbers : Number.ofInt m = Number.ofInt n := (Prod.mk.inj (Option.some.inj left)).1
  rw [← Number.toInt_ofInt n, ← numbers, Number.toInt_ofInt]

/-! ## Values -/

/-- What the shortest texts of some floats do: a text consists of characters of a number, it is no
integer, and it tells its float from the others. -/
structure FloatTexts (repr : ℚ → String) (floats : ℚ → Prop) : Prop where
  chars : ∀ x, floats x → ∀ c ∈ (repr x).toList, isNumberChar c = true
  fractional : ∀ x, floats x → '.' ∈ (repr x).toList ∨ 'e' ∈ (repr x).toList
  injective : ∀ x y, floats x → floats y → repr x = repr y → x = y

mutual

/-- Every float inside is of a kind. -/
def FloatsIn (floats : ℚ → Prop) : Json → Prop
  | .float x => floats x
  | .arr items => ItemFloatsIn floats items
  | .obj members => MemberFloatsIn floats members
  | _ => True

/-- The floats in the items. -/
def ItemFloatsIn (floats : ℚ → Prop) : List Json → Prop
  | [] => True
  | item :: rest => FloatsIn floats item ∧ ItemFloatsIn floats rest

/-- The floats in the members. -/
def MemberFloatsIn (floats : ℚ → Prop) : Object → Prop
  | [] => True
  | (_, value) :: rest => FloatsIn floats value ∧ MemberFloatsIn floats rest

end

/-- The first character of a text; a zero stands for all numbers. -/
def lead : Json → Char
  | .null => 'n'
  | .bool true => 't'
  | .bool false => 'f'
  | .int _ | .float _ => '0'
  | .str _ => '"'
  | .arr _ => '['
  | .obj _ => '\x7b'

/-- Only `null` begins like it. -/
theorem eq_null {value : Json} (h : lead value = 'n') : value = .null := by
  cases value with
  | bool b => cases b <;> simp [lead] at h
  | _ => simp [lead] at h ⊢

/-- Only a truth value begins like one. -/
theorem eq_bool {value : Json} {b : Bool} (h : lead value = lead (.bool b)) : value = .bool b := by
  cases value with
  | bool b' => cases b' <;> cases b <;> first | rfl | simp [lead] at h
  | _ => cases b <;> simp [lead] at h

/-- Only a string begins with a quotation mark. -/
theorem eq_str {value : Json} (h : lead value = '"') : ∃ text, value = .str text := by
  cases value with
  | bool b => cases b <;> simp [lead] at h
  | _ => simp [lead] at h ⊢

/-- Only an array begins with a bracket. -/
theorem eq_arr {value : Json} (h : lead value = '[') : ∃ items, value = .arr items := by
  cases value with
  | bool b => cases b <;> simp [lead] at h
  | _ => simp [lead] at h ⊢

/-- Only an object begins with a brace. -/
theorem eq_obj {value : Json} (h : lead value = '\x7b') : ∃ members, value = .obj members := by
  cases value with
  | bool b => cases b <;> simp [lead] at h
  | _ => simp [lead] at h ⊢

/-- Only a number begins like one. -/
theorem eq_number {value : Json} (h : lead value = '0') :
    (∃ n, value = .int n) ∨ ∃ x, value = .float x := by
  cases value with
  | bool b => cases b <;> simp [lead] at h
  | _ => simp [lead] at h ⊢

/-- The kind of value that a character starts. -/
def leadOf (c : Char) : Char := if isNumberChar c then '0' else c

variable {repr : ℚ → String} {floats : ℚ → Prop}

/-- The characters of an integer are of a number. -/
theorem isNumberChar_of_int {c : Char} (char : c.isDigit = true ∨ c = '-') :
    isNumberChar c = true := by
  rcases char with digit | rfl
  · simp [isNumberChar, digit]
  · rfl

/-- An integer has a text. -/
theorem ofInt_ne_nil (n : ℤ) : (Number.ofInt n).text ≠ [] := by
  intro empty
  have whole : (Number.ofInt n).whole = [] := by
    unfold Number.text at empty
    exact (List.append_eq_nil_iff.mp (List.append_eq_nil_iff.mp empty).2).1
  exact Nat.toDigits_ne_nil whole

/-- The first character tells the kind of a value. -/
theorem dumps_head (texts : FloatTexts repr floats) {value : Json} (inside : FloatsIn floats value) :
    ∃ c rest, dumps repr value = c :: rest ∧ leadOf c = lead value := by
  have number {text : List Char} (nonempty : text ≠ []) (chars : ∀ c ∈ text, isNumberChar c = true) :
      ∃ c rest, text = c :: rest ∧ leadOf c = '0' := by
    obtain ⟨c, rest, rfl⟩ := List.exists_cons_of_ne_nil nonempty
    exact ⟨c, rest, rfl, if_pos (chars c List.mem_cons_self)⟩
  cases value with
  | null => exact ⟨'n', _, rfl, rfl⟩
  | bool b => cases b <;> exact ⟨_, _, rfl, rfl⟩
  | int n => exact number (ofInt_ne_nil n) fun c mem => isNumberChar_of_int (ofInt_chars n c mem)
  | float x =>
    refine number ?_ (texts.chars x inside)
    intro empty
    rcases texts.fractional x inside with mem | mem
    · exact List.ne_nil_of_mem mem empty
    · exact List.ne_nil_of_mem mem empty
  | str text => exact ⟨'"', _, rfl, rfl⟩
  | arr items => exact ⟨'[', _, rfl, rfl⟩
  | obj members => exact ⟨'\x7b', _, rfl, rfl⟩

/-- Values with one key are of one kind. -/
theorem lead_eq (texts : FloatTexts repr floats) {value other : Json} (inside : FloatsIn floats value)
    (inside' : FloatsIn floats other) {rest rest' : List Char}
    (same : dumps repr value ++ rest = dumps repr other ++ rest') : lead value = lead other := by
  obtain ⟨c, tail, text, kind⟩ := dumps_head texts inside
  obtain ⟨d, tail', text', kind'⟩ := dumps_head texts inside'
  rw [text, text'] at same
  rw [← kind, ← kind', (List.cons.inj same).1]

/-- No value begins like a separator or a closing bracket. -/
theorem lead_ne (value : Json) : lead value ≠ ']' ∧ lead value ≠ ',' := by
  cases value with
  | bool b => cases b <;> decide
  | _ => exact ⟨by simp [lead], by simp [lead]⟩

/-- Numbers with one text are the same. -/
theorem number_inj (texts : FloatTexts repr floats) {value other : Json}
    (inside : FloatsIn floats value) (inside' : FloatsIn floats other) (number : lead value = '0')
    (number' : lead other = '0') {rest rest' : List Char} (stops : Stops rest) (stops' : Stops rest')
    (same : dumps repr value ++ rest = dumps repr other ++ rest') : value = other ∧ rest = rest' := by
  -- a float is never written like an integer: its text has a point or an exponent
  have fraction {x : ℚ} {n : ℤ} (float : floats x) (text : (repr x).toList = (Number.ofInt n).text) :
      False := by
    rcases texts.fractional x float with mem | mem
    · rcases ofInt_chars n _ (text ▸ mem) with digit | sign
      · exact absurd digit (by decide)
      · exact absurd sign (by decide)
    · rcases ofInt_chars n _ (text ▸ mem) with digit | sign
      · exact absurd digit (by decide)
      · exact absurd sign (by decide)
  have ints (n : ℤ) : ∀ c ∈ (Number.ofInt n).text, isNumberChar c = true :=
    fun c mem => isNumberChar_of_int (ofInt_chars n c mem)
  rcases eq_number number with ⟨n, rfl⟩ | ⟨x, rfl⟩ <;> rcases eq_number number' with ⟨m, rfl⟩ | ⟨y, rfl⟩
  · obtain ⟨text, rests⟩ := run_inj (ints n) (ints m) stops stops' same
    exact ⟨congrArg Value.int (ofInt_inj text), rests⟩
  · obtain ⟨text, -⟩ := run_inj (ints n) (texts.chars y inside') stops stops' same
    exact (fraction inside' text.symm).elim
  · obtain ⟨text, -⟩ := run_inj (texts.chars x inside) (ints m) stops stops' same
    exact (fraction inside text).elim
  · obtain ⟨text, rests⟩ := run_inj (texts.chars x inside) (texts.chars y inside') stops stops' same
    exact ⟨congrArg Value.float (texts.injective x y inside inside' (String.toList_injective text)),
      rests⟩

/-- No number goes on into the next item. -/
theorem stops_items (items : List Json) (rest : List Char) :
    Stops (dumpItems repr false items ++ rest) := by
  cases items with
  | nil => exact fun c head => by cases head; rfl
  | cons item items => exact fun c head => by cases head; rfl

/-- No number goes on into the next member. -/
theorem stops_members (members : Object) (rest : List Char) :
    Stops (dumpMembers repr false members ++ rest) := by
  cases members with
  | nil => exact fun c head => by cases head; rfl
  | cons member members => exact fun c head => by cases head; rfl

mutual

/-- A text is the text of one value, whatever follows it. -/
theorem dumps_inj (texts : FloatTexts repr floats) : (value other : Json) → FloatsIn floats value →
    FloatsIn floats other → ∀ rest rest', Stops rest → Stops rest' →
    dumps repr value ++ rest = dumps repr other ++ rest' → value = other ∧ rest = rest'
  | .null, other, inside, inside', rest, rest', _, _, same => by
      obtain rfl := eq_null (lead_eq texts inside inside' same).symm
      exact ⟨rfl, List.append_cancel_left same⟩
  | .bool b, other, inside, inside', rest, rest', _, _, same => by
      obtain rfl := eq_bool (lead_eq texts inside inside' same).symm
      exact ⟨rfl, List.append_cancel_left same⟩
  -- a number ends where no further character of a number follows, hence `stops`
  | .int n, other, inside, inside', rest, rest', stops, stops', same =>
      number_inj texts inside inside' rfl (lead_eq texts inside inside' same).symm stops stops' same
  | .float x, other, inside, inside', rest, rest', stops, stops', same =>
      number_inj texts inside inside' rfl (lead_eq texts inside inside' same).symm stops stops' same
  | .str text, other, inside, inside', rest, rest', _, _, same => by
      obtain ⟨text', rfl⟩ := eq_str (lead_eq texts inside inside' same).symm
      obtain ⟨strings, rests⟩ := keyString_inj same
      exact ⟨congrArg Value.str strings, rests⟩
  | .arr items, other, inside, inside', rest, rest', _, _, same => by
      obtain ⟨items', rfl⟩ := eq_arr (lead_eq texts inside inside' same).symm
      obtain ⟨lists, rests⟩ := dumpItems_inj texts items items' inside inside' true rest rest'
        (List.cons.inj same).2
      exact ⟨congrArg Value.arr lists, rests⟩
  | .obj members, other, inside, inside', rest, rest', _, _, same => by
      obtain ⟨members', rfl⟩ := eq_obj (lead_eq texts inside inside' same).symm
      obtain ⟨lists, rests⟩ := dumpMembers_inj texts members members' inside inside' true rest rest'
        (List.cons.inj same).2
      exact ⟨congrArg Value.obj lists, rests⟩

/-- Items are told apart by their keys. -/
theorem dumpItems_inj (texts : FloatTexts repr floats) : (items others : List Json) →
    ItemFloatsIn floats items → ItemFloatsIn floats others → ∀ first rest rest',
    dumpItems repr first items ++ rest = dumpItems repr first others ++ rest' →
    items = others ∧ rest = rest'
  | [], [], _, _, _, _, _, same => ⟨rfl, (List.cons.inj same).2⟩
  | [], other :: others, _, inside', first, rest, rest', same => by
      obtain ⟨c, tail, text, kind⟩ := dumps_head texts inside'.1
      unfold dumpItems at same
      rw [text] at same
      cases first with
      | true =>
        have here : ']' = c := (List.cons.inj same).1
        exact absurd kind (by rw [← here]; exact fun h => (lead_ne other).1 h.symm)
      | false => exact absurd (List.cons.inj same).1 (by decide)
  | item :: items, [], inside, _, first, rest, rest', same => by
      obtain ⟨c, tail, text, kind⟩ := dumps_head texts inside.1
      unfold dumpItems at same
      rw [text] at same
      cases first with
      | true =>
        have here : c = ']' := (List.cons.inj same).1
        exact absurd kind (by rw [here]; exact fun h => (lead_ne item).1 h.symm)
      | false => exact absurd (List.cons.inj same).1 (by decide)
  | item :: items, other :: others, inside, inside', first, rest, rest', same => by
      unfold dumpItems at same
      rw [List.append_assoc, List.append_assoc, List.append_assoc, List.append_assoc] at same
      obtain ⟨here, later⟩ := dumps_inj texts item other inside.1 inside'.1 _ _
        (stops_items items rest) (stops_items others rest') (List.append_cancel_left same)
      obtain ⟨there, rests⟩ := dumpItems_inj texts items others inside.2 inside'.2
        false rest rest' later
      exact ⟨congrArg₂ List.cons here there, rests⟩

/-- Members are told apart by their keys. -/
theorem dumpMembers_inj (texts : FloatTexts repr floats) : (members others : Object) →
    MemberFloatsIn floats members → MemberFloatsIn floats others → ∀ first rest rest',
    dumpMembers repr first members ++ rest = dumpMembers repr first others ++ rest' →
    members = others ∧ rest = rest'
  | [], [], _, _, _, _, _, same => ⟨rfl, (List.cons.inj same).2⟩
  | [], (key, value) :: others, _, _, first, rest, rest', same => by
      unfold dumpMembers at same
      cases first <;> exact absurd (List.cons.inj same).1 (by decide)
  | (key, value) :: members, [], _, _, first, rest, rest', same => by
      unfold dumpMembers at same
      cases first <;> exact absurd (List.cons.inj same).1 (by decide)
  | (key, value) :: members, (key', value') :: others, inside, inside', first, rest, rest', same => by
      unfold dumpMembers at same
      rw [List.append_assoc, List.append_assoc, List.append_assoc, List.append_assoc] at same
      obtain ⟨keys, after⟩ := keyString_inj (List.append_cancel_left same)
      rw [List.cons_append, List.cons_append, List.append_assoc, List.append_assoc] at after
      obtain ⟨values, later⟩ := dumps_inj texts value value' inside.1 inside'.1 _ _
        (stops_members members rest) (stops_members others rest') (List.cons.inj after).2
      obtain ⟨there, rests⟩ := dumpMembers_inj texts members others inside.2 inside'.2
        false rest rest' later
      exact ⟨congrArg₂ List.cons (Prod.ext keys values) there, rests⟩

end

end Foliqant.Compiler

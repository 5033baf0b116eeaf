import Mathlib.Data.List.Basic
import Mathlib.Algebra.Order.Ring.Int
import Foliqant.Common.Fallible

/-!
# JSON text

JSON values with their compact ASCII text and a reader for any JSON text. The writer has no
whitespace and escapes every character outside printable ASCII; the reader allows whitespace between
tokens and all escapes, and the last member of an object with repeated keys wins.

The kind of floats is a parameter: `Floats` says how a float is written as a number with a fraction
or an exponent, and read back. So is the kind of strings: a `Text` has code points, among them possibly
surrogates, and a kind without surrogates refuses an escaped one that is not part of a pair.
-/

namespace JsonText

/-- JSON values with floats of type `F` and strings of type `S`. -/
inductive Value (F : Type) (S : Type := String) where
  | null
  | bool (b : Bool)
  | int (n : ℤ)
  | float (x : F)
  | str (s : S)
  | arr (items : List (Value F S))
  | obj (members : List (S × Value F S))

/-! ## Characters and strings -/

/-- Whitespace between tokens. -/
def isSpace (c : Char) : Bool := c == ' ' || c == '\t' || c == '\n' || c == '\r'

/-- Drop the whitespace before the next token. -/
def skip (input : List Char) : List Char := input.dropWhile isSpace

/-- The value of a hexadecimal digit. -/
def hexValue (c : Char) : Option ℕ :=
  if '0' ≤ c ∧ c ≤ '9' then some (c.toNat - 48)
  else if 'a' ≤ c ∧ c ≤ 'f' then some (c.toNat - 87)
  else if 'A' ≤ c ∧ c ≤ 'F' then some (c.toNat - 55)
  else none

/-- The four hexadecimal digits of a UTF-16 code unit. -/
def hex4 (unit : ℕ) : List Char :=
  [(unit / 4096 % 16).digitChar, (unit / 256 % 16).digitChar, (unit / 16 % 16).digitChar,
    (unit % 16).digitChar]

/-- A unit of four hexadecimal digits. -/
def scanUnit : List Char → Option (ℕ × List Char)
  | a :: b :: c :: d :: rest =>
      match hexValue a, hexValue b, hexValue c, hexValue d with
      | some a, some b, some c, some d => some (a * 4096 + b * 256 + c * 16 + d, rest)
      | _, _, _, _ => none
  | _ => none

/-- The first unit of a pair. -/
def isHigh (unit : ℕ) : Bool := 0xD800 ≤ unit && unit ≤ 0xDBFF

/-- The second unit of a pair. -/
def isLow (unit : ℕ) : Bool := 0xDC00 ≤ unit && unit ≤ 0xDFFF

/-- A code unit that is one half of a pair. -/
abbrev Surrogate := { unit : ℕ // 0xD800 ≤ unit ∧ unit ≤ 0xDFFF }

/-- A code point of a string: a character, or a surrogate that stands alone. -/
inductive Point where
  | char (c : Char)
  | surrogate (unit : Surrogate)
  deriving DecidableEq

/-- The code point of a code unit by itself. -/
def Point.ofUnit (unit : ℕ) : Point :=
  if h : 0xD800 ≤ unit ∧ unit ≤ 0xDFFF then .surrogate ⟨unit, h⟩ else .char (Char.ofNat unit)

/-- The character of a surrogate pair. -/
def pairChar (high low : ℕ) : Char := Char.ofNat (0x10000 + (high - 0xD800) * 0x400 + (low - 0xDC00))

/-- The rest of a surrogate pair. -/
def scanLow (high : ℕ) : List Char → Option (Char × List Char)
  | '\\' :: 'u' :: rest =>
      match scanUnit rest with
      | some (low, rest) => if isLow low then some (pairChar high low, rest) else none
      | none => none
  | _ => none

/-- What follows the backslash and the `u` of an escape: a pair, or a code unit by itself. -/
def scanUnicode (input : List Char) : Option (Point × List Char) :=
  match scanUnit input with
  | some (unit, rest) =>
      match if isHigh unit then scanLow unit rest else none with
      | some (c, rest) => some (.char c, rest)
      | none => some (.ofUnit unit, rest)
  | none => none

/-- The character a one-letter escape stands for. -/
def unescape : Char → Option Char
  | '"' => some '"'
  | '\\' => some '\\'
  | '/' => some '/'
  | 'b' => some '\x08'
  | 'f' => some '\x0c'
  | 'n' => some '\n'
  | 'r' => some '\r'
  | 't' => some '\t'
  | _ => none

/-- One code point of a string, escaped or not. -/
def scanChar : List Char → Option (Point × List Char)
  | [] => none
  | c :: rest =>
      if c = '\\' then
        match rest with
        | [] => none
        | e :: rest =>
            if e = 'u' then scanUnicode rest else (unescape e).map fun c => (.char c, rest)
      else if c.toNat < 32 then none
      else some (.char c, rest)

/-- The code points of a string up to its closing quote. -/
def scanChars : ℕ → List Char → Option (List Point × List Char)
  | 0, _ => none
  | fuel + 1, input =>
      if input.head? = some '"' then some ([], input.tail)
      else
        match scanChar input with
        | none => none
        | some (p, rest) => (scanChars fuel rest).map fun (ps, rest) => (p :: ps, rest)

/-- The escape of a unit. -/
def unicodeEscape (unit : ℕ) : List Char := '\\' :: 'u' :: hex4 unit

/-- A character of a string in printable ASCII. -/
def escapeChar (c : Char) : List Char :=
  if c = '"' then ['\\', '"']
  else if c = '\\' then ['\\', '\\']
  else if c = '\n' then ['\\', 'n']
  else if c = '\r' then ['\\', 'r']
  else if c = '\t' then ['\\', 't']
  else if c = '\x0c' then ['\\', 'f']
  else if c = '\x08' then ['\\', 'b']
  else if 32 ≤ c.toNat ∧ c.toNat ≤ 126 then [c]
  else if c.toNat < 0x10000 then unicodeEscape c.toNat
  else unicodeEscape (0xD800 + (c.toNat - 0x10000) / 0x400)
    ++ unicodeEscape (0xDC00 + (c.toNat - 0x10000) % 0x400)

/-- A code point of a string in printable ASCII. -/
def escapePoint : Point → List Char
  | .char c => escapeChar c
  | .surrogate unit => unicodeEscape unit.1

/-- A code point before others; a high surrogate makes a pair with a low one. -/
def joinPoint (p : Point) (rest : List Point) : List Point :=
  match p, rest with
  | .surrogate high, .surrogate low :: more =>
      if isHigh high.1 && isLow low.1 then .char (pairChar high.1 low.1) :: more else p :: rest
  | _, _ => p :: rest

/-- The code points as they read back: surrogates that follow each other like a pair are one. -/
def joinPairs (points : List Point) : List Point := points.foldr joinPoint []

/-- The character of a code point. -/
def Point.char? : Point → Option Char
  | .char c => some c
  | .surrogate _ => none

/-- Kinds of strings. A kind may have no string with some code points. -/
class Text (S : Type) where
  points : S → List Point
  ofPoints : List Point → Option S
  /-- What reading makes of a written string. -/
  joined : S → S
  ofString : String → S
  ofPoints_joinPairs : ∀ s, ofPoints (joinPairs (points s)) = some (joined s)
  joined_joined : ∀ s, joined (joined s) = joined s
  joined_ofString : ∀ text, joined (ofString text) = ofString text
  ofString_injective : ∀ text other, ofString text = ofString other → text = other

/-- The strings of the interpreter, in which a surrogate may stand alone. -/
abbrev PyText := List Point

/-- A string between quotes. -/
def writeString {S : Type} [Text S] (s : S) : List Char :=
  '"' :: ((Text.points s).flatMap escapePoint ++ ['"'])

/-- A string up to its closing quote. -/
def scanText {S : Type} [Text S] (fuel : ℕ) (input : List Char) : Option (S × List Char) :=
  match scanChars fuel input with
  | some (points, rest) => (Text.ofPoints points).map (·, rest)
  | none => none

/-! ## Numbers -/

/-- The parts of a number: sign, digits, digits after the point and the exponent with its marker;
an absent part is empty. -/
structure Number where
  negative : Bool
  whole : List Char
  fraction : List Char
  exponent : List Char
  deriving DecidableEq

/-- The text of a number. -/
def Number.text (n : Number) : List Char :=
  (if n.negative then ['-'] else []) ++ (n.whole ++
    ((if n.fraction = [] then [] else '.' :: n.fraction) ++ n.exponent))

/-- A number without fraction and exponent. -/
def Number.isInt (n : Number) : Bool := n.fraction.isEmpty && n.exponent.isEmpty

/-- The value of such a number. -/
def Number.toInt (n : Number) : ℤ :=
  if n.negative then -(Nat.ofDigitChars 10 n.whole 0 : ℤ) else Nat.ofDigitChars 10 n.whole 0

/-- A text of digits. -/
def Digits (cs : List Char) : Prop := ∀ c ∈ cs, c.isDigit = true

/-- An exponent: empty, or a marker, an optional sign and digits. -/
def ExponentText (cs : List Char) : Prop :=
  cs = [] ∨ ∃ marker sign digits, cs = marker :: (sign ++ digits) ∧
    (marker = 'e' ∨ marker = 'E') ∧ (sign = [] ∨ sign = ['+'] ∨ sign = ['-']) ∧
    digits ≠ [] ∧ Digits digits

/-- The number follows the grammar; the whole part has no leading zero. -/
structure Number.Valid (n : Number) : Prop where
  whole_ne_nil : n.whole ≠ []
  whole_digits : Digits n.whole
  no_leading_zero : n.whole.head? = some '0' → n.whole = ['0']
  fraction_digits : Digits n.fraction
  exponent_text : ExponentText n.exponent

/-- The number of an integer. -/
def Number.ofInt (n : ℤ) : Number := ⟨decide (n < 0), Nat.toDigits 10 n.natAbs, [], []⟩

/-- The digits before the point: a single zero, or digits that do not start with one. -/
def scanWhole (input : List Char) : List Char × List Char :=
  if input.head? = some '0' then (['0'], input.tail)
  else (input.takeWhile Char.isDigit, input.dropWhile Char.isDigit)

/-- The digits after a point, when there are any. -/
def scanFraction (input : List Char) : List Char × List Char :=
  if input.head? = some '.' ∧ input.tail.takeWhile Char.isDigit ≠ [] then
    (input.tail.takeWhile Char.isDigit, input.tail.dropWhile Char.isDigit)
  else ([], input)

/-- An optional sign. -/
def scanSign (input : List Char) : List Char × List Char :=
  if input.head? = some '+' then (['+'], input.tail)
  else if input.head? = some '-' then (['-'], input.tail)
  else ([], input)

/-- The exponent, when there is a complete one. -/
def scanExponent : List Char → List Char × List Char
  | [] => ([], [])
  | marker :: rest =>
      if (marker = 'e' ∨ marker = 'E') ∧ (scanSign rest).2.takeWhile Char.isDigit ≠ [] then
        (marker :: ((scanSign rest).1 ++ (scanSign rest).2.takeWhile Char.isDigit),
          (scanSign rest).2.dropWhile Char.isDigit)
      else ([], marker :: rest)

/-- A number without its sign. -/
def scanUnsigned (negative : Bool) (input : List Char) : Option (Number × List Char) :=
  if (scanWhole input).1 = [] then none
  else
    let fraction := scanFraction (scanWhole input).2
    let exponent := scanExponent fraction.2
    some (⟨negative, (scanWhole input).1, fraction.1, exponent.1⟩, exponent.2)

/-- A number at the start of the input. -/
def scanNumber (input : List Char) : Option (Number × List Char) :=
  if input.head? = some '-' then scanUnsigned true input.tail else scanUnsigned false input

/-- Floats and their text, how many digits the text of an integer may have and how many levels of arrays
and objects the interpreter writes before its stack ends. -/
structure Floats (F : Type) where
  /-- The shortest number that reads back as the float, when it is finite. -/
  number : F → Number
  ofNumber : Number → F
  /-- No float stands for an integer that is too large. -/
  ofInt : ℤ → Option F
  isNegative : F → Bool
  isFinite : F → Bool
  maxDigits : ℕ
  maxLevels : ℕ
  valid : ∀ x, (number x).Valid
  not_int : ∀ x, (number x).isInt = false
  ofNumber_number : ∀ x, isFinite x = true → ofNumber (number x) = x

/-! ## Values -/

section Members

variable {F S : Type} [DecidableEq S]

/-- Set a key of an object: a new key goes last, a known one keeps its place. -/
def setKey (key : S) (value : Value F S) :
    List (S × Value F S) → List (S × Value F S)
  | [] => [(key, value)]
  | (k, v) :: rest => if k = key then (k, value) :: rest else (k, v) :: setKey key value rest

/-- The object of a list of members; the last of a repeated key wins. -/
def dict (members : List (S × Value F S)) : List (S × Value F S) :=
  members.foldl (fun object (key, value) => setKey key value object) []

end Members

variable {F S : Type} (floats : Floats F)

/-- The rest of the input after a word. -/
def takeWord : List Char → List Char → Option (List Char)
  | [], input => some input
  | _ :: _, [] => none
  | c :: word, d :: input => if c = d then takeWord word input else none

/-- The value that a number stands for, unless it is an integer with too many digits. -/
def numberValue (n : Number) : Option (Value F S) :=
  if n.isInt then if n.whole.length ≤ floats.maxDigits then some (.int n.toInt) else none
  else some (.float (floats.ofNumber n))

/-- A value that is one token. -/
def scanAtom (input : List Char) : Option (Value F S × List Char) :=
  match takeWord "null".toList input with
  | some rest => some (.null, rest)
  | none =>
      match takeWord "true".toList input with
      | some rest => some (.bool true, rest)
      | none =>
          match takeWord "false".toList input with
          | some rest => some (.bool false, rest)
          | none => (scanNumber input).bind fun (n, rest) => (numberValue floats n).map (·, rest)

mutual

/-- Every integer, float and string inside, keys included, passes its test. -/
def Value.all (int : ℤ → Bool) (float : F → Bool) (text : S → Bool) : Value F S → Bool
  | .int n => int n
  | .float x => float x
  | .str s => text s
  | .arr items => itemsAll int float text items
  | .obj members => membersAll int float text members
  | .null | .bool _ => true

/-- Every integer, float and string in the items passes its test. -/
def itemsAll (int : ℤ → Bool) (float : F → Bool) (text : S → Bool) : List (Value F S) → Bool
  | [] => true
  | item :: rest => Value.all int float text item && itemsAll int float text rest

/-- Every integer, float and string in the members passes its test. -/
def membersAll (int : ℤ → Bool) (float : F → Bool) (text : S → Bool) : List (S × Value F S) → Bool
  | [] => true
  | (key, value) :: rest =>
      text key && Value.all int float text value && membersAll int float text rest

end

mutual

/-- How many arrays and objects lie around one another in a value. -/
def Value.levels : Value F S → ℕ
  | .arr items => itemsLevels items + 1
  | .obj members => membersLevels members + 1
  | .null | .bool _ | .int _ | .float _ | .str _ => 0

/-- The levels of the deepest item. -/
def itemsLevels : List (Value F S) → ℕ
  | [] => 0
  | item :: rest => max item.levels (itemsLevels rest)

/-- The levels of the deepest member. -/
def membersLevels : List (S × Value F S) → ℕ
  | [] => 0
  | (_, value) :: rest => max value.levels (membersLevels rest)

end

/-- Every number in the value has a text: no integer has too many digits and every float is finite. -/
def Value.writableNumbers (value : Value F S) : Bool :=
  value.all (fun n => (Number.ofInt n).whole.length ≤ floats.maxDigits) floats.isFinite fun _ => true

/-- The writer accepts the value: its numbers have a text and it nests no deeper than can be written. -/
def Value.writable (value : Value F S) : Bool :=
  value.writableNumbers floats && value.levels ≤ floats.maxLevels

variable [Text S]

mutual

/-- The text of a value. -/
def write : Value F S → List Char
  | .null => "null".toList
  | .bool true => "true".toList
  | .bool false => "false".toList
  | .int n => (Number.ofInt n).text
  | .float x => (floats.number x).text
  | .str s => writeString s
  | .arr items => '[' :: writeItems true items
  | .obj members => '\x7b' :: writeMembers true members

/-- The remaining items of an array with the closing bracket. -/
def writeItems (first : Bool) : List (Value F S) → List Char
  | [] => [']']
  | item :: rest => (if first then [] else [',']) ++ (write item ++ writeItems false rest)

/-- The remaining members of an object with the closing brace. -/
def writeMembers (first : Bool) : List (S × Value F S) → List Char
  | [] => ['\x7d']
  | (key, value) :: rest =>
      (if first then [] else [',']) ++
        (writeString key ++ ':' :: (write value ++ writeMembers false rest))

end

variable [DecidableEq S]

mutual

/-- One value at the start of the input, and what follows it. -/
def scanValue : ℕ → List Char → Option (Value F S × List Char)
  | 0, _ => none
  | fuel + 1, input =>
      if input.head? = some '"' then
        (scanText fuel input.tail).map fun (s, rest) => (.str s, rest)
      else if input.head? = some '[' then
        (scanItems fuel true (skip input.tail)).map fun (items, rest) => (.arr items, rest)
      else if input.head? = some '\x7b' then
        (scanMembers fuel true (skip input.tail)).map fun (members, rest) =>
          (.obj (dict members), rest)
      else scanAtom floats input

/-- The remaining items of an array up to its closing bracket. -/
def scanItems : ℕ → Bool → List Char → Option (List (Value F S) × List Char)
  | 0, _, _ => none
  | fuel + 1, first, input =>
      if first ∧ input.head? = some ']' then some ([], input.tail)
      else
        match scanValue fuel input with
        | none => none
        | some (item, rest) =>
            if (skip rest).head? = some ']' then some ([item], (skip rest).tail)
            else if (skip rest).head? = some ',' then
              (scanItems fuel false (skip (skip rest).tail)).map fun (items, rest) =>
                (item :: items, rest)
            else none

/-- The remaining members of an object up to its closing brace. -/
def scanMembers : ℕ → Bool → List Char → Option (List (S × Value F S) × List Char)
  | 0, _, _ => none
  | fuel + 1, first, input =>
      if first ∧ input.head? = some '\x7d' then some ([], input.tail)
      else if input.head? = some '"' then
        match scanText fuel input.tail with
        | none => none
        | some (key, afterKey) =>
            if (skip afterKey).head? = some ':' then
              match scanValue fuel (skip (skip afterKey).tail) with
              | none => none
              | some (value, rest) =>
                  if (skip rest).head? = some '\x7d' then
                    some ([(key, value)], (skip rest).tail)
                  else if (skip rest).head? = some ',' then
                    (scanMembers fuel false (skip (skip rest).tail)).map fun (members, rest) =>
                      ((key, value) :: members, rest)
                  else none
            else none
      else none

end

/-- The value of a complete text; only whitespace may surround it. -/
def loads (input : List Char) : Option (Value F S) :=
  match scanValue floats (input.length + 1) (skip input) with
  | some (value, rest) => if skip rest = [] then some value else none
  | none => none

end JsonText

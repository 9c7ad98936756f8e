import RatCalc.Failure
import RatCalc.Numeral
import RatCalc.Text.Case
import RatCalc.Text.Quoted

/-!
# Numeral systems

A numeral system is a list of digits; the place of a digit in the list is its value.

* `NumeralSystem`: at least two digits, all different, none of them a symbol of expressions.
* `ofDigits`: the system of given digits; `ofBase`: the digits 0-9, a-z, A-Z up to base 62.
* `toText`, `valueOf`: writing and reading integers.
* `expMarker`: the mark before an exponent, which must not be a digit.
-/

namespace RatCalc

/-- A list of digits, each worth its place in the list. -/
structure NumeralSystem where
  digits : List String
  name : String
  two_le : 2 ≤ digits.length
  nodup : digits.Nodup
  unreserved : ∀ d ∈ digits, d ∉ ["+", "-", "*", "/", "^", "!", "(", ")", "[", "]", ":", ".", "#", "~"]

namespace NumeralSystem

/-- The symbols that expressions are written with. -/
def reserved : List String := ["+", "-", "*", "/", "^", "!", "(", ")", "[", "]", ":", ".", "#", "~"]

/-- The given name, or one that tells the base if the name is missing or empty. -/
def nameOr (name : Option String) (fallback : String) : String :=
  match name with
  | some n => if n = "" then fallback else n
  | none => fallback

/-- The system of the given digits. -/
def ofDigits (digits : List String) (name : Option String) : Except Failure NumeralSystem :=
  if h₁ : 2 ≤ digits.length then
    if h₂ : digits.Nodup then
      if h₃ : ∀ d ∈ digits, d ∉ reserved then
        .ok ⟨digits, nameOr name ("Base " ++ toString digits.length), h₁, h₂, h₃⟩
      else .error (.base (.reservedCharacters (digits.filter (reserved.contains ·)) reserved))
    else .error (.base .duplicateCharacters)
  else .error (.base .tooFewCharacters)

/-- The number of digits. -/
def base (s : NumeralSystem) : Nat := s.digits.length

/-- Two systems are the same if their digits are; names do not matter. -/
def sameDigits (s t : NumeralSystem) : Bool := s.digits == t.digits

/-- The mark before an exponent: `E`, or `_^` where `E` is a digit. -/
def expMarker (s : NumeralSystem) : Text := if s.digits.contains "E" then ['_', '^'] else ['E']

/-! ## Digits -/

/-- The value of a digit. -/
def digitValue (s : NumeralSystem) (digit : String) : Except Failure Nat :=
  match s.digits.findIdx? (· == digit) with
  | some v => .ok v
  | none => .error (.base (.unknownDigit digit s.name s.base))

/-- The value of a digit of one character. -/
def charValue (s : NumeralSystem) (c : Char) : Except Failure Nat := s.digitValue (String.singleton c)

/-- Whether a character is a digit. -/
def isDigit (s : NumeralSystem) (c : Char) : Bool := s.digits.contains (String.singleton c)

/-- The digit of a value, if there is one. -/
def digit? (s : NumeralSystem) (value : Int) : Option String :=
  if 0 ≤ value then s.digits[value.toNat]? else none

/-- The digit of value zero. -/
def leastDigit (s : NumeralSystem) : String :=
  s.digits.head (by intro h; have := s.two_le; simp [h] at this)

/-- The digit of the greatest value. -/
def greatestDigit (s : NumeralSystem) : String :=
  s.digits.getLast (by intro h; have := s.two_le; simp [h] at this)

/-- Whether a text is a non-empty row of digits. -/
def isNumeral (s : NumeralSystem) (t : Text) : Bool := !t.isEmpty && t.all s.isDigit

/-- Whether a text is a row of digits, with a minus sign before it or not. -/
def isSignedNumeral (s : NumeralSystem) : Text → Bool
  | '-' :: t => s.isNumeral t
  | t => s.isNumeral t

/-! ## Numerals -/

/-- The digit values of a number in a base, most significant first. -/
def places (base n : Nat) : List Nat :=
  if base < 2 ∨ n < base then [n] else places base (n / base) ++ [n % base]
termination_by n
decreasing_by exact Nat.div_lt_self (by omega) (by omega)

/-- The numeral of a natural number. -/
def natText (s : NumeralSystem) (n : Nat) : Text :=
  (places s.base n).flatMap fun v => (s.digits.getD v "").toList

/-- The numeral of an integer. -/
def toText (s : NumeralSystem) (v : Int) : Text :=
  if v < 0 then '-' :: s.natText v.natAbs else s.natText v.natAbs

/-- The value of a row of digits; the empty row has value zero. -/
def natValue (s : NumeralSystem) (t : Text) : Except Failure Nat :=
  t.foldlM (fun v c => (s.charValue c).map (v * s.base + ·)) 0

/-- The value of a numeral, with a minus sign before it or not. -/
def valueOf (s : NumeralSystem) (t : Text) : Except Failure Int :=
  match t with
  | [] => .error (.base .emptyNumeral)
  | '-' :: t => (s.natValue t).map fun n => -(n : Int)
  | t => (s.natValue t).map fun n => (n : Int)

/-! ## Texts -/

/-- The name, and the digits or the first and the last ten of them. -/
def text (s : NumeralSystem) : Text :=
  let preview :=
    if s.digits.length ≤ 20 then String.join s.digits
    else String.join (s.digits.take 10) ++ "..." ++ String.join (s.digits.drop (s.digits.length - 10))
  (s.name ++ " (" ++ preview ++ ")").toList

/-- The call that builds the system, as reports show it. -/
def shown (s : NumeralSystem) : Text :=
  "BaseSystem(".toList ++ Text.quoted (String.join s.digits).toList ++ ", ".toList
    ++ Text.quoted s.name.toList ++ [')']

end NumeralSystem

end RatCalc

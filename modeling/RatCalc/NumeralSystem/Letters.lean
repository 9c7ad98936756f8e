import RatCalc.NumeralSystem.Standard

/-!
# Letters that name numeral systems

In a literal such as `0xff` a letter names the system of the digits after it.

* `LetterTable`: letters with their systems, in the order in which they were first registered.
* `register`, `unregister`, `system?`, `letter?`.
-/

namespace RatCalc

/-- Letters with the systems they name. -/
abbrev LetterTable := List (Char × NumeralSystem)

namespace LetterTable

open Text

/-- The letters that are known at the start. -/
def initial : LetterTable :=
  [('x', .hexadecimal), ('b', .binary), ('o', .octal), ('d', .decimal)]

/-- Whether the character is a letter of the basic alphabet. -/
def isLetter (c : Char) : Bool := ('a' ≤ c && c ≤ 'z') || ('A' ≤ c && c ≤ 'Z')

/-- Gives a letter its system: in its old place if it is there, at the end otherwise. -/
def insert : LetterTable → Char → NumeralSystem → LetterTable
  | [], c, s => [(c, s)]
  | (d, t) :: rest, c, s => if d = c then (d, s) :: rest else (d, t) :: insert rest c s

/-- Gives a letter its system, if the text is a letter. -/
def register (table : LetterTable) (letter : Text) (s : Option NumeralSystem) :
    Except Failure LetterTable :=
  match letter, s with
  | [c], some s => if isLetter c then .ok (insert table c s) else .error (.base .letterKind)
  | [_], none => .error (.base .letterSystem)
  | _, _ => .error (.base .letterLength)

/-- Takes a letter out of the table. -/
def unregister (table : LetterTable) (letter : Text) : LetterTable :=
  table.filter fun entry => [entry.1] != letter

/-- The system of a letter, or else of the first letter that differs in case only. -/
def system? (table : LetterTable) (letter : Text) : Option NumeralSystem :=
  match table.find? fun entry => [entry.1] == letter with
  | some entry => some entry.2
  | none => (table.find? fun entry => lowerChar entry.1 == lower letter).map (·.2)

/-- The first letter that names a system of the same digits. -/
def letter? (table : LetterTable) (s : NumeralSystem) : Option Char :=
  (table.find? fun entry => entry.2.sameDigits s).map (·.1)

end LetterTable

end RatCalc

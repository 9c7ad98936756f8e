import RatCalc.Expr.Basic
import RatCalc.Literal.Rational
import RatCalc.Text.Alphanumeric

/-!
# Digits and marks of expressions

Blanks are taken out of an expression text before it is read. Two of them leave a mark, because
they change what the text says: those before the mark of an exponent and those after a slash.

* `Dialect.prepare`: the text without blanks; `Dialect.display` shows the marks as blanks again.
* `Dialect.digits`, `Dialect.exponent`: a row of digits, and an exponent, at the start of a text.
-/

namespace RatCalc

namespace Dialect

open Text

/-- What stands for blanks and the mark of an exponent after them. -/
def spacedMark : Char := '\x01'

/-- What stands for blanks after a slash. -/
def divisionMark : Char := '\x02'

/-- The mark before an exponent. -/
def marker (d : Dialect) : Text :=
  match d.system with
  | some s => s.expMarker
  | none => ['E']

/-! ## Blanks -/

/-- Blanks with the mark of an exponent after them as one mark. `skip` characters of the text belong
to a mark that was written already. -/
def markExponents (marker : Text) : (skip : Nat) → Text → Text
  | _, [] => []
  | skip + 1, _ :: rest => markExponents marker skip rest
  | 0, c :: rest =>
    if isBlank c && marker.isPrefixOf (rest.dropWhile isBlank) then
      if rest.head?.any isBlank then markExponents marker 0 rest
      else spacedMark :: markExponents marker marker.length rest
    else c :: markExponents marker 0 rest

/-- The text without blanks, with a mark for those after a slash. -/
def withoutBlanks : Text → Text
  | [] => []
  | c :: rest =>
    if isBlank c then withoutBlanks rest
    else if c = '/' && rest.head?.any isBlank then '/' :: divisionMark :: withoutBlanks rest
    else c :: withoutBlanks rest

/-- An expression text as it is read. -/
def prepare (d : Dialect) (t : Text) : Text := withoutBlanks (markExponents d.marker 0 t)

/-- A part of a prepared text as reports show it. -/
def display (d : Dialect) (t : Text) : Text :=
  t.flatMap fun c =>
    if c = spacedMark then ' ' :: d.marker else if c = divisionMark then [' '] else [c]

/-! ## Digits -/

/-- Whether the character is a digit. -/
def isDigit (d : Dialect) (c : Char) : Bool :=
  match d.system with
  | some s => s.isDigit c
  | none => isPlainDigit c

/-- The value of a row of digits; the empty row has value zero. -/
def value (d : Dialect) (t : Text) : Except Failure Nat :=
  match d.system with
  | some s => s.natValue t
  | none => .ok (Numeral.value t)

/-- Whether an exponent with its mark follows: a digit after the mark and an optional minus sign. -/
def exponentFollows (d : Dialect) (t : Text) : Bool :=
  match after? d.marker t with
  | some ('-' :: c :: _) => d.isDigit c
  | some (c :: _) => d.isDigit c
  | _ => false

/-- A row of digits, empty or not. In a numeral system of its own an expression has no letters, so
one after the digits is a digit that the system lacks. -/
def digits (d : Dialect) (t : Text) : Except Failure (Text × Text) :=
  let rest := t.dropWhile d.isDigit
  match d.system, rest with
  | some s, c :: _ =>
    if isAlphanumeric c && !d.marker.isPrefixOf rest then do
      let _ ← s.charValue c
      return (t.takeWhile d.isDigit, rest)
    else .ok (t.takeWhile d.isDigit, rest)
  | _, _ => .ok (t.takeWhile d.isDigit, rest)

/-- An integer exponent. -/
def exponent (d : Dialect) (t : Text) : Except Failure (Int × Text) := do
  let (negative, t) := match t with
    | '-' :: rest => (true, rest)
    | t => (false, t)
  let (ds, rest) ← d.digits t
  if ds.isEmpty then .error (.literal .missingExponent)
  else return (Literal.signed negative (← d.value ds), rest)

end Dialect

end RatCalc

import RatCalc.Literal.Bracket
import RatCalc.NumeralSystem.Letters
import RatCalc.Operand.Measure

/-!
# Numeral systems and operands

* `toSystem`, `toStandard`, `toPattern`: the system of digits, of a base or of a size that is
  handed in.
* `toDigit`, `ofDigit`, `ofNumeral`, `isNumeral`: digits and numerals of what is handed in.
* `toInputBase`: the numeral system of expressions.
-/

namespace RatCalc.Operand

/-- What is wrong with a list of digits not all of which are texts. -/
def digitsFault (items : List Operand) : Failure :=
  if items.length < 2 then .base .tooFewCharacters
  else
    match distinct items with
    | .error f => f
    | .ok found =>
      let conflicts := ((items.filterMap text?).map String.ofList).filter
        (NumeralSystem.reserved.contains ·)
      if found.length < items.length then .base .duplicateCharacters
      else if conflicts.isEmpty then .base .charactersKind
      else .base (.reservedCharacters conflicts NumeralSystem.reserved)

/-- The system whose digits are the characters of a text, or the texts of a list. -/
def toSystem (digits : Operand) (name : Option String) : Except Failure NumeralSystem :=
  match digits with
  | datum (.text s) => NumeralSystem.ofDigits (s.toText.map String.singleton) name
  | list items =>
    match items.mapM text? with
    | some texts => NumeralSystem.ofDigits (texts.map String.ofList) name
    | none => .error (digitsFault items)
  | _ => .error (.base .charactersKind)

/-- The standard system of a base. -/
def toStandard (base : Operand) (name : Option String) : Except Failure NumeralSystem :=
  match base with
  | datum (.int n) => NumeralSystem.standard n name
  | _ => .error (.base .baseTooSmall)

/-- The system of a pattern with as many digits as an operand says. -/
def toPattern (pattern : Text) (size : Operand) (name : Option String) :
    Except Failure NumeralSystem := do
  let p ← NumeralSystem.Pattern.ofName pattern
  match size.exceeds? p.limit with
  | none => .error .operand
  | some true => .error (NumeralSystem.tooLarge p (String.ofList size.printed))
  | some false =>
    match p, size with
    | p, datum (.int n) => NumeralSystem.ofPattern p n name
    | .alphanumeric, _ => .error (.base .baseTooSmall)
    | p, datum (.truth b) => NumeralSystem.ofPattern p (if b then 1 else 0) name
    | p, size =>
      match size.whole? with
      | some n => NumeralSystem.ofPattern p n name
      | none => .error .operand

/-- The integer part of a double. -/
def truncated (a : Binary64) : Except Failure Int :=
  match a.truncate? with
  | some n => .ok n
  | none => .error (if a = .undefined then .numeral (String.ofList a.text) else .overflow)

/-- The integer that a text of digits stands for, which may be written in groups. -/
def grouped (t : Text) : Except Failure Int :=
  match Numeral.readGrouped? t with
  | some n => .ok n
  | none => .error (.numeral (String.ofList ((Text.quoted t).take 200)))

/-- The integer that an operand can be turned into; a text is read as one, and a double is rounded
toward zero. -/
def toWhole (x : Operand) : Except Failure Int :=
  match x with
  | datum (.truth b) => .ok (if b then 1 else 0)
  | datum (.real a) => truncated a
  | datum (.text s) => grouped s.toText
  | x =>
    match x.whole? with
    | some n => .ok n
    | none => .error .operand

/-- The value of a numeral; nothing but a text is one. -/
def ofNumeral (s : NumeralSystem) (x : Operand) : Except Failure Int :=
  match x.text? with
  | some t => s.valueOf t
  | none => .error (.base .emptyNumeral)

/-- The value of a digit. -/
def ofDigit (s : NumeralSystem) (x : Operand) : Except Failure Nat :=
  match x.text? with
  | some t => s.digitValue (String.ofList t)
  | none =>
    if x.isCompound then .error .operand
    else .error (.base (.unknownDigit (String.ofList x.printed) s.name s.base))

/-- The digit of a value. -/
def toDigit (s : NumeralSystem) (x : Operand) : Except Failure String := do
  match s.digit? (← x.toWhole) with
  | some d => return d
  | none => .error (.base (.digitOutOfRange (String.ofList x.printed) s.base))

/-- Whether all members of a list are digits; they are looked up until one is none. -/
def areDigits (s : NumeralSystem) : List Operand → Except Failure Bool
  | [] => .ok true
  | x :: rest =>
    if x.isCompound then .error .operand
    else if x.text?.any fun t => s.digits.contains (String.ofList t) then areDigits s rest
    else .ok false

/-- Whether an operand is a non-empty row of digits: a text, or a list of texts that are digits. -/
def isNumeral (s : NumeralSystem) (x : Operand) : Except Failure Bool :=
  if !x.holds then .ok false
  else
    match x.items? with
    | some items => areDigits s items
    | none => .error .operand

/-- Whether an operand is a numeral, with a minus sign before it or not. -/
def isSignedNumeral (s : NumeralSystem) (x : Operand) : Bool := x.text?.any s.isSignedNumeral

/-- A table of letters in which a letter names a system, if both operands are such. -/
def register (table : LetterTable) (letter system : Operand) : Except Failure LetterTable :=
  let s := match system with
    | .system s => some s
    | _ => none
  table.register (letter.text?.getD []) s

/-- The input base of expressions: a numeral system or the base of a standard one. Without one, or
with the decimal digits, expressions are decimal. -/
def toInputBase (x : Operand) : Except Failure (Option NumeralSystem) := do
  let s ← match x with
    | datum (.int n) => some <$> NumeralSystem.standard n none
    | datum .null => pure none
    | system s => pure (some s)
    | _ => .error (.base .inputBase)
  return s.filter fun s => !s.sameDigits .decimal

end RatCalc.Operand

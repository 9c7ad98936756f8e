import RatCalc.Literal.Bracket
import RatCalc.Number.Level
import RatCalc.Operand.Basic

/-!
# Numbers from operands

* `component`, `fractionComponent`, `exponent`, `endpoint`: an operand as a part of a number.
* `toInteger`, `toRational`, `toInterval`, `toFraction`, `toFractionInterval`: the number that
  operands stand for. Texts are read as literals.
* `ofRepeating`: the number of a repeating numeral.
* `literalKind`: the kind of number that a text, or a list of characters, suggests.
-/

namespace RatCalc.Operand

/-! ## Parts of numbers -/

/-- A numerator, denominator or term. -/
def component (x : Operand) : Except Failure Int :=
  match x.whole? with
  | some n => .ok n
  | none => .error (.literal (.rationalComponent (String.ofList x.shown)))

/-- A numerator or denominator of a fraction. -/
def fractionComponent (x : Operand) : Except Failure Int :=
  match x.whole? with
  | some n => .ok n
  | none => .error (.literal (.fractionComponent (String.ofList x.shown)))

/-- An exponent, or any other number that has to be whole. -/
def exponent (x : Operand) : Except Failure Int :=
  match x with
  | value ⟨.rational a, _⟩ => if a.den = 1 then .ok a.num else .error (.power .exponentKind)
  | x =>
    match x.whole? with
    | some n => .ok n
    | none => .error (.power .exponentKind)

/-- An endpoint of an interval. -/
def endpoint (x : Operand) : Except Failure Rat :=
  match x with
  | datum (.text s) => Literal.rational s.toText
  | x =>
    match x.number?.bind Number.toRat? with
    | some a => .ok a
    | none => .error (.literal (.intervalEndpoint (String.ofList x.shown)))

/-! ## Numbers -/

/-- The integer that an operand stands for. -/
def toInteger (x : Operand) : Except Failure Int :=
  match x with
  | datum (.text s) => Literal.integer s.toText
  | x =>
    match x.whole? with
    | some n => .ok n
    | none => .error (.literal .integerFormat)

/-- The number that a numerator and a denominator stand for. The numerator may be a rational number
or a literal itself. -/
def toRational (n d : Operand) : Except Failure Rat :=
  match n with
  | value ⟨.rational a, _⟩ => do
    let d ← d.component
    Ratio.ofInts a.num (a.den * d)
  | datum (.text s) => do
    let (num, den) ← Literal.quotient s.toText
    let d ← d.component
    Ratio.ofInts num (den * d)
  | n => do
    let n ← n.component
    let d ← d.component
    Ratio.ofInts n d

/-- The interval between two endpoints. -/
def toInterval (a b : Operand) : Except Failure Interval := do
  let a ← a.endpoint
  let b ← b.endpoint
  return .hull a b

/-- The fraction that a numerator and a denominator stand for. A literal stands alone. -/
def toFraction (n d : Operand) : Except Failure Fraction :=
  match n with
  | datum (.text s) => Fraction.read s.toText
  | n => do
    let n ← n.fractionComponent
    let d ← d.fractionComponent
    Fraction.ofInts n d

/-- The interval between two fractions. -/
def toFractionInterval : Operand → Operand → Except Failure FractionInterval
  | fraction a, fraction b => .ok (.hull a b)
  | _, _ => .error (.calculation .endpointKind)

/-- The integer that something with numerator and denominator is equal to. -/
def wholeOfParts (x : Operand) : Except Failure Int :=
  match x.parts? with
  | some (n, d) => if d = 1 then .ok n else .error (.calculation .notWhole)
  | none => .error .operand

/-- The value of a repeating numeral with `n` digits after the point and `m` in the period. With
fewer than none of either the denominator is a double, and that is no component. -/
def ofRepeating (ab abc n m base : Int) : Except Failure Rat :=
  if 0 ≤ n && 0 ≤ m then Literal.repeatingFraction ab abc n.toNat m.toNat base
  else do
    let places ← Ratio.rounded ((base : Rat) ^ n)
    let period ← if 0 ≤ m then Ratio.rounded ((base : Rat) ^ m - 1)
      else Ratio.rounded ((← Ratio.rounded ((base : Rat) ^ m)) - 1)
    let d ← Ratio.toBinary64 (places * period)
    .error (.literal (.rationalComponent (String.ofList d.text)))

/-- The character of an operand that is a text of one. -/
def character? (x : Operand) : Option Char :=
  match x.text? with
  | some [c] => some c
  | _ => none

/-- The kind of number that the characters of an operand suggest. -/
def literalKind (x : Operand) : Except Failure LiteralKind :=
  match x.items? with
  | some items => .ok (kindOfLiteral (items.filterMap character?))
  | none => .error .operand

end RatCalc.Operand

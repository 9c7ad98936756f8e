import RatCalc.Number.Basic

/-!
# Levels of the tower

* `level`, `raise`, `atCommonLevel`: the level of a number, and numbers brought to a level.
* `addLevelled`, `subLevelled`, `mulLevelled`, `divLevelled`: both operands are first brought to
  the higher of their levels.
* `Value`, `demote`: a number with the mark that its form was written out, and the simplest kind of
  an unmarked one.
* `kindOfLiteral`: the kind that a literal's characters suggest.
-/

namespace RatCalc

namespace Number

/-- Zero for integers, one for rational numbers, two for intervals. -/
def level : Number → Nat
  | integer _ => 0
  | rational _ => 1
  | interval _ => 2

/-- The number at a level that is not below its own. -/
def raise : Number → (target : Nat) → Number
  | integer n, 1 => rational n
  | integer n, 2 => interval (.point n)
  | rational a, 2 => interval (.point a)
  | x, _ => x

/-- Two numbers at the higher of their levels. -/
def atCommonLevel (x y : Number) : Number × Number :=
  let target := if x.level < y.level then y.level else x.level
  (x.raise target, y.raise target)

/-- The sum at the common level. -/
def addLevelled (x y : Number) : Number := add (atCommonLevel x y).1 (atCommonLevel x y).2

/-- The difference at the common level. -/
def subLevelled (x y : Number) : Number := sub (atCommonLevel x y).1 (atCommonLevel x y).2

/-- The product at the common level. -/
def mulLevelled (x y : Number) : Number := mul (atCommonLevel x y).1 (atCommonLevel x y).2

/-- The quotient at the common level. -/
def divLevelled (x y : Number) : Except Failure Number :=
  div (atCommonLevel x y).1 (atCommonLevel x y).2

/-- The products of numbers of the interval that a number stands for. -/
def productPow (x : Number) (k : Int) : Except Failure Number :=
  (x.toInterval.productPow k).map interval

/-- The simplest kind that has the value. -/
def simplest : Number → Number
  | interval i =>
    if i.isPoint then simplestRat i.low else interval i
  | rational a => simplestRat a
  | integer n => integer n
where
  /-- A rational number, as an integer if it is one. -/
  simplestRat (a : Rat) : Number := if a.den = 1 then integer a.num else rational a

end Number

/-- A number, and whether its form was written out and is to be kept. -/
structure Value where
  number : Number
  keepForm : Bool
  deriving DecidableEq

namespace Value

/-- A number whose form is not to be kept. -/
def plain (x : Number) : Value := ⟨x, false⟩

/-- A number whose form is to be kept. -/
def kept (x : Number) : Value := ⟨x, true⟩

/-- The value in its simplest kind, unless its form is to be kept. -/
def demote (v : Value) : Value := if v.keepForm then v else plain v.number.simplest

end Value

/-- The kinds of literals. -/
inductive LiteralKind where
  | integer
  | rational
  | interval
  deriving DecidableEq, Repr

/-- The kind of a literal by its characters: a colon or a pair of brackets makes an interval, a
slash or a point a rational number. -/
def kindOfLiteral (t : Text) : LiteralKind :=
  if t.elem ':' then .interval
  else if t.elem '[' && t.elem ']' then .interval
  else if t.elem '/' || t.elem '.' then .rational
  else .integer

end RatCalc

import RatCalc.Interval.Text
import RatCalc.Whole

/-!
# The tower of numbers

Integers, rational numbers and intervals, each kind contained in the next.

* `Number`: a number with its kind; `Number.toInterval` is its value as an interval.
* `add`, `sub`, `mul`, `div`: operations of the higher of the two kinds; the quotient of two
  integers is an integer if it comes out even.
* `neg`, `pow`, `shift`, `factorial`.
* `same`: equality of values, where an interval equals intervals only.
-/

namespace RatCalc

/-- A number of one of the three kinds. -/
inductive Number where
  | integer (n : Int)
  | rational (a : Rat)
  | interval (i : Interval)
  deriving DecidableEq

namespace Number

/-- The rational value of an integer or rational number. -/
def toRat? : Number → Option Rat
  | integer n => some n
  | rational a => some a
  | interval _ => none

/-- The number as an interval. -/
def toInterval : Number → Interval
  | integer n => .point n
  | rational a => .point a
  | interval i => i

/-- The operation of the higher of two kinds. -/
def combine (onIntegers : Int → Int → Int) (onRationals : Rat → Rat → Rat)
    (onIntervals : Interval → Interval → Interval) : Number → Number → Number
  | integer a, integer b => integer (onIntegers a b)
  | integer a, rational b => rational (onRationals a b)
  | rational a, integer b => rational (onRationals a b)
  | rational a, rational b => rational (onRationals a b)
  | x, y => interval (onIntervals x.toInterval y.toInterval)

/-- Sums. -/
def add : Number → Number → Number := combine (· + ·) (· + ·) Interval.add

/-- Differences. -/
def sub : Number → Number → Number := combine (· - ·) (· - ·) Interval.sub

/-- Products. -/
def mul : Number → Number → Number := combine (· * ·) (· * ·) Interval.mul

/-- The quotient of two integers. -/
def divIntegers (a b : Int) : Except Failure Number :=
  if b = 0 then .error (.division .byZero)
  else .ok (if a % b = 0 then integer (a / b) else rational (Rat.divInt a b))

/-- Quotients. -/
def div : Number → Number → Except Failure Number
  | integer a, integer b => divIntegers a b
  | integer a, rational b => (Ratio.div a b).map rational
  | rational a, integer b => (Ratio.div a b).map rational
  | rational a, rational b => (Ratio.div a b).map rational
  | x, y => (x.toInterval.div y.toInterval).map interval

/-- The number of opposite sign. -/
def neg : Number → Number
  | integer n => integer (-n)
  | rational a => rational (-a)
  | interval i => interval i.neg

/-- Powers of an integer. -/
def powInteger (n k : Int) : Except Failure Number :=
  if k = 0 then
    if n = 0 then .error (.power .zeroToZero) else .ok (integer 1)
  else if k < 0 then
    if n = 0 then .error (.power .zeroToNegative)
    else .ok (rational (Rat.divInt 1 (Int.pow n k.natAbs)))
  else .ok (integer (Int.pow n k.natAbs))

/-- Powers. -/
def pow : Number → Int → Except Failure Number
  | integer n, k => powInteger n k
  | rational a, k => (Ratio.pow a k).map rational
  | interval i, k => (i.pow k).map interval

/-- The value times `10 ^ k`: an integer stays one if no digit moves behind the point. -/
def shift : Number → Int → Number
  | integer n, k =>
    if 0 ≤ k then integer (n * Int.pow 10 k.natAbs)
    else rational (Ratio.shift 10 n k)
  | rational a, k => rational (Ratio.shift 10 a k)
  | interval i, k => interval (i.shift 10 k)

/-- The magnitude, except of an interval. -/
def abs? : Number → Option Number
  | integer n => some (integer n.natAbs)
  | rational a => some (rational a.abs)
  | interval _ => none

/-- Whether the value is zero, or the interval of zero alone. -/
def isZero : Number → Bool
  | integer n => n == 0
  | rational a => a == 0
  | interval i => i.low == 0 && i.high == 0

/-- Whether two numbers are equal in value; an interval is equal to intervals only. -/
def same : Number → Number → Bool
  | interval i, interval j => i == j
  | x, y =>
    match x.toRat?, y.toRat? with
    | some a, some b => a == b
    | _, _ => false

/-- The factorial, or double factorial, of a whole number. -/
def factorial (double : Bool) : Number → Except Failure Number
  | integer n => (Whole.factorial double n).map integer
  | rational a =>
    if a.den = 1 then (Whole.factorial double a.num).map integer
    else .error (.factorial (.notWhole double))
  | interval i =>
    if i.isPoint then
      if i.low.den = 1 then
        (Whole.factorial double i.low.num).map fun n => interval (.point n)
      else .error (.factorial (.notWhole double))
    else .error (.factorial (.notWhole double))

/-- The whole number that an exponent stands for, if it is one: also as a rational number or as the
interval of one number. -/
def wholeExponent? : Number → Option Int
  | integer n => some n
  | rational a => if a.den = 1 then some a.num else none
  | interval i => if i.isPoint && i.low.den == 1 then some i.low.num else none

/-! ## Texts -/

/-- The integer, fraction, or the two endpoints. -/
def text : Number → Text
  | integer n => Numeral.ofInt n
  | rational a => Ratio.text a
  | interval i => i.text

/-- The call that builds the number, as reports show it. -/
def shown : Number → Text
  | integer n => "Integer(".toList ++ Numeral.ofInt n ++ [')']
  | rational a => Ratio.shown a
  | interval i => i.shown

end Number

end RatCalc

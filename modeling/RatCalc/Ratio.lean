import RatCalc.Failure
import RatCalc.Binary64
import RatCalc.Expansion.Text

/-!
# Exact rational numbers

The numbers are those of `Rat`, which keeps every quotient in lowest terms with a positive
denominator.

* `ofInts`, `div`, `reciprocal`, `pow`: operations that fail where arithmetic is undefined.
* `shift`: moving the point by some places.
* `text`, `mixedText`: the fraction and the mixed number.
* `decimal`, `repeatingDecimal`: the decimal texts.
-/

namespace RatCalc.Ratio

/-- The quotient of two integers. -/
def ofInts (n d : Int) : Except Failure Rat :=
  if d = 0 then .error (.division .zeroDenominator) else .ok (Rat.divInt n d)

/-- Division. -/
def div (a b : Rat) : Except Failure Rat :=
  if b = 0 then .error (.division .byZero) else .ok (a / b)

/-- The reciprocal. -/
def reciprocal (a : Rat) : Except Failure Rat :=
  if a = 0 then .error (.division .reciprocalOfZero) else .ok a⁻¹

/-- Powers with an integer exponent. -/
def pow (a : Rat) (k : Int) : Except Failure Rat :=
  if a = 0 ∧ k = 0 then .error (.power .zeroToZero)
  else if a = 0 ∧ k < 0 then .error (.power .zeroToNegative)
  else .ok (a ^ k)

/-- The value times `base ^ k`: its point moved by `k` places. -/
def shift (base : Nat) (a : Rat) (k : Int) : Rat := a * (base : Rat) ^ k

/-- How two numbers are ordered. -/
def order (a b : Rat) : Ordering := if a < b then .lt else if a = b then .eq else .gt

/-- The smaller of two numbers. -/
def lesser (a b : Rat) : Rat := if a ≤ b then a else b

/-- The greater of two numbers. -/
def greater (a b : Rat) : Rat := if a ≤ b then b else a

/-- The whole part of the magnitude. -/
def wholePart (a : Rat) : Nat := a.num.natAbs / a.den

/-- The numerator of the fractional part of the magnitude. -/
def remainder (a : Rat) : Nat := a.num.natAbs % a.den

/-- The nearest double. -/
def toBinary64 (a : Rat) : Except Failure Binary64 :=
  match Binary64.nearest? (decide (a.num < 0)) a.num.natAbs a.den with
  | some x => .ok x
  | none => .error .overflow

/-- The value of a finite double. -/
def ofBinary64? : Binary64 → Option Rat
  | .finite negative m e => some (shift 2 (if negative then -(m : Rat) else m) e)
  | .infinite _ | .undefined => none

/-- The value rounded to a double. -/
def rounded (a : Rat) : Except Failure Rat := do
  return (ofBinary64? (← toBinary64 a)).getD 0

/-! ## Texts -/

/-- The fraction `n/d`, or the integer if the denominator is one. -/
def text (a : Rat) : Text :=
  if a.den = 1 then Numeral.ofInt a.num else Numeral.ofInt a.num ++ '/' :: Numeral.ofNat a.den

/-- The mixed number `a..b/c`; a proper fraction is written without a whole part. -/
def mixedText (a : Rat) : Text :=
  if a.den = 1 then Numeral.ofInt a.num
  else
    let fraction := Numeral.ofNat (remainder a) ++ '/' :: Numeral.ofNat a.den
    Expansion.sign (decide (a.num < 0))
      ++ (if wholePart a = 0 then fraction
        else Numeral.ofNat (wholePart a) ++ '.' :: '.' :: fraction)

/-- The call that builds the number, as reports show it. -/
def shown (a : Rat) : Text :=
  "Rational(".toList ++ Numeral.ofInt a.num ++ ", ".toList ++ Numeral.ofNat a.den ++ [')']

/-- The decimal cut after a number of digits. -/
def decimal (a : Rat) (digits : Nat) : Text := Expansion.truncated a.num a.den digits

/-- The repeating decimal with its period's length. -/
def repeatingDecimal (a : Rat) (useGroups : Bool) (limit : Nat) (maxDigits : Option Nat) :
    Text × Option Nat :=
  Expansion.repeating a.num a.den useGroups limit maxDigits

end RatCalc.Ratio

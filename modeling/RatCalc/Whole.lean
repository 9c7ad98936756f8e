import RatCalc.Failure

/-!
# Operations on integers

* `modulo`: the remainder with the sign of the dividend.
* `gcd`, `lcm`, `factorial`, `doubleFactorial`, `bitLength`.
-/

namespace RatCalc.Whole

/-- The remainder of truncated division. -/
def modulo (a b : Int) : Except Failure Int :=
  if b = 0 then .error (.division .moduloZero) else .ok (a.tmod b)

/-- The greatest common divisor, never negative. -/
def gcd (a b : Int) : Int := Int.gcd a b

/-- The least common multiple, never negative. -/
def lcm (a b : Int) : Int := Int.lcm a b

/-- The product of the numbers from one to `n`. -/
def product : Nat → Nat
  | 0 => 1
  | n + 1 => (n + 1) * product n

/-- The product of every other number from `n` down. -/
def alternateProduct : Nat → Nat
  | 0 | 1 => 1
  | n + 2 => (n + 2) * alternateProduct n

/-- The factorial, or the double factorial, of an integer that is not negative. -/
def factorial (double : Bool) (a : Int) : Except Failure Int :=
  if a < 0 then .error (.factorial (.negative double))
  else .ok (if double then alternateProduct a.toNat else product a.toNat)

/-- How many binary digits the magnitude has. -/
def bitLength (a : Int) : Nat := if a = 0 then 0 else Nat.log2 a.natAbs + 1

end RatCalc.Whole

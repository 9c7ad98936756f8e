import RatCalc.Numeral

/-!
# Decimal expansions

The expansion of `n / d` has a whole part, an initial segment that is as long as the larger of the
numbers of factors two and five in `d`, and a period, whose length is the multiplicative order of
ten modulo what is left of `d` without these factors.

* `longDivision`: digits one by one, with the remainder.
* `countFactor`, `orderOfTen`: the lengths of the two segments.
* `Expansion`, `Expansion.of`: the expansion of a quotient.
* `periodSegment`: digits of the period from a given place on.
-/

namespace RatCalc

/-- The decimal expansion of a quotient, as far as it was worked out. -/
structure Expansion where
  negative : Bool
  /-- The whole part of the magnitude. -/
  whole : Nat
  /-- What the whole part leaves of the magnitude's numerator. -/
  remainder : Nat
  twos : Nat
  fives : Nat
  /-- The digits before the period. -/
  initial : Text
  /-- The first digits of the period. -/
  period : Text
  /-- The length of the period; zero for a terminating expansion, nothing if it was not found. -/
  periodLength : Option Nat
  deriving DecidableEq, Repr

namespace Expansion

/-- How many digits of a period are worked out unless asked otherwise. -/
def defaultDigits : Nat := 20

/-- How far a period is searched unless asked otherwise. -/
def defaultLimit : Nat := 10000000

/-- How often `factor` divides `n`; zero for `n = 0`. -/
def countFactor (n factor : Nat) : Nat :=
  if 2 ≤ factor ∧ n ≠ 0 ∧ n % factor = 0 then countFactor (n / factor) factor + 1 else 0
termination_by n
decreasing_by exact Nat.div_lt_self (by omega) (by omega)

/-- Long division with the digits found so far, last one first. -/
def divideFrom (d : Nat) : (count remainder : Nat) → (found : Text) → Text × Nat
  | 0, r, found => (found.reverse, r)
  | count + 1, r, found =>
    if r = 0 then (found.reverse, 0)
    else divideFrom d count (r * 10 % d) ((Numeral.ofNat (r * 10 / d)).reverse ++ found)

/-- At most `count` digits of `remainder / d`, and the remainder left; it stops at remainder
zero. -/
def longDivision (remainder d count : Nat) : Text × Nat := divideFrom d count remainder []

/-- The search for the order of ten: `r` is the `length`-th power modulo `m`, and `fuel` more
lengths are below the limit. -/
def orderFrom (m : Nat) : (fuel length r : Nat) → Option Nat
  | 0, _, _ => none
  | fuel + 1, length, r => if r = 1 then some length else orderFrom m fuel (length + 1) (r * 10 % m)

/-- The multiplicative order of ten modulo `m`, if it is below the limit; zero for `m = 1`. -/
def orderOfTen (m : Nat) (limit : Nat) : Option Nat :=
  if m = 1 then some 0 else orderFrom m (limit - 1) 1 (10 % m)

/-- The number of zeros at the start of a row of digits, and the rest. -/
def splitZeros (digits : Text) : Nat × Text :=
  (digits.length - (digits.dropWhile (· == '0')).length, digits.dropWhile (· == '0'))

/-- The expansion of `n / d` with at most `maxDigits` digits of its period. -/
def of (n : Int) (d : Nat) (maxDigits : Nat) (limit : Nat) : Expansion :=
  let whole := n.natAbs / d
  let remainder := n.natAbs % d
  let negative := decide (n < 0)
  if remainder = 0 then ⟨negative, whole, 0, 0, 0, [], [], some 0⟩
  else
    let twos := countFactor d 2
    let fives := countFactor d 5
    let start := if twos < fives then fives else twos
    let reduced := d / (Nat.pow 2 twos * Nat.pow 5 fives)
    let (initial, rest) := longDivision remainder d start
    if reduced = 1 then ⟨negative, whole, remainder, twos, fives, initial, [], some 0⟩
    else
      let found := orderOfTen reduced limit
      let count := match found with
        | some p => if maxDigits < p then maxDigits else p
        | none => maxDigits
      ⟨negative, whole, remainder, twos, fives, initial, (longDivision rest d count).1, found⟩

/-- Whether the expansion ends. -/
def terminates (e : Expansion) : Bool := e.periodLength == some 0

/-- Whether the expansion of `n / d` ends; nothing is searched to tell. -/
def ends (n : Int) (d : Nat) : Bool := (of n d 0 0).terminates

/-- An expansion over `d` with the first `count` digits of its period. -/
def withPeriod (e : Expansion) (d count : Nat) : Expansion :=
  { e with period := (longDivision (longDivision e.remainder d e.initial.length).2 d count).1 }

/-- The remainder after `count` more places. -/
def advance (d : Nat) : (count remainder : Nat) → Nat
  | 0, r => r
  | count + 1, r => advance d count (r * 10 % d)

/-- Digits of the period with zeros kept: division goes on after remainder zero. -/
def plainDigits (d : Nat) : (count remainder : Nat) → Text
  | 0, _ => []
  | count + 1, r => Numeral.ofNat (r * 10 / d) ++ plainDigits d count (r * 10 % d)

/-- The first `requested` digits of the period that follows an initial segment of `start` places,
at most one period. There are none if the period's length is unknown or zero. -/
def periodSegment (n : Int) (d start : Nat) (length : Option Nat) (requested : Nat) : Text :=
  match length with
  | some p =>
    plainDigits d (if requested < p then requested else p) (advance d start (n.natAbs % d))
  | none => []

end Expansion

end RatCalc

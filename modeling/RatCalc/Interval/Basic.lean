import RatCalc.Ratio

/-!
# Closed intervals of rational numbers

* `Interval`: two endpoints in order; `a ∈ i` says that a number is between them.
* `hull`: the interval between two numbers given in any order.
* `add`, `sub`, `mul`, `div`, `neg`, `reciprocal`, `shift`: interval arithmetic.
* `pow`: the powers of the interval's numbers; `productPow`: the products of `n` numbers of the
  interval, chosen independently.
-/

namespace RatCalc

/-- A closed interval. -/
structure Interval where
  low : Rat
  high : Rat
  low_le_high : low ≤ high

namespace Interval

/-- Membership in an interval. -/
instance : Membership Rat Interval := ⟨fun i a => i.low ≤ a ∧ a ≤ i.high⟩

theorem mem_def {i : Interval} {a : Rat} : a ∈ i ↔ i.low ≤ a ∧ a ≤ i.high := Iff.rfl

instance (i : Interval) (a : Rat) : Decidable (a ∈ i) :=
  inferInstanceAs (Decidable (i.low ≤ a ∧ a ≤ i.high))

instance : DecidableEq Interval := fun i j =>
  if h : i.low = j.low ∧ i.high = j.high then
    .isTrue (by cases i; cases j; simp_all)
  else .isFalse (fun e => h (by simp [e]))

/-- The interval between two numbers, whichever is the smaller. -/
def hull (a b : Rat) : Interval :=
  if h : a ≤ b then ⟨a, b, h⟩ else ⟨b, a, (Rat.le_total).resolve_left h⟩

/-- The interval of one number. -/
def point (a : Rat) : Interval := ⟨a, a, Rat.le_refl⟩

/-- Whether the interval has only one number. -/
def isPoint (i : Interval) : Bool := i.low == i.high

/-- The distance of the endpoints. -/
def width (i : Interval) : Rat := i.high - i.low

/-- Whether zero is in the interval. -/
def containsZero (i : Interval) : Bool := decide ((0 : Rat) ∈ i)

/-! ## Arithmetic -/

/-- The sums of the numbers of two intervals. -/
def add (i j : Interval) : Interval := hull (i.low + j.low) (i.high + j.high)

/-- The differences. -/
def sub (i j : Interval) : Interval := hull (i.low - j.high) (i.high - j.low)

/-- The hull of four numbers. -/
def hullOfFour (a b c d : Rat) : Interval :=
  hull (Ratio.lesser (Ratio.lesser a b) (Ratio.lesser c d))
    (Ratio.greater (Ratio.greater a b) (Ratio.greater c d))

/-- The products. -/
def mul (i j : Interval) : Interval :=
  hullOfFour (i.low * j.low) (i.low * j.high) (i.high * j.low) (i.high * j.high)

/-- The quotients, if the divisor does not contain zero. -/
def div (i j : Interval) : Except Failure Interval :=
  if j.low = 0 ∧ j.high = 0 then .error (.division .byZero)
  else if j.containsZero then .error (.division .byIntervalWithZero)
  else .ok (hullOfFour (i.low / j.low) (i.low / j.high) (i.high / j.low) (i.high / j.high))

/-- The negated numbers. -/
def neg (i : Interval) : Interval := hull (-i.high) (-i.low)

/-- The reciprocals, if zero is not among the numbers. -/
def reciprocal (i : Interval) : Except Failure Interval :=
  if i.containsZero then .error (.division .reciprocalOfIntervalWithZero)
  else .ok (hull i.high⁻¹ i.low⁻¹)

/-- The numbers times `base ^ k`. -/
def shift (base : Nat) (i : Interval) (k : Int) : Interval :=
  hull (Ratio.shift base i.low k) (Ratio.shift base i.high k)

/-! ## Powers -/

/-- The powers with a positive exponent. -/
def natPow (i : Interval) (n : Nat) : Interval :=
  let low := i.low ^ n
  let high := i.high ^ n
  if n % 2 = 1 then hull low high
  else if i.containsZero then hull 0 (Ratio.greater low high)
  else hull low high

/-- The powers `x ^ k` of the numbers of the interval. -/
def pow (i : Interval) (k : Int) : Except Failure Interval :=
  if k = 0 then
    if i.low = 0 ∧ i.high = 0 then .error (.power .zeroToZero) else .ok (point 1)
  else if k < 0 then
    if i.containsZero then .error (.power .intervalToNegative)
    else .ok (natPow (hull i.high⁻¹ i.low⁻¹) k.natAbs)
  else .ok (natPow i k.natAbs)

/-- The interval multiplied by a factor `n` times. -/
def mulTimes (factor : Interval) : Nat → Interval → Interval
  | 0, i => i
  | n + 1, i => mulTimes factor n (i.mul factor)

/-- The products of as many numbers of the interval as the exponent says, or of their reciprocals
for a negative exponent. -/
def productPow (i : Interval) (k : Int) : Except Failure Interval :=
  if k = 0 then .error (.power .noFactor)
  else if k < 0 then do
    let base ← i.reciprocal
    return mulTimes base (k.natAbs - 1) base
  else .ok (mulTimes i (k.natAbs - 1) i)

end Interval

end RatCalc

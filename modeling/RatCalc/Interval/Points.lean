import RatCalc.Interval.Basic

/-!
# Numbers inside an interval

* `mediant`, `midpoint`.
* `firstOfPower`: the least multiple of the largest unit fraction `1 / base ^ k` that has one in
  the interval.
* `reducedFractions`: all numbers with denominators up to a limit; `candidates` falls back on the
  midpoint.
* `shortestDecimal`: the decimal with the fewest digits, nearest to the midpoint.
-/

namespace RatCalc.Interval

/-- The sum of the numerators over the sum of the denominators. -/
def mediant (i : Interval) : Rat :=
  mkRat (i.low.num + i.high.num) (i.low.den + i.high.den)

/-- The number in the middle. -/
def midpoint (i : Interval) : Rat := (i.low + i.high) / 2

/-- The least multiple of `1 / d` in the interval. -/
def firstMultiple? (i : Interval) (d : Nat) : Option Rat :=
  let first := (i.low * d).ceil
  if first ≤ (i.high * d).floor then some (mkRat first d) else none

/-- The least multiple of the first of `1 / d`, `1 / (d * base)`, … that has one. -/
def firstMultipleFrom (i : Interval) (base : Nat) : (fuel d : Nat) → Option Rat
  | 0, _ => none
  | fuel + 1, d =>
    match i.firstMultiple? d with
    | some a => some a
    | none => firstMultipleFrom i base fuel (d * base)

/-- How many powers of a base are tried: enough for a unit fraction below the width; for a single
number the powers up to the fiftieth. -/
def powersTried (i : Interval) : Nat :=
  if i.isPoint then 51 else Nat.log2 i.width.den + 2

/-- The least number of the interval whose denominator is the smallest power of the base. A single
number without such a form has none. -/
def firstOfPower (i : Interval) (base : Int) : Except Failure (Option Rat) :=
  if base ≤ 1 then .error (.base .placeBase)
  else .ok (firstMultipleFrom i base.toNat i.powersTried 1)

/-- The reduced fractions of the interval with denominator `d`, in order. -/
def fractionsOver (i : Interval) (d : Nat) : List Rat :=
  let low := (i.low * d).ceil
  let count := ((i.high * d).floor + 1 - low).toNat
  ((List.range count).map fun (k : Nat) => mkRat (low + k) d).filter fun a => a.den == d

/-- The numbers of the interval with denominators up to `limit`, by denominator and then in
order. -/
def reducedFractions (i : Interval) (limit : Nat) : List Rat :=
  (List.range' 1 limit).flatMap i.fractionsOver

/-- The numbers that one with a denominator up to `limit` is chosen from; without any the midpoint
is taken. -/
def candidates (i : Interval) (limit : Int) : Except Failure (List Rat ⊕ Rat) :=
  if limit ≤ 0 then .error (.calculation .denominatorLimit)
  else
    let found := i.reducedFractions limit.toNat
    .ok (if found.isEmpty then .inr i.midpoint else .inl found)

/-- The decimal with `places` digits after the point that is nearest to the midpoint, the lower one
of two. -/
def decimalWith? (i : Interval) (places : Nat) : Option Rat :=
  let scale := Nat.pow 10 places
  let low := (i.low * scale).ceil
  let high := (i.high * scale).floor
  if high < low then none
  else
    let center := (i.midpoint * scale).floor
    let inside (k : Int) : Bool := low ≤ k && k ≤ high
    let distance (k : Int) : Rat := (mkRat k scale - i.midpoint).abs
    let best :=
      if inside center then
        if inside (center + 1) && distance (center + 1) < distance center then center + 1
        else center
      else if inside (center + 1) then center + 1
      else if center < low then low
      else high
    some (mkRat best scale)

/-- The decimal with the fewest digits, twenty at most, or else the midpoint. -/
def shortestDecimal (i : Interval) : Rat :=
  ((List.range 21).findSome? i.decimalWith?).getD i.midpoint

end RatCalc.Interval

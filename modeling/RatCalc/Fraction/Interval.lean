import RatCalc.Fraction.Basic
import RatCalc.Interval.Text

/-!
# Intervals of unreduced fractions

* `FractionInterval`, `FractionInterval.hull`: two fractions, ordered by value.
* `mediantSplit`, `partitionWithMediants`: splitting at the mediant of the endpoints.
* `partitionAt`: splitting at given points.
-/

namespace RatCalc

/-- Two fractions, the first with the smaller value or the same. -/
structure FractionInterval where
  low : Fraction
  high : Fraction
  low_le_high : low.toRat ≤ high.toRat

namespace FractionInterval

instance : DecidableEq FractionInterval := fun i j =>
  if h : i.low = j.low ∧ i.high = j.high then
    .isTrue (by cases i; cases j; simp_all)
  else .isFalse (fun e => h (by simp [e]))

/-- The interval of two fractions; they are exchanged if the first has the greater value. -/
def hull (a b : Fraction) : FractionInterval :=
  if h : a.toRat ≤ b.toRat then ⟨a, b, h⟩ else ⟨b, a, (Rat.le_total).resolve_left h⟩

/-- The interval of the values. -/
def toInterval (i : FractionInterval) : Interval := ⟨i.low.toRat, i.high.toRat, i.low_le_high⟩

/-- The endpoints in lowest terms of an interval of values. -/
def ofInterval (i : Interval) : FractionInterval := hull (.ofRat i.low) (.ofRat i.high)

/-- Both endpoints times `10 ^ k`. -/
def shift (i : FractionInterval) (k : Int) : FractionInterval :=
  hull (i.low.shift k) (i.high.shift k)

/-! ## Splitting -/

/-- The pieces below and above the mediant of the endpoints. -/
def mediantSplit (i : FractionInterval) : Except Failure (List FractionInterval) := do
  let m ← Fraction.mediant i.low i.high
  return [hull i.low m, hull m i.high]

/-- All pieces split at their mediants. -/
def splitAll : List FractionInterval → Except Failure (List FractionInterval)
  | [] => .ok []
  | i :: rest => do
    let pieces ← i.mediantSplit
    return pieces ++ (← splitAll rest)

/-- All pieces split at their mediants a number of times. -/
def splitTimes : Nat → List FractionInterval → Except Failure (List FractionInterval)
  | 0, pieces => .ok pieces
  | n + 1, pieces => do splitTimes n (← splitAll pieces)

/-- The `2 ^ depth` pieces that repeated splitting at mediants gives. -/
def partitionWithMediants (i : FractionInterval) (depth : Int) :
    Except Failure (List FractionInterval) :=
  if depth < 0 then .error (.calculation .depth) else splitTimes depth.toNat [i]

/-- Puts a fraction into a list ordered by value, behind those of the same value. -/
def insertByValue (a : Fraction) : List Fraction → List Fraction
  | [] => [a]
  | b :: rest => if b.toRat ≤ a.toRat then b :: insertByValue a rest else a :: b :: rest

/-- The fractions ordered by value; equal values keep their order. -/
def sortByValue (points : List Fraction) : List Fraction :=
  points.foldl (fun sorted a => insertByValue a sorted) []

/-- The pieces from `start` on through the boundaries, of which those of the last value are
skipped. -/
def pieces (start : Fraction) : List Fraction → List FractionInterval
  | [] => []
  | a :: rest =>
    if a.toRat = start.toRat then pieces start rest else hull start a :: pieces a rest

/-- The pieces between neighbours among the endpoints and the given points. -/
def partitionAt (i : FractionInterval) (points : List Fraction) :
    Except Failure (List FractionInterval) :=
  let sorted := sortByValue points
  if sorted.any fun a => a.toRat < i.low.toRat || i.high.toRat < a.toRat then
    .error (.calculation .partitionOutside)
  else .ok (pieces i.low (sorted ++ [i.high]))

/-! ## Texts -/

/-- The endpoints with a colon between them. -/
def text (i : FractionInterval) : Text := i.low.text ++ ':' :: i.high.text

/-- The call that builds the interval, as reports show it. -/
def shown (i : FractionInterval) : Text :=
  "FractionInterval(".toList ++ i.low.shown ++ ", ".toList ++ i.high.shown ++ [')']

end FractionInterval

end RatCalc

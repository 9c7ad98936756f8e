import RatCalc.Interval.Basic

/-!
# Intervals as sets

* `overlaps`, `contains`: how two intervals lie to each other.
* `intersection`, `union`: the common numbers, and the numbers of either, where these form an
  interval.
-/

namespace RatCalc.Interval

/-- Whether the intervals have a number in common. -/
def overlaps (i j : Interval) : Bool := !(i.high < j.low || j.high < i.low)

/-- Whether the second interval lies in the first. -/
def contains (i j : Interval) : Bool := i.low ≤ j.low && j.high ≤ i.high

/-- The numbers of both intervals. -/
def intersection (i j : Interval) : Option Interval :=
  if i.overlaps j then some (hull (Ratio.greater i.low j.low) (Ratio.lesser i.high j.high))
  else none

/-- The numbers of either interval, if these are not apart. -/
def union (i j : Interval) : Option Interval :=
  if i.overlaps j then some (hull (Ratio.lesser i.low j.low) (Ratio.greater i.high j.high))
  else none

end RatCalc.Interval

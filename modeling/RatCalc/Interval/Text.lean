import RatCalc.Interval.Points

/-!
# Texts of intervals

* `text`, `mixedText`, `repeatingDecimal`: the two endpoints with a colon between them.
* `compactDecimal`: the common digits once, `1.23[56,67]`.
* `midpointDecimal`, `offsetDecimal`: a number with offsets, `1.5[+-0.5]` and `1.23[+5,-6]`.
-/

namespace RatCalc.Interval

open Expansion (defaultDigits defaultLimit)

/-- The endpoints as fractions. -/
def text (i : Interval) : Text := Ratio.text i.low ++ ':' :: Ratio.text i.high

/-- The endpoints as mixed numbers. -/
def mixedText (i : Interval) : Text := Ratio.mixedText i.low ++ ':' :: Ratio.mixedText i.high

/-- The call that builds the interval, as reports show it. -/
def shown (i : Interval) : Text :=
  "RationalInterval(".toList ++ Ratio.shown i.low ++ ", ".toList ++ Ratio.shown i.high ++ [')']

/-- The endpoints as repeating decimals. -/
def repeatingDecimal (i : Interval) (useGroups : Bool) : Text :=
  (Ratio.repeatingDecimal i.low useGroups defaultLimit none).1 ++ ':' ::
    (Ratio.repeatingDecimal i.high useGroups defaultLimit none).1

/-- The longest common beginning of two texts. -/
def common : Text → Text → Text
  | a :: s, b :: t => if a = b then a :: common s t else []
  | _, _ => []

/-- The endpoints as decimals: what they have in common, and in brackets the digits they differ
in. Without enough in common both are written out. -/
def compactDecimal (i : Interval) : Text :=
  let low := Ratio.decimal i.low defaultDigits
  let high := Ratio.decimal i.high defaultDigits
  let shared := common low high
  let lowRest := low.drop shared.length
  let highRest := high.drop shared.length
  let isShort := shared.length ≤ 1 || (shared.head? == some '-' && shared.length ≤ 2)
  let isPair := !lowRest.isEmpty && !highRest.isEmpty && lowRest.length == highRest.length
    && lowRest.all Text.isPlainDigit && highRest.all Text.isPlainDigit
  if isShort || !isPair then low ++ ':' :: high
  else shared ++ '[' :: lowRest ++ ',' :: highRest ++ [']']

/-- The midpoint with half the width. -/
def midpointDecimal (i : Interval) : Text :=
  Ratio.decimal i.midpoint defaultDigits ++ "[+-".toList
    ++ Ratio.decimal (i.high - i.midpoint) defaultDigits ++ [']']

/-- How many digits stand after the point of a decimal text. -/
def places (t : Text) : Nat := (t.dropWhile (· != '.')).length - 1

/-- The shortest decimal of the interval with the distances of the endpoints, counted in units of
the digit after its last place. -/
def offsetDecimal (i : Interval) : Text :=
  let base := i.shortestDecimal
  let below := base - i.low
  let above := i.high - base
  let baseText := Ratio.decimal base defaultDigits
  let unit : Int := if 0 < places baseText then places baseText + 1 else 0
  let scaledBelow := Ratio.shift 10 below unit
  let scaledAbove := Ratio.shift 10 above unit
  if (below - above).abs < mkRat 1 1000000 then
    baseText ++ "[+-".toList
      ++ Ratio.decimal ((scaledBelow + scaledAbove) / 2) defaultDigits ++ [']']
  else
    baseText ++ "[+".toList ++ Ratio.decimal scaledAbove defaultDigits ++ ",-".toList
      ++ Ratio.decimal scaledBelow defaultDigits ++ [']']

end RatCalc.Interval

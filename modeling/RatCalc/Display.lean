import RatCalc.Number.Level

/-!
# Showing results

* `OutputMode`, `Format`: what is shown of a number, and how much.
* `cutDecimal`, `cutRepeating`: decimals cut to a number of digits, with three dots.
* `Display.rational`, `Display.interval`, `Display.number`: the text of a result.
-/

namespace RatCalc

/-- What is shown of a number: its decimal, its fraction, or both. -/
inductive OutputMode where
  | decimal
  | fraction
  | both
  deriving DecidableEq, Repr

/-- How a result is shown. -/
structure Format where
  mode : OutputMode
  /-- How many digits after the point are shown. -/
  limit : Int
  /-- How many digits of a period are worked out. -/
  maxPeriodDigits : Nat
  /-- How far a period is searched. -/
  periodLimit : Nat

namespace OutputMode

/-- The names of the modes. -/
def name : OutputMode → String
  | decimal => "DECI"
  | fraction => "RAT"
  | both => "BOTH"

/-- The mode of a name. -/
def ofName? (s : String) : Option OutputMode :=
  if s = "DECI" then some decimal
  else if s = "RAT" then some fraction
  else if s = "BOTH" then some both
  else none

theorem ofName?_name (m : OutputMode) : ofName? m.name = some m := by
  cases m <;> rfl

end OutputMode

namespace Display

open Expansion (dots)

/-! ## Cutting decimals -/

/-- The first `k` characters of a text; a negative `k` counts from its end. -/
def upTo (k : Int) (t : Text) : Text :=
  if 0 ≤ k then t.take k.toNat else t.take (t.length - k.natAbs)

/-- A decimal cut after `limit` digits behind its point. -/
def cutDecimal (t : Text) (limit : Int) : Text :=
  let point := (t.takeWhile (· != '.')).length
  if point < t.length && decide (limit < (t.length : Int) - point - 1) then
    upTo (point + limit + 1) t ++ dots
  else t

/-- The text without the three dots at its end, if it has them. -/
def withoutDots? (t : Text) : Option Text :=
  if dots.isSuffixOf t then some (t.take (t.length - 3)) else none

/-- A repeating decimal cut to about `limit` digits before and after its mark. -/
def cutPeriod (t : Text) (limit : Int) : Option Text :=
  let before := t.takeWhile (· != '#')
  let after := t.drop (before.length + 1)
  let space := limit + 2 - before.length
  if limit + 2 < t.length then
    if limit + 1 < before.length then some (upTo (limit + 1) before ++ dots)
    else if space ≤ 1 then some (before ++ '#' :: dots)
    else if space - 1 < after.length then some (before ++ '#' :: (upTo (space - 1) after ++ dots))
    else none
  else none

/-- A decimal with its period, cut to about `limit` digits. The ending of a terminating one is left
out; dots that stand at the end already stay. -/
def cutRepeating (t : Text) (limit : Int) : Text :=
  if !t.elem '#' then t
  else if ['#', '0'].isSuffixOf t then cutDecimal (t.take (t.length - 2)) limit
  else
    match withoutDots? t with
    | some u => (cutPeriod u limit).getD (u ++ dots)
    | none => (cutPeriod t limit).getD t

/-! ## Results -/

/-- What is told about the period of a decimal. -/
def periodSuffix : Option Nat → Text
  | none => " [period > 10^7]".toList
  | some 0 => []
  | some p => " \x7bperiod: ".toList ++ Numeral.ofNat p ++ ['\x7d']

/-- Whether a decimal is terminating, by its text. -/
def isTerminating (t : Text) : Bool := ['#', '0'].isSuffixOf t

/-- The repeating decimal of a rational number, with the length of its period. -/
def expansion (f : Format) (a : Rat) : Text × Option Nat :=
  Ratio.repeatingDecimal a true f.periodLimit (some f.maxPeriodDigits)

/-- A repeating decimal as it is shown; a terminating one is not cut. -/
def cut (f : Format) (t : Text) : Text := if isTerminating t then t else cutRepeating t f.limit

/-- The decimal of a rational number without its period's length. -/
def decimal (f : Format) (a : Rat) : Text := cut f (expansion f a).1

/-- The decimal of a rational number with its period's length. -/
def decimalWithPeriod (f : Format) (a : Rat) : Text :=
  let e := expansion f a
  cut f e.1 ++ periodSuffix e.2

/-- A fraction after its decimal. -/
def withFraction (decimal fraction : Text) : Text := decimal ++ ' ' :: '(' :: fraction ++ [')']

/-- A rational number. -/
def rational (f : Format) (a : Rat) : Text :=
  match f.mode with
  | .decimal => decimalWithPeriod f a
  | .fraction => Ratio.text a
  | .both =>
    if (Ratio.text a).elem '/' then withFraction (decimalWithPeriod f a) (Ratio.text a)
    else cutDecimal (Ratio.decimal a (f.limit + 1).toNat) f.limit

/-- A repeating decimal as it is shown for an endpoint; that is inexact already, so the ending of a
terminating one is left out. -/
def cutEndpoint (f : Format) (t : Text) : Text :=
  if isTerminating t then t.take (t.length - 2) else cutRepeating t f.limit

/-- What is told about the period of an endpoint. -/
def endpointPeriod (name : String) : Option Nat → List Text
  | none => [name.toList ++ ": > 10^7".toList]
  | some 0 => []
  | some p => [name.toList ++ ':' :: ' ' :: Numeral.ofNat p]

/-- The decimals of two endpoints, with the lengths of their periods after both. -/
def joinEndpoints (low high : Text × Option Nat) : Text :=
  let periods := endpointPeriod "low" low.2 ++ endpointPeriod "high" high.2
  let note :=
    if periods.isEmpty then []
    else " \x7bperiod: ".toList ++ Text.join [',', ' '] periods ++ ['\x7d']
  low.1 ++ ':' :: high.1 ++ note

/-- The decimals of an interval with the lengths of their periods. -/
def intervalDecimals (f : Format) (i : Interval) : Text :=
  let low := expansion f i.low
  let high := expansion f i.high
  joinEndpoints (cutEndpoint f low.1, low.2) (cutEndpoint f high.1, high.2)

/-- What a mode shows of an interval with given decimals. -/
def intervalWith (mode : OutputMode) (i : Interval) (decimals : Text) : Text :=
  match mode with
  | .decimal => decimals
  | .fraction => i.text
  | .both => if decimals = i.text then decimals else withFraction decimals i.text

/-- An interval. -/
def interval (f : Format) (i : Interval) : Text := intervalWith f.mode i (intervalDecimals f i)

/-- A result. -/
def number (f : Format) : Number → Text
  | .integer n => Numeral.ofInt n
  | .rational a => rational f a
  | .interval i => interval f i

end Display

end RatCalc

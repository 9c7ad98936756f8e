import RatCalc.Display
import RatCalc.Operand.Expansion

/-!
# Showing operands

* `cutDecimal`, `cutRepeating`: decimals cut to as many digits as an operand says. Where nothing is
  cut, only the size of that operand matters.
* `periodSuffix`: what is told about a period.
* `formatted`: a result as it is shown.
-/

namespace RatCalc.Operand

open Display

/-! ## Cutting decimals -/

/-- A decimal cut after some digits behind its point. -/
def cutDecimal (t : Text) (limit : Operand) : Except Failure Text := do
  let point := (t.takeWhile (· != '.')).length
  if point < t.length then
    if ← limit.isBelow ((t.length : Int) - point - 1) then
      return Display.cutDecimal t (← limit.count)
    else return t
  else return t

/-- A decimal with its period, cut to about some number of digits. -/
def cutRepeating (t : Text) (limit : Operand) : Except Failure Text := do
  if !t.elem '#' then return t
  else if isTerminating t then cutDecimal (t.take (t.length - 2)) limit
  else
    let u := (withoutDots? t).getD t
    let before : Int := (u.takeWhile (· != '#')).length
    if ← limit.isBelow ((u.length : Int) - 2) then
      -- a number of another kind may still say that all of the period is left out
      return Display.cutRepeating t
        (← if limit.equals (before - 1) then pure (before - 1) else limit.count)
    else return t

/-- What is told about a period; a length of minus one is an unknown one. -/
def periodSuffix (p : Operand) : Except Failure Text :=
  if p.equals (-1) then .ok (Display.periodSuffix none)
  else
    match p.exceeds? 0 with
    | some true => .ok (" \x7bperiod: ".toList ++ p.printed ++ ['\x7d'])
    | some false => .ok []
    | none => .error .operand

/-! ## Results -/

/-- The mode that an operand names; all others show both. -/
def toMode (x : Operand) : OutputMode :=
  ((x.text?.map String.ofList).bind OutputMode.ofName?).getD .both

/-- The repeating decimal of a rational number, with the length of its period. -/
def repeatingOf (a : Rat) (maxDigits periodLimit : Operand) : Except Failure (Text × Option Nat) :=
  repeating (whole a.num) (whole a.den) true periodLimit maxDigits

/-- The repeating decimal of an endpoint as it is shown, with the length of its period. -/
def endpointDecimal (a : Rat) (limit maxDigits periodLimit : Operand) :
    Except Failure (Text × Option Nat) := do
  let (t, p) ← repeatingOf a maxDigits periodLimit
  if isTerminating t then return (t.take (t.length - 2), p) else return (← cutRepeating t limit, p)

/-- An integer as a decimal without digits after the point; they are counted all the same. -/
def wholeDecimal (a : Rat) (limit : Operand) : Except Failure Text :=
  if a = 0 && limit.size?.isSome then .ok (Ratio.text a)
  else do
    let _ ← limit.count
    return Ratio.text a

/-- A rational number. -/
def formattedRational (a : Rat) (mode : OutputMode) (limit maxDigits periodLimit : Operand) :
    Except Failure Text := do
  let (t, p) ← repeatingOf a maxDigits periodLimit
  let shown ← if isTerminating t then pure t else cutRepeating t limit
  let withPeriod := shown ++ Display.periodSuffix p
  match mode with
  | .decimal => return withPeriod
  | .fraction => return Ratio.text a
  | .both => if a.den = 1 then wholeDecimal a limit else return withFraction withPeriod (Ratio.text a)

/-- An interval. -/
def formattedInterval (i : Interval) (mode : OutputMode) (limit maxDigits periodLimit : Operand) :
    Except Failure Text := do
  let low ← endpointDecimal i.low limit maxDigits periodLimit
  let high ← endpointDecimal i.high limit maxDigits periodLimit
  return intervalWith mode i (joinEndpoints low high)

/-- A result as it is shown. -/
def formatted (x mode limit maxDigits periodLimit : Operand) : Except Failure Text :=
  match x with
  | value ⟨.rational a, _⟩ => formattedRational a mode.toMode limit maxDigits periodLimit
  | value ⟨.interval i, _⟩ => formattedInterval i mode.toMode limit maxDigits periodLimit
  | datum _ | list _ => .error .operand
  | x => .ok x.printed

end RatCalc.Operand

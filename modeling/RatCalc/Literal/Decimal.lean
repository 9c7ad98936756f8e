import RatCalc.Literal.Rational

/-!
# Literals of decimals

* `0.12#45`, `1.25#0`: a decimal with its period, exact. With digits `AB` before the end of the
  initial segment and `C` repeating it is `(ABC - AB) / (10 ^ n * (10 ^ m - 1))`.
* `1.23`: a plain decimal stands for all numbers that are rounded to it, half a unit either way.
* `0.#3:0.5#0`: the interval of two exact decimals.

The main readers are `singleDecimal`, `unbracketed` and `pairOf`.
-/

namespace RatCalc.Literal

open Text Numeral

/-- The value of a repeating numeral in a base: `ab` is the value of all digits before the period
and `abc` of all digits, `n` digits stand after the point and `m` in the period. -/
def repeatingFraction (ab abc : Int) (n m : Nat) (base : Int) : Except Failure Rat :=
  Ratio.ofInts (abc - ab) (Int.pow base n * (Int.pow base m - 1))

/-- What stands before and after the point; a missing whole part is zero. -/
def splitPoint (t : Text) : Except Failure (Text × Text) :=
  match split (· == '.') t with
  | [whole] => .ok (if whole.isEmpty then ['0'] else whole, [])
  | [whole, fraction] => .ok (if whole.isEmpty then ['0'] else whole, fraction)
  | _ => .error (.literal .decimalPoints)

/-- Whether a text is a row of decimal digits, empty or not, up to a final line break. -/
def isDigits (t : Text) : Bool := (body t).all isDecimal

/-- Whether a text is a non-empty row of digits of any kind. -/
def isDigitsLike (t : Text) : Bool := !t.isEmpty && t.all isDigitLike

/-- A plain decimal without a sign: the numbers that are rounded to it. An integer is exact. -/
def plainDecimal (t : Text) (negative : Bool) : Except Failure Number := do
  let (whole, fraction) ← splitPoint t
  if !isDigitsLike whole || !isDigits fraction then
    .error (.literal .decimalDigits)
  else if fraction.isEmpty then
    let n ← wholeOf whole
    return .rational (if negative then -n else n)
  else
    let n ← wholeOf (whole ++ fraction)
    let scaled : Int := n * 10
    let place : Nat := Nat.pow 10 (fraction.length + 1)
    let centre := if negative then -scaled else scaled
    return .interval (.hull (mkRat (centre - 5) place) (mkRat (centre + 5) place))

/-- A decimal with its period, without a sign. -/
def periodicDecimal (t : Text) (negative : Bool) : Except Failure Number :=
  match split (· == '#') t with
  | [fixed, period] => do
    if !isDigitsLike period then
      .error (.literal .repeatDigits)
    else
      let (whole, fraction) ← splitPoint fixed
      if !isDigits whole || !isDigits fraction then
        .error (.literal .fixedDigits)
      else
        let ab ← wholeOf (whole ++ fraction)
        let a ←
          if period = ['0'] then Ratio.ofInts ab (Nat.pow 10 fraction.length : Nat)
          else do
            let abc ← wholeOf (whole ++ fraction ++ period)
            repeatingFraction ab abc fraction.length period.length 10
        return .rational (if negative then -a else a)
  | _ => .error (.literal .repeatFormat)

/-- A decimal with or without a period and a minus sign. -/
def singleDecimal (t : Text) : Except Failure Number :=
  let (negative, t) := match t with
    | '-' :: rest => (true, rest)
    | t => (false, t)
  if t.elem '#' then periodicDecimal t negative else plainDecimal t negative

/-- What a decimal reader reads: blanks around a text do not matter and groups are written out, but
there has to be a text. -/
def prepared (t : Text) : Except Failure Text :=
  if t.isEmpty then .error (.literal .noText) else .ok (RunLength.expand (trim t))

/-- The interval of two exact decimals with a colon between them. -/
def pairOf (read : Text → Except Failure Number) (t : Text) : Except Failure Interval :=
  match split (· == ':') t with
  | [first, second] => do
    let first ← read (trim first)
    let second ← read (trim second)
    match first.toRat?, second.toRat? with
    | some a, some b => return .hull a b
    | _, _ => .error (.literal .nestedInterval)
  | _ => .error (.literal .decimalIntervalFormat)

/-- A decimal, or the interval of two. -/
def unbracketed (t : Text) : Except Failure Number := do
  let t ← prepared t
  if t.elem ':' then
    (pairOf (fun part => do singleDecimal (← prepared part)) t).map .interval
  else singleDecimal t

end RatCalc.Literal

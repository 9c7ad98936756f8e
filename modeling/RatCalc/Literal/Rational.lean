import RatCalc.ContinuedFraction
import RatCalc.Number.Basic
import RatCalc.Text.Quoted

/-!
# Literals of rational numbers

The forms are the integer `a`, the fraction `a/b`, the mixed number `a..b/c` and the decimal `a.b`,
each with an optional sign, in decimal digits of any script. Groups `{d~k}` are written out first,
blanks around the literal do not matter. Continued fractions are a form of their own.

* `quotient`: numerator and denominator of a literal.
* `integer`, `rational`, `interval`: the value of a whole text.
* `ofTerms`, `continuedFraction`: the value of a continued fraction.
-/

namespace RatCalc.Literal

open Text Numeral

/-- The integer that a text of digits stands for. A text may look like digits and yet be none. -/
def wholeOf (t : Text) : Except Failure Int :=
  match readInt? t with
  | some n => .ok n
  | none => .error (.numeral (String.ofList ((quoted t).take 200)))

/-- Whether a minus sign stands before a text, and the text without a sign. -/
def sign (t : Text) : Bool × Text :=
  match t with
  | '-' :: rest => (true, rest)
  | '+' :: rest => (false, rest)
  | rest => (false, rest)

/-- An integer with the given sign. -/
def signed (negative : Bool) (n : Nat) : Int := if negative then -n else n

/-- Sign, whole part, numerator and denominator of a mixed number. -/
def mixed? (t : Text) : Option (Bool × Nat × Nat × Nat) :=
  let (negative, t) := sign t
  match t.dropWhile isDecimal with
  | '.' :: '.' :: u =>
    match u.dropWhile isDecimal with
    | '/' :: v =>
      match readNat? (t.takeWhile isDecimal), readNat? (u.takeWhile isDecimal), readNat? v with
      | some whole, some n, some d => some (negative, whole, n, d)
      | _, _, _ => none
    | _ => none
  | _ => none

/-- Sign, digits before and digits after the point of a decimal; one of the two rows of digits may
be empty. -/
def decimal? (t : Text) : Option (Bool × Text × Text) :=
  let (negative, t) := sign t
  match t.dropWhile isDecimal with
  | '.' :: fraction =>
    let whole := t.takeWhile isDecimal
    if fraction.all isDecimal && !(whole.isEmpty && fraction.isEmpty) then
      some (negative, whole, fraction)
    else none
  | _ => none

/-- Numerator and denominator of a fraction; the denominator of an integer is one. -/
def fraction? (t : Text) : Option (Int × Nat) :=
  let (negative, t) := sign t
  match readNat? (t.takeWhile isDecimal), t.dropWhile isDecimal with
  | some n, [] => some (signed negative n, 1)
  | some n, '/' :: u => (readNat? u).map fun d => (signed negative n, d)
  | _, _ => none

/-- Numerator and denominator of a literal. The denominator may be zero in a fraction. -/
def quotient (t : Text) : Except Failure (Int × Nat) :=
  let t := RunLength.expand (trim t)
  match mixed? (body t) with
  | some (negative, whole, n, d) =>
    if d = 0 then .error (.division .zeroDenominator)
    else .ok (signed negative (whole * d + n), d)
  | none =>
    if t.elem '.' then
      match decimal? (body t) with
      | some (negative, whole, fraction) =>
        .ok (signed negative (value (whole ++ fraction)), Nat.pow 10 fraction.length)
      | none => .error (.literal .decimalFormat)
    else
      match fraction? (body t) with
      | some q => .ok q
      | none => .error (.literal .rationalFormat)

/-- The value of a rational literal. -/
def rational (t : Text) : Except Failure Rat := do
  let (n, d) ← quotient t
  Ratio.ofInts n d

/-- The value of an integer literal, with an optional sign and blanks around it. -/
def integer (t : Text) : Except Failure Int :=
  let (negative, digits) := sign (trim t)
  match readNat? digits with
  | some n => .ok (signed negative n)
  | none => .error (.literal .integerFormat)

/-- The interval of two rational literals with a colon between them. -/
def interval (t : Text) : Except Failure Interval :=
  match split (· == ':') t with
  | [first, second] => do
    let first ← rational first
    let second ← rational second
    return Interval.hull first second
  | _ => .error (.literal .intervalFormat)

/-- The value of a list of continued fraction terms. -/
def ofTerms (terms : List Int) : Except Failure Rat := do
  let (n, d) ← ContinuedFraction.evaluate terms
  Ratio.ofInts n d

/-- The value of a continued fraction. -/
def continuedFraction (t : Text) : Except Failure Rat := do
  ofTerms (← ContinuedFraction.read t)

end RatCalc.Literal

import RatCalc.Failure
import RatCalc.Text.Blank
import RatCalc.Numeral

/-!
# Continued fractions

The terms `[a₀, a₁, …]` stand for `a₀ + 1 / (a₁ + …)`. Only the first may be zero or negative. The
text is `a₀.~a₁~a₂`, and `a₀.~0` for an integer.

* `terms`: the terms of a quotient, by division with remainder.
* `convergents`, `evaluate`: the fractions that the first terms stand for, and the last of them.
* `bestApproximation`: the closest fraction with a bounded denominator.
* `write`, `read`: the text.
-/

namespace RatCalc.ContinuedFraction

open Text

/-- The terms of `n / d`: the floor, and the terms of the reciprocal of what is left. -/
def termsOf (n : Int) : (d : Nat) → List Int
  | 0 => []
  | d + 1 => n / (d + 1 : Nat) :: termsOf (d + 1 : Nat) (n % (d + 1 : Nat)).toNat
termination_by d => d
decreasing_by
  have h₁ : 0 ≤ n % ((d + 1 : Nat) : Int) := Int.emod_nonneg n (by omega)
  have h₂ : n % ((d + 1 : Nat) : Int) < (d + 1 : Nat) := Int.emod_lt_of_pos n (by omega)
  omega

/-- The terms of a quotient with a denominator of either sign. -/
def terms (n d : Int) : Except Failure (List Int) :=
  if d = 0 then .error (.division .zeroDenominator)
  else .ok (if d < 0 then termsOf (-n) d.natAbs else termsOf n d.natAbs)

/-- Numerator and denominator of a fraction, as they come. -/
abbrev Pair := Int × Int

/-- The convergents that continue `previous` and the one before it. -/
def convergentsFrom (previous earlier : Pair) : List Int → List Pair
  | [] => []
  | a :: rest =>
    let next : Pair := (a * previous.1 + earlier.1, a * previous.2 + earlier.2)
    next :: convergentsFrom next previous rest

/-- All convergents of a list of terms. -/
def convergents (terms : List Int) : List Pair := convergentsFrom (1, 0) (0, 1) terms

/-- The fraction that the terms stand for. -/
def evaluate (terms : List Int) : Except Failure Pair :=
  match terms with
  | [] => .error (.literal .continuedFractionEmpty)
  | _ :: rest =>
    if rest.any (· ≤ 0) then .error (.literal .continuedFractionTerm)
    else .ok ((convergents terms).getLast?.getD (1, 0))

/-! ## Approximation -/

/-- The distance of a fraction from `n / d`, times `d` and the fraction's own denominator. -/
def distance (p : Pair) (n d : Int) : Int := (p.1 * d - n * p.2).natAbs

/-- Whether the first fraction is strictly closer to `n / d` than the second. -/
def closer (p q : Pair) (n d : Int) : Bool := distance p n d * q.2 < distance q n d * p.2

/-- The last convergent whose denominator is at most `limit`, or the largest semiconvergent after
it if that is closer. -/
def approximateFrom (n d limit : Int) (previous earlier : Pair) : List Int → Pair
  | [] => previous
  | a :: rest =>
    let next : Pair := (a * previous.1 + earlier.1, a * previous.2 + earlier.2)
    if limit < next.2 then
      let steps := (limit - earlier.2).fdiv previous.2
      let between : Pair := (steps * previous.1 + earlier.1, steps * previous.2 + earlier.2)
      if 0 < steps && closer between previous n d then between else previous
    else approximateFrom n d limit next previous rest

/-- The fraction closest to `n / d` among those with denominators up to `limit`, the one with the
smallest denominator if several are. -/
def bestApproximation (n d limit : Int) : Except Failure Pair :=
  if limit < 1 then .error (.calculation .approximationLimit)
  else
    let (n, d) := if d < 0 then (-n, -d) else (n, d)
    if d ≤ limit then .ok (n, d)
    else .ok (approximateFrom n d limit (1, 0) (0, 1) (termsOf n d.natAbs))

/-! ## Texts -/

/-- The texts of terms put together. -/
def joinTerms : List Text → Text
  | [] => []
  | [a] => a ++ ".~0".toList
  | a :: rest => a ++ ".~".toList ++ join ['~'] rest

/-- The text of a list of terms. -/
def write (terms : List Int) : Text := joinTerms (terms.map Numeral.ofInt)

/-- The two sides of `.~`, if the text has the form of a continued fraction: digits, the first
with an optional minus sign. -/
def parts? (t : Text) : Option (Bool × Text × List Text) :=
  let (negative, unsigned) := match t with
    | '-' :: rest => (true, rest)
    | t => (false, t)
  match unsigned.dropWhile isDecimal with
  | '.' :: '~' :: rest =>
    let tail := split (· == '~') rest
    if Numeral.isNumeral (unsigned.takeWhile isDecimal) && tail.all Numeral.isNumeral then
      some (negative, unsigned.takeWhile isDecimal, tail)
    else none
  | _ => none

/-- Reads a whole text, blanks around it aside. -/
def read (t : Text) : Except Failure (List Int) :=
  let t := trim t
  match parts? t with
  | none => .error (.literal (.continuedFractionFormat (String.ofList t)))
  | some (negative, first, tail) =>
    let first : Int := Numeral.value first
    let first := if negative then -first else first
    let tail := tail.map Numeral.value
    if tail = [0] then .ok [first]
    else if tail.any (· == 0) then .error (.literal .continuedFractionTerm)
    else .ok (first :: tail.map Int.ofNat)

end RatCalc.ContinuedFraction

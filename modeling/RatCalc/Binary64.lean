import RatCalc.Numeral

/-!
# Doubles

A finite double is a sign and a magnitude `significand · 2 ^ exponent` with a significand below
`2 ^ 53` and an exponent of at least `-1074`; below `2 ^ 52` only the least exponent occurs.

* `Binary64.nearest?`: the double nearest to a quotient, ties to the even significand.
* `Binary64.bits`: the word of 64 bits that stands for a double.
* `Binary64.truncate?`: the integer part.
* `Binary64.text`: the shortest decimal that reads back as the double, nearest among those.
-/

namespace RatCalc

/-- A double. -/
inductive Binary64 where
  | finite (negative : Bool) (significand : Nat) (exponent : Int)
  | infinite (negative : Bool)
  | undefined
  deriving DecidableEq, Repr

namespace Binary64

/-- `2 ^ k`, with a negative power moved to the other side of a quotient `n / d`. -/
def scaled (n d : Nat) (k : Int) : Nat × Nat :=
  if 0 ≤ k then (n, d * Nat.pow 2 k.toNat) else (n * Nat.pow 2 (-k).toNat, d)

/-- The quotient rounded to the nearest natural number, ties to the even one. -/
def roundEven (n d : Nat) : Nat :=
  let q := n / d
  let r := n % d
  if 2 * r < d then q else if d < 2 * r then q + 1 else q + q % 2

/-- The exponent that leaves a quotient between `2 ^ 52` and `2 ^ 53`, but at least `-1074`. -/
def exponentOf (n d : Nat) : Int :=
  let e : Int := (Nat.log2 n : Int) - (Nat.log2 d : Int) - 52
  let (a, b) := scaled n d e
  let e := if a < b * Nat.pow 2 52 then e - 1 else e
  if e < -1074 then -1074 else e

/-- The double nearest to `n / d`, or nothing when it is beyond all doubles. -/
def nearest? (negative : Bool) (n d : Nat) : Option Binary64 :=
  if n = 0 then some (.finite negative 0 (-1074))
  else
    let e := exponentOf n d
    let (a, b) := scaled n d e
    let m := roundEven a b
    let (m, e) := if m = Nat.pow 2 53 then (Nat.pow 2 52, e + 1) else (m, e)
    if 971 < e then none else some (.finite negative m e)

/-- The word of a double: sign, biased exponent, fraction. -/
def bits : Binary64 → Nat
  | finite negative m e =>
    (if negative then Nat.pow 2 63 else 0)
      + (if m < Nat.pow 2 52 then m else (e + 1075).toNat * Nat.pow 2 52 + (m - Nat.pow 2 52))
  | infinite negative => (if negative then Nat.pow 2 63 else 0) + 2047 * Nat.pow 2 52
  | undefined => 2047 * Nat.pow 2 52 + Nat.pow 2 51

/-- The integer part of a finite double. -/
def truncate? : Binary64 → Option Int
  | finite negative m e =>
    let magnitude := if 0 ≤ e then m * Nat.pow 2 e.toNat else m / Nat.pow 2 (-e).toNat
    some (if negative then -magnitude else magnitude)
  | infinite _ | undefined => none

/-! ## The shortest decimal -/

/-- Whether `n / d` is rounded to the double with significand `m` and exponent `e`. -/
def roundsTo (n d m : Nat) (e : Int) : Bool :=
  -- in quarters of a unit of the last place
  let (a, b) := scaled (4 * n) d e
  let below := if m = Nat.pow 2 52 && decide (-1074 < e) then 4 * m - 1 else 4 * m - 2
  let above := 4 * m + 2
  if m % 2 = 0 then below * b ≤ a && a ≤ above * b else below * b < a && a < above * b

/-- The decimal point position of a positive quotient: the least `p` with `n / d < 10 ^ p`,
searched downwards from `start`. -/
def pointOf (n d : Nat) : (fuel : Nat) → (start : Int) → Int
  | 0, p => p
  | fuel + 1, p =>
    let low := p - 1
    let smaller := if 0 ≤ low then n < d * Nat.pow 10 low.toNat else n * Nat.pow 10 (-low).toNat < d
    if smaller then pointOf n d fuel low else p

/-- The best decimal with `k` digits: the digits as a number, if one of the two neighbours of the
double among those decimals reads back. -/
def digitsOf? (n d m : Nat) (e point : Int) (k : Nat) : Option Nat :=
  let unit := point - k
  let (a, b) := if 0 ≤ unit then (n, d * Nat.pow 10 unit.toNat) else (n * Nat.pow 10 (-unit).toNat, d)
  let reads (v : Nat) : Bool :=
    if 0 ≤ unit then roundsTo (v * Nat.pow 10 unit.toNat) 1 m e else roundsTo v (Nat.pow 10 (-unit).toNat) m e
  let near := roundEven a b
  let far := if near = a / b then near + 1 else near - 1
  if reads near then some near else if reads far then some far else none

/-- The shortest digits of a positive double, and how many of them stand before the point. -/
def shortest (m : Nat) (e : Int) : Text × Int :=
  let (n, d) := if 0 ≤ e then (m * Nat.pow 2 e.toNat, 1) else (m, Nat.pow 2 (-e).toNat)
  let point := pointOf n d 700 310
  match (List.range' 1 17).findSome? fun k => (digitsOf? n d m e point k).map (k, ·) with
  | some (k, v) =>
    let digits := Numeral.ofNat v
    ((digits.reverse.dropWhile (· == '0')).reverse, point - k + digits.length)
  | none => ([], point)

/-- Positional form for magnitudes from `10 ^ -4` up to `10 ^ 16`, otherwise one digit before the
point and an exponent of at least two digits. -/
def layout (digits : Text) (point : Int) : Text :=
  let zeros (k : Int) : Text := List.replicate k.toNat '0'
  if -4 < point && point ≤ 16 then
    if point ≤ 0 then '0' :: '.' :: (zeros (-point) ++ digits)
    else
      let fraction := digits.drop point.toNat
      digits.take point.toNat ++ zeros (point - digits.length) ++ '.' ::
        (if fraction.isEmpty then ['0'] else fraction)
  else
    let exponent := point - 1
    let size := Numeral.ofNat exponent.natAbs
    let padded := if size.length < 2 then '0' :: size else size
    digits.take 1 ++ (if digits.length ≤ 1 then [] else '.' :: digits.drop 1)
      ++ 'e' :: (if exponent < 0 then '-' else '+') :: padded

/-- The text of a double. -/
def text : Binary64 → Text
  | finite negative m e =>
    let magnitude := if m = 0 then ['0', '.', '0'] else
      let (digits, point) := shortest m e
      layout digits point
    if negative then '-' :: magnitude else magnitude
  | infinite negative => if negative then "-inf".toList else "inf".toList
  | undefined => "nan".toList

/-- The double nearest to `significand · 10 ^ exponent`; too large a value becomes infinite. -/
def ofDecimal (negative : Bool) (significand : Nat) (exponent : Int) : Binary64 :=
  let digits : Int := (Numeral.ofNat significand).length
  if significand = 0 || digits + exponent < -400 then .finite negative 0 (-1074)
  else if 400 < digits + exponent then .infinite negative
  else
    let nearest := if 0 ≤ exponent then nearest? negative (significand * Nat.pow 10 exponent.toNat) 1
      else nearest? negative significand (Nat.pow 10 (-exponent).toNat)
    nearest.getD (.infinite negative)

end Binary64

end RatCalc

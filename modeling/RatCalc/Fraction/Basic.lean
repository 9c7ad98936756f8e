import RatCalc.Ratio

/-!
# Unreduced fractions

Numerator and denominator are kept as they were written, so `1/2` and `2/4` are two fractions of
one value. The denominator may be negative.

* `Fraction`, `Fraction.ofInts`, `Fraction.read`: fractions and how they come about.
* `toRat`: the value.
* `add`, `sub`, `mul`, `div`, `pow`, `shift`, `scale`, `reduce`, `mediant`.
* `order`: the order of the values.
-/

namespace RatCalc

/-- A fraction as written. -/
structure Fraction where
  num : Int
  den : Int
  den_ne_zero : den ≠ 0

namespace Fraction

instance : DecidableEq Fraction := fun a b =>
  if h : a.num = b.num ∧ a.den = b.den then
    .isTrue (by cases a; cases b; simp_all)
  else .isFalse (fun e => h (by simp [e]))

/-- The fraction of two integers. -/
def ofInts (n d : Int) : Except Failure Fraction :=
  if h : d = 0 then .error (.division .zeroDenominator) else .ok ⟨n, d, h⟩

/-- The value. -/
def toRat (a : Fraction) : Rat := Rat.divInt a.num a.den

/-- The fraction in lowest terms of a value. -/
def ofRat (a : Rat) : Fraction := ⟨a.num, a.den, by simp [a.den_nz]⟩

/-! ## Arithmetic -/

/-- The sum of fractions with the same denominator. -/
def add (a b : Fraction) : Except Failure Fraction :=
  if a.den = b.den then .ok ⟨a.num + b.num, a.den, a.den_ne_zero⟩
  else .error (.calculation .unequalSummands)

/-- The difference of fractions with the same denominator. -/
def sub (a b : Fraction) : Except Failure Fraction :=
  if a.den = b.den then .ok ⟨a.num - b.num, a.den, a.den_ne_zero⟩
  else .error (.calculation .unequalDifference)

/-- The product, part by part. -/
def mul (a b : Fraction) : Fraction :=
  ⟨a.num * b.num, a.den * b.den, Int.mul_ne_zero a.den_ne_zero b.den_ne_zero⟩

/-- The quotient: the product with the parts of the divisor exchanged. -/
def div (a b : Fraction) : Except Failure Fraction :=
  if h : b.num = 0 then .error (.division .byZero)
  else .ok ⟨a.num * b.den, a.den * b.num, Int.mul_ne_zero a.den_ne_zero h⟩

/-- Powers with a natural exponent, part by part. -/
def natPow (a : Fraction) (k : Nat) : Fraction :=
  ⟨Int.pow a.num k, Int.pow a.den k, Int.pow_ne_zero a.den_ne_zero⟩

/-- Powers; a negative exponent exchanges the parts. -/
def pow (a : Fraction) (k : Int) : Except Failure Fraction :=
  if h : a.num = 0 then
    if k = 0 then .error (.power .zeroToZero)
    else if k < 0 then .error (.power .zeroToNegative)
    else .ok (a.natPow k.natAbs)
  else if k < 0 then .ok (natPow ⟨a.den, a.num, h⟩ k.natAbs)
  else .ok (a.natPow k.natAbs)

/-- Both parts times a factor. -/
def scale (a : Fraction) (k : Int) : Except Failure Fraction := ofInts (a.num * k) (a.den * k)

/-- The fraction of the same value in lowest terms. -/
def reduce (a : Fraction) : Fraction := ofRat a.toRat

/-- The value times `10 ^ k`, with the power of ten in the numerator or in the denominator. -/
def shift (a : Fraction) (k : Int) : Fraction :=
  if 0 ≤ k then ⟨a.num * Int.pow 10 k.natAbs, a.den, a.den_ne_zero⟩
  else ⟨a.num, a.den * Int.pow 10 k.natAbs,
    Int.mul_ne_zero a.den_ne_zero (Int.pow_ne_zero (by decide))⟩

/-- The sum of the numerators over the sum of the denominators. -/
def mediant (a b : Fraction) : Except Failure Fraction := ofInts (a.num + b.num) (a.den + b.den)

/-- How the values are ordered. -/
def order (a b : Fraction) : Ordering := Ratio.order a.toRat b.toRat

/-! ## Texts -/

/-- The fraction `n/d`. -/
def text (a : Fraction) : Text := Numeral.ofInt a.num ++ '/' :: Numeral.ofInt a.den

/-- The call that builds the fraction, as reports show it. -/
def shown (a : Fraction) : Text :=
  "Fraction(".toList ++ Numeral.ofInt a.num ++ ", ".toList ++ Numeral.ofInt a.den ++ [')']

/-- Digits with an optional sign. -/
def signed? (t : Text) : Option Int :=
  match t with
  | '-' :: digits => (Numeral.readNat? digits).map fun n => -Int.ofNat n
  | '+' :: digits => (Numeral.readNat? digits).map Int.ofNat
  | digits => (Numeral.readNat? digits).map Int.ofNat

/-- Reads `a/b` or `a`, where both parts may have a sign. -/
def read (t : Text) : Except Failure Fraction :=
  let t := Text.trim t
  match Text.splitOnce (· == '/') t with
  | none =>
    match signed? t with
    | some n => ofInts n 1
    | none => .error (.literal .fractionFormat)
  | some (first, second) =>
    match signed? first, signed? second with
    | some n, some d => ofInts n d
    | _, _ => .error (.literal .fractionFormat)

end Fraction

end RatCalc

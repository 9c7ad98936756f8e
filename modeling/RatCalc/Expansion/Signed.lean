import RatCalc.Expansion.Text

/-!
# Expansions over denominators of either sign

Division rounds down, so that a remainder has the sign of its divisor. Over a negative denominator
the whole part of a magnitude is therefore zero or negative and the remainder is too; their
magnitudes are what an `Expansion` holds. Powers of ten have remainders that are zero or negative
there, so no period is ever found.

* `divideDown`: long division by an integer.
* `remainderBelow`, `wholeBelow`, `below`: remainder, whole part and expansion of a magnitude over
  `-m`.
* `truncatedBelow`, `repeatingBelow`, `scientificBelow`: its texts.
* **`wholeBelow_mul`**: the whole part and the remainder make up the magnitude.
-/

namespace RatCalc.Expansion

/-! ## Long division -/

/-- Long division by a natural number from a remainder of either sign; a negative one is gone after
the first step. -/
def divideDownBy (m : Nat) (r : Int) : (count : Nat) → Text × Int
  | 0 => ([], r)
  | count + 1 =>
    if r < 0 then
      let (digits, rest) := longDivision (r * 10 % m).toNat m count
      (Numeral.ofInt (r * 10 / m) ++ digits, rest)
    else
      let (digits, rest) := longDivision r.toNat m (count + 1)
      (digits, rest)

/-- At most `count` digits of `r / d`, and the remainder left. -/
def divideDown (r d : Int) (count : Nat) : Text × Int :=
  if 0 ≤ d then divideDownBy d.natAbs r count
  else
    let (digits, rest) := divideDownBy d.natAbs (-r) count
    (digits, -rest)

/-! ## Below zero -/

/-- The magnitude of the remainder of `|n|` by `-m`. -/
def remainderBelow (n : Int) (m : Nat) : Nat := (-(n.natAbs : Int) % m).toNat

/-- The magnitude of the whole part of `|n|` over `-m`. -/
def wholeBelow (n : Int) (m : Nat) : Nat := (n.natAbs + m - 1) / m

/-- The expansion of `|n|` over `-m`, with the sign of `n`. -/
def below (n : Int) (m maxDigits : Nat) : Expansion :=
  let e := Expansion.of (remainderBelow n m) m maxDigits 0
  { e with
    negative := decide (n < 0)
    whole := wholeBelow n m
    periodLength := if e.remainder = 0 then some 0 else none }

/-- Sign of `n` and whole part of `|n|` over `-m`, each with its own minus sign. -/
def wholeTextBelow (n : Int) (m : Nat) : Text :=
  sign (decide (n < 0)) ++ Numeral.ofInt (-(wholeBelow n m : Int))

/-- The decimal of `n / -m` cut after `maxDigits` digits. -/
def truncatedBelow (n : Int) (m maxDigits : Nat) : Text :=
  if n = 0 then ['0']
  else
    let digits := (longDivision (remainderBelow n m) m maxDigits).1
    wholeTextBelow n m ++ (if digits.isEmpty then [] else '.' :: digits)

/-- The repeating decimal of `n / -m`. -/
def repeatingBelow (n : Int) (m : Nat) (useGroups : Bool) : Text × Option Nat :=
  if n = 0 then (['0'], some 0)
  else repeatingAfter (wholeTextBelow n m) (below n m 0) m useGroups none

/-- Mantissa and exponent of `n / -m`; the whole part, which is not positive, is left out. -/
def scientificBelow (n : Int) (m : Nat) (useGroups : Bool) (precision : Nat) (withNote : Bool) :
    Text :=
  if n = 0 then ['0']
  else
    scientificOf { below n m scientificDigits with whole := 0 } useGroups precision withNote

/-- The first `requested` digits of the period over `-m` that follows `start` places. -/
def periodSegmentBelow (n : Int) (m start : Nat) (length : Option Nat) (requested : Nat) : Text :=
  periodSegment (remainderBelow n m) m start length requested

theorem wholeBelow_mul {n : Int} {m : Nat} (h : 0 < m) :
    wholeBelow n m * m = n.natAbs + remainderBelow n m := by
  unfold wholeBelow remainderBelow
  generalize n.natAbs = a
  have hr := Int.emod_nonneg (-(a : Int)) (show (m : Int) ≠ 0 by omega)
  have hl := Int.emod_lt_of_pos (-(a : Int)) (show (0 : Int) < m by omega)
  have hd := Int.mul_ediv_add_emod (-(a : Int)) m
  obtain ⟨r, hr'⟩ := Int.eq_ofNat_of_zero_le hr
  obtain ⟨q, hq⟩ : ∃ q : Nat, (-(a : Int)) / m = -(q : Int) := by
    have : (-(a : Int)) / m ≤ 0 := Int.ediv_nonpos_of_nonpos_of_neg (by omega) (by omega)
    exact ⟨((-(a : Int)) / m).natAbs, by omega⟩
  rw [hr', hq] at hd
  rw [hr'] at hl ⊢
  have e : m * q = a + r := by
    have : (m : Int) * q = a + r := by
      rw [Int.mul_neg] at hd
      omega
    exact_mod_cast this
  have hw : (a + m - 1) / m = q := by
    rw [Nat.div_eq_iff h]
    rw [Nat.mul_comm] at e
    constructor <;> omega
  rw [hw, Nat.mul_comm, e]
  simp

end RatCalc.Expansion

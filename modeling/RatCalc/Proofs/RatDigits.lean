import RatCalc.Proofs.Period
import RatCalc.Ratio

/-!
# The infinite decimal expansion of a rational number

* `Ratio.digit`, `Ratio.digits`: the digits behind the point of the magnitude.
* `Ratio.Terminates`, `Ratio.HasPeriod`, `Ratio.period`: an expansion that ends in zeros, and the
  least period of the digits.
* `plainDigits_remainder`: division of the remainder gives these digits.
* **`terminates_iff`**, **`period_eq`**: the part of the denominator that is coprime to ten tells
  whether the expansion ends, and its period.
-/

namespace RatCalc

open Expansion

namespace Ratio

/-! ## Digits -/

/-- The digit at place `i` behind the point of the magnitude. -/
def digit (a : Rat) (i : Nat) : Nat := a.num.natAbs * 10 ^ (i + 1) / a.den % 10

/-- The first `k` digits behind the point of the magnitude. -/
def digits (a : Rat) (k : Nat) : Text := (List.range k).map fun i => Nat.digitChar (digit a i)

/-- All digits are zero from some place on. -/
def Terminates (a : Rat) : Prop := ∃ s, ∀ i ≥ s, digit a i = 0

/-- The digits repeat after `p` places, from some place on. -/
def HasPeriod (a : Rat) (p : Nat) : Prop := ∃ s, ∀ i ≥ s, digit a (i + p) = digit a i

/-- The least number of places after which the digits repeat. -/
noncomputable def period (a : Rat) : Nat := sInf {p | 0 < p ∧ HasPeriod a p}

theorem remainder_lt (a : Rat) : remainder a < a.den := Nat.mod_lt _ a.den_pos

theorem advance_remainder (a : Rat) (i : Nat) :
    advance a.den i (remainder a) = a.num.natAbs * 10 ^ i % a.den := by
  rw [advance_eq (remainder_lt a), remainder, Nat.mod_mul_mod]

theorem digit_eq (a : Rat) (i : Nat) :
    digit a i = advance a.den i (remainder a) * 10 / a.den := by
  have hlt : a.num.natAbs * 10 ^ i % a.den < a.den := Nat.mod_lt _ a.den_pos
  rw [digit, advance_remainder, pow_succ, ← mul_assoc]
  generalize a.num.natAbs * 10 ^ i = m at hlt ⊢
  have hm : m * 10 = m % a.den * 10 + a.den * (m / a.den * 10) := by
    conv_lhs => rw [← Nat.mod_add_div m a.den]
    ring
  rw [hm, Nat.add_mul_div_left _ _ a.den_pos, Nat.add_mul_mod_self_right]
  exact Nat.mod_eq_of_lt (digit_lt hlt)

theorem digits_succ (a : Rat) (k : Nat) :
    digits a (k + 1) = digits a k ++ [Nat.digitChar (digit a k)] := by
  simp [digits, List.range_succ]

theorem take_digits (a : Rat) (k m : Nat) : (digits a m).take k = digits a (min k m) := by
  rw [digits, ← List.map_take, List.take_range]
  rfl

/-- Division of the remainder gives the digits behind the point. -/
theorem plainDigits_remainder (a : Rat) (k : Nat) :
    plainDigits a.den k (remainder a) = digits a k := by
  induction k with
  | zero => rfl
  | succ k ih =>
    rw [plainDigits_add, ih, digits_succ, plainDigits_succ (advance_lt (remainder_lt a) k),
      digit_eq]
    rfl

theorem length_digits (a : Rat) (k : Nat) : (digits a k).length = k := by
  simp [digits]

theorem all_digits (a : Rat) (k : Nat) : ∀ c ∈ digits a k, Text.isPlainDigit c = true := by
  rw [← plainDigits_remainder]
  exact all_plainDigits (remainder_lt a) k

/-! ## Remainders and periods -/

/-- Two remainders with the same digits are equal. -/
theorem eq_of_plainDigits {d r r' : Nat} (hr : r < d) (hr' : r' < d)
    (h : ∀ k, plainDigits d k r = plainDigits d k r') : r = r' := by
  have hv := value_plainDigits hr d
  have hv' := value_plainDigits hr' d
  rw [h d] at hv
  have hlt := advance_lt hr d
  have hlt' := advance_lt hr' d
  have hd : d < 10 ^ d := Nat.lt_pow_self (by decide)
  rcases lt_trichotomy r r' with hrr | hrr | hrr
  · have : (r + 1) * 10 ^ d ≤ r' * 10 ^ d := Nat.mul_le_mul_right _ hrr
    rw [add_mul] at this
    omega
  · exact hrr
  · have : (r' + 1) * 10 ^ d ≤ r * 10 ^ d := Nat.mul_le_mul_right _ hrr
    rw [add_mul] at this
    omega

theorem plainDigits_congr {d r r' : Nat} (hr : r < d) (hr' : r' < d)
    (h : ∀ i, advance d i r * 10 / d = advance d i r' * 10 / d) (k : Nat) :
    plainDigits d k r = plainDigits d k r' := by
  induction k with
  | zero => rfl
  | succ k ih =>
    rw [plainDigits_add, plainDigits_add, ih, plainDigits_succ (advance_lt hr k),
      plainDigits_succ (advance_lt hr' k), h k]
    rfl

/-- Digits that agree from some place on come from one remainder. -/
theorem advance_eq_of_digits {a : Rat} {s s' : Nat}
    (h : ∀ i, digit a (s + i) = digit a (s' + i)) :
    advance a.den s (remainder a) = advance a.den s' (remainder a) := by
  have hs := advance_lt (remainder_lt a) s
  have hs' := advance_lt (remainder_lt a) s'
  refine eq_of_plainDigits hs hs' (plainDigits_congr hs hs' fun i => ?_)
  rw [← advance_add, ← advance_add, ← digit_eq, ← digit_eq, h]

theorem coprime_num_den (a : Rat) : a.num.natAbs.Coprime a.den := a.reduced

theorem advance_eq_zero_iff (a : Rat) (i : Nat) :
    advance a.den i (remainder a) = 0 ↔ a.den ∣ 10 ^ i := by
  rw [advance_remainder, ← Nat.dvd_iff_mod_eq_zero]
  exact ⟨(coprime_num_den a).symm.dvd_of_dvd_mul_left, fun h => dvd_mul_of_dvd_right h _⟩

theorem advance_add_eq_iff (a : Rat) (i p : Nat) :
    advance a.den (i + p) (remainder a) = advance a.den i (remainder a) ↔
      a.den ∣ 10 ^ i * (10 ^ p - 1) := by
  have hmod := ((Nat.mod_modEq (a.num.natAbs * 10 ^ i) a.den).mul_right (10 ^ p - 1)).dvd_iff
    dvd_rfl
  rw [advance_add, advance_eq_self_iff (advance_lt (remainder_lt a) i), advance_remainder, hmod,
    mul_assoc]
  exact ⟨(coprime_num_den a).symm.dvd_of_dvd_mul_left, fun h => dvd_mul_of_dvd_right h _⟩

/-- **The expansion ends** if nothing is left of the denominator without its twos and fives. -/
theorem terminates_iff (a : Rat) : Terminates a ↔ Expansion.reduced a.den = 1 := by
  have hd := a.den_nz
  constructor
  · rintro ⟨s, hs⟩
    have h0 : advance a.den s (remainder a) = 0 := by
      have hlt := advance_lt (remainder_lt a) s
      refine eq_of_plainDigits hlt a.den_pos (plainDigits_congr hlt a.den_pos fun i => ?_)
      rw [← advance_add, ← digit_eq, hs _ (by omega), advance_zero, zero_mul, Nat.zero_div]
    have hdvd : a.den ∣ 10 ^ s * 1 := by rw [mul_one]; exact (advance_eq_zero_iff a s).1 h0
    exact Nat.dvd_one.1 (reduced_dvd_of_dvd hd hdvd)
  · intro h1
    refine ⟨preperiod a.den, fun i hi => ?_⟩
    have hdvd : a.den ∣ 10 ^ i * 1 := (dvd_ten_pow_mul_iff hd hi).2 (by rw [h1])
    rw [digit_eq, (advance_eq_zero_iff a i).2 (by rwa [mul_one] at hdvd), zero_mul, Nat.zero_div]

theorem hasPeriod_iff (a : Rat) (p : Nat) :
    HasPeriod a p ↔ orderOf (10 : ZMod (Expansion.reduced a.den)) ∣ p := by
  have hd := a.den_nz
  rw [← dvd_ten_pow_sub_one_iff]
  constructor
  · rintro ⟨s, hs⟩
    have hadv : advance a.den (s + p) (remainder a) = advance a.den s (remainder a) :=
      advance_eq_of_digits fun i => by rw [add_right_comm, hs _ (by omega)]
    exact reduced_dvd_of_dvd hd ((advance_add_eq_iff a s p).1 hadv)
  · intro h
    refine ⟨preperiod a.den, fun i hi => ?_⟩
    rw [digit_eq, digit_eq, (advance_add_eq_iff a i p).2 ((dvd_ten_pow_mul_iff hd hi).2 h)]

/-- **The least period** is the order of ten modulo what is left of the denominator without its twos
and fives. -/
theorem period_eq (a : Rat) : period a = orderOf (10 : ZMod (Expansion.reduced a.den)) := by
  have hpos := orderOf_ten_pos (coprime_reduced a.den_nz)
  refine le_antisymm (Nat.sInf_le ⟨hpos, (hasPeriod_iff a _).2 dvd_rfl⟩) ?_
  have hmem : period a ∈ {p | 0 < p ∧ HasPeriod a p} :=
    Nat.sInf_mem ⟨_, hpos, (hasPeriod_iff a _).2 dvd_rfl⟩
  exact Nat.le_of_dvd hmem.1 ((hasPeriod_iff a _).1 hmem.2)

theorem period_le {a : Rat} {p : Nat} (hp : 0 < p) (h : Expansion.reduced a.den ∣ 10 ^ p - 1) :
    period a ≤ p := by
  rw [period_eq]
  exact Nat.le_of_dvd hp (dvd_ten_pow_sub_one_iff.1 h)

theorem period_pos (a : Rat) : 0 < period a := by
  rw [period_eq]
  exact orderOf_ten_pos (coprime_reduced a.den_nz)

/-- From the end of the initial segment on, the remainders repeat after a period. -/
theorem advance_add_period (a : Rat) {i : Nat} (hi : preperiod a.den ≤ i) :
    advance a.den (i + period a) (remainder a) = advance a.den i (remainder a) := by
  rw [advance_add_eq_iff, dvd_ten_pow_mul_iff a.den_nz hi, dvd_ten_pow_sub_one_iff, period_eq]

end Ratio

end RatCalc

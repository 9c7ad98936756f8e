import Mathlib.Algebra.Order.Field.Basic
import Mathlib.Algebra.Order.Ring.Rat
import Mathlib.Data.Rat.Lemmas
import Mathlib.Tactic.LinearCombination
import Mathlib.Tactic.Positivity
import RatCalc.Proofs.RatDigits

/-!
# The expansion of a rational number as it is written

* `of_den_one`, `of_terminating`, `of_repeating`: the expansion of an integer, of a terminating and
  of a repeating decimal.
* `Expansion.written`: a decimal text by its parts; **`repeating_of_terminates`** and
  **`repeating_of_not_terminates`** tell the parts of the repeating decimal.
* **`value_whole_digits`**, `magnitude_of_period`: what the digits are worth.
-/

namespace RatCalc

namespace Expansion

/-- A decimal text by its parts: sign and whole part, digits, period, and dots or nothing. -/
def written (whole fixed period mark : Text) : Text :=
  whole ++ '.' :: (fixed ++ '#' :: (period ++ mark))

end Expansion

open Expansion

namespace Ratio

/-! ## The remainders on the way -/

theorem remainder_eq_zero_iff (a : Rat) : remainder a = 0 ↔ a.den = 1 := by
  rw [remainder, ← Nat.dvd_iff_mod_eq_zero]
  constructor
  · intro h
    exact Nat.eq_one_of_dvd_coprimes (coprime_num_den a) h dvd_rfl
  · intro h
    rw [h]
    exact one_dvd _

/-- No remainder is zero within the initial segment. -/
theorem advance_ne_zero_of_lt (a : Rat) {i : Nat} (hi : i < preperiod a.den) :
    advance a.den i (remainder a) ≠ 0 := by
  intro h
  have hdvd : a.den ∣ 10 ^ i * 1 := by rw [mul_one]; exact (advance_eq_zero_iff a i).1 h
  exact absurd (preperiod_le_of_dvd a.den_nz (by decide) hdvd) (by omega)

/-- No remainder of a repeating decimal is zero. -/
theorem advance_ne_zero {a : Rat} (h : ¬ Terminates a) (i : Nat) :
    advance a.den i (remainder a) ≠ 0 := by
  intro h0
  have hdvd : a.den ∣ 10 ^ i * 1 := by rw [mul_one]; exact (advance_eq_zero_iff a i).1 h0
  exact h ((terminates_iff a).2 (Nat.dvd_one.1 (reduced_dvd_of_dvd a.den_nz hdvd)))

theorem longDivision_initial (a : Rat) :
    longDivision (remainder a) a.den (preperiod a.den) =
      (digits a (preperiod a.den), advance a.den (preperiod a.den) (remainder a)) := by
  rw [longDivision_of_ne_zero fun i hi => advance_ne_zero_of_lt a hi, plainDigits_remainder]

/-- The first `k` digits of the period. -/
def periodDigits (a : Rat) (k : Nat) : Text :=
  plainDigits a.den k (advance a.den (preperiod a.den) (remainder a))

theorem digits_append_periodDigits (a : Rat) (k : Nat) :
    digits a (preperiod a.den) ++ periodDigits a k = digits a (preperiod a.den + k) := by
  rw [periodDigits, ← plainDigits_remainder, ← plainDigits_add, plainDigits_remainder]

theorem length_periodDigits (a : Rat) (k : Nat) : (periodDigits a k).length = k :=
  length_plainDigits (advance_lt (remainder_lt a) _) k

theorem all_periodDigits (a : Rat) (k : Nat) :
    ∀ c ∈ periodDigits a k, Text.isPlainDigit c = true :=
  all_plainDigits (advance_lt (remainder_lt a) _) k

theorem periodDigits_ne_nil (a : Rat) : periodDigits a (period a) ≠ [] := by
  rw [← List.length_pos_iff, length_periodDigits]
  exact period_pos a

/-- Not only zeros are repeated. -/
theorem periodDigits_ne_zero {a : Rat} (h : ¬ Terminates a) : periodDigits a (period a) ≠ ['0'] := by
  intro h0
  have hone : period a = 1 := by
    rw [← length_periodDigits a (period a), h0]
    rfl
  have hrepeat : advance a.den 1 (advance a.den (preperiod a.den) (remainder a)) =
      advance a.den (preperiod a.den) (remainder a) := by
    rw [← advance_add, ← hone, advance_add_period a le_rfl]
  have hv := value_plainDigits (advance_lt (remainder_lt a) (preperiod a.den)) 1
  have hzero : plainDigits a.den 1 (advance a.den (preperiod a.den) (remainder a)) = ['0'] := by
    rw [← h0, hone]
    rfl
  rw [hrepeat, hzero, show Numeral.value ['0'] = 0 from rfl] at hv
  exact advance_ne_zero h (preperiod a.den) (by omega)

theorem longDivision_period {a : Rat} (h : ¬ Terminates a) (k : Nat) :
    (longDivision (advance a.den (preperiod a.den) (remainder a)) a.den k).1 =
      periodDigits a k := by
  rw [longDivision_of_ne_zero fun i _ => ?_]
  · rfl
  · rw [← advance_add]
    exact advance_ne_zero h _

/-! ## The expansion -/

/-- The period that a search below a limit finds. -/
noncomputable def periodBelow (a : Rat) (limit : Nat) : Option Nat :=
  if period a < limit then some (period a) else none

theorem of_den_one {a : Rat} (h : a.den = 1) (k limit : Nat) :
    Expansion.of a.num a.den k limit =
      ⟨decide (a.num < 0), wholePart a, 0, 0, 0, [], [], some 0⟩ := by
  have hr : a.num.natAbs % a.den = 0 := (remainder_eq_zero_iff a).2 h
  rw [Expansion.of]
  simp only [hr, if_true]
  rfl

theorem max_eq_ite (m n : Nat) : (if m < n then n else m) = max m n := by
  split_ifs <;> omega

theorem of_terminating {a : Rat} (h : Terminates a) (h1 : a.den ≠ 1) (k limit : Nat) :
    Expansion.of a.num a.den k limit =
      ⟨decide (a.num < 0), wholePart a, remainder a, countFactor a.den 2, countFactor a.den 5,
        digits a (preperiod a.den), [], some 0⟩ := by
  have hr : a.num.natAbs % a.den ≠ 0 := fun h0 => h1 ((remainder_eq_zero_iff a).1 h0)
  have hm : a.den / (Nat.pow 2 (countFactor a.den 2) * Nat.pow 5 (countFactor a.den 5)) = 1 :=
    (terminates_iff a).1 h
  have hl : longDivision (a.num.natAbs % a.den) a.den
      (max (countFactor a.den 2) (countFactor a.den 5)) = _ := longDivision_initial a
  rw [Expansion.of]
  simp only [if_neg hr, max_eq_ite, hm, hl, if_true]
  rfl

theorem of_repeating {a : Rat} (h : ¬ Terminates a) (k limit : Nat) :
    Expansion.of a.num a.den k limit =
      ⟨decide (a.num < 0), wholePart a, remainder a, countFactor a.den 2, countFactor a.den 5,
        digits a (preperiod a.den),
        periodDigits a (match periodBelow a limit with
          | some p => if k < p then k else p
          | none => k),
        periodBelow a limit⟩ := by
  have hm : Expansion.reduced a.den ≠ 1 := fun h1 => h ((terminates_iff a).2 h1)
  have hr : a.num.natAbs % a.den ≠ 0 := fun h0 => advance_ne_zero h 0 h0
  have hm' : a.den / (Nat.pow 2 (countFactor a.den 2) * Nat.pow 5 (countFactor a.den 5)) ≠ 1 := hm
  have ho : orderOfTen (a.den / (Nat.pow 2 (countFactor a.den 2) * Nat.pow 5 (countFactor a.den 5)))
      limit = periodBelow a limit := by
    rw [periodBelow, period_eq]
    exact orderOfTen_eq (coprime_reduced a.den_nz) hm limit
  have hl : longDivision (a.num.natAbs % a.den) a.den
      (max (countFactor a.den 2) (countFactor a.den 5)) = _ := longDivision_initial a
  rw [Expansion.of]
  simp only [if_neg hr, max_eq_ite, hl, if_neg hm', ho, longDivision_period h]
  rfl

/-! ## The texts -/

/-- The sign and the whole part of the magnitude. -/
def head (a : Rat) : Text := sign (decide (a.num < 0)) ++ Numeral.ofNat (wholePart a)

/-- Not all digits of the period are written: the search does not find it, or it is too long. -/
def Shortened (a : Rat) (limit : Nat) (maxDigits : Option Nat) : Prop :=
  limit ≤ period a ∨ ∃ k ∈ maxDigits, k < period a

theorem num_ne_zero {a : Rat} (h : a.den ≠ 1) : a.num ≠ 0 := by
  intro h0
  have : a = 0 := Rat.num_eq_zero.1 h0
  exact h (by rw [this]; rfl)

theorem repeating_of_den_one {a : Rat} (h : a.den = 1) (useGroups : Bool) (limit : Nat)
    (maxDigits : Option Nat) :
    repeatingDecimal a useGroups limit maxDigits = (head a, some 0) := by
  rw [repeatingDecimal, repeating]
  split_ifs with h0
  · rw [Rat.num_eq_zero.1 h0]
    rfl
  · rw [of_den_one h]
    rfl

theorem preperiod_ne_zero {a : Rat} (h : Terminates a) (h1 : a.den ≠ 1) : preperiod a.den ≠ 0 := by
  intro h0
  have hr := (terminates_iff a).1 h
  have hdvd : a.den ∣ 10 ^ 0 * 1 := (dvd_ten_pow_mul_iff a.den_nz h0.le).2 (by rw [hr])
  exact h1 (Nat.dvd_one.1 hdvd)

theorem digits_preperiod_ne_nil {a : Rat} (h : preperiod a.den ≠ 0) :
    digits a (preperiod a.den) ≠ [] := by
  rwa [← List.length_pos_iff, length_digits, Nat.pos_iff_ne_zero]

/-- **A terminating decimal** is written with its digits and `#0`. -/
theorem repeating_of_terminates {a : Rat} (h : Terminates a) (h1 : a.den ≠ 1) (useGroups : Bool)
    (limit : Nat) (maxDigits : Option Nat) :
    repeatingDecimal a useGroups limit maxDigits =
      (written (head a) (grouped useGroups 4 (digits a (preperiod a.den))) ['0'] [], some 0) := by
  have hne := digits_preperiod_ne_nil (preperiod_ne_zero h h1)
  rw [repeatingDecimal, repeating, if_neg (num_ne_zero h1), of_terminating h h1]
  simp [repeatingAfter, terminates, hne, written, head, wholePart]

theorem den_ne_one {a : Rat} (h : ¬ Terminates a) : a.den ≠ 1 := fun h1 =>
  h ((terminates_iff a).2 (Nat.dvd_one.1 (h1 ▸ reduced_dvd a.den_nz)))

theorem terminates_of_repeating {a : Rat} (h : ¬ Terminates a) (k limit : Nat) :
    (Expansion.of a.num a.den k limit).terminates = false := by
  have := period_pos a
  rw [of_repeating h, terminates, periodBelow]
  split_ifs
  · simp only [beq_eq_false_iff_ne, ne_eq, Option.some.injEq]
    omega
  · rfl

/-- How many digits of the period are written. -/
noncomputable def writtenDigits (a : Rat) (limit : Nat) (maxDigits : Option Nat) : Nat :=
  match periodBelow a limit with
  | none => defaultDigits
  | some p =>
    match maxDigits with
    | some k => if k < p then k else p
    | none => p

theorem writtenDigits_spec (a : Rat) (limit : Nat) (maxDigits : Option Nat) :
    (periodBelow a limit = some (writtenDigits a limit maxDigits) ∧
      ¬ Shortened a limit maxDigits ∧ writtenDigits a limit maxDigits = period a) ∨
    (periodBelow a limit ≠ some (writtenDigits a limit maxDigits) ∧
      Shortened a limit maxDigits) := by
  by_cases hlim : period a < limit
  · have hb : periodBelow a limit = some (period a) := if_pos hlim
    simp only [writtenDigits, hb, Shortened, not_or, not_le]
    cases maxDigits with
    | none => exact .inl ⟨rfl, ⟨hlim, by simp⟩, rfl⟩
    | some k =>
      by_cases hk : k < period a
      · exact .inr ⟨by simp only [if_pos hk, ne_eq, Option.some.injEq]; omega, .inr ⟨k, rfl, hk⟩⟩
      · exact .inl ⟨by simp [hk], ⟨hlim, by simpa using hk⟩, by simp [hk]⟩
  · exact .inr ⟨by simp [periodBelow, hlim], .inl (by omega)⟩

/-- **A repeating decimal** is written with its digits up to the period and some of the period,
which is written in full without a mark or shortened with dots. -/
theorem repeating_of_not_terminates {a : Rat} (h : ¬ Terminates a) (useGroups : Bool) (limit : Nat)
    (maxDigits : Option Nat) :
    repeatingDecimal a useGroups limit maxDigits =
      (written (head a) (grouped useGroups 4 (digits a (preperiod a.den)))
        (grouped useGroups 6 (periodDigits a (writtenDigits a limit maxDigits)))
        (if periodBelow a limit = some (writtenDigits a limit maxDigits) then [] else dots),
        periodBelow a limit) := by
  rw [repeatingDecimal, repeating, if_neg (num_ne_zero (den_ne_one h))]
  simp only [repeatingAfter, terminates_of_repeating h, Bool.false_eq_true, if_false]
  rw [of_repeating h]
  simp only [length_digits, longDivision_initial, longDivision_period h, written, head, wholePart,
    List.append_assoc, List.cons_append]
  rfl

/-! ## What the digits are worth -/

/-- **The whole part and `k` digits** with the remainder make up the numerator. -/
theorem value_whole_digits (a : Rat) (k : Nat) :
    Numeral.value (Numeral.ofNat (wholePart a) ++ digits a k) * a.den
      + advance a.den k (remainder a) = a.num.natAbs * 10 ^ k := by
  rw [← plainDigits_remainder]
  exact value_whole_plainDigits a.den_pos a.num.natAbs k

/-- A number is its magnitude with its sign. -/
theorem signed_magnitude (a : Rat) :
    (if decide (a.num < 0) then -((a.num.natAbs : Rat) / a.den) else (a.num.natAbs : Rat) / a.den)
      = a := by
  have ha : (a.num : Rat) / a.den = a := Rat.num_div_den a
  by_cases h : a.num < 0
  · have hn : (a.num : Rat) = -(a.num.natAbs : Rat) := by
      have : (a.num : Int) = -(a.num.natAbs : Int) := by omega
      exact_mod_cast congrArg (Int.cast : Int → Rat) this
    rw [if_pos (decide_eq_true h), ← neg_div, ← hn, ha]
  · have hn : (a.num : Rat) = (a.num.natAbs : Rat) := by
      have : (a.num : Int) = (a.num.natAbs : Int) := by omega
      exact congrArg (Int.cast : Int → Rat) this
    rw [if_neg (by simpa using h), ← hn, ha]

/-- The digits of a terminating decimal are worth its magnitude. -/
theorem magnitude_of_terminates {a : Rat} (h : Terminates a) :
    Ratio.ofInts (Numeral.value (Numeral.ofNat (wholePart a) ++ digits a (preperiod a.den)))
      (Nat.pow 10 (digits a (preperiod a.den)).length : Nat) =
        .ok ((a.num.natAbs : Rat) / a.den) := by
  have hr := (terminates_iff a).1 h
  have hdvd : a.den ∣ 10 ^ preperiod a.den * 1 :=
    (dvd_ten_pow_mul_iff a.den_nz le_rfl).2 (by rw [hr])
  have hv := value_whole_digits a (preperiod a.den)
  rw [(advance_eq_zero_iff a _).2 (by rwa [mul_one] at hdvd), add_zero] at hv
  have hd : (a.den : Rat) ≠ 0 := by exact_mod_cast a.den_nz
  change Ratio.ofInts _ ((10 ^ (digits a (preperiod a.den)).length : Nat) : Int) = _
  rw [length_digits, ofInts, if_neg (by simp), Rat.divInt_eq_div]
  congr 1
  rw [div_eq_div_iff (by simp) hd]
  push_cast
  exact_mod_cast hv

/-- The digits up to the period and up to its end are worth the magnitude of a repeating decimal. -/
theorem magnitude_of_period (a : Rat) :
    Ratio.ofInts
      ((Numeral.value (Numeral.ofNat (wholePart a) ++ digits a (preperiod a.den + period a)) : Int)
        - Numeral.value (Numeral.ofNat (wholePart a) ++ digits a (preperiod a.den)))
      (Int.pow 10 (preperiod a.den) * (Int.pow 10 (period a) - 1)) =
        .ok ((a.num.natAbs : Rat) / a.den) := by
  have hperiod := advance_add_period a le_rfl
  have h1 := value_whole_digits a (preperiod a.den + period a)
  have h2 := value_whole_digits a (preperiod a.den)
  rw [hperiod] at h1
  have hd : (a.den : Rat) ≠ 0 := by exact_mod_cast a.den_nz
  have hten : (1 : Int) < 10 ^ period a := one_lt_pow₀ (by decide) (period_pos a).ne'
  have hq : (10 : Int) ^ preperiod a.den * (10 ^ period a - 1) ≠ 0 :=
    mul_ne_zero (by positivity) (by omega)
  change Ratio.ofInts _ ((10 : Int) ^ preperiod a.den * ((10 : Int) ^ period a - 1)) = _
  rw [ofInts, if_neg hq, Rat.divInt_eq_div]
  congr 1
  rw [div_eq_div_iff (by exact_mod_cast hq) hd]
  generalize Numeral.value _ = v at h1 ⊢
  generalize Numeral.value _ = w at h2 ⊢
  have h1' : (v : Rat) * a.den + (advance a.den (preperiod a.den) (remainder a) : Nat)
      = a.num.natAbs * 10 ^ (preperiod a.den + period a) := by exact_mod_cast h1
  have h2' : (w : Rat) * a.den + (advance a.den (preperiod a.den) (remainder a) : Nat)
      = a.num.natAbs * 10 ^ preperiod a.den := by exact_mod_cast h2
  push_cast
  rw [pow_add] at h1'
  linear_combination h1' - h2'

end Ratio

end RatCalc

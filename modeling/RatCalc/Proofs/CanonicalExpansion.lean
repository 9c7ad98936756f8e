import Mathlib.Algebra.Order.Floor.Semifield
import Mathlib.Data.Rat.Floor
import Mathlib.NumberTheory.Padics.PadicVal.Basic
import RatCalc.Operand.Expansion
import RatCalc.Proofs.CutDecimal

/-!
# The canonical expansion of a quotient

The decimal expansion that is worked out for a fraction in lowest terms has the shortest initial
segment and the least period.

* `splitZeros_spec`: leading zeros and the rest of a row of digits.
* `Ratio.foundPeriod`, **`of_eq`**: the expansion of every number, told by its digits.
* `preperiod_eq`, **`isLeast_preperiod`**, **`isLeast_period`**: the lengths of the two segments.
* `abs_eq_of_terminates`, **`abs_eq_of_period`**: what the segments are worth.
* `Ratio.IsCanonical`, **`of_isCanonical`**: all of this about an expansion.
* `Operand.searchedSigned_eq`, `expansion_eq`, **`expansion_canonical`**: the expansion that is
  worked out for operands.
-/

namespace RatCalc

open Expansion

namespace Expansion

/-! ## Zeros at the start -/

/-- Zeros and the rest make up a row of digits, and the rest begins with no zero. -/
theorem splitZeros_spec (t : Text) :
    List.replicate (splitZeros t).1 '0' ++ (splitZeros t).2 = t ∧
      (splitZeros t).2.head? ≠ some '0' := by
  have happend := List.takeWhile_append_dropWhile (p := (· == '0')) (l := t)
  have hlength := congrArg List.length happend
  rw [List.length_append] at hlength
  have hzeros : t.takeWhile (· == '0') = List.replicate (splitZeros t).1 '0' := by
    refine List.eq_replicate_iff.2 ⟨by rw [splitZeros]; omega, fun c hc => ?_⟩
    exact beq_iff_eq.1 (List.all_eq_true.1 List.all_takeWhile c hc)
  refine ⟨by rw [← hzeros]; exact happend, fun h => ?_⟩
  have hhead := List.head?_dropWhile_not (· == '0') t
  rw [splitZeros] at h
  simp [h] at hhead

/-- The number of twos or fives is the valuation. -/
theorem countFactor_eq_padicValNat {n f : Nat} (hf : f.Prime) (hn : n ≠ 0) :
    countFactor n f = padicValNat f n := by
  have : Fact f.Prime := ⟨hf⟩
  obtain ⟨m, hm, hnot⟩ := countFactor_spec hf.two_le hn
  have hm0 : m ≠ 0 := fun h => hnot (h ▸ dvd_zero f)
  have hpow : f ^ countFactor n f ≠ 0 := pow_ne_zero _ hf.ne_zero
  calc countFactor n f
      = padicValNat f (f ^ countFactor n f) + padicValNat f m := by
        rw [padicValNat.prime_pow, padicValNat.eq_zero_of_not_dvd hnot, add_zero]
    _ = padicValNat f n := by rw [← padicValNat.mul hpow hm0, ← hm]

theorem preperiod_eq {d : Nat} (hd : d ≠ 0) :
    preperiod d = max (padicValNat 2 d) (padicValNat 5 d) := by
  rw [preperiod, countFactor_eq_padicValNat Nat.prime_two hd,
    countFactor_eq_padicValNat Nat.prime_five hd]

end Expansion

namespace Ratio

variable {a : Rat} {k limit : Nat}

/-! ## The expansion of a number -/

/-- The length of the period as far as it is found, zero if the expansion ends. -/
noncomputable def foundPeriod (a : Rat) (limit : Nat) : Option Nat :=
  if Expansion.reduced a.den = 1 then some 0 else periodBelow a limit

/-- How many of `k` digits are in a period as it is found. -/
noncomputable def foundDigits (a : Rat) (k limit : Nat) : Nat :=
  (foundPeriod a limit).elim k (min k)

theorem foundPeriod_of_terminates (h : Terminates a) : foundPeriod a limit = some 0 :=
  if_pos ((terminates_iff a).1 h)

theorem foundPeriod_of_not_terminates (h : ¬ Terminates a) :
    foundPeriod a limit = if period a < limit then some (period a) else none :=
  if_neg fun hr => h ((terminates_iff a).2 hr)

theorem foundDigits_of_terminates (h : Terminates a) : foundDigits a k limit = 0 := by
  rw [foundDigits, foundPeriod_of_terminates h]
  exact min_eq_right (Nat.zero_le k)

/-- **The expansion of a number** is told by its digits. -/
theorem of_eq (a : Rat) (k limit : Nat) :
    Expansion.of a.num a.den k limit =
      ⟨decide (a.num < 0), wholePart a, remainder a, countFactor a.den 2, countFactor a.den 5,
        digits a (preperiod a.den), periodDigits a (foundDigits a k limit),
        foundPeriod a limit⟩ := by
  by_cases ht : Terminates a
  · rw [foundDigits_of_terminates ht, foundPeriod_of_terminates ht]
    by_cases h1 : a.den = 1
    · rw [of_den_one h1, (remainder_eq_zero_iff a).2 h1, h1, preperiod_one,
        countFactor_one (by decide), countFactor_one (by decide)]
      rfl
    · rw [of_terminating ht h1]
      rfl
  · have hfound : foundPeriod a limit = periodBelow a limit := foundPeriod_of_not_terminates ht
    rw [of_repeating ht, foundDigits, hfound]
    congr 2
    cases periodBelow a limit with
    | none => rfl
    | some p =>
      simp only [Option.elim_some, min_def]
      split_ifs <;> omega

/-- Long division goes on with the digits of the period, if there is one. -/
theorem longDivision_periodDigits (h : Terminates a → k = 0) :
    (longDivision (advance a.den (preperiod a.den) (remainder a)) a.den k).1 =
      periodDigits a k := by
  by_cases ht : Terminates a
  · rw [h ht]
    rfl
  · exact longDivision_period ht k

/-- The digits of the period may be worked out after the length of the period. -/
theorem withPeriod_of (a : Rat) (j k limit : Nat) :
    (Expansion.of a.num a.den j limit).withPeriod a.den (foundDigits a k limit) =
      Expansion.of a.num a.den k limit := by
  have h := longDivision_periodDigits (a := a) (k := foundDigits a k limit) fun ht =>
    foundDigits_of_terminates ht
  rw [of_eq, of_eq, withPeriod]
  simp only [length_digits, longDivision_initial, h]

theorem terminates_of (a : Rat) (k limit : Nat) :
    (Expansion.of a.num a.den k limit).terminates = true ↔ Terminates a := by
  rw [of_eq, Expansion.terminates]
  by_cases ht : Terminates a
  · simp [ht, foundPeriod_of_terminates ht]
  · have := (period_pos a).ne'
    rw [foundPeriod_of_not_terminates ht]
    split_ifs <;> simp [ht, this]

/-! ## The two segments -/

theorem terminates_iff_dvd (a : Rat) : Terminates a ↔ ∃ k, a.den ∣ 10 ^ k :=
  ⟨fun h => ⟨_, (hasPlaces_iff_preperiod h).2 le_rfl⟩, fun ⟨_, hk⟩ => HasPlaces.terminates hk⟩

/-- From the end of the initial segment on, the digits repeat after a period. -/
theorem digit_add_period (a : Rat) {i : Nat} (hi : preperiod a.den ≤ i) :
    digit a (i + period a) = digit a i := by
  rw [digit_eq, digit_eq, advance_add_period a hi]

/-- **No initial segment is shorter** than the one that is worked out. -/
theorem isLeast_preperiod (a : Rat) :
    IsLeast {s | ∃ p > 0, ∀ i ≥ s, digit a (i + p) = digit a i} (preperiod a.den) := by
  refine ⟨⟨period a, period_pos a, fun i hi => digit_add_period a hi⟩, ?_⟩
  rintro s ⟨p, hp, hs⟩
  have hrepeat : advance a.den (s + p) (remainder a) = advance a.den s (remainder a) :=
    advance_eq_of_digits fun i => by rw [add_right_comm, hs _ (by omega)]
  have hcoprime : (10 ^ p - 1).Coprime 10 :=
    (Nat.coprime_self_sub_left (Nat.one_le_pow _ _ (by decide))).2 (Nat.coprime_one_left _)
      |>.coprime_dvd_right (dvd_pow_self 10 hp.ne')
  exact preperiod_le_of_dvd a.den_nz hcoprime ((advance_add_eq_iff a s p).1 hrepeat)

/-- **No period is shorter** than the one that is searched. -/
theorem isLeast_period (a : Rat) :
    IsLeast {p | 0 < p ∧ ∀ i ≥ preperiod a.den, digit a (i + p) = digit a i} (period a) :=
  ⟨⟨period_pos a, fun _ hi => digit_add_period a hi⟩,
    fun _ hp => Nat.sInf_le ⟨hp.1, preperiod a.den, hp.2⟩⟩

/-! ## What the segments are worth -/

theorem abs_eq_div (a : Rat) : |a| = (a.num.natAbs : Rat) / a.den := by
  rw [Rat.abs_def, Rat.divInt_eq_div, Int.cast_natCast, Int.cast_natCast]

theorem wholePart_eq_floor (a : Rat) : wholePart a = ⌊|a|⌋₊ := by
  rw [abs_eq_div, Nat.floor_div_eq_div, wholePart]

/-- Whole part and initial segment, and what the remainder after them is worth. -/
theorem abs_eq_initial (a : Rat) :
    |a| = wholePart a
      + (Numeral.value (digits a (preperiod a.den)) : Rat) / 10 ^ preperiod a.den
      + (advance a.den (preperiod a.den) (remainder a) : Rat) / (10 ^ preperiod a.den * a.den) := by
  have hv := value_whole_digits a (preperiod a.den)
  rw [Numeral.value_append, Numeral.value_ofNat, length_digits] at hv
  have hd : (a.den : Rat) ≠ 0 := by exact_mod_cast a.den_nz
  have hv' : ((wholePart a : Rat) * 10 ^ preperiod a.den
      + Numeral.value (digits a (preperiod a.den))) * a.den
      + advance a.den (preperiod a.den) (remainder a) = a.num.natAbs * 10 ^ preperiod a.den := by
    exact_mod_cast hv
  rw [abs_eq_div]
  field_simp
  linear_combination -hv'

/-- The initial segment is all there is of an expansion that ends. -/
theorem abs_eq_of_terminates (h : Terminates a) :
    |a| = wholePart a
      + (Numeral.value (digits a (preperiod a.den)) : Rat) / 10 ^ preperiod a.den := by
  have hzero : advance a.den (preperiod a.den) (remainder a) = 0 :=
    (advance_eq_zero_iff a _).2 ((hasPlaces_iff_preperiod h).2 le_rfl)
  have h := abs_eq_initial a
  rwa [hzero, Nat.cast_zero, zero_div, add_zero] at h

/-- The period repeats without end, as a geometric series. -/
theorem abs_eq_of_period (a : Rat) :
    |a| = wholePart a
      + (Numeral.value (digits a (preperiod a.den)) : Rat) / 10 ^ preperiod a.den
      + (Numeral.value (periodDigits a (period a)) : Rat)
        / (10 ^ preperiod a.den * (10 ^ period a - 1)) := by
  have hd : (a.den : Rat) ≠ 0 := by exact_mod_cast a.den_nz
  have hten : (1 : Rat) < 10 ^ period a := one_lt_pow₀ (by norm_num) (period_pos a).ne'
  have hrepeat : advance a.den (period a) (advance a.den (preperiod a.den) (remainder a)) =
      advance a.den (preperiod a.den) (remainder a) := by
    rw [← advance_add, advance_add_period a le_rfl]
  have hv := value_plainDigits (advance_lt (remainder_lt a) (preperiod a.den)) (period a)
  rw [hrepeat] at hv
  have hv' : (Numeral.value (periodDigits a (period a)) : Rat) * a.den
      + advance a.den (preperiod a.den) (remainder a)
      = advance a.den (preperiod a.den) (remainder a) * 10 ^ period a := by exact_mod_cast hv
  rw [abs_eq_initial a]
  congr 1
  rw [div_eq_div_iff (by positivity) (mul_ne_zero (by positivity) (sub_ne_zero.2 hten.ne'))]
  linear_combination (-(10 : Rat) ^ preperiod a.den) * hv'

/-! ## The canonical expansion -/

/-- What an expansion with at most `k` digits of its period, which is searched below a limit, tells
about a number. -/
structure IsCanonical (a : Rat) (k limit : Nat) (e : Expansion) : Prop where
  negative : e.negative = true ↔ a < 0
  whole : e.whole = ⌊|a|⌋₊
  terminates : e.terminates = true ↔ ∃ j, a.den ∣ 10 ^ j
  length_initial : e.initial.length = max (padicValNat 2 a.den) (padicValNat 5 a.den)
  /-- No part before repeated digits is shorter. -/
  shortest : IsLeast {s | ∃ p > 0, ∀ i ≥ s, digit a (i + p) = digit a i} e.initial.length
  no_period : e.terminates = true → e.periodLength = some 0
  /-- The least period of the digits after the initial segment, if it is below the limit. -/
  least_period : e.terminates = false →
    ∃ p, IsLeast {p | 0 < p ∧ ∀ i ≥ e.initial.length, digit a (i + p) = digit a i} p ∧
      e.periodLength = if p < limit then some p else none
  length_period : e.period.length = e.periodLength.elim k (min k)
  digits : e.initial ++ e.period = digits a (e.initial.length + e.period.length)
  value_initial : e.terminates = true →
    |a| = e.whole + (Numeral.value e.initial : Rat) / 10 ^ e.initial.length
  value_period : e.terminates = false → e.periodLength = some e.period.length →
    |a| = e.whole + (Numeral.value e.initial : Rat) / 10 ^ e.initial.length
      + (Numeral.value e.period : Rat) / (10 ^ e.initial.length * (10 ^ e.period.length - 1))
  zeros : ∀ t ∈ [e.initial, e.period],
    List.replicate (splitZeros t).1 '0' ++ (splitZeros t).2 = t ∧
      (splitZeros t).2.head? ≠ some '0'

/-- A period that is there in full has as many digits as are found. -/
theorem foundDigits_eq_period (ht : ¬ Terminates a)
    (h : foundPeriod a limit = some (foundDigits a k limit)) :
    foundDigits a k limit = period a := by
  rw [foundPeriod_of_not_terminates ht] at h
  split_ifs at h
  exact (Option.some.inj h).symm

theorem of_isCanonical (a : Rat) (k limit : Nat) :
    IsCanonical a k limit (Expansion.of a.num a.den k limit) := by
  have hterminates := terminates_of a k limit
  have hnot : (Expansion.of a.num a.den k limit).terminates = false → ¬ Terminates a := by
    rw [← hterminates]
    simp
  rw [of_eq] at hterminates hnot ⊢
  exact {
    negative := decide_eq_true_iff.trans Rat.num_neg
    whole := wholePart_eq_floor a
    terminates := hterminates.trans (terminates_iff_dvd a)
    length_initial := (length_digits a _).trans (preperiod_eq a.den_nz)
    shortest := by
      rw [length_digits]
      exact isLeast_preperiod a
    no_period := fun h => foundPeriod_of_terminates (hterminates.1 h)
    least_period := fun h => by
      rw [length_digits]
      exact ⟨period a, isLeast_period a, foundPeriod_of_not_terminates (hnot h)⟩
    length_period := length_periodDigits a _
    digits := by
      rw [length_digits, length_periodDigits]
      exact digits_append_periodDigits a _
    value_initial := fun h => by
      rw [length_digits]
      exact abs_eq_of_terminates (hterminates.1 h)
    value_period := fun h hfull => by
      rw [length_periodDigits] at hfull ⊢
      rw [length_digits, foundDigits_eq_period (hnot h) hfull]
      exact abs_eq_of_period a
    zeros := fun t _ => splitZeros_spec t }

end Ratio

open Ratio

/-! ## Operands -/

namespace Operand

theorem equals_iff (n m : Int) : (whole n).equals m = true ↔ n = m := by
  have h : (whole n).equals m = ((n : Rat) == (m : Rat)) := rfl
  rw [h, beq_iff_eq, Int.cast_inj]

/-- How far a period is searched below an optional limit. -/
def searchBound (limit : Option Int) : Nat := limit.elim defaultLimit Int.toNat

/-- The operand of an optional integer. -/
def ofOption (n : Option Int) : Operand := n.elim nothing whole

theorem searchLimit_ofOption (limit : Option Int) (m : Nat) :
    (ofOption limit).searchLimit m = .ok (searchBound limit) := by
  cases limit with
  | none => rfl
  | some n =>
    change Except.ok (Rat.ceil (n : Rat)).toNat = _
    rw [Rat.ceil_intCast]
    rfl

/-- The expansion of a fraction in lowest terms, without digits of its period. -/
theorem searchedSigned_eq (a : Rat) (limit : Option Int) :
    searchedSigned a.num a.den (ofOption limit) =
      pure (Expansion.of a.num a.den 0 (searchBound limit)) := by
  rw [searchedSigned, if_neg (by omega), Int.natAbs_natCast, searched, ends]
  by_cases ht : Terminates a
  · rw [if_pos ((terminates_of a 0 0).2 ht), of_eq, of_eq, foundDigits_of_terminates ht,
      foundDigits_of_terminates ht, foundPeriod_of_terminates ht, foundPeriod_of_terminates ht]
  · rw [if_neg (mt (terminates_of a 0 0).1 ht), searchLimit_ofOption]
    rfl

theorem cappedCount_whole (k p : Nat) : (whole k).cappedCount p = pure (min k p) := by
  have hbelow : (whole k).isBelow p = .ok (decide (k < p)) := by
    rw [isBelow_whole, decide_eq_decide.2 Int.ofNat_lt]
  rw [cappedCount, hbelow]
  by_cases h : k < p
  · rw [decide_eq_true h, min_eq_left h.le]
    rfl
  · rw [decide_eq_false h, min_eq_right (not_lt.1 h)]
    rfl

/-- **The expansion of a fraction in lowest terms** that is worked out for operands. -/
theorem expansion_eq (a : Rat) (k : Nat) (limit : Option Int) :
    expansion (whole a.num) (whole a.den) (whole k) (ofOption limit) =
      .ok (Expansion.of a.num a.den k (searchBound limit)) := by
  have hperiod : (Expansion.of a.num a.den 0 (searchBound limit)).periodLength =
      foundPeriod a (searchBound limit) := by
    rw [of_eq]
  have hwith := withPeriod_of a 0 k (searchBound limit)
  have hk : Int.toNat <$> (whole k).count = pure k := rfl
  rw [foundDigits] at hwith
  rw [expansion]
  simp only [plain_whole, hk, searchedSigned_eq, hperiod, pure_bind, cappedCount_whole,
    Int.natAbs_natCast]
  -- of a period of length zero no digits are asked for
  rcases hfound : foundPeriod a (searchBound limit) with _ | _ | p <;> rw [hfound] at hwith
  · exact congrArg Except.ok hwith
  · rw [Option.elim_some, min_eq_right (Nat.zero_le k)] at hwith
    exact congrArg Except.ok hwith
  · exact congrArg Except.ok hwith

/-- **The expansion of a fraction in lowest terms is canonical**: it ends exactly over a divisor of
a power of ten, its initial segment is the shortest one, its period is the least one, and its digits
are those of the number. -/
theorem expansion_canonical (a : Rat) (k : Nat) (limit : Option Int) :
    ∃ e, expansion (whole a.num) (whole a.den) (whole k) (ofOption limit) = .ok e ∧
      IsCanonical a k (searchBound limit) e :=
  ⟨_, expansion_eq a k limit, of_isCanonical a k (searchBound limit)⟩

example : expansion (whole (-25)) (whole 12) (whole 20) nothing =
    .ok ⟨true, 2, 1, 2, 0, ['0', '8'], ['3'], some 1⟩ := by with_unfolding_all decide

end Operand

end RatCalc

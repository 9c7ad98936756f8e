import RatCalc.Proofs.Expansion
import RatCalc.Proofs.Tolerance

/-!
# Decimals that are not cut

A decimal text is cut after a number of digits. Where a number has no more, the text is all of it.

* `Ratio.HasPlaces`: numbers with at most so many digits after the point; their differences and
  multiples have no more.
* `Literal.Base.ofRat`: the decimal of a number as a base; **`decimal_eq`**: it is what is written.
* **`value_ofRat`**: it is read back as the number; `places_ofRat`: with as many places as it has.
-/

namespace RatCalc

open Text Expansion

namespace Ratio

variable {a b : Rat} {k m : Nat}

/-- At most `k` digits stand after the point. -/
def HasPlaces (a : Rat) (k : Nat) : Prop := a.den ∣ 10 ^ k

instance (a : Rat) (k : Nat) : Decidable (HasPlaces a k) :=
  inferInstanceAs (Decidable (a.den ∣ 10 ^ k))

theorem hasPlaces_iff : HasPlaces a k ↔ ∃ n : Int, a = n / 10 ^ k := by
  constructor
  · rintro ⟨c, hc⟩
    have hd : (a.den : Rat) ≠ 0 := by exact_mod_cast a.den_nz
    have hc' : (10 : Rat) ^ k = a.den * c := by exact_mod_cast hc
    have hne : (c : Rat) ≠ 0 := fun h => by simp [h] at hc'
    refine ⟨a.num * c, ?_⟩
    rw [hc']
    push_cast
    rw [mul_div_mul_right _ _ hne, Rat.num_div_den]
  · rintro ⟨n, rfl⟩
    have h := Rat.den_dvd n (10 ^ k)
    rw [Rat.divInt_eq_div] at h
    push_cast at h
    exact_mod_cast h

theorem HasPlaces.sub (ha : HasPlaces a k) (hb : HasPlaces b k) : HasPlaces (a - b) k := by
  obtain ⟨m, rfl⟩ := hasPlaces_iff.1 ha
  obtain ⟨n, rfl⟩ := hasPlaces_iff.1 hb
  exact hasPlaces_iff.2 ⟨m - n, by push_cast; ring⟩

theorem HasPlaces.mul_natCast (ha : HasPlaces a k) (n : Nat) : HasPlaces (a * n) k := by
  obtain ⟨m, rfl⟩ := hasPlaces_iff.1 ha
  exact hasPlaces_iff.2 ⟨m * n, by push_cast; ring⟩

theorem HasPlaces.mono (ha : HasPlaces a k) (h : k ≤ m) : HasPlaces a m :=
  Nat.dvd_trans ha (Nat.pow_dvd_pow 10 h)

theorem HasPlaces.dvd_mul_one (h : HasPlaces a k) : a.den ∣ 10 ^ k * 1 := by
  rw [mul_one]
  exact h

theorem HasPlaces.terminates (h : HasPlaces a k) : Terminates a :=
  (terminates_iff a).2 (Nat.dvd_one.1 (reduced_dvd_of_dvd a.den_nz h.dvd_mul_one))

/-- The digits before the period are all of them. -/
theorem hasPlaces_iff_preperiod (h : Terminates a) : HasPlaces a k ↔ preperiod a.den ≤ k := by
  constructor
  · intro hk
    exact preperiod_le_of_dvd a.den_nz (by decide) hk.dvd_mul_one
  · intro hk
    have hdvd := (dvd_ten_pow_mul_iff a.den_nz hk (t := 1)).2 (by rw [(terminates_iff a).1 h])
    rwa [mul_one] at hdvd

/-- Long division stops at the end of the digits. -/
theorem longDivision_of_hasPlaces (h : HasPlaces a k) :
    (longDivision (remainder a) a.den k).1 = digits a (preperiod a.den) := by
  obtain ⟨i, hi, hdiv, hend, hne⟩ := longDivision_spec (d := a.den) k (remainder a)
  have hle : preperiod a.den ≤ k := (hasPlaces_iff_preperiod h.terminates).1 h
  have hp : HasPlaces a (preperiod a.den) := (hasPlaces_iff_preperiod h.terminates).2 le_rfl
  have hlast : i = preperiod a.den := by
    rcases lt_trichotomy i (preperiod a.den) with hlt | heq | hgt
    · rcases hend with rfl | h0
      · omega
      · exact absurd h0 (advance_ne_zero_of_lt a hlt)
    · exact heq
    · exact absurd ((advance_eq_zero_iff a _).2 hp) (hne _ hgt)
  rw [hdiv, hlast, plainDigits_remainder]

end Ratio

open Ratio

namespace Literal.Base

variable {a : Rat} {k : Nat}

/-- The digits of a number up to its period, as a base. -/
def ofRat (a : Rat) : Base where
  negative := decide (a.num < 0)
  whole := Numeral.ofNat (wholePart a)
  fraction := if preperiod a.den = 0 then none else some (Ratio.digits a (preperiod a.den))
  isDecimal_whole := List.all_eq_true.1 (Numeral.all_isDecimal_ofNat _)
  isDecimal_fraction := by
    split_ifs
    · exact List.forall_mem_nil _
    · exact fun c hc => isDecimal_of_plain (all_digits a _ c hc)

theorem fraction_of_zero (h : preperiod a.den = 0) : (ofRat a).fraction = none := if_pos h

theorem fraction_of_ne_zero (h : preperiod a.den ≠ 0) :
    (ofRat a).fraction = some (Ratio.digits a (preperiod a.den)) := if_neg h

theorem getD_fraction_ofRat (a : Rat) :
    (ofRat a).fraction.getD [] = Ratio.digits a (preperiod a.den) := by
  by_cases h : preperiod a.den = 0
  · rw [fraction_of_zero h, h]
    rfl
  · rw [fraction_of_ne_zero h, Option.getD_some]

theorem digits_ofRat (a : Rat) :
    (ofRat a).digits = Numeral.ofNat (wholePart a) ++ Ratio.digits a (preperiod a.den) := by
  rw [Base.digits, getD_fraction_ofRat]
  rfl

theorem digits_ofRat_ne_nil (a : Rat) : (ofRat a).digits ≠ [] := by
  rw [digits_ofRat]
  exact List.append_ne_nil_of_left_ne_nil (Numeral.ofNat_ne_nil _) _

theorem places_ofRat (a : Rat) : (ofRat a).places = preperiod a.den := by
  rw [places, getD_fraction_ofRat, length_digits]

/-- No decimal ends in its point. -/
theorem fraction_ofRat_ne (a : Rat) : (ofRat a).fraction ≠ some [] := by
  by_cases h : preperiod a.den = 0
  · rw [fraction_of_zero h]
    exact nofun
  · rw [fraction_of_ne_zero h]
    exact fun heq => digits_preperiod_ne_nil h (Option.some.inj heq)

/-- **A decimal that is not cut** is the base of its number. -/
theorem decimal_eq (h : HasPlaces a k) : Ratio.decimal a k = (ofRat a).text := by
  have hdivision : (longDivision (a.num.natAbs % a.den) a.den k).1 = _ :=
    longDivision_of_hasPlaces h
  rw [Ratio.decimal, truncated, hdivision, text]
  by_cases h0 : a.num = 0
  · rw [if_pos h0, Rat.num_eq_zero.1 h0]
    with_unfolding_all decide
  rw [if_neg h0]
  simp only
  by_cases hp : preperiod a.den = 0
  · rw [magnitude_of_none (fraction_of_zero hp), hp]
    exact List.append_nil _
  · rw [magnitude_of_some (fraction_of_ne_zero hp),
      if_neg (mt List.isEmpty_iff.1 (digits_preperiod_ne_nil hp)), List.append_assoc]
    rfl

/-- **The digits of a decimal** make up its number. -/
theorem value_ofRat (h : Terminates a) : (ofRat a).value = a := by
  have hp : HasPlaces a (preperiod a.den) := (hasPlaces_iff_preperiod h).2 le_rfl
  have hv := value_whole_digits a (preperiod a.den)
  rw [(advance_eq_zero_iff a _).2 hp, add_zero] at hv
  have hmagnitude : mkRat (Numeral.value (ofRat a).digits) (10 ^ (ofRat a).places) =
      (a.num.natAbs : Rat) / a.den := by
    have hd : (a.den : Rat) ≠ 0 := by exact_mod_cast a.den_nz
    rw [digits_ofRat, places_ofRat, Rat.mkRat_eq_div, div_eq_div_iff (by positivity) hd]
    push_cast
    exact_mod_cast hv
  rw [value, hmagnitude]
  exact signed_magnitude a

end Literal.Base

end RatCalc

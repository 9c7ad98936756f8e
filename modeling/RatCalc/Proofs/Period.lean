import Mathlib.Data.ZMod.Units
import Mathlib.GroupTheory.OrderOfElement
import Mathlib.Tactic.Linarith
import RatCalc.Proofs.LongDivision

/-!
# Factors of ten and the order of ten

A denominator is a product of twos, fives and a part that is coprime to ten. The twos and fives
tell how many digits stand before the period, the rest tells the period.

* `reduced`, `preperiod`: the part coprime to ten, and the larger number of twos or fives.
* `eq_mul_reduced`, `coprime_reduced`, **`dvd_ten_pow_mul_iff`**: what the denominator divides.
* **`orderOfTen_eq`**: the search finds the multiplicative order of ten if it is below the limit.
-/

namespace RatCalc.Expansion

/-! ## Factors -/

theorem countFactor_spec {n f : Nat} (hf : 2 ≤ f) (hn : n ≠ 0) :
    ∃ m, n = f ^ countFactor n f * m ∧ ¬ f ∣ m := by
  induction n using Nat.strongRecOn with
  | ind n ih =>
    rw [countFactor]
    by_cases hd : n % f = 0
    · obtain ⟨q, rfl⟩ := Nat.dvd_of_mod_eq_zero hd
      have hq : q ≠ 0 := by rintro rfl; exact hn rfl
      rw [if_pos ⟨hf, hn, hd⟩, Nat.mul_div_cancel_left q (by omega)]
      have hlt : q < f * q := by nlinarith [Nat.pos_of_ne_zero hq]
      obtain ⟨m, hm, hfm⟩ := ih q hlt hq
      exact ⟨m, by rw [pow_succ', mul_assoc, ← hm], hfm⟩
    · rw [if_neg (by tauto)]
      exact ⟨n, by simp, fun h => hd (Nat.mod_eq_zero_of_dvd h)⟩

theorem pow_countFactor_dvd {n f : Nat} (hf : 2 ≤ f) (hn : n ≠ 0) : f ^ countFactor n f ∣ n := by
  obtain ⟨m, hm, -⟩ := countFactor_spec hf hn
  exact ⟨m, hm⟩

theorem countFactor_one {f : Nat} (hf : f ≠ 1) : countFactor 1 f = 0 := by
  rw [countFactor, if_neg]
  rintro ⟨-, -, h⟩
  exact hf (Nat.dvd_one.1 (Nat.dvd_of_mod_eq_zero h))

/-- What is left of a denominator without its factors two and five. -/
def reduced (d : Nat) : Nat := d / (2 ^ countFactor d 2 * 5 ^ countFactor d 5)

/-- How many digits stand before the period: the larger of the numbers of twos and fives. -/
def preperiod (d : Nat) : Nat := max (countFactor d 2) (countFactor d 5)

theorem preperiod_one : preperiod 1 = 0 := by
  rw [preperiod, countFactor_one (by decide), countFactor_one (by decide), max_self]

variable {d : Nat}

theorem eq_mul_reduced (hd : d ≠ 0) :
    d = 2 ^ countFactor d 2 * 5 ^ countFactor d 5 * reduced d := by
  have hdvd : 2 ^ countFactor d 2 * 5 ^ countFactor d 5 ∣ d :=
    Nat.Coprime.mul_dvd_of_dvd_of_dvd (Nat.Coprime.pow _ _ (by decide))
      (pow_countFactor_dvd (by decide) hd) (pow_countFactor_dvd (by decide) hd)
  exact (Nat.mul_div_cancel' hdvd).symm

theorem coprime_reduced (hd : d ≠ 0) : (reduced d).Coprime 10 := by
  have he := eq_mul_reduced hd
  obtain ⟨m, hm, h2⟩ := countFactor_spec (f := 2) (by decide) hd
  obtain ⟨k, hk, h5⟩ := countFactor_spec (f := 5) (by decide) hd
  have hmr : m = 5 ^ countFactor d 5 * reduced d := by
    refine Nat.eq_of_mul_eq_mul_left (show 0 < 2 ^ countFactor d 2 by positivity) ?_
    rw [← hm, ← mul_assoc, ← he]
  have hkr : k = 2 ^ countFactor d 2 * reduced d := by
    refine Nat.eq_of_mul_eq_mul_left (show 0 < 5 ^ countFactor d 5 by positivity) ?_
    rw [← hk, ← mul_assoc, mul_comm (5 ^ _), ← he]
  rw [show (10 : Nat) = 2 * 5 from rfl]
  refine Nat.Coprime.mul_right ?_ ?_
  · refine ((Nat.Prime.coprime_iff_not_dvd Nat.prime_two).2 fun h => h2 ?_).symm
    rw [hmr]
    exact dvd_mul_of_dvd_right h _
  · refine ((Nat.Prime.coprime_iff_not_dvd Nat.prime_five).2 fun h => h5 ?_).symm
    rw [hkr]
    exact dvd_mul_of_dvd_right h _

theorem reduced_dvd (hd : d ≠ 0) : reduced d ∣ d := ⟨_, (eq_mul_reduced hd).trans (mul_comm _ _)⟩

/-- The twos and fives divide every power of ten from the end of the initial segment on. -/
theorem factors_dvd_ten_pow {s : Nat} (hs : preperiod d ≤ s) :
    2 ^ countFactor d 2 * 5 ^ countFactor d 5 ∣ 10 ^ s := by
  rw [show (10 : Nat) = 2 * 5 from rfl, mul_pow]
  exact mul_dvd_mul (pow_dvd_pow 2 ((le_max_left _ _).trans hs))
    (pow_dvd_pow 5 ((le_max_right _ _).trans hs))

theorem reduced_dvd_of_dvd (hd : d ≠ 0) {s t : Nat} (h : d ∣ 10 ^ s * t) : reduced d ∣ t :=
  Nat.Coprime.dvd_of_dvd_mul_left (Nat.Coprime.pow_right s (coprime_reduced hd))
    ((reduced_dvd hd).trans h)

/-- **What a denominator divides from the end of the initial segment on** is told by its part
coprime to ten. -/
theorem dvd_ten_pow_mul_iff (hd : d ≠ 0) {s t : Nat} (hs : preperiod d ≤ s) :
    d ∣ 10 ^ s * t ↔ reduced d ∣ t := by
  refine ⟨reduced_dvd_of_dvd hd, fun h => ?_⟩
  have := mul_dvd_mul (factors_dvd_ten_pow hs) h
  rwa [← eq_mul_reduced hd] at this

/-- Nothing shorter than the initial segment has all twos and fives. -/
theorem preperiod_le_of_dvd (hd : d ≠ 0) {s t : Nat} (ht : t.Coprime 10) (h : d ∣ 10 ^ s * t) :
    preperiod d ≤ s := by
  have ht2 : Nat.Coprime t 2 := Nat.Coprime.coprime_dvd_right (by decide) ht
  have ht5 : Nat.Coprime t 5 := Nat.Coprime.coprime_dvd_right (by decide) ht
  have hpow : 10 ^ s * t = 2 ^ s * (5 ^ s * t) := by
    rw [show (10 : Nat) = 2 * 5 from rfl, mul_pow, mul_assoc]
  have h2 : 2 ^ countFactor d 2 ∣ 2 ^ s := by
    refine Nat.Coprime.dvd_of_dvd_mul_right (Nat.Coprime.pow_left _ ?_)
      (hpow ▸ (pow_countFactor_dvd (by decide) hd).trans h)
    exact (Nat.Coprime.pow_right s (by decide)).mul_right ht2.symm
  have h5 : 5 ^ countFactor d 5 ∣ 5 ^ s := by
    refine Nat.Coprime.dvd_of_dvd_mul_right (Nat.Coprime.pow_left _ ?_)
      (show 5 ^ countFactor d 5 ∣ 5 ^ s * (2 ^ s * t) from ?_)
    · exact (Nat.Coprime.pow_right s (by decide)).mul_right ht5.symm
    · rw [mul_left_comm, ← hpow]
      exact (pow_countFactor_dvd (by decide) hd).trans h
  exact max_le ((Nat.pow_dvd_pow_iff_le_right (by decide)).1 h2)
    ((Nat.pow_dvd_pow_iff_le_right (by decide)).1 h5)

/-! ## The order of ten -/

theorem dvd_ten_pow_sub_one_iff {m k : Nat} : m ∣ 10 ^ k - 1 ↔ orderOf (10 : ZMod m) ∣ k := by
  have h := ZMod.natCast_eq_natCast_iff 1 (10 ^ k) m
  rw [Nat.modEq_iff_dvd' (Nat.one_le_pow _ _ (by decide))] at h
  rw [orderOf_dvd_iff_pow_eq_one, ← h]
  push_cast
  exact eq_comm

theorem pow_mod_eq_one_iff {m : Nat} (hm : 2 ≤ m) (k : Nat) :
    10 ^ k % m = 1 ↔ orderOf (10 : ZMod m) ∣ k := by
  have h := ZMod.natCast_eq_natCast_iff' (10 ^ k) 1 m
  rw [Nat.mod_eq_of_lt (show 1 < m by omega)] at h
  rw [orderOf_dvd_iff_pow_eq_one, ← h]
  push_cast
  rfl

theorem orderOf_ten_pos {m : Nat} (h : m.Coprime 10) : 0 < orderOf (10 : ZMod m) := by
  have hm : m ≠ 0 := by rintro rfl; exact absurd h (by decide)
  have : NeZero m := ⟨hm⟩
  have he : ((ZMod.unitOfCoprime 10 h.symm : (ZMod m)ˣ) : ZMod m) = 10 := by simp
  rw [← he, orderOf_units]
  exact orderOf_pos _

/-- A remainder comes back after `k` places if the divisor divides its product with
`10 ^ k - 1`. -/
theorem advance_eq_self_iff {r : Nat} (hr : r < d) (k : Nat) :
    advance d k r = r ↔ d ∣ r * (10 ^ k - 1) := by
  have hle : r ≤ r * 10 ^ k := Nat.le_mul_of_pos_right r (by positivity)
  calc advance d k r = r ↔ r ≡ r * 10 ^ k [MOD d] := by
        rw [advance_eq hr, Nat.ModEq, Nat.mod_eq_of_lt hr, eq_comm]
    _ ↔ d ∣ r * (10 ^ k - 1) := by rw [Nat.modEq_iff_dvd' hle, Nat.mul_sub, mul_one]

theorem orderFrom_eq {m p : Nat} (hm : 10 ^ p % m = 1) (hmin : ∀ j, 0 < j → j < p → 10 ^ j % m ≠ 1)
    (fuel length : Nat) (hl : 0 < length) (hlp : length ≤ p) :
    orderFrom m fuel length (10 ^ length % m) = if p < length + fuel then some p else none := by
  induction fuel generalizing length with
  | zero => rw [orderFrom, if_neg (by omega)]
  | succ fuel ih =>
    rw [orderFrom]
    by_cases h1 : 10 ^ length % m = 1
    · have : length = p := by
        by_contra hne
        exact hmin length hl (by omega) h1
      rw [if_pos h1, if_pos (by omega), this]
    · have hne : length ≠ p := by rintro rfl; exact h1 hm
      rw [if_neg h1, Nat.mod_mul_mod, ← pow_succ, ih (length + 1) (by omega) (by omega)]
      exact if_congr (by omega) rfl rfl

/-- **The search for the period** finds the multiplicative order of ten, if it is below the
limit. -/
theorem orderOfTen_eq {m : Nat} (h : m.Coprime 10) (h1 : m ≠ 1) (limit : Nat) :
    orderOfTen m limit =
      if orderOf (10 : ZMod m) < limit then some (orderOf (10 : ZMod m)) else none := by
  have hm : 2 ≤ m := by
    have : m ≠ 0 := by rintro rfl; exact absurd h (by decide)
    omega
  have hp := orderOf_ten_pos h
  have hs := orderFrom_eq ((pow_mod_eq_one_iff hm _).2 dvd_rfl)
    (fun j hj hlt hone => absurd (Nat.le_of_dvd hj ((pow_mod_eq_one_iff hm j).1 hone)) (by omega))
    (limit - 1) 1 (by omega) hp
  rw [orderOfTen, if_neg h1]
  rw [pow_one] at hs
  rw [hs]
  exact if_congr (by omega) rfl rfl

end RatCalc.Expansion

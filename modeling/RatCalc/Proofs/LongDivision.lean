import RatCalc.Expansion.Basic
import RatCalc.Proofs.Digits

/-!
# Long division

Division goes on with plain digits (`plainDigits`) and remainders (`advance`) until a remainder is
zero.

* `advance_eq`: the remainder after `i` places is that of `r * 10 ^ i`.
* `plainDigits_add`, `length_plainDigits`, `take_plainDigits`, `all_plainDigits`: the digits.
* **`value_plainDigits`**, `value_whole_plainDigits`: digits and remainder make up the dividend.
* **`longDivision_spec`**: long division gives the digits up to the first remainder zero.
-/

namespace RatCalc.Expansion

open Text Numeral

variable {d : Nat}

/-! ## Remainders and digits -/

theorem advance_lt {r : Nat} (hr : r < d) : ∀ i, advance d i r < d
  | 0 => hr
  | i + 1 => advance_lt (Nat.mod_lt _ (by omega)) i

theorem advance_add (i j r : Nat) : advance d (i + j) r = advance d j (advance d i r) := by
  induction i generalizing r with
  | zero => simp [advance]
  | succ i ih => rw [Nat.succ_add, advance, advance, ih]

theorem advance_succ' (i r : Nat) : advance d (i + 1) r = advance d i r * 10 % d := by
  rw [advance_add]
  rfl

theorem advance_eq {r : Nat} (hr : r < d) (i : Nat) : advance d i r = r * 10 ^ i % d := by
  induction i with
  | zero => rw [advance, pow_zero, mul_one, Nat.mod_eq_of_lt hr]
  | succ i ih => rw [advance_succ', ih, Nat.mod_mul_mod, pow_succ, mul_assoc]

theorem advance_zero (i : Nat) : advance d i 0 = 0 := by
  induction i with
  | zero => rfl
  | succ i ih => rw [advance, zero_mul, Nat.zero_mod, ih]

/-- The digit at a place is below ten. -/
theorem digit_lt {r : Nat} (hr : r < d) : r * 10 / d < 10 :=
  Nat.div_lt_of_lt_mul (by rw [Nat.mul_comm d]; omega)

theorem plainDigits_succ {r : Nat} (hr : r < d) (i : Nat) :
    plainDigits d (i + 1) r = Nat.digitChar (r * 10 / d) :: plainDigits d i (r * 10 % d) := by
  rw [plainDigits, ofNat_of_lt (digit_lt hr)]
  rfl

theorem plainDigits_add (i j r : Nat) :
    plainDigits d (i + j) r = plainDigits d i r ++ plainDigits d j (advance d i r) := by
  induction i generalizing r with
  | zero => simp [plainDigits, advance]
  | succ i ih => rw [Nat.succ_add, plainDigits, ih, plainDigits, advance, List.append_assoc]

theorem length_plainDigits {r : Nat} (hr : r < d) (i : Nat) : (plainDigits d i r).length = i := by
  induction i generalizing r with
  | zero => rfl
  | succ i ih => rw [plainDigits_succ hr, List.length_cons, ih (Nat.mod_lt _ (by omega))]

theorem take_plainDigits {r j k : Nat} (hr : r < d) (h : j ≤ k) :
    (plainDigits d k r).take j = plainDigits d j r := by
  rw [← Nat.add_sub_cancel' h, plainDigits_add, List.take_left' (length_plainDigits hr j)]

theorem all_plainDigits {r : Nat} (hr : r < d) (i : Nat) :
    ∀ c ∈ plainDigits d i r, isPlainDigit c = true := by
  induction i generalizing r with
  | zero => intro c hc; exact absurd hc List.not_mem_nil
  | succ i ih =>
    intro c hc
    rw [plainDigits_succ hr, List.mem_cons] at hc
    rcases hc with rfl | hc
    · exact isPlainDigit_iff.2 ⟨_, digit_lt hr, rfl⟩
    · exact ih (Nat.mod_lt _ (by omega)) c hc

/-- **The digits and the remainder make up the dividend.** -/
theorem value_plainDigits {r : Nat} (hr : r < d) (i : Nat) :
    value (plainDigits d i r) * d + advance d i r = r * 10 ^ i := by
  induction i generalizing r with
  | zero => simp [plainDigits, advance, value]
  | succ i ih =>
    have hlt : r * 10 % d < d := Nat.mod_lt _ (by omega)
    rw [plainDigits_succ hr, value_cons, digitValue?_digitChar (digit_lt hr), Option.getD_some,
      length_plainDigits hlt, add_mul, add_assoc, advance, ih hlt]
    calc r * 10 / d * 10 ^ i * d + r * 10 % d * 10 ^ i
        = (d * (r * 10 / d) + r * 10 % d) * 10 ^ i := by ring
      _ = r * 10 ^ (i + 1) := by rw [Nat.div_add_mod, pow_succ]; ring

/-- **The whole part and `i` digits** with the remainder make up the numerator. -/
theorem value_whole_plainDigits (hd : 0 < d) (n i : Nat) :
    value (ofNat (n / d) ++ plainDigits d i (n % d)) * d + advance d i (n % d) = n * 10 ^ i := by
  have hr : n % d < d := Nat.mod_lt n hd
  rw [value_append, value_ofNat, length_plainDigits hr, add_mul, add_assoc, value_plainDigits hr]
  calc n / d * 10 ^ i * d + n % d * 10 ^ i = (d * (n / d) + n % d) * 10 ^ i := by ring
    _ = n * 10 ^ i := by rw [Nat.div_add_mod]

/-! ## Division until the remainder is zero -/

theorem longDivision_zero (d k : Nat) : longDivision 0 d k = ([], 0) := by
  cases k <;> rfl

theorem divideFrom_eq (c r : Nat) (found : Text) :
    divideFrom d c r found =
      (found.reverse ++ (divideFrom d c r []).1, (divideFrom d c r []).2) := by
  induction c generalizing r found with
  | zero => simp [divideFrom]
  | succ c ih =>
    rw [divideFrom, divideFrom]
    split_ifs
    · simp
    · rw [ih, ih _ ((ofNat (r * 10 / d)).reverse ++ [])]
      simp

theorem longDivision_succ {r : Nat} (hr : r ≠ 0) (c : Nat) :
    longDivision r d (c + 1) =
      (ofNat (r * 10 / d) ++ (longDivision (r * 10 % d) d c).1,
        (longDivision (r * 10 % d) d c).2) := by
  rw [longDivision, divideFrom, if_neg hr, divideFrom_eq]
  simp [longDivision]

/-- **Long division** gives `k` digits with their remainder, where `k` is the number of digits asked
for unless the remainder is zero before. -/
theorem longDivision_spec (c r : Nat) :
    ∃ k ≤ c, longDivision r d c = (plainDigits d k r, advance d k r) ∧
      (k = c ∨ advance d k r = 0) ∧ ∀ i < k, advance d i r ≠ 0 := by
  induction c generalizing r with
  | zero => exact ⟨0, le_rfl, rfl, .inl rfl, fun i hi => absurd hi (by omega)⟩
  | succ c ih =>
    by_cases hr : r = 0
    · subst hr
      exact ⟨0, by omega, rfl, .inr rfl, fun i hi => absurd hi (by omega)⟩
    obtain ⟨k, hk, he, hend, hne⟩ := ih (r * 10 % d)
    refine ⟨k + 1, by omega, ?_, ?_, ?_⟩
    · rw [longDivision_succ hr, he]
      rfl
    · rcases hend with rfl | h
      · exact .inl rfl
      · exact .inr h
    · rintro (_ | i) hi
      · exact hr
      · exact hne i (by omega)

/-- Long division goes on to the end if no remainder is zero. -/
theorem longDivision_of_ne_zero {c r : Nat} (h : ∀ i < c, advance d i r ≠ 0) :
    longDivision r d c = (plainDigits d c r, advance d c r) := by
  obtain ⟨k, hk, he, hend, -⟩ := longDivision_spec (d := d) c r
  rcases hend with rfl | h0
  · exact he
  · by_cases hkc : k = c
    · rw [he, hkc]
    · exact absurd h0 (h k (by omega))

end RatCalc.Expansion

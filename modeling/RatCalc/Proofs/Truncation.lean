import RatCalc.Proofs.CanonicalExpansion
import RatCalc.Proofs.RationalLiteral

/-!
# Decimals that are cut

A decimal that is cut after a number of digits is the quotient rounded toward zero, and its digits
are those that the repeating decimal tells.

* `Expansion.withPoint`, `truncated_eq`: the text that is written.
* `longDivision_value`: its digits are worth the magnitude rounded down.
* **`rational_truncated`**: it is read back as the quotient rounded toward zero;
  **`truncated_exact_iff`**: that is the quotient if it has few enough places.
* `Tells`: what a repeating decimal tells about the first digits after its point;
  **`tells_digits`**: it tells the digits of long division.
* **`decimal_exact`**: all of this about the decimal of a quotient.
-/

namespace RatCalc

open Expansion Text

/-! ## The text -/

namespace Expansion

/-- Digits after a point, if there are any. -/
def withPoint (whole digits : Text) : Text :=
  whole ++ (if digits.isEmpty then [] else '.' :: digits)

variable {d : Nat}

theorem truncated_eq (n : Int) (d k : Nat) :
    truncated n d k = withPoint (sign (decide (n < 0)) ++ Numeral.ofNat (n.natAbs / d))
      (longDivision (n.natAbs % d) d k).1 := by
  rw [truncated]
  split_ifs with h
  · rw [h, Int.natAbs_zero, Nat.zero_mod, longDivision_zero, Nat.zero_div]
    rfl
  · rfl

/-- **The digits of a cut decimal** are worth the magnitude rounded down. There are fewer than asked
for only where nothing is left of it. -/
theorem longDivision_value (hd : 0 < d) (n k : Nat) :
    let row := (longDivision (n % d) d k).1
    row.length ≤ k ∧ (∀ c ∈ row, isPlainDigit c = true) ∧
      n * 10 ^ k / d = Numeral.value (Numeral.ofNat (n / d) ++ row) * 10 ^ (k - row.length) := by
  have hr : n % d < d := Nat.mod_lt n hd
  obtain ⟨j, hj, hrow, hend, -⟩ := longDivision_spec (d := d) k (n % d)
  have hv := value_whole_plainDigits hd n j
  simp only [hrow, length_plainDigits hr]
  refine ⟨hj, all_plainDigits hr j, ?_⟩
  rcases hend with rfl | h0
  · rw [Nat.sub_self, pow_zero, mul_one, ← hv, Nat.add_comm, Nat.add_mul_div_right _ _ hd,
      Nat.div_eq_of_lt (advance_lt hr j), Nat.zero_add]
  · rw [h0, add_zero] at hv
    rw [← Nat.add_sub_cancel' hj, pow_add, ← mul_assoc, ← hv, mul_right_comm,
      Nat.mul_div_cancel _ hd, Nat.add_sub_cancel_left]

end Expansion

/-! ## Its value -/

namespace Literal

/-- A text of digits with a point among them is read as the decimal. -/
theorem rational_withPoint {w f : Text} (negative : Bool) (hne : w ≠ [])
    (hw : ∀ c ∈ w, isPlainDigit c = true) (hf : ∀ c ∈ f, isPlainDigit c = true) :
    rational (withPoint (Expansion.sign negative ++ w) f) =
      .ok (if negative then -mkRat (Numeral.value (w ++ f)) (10 ^ f.length)
        else mkRat (Numeral.value (w ++ f)) (10 ^ f.length)) := by
  have hwd : ∀ c ∈ w, isDecimal c = true := fun c hc => isDecimal_of_plain (hw c hc)
  have hfd : ∀ c ∈ f, isDecimal c = true := fun c hc => isDecimal_of_plain (hf c hc)
  cases f with
  | nil =>
    have h := rational_of_unsigned (.whole (isNumeral_iff.2 ⟨hne, hwd⟩)) negative
    simpa [withPoint, Rat.mkRat_eq_div] using h
  | cons c f =>
    have h := rational_of_unsigned (.decimal hwd hfd (by simp)) negative
    rwa [← List.append_assoc] at h

end Literal

open Ratio

section

variable (n : Int) {d : Nat} (hd : 0 < d) (k : Nat)

theorem floor_eq : ⌊|(n : Rat)| * 10 ^ k / d⌋ = ((n.natAbs * 10 ^ k / d : Nat) : Int) := by
  have habs : |(n : Rat)| * 10 ^ k = ((n.natAbs * 10 ^ k : Nat) : Rat) := by
    push_cast
    rw [Nat.cast_natAbs, Int.cast_abs]
  rw [habs]
  exact_mod_cast Rat.floor_natCast_div_natCast (n.natAbs * 10 ^ k) d

/-- A magnitude with the sign of `n`, where that of zero is zero. -/
theorem signed_eq_sign_mul {q : Rat} (h0 : n = 0 → q = 0) :
    (if decide (n < 0) then -q else q) = n.sign * q := by
  rcases lt_trichotomy n 0 with h | h | h
  · rw [decide_eq_true h, if_pos rfl, Int.sign_eq_neg_one_of_neg h]
    simp
  · rw [h0 h]
    simp
  · rw [decide_eq_false h.not_gt, if_neg (by decide), Int.sign_eq_one_of_pos h]
    simp

include hd

/-- **A cut decimal is read back** as the quotient rounded toward zero. -/
theorem rational_truncated :
    Literal.rational (truncated n d k) = .ok (n.sign * ⌊|(n : Rat)| * 10 ^ k / d⌋ / 10 ^ k) := by
  obtain ⟨hlength, hdigits, hvalue⟩ := longDivision_value hd n.natAbs k
  rw [truncated_eq, Literal.rational_withPoint _ (Numeral.ofNat_ne_nil _)
    (Numeral.all_isPlainDigit_ofNat _) hdigits, floor_eq, hvalue]
  generalize (longDivision (n.natAbs % d) d k).1 = row at hlength hvalue ⊢
  generalize Numeral.value (Numeral.ofNat (n.natAbs / d) ++ row) = v at hvalue ⊢
  have hpow : (10 : Rat) ^ k = 10 ^ (k - row.length) * 10 ^ row.length := by
    rw [← pow_add, Nat.sub_add_cancel hlength]
  have hmagnitude : mkRat v (10 ^ row.length) = (v * 10 ^ (k - row.length) : Nat) / 10 ^ k := by
    rw [Rat.mkRat_eq_div, hpow]
    push_cast
    field_simp
  rw [hmagnitude, signed_eq_sign_mul, mul_div_assoc]
  · rfl
  · rintro rfl
    rw [← hvalue]
    simp

omit hd in
/-- **It is the quotient** exactly where that has at most as many places. -/
theorem truncated_exact_iff :
    (n.sign * ⌊|(n : Rat)| * 10 ^ k / d⌋ / 10 ^ k : Rat) = n / d ↔ HasPlaces (n / d) k := by
  rw [hasPlaces_iff]
  constructor
  · intro h
    exact ⟨n.sign * ⌊|(n : Rat)| * 10 ^ k / d⌋, by rw [← h]; push_cast; rfl⟩
  · rintro ⟨m, hm⟩
    have hint : |(n : Rat)| * 10 ^ k / d = (|m| : Int) := by
      have hten : (10 : Rat) ^ k ≠ 0 := by positivity
      have h : |(n : Rat) / d| * 10 ^ k = |(m : Rat)| := by
        rw [hm, abs_div, abs_of_pos (show (0 : Rat) < 10 ^ k by positivity),
          div_mul_cancel₀ _ hten]
      rw [Int.cast_abs, ← h, abs_div, Nat.abs_cast]
      ring
    have hsign : (n.sign : Rat) * |(n : Rat)| = n := by exact_mod_cast Int.sign_mul_abs n
    rw [hint, Int.floor_intCast, ← hint]
    calc n.sign * (|(n : Rat)| * 10 ^ k / d) / 10 ^ k
        = n.sign * |(n : Rat)| / d := by field_simp
      _ = n / d := by rw [hsign]

end

/-! ## Its digits -/

namespace Ratio

variable {a : Rat}

theorem periodDigits_add (a : Rat) (j : Nat) :
    periodDigits a (period a + j) = periodDigits a (period a) ++ periodDigits a j := by
  rw [periodDigits, plainDigits_add, ← advance_add, advance_add_period a le_rfl]
  rfl

/-- The period over and over. -/
theorem flatten_replicate_period (a : Rat) (m : Nat) :
    (List.replicate m (periodDigits a (period a))).flatten = periodDigits a (m * period a) := by
  induction m with
  | zero => rw [Nat.zero_mul]; rfl
  | succ m ih =>
    rw [List.replicate_succ, List.flatten_cons, ih, Nat.succ_mul, Nat.add_comm, periodDigits_add]

/-- Long division gives as many digits as are asked for, up to the end of the expansion. -/
theorem longDivision_digits (a : Rat) (k : Nat) :
    (¬ Terminates a → (longDivision (remainder a) a.den k).1 = digits a k) ∧
      (Terminates a → (longDivision (remainder a) a.den k).1 =
        (digits a (preperiod a.den)).take k) := by
  constructor
  · intro h
    rw [longDivision_of_ne_zero fun i _ => advance_ne_zero h i, plainDigits_remainder]
  · intro h
    rcases le_or_gt (preperiod a.den) k with hk | hk
    · rw [longDivision_of_hasPlaces ((hasPlaces_iff_preperiod h).2 hk), List.take_of_length_le]
      rwa [length_digits]
    · rw [longDivision_of_ne_zero fun i hi => advance_ne_zero_of_lt a (hi.trans hk),
        plainDigits_remainder, take_digits, min_eq_left hk.le]

/-- What a repeating decimal with the whole part `w` tells about the first `k` digits after its
point: none of an integer, those of an expansion that ends, and those of a period that is repeated
over and over. Dots stand for digits that are not told. -/
inductive Tells (w : Text) (k : Nat) : Text → Text → Prop where
  | whole : Tells w k w []
  | ending {fixed : Text} : (∀ c ∈ fixed, isPlainDigit c = true) →
      Tells w k (written w fixed ['0'] []) (fixed.take k)
  | repeating {fixed period : Text} : (∀ c ∈ fixed ++ period, isPlainDigit c = true) →
      period ≠ [] → period ≠ ['0'] →
      Tells w k (written w fixed period []) ((fixed ++ (List.replicate k period).flatten).take k)
  | shortened {fixed period row : Text} : (∀ c ∈ fixed ++ period, isPlainDigit c = true) →
      row.length = k → row <+: fixed ++ period ∨ fixed ++ period <+: row →
      Tells w k (written w fixed period dots) row

/-- **A repeating decimal tells the digits of long division**, whatever the limit of its period. -/
theorem tells_digits (a : Rat) (k : Nat) (useGroups : Bool) (limit : Nat) (maxDigits : Option Nat) :
    Tells (head a) k (RunLength.expand (repeatingDecimal a useGroups limit maxDigits).1)
      (longDivision (remainder a) a.den k).1 := by
  rw [expand_repeatingDecimal_eq]
  by_cases h1 : a.den = 1
  · rw [repeating_of_den_one h1, (remainder_eq_zero_iff a).2 h1, longDivision_zero]
    exact .whole
  by_cases ht : Terminates a
  · rw [repeating_of_terminates ht h1, (longDivision_digits a k).2 ht]
    exact .ending (all_digits a _)
  have hplain : ∀ j, ∀ c ∈ digits a (preperiod a.den) ++ periodDigits a j,
      isPlainDigit c = true := by
    intro j
    rw [digits_append_periodDigits]
    exact all_digits a _
  rw [repeating_of_not_terminates ht, (longDivision_digits a k).1 ht]
  rcases writtenDigits_spec a limit maxDigits with ⟨hw, -, hp⟩ | ⟨hw, -⟩
  · have hrow : digits a k = (digits a (preperiod a.den) ++
        (List.replicate k (periodDigits a (period a))).flatten).take k := by
      have hk : k ≤ k * period a := Nat.le_mul_of_pos_right k (period_pos a)
      rw [flatten_replicate_period, digits_append_periodDigits, take_digits, min_eq_left (by omega)]
    rw [if_pos hw, hp, hrow]
    exact .repeating (hplain _) (periodDigits_ne_nil a) (periodDigits_ne_zero ht)
  · rw [if_neg hw]
    refine .shortened (hplain _) (length_digits a k) ?_
    rw [grouped_false, grouped_false, digits_append_periodDigits]
    rcases le_total k (preperiod a.den + writtenDigits a limit maxDigits) with hk | hk
    · rw [← min_eq_left hk, ← take_digits]
      exact .inl (List.take_prefix _ _)
    · rw [← min_eq_left hk, ← take_digits]
      exact .inr (List.take_prefix _ _)

end Ratio

/-! ## The decimal of a quotient -/

namespace Operand

theorem decimal_eq (n : Int) {d : Nat} (hd : 0 < d) (k : Nat) :
    decimal (whole n) (whole d) (whole k) = .ok (Expansion.truncated n d k) := by
  by_cases h : n = 0
  · rw [decimal, if_pos ((equals_iff n 0).2 h), h]
    rfl
  · rw [decimal, if_neg (mt (equals_iff n 0).1 h)]
    simp only [plain_whole, count_whole, pure_bind, Int.natAbs_natCast, Int.toNat_natCast]
    rw [if_neg (by omega)]
    rfl

/-- **The decimal of a quotient is exact truncation toward zero.** It is read back as the quotient
rounded toward zero at the last place, which is the quotient if that has as few places. For a
fraction in lowest terms its digits are the first ones that the repeating decimal tells, with fewer
of them only where the expansion ends. -/
theorem decimal_exact (n : Int) {d : Nat} (hd : 0 < d) (k : Nat) :
    decimal (whole n) (whole d) (whole k) = .ok (Expansion.truncated n d k) ∧
    Literal.rational (Expansion.truncated n d k) =
      .ok (n.sign * ⌊|(n : Rat)| * 10 ^ k / d⌋ / 10 ^ k) ∧
    ((n.sign * ⌊|(n : Rat)| * 10 ^ k / d⌋ / 10 ^ k : Rat) = n / d ↔ HasPlaces (n / d) k) ∧
    (n.natAbs.Coprime d →
      let w := sign (decide (n < 0)) ++ Numeral.ofNat (n.natAbs / d)
      ∃ row, Expansion.truncated n d k = withPoint w row ∧
        ∀ (useGroups : Bool) (limit : Nat) (maxDigits : Option Nat), Tells w k
          (RunLength.expand (Expansion.repeating n d useGroups limit maxDigits).1) row) :=
  ⟨decimal_eq n hd k, rational_truncated n hd k, truncated_exact_iff n k, fun h =>
    ⟨_, truncated_eq n d k, tells_digits ⟨n, d, hd.ne', h⟩ k⟩⟩

/-- Four digits of `-7/12 = -0.58333…`, and the whole text of `7/8`, of which five were asked for. -/
theorem seven_twelfths_and_seven_eighths :
    (decimal (whole (-7)) (whole 12) (whole 4) = .ok "-0.5833".toList ∧
      Literal.rational "-0.5833".toList = .ok (-5833 / 10000) ∧ ¬ HasPlaces (-7 / 12) 4) ∧
    (Nat.Coprime 7 8 ∧ Expansion.truncated 7 8 5 = "0.875".toList ∧
      ∃ row, "0.875".toList = withPoint ['0'] row ∧
        Tells ['0'] 5 (RunLength.expand (Expansion.repeating 7 8 true 10 none).1) row) := by
  have htext : Expansion.truncated (-7) 12 4 = "-0.5833".toList := by decide
  have htext' : Expansion.truncated 7 8 5 = "0.875".toList := by decide
  obtain ⟨hdecimal, hread, -⟩ := decimal_exact (-7) (d := 12) (by decide) 4
  obtain ⟨-, -, -, hdigits⟩ := decimal_exact 7 (d := 8) (by decide) 5
  obtain ⟨row, hrow, htells⟩ := hdigits (by decide)
  rw [htext] at hdecimal hread
  rw [htext'] at hrow
  have hfloor : ((-7 : Int).sign * ⌊|((-7 : Int) : Rat)| * 10 ^ 4 / (12 : Nat)⌋ / 10 ^ 4 : Rat) =
      -5833 / 10000 := by
    rw [floor_eq, show (-7 : Int).sign = -1 from rfl]
    norm_num
  rw [hfloor] at hread
  exact ⟨⟨hdecimal, hread, by with_unfolding_all decide⟩, by decide, htext', row, hrow,
    htells true 10 none⟩

end Operand

end RatCalc

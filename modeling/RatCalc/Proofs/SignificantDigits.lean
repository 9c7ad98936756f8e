import RatCalc.Proofs.CanonicalExpansion

/-!
# Significant digits

The significant digits of a number start with its first digit that is not zero.

* `Numeral.value_lt`, `value_rest`: a row of digits is worth less than a power of ten, and its
  leading zeros are worth nothing.
* `exists_leading`: the first digit after the zeros tells the value up to its place.
* `Ratio.significantDigits`, `significantDigits_mono`: the digits up to a place, which go on with
  more places.
* **`significantDigits_eq_nil_iff`**, **`magnitude_of_leading`**: none of them are there yet, or the
  first one and their number tell the magnitude.
-/

namespace RatCalc

open Text

namespace Numeral

theorem value_lt {t : Text} (h : ∀ c ∈ t, isPlainDigit c = true) : value t < 10 ^ t.length := by
  induction t with
  | nil => exact Nat.one_pos
  | cons c t ih =>
    obtain ⟨hc, ht⟩ := List.forall_mem_cons.1 h
    obtain ⟨n, hn, rfl⟩ := isPlainDigit_iff.1 hc
    have hle : (n + 1) * 10 ^ t.length ≤ 10 * 10 ^ t.length := Nat.mul_le_mul_right _ hn
    rw [value_cons, digitValue?_digitChar hn, Option.getD_some, List.length_cons, pow_succ']
    rw [Nat.succ_mul] at hle
    have := ih ht
    omega

theorem value_replicate_zero (k : Nat) (t : Text) :
    value (List.replicate k '0' ++ t) = value t := by
  induction k with
  | zero => rfl
  | succ k ih =>
    rw [List.replicate_succ, List.cons_append, value_cons, ih]
    exact (congrArg (· + value t) (Nat.zero_mul _)).trans (Nat.zero_add _)

end Numeral

namespace Expansion

open Numeral

variable {t : Text} {c : Char} {u : Text}

/-! ## Rows with leading zeros -/

theorem value_rest (t : Text) : value (splitZeros t).2 = value t := by
  conv_rhs => rw [← (splitZeros_spec t).1, value_replicate_zero]

/-- Zeros go on, or the rest does. -/
theorem rest_append (t u : Text) :
    (splitZeros (t ++ u)).2 =
      if (splitZeros t).2 = [] then (splitZeros u).2 else (splitZeros t).2 ++ u := by
  have h : (splitZeros (t ++ u)).2 = _ := List.dropWhile_append
  split_ifs with hnil
  · exact h.trans (if_pos (List.isEmpty_iff.2 hnil))
  · exact h.trans (if_neg (mt List.isEmpty_iff.1 hnil))

theorem plain_rest (h : ∀ c ∈ t, isPlainDigit c = true) :
    ∀ c ∈ (splitZeros t).2, isPlainDigit c = true :=
  fun c hc => h c ((List.dropWhile_suffix _).subset hc)

/-- The first digit after the zeros tells the value up to its place. -/
theorem exists_leading (h : ∀ c ∈ t, isPlainDigit c = true) (hrest : (splitZeros t).2 = c :: u) :
    ∃ v, 0 < v ∧ v < 10 ∧ c = Nat.digitChar v ∧
      v * 10 ^ u.length ≤ value t ∧ value t < (v + 1) * 10 ^ u.length := by
  have hplain := plain_rest h
  rw [hrest, List.forall_mem_cons] at hplain
  obtain ⟨v, hv, rfl⟩ := isPlainDigit_iff.1 hplain.1
  have hpos : v ≠ 0 := by
    rintro rfl
    exact (splitZeros_spec t).2 (by rw [hrest]; rfl)
  have hu := value_lt hplain.2
  refine ⟨v, Nat.pos_of_ne_zero hpos, hv, rfl, ?_⟩
  rw [← value_rest, hrest, value_cons, digitValue?_digitChar hv, Option.getD_some, Nat.succ_mul]
  omega

/-- A row of digits that are all zero is worth nothing. -/
theorem rest_eq_nil_iff (h : ∀ c ∈ t, isPlainDigit c = true) :
    (splitZeros t).2 = [] ↔ value t = 0 := by
  constructor
  · intro hrest
    rw [← value_rest, hrest]
    rfl
  · intro hvalue
    cases hrest : (splitZeros t).2 with
    | nil => rfl
    | cons c u =>
      obtain ⟨v, hv, -, -, hle, -⟩ := exists_leading h hrest
      have : 0 < v * 10 ^ u.length := by positivity
      omega

end Expansion

namespace Ratio

open Expansion Numeral

variable {a : Rat} {k m : Nat} {c : Char} {u : Text}

/-! ## The digits of a number -/

/-- All digits of a number up to `k` places behind the point. -/
def allDigits (a : Rat) (k : Nat) : Text := ofNat (wholePart a) ++ digits a k

/-- The digits up to `k` places behind the point, from the first one on that is not zero. -/
def significantDigits (a : Rat) (k : Nat) : Text := (allDigits a k).dropWhile (· == '0')

theorem significantDigits_eq (a : Rat) (k : Nat) :
    significantDigits a k = (splitZeros (allDigits a k)).2 := rfl

theorem plain_allDigits (a : Rat) (k : Nat) : ∀ c ∈ allDigits a k, isPlainDigit c = true :=
  List.forall_mem_append.2 ⟨all_isPlainDigit_ofNat _, all_digits a k⟩

theorem digits_prefix (a : Rat) (h : k ≤ m) : digits a k <+: digits a m := by
  have hd := plainDigits_add (d := a.den) k (m - k) (remainder a)
  rw [Nat.add_sub_cancel' h, plainDigits_remainder, plainDigits_remainder] at hd
  exact hd ▸ List.prefix_append _ _

/-- With more places the digits go on. -/
theorem significantDigits_mono (a : Rat) (h : k ≤ m) :
    significantDigits a k <+: significantDigits a m := by
  obtain ⟨more, hmore⟩ := digits_prefix a h
  rw [significantDigits_eq, significantDigits_eq, allDigits, allDigits, ← hmore,
    ← List.append_assoc, rest_append (ofNat (wholePart a) ++ digits a k)]
  split_ifs with hnil
  · rw [hnil]
    exact List.nil_prefix
  · exact List.prefix_append _ _

/-- Whether a text is a beginning of the significant digits is settled where there are as many. -/
theorem exists_significant_iff {x : Text} (hx : x.length ≤ (significantDigits a k).length) :
    (∃ j, x <+: significantDigits a j) ↔ x <+: significantDigits a k := by
  refine ⟨fun ⟨j, hj⟩ => ?_, fun hk => ⟨k, hk⟩⟩
  rcases le_total j k with hjk | hkj
  · exact hj.trans (significantDigits_mono a hjk)
  · exact List.prefix_of_prefix_length_le hj (significantDigits_mono a hkj) hx

/-- The digits up to a place are the magnitude rounded down. -/
theorem value_allDigits (a : Rat) (k : Nat) :
    (value (allDigits a k) : Rat) ≤ |a| * 10 ^ k ∧ |a| * 10 ^ k < value (allDigits a k) + 1 := by
  have hv : value (allDigits a k) * a.den + _ = _ := value_whole_digits a k
  have hlt : (advance a.den k (remainder a) : Rat) < a.den := by
    exact_mod_cast advance_lt (remainder_lt a) k
  have hd : (0 : Rat) < a.den := by exact_mod_cast a.den_pos
  have hv' : (value (allDigits a k) : Rat) * a.den + (advance a.den k (remainder a) : Rat)
      = a.num.natAbs * 10 ^ k := by exact_mod_cast hv
  rw [abs_eq_div, div_mul_eq_mul_div, le_div_iff₀ hd, div_lt_iff₀ hd, add_mul, one_mul]
  have hnonneg : (0 : Rat) ≤ advance a.den k (remainder a) := Nat.cast_nonneg _
  constructor <;> linarith

/-- **No significant digit has come up** as long as the magnitude is less than one in the last
place. -/
theorem significantDigits_eq_nil_iff : significantDigits a k = [] ↔ |a| * 10 ^ k < 1 := by
  obtain ⟨hle, hlt⟩ := value_allDigits a k
  rw [significantDigits_eq, rest_eq_nil_iff (plain_allDigits a k)]
  constructor
  · intro h
    rwa [h, Nat.cast_zero, zero_add] at hlt
  · intro h
    have : (value (allDigits a k) : Rat) < 1 := hle.trans_lt h
    exact Nat.lt_one_iff.1 (by exact_mod_cast this)

/-- **The first significant digit and the number of digits after it** tell the magnitude. -/
theorem magnitude_of_leading (h : significantDigits a k = c :: u) :
    ∃ v : Nat, 0 < v ∧ v < 10 ∧ c = Nat.digitChar v ∧
      v * (10 : Rat) ^ ((u.length : Int) - k) ≤ |a| ∧
      |a| < (v + 1) * (10 : Rat) ^ ((u.length : Int) - k) := by
  obtain ⟨v, hpos, hv, hc, hle, hlt⟩ := exists_leading (plain_allDigits a k) h
  obtain ⟨hlow, hhigh⟩ := value_allDigits a k
  have hpow : (10 : Rat) ^ ((u.length : Int) - k) = 10 ^ u.length / 10 ^ k := by
    rw [zpow_sub₀ (by norm_num), zpow_natCast, zpow_natCast]
  have hk : (0 : Rat) < 10 ^ k := by positivity
  have hle' : (v : Rat) * 10 ^ u.length ≤ value (allDigits a k) := by exact_mod_cast hle
  have hlt' : (value (allDigits a k) : Rat) + 1 ≤ (v + 1) * 10 ^ u.length := by exact_mod_cast hlt
  refine ⟨v, hpos, hv, hc, ?_, ?_⟩
  · rw [hpow, ← mul_div_assoc, div_le_iff₀ hk]
    exact hle'.trans hlow
  · rw [hpow, ← mul_div_assoc, lt_div_iff₀ hk]
    exact hhigh.trans_le hlt'

end Ratio

end RatCalc

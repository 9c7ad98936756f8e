import RatCalc.Proofs.RationalOperand

/-!
# Unreduced fractions as rational numbers

Fractions keep their parts as written, with denominators of either sign and common factors.

* `toRat_eq_div`, `toRat_mul_den`: the value as a quotient.
* `toRat_mul`, `map_toRat_div`, `map_toRat_pow`, `toRat_shift`, `map_toRat_add`, `map_toRat_sub`:
  each operation on fractions against the one on their values, failures included.
* `map_toRat_scale`, `toRat_reduce`: operations that keep the value.
* `reduce_eq_reduce_iff`: lowest terms are the same for equal values only.
* **`followsValue`**: all of these for any two fractions.
-/

namespace RatCalc.Fraction

variable {a b : Fraction}

theorem cast_den_ne_zero (a : Fraction) : (a.den : Rat) ≠ 0 := Int.cast_ne_zero.2 a.den_ne_zero

theorem toRat_eq_div (a : Fraction) : a.toRat = a.num / a.den := Rat.divInt_eq_div a.num a.den

theorem toRat_mul_den (a : Fraction) : a.toRat * a.den = a.num := by
  rw [toRat_eq_div, div_mul_cancel₀ _ a.cast_den_ne_zero]

theorem toRat_eq_zero_iff : a.toRat = 0 ↔ a.num = 0 := by
  rw [toRat_eq_div, div_eq_zero_iff, or_iff_left a.cast_den_ne_zero, Int.cast_eq_zero]

/-! ## Products, quotients and powers -/

theorem toRat_mul (a b : Fraction) : (a.mul b).toRat = a.toRat * b.toRat := by
  rw [toRat_eq_div, toRat_eq_div a, toRat_eq_div b, div_mul_div_comm, mul, Int.cast_mul,
    Int.cast_mul]

theorem map_toRat_div (a b : Fraction) : (a.div b).map toRat = Ratio.div a.toRat b.toRat := by
  rw [div, Ratio.div]
  by_cases hb : b.num = 0
  · rw [dif_pos hb, if_pos (toRat_eq_zero_iff.2 hb)]
    rfl
  · rw [dif_neg hb, if_neg (mt toRat_eq_zero_iff.1 hb)]
    refine congrArg Except.ok ?_
    rw [toRat_eq_div, toRat_eq_div a, toRat_eq_div b, div_div_div_eq, Int.cast_mul, Int.cast_mul]

theorem toRat_natPow (a : Fraction) (k : Nat) : (a.natPow k).toRat = a.toRat ^ k :=
  Ratio.divInt_pow a.num a.den k

/-- A fraction with its parts exchanged. -/
theorem toRat_swap (h : a.num ≠ 0) : toRat ⟨a.den, a.num, h⟩ = a.toRat⁻¹ := by
  rw [toRat_eq_div, toRat_eq_div a, inv_div]

theorem map_toRat_pow (a : Fraction) (k : Int) : (a.pow k).map toRat = Ratio.pow a.toRat k := by
  rw [pow, Ratio.pow]
  simp only [toRat_eq_zero_iff]
  by_cases ha : a.num = 0
  · rw [dif_pos ha]
    rcases lt_trichotomy k 0 with hk | rfl | hk
    · rw [if_neg hk.ne, if_pos hk, if_neg (fun h => hk.ne h.2), if_pos ⟨ha, hk⟩]
      rfl
    · rw [if_pos rfl, if_pos ⟨ha, rfl⟩]
      rfl
    · rw [if_neg hk.ne', if_neg hk.not_gt, if_neg (fun h => hk.ne' h.2),
        if_neg (fun h => hk.not_gt h.2), Interval.zpow_eq_pow_natAbs, if_neg hk.not_gt]
      exact congrArg Except.ok (toRat_natPow a _)
  · have hfails (p : Prop) : ¬(a.num = 0 ∧ p) := fun h => ha h.1
    rw [dif_neg ha, if_neg (hfails _), if_neg (hfails _), Interval.zpow_eq_pow_natAbs]
    by_cases hk : k < 0
    · rw [if_pos hk, if_pos hk, ← toRat_swap ha]
      exact congrArg Except.ok (toRat_natPow _ _)
    · rw [if_neg hk, if_neg hk]
      exact congrArg Except.ok (toRat_natPow a _)

/-- Moving the point puts the power of ten above or below the line. -/
theorem toRat_shift (a : Fraction) (k : Int) : (a.shift k).toRat = Ratio.shift 10 a.toRat k := by
  have hten : ((Int.pow 10 k.natAbs : Int) : Rat) = 10 ^ k.natAbs := Int.cast_pow 10 k.natAbs
  rw [Ratio.shift, Interval.zpow_eq_pow_natAbs, shift]
  split_ifs with h hk hk
  · omega
  · rw [toRat_eq_div, toRat_eq_div a, Int.cast_mul, hten, mul_div_right_comm]
    rfl
  · rw [toRat_eq_div, toRat_eq_div a, Int.cast_mul, hten, ← div_div, div_eq_mul_inv _ (10 ^ _)]
    rw [inv_pow]
    rfl
  · omega

/-! ## Sums of fractions with the same denominator -/

theorem map_toRat_add (a b : Fraction) :
    (a.add b).map toRat = if a.den = b.den then .ok (a.toRat + b.toRat)
      else .error (.calculation .unequalSummands) := by
  rw [add]
  split_ifs with h
  · refine congrArg Except.ok ?_
    rw [toRat_eq_div, toRat_eq_div a, toRat_eq_div b, ← h, ← add_div, Int.cast_add]
  · rfl

theorem map_toRat_sub (a b : Fraction) :
    (a.sub b).map toRat = if a.den = b.den then .ok (a.toRat - b.toRat)
      else .error (.calculation .unequalDifference) := by
  rw [sub]
  split_ifs with h
  · refine congrArg Except.ok ?_
    rw [toRat_eq_div, toRat_eq_div a, toRat_eq_div b, ← h, ← sub_div, Int.cast_sub]
  · rfl

/-! ## Other forms of a value -/

theorem map_toRat_scale (a : Fraction) (k : Int) :
    (a.scale k).map toRat = if k = 0 then .error (.division .zeroDenominator) else .ok a.toRat := by
  rw [scale, ofInts]
  by_cases hk : k = 0
  · rw [if_pos hk, dif_pos (by rw [hk, mul_zero])]
    rfl
  · rw [if_neg hk, dif_neg (mul_ne_zero a.den_ne_zero hk)]
    refine congrArg Except.ok ?_
    rw [toRat_eq_div, toRat_eq_div a, Int.cast_mul, Int.cast_mul,
      mul_div_mul_right _ _ (Int.cast_ne_zero.2 hk)]

theorem toRat_ofRat (r : Rat) : (ofRat r).toRat = r := Rat.num_divInt_den r

theorem toRat_reduce (a : Fraction) : a.reduce.toRat = a.toRat := toRat_ofRat a.toRat

theorem order_eq_cmp (a b : Fraction) : a.order b = cmp a.toRat b.toRat := Ratio.order_eq_cmp _ _

/-- Lowest terms are a normal form of the fractions of one value. -/
theorem reduce_eq_reduce_iff (a b : Fraction) : a.reduce = b.reduce ↔ a.order b = .eq := by
  rw [order_eq_cmp, cmp_eq_eq_iff]
  constructor
  · intro h
    rw [← toRat_reduce a, h, toRat_reduce]
  · intro h
    rw [reduce, h, reduce]

/-! ## All operations -/

/-- The operations on two fractions are those on their values, and they fail where these do. -/
structure FollowsValue (a b : Fraction) : Prop where
  mul : (a.mul b).toRat = a.toRat * b.toRat
  div : (a.div b).map toRat = Ratio.div a.toRat b.toRat
  pow : ∀ k, (a.pow k).map toRat = Ratio.pow a.toRat k
  shift : ∀ k, (a.shift k).toRat = Ratio.shift 10 a.toRat k
  /-- Sums are defined for equal denominators. -/
  add : (a.add b).map toRat = if a.den = b.den then .ok (a.toRat + b.toRat)
    else .error (.calculation .unequalSummands)
  sub : (a.sub b).map toRat = if a.den = b.den then .ok (a.toRat - b.toRat)
    else .error (.calculation .unequalDifference)
  scale : ∀ k, (a.scale k).map toRat =
    if k = 0 then .error (.division .zeroDenominator) else .ok a.toRat
  reduce : a.reduce.toRat = a.toRat
  order : a.order b = cmp a.toRat b.toRat
  same_reduced : a.reduce = b.reduce ↔ a.order b = .eq

/-- **Unreduced fractions compute with their values.** For any two fractions, whatever the signs of
their denominators, products, quotients, powers, shifts by powers of ten, and sums and differences
over one denominator have the value of the operation on the rational numbers, and fail with the same
fault where it fails. A common factor that is not zero and lowest terms change nothing about the
value, the order is that of the values, and lowest terms are the same exactly for equal values. -/
theorem followsValue (a b : Fraction) : FollowsValue a b where
  mul := toRat_mul a b
  div := map_toRat_div a b
  pow := map_toRat_pow a
  shift := toRat_shift a
  add := map_toRat_add a b
  sub := map_toRat_sub a b
  scale := map_toRat_scale a
  reduce := toRat_reduce a
  order := order_eq_cmp a b
  same_reduced := reduce_eq_reduce_iff a b

/-- Half with negative parts and as three sixths: other fractions, the same value. -/
example :
    let a : Fraction := ⟨-2, -4, by decide⟩
    let b : Fraction := ⟨3, 6, by decide⟩
    a ≠ b ∧ a.reduce = b.reduce ∧ (a.pow (-3)).map toRat = .ok 8 := by
  decide

end RatCalc.Fraction

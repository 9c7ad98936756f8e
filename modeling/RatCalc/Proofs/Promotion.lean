import Mathlib.Algebra.Order.Ring.Rat
import Mathlib.Data.Int.Cast.Field
import Mathlib.Data.Rat.Cast.CharZero
import RatCalc.Expr.Basic

/-!
# Numbers as intervals

* `toInterval_add`, `toInterval_sub`, `toInterval_mul`, **`toInterval_div`**: the operations of the
  three kinds are those of intervals; division fails for the same reason.
* `toInterval_simplest`, **`toInterval_simplify`**: the simplest kind has the same value.
-/

namespace RatCalc

namespace Interval

theorem hull_refl (a : Rat) : hull a a = point a := by
  rw [hull, dif_pos Rat.le_refl]
  rfl

theorem hullOfFour_refl (a : Rat) : hullOfFour a a a a = point a := by
  have hl : Ratio.lesser a a = a := if_pos Rat.le_refl
  have hg : Ratio.greater a a = a := if_pos Rat.le_refl
  rw [hullOfFour, hl, hl, hg, hg, hull_refl]

theorem point_add (a b : Rat) : (point a).add (point b) = point (a + b) := hull_refl _

theorem point_sub (a b : Rat) : (point a).sub (point b) = point (a - b) := hull_refl _

theorem point_mul (a b : Rat) : (point a).mul (point b) = point (a * b) := hullOfFour_refl _

/-- The quotient of two numbers is that of their intervals. -/
theorem point_div (a b : Rat) : (point a).div (point b) = (Ratio.div a b).map point := by
  rw [div, Ratio.div]
  by_cases h : b = 0
  · rw [if_pos ⟨h, h⟩, if_pos h]
    rfl
  · have hz : (point b).containsZero = false := by
      rw [containsZero, decide_eq_false_iff_not, mem_def]
      rintro ⟨h₁, h₂⟩
      exact h (le_antisymm h₁ h₂)
    rw [if_neg fun h' => h h'.1, hz, if_neg h]
    exact congrArg Except.ok (hullOfFour_refl _)

end Interval

namespace Number

open RatCalc.Interval

theorem toInterval_combine {f : Int → Int → Int} {g : Rat → Rat → Rat}
    {k : Interval → Interval → Interval} (hf : ∀ a b : Int, ((f a b : Int) : Rat) = g a b)
    (hg : ∀ a b, k (point a) (point b) = point (g a b)) (x y : Number) :
    (combine f g k x y).toInterval = k x.toInterval y.toInterval := by
  cases x <;> cases y <;> simp only [combine, toInterval, hf, hg]

theorem toInterval_add (x y : Number) : (x.add y).toInterval = x.toInterval.add y.toInterval :=
  toInterval_combine Int.cast_add point_add x y

theorem toInterval_sub (x y : Number) : (x.sub y).toInterval = x.toInterval.sub y.toInterval :=
  toInterval_combine Int.cast_sub point_sub x y

theorem toInterval_mul (x y : Number) : (x.mul y).toInterval = x.toInterval.mul y.toInterval :=
  toInterval_combine Int.cast_mul point_mul x y

theorem toInterval_divIntegers (a b : Int) :
    (divIntegers a b).map toInterval = (Ratio.div a b).map point := by
  rw [divIntegers, Ratio.div]
  by_cases h : b = 0
  · rw [if_pos h, if_pos (by rw [h]; rfl)]
    rfl
  · have hb : (b : Rat) ≠ 0 := Int.cast_ne_zero.2 h
    rw [if_neg h, if_neg hb]
    refine congrArg Except.ok ?_
    split_ifs with hm
    · exact congrArg point (Int.cast_div (Int.dvd_of_emod_eq_zero hm) hb)
    · exact congrArg point (Rat.divInt_eq_div a b)

/-- **Division is that of intervals**, and fails for the same reason. -/
theorem toInterval_div (x y : Number) :
    (x.div y).map toInterval = x.toInterval.div y.toInterval := by
  have hmap : ∀ {α : Type} (r : Except Failure α) (f : α → Number),
      (r.map f).map toInterval = r.map (toInterval ∘ f) := by
    intro α r f
    cases r <;> rfl
  have hid : ∀ r : Except Failure Interval, r.map (toInterval ∘ interval) = r := by
    intro r
    cases r <;> rfl
  cases x with
  | integer a =>
    cases y with
    | integer b =>
      simp only [div, toInterval, point_div]
      exact toInterval_divIntegers a b
    | rational b => simp only [div, toInterval, point_div, hmap]; rfl
    | interval j => simp only [div, toInterval, hmap, hid]
  | rational a =>
    cases y with
    | integer b => simp only [div, toInterval, point_div, hmap]; rfl
    | rational b => simp only [div, toInterval, point_div, hmap]; rfl
    | interval j => simp only [div, toInterval, hmap, hid]
  | interval i => cases y <;> simp only [div, toInterval, hmap, hid]

theorem toInterval_simplestRat (a : Rat) : (simplest.simplestRat a).toInterval = point a := by
  rw [simplest.simplestRat]
  split_ifs with h
  · exact congrArg point (Rat.coe_int_num_of_den_eq_one h)
  · rfl

theorem toInterval_simplest (x : Number) : x.simplest.toInterval = x.toInterval := by
  cases x with
  | integer n => rfl
  | rational a => exact toInterval_simplestRat a
  | interval i =>
    rw [simplest]
    split_ifs with h
    · rw [toInterval_simplestRat]
      obtain ⟨low, high, hle⟩ := i
      cases beq_iff_eq.1 h
      rfl
    · rfl

/-! ## Rational values -/

theorem toRat?_simplest (a : Rat) : (rational a).simplest.toRat? = some a := by
  rw [simplest, simplest.simplestRat]
  split_ifs with h
  · exact congrArg some (Rat.coe_int_num_of_den_eq_one h)
  · rfl

/-- The simplest kind of a rational value does not depend on its kind. -/
theorem simplest_of_toRat? {x : Number} {a : Rat} (h : x.toRat? = some a) :
    x.simplest = (rational a).simplest := by
  cases x with
  | integer n =>
    cases Option.some.inj h
    rw [simplest, simplest, simplest.simplestRat, if_pos (Rat.den_intCast n), Rat.num_intCast]
  | rational b =>
    cases Option.some.inj h
    rfl
  | interval i => cases h

theorem simplest_natCast (n : Nat) : (rational n).simplest = integer n := by
  refine (simplest_of_toRat? (x := integer n) ?_).symm
  rw [toRat?, Int.cast_natCast]

theorem exists_divIntegers (m : Int) {n : Int} (hn : n ≠ 0) :
    ∃ z, divIntegers m n = .ok z ∧ z.toRat? = some ((m : Rat) / n) := by
  have hb : (n : Rat) ≠ 0 := Int.cast_ne_zero.2 hn
  rw [divIntegers, if_neg hn]
  refine ⟨_, rfl, ?_⟩
  split_ifs with hm
  · exact congrArg some (Int.cast_div (Int.dvd_of_emod_eq_zero hm) hb)
  · exact congrArg some (Rat.divInt_eq_div m n)

/-- A rational value divided by one that is not zero. -/
theorem exists_div {x y : Number} {a b : Rat} (hx : x.toRat? = some a) (hy : y.toRat? = some b)
    (hb : b ≠ 0) : ∃ z, x.div y = .ok z ∧ z.toRat? = some (a / b) := by
  have hdiv : (Ratio.div a b).map rational = .ok (rational (a / b)) := by
    rw [Ratio.div, if_neg hb]
    rfl
  cases x with
  | interval i => cases hx
  | integer m =>
    cases Option.some.inj hx
    cases y with
    | interval j => cases hy
    | integer n =>
      cases Option.some.inj hy
      exact exists_divIntegers m (Int.cast_ne_zero.1 hb)
    | rational c =>
      cases Option.some.inj hy
      exact ⟨_, hdiv, rfl⟩
  | rational c =>
    cases Option.some.inj hx
    cases y with
    | interval j => cases hy
    | integer n =>
      cases Option.some.inj hy
      exact ⟨_, hdiv, rfl⟩
    | rational e =>
      cases Option.some.inj hy
      exact ⟨_, hdiv, rfl⟩

end Number

/-- **The simplest kind has the same value.** -/
theorem Dialect.toInterval_simplify (d : Dialect) (v : Value) :
    (d.simplify v).number.toInterval = v.number.toInterval := by
  rw [simplify]
  split_ifs
  · rw [Value.demote]
    split_ifs
    · rfl
    · exact Number.toInterval_simplest v.number
  · rfl

end RatCalc

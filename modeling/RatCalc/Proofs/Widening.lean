import RatCalc.Proofs.IntervalPowers
import RatCalc.Proofs.Takes

/-!
# Wider operands give wider results

* `Interval.add_mono` to `Interval.productPow_mono`: the operations of intervals.
* `Number.toInterval_pow`, `Number.toInterval_factorial`, `Dialect.toInterval_negate`: the
  operations of numbers as those of their intervals.
* `Expr.Widens`: an expression with wider literals.
* **`Expr.Widens.eval`**: with every number an interval it has a wider value.
-/

namespace RatCalc

namespace Interval

variable {i i' j j' r r' : Interval} {a b : Rat} {k : Int}

/-! ## Intervals -/

theorem point_subset_iff : point a ⊆ j ↔ a ∈ j :=
  ⟨fun h => h (point a).low_mem, fun h => subset_of_ends h h⟩

theorem mem_point : b ∈ point a ↔ b = a :=
  ⟨fun h => le_antisymm h.2 h.1, fun h => ⟨h.ge, h.le⟩⟩

theorem eq_of_subset_point (h : i ⊆ point a) : i = point a :=
  subset_antisymm h (point_subset_iff.2 (mem_point.1 (h i.low_mem) ▸ i.low_mem))

theorem eq_of_point_subset (h : point a ⊆ point b) : a = b := mem_point.1 (point_subset_iff.1 h)

theorem toSet_subset (h : i ⊆ i') : i.toSet ⊆ i'.toSet := fun _ ha => h ha

theorem add_mono (hi : i ⊆ i') (hj : j ⊆ j') : i.add j ⊆ i'.add j' :=
  (isHull_add i j).mono (isHull_add i' j') (Set.image2_subset (toSet_subset hi) (toSet_subset hj))

theorem sub_mono (hi : i ⊆ i') (hj : j ⊆ j') : i.sub j ⊆ i'.sub j' :=
  (isHull_sub i j).mono (isHull_sub i' j') (Set.image2_subset (toSet_subset hi) (toSet_subset hj))

theorem mul_mono (hi : i ⊆ i') (hj : j ⊆ j') : i.mul j ⊆ i'.mul j' :=
  (isHull_mul i j).mono (isHull_mul i' j') (Set.image2_subset (toSet_subset hi) (toSet_subset hj))

theorem shift_mono (base : Nat) (k : Int) (hi : i ⊆ i') : i.shift base k ⊆ i'.shift base k :=
  (isHull_shift base i k).mono (isHull_shift base i' k) (Set.image_mono (toSet_subset hi))

theorem zero_not_mem_of_div (h : i.div j = .ok r) : (0 : Rat) ∉ j := fun h0 => by
  obtain ⟨f, hf⟩ := div_error_iff.2 h0
  rw [hf] at h
  cases h

theorem div_mono (hi : i ⊆ i') (hj : j ⊆ j') (h : i.div j = .ok r) (h' : i'.div j' = .ok r') :
    r ⊆ r' := by
  have h0 := zero_not_mem_of_div h
  have h0' := zero_not_mem_of_div h'
  rw [div_eq h0] at h
  rw [div_eq h0'] at h'
  cases h
  cases h'
  exact (isHull_div h0 i).mono (isHull_div h0' i')
    (Set.image2_subset (toSet_subset hi) (toSet_subset hj))

theorem pow_mono (hi : i ⊆ i') (h : i.pow k = .ok r) (h' : i'.pow k = .ok r') : r ⊆ r' :=
  (isHull_pow h).mono (isHull_pow h') (Set.image_mono (toSet_subset hi))

theorem isHull_productPow (h : i.productPow k = .ok r) :
    IsHull r (products (i.factors k) k.natAbs) := by
  have hk : k ≠ 0 := fun hk => by
    rw [productPow, if_pos hk] at h
    cases h
  have hzero : k < 0 → (0 : Rat) ∉ i := fun hneg h0 => by
    obtain ⟨f, hf⟩ := reciprocal_error_iff.2 h0
    rw [productPow, if_neg hk, if_pos hneg, hf] at h
    cases h
  rw [productPow_eq hk hzero] at h
  cases h
  rw [← toSet_powerBase hzero]
  exact isHull_mulTimes_self (Int.natAbs_ne_zero.2 hk) _

theorem products_mono {s t : Set Rat} (h : s ⊆ t) (n : Nat) : products s n ⊆ products t n := by
  rintro x ⟨l, hl, hs, hx⟩
  exact ⟨l, hl, fun a ha => h (hs a ha), hx⟩

theorem factors_mono (k : Int) (hi : i ⊆ i') : i.factors k ⊆ i'.factors k := by
  rw [factors, factors]
  split_ifs
  · exact Set.image_mono (toSet_subset hi)
  · exact toSet_subset hi

theorem productPow_mono (hi : i ⊆ i') (h : i.productPow k = .ok r)
    (h' : i'.productPow k = .ok r') : r ⊆ r' :=
  (isHull_productPow h).mono (isHull_productPow h') (products_mono (factors_mono k hi) _)

/-- The power of the interval of one number. -/
theorem point_pow (h0 : k = 0 → a ≠ 0) (hneg : k < 0 → a ≠ 0) :
    (point a).pow k = .ok (point (a ^ k)) := by
  have hdef : (∃ r, (point a).pow k = .ok r) := by
    refine exists_pow_iff.2 ⟨fun hk h => h0 hk h.1, fun hk h => hneg hk (mem_point.1 h).symm⟩
  obtain ⟨r, hr⟩ := hdef
  have hull := isHull_pow hr
  have hsub : r ⊆ point (a ^ k) := hull.subset fun x hx => by
    obtain ⟨b, hb, rfl⟩ := hx
    rw [mem_point.1 hb]
    exact (point (a ^ k)).low_mem
  rw [hr, eq_of_subset_point hsub]

end Interval

open RatCalc.Interval

namespace Number

variable {x x' y y' z z' : Number} {k : Int}

/-! ## Numbers -/

/-- The value of one number lies in that of another. -/
def Within (x y : Number) : Prop := x.toInterval ⊆ y.toInterval

theorem Within.add (hx : x.Within x') (hy : y.Within y') : (x.add y).Within (x'.add y') := by
  rw [Within, toInterval_add, toInterval_add]
  exact add_mono hx hy

theorem Within.sub (hx : x.Within x') (hy : y.Within y') : (x.sub y).Within (x'.sub y') := by
  rw [Within, toInterval_sub, toInterval_sub]
  exact sub_mono hx hy

theorem Within.mul (hx : x.Within x') (hy : y.Within y') : (x.mul y).Within (x'.mul y') := by
  rw [Within, toInterval_mul, toInterval_mul]
  exact mul_mono hx hy

theorem toInterval_of_div (h : x.div y = .ok z) :
    x.toInterval.div y.toInterval = .ok z.toInterval := by
  rw [← toInterval_div, h]
  rfl

theorem Within.div (hx : x.Within x') (hy : y.Within y') (h : x.div y = .ok z)
    (h' : x'.div y' = .ok z') : z.Within z' :=
  div_mono hx hy (toInterval_of_div h) (toInterval_of_div h')

theorem toInterval_shift (x : Number) (k : Int) :
    (x.shift k).toInterval = x.toInterval.shift 10 k := by
  cases x with
  | integer n =>
    refine Eq.trans ?_ (hull_refl _).symm
    rw [shift]
    split_ifs with hk
    · have hpow : ((n * Int.pow 10 k.natAbs : Int) : Rat) = Ratio.shift 10 n k := by
        rw [Ratio.shift, Int.cast_mul, show k = (k.natAbs : Int) by omega, zpow_natCast]
        exact congrArg _ (Int.cast_pow 10 k.natAbs)
      exact congrArg point hpow
    · rfl
  | rational a => exact (hull_refl _).symm
  | interval i => rfl

theorem toInterval_powInteger {n : Int} (h : powInteger n k = .ok z) :
    (point n).pow k = .ok z.toInterval := by
  rw [powInteger] at h
  split_ifs at h with hk hn hneg hn
  · cases h
    have h0 : (n : Rat) ≠ 0 := Int.cast_ne_zero.2 hn
    rw [point_pow (fun _ => h0) fun _ => h0, hk, zpow_zero, toInterval, Int.cast_one]
  · cases h
    have h0 : (n : Rat) ≠ 0 := Int.cast_ne_zero.2 hn
    have hval : Rat.divInt 1 (Int.pow n k.natAbs) = (n : Rat) ^ k := by
      have hpow : ((Int.pow n k.natAbs : Int) : Rat) = (n : Rat) ^ k.natAbs := Int.cast_pow n _
      rw [Rat.divInt_eq_div, Int.cast_one, hpow, zpow_eq_pow_natAbs, if_pos hneg, inv_pow, one_div]
    rw [point_pow (fun _ => h0) fun _ => h0, toInterval, hval]
  · cases h
    have hval : ((Int.pow n k.natAbs : Int) : Rat) = (n : Rat) ^ k := by
      rw [zpow_eq_pow_natAbs, if_neg hneg]
      exact Int.cast_pow n _
    rw [point_pow (fun h0 => absurd h0 hk) fun h0 => absurd h0 hneg, toInterval, hval]

/-- A power is that of the interval. -/
theorem toInterval_pow (h : x.pow k = .ok z) : x.toInterval.pow k = .ok z.toInterval := by
  cases x with
  | integer n => exact toInterval_powInteger h
  | rational a =>
    rw [pow, Ratio.pow] at h
    split_ifs at h with h0 hneg
    · cases h
    · cases h
    · cases h
      exact point_pow (fun hk ha => h0 ⟨ha, hk⟩) fun hk ha => hneg ⟨ha, hk⟩
  | interval i =>
    rw [pow] at h
    rw [toInterval]
    cases hi : i.pow k with
    | error f =>
      rw [hi] at h
      cases h
    | ok r =>
      rw [hi] at h
      cases h
      rfl

theorem Within.pow (hx : x.Within x') (h : x.pow k = .ok z) (h' : x'.pow k = .ok z') :
    z.Within z' :=
  pow_mono hx (toInterval_pow h) (toInterval_pow h')

theorem toInterval_productPow (h : x.productPow k = .ok z) :
    x.toInterval.productPow k = .ok z.toInterval := by
  rw [productPow] at h
  cases hi : x.toInterval.productPow k with
  | error f =>
    rw [hi] at h
    cases h
  | ok r =>
    rw [hi] at h
    cases h
    rfl

theorem Within.productPow (hx : x.Within x') (h : x.productPow k = .ok z)
    (h' : x'.productPow k = .ok z') : z.Within z' :=
  productPow_mono hx (toInterval_productPow h) (toInterval_productPow h')

theorem eq_point_of_isPoint {i : Interval} (h : i.isPoint = true) : i = point i.low := by
  obtain ⟨low, high, hle⟩ := i
  cases beq_iff_eq.1 h
  rfl

theorem coe_num {a : Rat} (h : a.den = 1) : ((a.num : Int) : Rat) = a :=
  Rat.coe_int_num_of_den_eq_one h

theorem exists_of_map_eq_ok {α β : Type} {e : Except Failure α} {f : α → β} {b : β}
    (h : e.map f = .ok b) : ∃ a, e = .ok a ∧ f a = b := by
  cases e with
  | error g => cases h
  | ok a => exact ⟨a, rfl, Except.ok.inj h⟩

/-- A factorial is that of the one number of the interval. -/
theorem toInterval_factorial {double : Bool} (h : x.factorial double = .ok z) :
    ∃ n m : Int, x.toInterval = point n ∧ Whole.factorial double n = .ok m ∧
      z.toInterval = point m := by
  cases x with
  | integer n =>
    obtain ⟨m, hm, rfl⟩ := exists_of_map_eq_ok h
    exact ⟨n, m, rfl, hm, rfl⟩
  | rational a =>
    rw [factorial] at h
    split_ifs at h with ha
    obtain ⟨m, hm, rfl⟩ := exists_of_map_eq_ok h
    exact ⟨a.num, m, congrArg point (coe_num ha).symm, hm, rfl⟩
  | interval i =>
    rw [factorial] at h
    split_ifs at h with hi ha
    obtain ⟨b, hb, rfl⟩ := exists_of_map_eq_ok h
    obtain ⟨m, hm, hmb⟩ := bind_eq_ok.1 hb
    cases hmb
    refine ⟨i.low.num, m, ?_, hm, rfl⟩
    rw [coe_num ha]
    exact eq_point_of_isPoint hi

theorem Within.factorial {double : Bool} (hx : x.Within x') (h : x.factorial double = .ok z)
    (h' : x'.factorial double = .ok z') : z.Within z' := by
  obtain ⟨n, m, hn, hm, hz⟩ := toInterval_factorial h
  obtain ⟨n', m', hn', hm', hz'⟩ := toInterval_factorial h'
  rw [Within, hn, hn'] at hx
  cases Int.cast_injective (eq_of_point_subset hx)
  cases hm.symm.trans hm'
  rw [Within, hz, hz']
  exact subset_refl _

theorem toInterval_of_wholeExponent? (h : x.wholeExponent? = some k) : x.toInterval = point k := by
  cases x with
  | integer n =>
    cases h
    rfl
  | rational a =>
    rw [wholeExponent?] at h
    split_ifs at h with ha
    cases h
    exact congrArg point (coe_num ha).symm
  | interval i =>
    rw [wholeExponent?] at h
    split_ifs at h with hi
    cases h
    rw [Bool.and_eq_true, beq_iff_eq] at hi
    rw [coe_num hi.2]
    exact eq_point_of_isPoint hi.1

/-- An exponent that lies in another is the same one. -/
theorem Within.wholeExponent {k' : Int} (hx : x.Within x') (h : x.wholeExponent? = some k)
    (h' : x'.wholeExponent? = some k') : k = k' := by
  rw [Within, toInterval_of_wholeExponent? h, toInterval_of_wholeExponent? h'] at hx
  exact Int.cast_injective (eq_of_point_subset hx)

end Number

namespace Dialect

/-- The dialect with exact values, or with every number an interval. -/
def mode (d : Dialect) (exact : Bool) : Dialect := { d with exact := exact }

variable (d : Dialect) {x x' : Number}

theorem scale_within (k : Int) (hx : x.Within x') : (d.scale x k).Within (d.scale x' k) := by
  rw [scale, scale]
  split
  · exact hx.mul (Interval.subset_refl _)
  · rw [Number.Within, Number.toInterval_shift, Number.toInterval_shift]
    exact shift_mono 10 k hx

/-- Negation is multiplication by minus one. -/
theorem toInterval_negate (v : Value) :
    (d.negate v).number.toInterval = (point (-1)).mul v.number.toInterval := by
  have hpoint : ∀ a : Rat, point (-a) = (point (-1)).mul (point a) := fun a => by
    rw [point_mul, neg_one_mul]
  rw [negate]
  split
  · rename_i n _ hn
    rw [hn, Number.toInterval, Number.toInterval, Int.cast_neg, hpoint]
  · rename_i a _ ha
    rw [ha, Number.toInterval, Number.toInterval, hpoint]
  · rw [Value.plain, Number.toInterval_mul, Number.toInterval]

end Dialect

/-! ## Expressions -/

namespace Expr

/-- The second expression is made as the first one is, of literals that are at least as wide. -/
inductive Widens : Expr → Expr → Prop where
  | literal {v w : Value} : v.number.Within w.number → Widens (.literal v) (.literal w)
  | add {a a' b b'} : Widens a a' → Widens b b' → Widens (.add a b) (.add a' b')
  | sub {a a' b b'} : Widens a a' → Widens b b' → Widens (.sub a b) (.sub a' b')
  | mul {a a' b b'} : Widens a a' → Widens b b' → Widens (.mul a b) (.mul a' b')
  | div {a a' b b'} : Widens a a' → Widens b b' → Widens (.div a b) (.div a' b')
  | scaleBy {a a' b b'} : Widens a a' → Widens b b' → Widens (.scaleBy a b) (.scaleBy a' b')
  | scale {a a'} (k : Int) : Widens a a' → Widens (.scale a k) (.scale a' k)
  | neg {a a'} : Widens a a' → Widens (.neg a) (.neg a')
  | factorial {a a'} (double : Bool) : Widens a a' →
      Widens (.factorial double a) (.factorial double a')
  | pow {a a'} (k : Int) : Widens a a' → Widens (.pow a k) (.pow a' k)
  | productPow {a a'} (k : Int) : Widens a a' → Widens (.productPow a k) (.productPow a' k)
  | simplified {a a'} : Widens a a' → Widens (.simplified a) (.simplified a')

/-- What an operation on the values of two expressions comes from. -/
theorem eval_operands {α : Type} {x y : Except Failure α} {f : α → α → Except Failure Value}
    {v : Value} (h : (do let a ← x; let b ← y; f a b) = .ok v) :
    ∃ a b, x = .ok a ∧ y = .ok b ∧ f a b = .ok v := by
  obtain ⟨a, ha, h⟩ := bind_eq_ok.1 h
  obtain ⟨b, hb, h⟩ := bind_eq_ok.1 h
  exact ⟨a, b, ha, hb, h⟩

variable {d : Dialect}

/-- **With every number an interval, wider literals have a wider value.** -/
theorem Widens.eval {e e' : Expr} (h : Widens e e') {v w : Value}
    (hv : e.eval (d.mode true) = .ok v) (hw : e'.eval (d.mode false) = .ok w) :
    v.number.Within w.number := by
  induction h generalizing v w with
  | literal hvw =>
    cases hv
    cases hw
    exact hvw
  | add _ _ iha ihb =>
    obtain ⟨x, y, hx, hy, hv⟩ := eval_operands hv
    obtain ⟨x', y', hx', hy', hw⟩ := eval_operands hw
    cases hv
    cases hw
    exact (iha hx hx').add (ihb hy hy')
  | sub _ _ iha ihb =>
    obtain ⟨x, y, hx, hy, hv⟩ := eval_operands hv
    obtain ⟨x', y', hx', hy', hw⟩ := eval_operands hw
    cases hv
    cases hw
    exact (iha hx hx').sub (ihb hy hy')
  | mul _ _ iha ihb =>
    obtain ⟨x, y, hx, hy, hv⟩ := eval_operands hv
    obtain ⟨x', y', hx', hy', hw⟩ := eval_operands hw
    cases hv
    cases hw
    exact (iha hx hx').mul (ihb hy hy')
  | div _ _ iha ihb =>
    obtain ⟨x, y, hx, hy, hv⟩ := eval_operands hv
    obtain ⟨x', y', hx', hy', hw⟩ := eval_operands hw
    obtain ⟨z, hz, hv⟩ := bind_eq_ok.1 hv
    obtain ⟨z', hz', hw⟩ := bind_eq_ok.1 hw
    cases hv
    cases hw
    exact (iha hx hx').div (ihb hy hy') hz hz'
  | scaleBy _ _ iha ihb =>
    obtain ⟨x, y, hx, hy, hv⟩ := eval_operands hv
    obtain ⟨x', y', hx', hy', hw⟩ := eval_operands hw
    split at hv
    · rename_i k hk
      split at hw
      · rename_i k' hk'
        cases hv
        cases hw
        cases (ihb hy hy').wholeExponent hk hk'
        exact d.scale_within k (iha hx hx')
      · cases hw
    · cases hv
  | scale k _ ih =>
    obtain ⟨x, hx, hv⟩ := bind_eq_ok.1 hv
    obtain ⟨x', hx', hw⟩ := bind_eq_ok.1 hw
    cases hv
    cases hw
    exact d.scale_within k (ih hx hx')
  | neg _ ih =>
    obtain ⟨x, hx, hv⟩ := bind_eq_ok.1 hv
    obtain ⟨x', hx', hw⟩ := bind_eq_ok.1 hw
    cases hv
    cases hw
    rw [Number.Within, Dialect.toInterval_negate, Dialect.toInterval_negate]
    exact mul_mono (Interval.subset_refl _) (ih hx hx')
  | factorial double _ ih =>
    obtain ⟨x, hx, hv⟩ := bind_eq_ok.1 hv
    obtain ⟨x', hx', hw⟩ := bind_eq_ok.1 hw
    obtain ⟨z, hz, hv⟩ := bind_eq_ok.1 hv
    obtain ⟨z', hz', hw⟩ := bind_eq_ok.1 hw
    cases hv
    cases hw
    exact (ih hx hx').factorial hz hz'
  | pow k _ ih =>
    obtain ⟨x, hx, hv⟩ := bind_eq_ok.1 hv
    obtain ⟨x', hx', hw⟩ := bind_eq_ok.1 hw
    obtain ⟨z, hz, hv⟩ := bind_eq_ok.1 hv
    obtain ⟨z', hz', hw⟩ := bind_eq_ok.1 hw
    cases hv
    cases hw
    exact (ih hx hx').pow hz hz'
  | productPow k _ ih =>
    obtain ⟨x, hx, hv⟩ := bind_eq_ok.1 hv
    obtain ⟨x', hx', hw⟩ := bind_eq_ok.1 hw
    obtain ⟨z, hz, hv⟩ := bind_eq_ok.1 hv
    obtain ⟨z', hz', hw⟩ := bind_eq_ok.1 hw
    cases hv
    cases hw
    exact (ih hx hx').productPow hz hz'
  | simplified _ ih =>
    obtain ⟨x, hx, hv⟩ := bind_eq_ok.1 hv
    obtain ⟨x', hx', hw⟩ := bind_eq_ok.1 hw
    cases hv
    cases hw
    rw [Number.Within, Dialect.toInterval_simplify, Dialect.toInterval_simplify]
    exact ih hx hx'

end Expr

end RatCalc

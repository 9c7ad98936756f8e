import RatCalc.Proofs.Levels

/-!
# Exact arithmetic of rational numbers

A rational number is kept as a numerator and a positive denominator without common divisor. The
operations are formulas on these two integers, brought to lowest terms.

* `Ratio.lowest`: lowest terms; `Ratio.parts_divInt`, `Ratio.parts_of_ofInts`: every quotient of
  integers is kept in them.
* **`Ratio.parts_add`** to **`Ratio.parts_zpow`**: the formulas on numerators and denominators.
* `Operand.toRat?`: the value of an integer, a rational number or a plain integer.
* **`Operand.exact_on_rationals`**: arithmetic and order of operands with rational values.
-/

namespace RatCalc

namespace Ratio

variable {a b : Rat} {n d : Int}

/-! ## Lowest terms -/

/-- Numerator and denominator without their common divisor, the sign at the numerator. -/
def lowest (n d : Int) : Int × Int :=
  let signed := if d < 0 then (-n, -d) else (n, d)
  (signed.1 / Int.gcd signed.1 signed.2, signed.2 / Int.gcd signed.1 signed.2)

/-- The numerator and the denominator that are kept. -/
def parts (a : Rat) : Int × Int := (a.num, a.den)

/-- The form in which a rational number is kept. -/
structure InLowestTerms (p : Int × Int) : Prop where
  den_pos : 0 < p.2
  coprime : Int.gcd p.1 p.2 = 1
  zero : p.1 = 0 → p.2 = 1

theorem inLowestTerms_parts (a : Rat) : InLowestTerms (parts a) where
  den_pos := Int.natCast_pos.2 a.den_pos
  coprime := a.reduced
  zero h := by
    rw [parts, Rat.num_eq_zero.1 h]
    rfl

theorem parts_injective : Function.Injective parts := fun _ _ h =>
  Rat.ext (congrArg Prod.fst h) (Int.natCast_inj.1 (congrArg Prod.snd h))

theorem value_parts (a : Rat) : ((parts a).1 : Rat) / (parts a).2 = a := Rat.num_div_den a

/-- **A quotient of integers is kept in lowest terms.** -/
theorem parts_divInt (hd : d ≠ 0) (n : Int) : parts (Rat.divInt n d) = lowest n d := by
  have hnum := Rat.num_divInt n d
  have hden := Rat.den_divInt n d
  rw [if_neg hd] at hden
  have hcast : ((d.natAbs / Int.gcd d n : Nat) : Int) = d.natAbs / (Int.gcd d n : Int) :=
    Int.natCast_ediv _ _
  rw [parts, hnum, hden, hcast, lowest, Int.gcd_comm]
  rcases lt_or_gt_of_ne hd with hneg | hpos
  · rw [if_pos hneg, Int.sign_eq_neg_one_of_neg hneg, neg_one_mul, Int.neg_gcd, Int.gcd_neg,
      Int.ofNat_natAbs_of_nonpos hneg.le]
  · rw [if_neg hpos.le.not_gt, Int.sign_eq_one_of_pos hpos, one_mul, Int.natAbs_of_nonneg hpos.le]

/-- Integers in lowest terms are kept as they are. -/
theorem parts_of_coprime (hd : 0 < d) (h : Int.gcd n d = 1) : parts (Rat.divInt n d) = (n, d) := by
  rw [parts_divInt hd.ne', lowest, if_neg hd.not_gt]
  simp only [h, Nat.cast_one, Int.ediv_one]

/-- A number made of two integers is kept in their lowest terms. -/
theorem parts_of_ofInts (h : ofInts n d = .ok a) : parts a = lowest n d := by
  rw [ofInts] at h
  split_ifs at h with hd
  cases h
  exact parts_divInt hd n

theorem den_ne_zero (a : Rat) : (a.den : Int) ≠ 0 := Int.natCast_ne_zero.2 a.den_nz

theorem dens_ne_zero (a b : Rat) : (a.den * b.den : Int) ≠ 0 :=
  mul_ne_zero (den_ne_zero a) (den_ne_zero b)

/-! ## Formulas on numerators and denominators -/

theorem parts_add (a b : Rat) :
    parts (a + b) = lowest (a.num * b.den + b.num * a.den) (a.den * b.den) := by
  rw [← parts_divInt (dens_ne_zero a b), Rat.add_num_den, mul_comm (a.den : Int) b.num]

theorem parts_neg (a : Rat) : parts (-a) = lowest (-a.num) a.den := by
  rw [← parts_divInt (den_ne_zero a), ← Rat.neg_def]

theorem parts_sub (a b : Rat) :
    parts (a - b) = lowest (a.num * b.den - b.num * a.den) (a.den * b.den) := by
  rw [sub_eq_add_neg, parts_add, Rat.num_neg_eq_neg_num, Rat.neg_den, neg_mul, ← sub_eq_add_neg]

theorem parts_mul (a b : Rat) : parts (a * b) = lowest (a.num * b.num) (a.den * b.den) := by
  rw [← parts_divInt (dens_ne_zero a b), Rat.mul_eq_mkRat, ← Rat.divInt_ofNat]
  rfl

theorem parts_div (a : Rat) (hb : b ≠ 0) :
    parts (a / b) = lowest (a.num * b.den) (a.den * b.num) := by
  rw [← parts_divInt (mul_ne_zero (den_ne_zero a) (Rat.num_ne_zero.2 hb)), Rat.div_def']

theorem abs_eq (a : Rat) : a.abs = |a| := by
  rw [Rat.abs]
  split_ifs with h
  · exact (abs_of_nonneg h).symm
  · exact (abs_of_neg (not_le.1 h)).symm

theorem parts_abs (a : Rat) : parts |a| = lowest |a.num| a.den := by
  rw [← parts_divInt (den_ne_zero a), Rat.abs_def, Int.natCast_natAbs]

theorem parts_inv (ha : a ≠ 0) : parts a⁻¹ = lowest a.den a.num := by
  rw [← parts_divInt (Rat.num_ne_zero.2 ha), ← Rat.inv_def]

theorem divInt_pow (n d : Int) (m : Nat) : Rat.divInt (n ^ m) (d ^ m) = Rat.divInt n d ^ m := by
  rw [Rat.divInt_eq_div, Rat.divInt_eq_div, Int.cast_pow, Int.cast_pow, div_pow]

/-- A negative exponent exchanges numerator and denominator. -/
theorem parts_zpow (k : Int) (h : k < 0 → a ≠ 0) :
    parts (a ^ k) = if k < 0 then lowest (a.den ^ k.natAbs) (a.num ^ k.natAbs)
      else lowest (a.num ^ k.natAbs) (a.den ^ k.natAbs) := by
  rw [Interval.zpow_eq_pow_natAbs]
  split_ifs with hk
  · rw [← parts_divInt (pow_ne_zero _ (Rat.num_ne_zero.2 (h hk))), divInt_pow, ← Rat.inv_def]
  · rw [← parts_divInt (pow_ne_zero _ (den_ne_zero a)), divInt_pow, Rat.num_divInt_den]

/-! ## Order -/

theorem order_eq_cmp (a b : Rat) : order a b = cmp a b := by
  rw [order]
  rcases lt_trichotomy a b with h | h | h
  · rw [if_pos h, (cmp_eq_lt_iff _ _).2 h]
  · rw [if_neg h.not_lt, if_pos h, (cmp_eq_eq_iff _ _).2 h]
  · rw [if_neg h.not_gt, if_neg h.ne', (cmp_eq_gt_iff _ _).2 h]

/-- Numbers are ordered as the cross products of numerators and denominators. -/
theorem cmp_eq_cross (a b : Rat) : cmp a b = cmp (a.num * b.den) (b.num * a.den) := by
  rcases lt_trichotomy a b with h | rfl | h
  · rw [(cmp_eq_lt_iff _ _).2 h, (cmp_eq_lt_iff _ _).2 ((Rat.lt_iff a b).1 h)]
  · rw [cmp_self_eq_eq, cmp_self_eq_eq]
  · rw [(cmp_eq_gt_iff _ _).2 h, (cmp_eq_gt_iff _ _).2 ((Rat.lt_iff b a).1 h)]

/-- What is kept of two numbers: it determines them, and that of a result is a formula on it. -/
structure Kept (a b : Rat) : Prop where
  lowest_terms : InLowestTerms (parts a)
  value : ((parts a).1 : Rat) / (parts a).2 = a
  injective : parts a = parts b ↔ a = b
  add : parts (a + b) = lowest (a.num * b.den + b.num * a.den) (a.den * b.den)
  sub : parts (a - b) = lowest (a.num * b.den - b.num * a.den) (a.den * b.den)
  mul : parts (a * b) = lowest (a.num * b.num) (a.den * b.den)
  div : b ≠ 0 → parts (a / b) = lowest (a.num * b.den) (a.den * b.num)
  neg : parts (-a) = lowest (-a.num) a.den
  abs : parts |a| = lowest |a.num| a.den
  inv : a ≠ 0 → parts a⁻¹ = lowest a.den a.num
  zpow : ∀ k : Int, (k < 0 → a ≠ 0) →
    parts (a ^ k) = if k < 0 then lowest (a.den ^ k.natAbs) (a.num ^ k.natAbs)
      else lowest (a.num ^ k.natAbs) (a.den ^ k.natAbs)
  order : cmp a b = cmp (a.num * b.den) (b.num * a.den)

theorem kept (a b : Rat) : Kept a b where
  lowest_terms := inLowestTerms_parts a
  value := value_parts a
  injective := parts_injective.eq_iff
  add := parts_add a b
  sub := parts_sub a b
  mul := parts_mul a b
  div := parts_div a
  neg := parts_neg a
  abs := parts_abs a
  inv := parts_inv
  zpow := parts_zpow
  order := cmp_eq_cross a b

end Ratio

namespace Number

open RatCalc.Interval

variable {x y z : Number} {a b c : Rat} {k : Int}

/-! ## Numbers with a rational value -/

theorem toRat?_eq_some_iff : z.toRat? = some c ↔ z.level ≤ 1 ∧ z.toInterval = point c := by
  cases z with
  | integer n =>
    rw [toRat?, Option.some_inj]
    exact ⟨fun h => ⟨Nat.zero_le 1, congrArg point h⟩, fun h => congrArg Interval.low h.2⟩
  | rational r =>
    rw [toRat?, Option.some_inj]
    exact ⟨fun h => ⟨Nat.le_refl 1, congrArg point h⟩, fun h => congrArg Interval.low h.2⟩
  | interval i => exact iff_of_false (fun h => by cases h) fun h => absurd h.1 (Nat.lt_irrefl 1)

/-- Below the level of intervals an operation has the value that it has on one number. -/
theorem toRat?_combine {f : Int → Int → Int} {g : Rat → Rat → Rat}
    {h : Interval → Interval → Interval} (hf : ∀ m n : Int, ((f m n : Int) : Rat) = g m n)
    (hg : ∀ a b, h (point a) (point b) = point (g a b)) (hx : x.toRat? = some a)
    (hy : y.toRat? = some b) : (combine f g h x y).toRat? = some (g a b) := by
  rw [toRat?_eq_some_iff] at *
  rw [level_combine, toInterval_combine hf hg, hx.2, hy.2, hg]
  exact ⟨max_le hx.1 hy.1, rfl⟩

theorem toRat?_neg (hx : x.toRat? = some a) : x.neg.toRat? = some (-a) := by
  rw [toRat?_eq_some_iff] at *
  rw [level_neg, toInterval_neg, hx.2]
  exact ⟨hx.1, hull_refl _⟩

theorem level_negative_exponent (hx : x.level ≤ 1) :
    (if k < 0 then max 1 x.level else x.level) ≤ 1 := by
  split_ifs
  · exact max_le le_rfl hx
  · exact hx

theorem toRat?_shift (hx : x.toRat? = some a) : (x.shift k).toRat? = some (a * 10 ^ k) := by
  rw [toRat?_eq_some_iff] at *
  rw [level_shift, toInterval_shift, hx.2]
  exact ⟨level_negative_exponent hx.1, hull_refl _⟩

theorem exists_pow (hx : x.toRat? = some a) (h0 : k = 0 → a ≠ 0) (hneg : k < 0 → a ≠ 0) :
    ∃ z, x.pow k = .ok z ∧ z.toRat? = some (a ^ k) := by
  rw [toRat?_eq_some_iff] at hx
  have hpow : x.toInterval.pow k = .ok (point (a ^ k)) := by rw [hx.2, point_pow h0 hneg]
  obtain ⟨z, hz, hval⟩ := pow_eq_ok_iff.1 hpow
  refine ⟨z, hz, toRat?_eq_some_iff.2 ⟨?_, hval⟩⟩
  rw [level_pow hz]
  exact level_negative_exponent hx.1

/-- Zero has no zeroth power and no powers with a negative exponent. -/
theorem pow_zero_eq_error (hx : x.toRat? = some 0) (hk : k ≤ 0) :
    x.pow k = .error (.power (if k = 0 then .zeroToZero else .zeroToNegative)) := by
  cases x with
  | integer n =>
    cases Int.cast_eq_zero.1 (Option.some.inj hx)
    rw [pow, powInteger, if_pos rfl, if_pos rfl]
    split_ifs with h0 hneg
    · rfl
    · rfl
    · omega
  | rational r =>
    cases Option.some.inj hx
    rw [pow, Ratio.pow]
    by_cases h0 : k = 0
    · rw [if_pos ⟨rfl, h0⟩, if_pos h0]
      rfl
    · rw [if_neg fun h => h0 h.2, if_pos ⟨rfl, lt_of_le_of_ne hk h0⟩, if_neg h0]
      rfl
  | interval i => cases hx

theorem div_zero_eq_error (hx : x.toRat? = some a) (hy : y.toRat? = some 0) :
    x.div y = .error (.division .byZero) := by
  rw [toRat?_eq_some_iff] at *
  have h := toInterval_div x y
  rw [hx.2, hy.2, point_div, Ratio.div, if_pos rfl] at h
  cases hd : x.div y with
  | error f =>
    rw [hd] at h
    cases h
    rfl
  | ok z =>
    rw [hd] at h
    cases h

theorem exists_abs (hx : x.toRat? = some a) : ∃ z, x.abs? = some z ∧ z.toRat? = some |a| := by
  cases x with
  | integer n =>
    cases Option.some.inj hx
    refine ⟨_, rfl, congrArg some ?_⟩
    rw [Int.natCast_natAbs, Int.cast_abs]
  | rational r =>
    cases Option.some.inj hx
    exact ⟨_, rfl, congrArg some (Ratio.abs_eq _)⟩
  | interval i => cases hx

theorem same_eq_true_iff (hx : x.toRat? = some a) (hy : y.toRat? = some b) :
    x.same y = true ↔ a = b := by
  cases x with
  | interval i => cases hx
  | integer m | rational r =>
    cases y with
    | interval j => cases hy
    | integer n | rational s =>
      cases Option.some.inj hx
      cases Option.some.inj hy
      exact beq_iff_eq

end Number

namespace Operand

variable {x y k : Operand} {v : Value} {a b : Rat} {n : Int}

/-! ## Operands with a rational value -/

/-- The value of a plain integer, an integer or a rational number. -/
def toRat? (x : Operand) : Option Rat := x.number?.bind Number.toRat?

theorem exists_number_of_toRat? (h : x.toRat? = some a) :
    ∃ m, x.number? = some m ∧ m.toRat? = some a := Option.bind_eq_some_iff.1 h

/-- How an order decides the comparisons of two numbers. -/
structure Decides (o : Ordering) (a b : Rat) : Prop where
  lt : o = .lt ↔ a < b
  le : o ≠ .gt ↔ a ≤ b
  eq : o = .eq ↔ a = b
  ge : o ≠ .lt ↔ b ≤ a
  gt : o = .gt ↔ b < a

theorem decides_cmp (a b : Rat) : Decides (cmp a b) a b where
  lt := cmp_eq_lt_iff a b
  le := (cmp_eq_gt_iff a b).not.trans not_lt
  eq := cmp_eq_eq_iff a b
  ge := (cmp_eq_lt_iff a b).not.trans not_lt
  gt := cmp_eq_gt_iff a b

/-- The operators on two operands with values `a` and `b`. -/
structure ExactOperators (x y : Operand) (a b : Rat) : Prop where
  add : ∃ z, x.add y = .ok z ∧ z.toRat? = some (a + b)
  sub : ∃ z, x.sub y = .ok z ∧ z.toRat? = some (a - b)
  mul : ∃ z, x.mul y = .ok z ∧ z.toRat? = some (a * b)
  div : b ≠ 0 → ∃ z, x.div y = .ok z ∧ z.toRat? = some (a / b)
  div_zero : b = 0 → x.div y = .error (.division .byZero)
  order : ∃ o, x.order y = .ok o ∧ Decides o a b
  same : x.same y = true ↔ a = b

theorem ne_fraction (hx : x.toRat? = some a) (f : Fraction) : x ≠ fraction f := by
  rintro rfl
  cases hx

theorem order_rationals (hx : x.toRat? = some a) (hy : y.toRat? = some b) :
    x.order y = .ok (cmp a b) := by
  have hfx := ne_fraction hx
  have hfy := ne_fraction hy
  rw [toRat?] at hx hy
  rw [order, hx, hy, ← Ratio.order_eq_cmp]
  · exact fun f _ h _ => hfx f h
  · exact fun f _ _ h _ => hfx f h
  · exact fun _ _ f _ h => hfy f h

theorem same_value_left {m : Number} (v : Value) (hy : y.number? = some m) :
    (value v).same y = v.number.same m := by
  rw [same, hy]
  · rfl
  all_goals exact fun _ _ h => by cases h

theorem same_value_right {m : Number} (v : Value) (hy : y.number? = some m) :
    y.same (value v) = m.same v.number := by
  rw [same, hy]
  · rfl
  all_goals exact fun _ _ _ h => by cases h

theorem toRational_value (keepForm : Bool) (r : Rat) :
    toRational (value ⟨.rational r, keepForm⟩) (whole 1) = .ok r := by
  change Ratio.ofInts r.num (r.den * 1) = .ok r
  rw [mul_one, Ratio.ofInts, if_neg (Ratio.den_ne_zero r), Rat.num_divInt_den]

/-- An integer is also compared with whatever a rational number can be made of. -/
theorem compare_rationals (hv : (value v).toRat? = some a) (hy : y.toRat? = some b) :
    (value v).compare y = .ok (cmp a b) := by
  obtain ⟨x, keepForm⟩ := v
  cases x with
  | rational r => exact order_rationals hv hy
  | interval i => cases hv
  | integer n =>
    cases Option.some.inj hv
    obtain ⟨m, hm, hval⟩ := exists_number_of_toRat? hy
    obtain ⟨k, rfl, rfl⟩ | ⟨w, rfl, rfl⟩ := number?_eq_some hm
    · cases Option.some.inj hval
      exact congrArg Except.ok (Ratio.order_eq_cmp n k)
    · obtain ⟨z, _⟩ := w
      cases z with
      | integer k =>
        cases Option.some.inj hval
        exact congrArg Except.ok (Ratio.order_eq_cmp n k)
      | rational r =>
        cases Option.some.inj hval
        rw [← Ratio.order_eq_cmp]
        change (toRational (value ⟨.rational _, _⟩) (whole 1) >>= fun q => .ok (Ratio.order n q)) = _
        rw [toRational_value]
        rfl
      | interval i => cases hval

/-- The operators on two operands, one of which is in the tower. -/
theorem exactOperators (hx : x.toRat? = some a) (hy : y.toRat? = some b)
    (hsame : ∀ {m n : Number}, x.number? = some m → y.number? = some n → x.same y = m.same n) :
    ExactOperators x y a b := by
  obtain ⟨m, hm, hma⟩ := exists_number_of_toRat? hx
  obtain ⟨n, hn, hnb⟩ := exists_number_of_toRat? hy
  exact {
    add := ⟨_, operator_numbers .add hm hn,
      Number.toRat?_combine Int.cast_add Interval.point_add hma hnb⟩
    sub := ⟨_, operator_numbers .sub hm hn,
      Number.toRat?_combine Int.cast_sub Interval.point_sub hma hnb⟩
    mul := ⟨_, operator_numbers .mul hm hn,
      Number.toRat?_combine Int.cast_mul Interval.point_mul hma hnb⟩
    div := fun hb => by
      obtain ⟨z, hz, hval⟩ := Number.exists_div hma hnb hb
      refine ⟨number z, ?_, hval⟩
      exact (operator_numbers .div hm hn).trans (congrArg (Except.map number) hz)
    div_zero := fun hb => by
      have hz := Number.div_zero_eq_error hma (hb ▸ hnb)
      exact (operator_numbers .div hm hn).trans (congrArg (Except.map number) hz)
    order := ⟨_, order_rationals hx hy, decides_cmp a b⟩
    same := by
      rw [hsame hm hn]
      exact Number.same_eq_true_iff hma hnb }

/-- The operations of one operand of the tower with the value `a`. -/
structure ExactOperations (v : Value) (a : Rat) : Prop where
  neg : ∃ z, (value v).neg = .ok z ∧ z.toRat? = some (-a)
  abs : ∃ z, (value v).abs = .ok z ∧ z.toRat? = some |a|
  reciprocal : a ≠ 0 → Ratio.reciprocal a = .ok (1 / a)
  reciprocal_zero : a = 0 → Ratio.reciprocal a = .error (.division .reciprocalOfZero)
  pow : ∀ k n, k.exponent = .ok n → (a = 0 → 0 < n) →
    ∃ z, (value v).pow k = .ok z ∧ z.toRat? = some (a ^ n)
  pow_zero : ∀ k n, k.exponent = .ok n → a = 0 → n ≤ 0 →
    (value v).pow k = .error (.power (if n = 0 then .zeroToZero else .zeroToNegative))
  shift : ∀ k n, k.exponent = .ok n →
    ∃ z, (value v).shift k = .ok z ∧ z.toRat? = some (a * 10 ^ n)

theorem exactOperations (hv : (value v).toRat? = some a) : ExactOperations v a where
  neg := ⟨_, rfl, Number.toRat?_neg hv⟩
  abs := by
    obtain ⟨z, hz, hval⟩ := Number.exists_abs hv
    refine ⟨number z, ?_, hval⟩
    rw [Operand.abs, hz]
  reciprocal ha := by rw [Ratio.reciprocal, if_neg ha, one_div]
  reciprocal_zero ha := by rw [Ratio.reciprocal, if_pos ha]
  pow k n hk hn := by
    obtain ⟨z, hz, hval⟩ := Number.exists_pow hv (fun h0 ha => (hn ha).ne' h0)
      fun hneg ha => (hn ha).not_gt hneg
    refine ⟨number z, ?_, hval⟩
    exact (pow_value hk).trans (congrArg (Except.map number) hz)
  pow_zero k n hk ha hn := by
    have herr := Number.pow_zero_eq_error (ha ▸ hv) hn
    exact (pow_value hk).trans (congrArg (Except.map number) herr)
  shift k n hk := ⟨_, shift_value hk, Number.toRat?_shift hv⟩

/-- The integers that are exponents: plain ones, those of the tower and whole rational numbers. -/
theorem exponent_of_whole (n : Int) : (whole n).exponent = .ok n ∧ (integer n).exponent = .ok n ∧
    (rational n).exponent = .ok n := by
  refine ⟨rfl, rfl, ?_⟩
  change (if (n : Rat).den = 1 then Except.ok (n : Rat).num else .error (.power .exponentKind)) = _
  rw [if_pos (Rat.den_intCast n), Rat.num_intCast]

/-- A rational number made of two integers. -/
theorem exists_toRational (n : Int) {d : Int} (hd : d ≠ 0) :
    ∃ c, toRational (whole n) (whole d) = .ok c ∧ Ratio.parts c = Ratio.lowest n d ∧
      c = (n : Rat) / d := by
  refine ⟨Rat.divInt n d, ?_, Ratio.parts_divInt hd n, Rat.divInt_eq_div n d⟩
  change Ratio.ofInts n d = _
  rw [Ratio.ofInts, if_neg hd]

theorem toRational_zero (n : Int) :
    toRational (whole n) (whole 0) = .error (.division .zeroDenominator) := rfl

/-- **Arithmetic of rational values is exact.** The operands are integers, rational numbers or plain
integers, in either order, one of them in the tower. The operations are those of the rational
numbers and fail only where these are undefined, equality and order are theirs, and what is kept of
every number is in lowest terms. -/
theorem exact_on_rationals {v : Value} {y : Operand} {a b : Rat} (hv : (value v).toRat? = some a)
    (hy : y.toRat? = some b) :
    ExactOperators (value v) y a b ∧ ExactOperators y (value v) b a ∧
      (∃ o, (value v).compare y = .ok o ∧ Decides o a b) ∧ ExactOperations v a ∧
      (∀ n : Int, (whole n).exponent = .ok n ∧ (integer n).exponent = .ok n ∧
        (rational n).exponent = .ok n) ∧
      Ratio.Kept a b ∧
      (∀ n d : Int, d ≠ 0 → ∃ c, toRational (whole n) (whole d) = .ok c ∧
        Ratio.parts c = Ratio.lowest n d ∧ c = (n : Rat) / d) ∧
      ∀ n : Int, toRational (whole n) (whole 0) = .error (.division .zeroDenominator) := by
  refine ⟨exactOperators hv hy ?_, exactOperators hy hv ?_,
    ⟨_, compare_rationals hv hy, decides_cmp a b⟩, exactOperations hv, exponent_of_whole,
    Ratio.kept a b, fun n d => exists_toRational n, toRational_zero⟩
  · intro m n hm hn
    cases hm
    exact same_value_left v hn
  · intro m n hm hn
    cases hn
    exact same_value_right v hm

/-- Two thirds by minus four: the sign of the divisor moves to the numerator. -/
theorem two_thirds_by_minus_four :
    (rational (2 / 3)).toRat? = some (2 / 3) ∧ (whole (-4)).toRat? = some (-4) ∧
      (∃ z, (rational (2 / 3)).div (whole (-4)) = .ok z ∧ z.toRat? = some (-1 / 6)) ∧
      (∃ z, (whole (-4)).div (rational (2 / 3)) = .ok z ∧ z.toRat? = some (-6)) ∧
      Ratio.lowest (2 * 1) (3 * (-4)) = (-1, 6) := by
  have hv : (rational (2 / 3)).toRat? = some (2 / 3) := rfl
  have hy : (whole (-4)).toRat? = some (-4) := rfl
  obtain ⟨hleft, hright, -⟩ := exact_on_rationals (v := .plain (.rational (2 / 3))) hv hy
  have hquotient : (2 / 3 / -4 : Rat) = -1 / 6 := by with_unfolding_all decide
  have hinverse : (-4 / (2 / 3) : Rat) = -6 := by with_unfolding_all decide
  refine ⟨hv, hy, ?_, ?_, by decide⟩
  · rw [← hquotient]
    exact hleft.div (by decide)
  · rw [← hinverse]
    exact hright.div (by with_unfolding_all decide)

end Operand

end RatCalc

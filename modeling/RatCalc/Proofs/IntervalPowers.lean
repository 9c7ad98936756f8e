import Mathlib.Algebra.BigOperators.Ring.List
import Mathlib.Algebra.Order.Ring.Abs
import Mathlib.Tactic.Ring
import RatCalc.Proofs.IntervalArithmetic

/-!
# The two powers of an interval

* `isHull_natPow`, `isHull_pow`: the power of an interval is the hull of the powers of its numbers.
* `products`: the products of as many numbers of a set; `isHull_mulTimes`: multiplying an interval
  by itself gives their hull.
* `mulTimes_eq_natPow`: on one side of zero the products reach no further than the powers.
* **`powers_exact`**: both powers, when they are defined, and how they lie to each other.
-/

namespace RatCalc

namespace Interval

variable {i j r : Interval} {a b x : Rat} {n : Nat} {k : Int}

/-! ## Powers with a positive exponent -/

theorem hull_comm (a b : Rat) : hull a b = hull b a := by
  rcases le_total a b with h | h
  · by_cases h' : b ≤ a
    · rw [le_antisymm h h']
    · rw [hull_of_le h, hull, dif_neg h']
  · by_cases h' : a ≤ b
    · rw [le_antisymm h h']
    · rw [hull_of_le h, hull, dif_neg h']

theorem hull_subset (ha : a ∈ r) (hb : b ∈ r) : hull a b ⊆ r := by
  rw [hull]
  split_ifs
  · exact subset_of_ends ha hb
  · exact subset_of_ends hb ha

/-- An even power is at most that of one of the endpoints. -/
theorem even_pow_le (hn : Even n) (ha : a ∈ i) : a ^ n ≤ max (i.low ^ n) (i.high ^ n) := by
  rcases le_total 0 a with h | h
  · exact (pow_le_pow_left₀ h ha.2 n).trans (le_max_right _ _)
  · have hle := pow_le_pow_left₀ (neg_nonneg.2 h) (neg_le_neg ha.1) n
    rw [hn.neg_pow, hn.neg_pow] at hle
    exact hle.trans (le_max_left _ _)

theorem isHull_even (hn : Even n) (h0 : n ≠ 0) (h : (0 : Rat) ∈ i) :
    IsHull (hull 0 (max (i.low ^ n) (i.high ^ n))) (Set.image (fun a => a ^ n) i.toSet) := by
  rw [hull_of_le (le_max_of_le_left (hn.pow_nonneg i.low))]
  refine ⟨?_, ⟨0, h, zero_pow h0⟩, ?_⟩
  · rintro _ ⟨a, ha, rfl⟩
    exact ⟨hn.pow_nonneg a, even_pow_le hn ha⟩
  · rcases max_choice (i.low ^ n) (i.high ^ n) with h | h
    · exact ⟨i.low, i.low_mem, h.symm⟩
    · exact ⟨i.high, i.high_mem, h.symm⟩

/-- On one side of zero an even power keeps the order or turns it around. -/
theorem isHull_even_of_not_mem (hn : Even n) (h : (0 : Rat) ∉ i) :
    IsHull (hull (i.low ^ n) (i.high ^ n)) (Set.image (fun a => a ^ n) i.toSet) := by
  rcases pos_or_neg h with hpos | hneg
  · exact isHull_of_monotone (f := fun a => a ^ n) fun a ha _ _ hab =>
      pow_le_pow_left₀ (hpos.le.trans ha.1) hab n
  · rw [hull_comm]
    refine isHull_of_antitone (f := fun a => a ^ n) fun a _ b hb hab => ?_
    have hle := pow_le_pow_left₀ (neg_nonneg.2 (hb.2.trans hneg.le)) (neg_le_neg hab) n
    rwa [hn.neg_pow, hn.neg_pow] at hle

/-- **A positive power of an interval** is the hull of the powers of its numbers. -/
theorem isHull_natPow (h0 : n ≠ 0) (i : Interval) :
    IsHull (i.natPow n) (Set.image (fun a => a ^ n) i.toSet) := by
  rw [natPow]
  split_ifs with hodd hzero
  · exact isHull_of_monotone (f := fun a => a ^ n) fun _ _ _ _ hab =>
      (Nat.odd_iff.2 hodd).strictMono_pow.monotone hab
  · rw [greater_eq_max]
    exact isHull_even (Nat.even_iff.2 (by omega)) h0 (containsZero_iff.1 hzero)
  · exact isHull_even_of_not_mem (Nat.even_iff.2 (by omega)) (mt containsZero_iff.2 hzero)

/-! ## Reciprocals -/

theorem inverse_eq (h : (0 : Rat) ∉ i) :
    i.inverse = ⟨i.high⁻¹, i.low⁻¹, inv_le_inv_of_mem h i.low_mem i.high_mem i.low_le_high⟩ :=
  hull_of_le _

theorem zero_not_mem_inverse (h : (0 : Rat) ∉ i) : (0 : Rat) ∉ i.inverse := by
  rw [inverse_eq h, mem_def, not_and_or, not_le, not_le]
  rcases pos_or_neg h with hpos | hneg
  · exact .inl (inv_pos.2 (hpos.trans_le i.low_le_high))
  · exact .inr (inv_lt_zero.2 (i.low_le_high.trans_lt hneg))

theorem inverse_inverse (h : (0 : Rat) ∉ i) : i.inverse.inverse = i := by
  rw [inverse_eq (zero_not_mem_inverse h)]
  simp only [inverse_eq h, inv_inv]

theorem toSet_inverse (h : (0 : Rat) ∉ i) :
    i.inverse.toSet = Set.image (fun a => a⁻¹) i.toSet := by
  refine Set.Subset.antisymm (fun a ha => ?_) (isHull_inverse h).contains
  have hmem := (isHull_inverse (zero_not_mem_inverse h)).contains a⁻¹ ⟨a, ha, rfl⟩
  rw [inverse_inverse h] at hmem
  exact ⟨a⁻¹, hmem, inv_inv a⟩

/-! ## Powers -/

/-- The interval whose numbers are multiplied: for a negative exponent that of the reciprocals. -/
def powerBase (i : Interval) (k : Int) : Interval := if k < 0 then i.inverse else i

/-- The numbers that are multiplied: for a negative exponent the reciprocals. -/
def factors (i : Interval) (k : Int) : Set Rat :=
  if k < 0 then Set.image (fun a => a⁻¹) i.toSet else i.toSet

theorem toSet_powerBase (h : k < 0 → (0 : Rat) ∉ i) : (i.powerBase k).toSet = i.factors k := by
  rw [powerBase, factors]
  split_ifs with hk
  · exact toSet_inverse (h hk)
  · rfl

theorem pow_eq (hk : k ≠ 0) (h : k < 0 → (0 : Rat) ∉ i) :
    i.pow k = .ok ((i.powerBase k).natPow k.natAbs) := by
  rw [pow, if_neg hk, powerBase]
  split_ifs with hneg hzero
  · exact absurd (containsZero_iff.1 hzero) (h hneg)
  · rfl
  · rfl

theorem productPow_eq (hk : k ≠ 0) (h : k < 0 → (0 : Rat) ∉ i) :
    i.productPow k = .ok (mulTimes (i.powerBase k) (k.natAbs - 1) (i.powerBase k)) := by
  rw [productPow, if_neg hk, powerBase]
  split_ifs with hneg
  · rw [reciprocal_eq (h hneg)]
    rfl
  · rfl

theorem zpow_eq_pow_natAbs (a : Rat) (k : Int) :
    a ^ k = (if k < 0 then a⁻¹ else a) ^ k.natAbs := by
  split_ifs with hk
  · have hk' : k = -(k.natAbs : Int) := by omega
    conv_lhs => rw [hk']
    rw [zpow_neg, zpow_natCast, inv_pow]
  · have hk' : k = (k.natAbs : Int) := by omega
    conv_lhs => rw [hk']
    rw [zpow_natCast]

/-- The powers of the factors are those of the numbers. -/
theorem image_factors (i : Interval) (k : Int) :
    Set.image (fun a => a ^ k.natAbs) (i.factors k) = Set.image (fun a => a ^ k) i.toSet := by
  simp only [zpow_eq_pow_natAbs, factors]
  split_ifs
  · exact Set.image_image _ _ _
  · rfl

/-- When an interval has a power. -/
theorem exists_pow_iff :
    (∃ r, i.pow k = .ok r) ↔
      (k = 0 → ¬ (i.low = 0 ∧ i.high = 0)) ∧ (k < 0 → (0 : Rat) ∉ i) := by
  by_cases hk : k = 0
  · subst hk
    rw [pow, if_pos rfl]
    by_cases hz : i.low = 0 ∧ i.high = 0
    · rw [if_pos hz]
      refine iff_of_false ?_ fun h => h.1 rfl hz
      rintro ⟨r, hr⟩
      cases hr
    · rw [if_neg hz]
      exact iff_of_true ⟨_, rfl⟩ ⟨fun _ => hz, fun h => absurd h (lt_irrefl 0)⟩
  · by_cases h : k < 0 → (0 : Rat) ∉ i
    · exact iff_of_true ⟨_, pow_eq hk h⟩ ⟨fun h0 => absurd h0 hk, h⟩
    · refine iff_of_false ?_ fun h' => h h'.2
      push Not at h
      rintro ⟨r, hr⟩
      rw [pow, if_neg hk, if_pos h.1, if_pos (containsZero_iff.2 h.2)] at hr
      cases hr

/-- **A power of an interval** is the hull of the powers of its numbers. -/
theorem isHull_pow (h : i.pow k = .ok r) : IsHull r (Set.image (fun a => a ^ k) i.toSet) := by
  by_cases hk : k = 0
  · subst hk
    rw [pow, if_pos rfl] at h
    split_ifs at h
    cases h
    refine ⟨?_, ⟨i.low, i.low_mem, zpow_zero _⟩, ⟨i.low, i.low_mem, zpow_zero _⟩⟩
    rintro _ ⟨a, -, rfl⟩
    simp only [zpow_zero]
    exact (point 1).low_mem
  · have hzero := (exists_pow_iff.1 ⟨r, h⟩).2
    rw [pow_eq hk hzero] at h
    cases h
    rw [← image_factors, ← toSet_powerBase hzero]
    exact isHull_natPow (Int.natAbs_ne_zero.2 hk) _

/-! ## Products -/

/-- The products of `n` numbers of a set. -/
def products (s : Set Rat) (n : Nat) : Set Rat :=
  {x | ∃ l : List Rat, l.length = n ∧ (∀ a ∈ l, a ∈ s) ∧ l.prod = x}

theorem products_one (s : Set Rat) : products s 1 = s := by
  ext x
  constructor
  · rintro ⟨l, hl, hs, rfl⟩
    obtain ⟨a, rfl⟩ := List.length_eq_one_iff.1 hl
    rw [List.prod_singleton]
    exact hs a List.mem_cons_self
  · exact fun hx => ⟨[x], rfl, by simpa using hx, List.prod_singleton⟩

theorem products_succ (s : Set Rat) (n : Nat) :
    products s (n + 1) = Set.image2 (fun a b => a * b) (products s n) s := by
  ext x
  constructor
  · rintro ⟨l, hl, hs, rfl⟩
    obtain ⟨b, l, rfl⟩ := List.exists_cons_of_length_eq_add_one hl
    rw [List.prod_cons, mul_comm]
    exact ⟨_, ⟨l, Nat.succ.inj hl, fun a ha => hs a (List.mem_cons_of_mem b ha), rfl⟩, b,
      hs b List.mem_cons_self, rfl⟩
  · rintro ⟨_, ⟨l, rfl, hs, rfl⟩, b, hb, rfl⟩
    refine ⟨b :: l, rfl, List.forall_mem_cons.2 ⟨hb, hs⟩, ?_⟩
    rw [List.prod_cons, mul_comm]

/-- A power of a number is a product of as many numbers. -/
theorem image_pow_subset_products (s : Set Rat) (n : Nat) :
    Set.image (fun a => a ^ n) s ⊆ products s n := by
  rintro _ ⟨a, ha, rfl⟩
  refine ⟨List.replicate n a, List.length_replicate, fun b hb => ?_, List.prod_replicate n a⟩
  rwa [List.eq_of_mem_replicate hb]

/-- **Multiplying by an interval again and again** gives the hull of the products. -/
theorem isHull_mulTimes (h : IsHull i (products j.toSet n)) (m : Nat) :
    IsHull (mulTimes j m i) (products j.toSet (n + m)) := by
  induction m generalizing i n with
  | zero => exact h
  | succ m ih =>
    have hstep : IsHull (i.mul j) (products j.toSet (n + 1)) := by
      rw [products_succ]
      exact h.mul j.isHull_toSet
    rw [mulTimes, Nat.add_comm m 1, ← Nat.add_assoc]
    exact ih hstep

theorem isHull_mulTimes_self (h0 : n ≠ 0) (j : Interval) :
    IsHull (mulTimes j (n - 1) j) (products j.toSet n) := by
  have h := isHull_mulTimes (i := j) (j := j) (n := 1)
    (by rw [products_one]; exact j.isHull_toSet) (n - 1)
  rwa [Nat.add_sub_of_le (Nat.one_le_iff_ne_zero.2 h0)] at h

/-! ## Products on one side of zero -/

/-- A product of numbers between two that are not negative lies between the powers of these. -/
theorem prod_between {low high : Rat} (h0 : 0 ≤ low) {l : List Rat}
    (hl : ∀ a ∈ l, low ≤ a ∧ a ≤ high) :
    low ^ l.length ≤ l.prod ∧ l.prod ≤ high ^ l.length := by
  induction l with
  | nil => exact ⟨(pow_zero low).le, (pow_zero high).ge⟩
  | cons a l ih =>
    obtain ⟨ha, hl⟩ := List.forall_mem_cons.1 hl
    obtain ⟨hlow, hhigh⟩ := ih hl
    have hprod : 0 ≤ l.prod := (pow_nonneg h0 _).trans hlow
    rw [List.prod_cons, List.length_cons, pow_succ', pow_succ']
    exact ⟨mul_le_mul ha.1 hlow (pow_nonneg h0 _) (h0.trans ha.1),
      mul_le_mul ha.2 hhigh hprod (h0.trans (ha.1.trans ha.2))⟩

/-- A product of numbers of an interval on one side of zero lies between the powers of its
endpoints. -/
theorem prod_mem_hull (hside : 0 ≤ j.low ∨ j.high ≤ 0) {l : List Rat} (hl : ∀ a ∈ l, a ∈ j) :
    l.prod ∈ hull (j.low ^ l.length) (j.high ^ l.length) := by
  rcases hside with hpos | hneg
  · have h := prod_between hpos hl
    rw [hull_of_le (h.1.trans h.2)]
    exact h
  · -- the negated numbers are not negative, and their product has the sign of the count
    have hl' : ∀ a ∈ l.map fun a => -a, -j.high ≤ a ∧ a ≤ -j.low := fun a ha => by
      obtain ⟨b, hb, rfl⟩ := List.mem_map.1 ha
      exact ⟨neg_le_neg (hl b hb).2, neg_le_neg (hl b hb).1⟩
    have h := prod_between (neg_nonneg.2 hneg) hl'
    have hprod : (l.map fun a => -a).prod = (-1) ^ l.length * l.prod := List.prod_map_neg l
    rw [hprod, List.length_map, neg_pow j.high, neg_pow j.low] at h
    rcases neg_one_pow_eq_or Rat l.length with hs | hs
    · rw [hs, one_mul, one_mul, one_mul] at h
      rw [hull_comm, hull_of_le (h.1.trans h.2)]
      exact h
    · rw [hs, neg_one_mul, neg_one_mul, neg_one_mul, neg_le_neg_iff, neg_le_neg_iff] at h
      rw [hull_of_le (h.2.trans h.1)]
      exact ⟨h.2, h.1⟩

theorem natPow_subset_mulTimes (h0 : n ≠ 0) (j : Interval) :
    j.natPow n ⊆ mulTimes j (n - 1) j :=
  (isHull_natPow h0 j).mono (isHull_mulTimes_self h0 j) (image_pow_subset_products _ n)

/-- On one side of zero the products reach no further than the powers. -/
theorem mulTimes_eq_natPow (h0 : n ≠ 0) (hside : 0 ≤ j.low ∨ j.high ≤ 0) :
    j.natPow n = mulTimes j (n - 1) j := by
  refine subset_antisymm (natPow_subset_mulTimes h0 j)
    ((isHull_mulTimes_self h0 j).subset fun x hx => ?_)
  obtain ⟨l, rfl, hl, rfl⟩ := hx
  have hpow := (isHull_natPow h0 j).contains
  exact hull_subset (hpow _ ⟨_, j.low_mem, rfl⟩) (hpow _ ⟨_, j.high_mem, rfl⟩)
    (prod_mem_hull hside hl)

theorem powerBase_side (h : k < 0 → (0 : Rat) ∉ i) (hside : 0 ≤ i.low ∨ i.high ≤ 0) :
    0 ≤ (i.powerBase k).low ∨ (i.powerBase k).high ≤ 0 := by
  rw [powerBase]
  split_ifs with hk
  · rw [inverse_eq (h hk)]
    exact hside.imp (fun hl => inv_nonneg.2 (hl.trans i.low_le_high))
      fun hh => inv_nonpos.2 (i.low_le_high.trans hh)
  · exact hside

/-! ## Both powers -/

/-- **The two powers of an interval.** A power is defined unless it is the zeroth one of zero alone
or a negative one of an interval with zero, and is the hull of the powers of the numbers. The
product power is the hull of the products of as many numbers, or of as many reciprocals; it contains
the power, and on one side of zero it is the same. -/
theorem powers_exact (i : Interval) (k : Int) :
    ((∃ r, i.pow k = .ok r) ↔
      (k = 0 → ¬ (i.low = 0 ∧ i.high = 0)) ∧ (k < 0 → (0 : Rat) ∉ i)) ∧
    (∀ r, i.pow k = .ok r → IsHull r (Set.image (fun a => a ^ k) i.toSet)) ∧
    (k ≠ 0 → (k < 0 → (0 : Rat) ∉ i) →
      ∃ r q, i.pow k = .ok r ∧ i.productPow k = .ok q ∧
        IsHull q (products (i.factors k) k.natAbs) ∧ r ⊆ q ∧
        (0 ≤ i.low ∨ i.high ≤ 0 → r = q)) := by
  refine ⟨exists_pow_iff, fun r hr => isHull_pow hr, fun hk h => ?_⟩
  have h0 := Int.natAbs_ne_zero.2 hk
  refine ⟨_, _, pow_eq hk h, productPow_eq hk h, ?_, natPow_subset_mulTimes h0 _, fun hside => ?_⟩
  · rw [← toSet_powerBase h]
    exact isHull_mulTimes_self h0 _
  · exact mulTimes_eq_natPow h0 (powerBase_side h hside)

/-- The square of `[-1, 2]` is `[0, 4]`; products of two of its numbers fill `[-2, 4]`. -/
theorem squares_around_zero :
    (hull (-1) 2).pow 2 = .ok (hull 0 4) ∧ (hull (-1) 2).productPow 2 = .ok (hull (-2) 4) ∧
      IsHull (hull (-2) 4) (products ((hull (-1) 2).factors 2) 2) ∧ hull 0 4 ⊆ hull (-2) 4 := by
  obtain ⟨-, -, hprod⟩ := powers_exact (hull (-1) 2) 2
  obtain ⟨r, q, hr, hq, hhull, hsub, -⟩ := hprod (by decide) fun h => absurd h (by decide)
  have hpow : (hull (-1) 2).pow 2 = .ok (hull 0 4) := by decide
  have hprod : (hull (-1) 2).productPow 2 = .ok (hull (-2) 4) := by with_unfolding_all decide
  cases hr.symm.trans hpow
  cases hq.symm.trans hprod
  exact ⟨hpow, hprod, hhull, hsub⟩

end Interval

end RatCalc

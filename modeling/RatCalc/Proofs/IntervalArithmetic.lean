import Mathlib.Algebra.Order.Field.Basic
import Mathlib.Data.Set.NAry
import Mathlib.Tactic.Linarith
import RatCalc.Proofs.Promotion

/-!
# Interval arithmetic is exact

* `IsHull r s`: the interval `r` contains all of `s`, and both its endpoints are in `s`;
  `IsHull.subset` says that no smaller interval contains `s`.
* `isHull_of_monotone`, `isHull_of_antitone`: an operation that keeps or turns the order.
* **`IsHull.mul`**: the products of two sets, whose extremes are products of extremes.
* **`arithmetic_exact`**: each operation gives the hull of what it makes of the numbers of the
  intervals; division fails by zero alone.
-/

namespace RatCalc

namespace Interval

/-- One interval lies in another if its numbers do. -/
instance : HasSubset Interval := ⟨fun i j => ∀ ⦃a⦄, a ∈ i → a ∈ j⟩

variable {i j r : Interval} {a b x : Rat}

theorem low_mem (i : Interval) : i.low ∈ i := ⟨le_refl _, i.low_le_high⟩

theorem high_mem (i : Interval) : i.high ∈ i := ⟨i.low_le_high, le_refl _⟩

theorem subset_refl (i : Interval) : i ⊆ i := fun _ h => h

theorem subset_of_ends (hl : i.low ∈ j) (hh : i.high ∈ j) : i ⊆ j :=
  fun _ ha => ⟨le_trans hl.1 ha.1, le_trans ha.2 hh.2⟩

theorem subset_iff : i ⊆ j ↔ j.low ≤ i.low ∧ i.high ≤ j.high :=
  ⟨fun h => ⟨(h i.low_mem).1, (h i.high_mem).2⟩,
    fun h _ ha => ⟨le_trans h.1 ha.1, le_trans ha.2 h.2⟩⟩

theorem subset_antisymm (h : i ⊆ j) (h' : j ⊆ i) : i = j := by
  rw [subset_iff] at h h'
  obtain ⟨low, high, _⟩ := i
  obtain ⟨low', high', _⟩ := j
  cases le_antisymm h.1 h'.1
  cases le_antisymm h'.2 h.2
  rfl

/-- The set of the numbers of an interval. -/
def toSet (i : Interval) : Set Rat := {a | a ∈ i}

/-- The interval contains the set and has both its endpoints from it. -/
structure IsHull (r : Interval) (s : Set Rat) : Prop where
  contains : ∀ x ∈ s, x ∈ r
  low_mem : r.low ∈ s
  high_mem : r.high ∈ s

theorem isHull_toSet (i : Interval) : IsHull i i.toSet := ⟨fun _ h => h, i.low_mem, i.high_mem⟩

namespace IsHull

variable {s t : Set Rat}

/-- No smaller interval contains the set. -/
theorem subset (h : IsHull r s) (hs : ∀ x ∈ s, x ∈ i) : r ⊆ i :=
  subset_of_ends (hs _ h.low_mem) (hs _ h.high_mem)

theorem mono (h : IsHull i s) (h' : IsHull j t) (hs : s ⊆ t) : i ⊆ j :=
  h.subset fun x hx => h'.contains x (hs hx)

end IsHull

/-! ## Hulls of a few numbers -/

theorem hull_of_le (h : a ≤ b) : hull a b = ⟨a, b, h⟩ := dif_pos h

theorem lesser_eq_min (a b : Rat) : Ratio.lesser a b = min a b := (min_def a b).symm

theorem greater_eq_max (a b : Rat) : Ratio.greater a b = max a b := (max_def a b).symm

theorem hullOfFour_eq (a b c e : Rat) :
    hullOfFour a b c e = ⟨min (min a b) (min c e), max (max a b) (max c e),
      ((min_le_left _ _).trans (min_le_left a b)).trans
        ((le_max_left a b).trans (le_max_left _ _))⟩ := by
  simp only [hullOfFour, lesser_eq_min, greater_eq_max]
  exact hull_of_le _

theorem mem_hullOfFour {a b c e : Rat} :
    x ∈ hullOfFour a b c e ↔
      ((a ≤ x ∨ b ≤ x) ∨ c ≤ x ∨ e ≤ x) ∧ ((x ≤ a ∨ x ≤ b) ∨ x ≤ c ∨ x ≤ e) := by
  rw [hullOfFour_eq, mem_def]
  simp only [min_le_iff, le_max_iff]

theorem hullOfFour_swap (a b c e : Rat) : hullOfFour a b c e = hullOfFour b a e c := by
  simp only [hullOfFour_eq, min_comm a b, min_comm c e, max_comm a b, max_comm c e]

/-- The endpoints of the hull of four numbers are two of them. -/
theorem hullOfFour_ends {a b c e : Rat} {s : Set Rat} (ha : a ∈ s) (hb : b ∈ s) (hc : c ∈ s)
    (he : e ∈ s) : (hullOfFour a b c e).low ∈ s ∧ (hullOfFour a b c e).high ∈ s := by
  rw [hullOfFour_eq]
  exact ⟨min_rec' (· ∈ s) (min_rec' (· ∈ s) ha hb) (min_rec' (· ∈ s) hc he),
    max_rec' (· ∈ s) (max_rec' (· ∈ s) ha hb) (max_rec' (· ∈ s) hc he)⟩

/-! ## Operations on one interval -/

/-- An operation that keeps the order. -/
theorem isHull_of_monotone {f : Rat → Rat} (hf : ∀ a ∈ i, ∀ b ∈ i, a ≤ b → f a ≤ f b) :
    IsHull (hull (f i.low) (f i.high)) (Set.image f i.toSet) := by
  rw [hull_of_le (hf _ i.low_mem _ i.high_mem i.low_le_high)]
  refine ⟨?_, ⟨_, i.low_mem, rfl⟩, ⟨_, i.high_mem, rfl⟩⟩
  rintro _ ⟨a, ha, rfl⟩
  exact ⟨hf _ i.low_mem _ ha ha.1, hf _ ha _ i.high_mem ha.2⟩

/-- An operation that turns the order around. -/
theorem isHull_of_antitone {f : Rat → Rat} (hf : ∀ a ∈ i, ∀ b ∈ i, a ≤ b → f b ≤ f a) :
    IsHull (hull (f i.high) (f i.low)) (Set.image f i.toSet) := by
  rw [hull_of_le (hf _ i.low_mem _ i.high_mem i.low_le_high)]
  refine ⟨?_, ⟨_, i.high_mem, rfl⟩, ⟨_, i.low_mem, rfl⟩⟩
  rintro _ ⟨a, ha, rfl⟩
  exact ⟨hf _ ha _ i.high_mem ha.2, hf _ i.low_mem _ ha ha.1⟩

theorem isHull_neg (i : Interval) : IsHull i.neg (Set.image (fun a => -a) i.toSet) :=
  isHull_of_antitone (f := fun a => -a) fun _ _ _ _ h => neg_le_neg h

theorem isHull_shift (base : Nat) (i : Interval) (k : Int) :
    IsHull (i.shift base k) (Set.image (fun a => a * (base : Rat) ^ k) i.toSet) :=
  isHull_of_monotone (f := fun a => a * (base : Rat) ^ k) fun _ _ _ _ h =>
    mul_le_mul_of_nonneg_right h (zpow_nonneg (Nat.cast_nonneg base) k)

/-! ## Zero -/

theorem containsZero_iff : i.containsZero = true ↔ (0 : Rat) ∈ i := decide_eq_true_iff

/-- An interval without zero is on one side of it. -/
theorem pos_or_neg (h : (0 : Rat) ∉ i) : 0 < i.low ∨ i.high < 0 := by
  rw [mem_def, not_and_or, not_le, not_le] at h
  exact h

theorem inv_le_inv_of_mem (h : (0 : Rat) ∉ i) (ha : a ∈ i) (hb : b ∈ i) (hab : a ≤ b) :
    b⁻¹ ≤ a⁻¹ := by
  rcases pos_or_neg h with hpos | hneg
  · exact inv_anti₀ (lt_of_lt_of_le hpos ha.1) hab
  · rw [inv_le_inv_of_neg (lt_of_le_of_lt hb.2 hneg) (lt_of_le_of_lt ha.2 hneg)]
    exact hab

/-- The interval of the reciprocals, where there are any. -/
def inverse (i : Interval) : Interval := hull i.high⁻¹ i.low⁻¹

theorem isHull_inverse (h : (0 : Rat) ∉ i) :
    IsHull i.inverse (Set.image (fun a => a⁻¹) i.toSet) :=
  isHull_of_antitone (f := fun a => a⁻¹) fun _ ha _ hb => inv_le_inv_of_mem h ha hb

theorem reciprocal_eq (h : (0 : Rat) ∉ i) : i.reciprocal = .ok i.inverse :=
  if_neg (mt containsZero_iff.1 h)

theorem reciprocal_error_iff : (∃ f, i.reciprocal = .error (.division f)) ↔ (0 : Rat) ∈ i := by
  by_cases h : (0 : Rat) ∈ i
  · exact iff_of_true ⟨_, if_pos (containsZero_iff.2 h)⟩ h
  · refine iff_of_false ?_ h
    rintro ⟨f, hf⟩
    rw [reciprocal_eq h] at hf
    cases hf

/-! ## Products -/

/-- A number times another is at least the product of one of the endpoints. -/
theorem exists_mul_le (ha : a ∈ i) (b : Rat) :
    i.low * b ≤ a * b ∨ i.high * b ≤ a * b := by
  rcases le_total 0 b with h | h
  · exact .inl (mul_le_mul_of_nonneg_right ha.1 h)
  · exact .inr (mul_le_mul_of_nonpos_right ha.2 h)

/-- A number times another is at most the product of one of the endpoints. -/
theorem exists_le_mul (ha : a ∈ i) (b : Rat) :
    a * b ≤ i.low * b ∨ a * b ≤ i.high * b := by
  rcases le_total 0 b with h | h
  · exact .inr (mul_le_mul_of_nonneg_right ha.2 h)
  · exact .inl (mul_le_mul_of_nonpos_right ha.1 h)

theorem mul_mem (ha : a ∈ i) (hb : b ∈ j) : a * b ∈ i.mul j := by
  -- the extremes over a rectangle are at its corners: first one factor is moved, then the other
  have hlow : ∀ c, (c * j.low ≤ c * b ∨ c * j.high ≤ c * b) := fun c => by
    simpa only [mul_comm c] using exists_mul_le hb c
  have hhigh : ∀ c, (c * b ≤ c * j.low ∨ c * b ≤ c * j.high) := fun c => by
    simpa only [mul_comm c] using exists_le_mul hb c
  refine mem_hullOfFour.2 ⟨?_, ?_⟩
  · exact (exists_mul_le ha b).imp (fun h => (hlow _).imp h.trans' h.trans')
      fun h => (hlow _).imp h.trans' h.trans'
  · exact (exists_le_mul ha b).imp (fun h => (hhigh _).imp h.trans h.trans)
      fun h => (hhigh _).imp h.trans h.trans

/-- **The products of two sets** have the product of their hulls as hull. -/
theorem IsHull.mul {s t : Set Rat} (hi : IsHull i s) (hj : IsHull j t) :
    IsHull (i.mul j) (Set.image2 (fun a b => a * b) s t) := by
  have hends := hullOfFour_ends (s := Set.image2 (fun a b => a * b) s t)
    ⟨_, hi.low_mem, _, hj.low_mem, rfl⟩ ⟨_, hi.low_mem, _, hj.high_mem, rfl⟩
    ⟨_, hi.high_mem, _, hj.low_mem, rfl⟩ ⟨_, hi.high_mem, _, hj.high_mem, rfl⟩
  refine ⟨?_, hends.1, hends.2⟩
  rintro _ ⟨a, ha, b, hb, rfl⟩
  exact mul_mem (hi.contains a ha) (hj.contains b hb)

/-! ## Operations on two intervals -/

theorem isHull_add (i j : Interval) :
    IsHull (i.add j) (Set.image2 (fun a b => a + b) i.toSet j.toSet) := by
  rw [add, hull_of_le (add_le_add i.low_le_high j.low_le_high)]
  refine ⟨?_, ⟨_, i.low_mem, _, j.low_mem, rfl⟩, ⟨_, i.high_mem, _, j.high_mem, rfl⟩⟩
  rintro _ ⟨a, ha, b, hb, rfl⟩
  exact ⟨add_le_add ha.1 hb.1, add_le_add ha.2 hb.2⟩

theorem isHull_sub (i j : Interval) :
    IsHull (i.sub j) (Set.image2 (fun a b => a - b) i.toSet j.toSet) := by
  rw [sub, hull_of_le (sub_le_sub i.low_le_high j.low_le_high)]
  refine ⟨?_, ⟨_, i.low_mem, _, j.high_mem, rfl⟩, ⟨_, i.high_mem, _, j.low_mem, rfl⟩⟩
  rintro _ ⟨a, ha, b, hb, rfl⟩
  exact ⟨sub_le_sub ha.1 hb.2, sub_le_sub ha.2 hb.1⟩

theorem isHull_mul (i j : Interval) :
    IsHull (i.mul j) (Set.image2 (fun a b => a * b) i.toSet j.toSet) :=
  i.isHull_toSet.mul j.isHull_toSet

/-- A quotient is the product with the reciprocals. -/
theorem div_eq (h : (0 : Rat) ∉ j) (i : Interval) : i.div j = .ok (i.mul j.inverse) := by
  have hzero : ¬ (j.low = 0 ∧ j.high = 0) := fun h0 => h ⟨h0.1.le, h0.2.ge⟩
  have hle := inv_le_inv_of_mem h j.low_mem j.high_mem j.low_le_high
  rw [div, if_neg hzero, if_neg (mt containsZero_iff.1 h), inverse, hull_of_le hle, mul,
    hullOfFour_swap]
  simp only [div_eq_mul_inv]

theorem isHull_div (h : (0 : Rat) ∉ j) (i : Interval) :
    IsHull (i.mul j.inverse) (Set.image2 (fun a b => a / b) i.toSet j.toSet) := by
  have hmul := i.isHull_toSet.mul (isHull_inverse h)
  rw [Set.image2_image_right] at hmul
  simpa only [div_eq_mul_inv] using hmul

theorem div_error_iff : (∃ f, i.div j = .error (.division f)) ↔ (0 : Rat) ∈ j := by
  by_cases h : (0 : Rat) ∈ j
  · refine iff_of_true ?_ h
    rw [div, if_pos (containsZero_iff.2 h)]
    split_ifs
    · exact ⟨_, rfl⟩
    · exact ⟨_, rfl⟩
  · refine iff_of_false ?_ h
    rintro ⟨f, hf⟩
    rw [div_eq h] at hf
    cases hf

/-- **Interval arithmetic is exact**: the result of an operation contains what the operation makes
of the numbers of its operands, and both its endpoints are made so. Where the divisor does not
contain zero the quotient is the product with its reciprocal; where it does, division fails. -/
theorem arithmetic_exact (i j : Interval) :
    IsHull (i.add j) (Set.image2 (fun a b => a + b) i.toSet j.toSet) ∧
      IsHull (i.sub j) (Set.image2 (fun a b => a - b) i.toSet j.toSet) ∧
      IsHull (i.mul j) (Set.image2 (fun a b => a * b) i.toSet j.toSet) ∧
      IsHull i.neg (Set.image (fun a => -a) i.toSet) ∧
      (∀ k : Int, IsHull (i.shift 10 k) (Set.image (fun a => a * 10 ^ k) i.toSet)) ∧
      ((0 : Rat) ∉ j → ∃ q r, j.reciprocal = .ok q ∧ i.div j = .ok r ∧ r = i.mul q ∧
        IsHull q (Set.image (fun b => b⁻¹) j.toSet) ∧
        IsHull r (Set.image2 (fun a b => a / b) i.toSet j.toSet)) ∧
      ((∃ f, i.div j = .error (.division f)) ↔ (0 : Rat) ∈ j) ∧
      ((∃ f, j.reciprocal = .error (.division f)) ↔ (0 : Rat) ∈ j) :=
  ⟨isHull_add i j, isHull_sub i j, isHull_mul i j, isHull_neg i,
    fun k => isHull_shift 10 i k,
    fun h => ⟨_, _, reciprocal_eq h, div_eq h i, rfl, isHull_inverse h, isHull_div h i⟩,
    div_error_iff, reciprocal_error_iff⟩

/-- The quotients of `[1, 2]` by `[-4, -2]` are those of `[-1, -1/4]`. -/
theorem quotients_of_negative :
    (0 : Rat) ∉ hull (-4) (-2) ∧ (hull 1 2).div (hull (-4) (-2)) = .ok (hull (-1) (-1 / 4)) ∧
      IsHull (hull (-1) (-1 / 4))
        (Set.image2 (fun a b => a / b) (hull 1 2).toSet (hull (-4) (-2)).toSet) := by
  have h : (0 : Rat) ∉ hull (-4) (-2) := by decide
  obtain ⟨-, -, -, -, -, hdiv, -⟩ := arithmetic_exact (hull 1 2) (hull (-4) (-2))
  obtain ⟨q, r, -, hr, -, -, hhull⟩ := hdiv h
  have hval : (hull 1 2).div (hull (-4) (-2)) = .ok (hull (-1) (-1 / 4)) := by
    with_unfolding_all decide
  cases hr.symm.trans hval
  exact ⟨h, hval, hhull⟩

end Interval

end RatCalc

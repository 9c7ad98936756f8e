import RatCalc.Proofs.FractionValues
import RatCalc.Proofs.Mediants

/-!
# On which side of the endpoints the mediant lies

A denominator may be negative, and the mediant adds the denominators as they are written.

* `Fraction.weight`, `Fraction.mediant_sub_left`, `Fraction.sub_mediant`: the mediant is the mean of
  the two values with the denominators as weights.
* `FractionInterval.SplitsInside`, `SplitsBelow`, `SplitsAbove`: where the mediant lies and what the
  pieces are.
* **`mediantSplit_inside_iff`**: an interval splits inside for denominators of the same sign. For
  opposite signs there is no mediant, or it lies outside.
-/

namespace RatCalc

namespace Fraction

variable {a b m : Fraction}

/-! ## The mediant as a mean -/

theorem mediant_eq_ok_iff :
    mediant a b = .ok m ↔ m.num = a.num + b.num ∧ m.den = a.den + b.den := by
  rw [mediant, ofInts]
  split
  case isTrue h =>
    constructor
    · intro hm
      cases hm
    · exact fun hm => absurd (hm.2.trans h) m.den_ne_zero
  case isFalse h =>
    rw [Except.ok.injEq]
    constructor
    · rintro rfl
      exact ⟨rfl, rfl⟩
    · obtain ⟨n, d, hd⟩ := m
      rintro ⟨rfl, rfl⟩
      rfl

theorem exists_mediant (h : a.den + b.den ≠ 0) : ∃ m, mediant a b = .ok m :=
  ⟨⟨a.num + b.num, a.den + b.den, h⟩, mediant_eq_ok_iff.2 ⟨rfl, rfl⟩⟩

theorem mediant_of_sum_zero (h : a.den + b.den = 0) :
    mediant a b = .error (.division .zeroDenominator) := dif_pos h

/-- The share of the second of two denominators in their sum. -/
def weight (x y : Int) : Rat := y / (x + y : Int)

/-- The mediant is as far above the first value as the weight of the second says. -/
theorem mediant_sub_left (h : mediant a b = .ok m) :
    m.toRat - a.toRat = weight a.den b.den * (b.toRat - a.toRat) := by
  obtain ⟨hnum, hden⟩ := mediant_eq_ok_iff.1 h
  have hm := m.toRat_mul_den
  rw [hnum, Int.cast_add, ← a.toRat_mul_den, ← b.toRat_mul_den] at hm
  rw [weight, ← hden, div_mul_eq_mul_div, eq_div_iff m.cast_den_ne_zero, sub_mul, hm, hden,
    Int.cast_add]
  ring

/-- The mediant is as far below the second value as the weight of the first says. -/
theorem sub_mediant (h : mediant a b = .ok m) :
    b.toRat - m.toRat = weight b.den a.den * (b.toRat - a.toRat) := by
  have hsum : ((b.den + a.den : Int) : Rat) ≠ 0 := by
    rw [add_comm, ← (mediant_eq_ok_iff.1 h).2]
    exact m.cast_den_ne_zero
  have hweights : weight b.den a.den + weight a.den b.den = 1 := by
    rw [weight, weight, add_comm a.den, ← add_div, add_comm (a.den : Rat), ← Int.cast_add,
      div_self hsum]
  calc b.toRat - m.toRat = (b.toRat - a.toRat) - (m.toRat - a.toRat) := by ring
    _ = (1 - weight a.den b.den) * (b.toRat - a.toRat) := by
        rw [mediant_sub_left h]
        ring
    _ = weight b.den a.den * (b.toRat - a.toRat) := by rw [← hweights, add_sub_cancel_right]

/-- Denominators of the same sign have positive weights. -/
theorem weight_pos {x y : Int} (h : 0 < x * y) : 0 < weight x y := by
  have hmul : 0 < y * (x + y) := by linarith [mul_self_nonneg y]
  rw [weight, div_pos_iff, ← mul_pos_iff]
  exact_mod_cast hmul

theorem add_ne_zero_of_abs_ne {x y : Int} (h : |x| ≠ |y|) : x + y ≠ 0 := by
  intro hzero
  rw [eq_neg_of_add_eq_zero_left hzero, abs_neg] at h
  exact h rfl

/-- For opposite signs the weight of the smaller magnitude is negative. -/
theorem weight_neg {x y : Int} (h : x * y < 0) (hlt : |y| < |x|) : weight x y < 0 := by
  have hmul : y * (x + y) < 0 := by
    have habs : |y| * |y| < |x| * |y| :=
      mul_lt_mul_of_pos_right hlt (abs_pos.2 (right_ne_zero_of_mul h.ne))
    rw [abs_mul_abs_self, ← abs_mul, abs_of_neg h] at habs
    linarith
  rw [weight, div_neg_iff, ← mul_neg_iff]
  exact_mod_cast hmul

end Fraction

namespace FractionInterval

variable {i : FractionInterval} {m : Fraction}

theorem hull_of_gt {a b : Fraction} (h : b.toRat < a.toRat) : hull a b = ⟨b, a, h.le⟩ :=
  dif_neg h.not_ge

theorem mediantSplit_of_mediant (h : Fraction.mediant i.low i.high = .ok m) :
    i.mediantSplit = .ok [hull i.low m, hull m i.high] := by
  rw [mediantSplit, h]
  rfl

/-! ## Where the mediant lies -/

/-- The mediant lies between the endpoints, and the pieces are those below and above it. -/
def SplitsInside (i : FractionInterval) : Prop :=
  ∃ m p q, Fraction.mediant i.low i.high = .ok m ∧ i.mediantSplit = .ok [p, q] ∧
    Linked i.low [p, q] i.high ∧ p.high = m ∧ i.low.toRat ≤ m.toRat ∧ m.toRat ≤ i.high.toRat

/-- The mediant lies below the interval, and both pieces start with it. -/
def SplitsBelow (i : FractionInterval) : Prop :=
  ∃ m p q, Fraction.mediant i.low i.high = .ok m ∧ i.mediantSplit = .ok [p, q] ∧
    m.toRat < i.low.toRat ∧ p.low = m ∧ p.high = i.low ∧ q.low = m ∧ q.high = i.high

/-- The mediant lies above the interval, and both pieces end with it. -/
def SplitsAbove (i : FractionInterval) : Prop :=
  ∃ m p q, Fraction.mediant i.low i.high = .ok m ∧ i.mediantSplit = .ok [p, q] ∧
    i.high.toRat < m.toRat ∧ p.low = i.low ∧ p.high = m ∧ q.low = i.high ∧ q.high = m

theorem splitsInside_of_le (h : Fraction.mediant i.low i.high = .ok m)
    (hlow : i.low.toRat ≤ m.toRat) (hhigh : m.toRat ≤ i.high.toRat) : i.SplitsInside := by
  refine ⟨m, ⟨i.low, m, hlow⟩, ⟨m, i.high, hhigh⟩, h, ?_, ⟨rfl, rfl, rfl⟩, rfl, hlow, hhigh⟩
  rw [mediantSplit_of_mediant h, hull_of_le hlow, hull_of_le hhigh]

theorem splitsBelow_of_lt (h : Fraction.mediant i.low i.high = .ok m)
    (hlt : m.toRat < i.low.toRat) : i.SplitsBelow := by
  have hle := hlt.le.trans i.low_le_high
  refine ⟨m, ⟨m, i.low, hlt.le⟩, ⟨m, i.high, hle⟩, h, ?_, hlt, rfl, rfl, rfl, rfl⟩
  rw [mediantSplit_of_mediant h, hull_of_gt hlt, hull_of_le hle]

theorem splitsAbove_of_lt (h : Fraction.mediant i.low i.high = .ok m)
    (hlt : i.high.toRat < m.toRat) : i.SplitsAbove := by
  have hle := i.low_le_high.trans hlt.le
  refine ⟨m, ⟨i.low, m, hle⟩, ⟨i.high, m, hlt.le⟩, h, ?_, hlt, rfl, rfl, rfl, rfl⟩
  rw [mediantSplit_of_mediant h, hull_of_le hle, hull_of_gt hlt]

/-! ## Signs of the denominators -/

theorem splitsInside_of_same_sign (h : 0 < i.low.den * i.high.den) : i.SplitsInside := by
  have hsum : i.low.den + i.high.den ≠ 0 := by
    intro hzero
    rw [← neg_eq_of_add_eq_zero_right hzero, mul_neg] at h
    linarith [mul_self_nonneg i.low.den]
  obtain ⟨m, hm⟩ := Fraction.exists_mediant hsum
  have hwidth : 0 ≤ i.high.toRat - i.low.toRat := sub_nonneg.2 i.low_le_high
  refine splitsInside_of_le hm (sub_nonneg.1 ?_) (sub_nonneg.1 ?_)
  · rw [Fraction.mediant_sub_left hm]
    exact mul_nonneg (Fraction.weight_pos h).le hwidth
  · rw [Fraction.sub_mediant hm]
    exact mul_nonneg (Fraction.weight_pos (by rwa [mul_comm])).le hwidth

/-- An interval of one number is split at that number. -/
theorem splitsInside_of_eq (hsum : i.low.den + i.high.den ≠ 0) (h : i.low.toRat = i.high.toRat) :
    i.SplitsInside := by
  obtain ⟨m, hm⟩ := Fraction.exists_mediant hsum
  have hlow : m.toRat = i.low.toRat := by
    rw [← sub_eq_zero, Fraction.mediant_sub_left hm, h, sub_self, mul_zero]
  exact splitsInside_of_le hm hlow.ge (hlow.trans h).le

theorem splitsBelow_of_opposite (h : i.low.den * i.high.den < 0)
    (hlt : i.low.toRat < i.high.toRat) (habs : |i.high.den| < |i.low.den|) : i.SplitsBelow := by
  obtain ⟨m, hm⟩ := Fraction.exists_mediant (Fraction.add_ne_zero_of_abs_ne habs.ne')
  refine splitsBelow_of_lt hm (sub_neg.1 ?_)
  rw [Fraction.mediant_sub_left hm]
  exact mul_neg_of_neg_of_pos (Fraction.weight_neg h habs) (sub_pos.2 hlt)

theorem splitsAbove_of_opposite (h : i.low.den * i.high.den < 0)
    (hlt : i.low.toRat < i.high.toRat) (habs : |i.low.den| < |i.high.den|) : i.SplitsAbove := by
  obtain ⟨m, hm⟩ := Fraction.exists_mediant (Fraction.add_ne_zero_of_abs_ne habs.ne)
  refine splitsAbove_of_lt hm (sub_neg.1 ?_)
  rw [Fraction.sub_mediant hm]
  exact mul_neg_of_neg_of_pos (Fraction.weight_neg (by rwa [mul_comm]) habs) (sub_pos.2 hlt)

/-- **An interval splits inside if its denominators have the same sign.** With opposite signs it
does so only where it has one number and the denominators do not cancel. Denominators that cancel
have no mediant; any other interval of more than one number has its mediant below, if the lower
endpoint's denominator has the greater magnitude, or above, and each piece then goes from an
endpoint to a number outside. -/
theorem mediantSplit_inside_iff (i : FractionInterval) :
    (i.SplitsInside ↔ 0 < i.low.den * i.high.den ∨
      i.low.den + i.high.den ≠ 0 ∧ i.low.toRat = i.high.toRat) ∧
    (i.low.den + i.high.den = 0 → i.mediantSplit = .error (.division .zeroDenominator)) ∧
    (i.low.den * i.high.den < 0 → i.low.toRat < i.high.toRat →
      (|i.high.den| < |i.low.den| → i.SplitsBelow) ∧
      (|i.low.den| < |i.high.den| → i.SplitsAbove)) := by
  refine ⟨⟨fun hinside => ?_, ?_⟩, fun hsum => ?_, fun h hlt =>
    ⟨splitsBelow_of_opposite h hlt, splitsAbove_of_opposite h hlt⟩⟩
  · obtain ⟨m, -, -, hm, -, -, -, hlow, hhigh⟩ := hinside
    by_contra! hnot
    have hsum : i.low.den + i.high.den ≠ 0 := by
      rw [← (Fraction.mediant_eq_ok_iff.1 hm).2]
      exact m.den_ne_zero
    have hopposite : i.low.den * i.high.den < 0 :=
      lt_of_le_of_ne hnot.1 (mul_ne_zero i.low.den_ne_zero i.high.den_ne_zero)
    have hlt : i.low.toRat < i.high.toRat := lt_of_le_of_ne i.low_le_high (hnot.2 hsum)
    rcases lt_trichotomy |i.low.den| |i.high.den| with habs | habs | habs
    · obtain ⟨m', -, -, hm', -, habove, -⟩ := splitsAbove_of_opposite hopposite hlt habs
      obtain rfl := Except.ok.inj (hm.symm.trans hm')
      exact habove.not_ge hhigh
    · rcases abs_eq_abs.1 habs with heq | heq
      · rw [heq] at hopposite
        exact (mul_self_nonneg _).not_gt hopposite
      · exact hsum (add_eq_zero_iff_eq_neg.2 heq)
    · obtain ⟨m', -, -, hm', -, hbelow, -⟩ := splitsBelow_of_opposite hopposite hlt habs
      obtain rfl := Except.ok.inj (hm.symm.trans hm')
      exact hbelow.not_ge hlow
  · rintro (h | ⟨hsum, heq⟩)
    · exact splitsInside_of_same_sign h
    · exact splitsInside_of_eq hsum heq
  · rw [mediantSplit, Fraction.mediant_of_sum_zero hsum]
    rfl

/-- From zero to one, the upper endpoint over minus one: the denominators cancel. Over minus two,
the mediant is two, above the interval. -/
theorem zero_to_one_over_negative :
    let i := hull ⟨0, 1, by decide⟩ ⟨-1, -1, by decide⟩
    let j := hull ⟨0, 1, by decide⟩ ⟨-2, -2, by decide⟩
    i.mediantSplit = .error (.division .zeroDenominator) ∧ ¬i.SplitsInside ∧
      j.SplitsAbove ∧ ¬j.SplitsInside ∧
      j.mediantSplit.map (·.map text) = .ok ["0/1:-2/-1".toList, "-2/-2:-2/-1".toList] := by
  intro i j
  have hi := mediantSplit_inside_iff i
  have hj := mediantSplit_inside_iff j
  exact ⟨hi.2.1 (by decide), mt hi.1.1 (by decide),
    (hj.2.2 (by decide) (by decide)).2 (by decide),
    mt hj.1.1 (by decide), by decide⟩

end FractionInterval

end RatCalc

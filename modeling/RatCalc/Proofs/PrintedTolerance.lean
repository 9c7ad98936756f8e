import RatCalc.Interval.Text
import RatCalc.Proofs.NearestDecimal

/-!
# Intervals written with offsets

An interval is written as one of its numbers with offsets. The shortest decimal has its distances
from the endpoints in the units in which they are read; the midpoint has half the width as it is.

* `Literal.Base.uncertainty_ofRat_symmetric`, `uncertainty_ofRat_pair`: decimals with decimal
  offsets.
* **`uncertainty_midpointDecimal`**: the midpoint with half the width is read back as the interval
  only if the midpoint is an integer.
* **`uncertainty_offsetDecimal`**: the shortest decimal with its distances is read back as the
  interval, unless two distances are so close that they are written as one.
-/

namespace RatCalc

open Text Ratio

/-! ## Numbers and offsets as they are written -/

namespace Literal.Base

variable {a v x y : Rat}

theorem offset_ofRat (h : Terminates a) : offset (ofRat a).text = .ok a := by
  rw [offset_text (digits_ofRat_ne_nil a), value_ofRat h]

/-- **A number with one offset** is read as what it is written for. -/
theorem uncertainty_ofRat_symmetric (ha : Terminates a) (hv : Terminates v) (integerBase : Bool) :
    uncertainty ((ofRat a).bracket ('+' :: '-' :: (ofRat v).text)) integerBase =
      .ok (.hull (a - v * (ofRat a).unit) (a + v * (ofRat a).unit)) := by
  rw [uncertainty_symmetric _ (.inl rfl), value_ofRat ha]
  exact ⟨digits_ofRat_ne_nil a, not_mem_text (by decide) (by decide), v, offset_ofRat hv, rfl⟩

theorem not_mem_ofRat_of_nonneg (h : 0 ≤ a) : '-' ∉ (ofRat a).text := by
  have hsign : (ofRat a).negative = false := decide_eq_false (not_lt.2 (Rat.num_nonneg.2 h))
  rw [text, hsign]
  exact not_mem_magnitude (by decide) (by decide)

theorem trim_cons_text {b : Base} {c : Char} (hc : isBlank c = false) :
    trim (c :: b.text) = c :: b.text :=
  trim_of_no_blank (List.forall_mem_cons.2 ⟨hc, isBlank_of_mem_text⟩)

/-- **A number with two offsets** is read as what it is written for, if the first has no sign of its
own: two signs in a row begin a bracket with one offset. -/
theorem uncertainty_ofRat_pair (ha : Terminates a) (hx : Terminates x) (hy : Terminates y)
    (hx0 : 0 ≤ x) (integerBase : Bool) :
    uncertainty ((ofRat a).bracket ('+' :: (ofRat x).text ++ ',' :: '-' :: (ofRat y).text))
      integerBase = .ok (.hull (a - y * (ofRat a).unit) (a + x * (ofRat a).unit)) := by
  have hs : isSymmetric ('+' :: (ofRat x).text ++ ',' :: '-' :: (ofRat y).text) = false := by
    have hno := not_mem_ofRat_of_nonneg hx0
    obtain ⟨c, t, ht⟩ := List.exists_cons_of_ne_nil (text_ne_nil (digits_ofRat_ne_nil x))
    rw [ht] at hno ⊢
    rw [isSymmetric.eq_def]
    split
    · rename_i heq
      rw [(List.cons.inj (List.cons.inj heq).2).1] at hno
      exact absurd List.mem_cons_self hno
    · rename_i heq
      exact absurd (List.cons.inj heq).1 (by decide)
    · rfl
  rw [uncertainty_pair _ (.inl ⟨trim_cons_text (by decide), trim_cons_text (by decide)⟩) hs,
    value_ofRat ha]
  have hno : ∀ {s c : Char} {b : Base}, isDecimal s = false → s ∉ ['-', '.'] → s ≠ c →
      s ∉ c :: b.text := fun hd hm hc h => (List.mem_cons.1 h).elim hc (not_mem_text hd hm)
  refine ⟨digits_ofRat_ne_nil a, fraction_ofRat_ne a, ⟨?_, ?_⟩, ⟨?_, ?_⟩, x, y, offset_ofRat hx,
    offset_ofRat hy, rfl⟩ <;>
  exact hno (by decide) (by decide) (by decide)

end Literal.Base

/-! ## The midpoint with half the width -/

namespace Interval

open Expansion (defaultDigits)
open Literal (Base uncertainty)

variable {i : Interval} {k : Nat}

theorem high_sub_midpoint (i : Interval) : i.high - i.midpoint = i.width / 2 := by
  rw [midpoint, width]
  ring

theorem hasPlaces_half_width (hhigh : HasPlaces i.high k) (hmid : HasPlaces i.midpoint k) :
    HasPlaces (i.width / 2) k := by
  rw [← high_sub_midpoint]
  exact hhigh.sub hmid

theorem midpointDecimal_eq (hm : HasPlaces i.midpoint defaultDigits)
    (hw : HasPlaces (i.width / 2) defaultDigits) :
    i.midpointDecimal =
      (Base.ofRat i.midpoint).bracket ('+' :: '-' :: (Base.ofRat (i.width / 2)).text) := by
  rw [midpointDecimal, high_sub_midpoint, Base.decimal_eq hm, Base.decimal_eq hw, Base.bracket]
  simp

theorem width_nonneg (i : Interval) : 0 ≤ i.width := sub_nonneg.2 i.low_le_high

/-- A factor other than one changes the interval around a number. -/
theorem hull_scaled_eq_iff {c w u : Rat} (hw : 0 ≤ w) (hu : 0 < u) :
    hull (c - w * u) (c + w * u) = hull (c - w) (c + w) ↔ u = 1 ∨ w = 0 := by
  have hwu : 0 ≤ w * u := mul_nonneg hw hu.le
  rw [hull_of_le (by linarith), hull_of_le (by linarith), Interval.mk.injEq, sub_right_inj,
    add_right_inj, and_self, mul_right_eq_self₀]

theorem hull_midpoint (i : Interval) :
    hull (i.midpoint - i.width / 2) (i.midpoint + i.width / 2) = i := by
  have hlow : i.midpoint - i.width / 2 = i.low := by rw [midpoint, width]; ring
  have hhigh : i.midpoint + i.width / 2 = i.high := by rw [midpoint, width]; ring
  rw [hlow, hhigh, Literal.hull_self]

/-- An interval around a number is one of the same width if the number is its midpoint. -/
theorem hull_half_width_eq_iff {c : Rat} :
    hull (c - i.width / 2) (c + i.width / 2) = i ↔ c = i.midpoint := by
  constructor
  · intro h
    have hw := i.width_nonneg
    rw [hull_of_le (by linarith)] at h
    have hlow : c - i.width / 2 = i.low := congrArg Interval.low h
    rw [width] at hlow
    rw [midpoint]
    linarith
  · rintro rfl
    exact i.hull_midpoint

/-- The unit of offsets from a number with `p` digits after its point. -/
theorem exists_unit_ofRat {a : Rat} (h : Terminates a) :
    ∃ p, (∀ k, HasPlaces a k ↔ p ≤ k) ∧
      (Base.ofRat a).unit = if p = 0 then 1 else 1 / 10 ^ (p + 1) :=
  ⟨_, fun _ => hasPlaces_iff_preperiod h, by rw [Base.unit, Base.places_ofRat]⟩

theorem unit_eq_one_iff {p : Nat} :
    (if p = 0 then (1 : Rat) else 1 / 10 ^ (p + 1)) = 1 ↔ p = 0 := by
  split_ifs with h
  · exact iff_of_true rfl h
  · have hlt : (1 : Rat) < 10 ^ (p + 1) := one_lt_pow₀ (by norm_num) (by omega)
    exact iff_of_false ((div_lt_one (by positivity)).2 hlt).ne h

/-- **The midpoint with half the width** is read back as an interval around the midpoint, with half
the width in units of the digit after the midpoint's last place. It is the interval that was written
only if the midpoint has no digits after its point, or there is no width. -/
theorem uncertainty_midpointDecimal (hm : HasPlaces i.midpoint defaultDigits)
    (hw : HasPlaces (i.width / 2) defaultDigits) (integerBase : Bool) :
    ∃ p, (∀ k, HasPlaces i.midpoint k ↔ p ≤ k) ∧
      let unit : Rat := if p = 0 then 1 else 1 / 10 ^ (p + 1)
      uncertainty i.midpointDecimal integerBase =
        .ok (.hull (i.midpoint - i.width / 2 * unit) (i.midpoint + i.width / 2 * unit)) ∧
      (uncertainty i.midpointDecimal integerBase = .ok i ↔ p = 0 ∨ i.low = i.high) := by
  obtain ⟨p, hp, hunit⟩ := exists_unit_ofRat hm.terminates
  have hread := Base.uncertainty_ofRat_symmetric hm.terminates hw.terminates integerBase
  rw [← midpointDecimal_eq hm hw, hunit] at hread
  refine ⟨p, hp, hread, ?_⟩
  have hhalf : 0 ≤ i.width / 2 := div_nonneg i.width_nonneg (by norm_num)
  have hpos : (0 : Rat) < if p = 0 then 1 else 1 / 10 ^ (p + 1) := by split_ifs <;> positivity
  have hpoint : i.width / 2 = 0 ↔ i.low = i.high := by
    rw [div_eq_zero_iff, or_iff_left (by norm_num), width, sub_eq_zero, eq_comm]
  have hiff := hull_scaled_eq_iff (c := i.midpoint) hhalf hpos
  rw [i.hull_midpoint, unit_eq_one_iff, hpoint] at hiff
  rw [hread, Except.ok.injEq, hiff]

/-- The midpoint of `[6/5, 7/5]` has a digit after its point, so that half the width is read in
hundredths. -/
theorem tenth_around_thirteen_tenths :
    let i := hull (6 / 5) (7 / 5)
    HasPlaces i.midpoint defaultDigits ∧ HasPlaces (i.width / 2) defaultDigits ∧
      i.midpointDecimal = "1.3[+-0.1]".toList ∧
      uncertainty i.midpointDecimal true = .ok (hull (1299 / 1000) (1301 / 1000)) ∧
      uncertainty i.midpointDecimal true ≠ .ok i := by
  intro i
  have hm : HasPlaces i.midpoint defaultDigits := by with_unfolding_all decide
  have hw : HasPlaces (i.width / 2) defaultDigits := by with_unfolding_all decide
  obtain ⟨p, hp, -, hiff⟩ := uncertainty_midpointDecimal hm hw true
  have hp0 : p ≠ 0 := fun h => absurd ((hp 0).2 h.le) (by with_unfolding_all decide)
  refine ⟨hm, hw, by with_unfolding_all decide, by with_unfolding_all decide, fun h => ?_⟩
  exact (hiff.1 h).elim hp0 (by with_unfolding_all decide)

end Interval

/-! ## The shortest decimal with its distances -/

namespace Literal.Base

variable (b : Base)

/-- How many of the units of its offsets make up one. -/
def perOne : Nat := if b.places = 0 then 1 else 10 ^ (b.places + 1)

theorem mul_perOne_mul_unit (x : Rat) : x * b.perOne * b.unit = x := by
  rw [perOne, unit]
  split_ifs with h
  · simp
  · have hne : (10 : Rat) ^ (b.places + 1) ≠ 0 := by positivity
    push_cast
    rw [mul_one_div, mul_div_cancel_right₀ _ hne]

theorem shift_perOne (x : Rat) :
    Ratio.shift 10 x (if 0 < b.places then (b.places : Int) + 1 else 0) = x * b.perOne := by
  rw [Ratio.shift, perOne]
  by_cases h : b.places = 0
  · rw [if_pos h, if_neg (by omega), zpow_zero, Nat.cast_one]
  · rw [if_neg h, if_pos (Nat.pos_of_ne_zero h), ← Nat.cast_succ, zpow_natCast]
    push_cast
    rfl

end Literal.Base

namespace Interval

open Expansion (defaultDigits)
open Literal (Base uncertainty)

variable {i : Interval}

theorem offsetDecimal_eq (hlow : HasPlaces i.low defaultDigits)
    (hhigh : HasPlaces i.high defaultDigits) (hmid : HasPlaces i.midpoint defaultDigits) :
    let c := i.shortestDecimal
    let b := Base.ofRat c
    i.offsetDecimal = b.bracket (if |(c - i.low) - (i.high - c)| < 1 / 1000000 then
        '+' :: '-' :: (Base.ofRat (i.width / 2 * b.perOne)).text
      else '+' :: (Base.ofRat ((i.high - c) * b.perOne)).text ++ ',' ::
        '-' :: (Base.ofRat ((c - i.low) * b.perOne)).text) := by
  intro c b
  have hc : HasPlaces c defaultDigits := hasPlaces_shortestDecimal hmid
  have hbase : decimal i.shortestDecimal defaultDigits = b.text := Base.decimal_eq hc
  have hplaces : places b.text = b.places := Base.placesOf_text
  have hhalf : HasPlaces (i.width / 2) defaultDigits := hasPlaces_half_width hhigh hmid
  have haverage : ((c - i.low) * b.perOne + (i.high - c) * b.perOne) / 2 =
      i.width / 2 * b.perOne := by
    rw [width]
    ring
  have hmillionth : mkRat 1 1000000 = (1 / 1000000 : Rat) := by
    rw [Rat.mkRat_eq_div]
    norm_num
  rw [offsetDecimal, hbase, show i.shortestDecimal = c from rfl, hplaces, b.shift_perOne,
    b.shift_perOne, haverage, Ratio.abs_eq, hmillionth, Base.decimal_eq (hhalf.mul_natCast _),
    Base.decimal_eq ((hhigh.sub hc).mul_natCast _), Base.decimal_eq ((hc.sub hlow).mul_natCast _),
    Base.bracket]
  split_ifs <;> simp

/-- **The shortest decimal with its distances** from the endpoints is read back as the interval,
unless the distances differ by less than a millionth: then half the width stands for both, and the
text is that of the interval of the same width around the shortest decimal. -/
theorem uncertainty_offsetDecimal (hlow : HasPlaces i.low defaultDigits)
    (hhigh : HasPlaces i.high defaultDigits) (hmid : HasPlaces i.midpoint defaultDigits)
    (integerBase : Bool) :
    let c := i.shortestDecimal
    let d := |(c - i.low) - (i.high - c)|
    c ∈ i ∧
      (1 / 1000000 ≤ d → uncertainty i.offsetDecimal integerBase = .ok i) ∧
      (d < 1 / 1000000 → uncertainty i.offsetDecimal integerBase =
        .ok (.hull (c - i.width / 2) (c + i.width / 2))) ∧
      (uncertainty i.offsetDecimal integerBase = .ok i ↔ d = 0 ∨ 1 / 1000000 ≤ d) := by
  intro c d
  have hc : HasPlaces c defaultDigits := hasPlaces_shortestDecimal hmid
  have hmem : c ∈ i := i.shortestDecimal_mem
  have htext := offsetDecimal_eq hlow hhigh hmid
  have hfar : 1 / 1000000 ≤ d → uncertainty i.offsetDecimal integerBase = .ok i := by
    intro hd
    have habove : 0 ≤ (i.high - c) * (Base.ofRat c).perOne :=
      mul_nonneg (sub_nonneg.2 hmem.2) (Nat.cast_nonneg _)
    have hread := Base.uncertainty_ofRat_pair hc.terminates
      ((hhigh.sub hc).mul_natCast (Base.ofRat c).perOne).terminates
      ((hc.sub hlow).mul_natCast (Base.ofRat c).perOne).terminates habove integerBase
    rw [Base.mul_perOne_mul_unit, Base.mul_perOne_mul_unit, sub_sub_cancel, add_sub_cancel,
      Literal.hull_self] at hread
    rw [htext, if_neg (not_lt.2 hd)]
    exact hread
  have hnear : d < 1 / 1000000 → uncertainty i.offsetDecimal integerBase =
      .ok (.hull (c - i.width / 2) (c + i.width / 2)) := by
    intro hd
    have hhalf : HasPlaces (i.width / 2) defaultDigits := hasPlaces_half_width hhigh hmid
    have hread := Base.uncertainty_ofRat_symmetric hc.terminates
      (hhalf.mul_natCast (Base.ofRat c).perOne).terminates integerBase
    rw [Base.mul_perOne_mul_unit] at hread
    rw [htext, if_pos hd]
    exact hread
  have hcentre : c = i.midpoint ↔ d = 0 := by
    rw [abs_eq_zero, midpoint]
    constructor <;> intro h <;> linarith
  refine ⟨hmem, hfar, hnear, ?_⟩
  rcases lt_or_ge d (1 / 1000000) with h | h
  · rw [hnear h, Except.ok.injEq, hull_half_width_eq_iff, hcentre, or_iff_left (not_le.2 h)]
  · exact iff_of_true (hfar h) (.inr h)

/-- An interval around twelve with endpoints that are not equally far away. -/
theorem around_twelve :
    let i := hull (119 / 10) (122 / 10)
    HasPlaces i.low defaultDigits ∧ HasPlaces i.high defaultDigits ∧
      HasPlaces i.midpoint defaultDigits ∧ i.offsetDecimal = "12[+0.2,-0.1]".toList ∧
      uncertainty i.offsetDecimal false = .ok i := by
  intro i
  have hlow : HasPlaces i.low defaultDigits := by with_unfolding_all decide
  have hhigh : HasPlaces i.high defaultDigits := by with_unfolding_all decide
  have hmid : HasPlaces i.midpoint defaultDigits := by with_unfolding_all decide
  have hread := (uncertainty_offsetDecimal hlow hhigh hmid false).2.1 (by with_unfolding_all decide)
  exact ⟨hlow, hhigh, hmid, by with_unfolding_all decide, hread⟩

/-- Two distances that differ by less than a millionth: the interval that is read back is another
one. -/
theorem half_millionth :
    let i := hull 0 (1 / 2000000)
    (HasPlaces i.low 15 ∧ HasPlaces i.high 15 ∧ HasPlaces i.midpoint 15) ∧
      i.offsetDecimal = "0[+-0.00000025]".toList ∧
      uncertainty i.offsetDecimal true = .ok (hull (-1 / 4000000) (1 / 4000000)) ∧
      hull (-1 / 4000000) (1 / 4000000) ≠ i := by
  with_unfolding_all decide

end Interval

end RatCalc

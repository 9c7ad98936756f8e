import RatCalc.Proofs.CutDecimal
import RatCalc.Proofs.Multiples
import RatCalc.Proofs.RationalOperand

/-!
# The nearest decimal to the midpoint

* `IsNearest`: a number of a set is as near to a centre as any other, and the lower one of two.
* `isNearest_image`: in a row one of the two neighbours of the centre is the nearest.
* `between_neighbours`, `neighbours_of_mem`: the neighbours of a number of an interval.
* **`decimalWith?_of_nonempty`**, `decimalWith?_of_empty`: the decimals with a number of places.
* **`shortestDecimal_optimal`**: the decimal that is found has the fewest places, and is the nearest
  to the midpoint of those that have as many.
* `shortestDecimal_mem`, `hasPlaces_shortestDecimal`: it lies in the interval, with few places.
-/

namespace RatCalc

open Ratio

/-! ## The nearest number of a set -/

/-- A number of a set that is as near to a centre as any other, and the lower one of two. -/
structure IsNearest (s : Set Rat) (c a : Rat) : Prop where
  mem : a ∈ s
  le : ∀ x ∈ s, |a - c| ≤ |x - c|
  lower : ∀ x ∈ s, |x - c| = |a - c| → a ≤ x

section

variable {f : Int → Rat} {c : Rat} {n m low high : Int}

/-- Up to the centre, later numbers are nearer. -/
theorem le_of_le_centre (hf : Monotone f) (hm : f m ≤ c) (h : n ≤ m) :
    |f m - c| ≤ |f n - c| ∧ (|f n - c| = |f m - c| → f m ≤ f n) := by
  have hnm : f n ≤ f m := hf h
  rw [abs_of_nonpos (sub_nonpos.2 hm), abs_of_nonpos (sub_nonpos.2 (hnm.trans hm))]
  exact ⟨by linarith, fun heq => by linarith⟩

/-- From the centre on, earlier numbers are nearer. -/
theorem le_of_centre_le (hf : Monotone f) (hm : c ≤ f m) (h : m ≤ n) : |f m - c| ≤ |f n - c| := by
  have hmn : f m ≤ f n := hf h
  rw [abs_of_nonneg (sub_nonneg.2 hm), abs_of_nonneg (sub_nonneg.2 (hm.trans hmn))]
  linarith

/-- **One of the two neighbours of the centre** is the nearest of a row of numbers: the lower one if
it is in the row, unless the upper one is in the row too and nearer. -/
theorem isNearest_image (hf : Monotone f) (hm : f m ≤ c) (hc : c ≤ f (m + 1)) (hlow : low ≤ m + 1)
    (hhigh : m ≤ high) (h : low ≤ high) :
    IsNearest (f '' Set.Icc low high) c (f
      (if low ≤ m ∧ ¬ (m + 1 ≤ high ∧ |f (m + 1) - c| < |f m - c|) then m else m + 1)) := by
  split_ifs with hcase
  · obtain ⟨hlm, hfar⟩ := hcase
    refine ⟨⟨m, ⟨hlm, hhigh⟩, rfl⟩, ?_, ?_⟩
    · rintro _ ⟨n, ⟨-, hn⟩, rfl⟩
      rcases le_or_gt n m with hnm | hnm
      · exact (le_of_le_centre hf hm hnm).1
      · have hnear : |f m - c| ≤ |f (m + 1) - c| :=
          not_lt.1 fun hlt => hfar ⟨by omega, hlt⟩
        exact hnear.trans (le_of_centre_le hf hc (by omega))
    · rintro _ ⟨n, -, rfl⟩ heq
      rcases le_or_gt n m with hnm | hnm
      · exact (le_of_le_centre hf hm hnm).2 heq
      · exact hf hnm.le
  · -- the lower neighbour is not in the row, or farther
    have hfar : ∀ n, low ≤ n → n ≤ m → |f (m + 1) - c| < |f n - c| := by
      intro n hln hnm
      have hlt : |f (m + 1) - c| < |f m - c| := by
        by_contra hge
        exact hcase ⟨hln.trans hnm, fun hup => hge hup.2⟩
      exact hlt.trans_le (le_of_le_centre hf hm hnm).1
    have hup : m + 1 ≤ high := by
      by_contra hmh
      exact hcase ⟨by omega, fun hup => hmh hup.1⟩
    refine ⟨⟨m + 1, ⟨hlow, hup⟩, rfl⟩, ?_, ?_⟩
    · rintro _ ⟨n, ⟨hn, -⟩, rfl⟩
      rcases le_or_gt n m with hnm | hnm
      · exact (hfar n hn hnm).le
      · exact le_of_centre_le hf hc hnm
    · rintro _ ⟨n, ⟨hn, -⟩, rfl⟩ heq
      rcases le_or_gt n m with hnm | hnm
      · exact absurd heq (hfar n hn hnm).ne'
      · exact hf hnm

/-- Where the row has a number, one of the two neighbours of the centre is in it. -/
theorem neighbour_eq {nearer : Prop} [Decidable nearer] (hlow : low ≤ m + 1) (hhigh : m ≤ high) :
    (if low ≤ m ∧ m ≤ high then
        if (low ≤ m + 1 ∧ m + 1 ≤ high) ∧ nearer then m + 1 else m
      else if low ≤ m + 1 ∧ m + 1 ≤ high then m + 1
      else if m < low then low else high) =
      if low ≤ m ∧ ¬ (m + 1 ≤ high ∧ nearer) then m else m + 1 := by
  by_cases hn : nearer
  · simp only [hn, and_true]
    split_ifs <;> omega
  · simp only [hn, and_false, not_false_eq_true, and_true, if_false]
    split_ifs <;> omega

end

namespace Interval

open Expansion (defaultDigits)

variable {i : Interval} {a : Rat} {k : Nat}

theorem midpoint_mem (i : Interval) : i.midpoint ∈ i := by
  have h := i.low_le_high
  rw [mem_def, midpoint]
  constructor <;> linarith

/-! ## Decimals with a number of places -/

theorem mem_multiples_ten_iff : a ∈ i.multiples (10 ^ k) ↔ a ∈ i ∧ HasPlaces a k := by
  have hne : (10 : Rat) ^ k ≠ 0 := by positivity
  rw [hasPlaces_iff]
  refine and_congr_right fun _ => exists_congr fun n => ?_
  rw [eq_div_iff hne]
  push_cast
  rfl

theorem decimalWith?_of_empty (h : ¬ (i.multiples (10 ^ k)).Nonempty) : i.decimalWith? k = none :=
  if_pos (not_le.1 (mt (multiples_nonempty_iff (pow_ne_zero k (by decide))).2 h))

/-- A number lies between its neighbours among the multiples of `1 / d`. -/
theorem between_neighbours {d : Nat} (hd : d ≠ 0) (c : Rat) :
    mkRat (c * d).floor d ≤ c ∧ c ≤ mkRat ((c * d).floor + 1) d := by
  have hpos : (0 : Rat) < d := by exact_mod_cast Nat.pos_of_ne_zero hd
  rw [Rat.mkRat_eq_div, Rat.mkRat_eq_div, div_le_iff₀ hpos, le_div_iff₀ hpos]
  exact ⟨Rat.floor_le (c * d), (Rat.lt_floor_add_one (c * d)).le⟩

/-- Of the neighbours of a number of the interval, the lower one is not behind the last multiple in
it, and the upper one not before the first. -/
theorem neighbours_of_mem {c : Rat} (h : c ∈ i) (d : Nat) :
    (i.low * d).ceil ≤ (c * d).floor + 1 ∧ (c * d).floor ≤ (i.high * d).floor := by
  have hd : (0 : Rat) ≤ d := d.cast_nonneg
  refine ⟨?_, Rat.floor_monotone (mul_le_mul_of_nonneg_right h.2 hd)⟩
  rw [Rat.ceil_le_iff]
  exact (mul_le_mul_of_nonneg_right h.1 hd).trans (Rat.lt_floor_add_one (c * d)).le

/-- **The decimal with a number of places** that is found is the nearest one to the midpoint. -/
theorem decimalWith?_of_nonempty (h : (i.multiples (10 ^ k)).Nonempty) :
    ∃ a, i.decimalWith? k = some a ∧ IsNearest (i.multiples (10 ^ k)) i.midpoint a := by
  have hd : 10 ^ k ≠ 0 := pow_ne_zero k (by decide)
  have hle := (multiples_nonempty_iff hd).1 h
  obtain ⟨hbelow, habove⟩ := between_neighbours hd i.midpoint
  obtain ⟨hlower, hupper⟩ := neighbours_of_mem i.midpoint_mem (10 ^ k)
  have hnearest := isNearest_image (mkRat_mono (10 ^ k)) hbelow habove hlower hupper hle
  rw [← multiples_eq i hd] at hnearest
  refine ⟨_, ?_, hnearest⟩
  simp only [decimalWith?, Nat.pow_eq, Bool.and_eq_true, decide_eq_true_eq, Ratio.abs_eq]
  rw [if_neg (not_lt.2 hle)]
  generalize (i.midpoint * (10 ^ k : Nat)).floor = m at hupper hlower ⊢
  generalize (i.low * (10 ^ k : Nat)).ceil = low at hle hlower ⊢
  generalize (i.high * (10 ^ k : Nat)).floor = high at hle hupper ⊢
  rw [neighbour_eq hlower hupper]

theorem isSome_decimalWith?_iff : (i.decimalWith? k).isSome ↔ (i.multiples (10 ^ k)).Nonempty := by
  by_cases h : (i.multiples (10 ^ k)).Nonempty
  · obtain ⟨a, ha, -⟩ := decimalWith?_of_nonempty h
    simp [ha, h]
  · simp [decimalWith?_of_empty h, h]

/-! ## The shortest decimal -/

/-- The first number of places that some decimal of the interval has is taken, if there is one up to
twenty. -/
theorem shortestDecimal_cases (i : Interval) :
    (∃ p ≤ 20, IsLeast {p | (i.multiples (10 ^ p)).Nonempty} p ∧
      IsNearest (i.multiples (10 ^ p)) i.midpoint i.shortestDecimal) ∨
    (∀ p ≤ 20, ¬ (i.multiples (10 ^ p)).Nonempty) ∧ i.shortestDecimal = i.midpoint := by
  by_cases h : ∃ p ≤ 20, (i.multiples (10 ^ p)).Nonempty
  · obtain ⟨m, hm, hne⟩ := h
    classical
    obtain ⟨p, hp⟩ : ∃ p, IsLeast {p | (i.multiples (10 ^ p)).Nonempty} p :=
      ⟨_, Nat.isLeast_find ⟨m, hne⟩⟩
    have hpm : p ≤ m := hp.2 hne
    obtain ⟨a, ha, hnearest⟩ := decimalWith?_of_nonempty hp.1
    have hsome : IsLeast {p | (i.decimalWith? p).isSome} p := by
      simpa only [isSome_decimalWith?_iff] using hp
    refine .inl ⟨p, hpm.trans hm, hp, ?_⟩
    rwa [shortestDecimal, findSome?_range_of_least hsome, if_pos (by omega), ha, Option.getD_some]
  · have hnone : ∀ p ≤ 20, ¬ (i.multiples (10 ^ p)).Nonempty := fun p hp hne => h ⟨p, hp, hne⟩
    refine .inr ⟨hnone, ?_⟩
    rw [shortestDecimal, List.findSome?_eq_none_iff.2, Option.getD_none]
    exact fun p hp => decimalWith?_of_empty (hnone p (Nat.le_of_lt_succ (List.mem_range.1 hp)))

theorem shortestDecimal_mem (i : Interval) : i.shortestDecimal ∈ i := by
  rcases i.shortestDecimal_cases with ⟨p, -, -, hnearest⟩ | ⟨-, h⟩
  · exact hnearest.mem.1
  · rw [h]
    exact i.midpoint_mem

theorem hasPlaces_shortestDecimal (h : HasPlaces i.midpoint defaultDigits) :
    HasPlaces i.shortestDecimal defaultDigits := by
  rcases i.shortestDecimal_cases with ⟨p, hp, -, hnearest⟩ | ⟨-, heq⟩
  · exact (mem_multiples_ten_iff.1 hnearest.mem).2.mono hp
  · rwa [heq]

/-- **The shortest decimal is optimal.** If an interval has a decimal with at most twenty places, the
result is in the interval, has the fewest places that a decimal of the interval can have, and is as
near to the midpoint as any decimal of the interval with as many places, the lower one of two. The
result for any other interval is the midpoint. -/
theorem shortestDecimal_optimal (i : Interval) :
    ((∃ p ≤ 20, ∃ a ∈ i, HasPlaces a p) →
      ∃ p ≤ 20, IsLeast {p | ∃ a ∈ i, HasPlaces a p} p ∧
        IsNearest {a | a ∈ i ∧ HasPlaces a p} i.midpoint i.shortestDecimal) ∧
    ((∀ p ≤ 20, ∀ a ∈ i, ¬ HasPlaces a p) → i.shortestDecimal = i.midpoint) := by
  have hset : ∀ p, i.multiples (10 ^ p) = {a | a ∈ i ∧ HasPlaces a p} := fun p =>
    Set.ext fun a => mem_multiples_ten_iff
  have hcases := i.shortestDecimal_cases
  simp only [hset, Set.nonempty_def, Set.mem_ofPred_eq] at hcases
  rcases hcases with h | ⟨hnone, h⟩
  · refine ⟨fun _ => h, fun hnone => ?_⟩
    obtain ⟨p, hp, ⟨⟨a, ha, hplaces⟩, -⟩, -⟩ := h
    exact absurd hplaces (hnone p hp a ha)
  · exact ⟨fun ⟨p, hp, ha⟩ => absurd ha (hnone p hp), fun _ => h⟩

/-- The midpoint of `[-3/8, -1/8]` is as far from one tenth as from another, and the lower one is
taken; a third is no decimal, and itself the midpoint. -/
theorem lower_of_two_tenths :
    let i := hull (-3 / 8) (-1 / 8)
    let third := point (1 / 3)
    (((-3 / 10 : Rat) ∈ i ∧ HasPlaces (-3 / 10) 1) ∧ ((-2 / 10 : Rat) ∈ i ∧ HasPlaces (-2 / 10) 1) ∧
      ∃ p ≤ 20, IsLeast {p | ∃ a ∈ i, HasPlaces a p} p ∧
        IsNearest {a | a ∈ i ∧ HasPlaces a p} i.midpoint (-3 / 10)) ∧
    (∀ p ≤ 20, ∀ a ∈ third, ¬ HasPlaces a p) ∧ third.shortestDecimal = third.midpoint := by
  intro i third
  have hlower : (-3 / 10 : Rat) ∈ i ∧ HasPlaces (-3 / 10) 1 := by with_unfolding_all decide
  have hupper : (-2 / 10 : Rat) ∈ i ∧ HasPlaces (-2 / 10) 1 := by with_unfolding_all decide
  have hfound : i.shortestDecimal = -3 / 10 := by with_unfolding_all decide
  have hoptimal := i.shortestDecimal_optimal.1 ⟨1, by decide, _, hlower⟩
  rw [hfound] at hoptimal
  have hnone : ∀ p ≤ 20, ∀ a ∈ third, ¬ HasPlaces a p := by
    intro p hp a ha
    have hplaces : ∀ p ≤ 20, ¬ HasPlaces (1 / 3) p := by with_unfolding_all decide
    rw [le_antisymm ha.2 ha.1]
    exact hplaces p hp
  exact ⟨⟨hlower, hupper, hoptimal⟩, hnone, third.shortestDecimal_optimal.2 hnone⟩

end Interval

end RatCalc

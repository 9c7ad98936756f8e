import Mathlib.Algebra.Order.Field.Basic
import Mathlib.Data.Rat.Cast.Order
import Mathlib.Tactic.FieldSimp
import Mathlib.Tactic.Push
import RatCalc.Operand.ContinuedFraction
import RatCalc.Proofs.Convergents

/-!
# The closest fraction with a bounded denominator

Distances from `n / d` are compared after multiplication by `d` and the denominators, as
`distance` and `closer` do.

* `Surrounded`: `n / d` is a mediant of two neighbouring fractions, with positive weights;
  `Surrounded.closest`: a fraction whose denominator is smaller than the sum of the neighbours'
  ones is at most as close as one of the two.
* `Bounded`: what each step of the loop keeps, with `bounded_first` for the first convergent,
  `Bounded.next` for a step that goes on and `Bounded.stop` for the one that stops.
* `bestApproximation_closest`: the result is closest, and so
  **`Operand.approximate_optimal`**: no fraction with a denominator up to the limit is closer than
  the result, and none with a smaller denominator is as close.
-/

namespace RatCalc

namespace ContinuedFraction

/-! ## Distances -/

/-- A fraction that no other one with a denominator up to the limit is closer than, and that is
closer than those with smaller denominators. -/
structure Closest (n d limit : Int) (p : Pair) : Prop where
  pos : 1 ≤ p.2
  le_limit : p.2 ≤ limit
  closest : ∀ u : Pair, 1 ≤ u.2 → u.2 ≤ limit → distance p n d * u.2 ≤ distance u n d * p.2
  least : ∀ u : Pair, 1 ≤ u.2 → u.2 < p.2 → distance p n d * u.2 < distance u n d * p.2

theorem distance_nonneg (p : Pair) (n d : Int) : 0 ≤ distance p n d :=
  Int.natCast_nonneg _

theorem distance_eq_abs (p : Pair) (n d : Int) : distance p n d = |p.1 * d - n * p.2| := by
  rw [distance, Int.natCast_natAbs]

/-- The distance of two rational numbers. -/
theorem abs_sub_eq (n p : Int) {d q : Int} (hd : 0 < d) (hq : 0 < q) :
    |(n / d : ℚ) - p / q| = distance (p, q) n d / (d * q) := by
  have hd' : (0 : ℚ) < d := by exact_mod_cast hd
  have hq' : (0 : ℚ) < q := by exact_mod_cast hq
  rw [abs_sub_comm, div_sub_div _ _ hq'.ne' hd'.ne', abs_div, abs_of_pos (mul_pos hq' hd'),
    distance_eq_abs, mul_comm (q : ℚ) n, mul_comm (q : ℚ) d]
  push_cast
  rfl

/-- Fractions at their distances, brought to one denominator. -/
theorem abs_sub_le_iff {n d p q u v : Int} (hd : 0 < d) (hq : 0 < q) (hv : 0 < v) :
    |(n / d : ℚ) - p / q| ≤ |(n / d : ℚ) - u / v| ↔
      distance (p, q) n d * v ≤ distance (u, v) n d * q := by
  have hd' : (0 : ℚ) < d := by exact_mod_cast hd
  have hq' : (0 : ℚ) < q := by exact_mod_cast hq
  have hv' : (0 : ℚ) < v := by exact_mod_cast hv
  rw [abs_sub_eq n p hd hq, abs_sub_eq n u hd hv, div_le_div_iff₀ (by positivity) (by positivity),
    mul_left_comm, mul_left_comm _ (d : ℚ) (q : ℚ), mul_le_mul_iff_right₀ hd']
  exact_mod_cast Iff.rfl

theorem abs_sub_lt_iff {n d p q u v : Int} (hd : 0 < d) (hq : 0 < q) (hv : 0 < v) :
    |(n / d : ℚ) - p / q| < |(n / d : ℚ) - u / v| ↔
      distance (p, q) n d * v < distance (u, v) n d * q := by
  have hd' : (0 : ℚ) < d := by exact_mod_cast hd
  have hq' : (0 : ℚ) < q := by exact_mod_cast hq
  have hv' : (0 : ℚ) < v := by exact_mod_cast hv
  rw [abs_sub_eq n p hd hq, abs_sub_eq n u hd hv, div_lt_div_iff₀ (by positivity) (by positivity),
    mul_left_comm, mul_left_comm _ (d : ℚ) (q : ℚ), mul_lt_mul_iff_right₀ hd']
  exact_mod_cast Iff.rfl

/-! ## Neighbours -/

/-- Two fractions of determinant one with `n / d` between them: numerator and denominator of `n / d`
are sums of theirs, taken `α` and `β` times. -/
structure Surrounded (n d : Int) (p s : Pair) (α β : Int) : Prop where
  neighbours : |p.1 * s.2 - s.1 * p.2| = 1
  first_pos : 0 < α
  second_pos : 0 < β
  num_eq : n = α * p.1 + β * s.1
  den_eq : d = α * p.2 + β * s.2

namespace Surrounded

variable {n d : Int} {p s : Pair} {α β : Int}

/-- Every fraction is made of the two neighbours. -/
theorem exists_weights (h : Surrounded n d p s α β) (u : Pair) :
    ∃ x y : Int, u = (x * p.1 + y * s.1, x * p.2 + y * s.2) := by
  have hdet := h.neighbours
  set δ := p.1 * s.2 - s.1 * p.2 with hδ
  have hone : δ * δ = 1 := by
    rcases abs_eq (zero_le_one) |>.mp hdet with hδ | hδ <;> rw [hδ] <;> norm_num
  refine ⟨δ * (u.1 * s.2 - s.1 * u.2), δ * (p.1 * u.2 - u.1 * p.2), Prod.ext ?_ ?_⟩
  · calc u.1 = δ * δ * u.1 := by rw [hone, one_mul]
      _ = _ := by simp only [hδ]; ring
  · calc u.2 = δ * δ * u.2 := by rw [hone, one_mul]
      _ = _ := by simp only [hδ]; ring

/-- The distance of a fraction made of the two neighbours. -/
theorem distance_weights (h : Surrounded n d p s α β) (x y : Int) :
    distance (x * p.1 + y * s.1, x * p.2 + y * s.2) n d = |x * β - y * α| := by
  have hcross : (x * p.1 + y * s.1) * d - n * (x * p.2 + y * s.2) =
      (x * β - y * α) * (p.1 * s.2 - s.1 * p.2) := by
    rw [h.num_eq, h.den_eq]
    ring
  rw [distance_eq_abs, hcross, abs_mul, h.neighbours, mul_one]

theorem distance_first (h : Surrounded n d p s α β) : distance p n d = β := by
  have := h.distance_weights 1 0
  simp only [one_mul, zero_mul, add_zero, sub_zero] at this
  rw [this, abs_of_pos h.second_pos]

/-- The neighbours in the other order. -/
theorem symm (h : Surrounded n d p s α β) : Surrounded n d s p β α := by
  refine ⟨?_, h.second_pos, h.first_pos, ?_, ?_⟩
  · rw [← h.neighbours, ← abs_neg, neg_sub]
  · rw [h.num_eq, add_comm]
  · rw [h.den_eq, add_comm]

theorem distance_second (h : Surrounded n d p s α β) : distance s n d = α :=
  h.symm.distance_first

/-- A fraction on the side of the first neighbour is not closer than that, and farther away if it
has a smaller denominator. -/
theorem closest_of_weights (h : Surrounded n d p s α β) (hd : 0 < d) (hp : 0 ≤ p.2) {u : Pair}
    {x y : Int} (hu : u = (x * p.1 + y * s.1, x * p.2 + y * s.2)) (hx : 0 < x) (hy : y ≤ 0) :
    distance p n d * u.2 ≤ distance u n d * p.2 ∧
      (u.2 < p.2 → distance p n d * u.2 < distance u n d * p.2) := by
  have hα := h.first_pos
  have hβ := h.second_pos
  rw [h.distance_first, hu, h.distance_weights, abs_of_pos (show 0 < x * β - y * α by nlinarith)]
  have hgap : (x * β - y * α) * p.2 = β * (x * p.2 + y * s.2) + -y * d := by
    rw [h.den_eq]
    ring
  refine ⟨by nlinarith, fun hsmall => ?_⟩
  -- without the second neighbour the denominator would be a multiple of the first one's
  have hy : y < 0 := by
    by_contra hy0
    obtain rfl : y = 0 := by omega
    nlinarith
  nlinarith

/-- A fraction whose denominator is smaller than those of both neighbours together is at most as
close as one of the two, and not even that if its denominator is also smaller than this one's. -/
theorem closest (h : Surrounded n d p s α β) (hp : 0 < p.2) (hs : 0 ≤ s.2) (u : Pair)
    (hu : 1 ≤ u.2) (hlt : u.2 < p.2 + s.2) :
    (distance p n d * u.2 ≤ distance u n d * p.2 ∧
      (u.2 < p.2 → distance p n d * u.2 < distance u n d * p.2)) ∨
    (distance s n d * u.2 ≤ distance u n d * s.2 ∧
      (u.2 < s.2 → distance s n d * u.2 < distance u n d * s.2)) := by
  have hα := h.first_pos
  have hβ := h.second_pos
  have hd : 0 < d := by rw [h.den_eq]; positivity
  obtain ⟨x, y, hxy⟩ := h.exists_weights u
  have hden : u.2 = x * p.2 + y * s.2 := congrArg Prod.snd hxy
  -- one of the weights is positive and the other one is not
  rcases le_or_gt x 0 with hx | hx
  · have hy : 0 < y := by
      by_contra hy
      nlinarith
    refine .inr (h.symm.closest_of_weights hd hs ?_ hy hx)
    rw [hxy, add_comm (x * p.1), add_comm (x * p.2)]
  · have hy : y ≤ 0 := by
      by_contra hy
      nlinarith
    exact .inl (h.closest_of_weights hd hp.le hxy hx hy)

/-- The first neighbour is the closest fraction if the second one is not closer. It has to be
farther away if its denominator may be the smaller one. -/
theorem closest_first (h : Surrounded n d p s α β) {limit : Int} (hp : 0 < p.2) (hs : 0 ≤ s.2)
    (hle : p.2 ≤ limit) (hlt : limit < p.2 + s.2)
    (hcloser : distance p n d * s.2 ≤ distance s n d * p.2)
    (hsmall : s.2 < p.2 → distance p n d * s.2 < distance s n d * p.2) : Closest n d limit p := by
  have key : ∀ u : Pair, 1 ≤ u.2 → u.2 ≤ limit →
      distance p n d * u.2 ≤ distance u n d * p.2 ∧
        (u.2 < p.2 → distance p n d * u.2 < distance u n d * p.2) := by
    intro u hu hul
    rcases h.closest hp hs u hu (by omega) with hfirst | ⟨hsecond, hless⟩
    · exact hfirst
    · have hspos : 0 < s.2 := by
        by_contra hzero
        have hzero : s.2 = 0 := by omega
        have := hsmall (by omega)
        rw [hzero] at this hsecond
        nlinarith
      have hcommon : s.2 * (distance p n d * u.2) ≤ p.2 * (distance s n d * u.2) := by nlinarith
      have hscaled : p.2 * (distance s n d * u.2) ≤ s.2 * (distance u n d * p.2) := by nlinarith
      refine ⟨le_of_mul_le_mul_left (hcommon.trans hscaled) hspos,
        fun hup => lt_of_mul_lt_mul_left ?_ hs⟩
      rcases lt_or_ge u.2 s.2 with hus | hus
      · exact hcommon.trans_lt (by nlinarith [hless hus])
      · exact lt_of_lt_of_le (by nlinarith [hsmall (by omega)]) hscaled
  exact ⟨hp, hle, fun u hu hul => (key u hu hul).1,
    fun u hu hul => (key u hu (by omega)).2 hul⟩

end Surrounded

/-! ## The loop -/

/-- What the loop keeps: the last two convergents are neighbours with denominators up to the limit,
and the terms that are left lead from them to the quotient. -/
structure Bounded (n d limit : Int) (previous earlier : Pair) (terms : List Int) : Prop where
  neighbours : |previous.1 * earlier.2 - earlier.1 * previous.2| = 1
  previous_pos : 0 < previous.2
  previous_le : previous.2 ≤ limit
  earlier_nonneg : 0 ≤ earlier.2
  earlier_le : earlier.2 ≤ previous.2
  num_eq : n = (fold terms).1 * previous.1 + (fold terms).2 * earlier.1
  den_eq : d = (fold terms).1 * previous.2 + (fold terms).2 * earlier.2
  canonical : ∃ a, Canonical (a :: terms)

namespace Bounded

variable {n d limit : Int} {previous earlier : Pair} {a : Int} {rest : List Int}

theorem one_le (h : Bounded n d limit previous earlier (a :: rest)) : 1 ≤ a := by
  obtain ⟨b, hcan⟩ := h.canonical
  exact (canonical_cons_iff.1 hcan).1

theorem canonical_rest (h : Bounded n d limit previous earlier (a :: rest)) :
    ∃ a, Canonical (a :: rest) := by
  obtain ⟨b, hcan⟩ := h.canonical
  exact ⟨a, (canonical_cons_iff.1 hcan).2.2⟩

/-- A convergent within the limit becomes the last one. -/
theorem next (h : Bounded n d limit previous earlier (a :: rest))
    (hle : a * previous.2 + earlier.2 ≤ limit) :
    Bounded n d limit (a * previous.1 + earlier.1, a * previous.2 + earlier.2) previous rest := by
  have ha := h.one_le
  have hpos := h.previous_pos
  have hnonneg := h.earlier_nonneg
  refine ⟨?_, ?_, hle, hpos.le, ?_, ?_, ?_, h.canonical_rest⟩
  · rw [← h.neighbours, ← abs_neg]
    congr 1
    simp only
    ring
  · show 0 < a * previous.2 + earlier.2
    nlinarith
  · show previous.2 ≤ a * previous.2 + earlier.2
    nlinarith
  · rw [h.num_eq, fold_cons]
    simp only
    ring
  · rw [h.den_eq, fold_cons]
    simp only
    ring

/-- The quotient stands between the last convergent and any semiconvergent before the next one. -/
theorem surrounded (h : Bounded n d limit previous earlier (a :: rest)) {steps : Int}
    (hsteps : steps < a) :
    Surrounded n d previous (steps * previous.1 + earlier.1, steps * previous.2 + earlier.2)
      ((fold (a :: rest)).1 - steps * (fold (a :: rest)).2) (fold (a :: rest)).2 := by
  obtain ⟨hden, hnum⟩ := fold_left h.canonical_rest
  refine ⟨?_, ?_, by simp only [fold_cons]; omega, ?_, ?_⟩
  · rw [← h.neighbours]
    congr 1
    simp only
    ring
  · show 0 < a * (fold rest).1 + (fold rest).2 - steps * (fold rest).1
    nlinarith
  · rw [h.num_eq]
    ring
  · rw [h.den_eq]
    ring

/-- The convergent before the last one is farther away. -/
theorem earlier_farther (h : Bounded n d limit previous earlier (a :: rest)) :
    distance previous n d * earlier.2 < distance earlier n d * previous.2 := by
  have hbetween := h.surrounded (show (0 : Int) < a by have := h.one_le; omega)
  simp only [zero_mul, zero_add, sub_zero] at hbetween
  rw [hbetween.distance_first, hbetween.distance_second]
  have hfold := fold_left h.canonical
  have hpos := h.previous_pos
  have hnonneg := h.earlier_nonneg
  have hle := h.earlier_le
  nlinarith

/-- The largest semiconvergent within the limit stands before the next convergent. -/
theorem steps_spec (h : Bounded n d limit previous earlier (a :: rest))
    (hlt : limit < a * previous.2 + earlier.2) :
    let steps := (limit - earlier.2).fdiv previous.2
    0 ≤ steps ∧ steps < a ∧ steps * previous.2 + earlier.2 ≤ limit ∧
      limit < previous.2 + (steps * previous.2 + earlier.2) := by
  have hpos := h.previous_pos
  have hle := h.previous_le
  have hsum := h.earlier_le
  have hdiv := Int.mul_fdiv_add_fmod (limit - earlier.2) previous.2
  have hmod := Int.fmod_nonneg_of_pos (limit - earlier.2) hpos
  have hmod' := Int.fmod_lt_of_pos (limit - earlier.2) hpos
  intro steps
  change previous.2 * steps + _ = _ at hdiv
  refine ⟨?_, ?_, by nlinarith, by nlinarith⟩
  · by_contra hneg
    nlinarith
  · by_contra hge
    nlinarith

/-- Where the next convergent is over the limit, the closer one of the last convergent and the
largest semiconvergent within the limit is the closest fraction. -/
theorem stop (h : Bounded n d limit previous earlier (a :: rest))
    (hlt : limit < a * previous.2 + earlier.2) :
    Closest n d limit (approximateFrom n d limit previous earlier (a :: rest)) := by
  have hpos := h.previous_pos
  have hnonneg := h.earlier_nonneg
  obtain ⟨hsteps, ha, hwithin, hover⟩ := h.steps_spec hlt
  rw [approximateFrom, if_pos hlt]
  simp only
  generalize (limit - earlier.2).fdiv previous.2 = steps at *
  have hbetween := h.surrounded ha
  rcases hsteps.eq_or_lt with rfl | hsteps
  · -- the semiconvergent is the convergent before the last one
    rw [if_neg (by simp)]
    simp only [zero_mul, zero_add] at hbetween hover
    exact hbetween.closest_first hpos hnonneg h.previous_le hover h.earlier_farther.le
      fun _ => h.earlier_farther
  · have hlarge : previous.2 ≤ steps * previous.2 + earlier.2 := by nlinarith
    have hsemi : 0 < steps * previous.2 + earlier.2 := hpos.trans_le hlarge
    split_ifs with hcloser <;>
      simp only [closer, Bool.and_eq_true, decide_eq_true_eq, not_and, not_lt] at hcloser
    · exact hbetween.symm.closest_first hsemi hpos.le hwithin (by rwa [add_comm]) hcloser.2.le
        fun _ => hcloser.2
    · exact hbetween.closest_first hpos hsemi.le h.previous_le hover (hcloser hsteps)
        fun hsmall => absurd hsmall hlarge.not_gt

/-- The whole loop, for a limit below the denominator. -/
theorem closest {ts : List Int} (h : Bounded n d limit previous earlier ts) (hlt : limit < d) :
    Closest n d limit (approximateFrom n d limit previous earlier ts) := by
  induction ts generalizing previous earlier with
  | nil =>
    -- without terms the last convergent is the quotient, but that is over the limit
    have := h.den_eq
    have := h.previous_le
    simp at *
    omega
  | cons a rest ih =>
    rcases lt_or_ge limit (a * previous.2 + earlier.2) with hover | hwithin
    · exact h.stop hover
    · rw [approximateFrom, if_neg (by simpa using hwithin)]
      exact ih (h.next hwithin)

end Bounded

/-- A quotient with a denominator up to the limit is its own closest fraction. -/
theorem closest_self {n d limit : Int} (hd : 0 < d) (hred : Int.gcd n d = 1) (hle : d ≤ limit) :
    Closest n d limit (n, d) := by
  have hzero : distance (n, d) n d = 0 := by simp [distance]
  refine ⟨hd, hle, fun u hu _ => ?_, fun u hu hlt => ?_⟩
  · rw [hzero, zero_mul]
    exact mul_nonneg (distance_nonneg u n d) hd.le
  · rw [hzero, zero_mul]
    refine mul_pos ((distance_nonneg u n d).lt_of_ne fun heq => ?_) hd
    -- the same number in lowest terms has the smaller denominator
    have hcross : u.1 * d = n * u.2 := by
      rw [distance_eq_abs, eq_comm, abs_eq_zero] at heq
      linarith
    have hdvd : d ∣ u.2 := by
      refine Int.dvd_of_dvd_mul_right_of_gcd_one (b := n) ?_ (by rwa [Int.gcd_comm])
      exact ⟨u.1, by linarith⟩
    exact absurd (Int.le_of_dvd (by omega) hdvd) (by omega)

/-- The first convergent is an integer, with the terms of what is left behind it. -/
theorem bounded_first (n : Int) {d : Nat} {limit : Int} (hpos : 0 < d) (hred : Int.gcd n d = 1)
    (hlimit : 1 ≤ limit) :
    Bounded n d limit (n / d, 1) (1, 0) (termsOf d (n % d).toNat) := by
  have hcan := canonical_termsOf n hpos
  have hfold := fold_termsOf n hpos
  rw [termsOf_of_pos n hpos] at hcan hfold
  rw [hred] at hfold
  refine ⟨by simp, by simp, hlimit, by simp, by simp, ?_, ?_, _, hcan⟩
  · simpa [eq_comm, mul_comm] using hfold.1
  · simpa [eq_comm, mul_comm] using hfold.2

/-- The closest fraction, with distances as the program compares them. -/
theorem bestApproximation_closest {n d limit : Int} (hd : 0 < d) (hred : Int.gcd n d = 1)
    (hlimit : 1 ≤ limit) :
    ∃ p, bestApproximation n d limit = .ok p ∧ Closest n d limit p := by
  rw [bestApproximation, if_neg (by omega), if_neg (by omega)]
  simp only
  rcases le_or_gt d limit with hle | hlt
  · rw [if_pos hle]
    exact ⟨(n, d), rfl, closest_self hd hred hle⟩
  · rw [if_neg (by omega)]
    refine ⟨_, rfl, ?_⟩
    lift d to Nat using hd.le
    have hpos : 0 < d := by omega
    rw [Int.natAbs_natCast, termsOf_of_pos n hpos, approximateFrom, if_neg (by simp; omega)]
    simpa using (bounded_first n hpos hred hlimit).closest hlt

-- 3/10 is a semiconvergent, after the convergent 1/3
example : bestApproximation 31 100 10 = .ok (3, 10) := by cbv

end ContinuedFraction

namespace Operand

/-! ## Plain integers as operands -/

open ContinuedFraction

theorem approximate_whole (n d limit : Int) :
    approximate (whole n) (whole d) (whole limit) =
      (bestApproximation n d limit).map fun p => (whole p.1, whole p.2) := by
  have hopposite (k : Int) : (whole k).opposite = .ok (whole (-k)) := rfl
  unfold approximate bestApproximation
  rw [isBelow_whole, isBelow_whole]
  rcases lt_or_ge limit 1 with hl | hl
  · rw [decide_eq_true hl, if_pos hl]
    rfl
  · rw [decide_eq_false hl.not_gt, if_neg hl.not_gt]
    rcases lt_or_ge d 0 with hd | hd
    · have hneg : -(d : Rat) ≤ limit ↔ -d ≤ limit := by exact_mod_cast Iff.rfl
      by_cases h : -d ≤ limit <;>
        simp [hd, hd.not_gt, hl.not_gt, h, hneg, hopposite, size?_whole, plain_whole, bind,
          Except.bind, pure, Except.pure, Except.map]
    · have hpos : (d : Rat) ≤ limit ↔ d ≤ limit := by exact_mod_cast Iff.rfl
      by_cases h : d ≤ limit <;>
        simp [hd.not_gt, hl.not_gt, h, hpos, size?_whole, plain_whole, bind, Except.bind, pure,
          Except.pure, Except.map]

/-- **The closest fraction with a bounded denominator.** For a fraction in lowest terms the result
has a denominator up to the limit, no fraction with such a denominator is closer, and none with a
smaller denominator is as close. -/
theorem approximate_optimal {n d limit : Int} (hd : 0 < d) (hred : Int.gcd n d = 1)
    (hlimit : 1 ≤ limit) :
    ∃ p q : Int, approximate (whole n) (whole d) (whole limit) = .ok (whole p, whole q) ∧
      1 ≤ q ∧ q ≤ limit ∧
      (∀ u v : Int, 1 ≤ v → v ≤ limit → |(n / d : ℚ) - p / q| ≤ |(n / d : ℚ) - u / v|) ∧
      (∀ u v : Int, 1 ≤ v → v < q → |(n / d : ℚ) - p / q| < |(n / d : ℚ) - u / v|) := by
  obtain ⟨⟨p, q⟩, heq, h⟩ := bestApproximation_closest hd hred hlimit
  refine ⟨p, q, ?_, h.pos, h.le_limit, fun u v hv hle => ?_, fun u v hv hlt => ?_⟩
  · rw [approximate_whole, heq]
    rfl
  · exact (abs_sub_le_iff hd h.pos hv).mpr (h.closest (u, v) hv hle)
  · exact (abs_sub_lt_iff hd h.pos hv).mpr (h.least (u, v) hv hlt)

/-- The fraction closest to 31/100 with a denominator up to ten. -/
theorem approximate_thirty_one_hundredths :
    (0 : Int) < 100 ∧ Int.gcd 31 100 = 1 ∧ (1 : Int) ≤ 10 ∧
      ∃ p q : Int, approximate (whole 31) (whole 100) (whole 10) = .ok (whole p, whole q) ∧
        1 ≤ q ∧ q ≤ 10 ∧
        (∀ u v : Int, 1 ≤ v → v ≤ 10 →
          |((31 : Int) / (100 : Int) : ℚ) - p / q| ≤ |((31 : Int) / (100 : Int) : ℚ) - u / v|) ∧
        (∀ u v : Int, 1 ≤ v → v < q →
          |((31 : Int) / (100 : Int) : ℚ) - p / q| < |((31 : Int) / (100 : Int) : ℚ) - u / v|) :=
  ⟨by decide, by decide, by decide, approximate_optimal (by decide) (by decide) (by decide)⟩

end Operand

end RatCalc

import Mathlib.Data.List.Chain
import Mathlib.RingTheory.Coprime.Lemmas
import RatCalc.Proofs.BestApproximation
import RatCalc.Proofs.RationalOperand

/-!
# The convergents of a number

* `determinant_convergentsFrom`: neighbouring convergents have the determinants one and minus one,
  one after the other.
* `Bounded.reached`: what `Bounded` says of the first convergent holds at each of them, and so each
  one is in lowest terms (`gcd_eq_one`) and on the side of the quotient that its determinant tells
  (`signed_distance`).
* `Bounded.isChain_closer`: each convergent is closer than the one before.
* **`convergents_approach`**: the determinants, and the convergents of a rational number.
-/

namespace RatCalc.ContinuedFraction

/-! ## Neighbouring convergents -/

/-- The difference of two fractions, times both denominators. -/
def determinant (p q : Pair) : Int := p.1 * q.2 - q.1 * p.2

theorem determinant_next (a : Int) (p q : Pair) :
    determinant (a * p.1 + q.1, a * p.2 + q.2) p = -determinant p q := by
  simp only [determinant]
  ring

/-- Each convergent changes the sign of the determinant. -/
theorem determinant_convergentsFrom (terms : List Int) (p q : Pair) {i : Nat} {b c : Pair}
    (hb : (p :: convergentsFrom p q terms)[i]? = some b)
    (hc : (convergentsFrom p q terms)[i]? = some c) :
    determinant c b = (-1) ^ (i + 1) * determinant p q := by
  induction terms generalizing p q i with
  | nil => simp [convergentsFrom] at hc
  | cons a rest ih =>
    rw [convergentsFrom] at hb hc
    cases i with
    | zero =>
      obtain rfl := Option.some.inj hb
      obtain rfl := Option.some.inj hc
      rw [determinant_next, zero_add, pow_one, neg_one_mul]
    | succ i =>
      rw [List.getElem?_cons_succ] at hb hc
      rw [ih _ _ hb hc, determinant_next, pow_succ _ (i + 1)]
      ring

theorem determinant_convergents {terms : List Int} {i : Nat} {b c : Pair}
    (hb : (convergents terms)[i]? = some b) (hc : (convergents terms)[i + 1]? = some c) :
    determinant c b = (-1) ^ i := by
  have hone : determinant (1, 0) (0, 1) = 1 := rfl
  have hb : ((1, 0) :: convergentsFrom (1, 0) (0, 1) terms)[i + 1]? = some b :=
    List.getElem?_cons_succ.trans hb
  rw [determinant_convergentsFrom terms (1, 0) (0, 1) hb hc, hone]
  ring

theorem length_convergentsFrom (terms : List Int) (p q : Pair) :
    (convergentsFrom p q terms).length = terms.length := by
  induction terms generalizing p q with
  | nil => rfl
  | cons a rest ih => rw [convergentsFrom, List.length_cons, ih, List.length_cons]

/-! ## The convergents of a quotient -/

namespace Bounded

variable {n d limit : Int} {p q : Pair} {a : Int} {rest terms : List Int}

/-- A fraction of determinant one with another is in lowest terms. -/
theorem gcd_eq_one (h : Bounded n d limit p q terms) : Int.gcd p.1 p.2 = 1 := by
  rw [← Int.isCoprime_iff_gcd_eq_one]
  rcases (abs_eq zero_le_one).1 h.neighbours with hdet | hdet
  · exact ⟨q.2, -q.1, by linarith⟩
  · exact ⟨-q.2, q.1, by linarith⟩

/-- What is left tells how far the quotient is, and the determinant on which side. -/
theorem signed_distance (h : Bounded n d limit p q terms) :
    p.1 * d - n * p.2 = (fold terms).2 * determinant p q := by
  rw [h.num_eq, h.den_eq, determinant]
  ring

theorem distance_eq (h : Bounded n d limit p q terms) : distance p n d = (fold terms).2 := by
  have hdet : |determinant p q| = 1 := h.neighbours
  rw [distance_eq_abs, h.signed_distance, abs_mul, hdet, mul_one,
    abs_of_nonneg (fold_left h.canonical).1]

/-- No convergent has a greater denominator than the quotient. -/
theorem next_le (h : Bounded n d limit p q (a :: rest)) : a * p.2 + q.2 ≤ d := by
  obtain ⟨hnonneg, hlt⟩ := fold_left h.canonical_rest
  have hone := h.one_le
  have hp := h.previous_pos
  have hq := h.earlier_nonneg
  have hden : d = (fold rest).1 * (a * p.2 + q.2) + (fold rest).2 * p.2 := by
    rw [h.den_eq, fold_cons]
    ring
  have hnext : 0 ≤ a * p.2 + q.2 := by positivity
  rw [hden]
  nlinarith

theorem den_pos (h : Bounded n d d p q terms) : 0 < d := h.previous_pos.trans_le h.previous_le

/-- **The next convergent is closer.** Less is left behind it, and its denominator is no smaller. -/
theorem next_closer (h : Bounded n d d p q (a :: rest)) :
    |(n / d : ℚ) - (a * p.1 + q.1 : Int) / (a * p.2 + q.2 : Int)| < |(n / d : ℚ) - p.1 / p.2| := by
  have hnext := h.next h.next_le
  obtain ⟨hnonneg, hlt⟩ := fold_left hnext.canonical
  have hle : p.2 ≤ a * p.2 + q.2 := hnext.earlier_le
  rw [abs_sub_lt_iff h.den_pos hnext.previous_pos h.previous_pos, hnext.distance_eq,
    h.distance_eq, fold_cons]
  exact mul_lt_mul hlt hle h.previous_pos (hnonneg.trans hlt.le)

theorem isChain_closer (h : Bounded n d d p q terms) :
    (p :: convergentsFrom p q terms).IsChain fun b c =>
      |(n / d : ℚ) - c.1 / c.2| < |(n / d : ℚ) - b.1 / b.2| := by
  induction terms generalizing p q with
  | nil => exact List.isChain_singleton p
  | cons a rest ih => exact List.isChain_cons_cons.2 ⟨h.next_closer, ih (h.next h.next_le)⟩

/-- Every convergent is reached, with the terms behind it left. -/
theorem reached (h : Bounded n d d p q terms) {i : Nat} {c : Pair}
    (hc : (p :: convergentsFrom p q terms)[i]? = some c) :
    ∃ b, Bounded n d d c b (terms.drop i) ∧ determinant c b = (-1) ^ i * determinant p q := by
  induction i generalizing p q terms with
  | zero =>
    obtain rfl := Option.some.inj hc
    exact ⟨q, h, by rw [pow_zero, one_mul]⟩
  | succ i ih =>
    cases terms with
    | nil => simp [convergentsFrom] at hc
    | cons a rest =>
      obtain ⟨b, hb, hdet⟩ := ih (h.next h.next_le) hc
      refine ⟨b, hb, ?_⟩
      rw [hdet, determinant_next, pow_succ]
      ring

end Bounded

/-! ## The convergents of a rational number -/

theorem mapM_ofInts {ps : List Pair} (h : ∀ p ∈ ps, p.2 ≠ 0) :
    (ps.mapM fun p => Ratio.ofInts p.1 p.2) = .ok (ps.map fun p => Rat.divInt p.1 p.2) := by
  induction ps with
  | nil => rfl
  | cons p rest ih =>
    rw [List.forall_mem_cons] at h
    rw [List.mapM_cons, ih h.2, Ratio.ofInts, if_neg h.1]
    rfl

theorem convergents_ne_nil {terms : List Int} (h : terms ≠ []) : convergents terms ≠ [] := by
  rw [← List.length_pos_iff, convergents, length_convergentsFrom]
  exact List.length_pos_iff.2 h

variable {x : Rat}

theorem getLast?_convergents (x : Rat) :
    (convergents (termsOf x.num x.den)).getLast? = some (x.num, (x.den : Int)) := by
  have hlast := last_convergents (termsOf x.num x.den)
  have hne := convergents_ne_nil (termsOf_ne_nil x.num x.den_pos)
  rw [List.getLast?_eq_some_getLast hne, Option.getD_some, fold_termsOf_num_den] at hlast
  rw [List.getLast?_eq_some_getLast hne, hlast]

/-- The first convergent, and those that are reached from it. -/
theorem exists_bounded (x : Rat) :
    ∃ (p : Pair) (rest : List Int), Bounded x.num x.den x.den p (1, 0) rest ∧
      determinant p (1, 0) = -1 ∧
      convergents (termsOf x.num x.den) = p :: convergentsFrom p (1, 0) rest := by
  have hone : (1 : Int) ≤ x.den := by exact_mod_cast x.den_pos
  refine ⟨_, _, bounded_first x.num x.den_pos x.reduced hone, ?_, ?_⟩
  · simp [determinant]
  · rw [termsOf_of_pos x.num x.den_pos]
    simp [convergents, convergentsFrom]

theorem convergents_reduced {p : Pair} (h : p ∈ convergents (termsOf x.num x.den)) :
    0 < p.2 ∧ Int.gcd p.1 p.2 = 1 := by
  obtain ⟨q, rest, hbounded, -, heq⟩ := exists_bounded x
  rw [heq] at h
  obtain ⟨i, hi⟩ := List.mem_iff_getElem?.1 h
  obtain ⟨b, hb, -⟩ := hbounded.reached hi
  exact ⟨hb.previous_pos, hb.gcd_eq_one⟩

/-- The convergents with even places are not greater, those with odd places are not smaller. -/
theorem sides {i : Nat} {p : Pair} (h : (convergents (termsOf x.num x.den))[i]? = some p) :
    (Even i → Rat.divInt p.1 p.2 ≤ x) ∧ (Odd i → x ≤ Rat.divInt p.1 p.2) := by
  obtain ⟨q, rest, hbounded, hfirst, heq⟩ := exists_bounded x
  rw [heq] at h
  obtain ⟨b, hb, hdet⟩ := hbounded.reached h
  have hsigned := hb.signed_distance
  have hleft := (fold_left hb.canonical).1
  have hden : (0 : Int) < x.den := hbounded.den_pos
  rw [hdet, hfirst] at hsigned
  rw [← Rat.num_divInt_den x, Rat.divInt_le_divInt hb.previous_pos hden,
    Rat.divInt_le_divInt hden hb.previous_pos]
  constructor
  · intro heven
    rw [heven.neg_one_pow] at hsigned
    linarith
  · intro hodd
    rw [hodd.neg_one_pow] at hsigned
    linarith

theorem pairwise_distances (x : Rat) :
    ((convergents (termsOf x.num x.den)).map fun p => |x - Rat.divInt p.1 p.2|).Pairwise
      (· > ·) := by
  obtain ⟨p, rest, hbounded, -, heq⟩ := exists_bounded x
  rw [← List.isChain_iff_pairwise, List.isChain_map, heq]
  refine hbounded.isChain_closer.imp fun b c h => ?_
  simpa only [Rat.divInt_eq_div, Int.cast_natCast, Rat.num_div_den] using h

/-- **Convergents approach their number.** Neighbouring convergents of any terms have the
determinants one and minus one in turn. Those of a rational number, as numbers, are kept as they are
worked out, stand on both sides of the number in turn, come closer with each one, and end in the
number. -/
theorem convergents_approach :
    (∀ terms : List Int, (convergents terms).length = terms.length ∧
      ∀ (i : Nat) (b c : Pair), (convergents terms)[i]? = some b →
        (convergents terms)[i + 1]? = some c → c.1 * b.2 - b.1 * c.2 = (-1) ^ i) ∧
    ∀ x : Rat, ∃ cs : List Rat,
      ((convergents (termsOf x.num x.den)).mapM fun p => Ratio.ofInts p.1 p.2) = .ok cs ∧
      convergents (termsOf x.num x.den) = cs.map Ratio.parts ∧
      cs.getLast? = some x ∧
      (∀ (i : Nat) (c : Rat), cs[i]? = some c → (Even i → c ≤ x) ∧ (Odd i → x ≤ c)) ∧
      (cs.map fun c => |x - c|).Pairwise (· > ·) := by
  refine ⟨fun terms => ⟨length_convergentsFrom terms _ _, fun _ _ _ => determinant_convergents⟩,
    fun x => ?_⟩
  set ps := convergents (termsOf x.num x.den)
  have hreduced : ∀ p ∈ ps, 0 < p.2 ∧ Int.gcd p.1 p.2 = 1 := fun p => convergents_reduced
  have hparts : ∀ p ∈ ps, Ratio.parts (Rat.divInt p.1 p.2) = p := fun p hp =>
    Ratio.parts_of_coprime (hreduced p hp).1 (hreduced p hp).2
  refine ⟨ps.map fun p => Rat.divInt p.1 p.2, mapM_ofInts fun p hp => (hreduced p hp).1.ne',
    ?_, ?_, ?_, ?_⟩
  · rw [List.map_map]
    exact (List.map_id ps).symm.trans (List.map_congr_left fun p hp => (hparts p hp).symm)
  · rw [List.getLast?_map, getLast?_convergents]
    exact congrArg some (Rat.num_divInt_den x)
  · intro i c hc
    rw [List.getElem?_map, Option.map_eq_some_iff] at hc
    obtain ⟨p, hp, rfl⟩ := hc
    exact sides hp
  · rw [List.map_map]
    exact pairwise_distances x

/-- The terms -5, 1, 1, 3 of a negative number; terms that are not those of a number. -/
theorem convergents_minus_thirty_one_sevenths :
    let x : Rat := -31 / 7
    let cs : List Rat := [-5, -4, -9 / 2, -31 / 7]
    (((convergents (termsOf x.num x.den)).mapM fun p => Ratio.ofInts p.1 p.2) = .ok cs ∧
      cs[1]? = some (-4 : Rat) ∧ Odd 1 ∧ x ≤ -4 ∧ (cs.map fun c => |x - c|).Pairwise (· > ·)) ∧
    ((convergents [2, 0, -3])[1]? = some (1, 0) ∧ (convergents [2, 0, -3])[2]? = some (-1, 1) ∧
      (-1) * 0 - 1 * 1 = (-1 : Int) ^ 1) := by
  intro x cs
  obtain ⟨hterms, hnumber⟩ := convergents_approach
  obtain ⟨found, hfound, -, -, hsides, hcloser⟩ := hnumber x
  have hcs : ((convergents (termsOf x.num x.den)).mapM fun p => Ratio.ofInts p.1 p.2) = .ok cs := by
    with_unfolding_all decide
  obtain rfl : found = cs := Except.ok.inj (hfound.symm.trans hcs)
  exact ⟨⟨hfound, rfl, odd_one, (hsides 1 (-4) rfl).2 odd_one, hcloser⟩, rfl, rfl,
    (hterms [2, 0, -3]).2 1 (1, 0) (-1, 1) rfl rfl⟩

end RatCalc.ContinuedFraction

import Mathlib.Data.List.Nodup
import Mathlib.Data.Prod.Lex
import RatCalc.Proofs.Multiples

/-!
# The fractions of an interval with bounded denominators

Numbers are listed by denominator and then by numerator, in the order of `place`.

* `mem_fractionsOver_iff`, `pairwise_fractionsOver`: those with one denominator.
* **`mem_reducedFractions_iff`**, `pairwise_reducedFractions`: those with denominators up to a
  limit.
* **`candidates_exact`**: each of them is there once, and the midpoint stands in for them if there
  are none.
-/

namespace RatCalc.Interval

variable {i : Interval} {a : Rat} {d limit : Nat}

/-- Where a number stands in the list: by denominator and then by numerator. -/
def place (a : Rat) : Nat ×ₗ Int := toLex (a.den, a.num)

theorem place_lt_place_iff {a b : Rat} :
    place a < place b ↔ a.den < b.den ∨ a.den = b.den ∧ a.num < b.num := Prod.Lex.toLex_lt_toLex

/-! ## One denominator -/

/-- **The numbers with a denominator** `d`: the multiples of `1 / d` that `d` is the denominator
of. -/
theorem mem_fractionsOver_iff (hd : d ≠ 0) : a ∈ i.fractionsOver d ↔ a ∈ i ∧ a.den = d := by
  simp only [fractionsOver, List.mem_filter, List.mem_map, List.mem_range, beq_iff_eq]
  constructor
  · rintro ⟨⟨k, hk, rfl⟩, hden⟩
    exact ⟨(mkRat_mem_iff hd).2 ⟨by omega, by omega⟩, hden⟩
  · rintro ⟨ha, hden⟩
    have hself : mkRat a.num d = a := by rw [← hden, Rat.mkRat_self]
    obtain ⟨hlow, hhigh⟩ := (mkRat_mem_iff hd).1 (hself ▸ ha)
    refine ⟨⟨(a.num - (i.low * d).ceil).toNat, by omega, ?_⟩, hden⟩
    rw [Int.toNat_of_nonneg (by omega), add_sub_cancel, hself]

/-- Of two numbers with one denominator the smaller one has the smaller numerator. -/
theorem place_lt_place_of_lt {a b : Rat} (hden : a.den = b.den) (h : a < b) :
    place a < place b := by
  refine place_lt_place_iff.2 (.inr ⟨hden, ?_⟩)
  have hpos : (0 : Rat) < b.den := by exact_mod_cast b.den_pos
  rw [← Rat.num_div_den a, ← Rat.num_div_den b, hden] at h
  exact_mod_cast (div_lt_div_iff_of_pos_right hpos).1 h

theorem pairwise_fractionsOver (hd : d ≠ 0) :
    (i.fractionsOver d).Pairwise fun a b => place a < place b := by
  have hlt : (i.fractionsOver d).Pairwise (· < ·) := by
    refine (List.pairwise_map.2 ?_).filter _
    exact List.pairwise_lt_range.imp fun h => mkRat_strictMono hd (by omega)
  refine hlt.imp_of_mem fun ha hb h => ?_
  rw [mem_fractionsOver_iff hd] at ha hb
  exact place_lt_place_of_lt (ha.2.trans hb.2.symm) h

/-! ## Denominators up to a limit -/

/-- **The numbers with denominators up to a limit**, and no others. -/
theorem mem_reducedFractions_iff : a ∈ i.reducedFractions limit ↔ a ∈ i ∧ a.den ≤ limit := by
  simp only [reducedFractions, List.mem_flatMap, List.mem_range'_1]
  constructor
  · rintro ⟨d, hd, ha⟩
    rw [mem_fractionsOver_iff (by omega)] at ha
    exact ⟨ha.1, by omega⟩
  · rintro ⟨ha, hle⟩
    have hpos := a.den_pos
    exact ⟨a.den, by omega, (mem_fractionsOver_iff hpos.ne').2 ⟨ha, rfl⟩⟩

/-- The denominators increase from one row to the next, the numerators inside each row. -/
theorem pairwise_reducedFractions :
    (i.reducedFractions limit).Pairwise fun a b => place a < place b := by
  rw [reducedFractions, List.pairwise_flatMap]
  constructor
  · intro d hd
    rw [List.mem_range'_1] at hd
    exact pairwise_fractionsOver (by omega)
  · refine List.Pairwise.imp_of_mem ?_ (List.pairwise_lt_range' 1)
    intro d e hd he hlt a ha b hb
    rw [List.mem_range'_1] at hd he
    rw [mem_fractionsOver_iff (by omega)] at ha hb
    exact place_lt_place_iff.2 (.inl (by omega))

theorem nodup_reducedFractions : (i.reducedFractions limit).Nodup :=
  pairwise_reducedFractions.imp fun h heq => h.ne (congrArg place heq)

theorem candidates_eq {limit : Int} (h : 1 ≤ limit) :
    i.candidates limit = .ok (if (i.reducedFractions limit.toNat).isEmpty then .inr i.midpoint
      else .inl (i.reducedFractions limit.toNat)) :=
  if_neg (by omega)

/-- **The candidates are the right set.** Every number of the interval with a denominator up to the
limit is listed once, and no other number is; the list goes by denominator and then by numerator. It
is the list of candidates, unless it is empty: then the midpoint is taken. -/
theorem candidates_exact (i : Interval) {limit : Int} (h : 1 ≤ limit) :
    (∀ a, (i.reducedFractions limit.toNat).count a = if a ∈ i ∧ a.den ≤ limit then 1 else 0) ∧
    ((i.reducedFractions limit.toNat).Pairwise fun a b => place a < place b) ∧
    ((∃ a ∈ i, a.den ≤ limit) →
      i.candidates limit = .ok (.inl (i.reducedFractions limit.toNat))) ∧
    ((∀ a ∈ i, limit < a.den) → i.candidates limit = .ok (.inr i.midpoint)) := by
  have hmem : ∀ a, a ∈ i.reducedFractions limit.toNat ↔ a ∈ i ∧ (a.den : Int) ≤ limit := by
    intro a
    rw [mem_reducedFractions_iff, Int.le_toNat (by omega)]
  refine ⟨fun a => ?_, pairwise_reducedFractions, ?_, fun hnone => ?_⟩
  · rw [nodup_reducedFractions.count]
    exact if_congr (hmem a) rfl rfl
  · rintro ⟨a, ha⟩
    have hne : (i.reducedFractions limit.toNat).isEmpty = false :=
      List.isEmpty_eq_false_iff.2 (List.ne_nil_of_mem ((hmem a).2 ha))
    rw [candidates_eq h, hne, if_neg Bool.false_ne_true]
  · have hempty : (i.reducedFractions limit.toNat).isEmpty := by
      rw [List.isEmpty_iff, List.eq_nil_iff_forall_not_mem]
      intro a ha
      have := (hmem a).1 ha
      exact absurd (hnone a this.1) (by omega)
    rw [candidates_eq h, if_pos hempty]

/-- Denominators up to three around zero; a point between the fractions with denominators up to
four. -/
theorem thirds_and_halves_around_zero :
    let i := hull (1 / 3) (-1 / 2)
    let j := point (2 / 5)
    ((∃ a ∈ i, (a.den : Int) ≤ 3) ∧ i.candidates 3 = .ok (.inl [0, -1 / 2, -1 / 3, 1 / 3]) ∧
      ∀ a, ([0, -1 / 2, -1 / 3, 1 / 3] : List Rat).count a =
        if a ∈ i ∧ (a.den : Int) ≤ 3 then 1 else 0) ∧
    (∀ a ∈ j, (4 : Int) < a.den) ∧ j.candidates 4 = .ok (.inr j.midpoint) := by
  intro i j
  have hzero : ∃ a ∈ i, (a.den : Int) ≤ 3 := ⟨0, by with_unfolding_all decide, by decide⟩
  have hfound : i.reducedFractions 3 = [0, -1 / 2, -1 / 3, 1 / 3] := by with_unfolding_all decide
  have hall := candidates_exact i (show (1 : Int) ≤ 3 by decide)
  rw [show (3 : Int).toNat = 3 from rfl, hfound] at hall
  have hfifth : ∀ a ∈ j, (4 : Int) < a.den := by
    intro a ha
    rw [le_antisymm ha.2 ha.1]
    with_unfolding_all decide
  have hpoint := (candidates_exact j (show (1 : Int) ≤ 4 by decide)).2.2.2 hfifth
  exact ⟨⟨hzero, hall.2.2.1 hzero, hall.1⟩, hfifth, hpoint⟩

end RatCalc.Interval

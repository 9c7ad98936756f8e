import RatCalc.Proofs.CanonicalExpansion

/-!
# Division step by step

Every step of long division writes one digit and leaves a remainder. Modulo a number that is
coprime to ten the remainders run in circles, and the length of a circle is the order of ten.

* `piece`, `plainDigits_eq_pieces`: what the steps write.
* `IsDivision`, **`isDivision_longDivision`**: digits and remainder after at most `c` steps.
* `Operand.divide_eq`, `segment_eq`: long division and digits of a period for operands.
* **`division_positional`**: both write the digits of positional division.
* `Operand.Returns`, `returns_iff`: division that comes back to its first remainder.
* **`periodLength_eq_order`**: the period is the order of ten if that is below the limit, and it is
  the number of steps after which division comes back.
-/

namespace RatCalc

open Expansion

namespace Expansion

open Text

variable {d m r : Nat}

/-! ## Digits and remainder -/

/-- What a step of division writes after `i` others. -/
def piece (d r i : Nat) : Text := Numeral.ofNat (r * 10 ^ i % d * 10 / d)

theorem exists_piece_eq (hr : r < d) (i : Nat) :
    ∃ c, isPlainDigit c = true ∧ piece d r i = [c] := by
  have hlt : r * 10 ^ i % d * 10 / d < 10 := digit_lt (Nat.mod_lt _ (by omega))
  exact ⟨_, isPlainDigit_iff.2 ⟨_, hlt, rfl⟩, Numeral.ofNat_of_lt hlt⟩

theorem plainDigits_eq_pieces (hr : r < d) (k : Nat) :
    plainDigits d k r = (List.range k).flatMap (piece d r) := by
  induction k with
  | zero => rfl
  | succ k ih =>
    rw [plainDigits_add, ih, List.range_succ, List.flatMap_append, List.flatMap_singleton, piece,
      ← advance_eq hr]
    exact congrArg _ (List.append_nil _)

/-- The digits `s` and the remainder `rest` of `r / d` after at most `c` steps of division. -/
structure IsDivision (r d c : Nat) (s : Text) (rest : Nat) : Prop where
  pieces : s = (List.range s.length).flatMap (piece d r)
  /-- Every step writes one of the ten digits. -/
  single : ∀ i < s.length, ∃ c, isPlainDigit c = true ∧ piece d r i = [c]
  rest_lt : rest < d
  value : Numeral.value s * d + rest = r * 10 ^ s.length
  length_le : s.length ≤ c
  length_eq : rest ≠ 0 → s.length = c
  /-- A step is made as long as the remainder is not zero. -/
  goes_on : ∀ i < c, i < s.length ↔ r * 10 ^ i % d ≠ 0

/-- **Long division is positional division.** -/
theorem isDivision_longDivision (hr : r < d) (c : Nat) :
    IsDivision r d c (longDivision r d c).1 (longDivision r d c).2 := by
  obtain ⟨k, hk, he, hend, hne⟩ := longDivision_spec (d := d) c r
  have hlength := length_plainDigits hr k
  rw [he]
  exact {
    pieces := by
      rw [hlength]
      exact plainDigits_eq_pieces hr k
    single := fun i _ => exists_piece_eq hr i
    rest_lt := advance_lt hr k
    value := by
      rw [hlength]
      exact value_plainDigits hr k
    length_le := hlength.trans_le hk
    length_eq := fun h => hlength.trans (hend.resolve_right h)
    goes_on := fun i hi => by
      rw [hlength, ← advance_eq hr]
      refine ⟨hne i, fun h => not_le.1 fun hki => ?_⟩
      rcases hend with rfl | hzero
      · omega
      · exact h (by rw [← Nat.add_sub_cancel' hki, advance_add, hzero, advance_zero]) }

/-- No remainder is zero modulo a number that is coprime to ten. -/
theorem advance_ne_zero_of_coprime (hm : m.Coprime 10) (h0 : 0 < r) (hr : r < m) (i : Nat) :
    advance m i r ≠ 0 := by
  rw [advance_eq hr]
  intro h
  have hdvd : m ∣ r := (hm.pow_right i).dvd_of_dvd_mul_right (Nat.dvd_of_mod_eq_zero h)
  exact absurd (Nat.le_of_dvd h0 hdvd) (by omega)

end Expansion

open Ratio

namespace Operand

/-! ## Division of operands -/

theorem divide_eq (r d c : Nat) :
    divide (whole r) (whole d) (whole c) =
      .ok ((longDivision r d c).1, whole (longDivision r d c).2) := by
  rw [divide]
  simp only [plain_whole, count_whole, pure_bind]
  cases c with
  | zero => rfl
  | succ c =>
    by_cases h0 : r = 0
    · rw [h0, longDivision_zero]
      rfl
    · have hrow : divideDown r d (c + 1) =
          ((longDivision r d (c + 1)).1, ((longDivision r d (c + 1)).2 : Int)) := by
        rw [divideDown, if_pos (by omega), divideDownBy, if_neg (by omega)]
        rfl
      have hgo : ¬ (decide (((c + 1 : Nat) : Int) ≤ 0) || (whole r).equals 0) = true := by
        rw [Bool.or_eq_true, decide_eq_true_eq, equals_iff]
        omega
      rw [if_neg hgo, Int.toNat_natCast, hrow]
      rfl

theorem lesser_whole (k p : Int) : (whole k).lesser (whole p) = .ok (min k p).toNat := by
  have h : (whole k).lesser (whole p) =
      Int.toNat <$> (if (p : Rat) < (k : Rat) then whole p else whole k).count := rfl
  rw [h]
  rcases lt_or_ge p k with hlt | hle
  · rw [if_pos (Int.cast_lt.2 hlt), min_eq_right hlt.le]
    rfl
  · rw [if_neg (not_lt.2 (Int.cast_le.2 hle)), min_eq_left hle]
    rfl

theorem exists_items_text (t : Text) :
    ∃ items, (text t).items? = some items ∧ items.length = t.length :=
  ⟨_, rfl, by simp [WideText.ofText]⟩

/-- The digits of a period are those behind as many places as the initial segment has. -/
theorem segment_eq (n : Int) (d : Nat) (initial : Text) (p : Nat) (k : Int) :
    segment (whole n) (whole d) (text initial) (whole p) (whole k) =
      .ok (plainDigits d (min k p).toNat (advance d initial.length (n.natAbs % d))) := by
  obtain ⟨items, hitems, hlength⟩ := exists_items_text initial
  rw [segment]
  by_cases h0 : p = 0
  · have hk : (min k p).toNat = 0 := by omega
    rw [hk, if_pos (by rw [(equals_iff p 0).2 (by omega), Bool.true_or])]
    rfl
  · have hgo : ¬ ((whole p).equals 0 || (whole p).equals (-1)) = true := by
      rw [Bool.or_eq_true, equals_iff, equals_iff]
      omega
    rw [if_neg hgo]
    simp only [plain_whole, hitems, hlength, lesser_whole, pure_bind]
    change Except.ok (periodSegment (if (d : Int) < 0 then _ else n) _ _ _ _) = _
    rw [if_neg (by omega), periodSegment, ite_self]
    rfl

/-- Long division of what the initial segment leaves goes on with the digits of the period. -/
theorem segment_eq_take (a : Rat) {k limit p : Nat}
    (hp : (Expansion.of a.num a.den k limit).periodLength = some p) (j : Int) {c : Nat}
    (hc : (min j p).toNat ≤ c) :
    let e := Expansion.of a.num a.den k limit
    let row := (longDivision (advance a.den e.initial.length (Ratio.remainder a)) a.den c).1
    (min j p).toNat ≤ row.length ∧
      segment (whole a.num) (whole a.den) (text e.initial) (whole p) (whole j) =
        .ok (row.take (min j p).toNat) := by
  rw [Ratio.of_eq] at hp ⊢
  simp only [segment_eq, length_digits]
  by_cases ht : Terminates a
  · have h0 : p = 0 := Option.some.inj (hp.symm.trans (foundPeriod_of_terminates ht))
    have hj : (min j p).toNat = 0 := by omega
    rw [hj]
    exact ⟨Nat.zero_le _, rfl⟩
  · rw [longDivision_period ht, length_periodDigits, periodDigits,
      take_plainDigits (advance_lt (remainder_lt a) _) hc]
    exact ⟨hc, rfl⟩

/-- **Long division is positional division**, and the digits of a known period are the first ones
that it writes in a second run, from the remainder that the initial segment of a fraction in lowest
terms leaves. -/
theorem division_positional :
    (∀ r d c : Nat, r < d → ∃ (s : Text) (rest : Nat),
      divide (whole r) (whole d) (whole c) = .ok (s, whole rest) ∧ IsDivision r d c s rest) ∧
    ∀ (a : Rat) (k : Nat) (limit : Option Int), ∃ e,
      expansion (whole a.num) (whole a.den) (whole k) (ofOption limit) = .ok e ∧
      ∃ rest, divide (whole (a.num.natAbs % a.den : Nat)) (whole a.den) (whole e.initial.length) =
          .ok (e.initial, rest) ∧
        ∀ p, e.periodLength = some p → ∀ (j : Int) (c : Nat), (min j p).toNat ≤ c →
          ∃ row last, divide rest (whole a.den) (whole c) = .ok (row, last) ∧
            (min j p).toNat ≤ row.length ∧
            segment (whole a.num) (whole a.den) (text e.initial) (whole p) (whole j) =
              .ok (row.take (min j p).toNat) := by
  refine ⟨fun r d c hr => ⟨_, _, divide_eq r d c, isDivision_longDivision hr c⟩,
    fun a k limit => ?_⟩
  set e := Expansion.of a.num a.den k (searchBound limit) with he
  have hinitial : longDivision (Ratio.remainder a) a.den e.initial.length =
      (e.initial, advance a.den e.initial.length (Ratio.remainder a)) := by
    rw [he, Ratio.of_eq, length_digits, longDivision_initial]
  have hfirst := divide_eq (Ratio.remainder a) a.den e.initial.length
  rw [hinitial] at hfirst
  exact ⟨e, expansion_eq a k limit, _, hfirst, fun p hp j c hc =>
    ⟨_, _, divide_eq _ a.den c, segment_eq_take a hp j hc⟩⟩

/-- `1/8` ends after three of five steps; four digits of the period of `-15/14`, of which five are
divided. -/
theorem eighth_and_fourteenths :
    (1 < 8 ∧ divide (whole 1) (whole 8) (whole 5) = .ok ("125".toList, whole 0) ∧
      IsDivision 1 8 5 "125".toList 0) ∧
    expansion (whole (-15)) (whole 14) (whole 3) nothing =
      .ok ⟨true, 1, 1, 1, 0, ['0'], "714".toList, some 6⟩ ∧
    (min (4 : Int) (6 : Nat)).toNat ≤ 5 ∧
    divide (whole 1) (whole 14) (whole 1) = .ok (['0'], whole 10) ∧
    divide (whole 10) (whole 14) (whole 5) = .ok ("71428".toList, whole 8) ∧
    segment (whole (-15)) (whole 14) (text ['0']) (whole 6) (whole 4) =
      .ok ("71428".toList.take 4) := by
  have heighth : divide (whole 1) (whole 8) (whole 5) = .ok ("125".toList, whole 0) := rfl
  have hfourteenths : expansion (whole (-15)) (whole 14) (whole 3) nothing =
      .ok ⟨true, 1, 1, 1, 0, ['0'], "714".toList, some 6⟩ := by with_unfolding_all decide
  have hinitial : divide (whole 1) (whole 14) (whole 1) = .ok (['0'], whole 10) := rfl
  have hperiod : divide (whole 10) (whole 14) (whole 5) = .ok ("71428".toList, whole 8) := rfl
  obtain ⟨s, rest, hdivide, hdivision⟩ := division_positional.1 1 8 5 (by decide)
  cases hdivide.symm.trans heighth
  obtain ⟨e, he, rest, hfirst, hsecond⟩ :=
    division_positional.2 ⟨-15, 14, by decide, by decide⟩ 3 none
  cases he.symm.trans hfourteenths
  cases hfirst.symm.trans hinitial
  obtain ⟨row, last, hrow, -, hsegment⟩ := hsecond 6 rfl 4 5 (by decide)
  cases hrow.symm.trans hperiod
  exact ⟨⟨by decide, heighth, hdivision⟩, hfourteenths, by decide, hinitial, hperiod, hsegment⟩

/-! ## Circles of remainders -/

/-- After `k` steps of division by `m` the remainder is `r` again. -/
def Returns (m r k : Nat) : Prop :=
  ∃ s : Text, s.length = k ∧ divide (whole r) (whole m) (whole k) = .ok (s, whole r)

theorem returns_iff {m r : Nat} (hm : m.Coprime 10) (h0 : 0 < r) (hr : r < m) (k : Nat) :
    Returns m r k ↔ m ∣ r * (10 ^ k - 1) := by
  rw [Returns, divide_eq, longDivision_of_ne_zero fun i _ => advance_ne_zero_of_coprime hm h0 hr i,
    ← advance_eq_self_iff hr]
  constructor
  · rintro ⟨s, -, h⟩
    simpa [whole] using (Prod.mk.inj (Except.ok.inj h)).2
  · intro h
    exact ⟨_, length_plainDigits hr k, by rw [h]⟩

theorem periodLength_eq {m : Nat} (h2 : 2 ≤ m) (hm : m.Coprime 10) (limit : Option Int) :
    periodLength (whole m) (ofOption limit) =
      .ok (if orderOf (10 : ZMod m) < searchBound limit then some (orderOf (10 : ZMod m))
        else none) := by
  rw [periodLength, if_neg (mt (equals_iff m 1).1 (by omega)), plain_whole]
  simp only [pure_bind, searchLimit_ofOption]
  change Except.ok (if (m : Int) < 0 then none else _) = _
  rw [if_neg (by omega), Int.toNat_natCast, orderOfTen_eq hm (by omega)]

/-- **The length of a period is the order of ten**, if that is below the limit; it is the number of
steps after which division comes back to a remainder, and the least one for a remainder that is
coprime to the divisor. -/
theorem periodLength_eq_order {m : Nat} (h2 : 2 ≤ m) (hm : m.Coprime 10) :
    (∀ limit, periodLength (whole m) (ofOption limit) =
      .ok (if orderOf (10 : ZMod m) < searchBound limit then some (orderOf (10 : ZMod m))
        else none)) ∧
    0 < orderOf (10 : ZMod m) ∧
    ∀ r, 0 < r → r < m → Returns m r (orderOf (10 : ZMod m)) ∧
      (r.Coprime m → IsLeast {k | 0 < k ∧ Returns m r k} (orderOf (10 : ZMod m))) := by
  have hpos := orderOf_ten_pos hm
  refine ⟨periodLength_eq h2 hm, hpos, fun r h0 hr => ?_⟩
  have hreturns : Returns m r (orderOf (10 : ZMod m)) :=
    (returns_iff hm h0 hr _).2 (dvd_mul_of_dvd_right (dvd_ten_pow_sub_one_iff.2 dvd_rfl) r)
  refine ⟨hreturns, fun hcoprime => ⟨⟨hpos, hreturns⟩, fun k hk => ?_⟩⟩
  have hdvd := hcoprime.symm.dvd_of_dvd_mul_left ((returns_iff hm h0 hr k).1 hk.2)
  exact Nat.le_of_dvd hk.1 (dvd_ten_pow_sub_one_iff.1 hdvd)

theorem orderOf_ten_twentyOne : orderOf (10 : ZMod 21) = 6 :=
  (orderOf_eq_iff (by decide)).2 ⟨by decide, fun k hk hpos => by interval_cases k <;> decide⟩

/-- The order of ten modulo 21 is six. Division by 21 comes back to five after six steps and no
fewer; to seven, which is not coprime to 21, it comes back after one step as well. -/
theorem period_of_twentyFirsts :
    2 ≤ 21 ∧ Nat.Coprime 21 10 ∧
      periodLength (whole 21) nothing = .ok (some 6) ∧
      periodLength (whole 21) (whole 6) = .ok none ∧
      periodLength (whole 21) (whole 7) = .ok (some 6) ∧
      (0 < 5 ∧ 5 < 21 ∧ Nat.Coprime 5 21 ∧ IsLeast {k | 0 < k ∧ Returns 21 5 k} 6) ∧
      (0 < 7 ∧ 7 < 21 ∧ Returns 21 7 6 ∧ Returns 21 7 1) := by
  obtain ⟨hperiod, -, hreturns⟩ := periodLength_eq_order (m := 21) (by decide) (by decide)
  rw [orderOf_ten_twentyOne] at hperiod hreturns
  obtain ⟨-, hfive⟩ := hreturns 5 (by decide) (by decide)
  obtain ⟨hseven, -⟩ := hreturns 7 (by decide) (by decide)
  exact ⟨by decide, by decide, hperiod none, hperiod (some 6), hperiod (some 7),
    ⟨by decide, by decide, by decide, hfive (by decide)⟩,
    by decide, by decide, hseven, ['3'], rfl, rfl⟩

end Operand

end RatCalc

import RatCalc.Proofs.BracketBase
import RatCalc.Proofs.IntervalPowers
import RatCalc.Proofs.TameText

/-!
# Bases with offsets

A bracket may hold offsets from the number before it, which count units of the digit after its last
place: `1.23[+-5]`, `1.23[+5,-6]`.

* `offset_eq`, `Base.offset_text`: an offset is read in a bracket as outside of one, and the text of
  a base is one.
* `Base.uncertainty_symmetric`, `Base.uncertainty_pair`: the interval of a base and its offsets.
* **`uncertainty_offsets`**: its endpoints are that many units away, and the base is between them
  unless two offsets have opposite signs.
-/

namespace RatCalc

open Text Numeral

namespace Literal

/-! ## Offsets -/

variable {t u : Text}

theorem subset_of_prepared (h : prepared t = .ok u) : u ⊆ t := by
  rw [prepared] at h
  split_ifs at h
  cases h
  exact List.Subset.trans (RunLength.expand_subset _) (trim_subset t)

/-- A text without a colon is one decimal. -/
theorem unbracketed_of_not_mem (h : ':' ∉ t) :
    unbracketed t = prepared t >>= singleDecimal := by
  rw [unbracketed]
  cases hp : prepared t with
  | error f => rfl
  | ok u =>
    have hu : ':' ∉ u := fun hm => h (subset_of_prepared hp hm)
    exact if_neg (by rwa [List.elem_iff])

/-- A text without a closing bracket is read as a decimal without a bracket. -/
theorem decimal_eq_unbracketed (h : ']' ∉ t) : decimal t = unbracketed t := by
  rw [decimal, unbracketed]
  cases hp : prepared t with
  | error f => rfl
  | ok u =>
    have hu : u.elem ']' = false := by
      rw [List.elem_eq_mem, decide_eq_false_iff_not]
      exact fun hm => h (subset_of_prepared hp hm)
    change (if u.elem '[' && u.elem ']' then _ else _) = if u.elem ':' then _ else _
    rw [hu, Bool.and_false, if_neg Bool.false_ne_true]
    refine if_congr Iff.rfl (congrArg (Except.map _) ?_) rfl
    unfold pairOf
    split
    · rename_i first second hsplit
      have hpart : ∀ {part : Text}, (∀ c ∈ part, (c == ':') = false) →
          unbracketed (trim part) = prepared (trim part) >>= singleDecimal := fun hno =>
        unbracketed_of_not_mem fun hm => by cases hno _ (trim_subset _ hm)
      obtain ⟨hfirst, hsecond⟩ := separators_of_split_eq_pair hsplit
      simp only [hpart hfirst, hpart hsecond]
    · rfl

/-- An offset in a bracket is read as it is outside of one. -/
theorem offset_eq (h : ']' ∉ t) : offset t = offsetOf unbracketed t := by
  have hat : ∀ {u : Text} (k : Int), u ⊆ t → offsetAt decimal u k = offsetAt unbracketed u k := by
    intro u k hu
    rw [offsetAt, offsetAt, decimal_eq_unbracketed fun hm => h (hu hm)]
  rw [offset]
  cases hs : splitOnce (· == 'E') t with
  | none => rw [offsetOf_of_none hs, offsetOf_of_none hs, hat 0 (List.Subset.refl t)]
  | some parts =>
    obtain ⟨mantissa, exponent⟩ := parts
    rw [offsetOf_of_some hs, offsetOf_of_some hs]
    exact if_congr Iff.rfl (congrArg (wholeOf exponent >>= ·)
      (funext fun k => hat k (splitOnce_subset hs).1)) rfl

namespace Base

variable {b : Base}

theorem isPlainNumber_text (hd : b.digits ≠ []) : isPlainNumber b.text = true := by
  have hpoint : ∀ c ∈ b.whole, (c == '.') = false :=
    beq_false_of_not_mem (not_mem_of_isDecimal b.isDecimal_whole (by decide))
  have hbody : body b.text = b.text := body_of_no_break (not_mem_text (by decide) (by decide))
  rw [isPlainNumber_eq, hbody, minus_text]
  simp only
  cases hf : b.fraction with
  | none =>
    rw [digits_of_none hf] at hd
    rw [magnitude_of_none hf, splitOnce_of_none hpoint]
    exact isNumeral_iff.2 ⟨hd, b.isDecimal_whole⟩
  | some f =>
    rw [digits_of_some hf] at hd
    rw [magnitude_of_some hf, splitOnce_append hpoint rfl]
    simp only [Bool.or_eq_true, Bool.and_eq_true, isNumeral_iff, List.isEmpty_iff, List.all_eq_true]
    -- one of the two rows of digits may be empty
    by_cases hw : b.whole = []
    · rw [hw, List.nil_append] at hd
      exact .inr ⟨hw, hd, isDecimal_of_some hf⟩
    · exact .inl ⟨⟨hw, b.isDecimal_whole⟩, isDecimal_of_some hf⟩

/-- **A base is an offset** with the same value. -/
theorem offset_text (hd : b.digits ≠ []) : offset b.text = .ok b.value := by
  have hE : 'E' ∉ b.text := not_mem_text (by decide) (by decide)
  have hmark : b.text.elem '#' = false := by
    rw [List.elem_eq_mem, decide_eq_false_iff_not]
    exact not_mem_text (by decide) (by decide)
  rw [offset, offsetOf_of_none (splitOnce_of_none (beq_false_of_not_mem hE)), offsetAt, hmark,
    if_neg Bool.false_ne_true, if_pos (isPlainNumber_text hd), bind_of_ok (rational_text hd)]
  refine congrArg Except.ok ?_
  rw [Ratio.shift, zpow_zero, mul_one]

end Base

theorem symmetricBracket_eq (a : Rat) (c d : Char) (t : Text) (n : Nat) :
    symmetricBracket a (c :: d :: t) n =
      (offsetOf unbracketed t).map fun v => .hull (a - inUnits v n) (a + inUnits v n) := by
  cases t with
  | nil => rfl
  | cons e t =>
    change (offsetOf unbracketed (e :: t) >>= _) = _
    cases offsetOf unbracketed (e :: t) <;> rfl

theorem map_offset_eq_ok_iff {f : Failure} {g : Rat → Offsets} {x : Offsets} :
    (if t.isEmpty then .error f else (offsetOf unbracketed t).map g) = .ok x ↔
      ∃ a, offsetOf unbracketed t = .ok a ∧ x = g a := by
  cases t with
  | nil => exact iff_of_false (fun h => nomatch h) fun ⟨_, h, _⟩ => nomatch h
  | cons c t =>
    rw [List.isEmpty_cons, if_neg Bool.false_ne_true]
    cases offsetOf unbracketed (c :: t) with
    | error f => exact iff_of_false (fun h => nomatch h) fun ⟨_, h, _⟩ => nomatch h
    | ok a =>
      refine ⟨fun h => ⟨a, rfl, (Except.ok.inj h).symm⟩, ?_⟩
      rintro ⟨b, hb, rfl⟩
      cases hb
      rfl

theorem include_up {down : Option Rat} {x : Offsets} :
    Offsets.include ⟨none, down⟩ ('+' :: t) = .ok x ↔
      ∃ a, offsetOf unbracketed t = .ok a ∧ x = ⟨some a, down⟩ :=
  map_offset_eq_ok_iff

theorem include_down {up : Option Rat} {x : Offsets} :
    Offsets.include ⟨up, none⟩ ('-' :: t) = .ok x ↔
      ∃ a, offsetOf unbracketed t = .ok a ∧ x = ⟨up, some a⟩ :=
  map_offset_eq_ok_iff

/-- An offset upwards and one downwards, in either order. -/
theorem offsetsBracket_eq_ok_iff {s p n : Text} {a : Rat} {k : Nat} {i : Interval}
    (h : trim s = '+' :: p ∧ trim t = '-' :: n ∨ trim s = '-' :: n ∧ trim t = '+' :: p) :
    offsetsBracket a (s ++ ',' :: t) k = .ok i ↔ ',' ∉ s ∧ ',' ∉ t ∧
      ∃ x y, offsetOf unbracketed p = .ok x ∧ offsetOf unbracketed n = .ok y ∧
        i = .hull (a - inUnits y k) (a + inUnits x k) := by
  have hno : ∀ {u : Text}, (∀ c ∈ u, (c == ',') = false) ↔ ',' ∉ u := fun {u} =>
    ⟨fun h hm => (nomatch h _ hm), beq_false_of_not_mem⟩
  constructor
  · intro hi
    rw [offsetsBracket] at hi
    split at hi
    · rename_i first second hsplit
      obtain ⟨⟨hs, rfl⟩, ht, rfl⟩ := (split_eq_pair_iff (p := (· == ',')) rfl).1 hsplit
      obtain ⟨f, hf, hi⟩ := bind_eq_ok.1 hi
      obtain ⟨g, hg, hi⟩ := bind_eq_ok.1 hi
      refine ⟨hno.1 hs, hno.1 ht, ?_⟩
      rcases h with ⟨h, h'⟩ | ⟨h, h'⟩
      · rw [h] at hf
        rw [h'] at hg
        obtain ⟨x, hx, rfl⟩ := include_up.1 hf
        obtain ⟨y, hy, rfl⟩ := include_down.1 hg
        exact ⟨x, y, hx, hy, (Except.ok.inj hi).symm⟩
      · rw [h] at hf
        rw [h'] at hg
        obtain ⟨y, hy, rfl⟩ := include_down.1 hf
        obtain ⟨x, hx, rfl⟩ := include_up.1 hg
        exact ⟨x, y, hx, hy, (Except.ok.inj hi).symm⟩
    · cases hi
  · rintro ⟨hs, ht, x, y, hx, hy, rfl⟩
    rw [offsetsBracket,
      (split_eq_pair_iff (p := (· == ',')) rfl).2 ⟨⟨hno.2 hs, rfl⟩, hno.2 ht, rfl⟩]
    simp only
    rcases h with ⟨h, h'⟩ | ⟨h, h'⟩
    · rw [h, h', bind_of_ok (include_up.2 ⟨x, hx, rfl⟩), bind_of_ok (include_down.2 ⟨y, hy, rfl⟩)]
      rfl
    · rw [h, h', bind_of_ok (include_down.2 ⟨y, hy, rfl⟩), bind_of_ok (include_up.2 ⟨x, hx, rfl⟩)]
      rfl

/-- What follows a base that ends in its point has no sign. -/
theorem pointBracket_ne_ok {read : Text → Except Failure Number} {base s : Text} {i : Interval}
    (h : ∃ u, trim s = '+' :: u ∨ trim s = '-' :: u) :
    pointBracket read base (s ++ ',' :: t) ≠ .ok i := by
  intro hi
  rw [pointBracket] at hi
  split at hi
  · cases hi
  · rename_i lower upper hsplit
    obtain ⟨⟨-, rfl⟩, -⟩ := (split_eq_pair_iff (p := (· == ',')) rfl).1 hsplit
    obtain ⟨x, hx, -⟩ := bind_eq_ok.1 hi
    obtain ⟨u, h | h⟩ := h <;> rw [h] at hx <;> cases hx
  · cases hi

end Literal

/-! ## The interval of a base and its offsets -/

namespace Interval

theorem mem_hull_iff {a b x : Rat} : x ∈ hull a b ↔ a ≤ x ∧ x ≤ b ∨ b ≤ x ∧ x ≤ a := by
  rcases le_total a b with h | h
  · rw [hull_of_le h]
    exact ⟨.inl, fun hx => hx.elim id fun hx => ⟨h.trans hx.1, hx.2.trans h⟩⟩
  · rw [hull_comm, hull_of_le h]
    exact ⟨.inr, fun hx => hx.elim (fun hx => ⟨h.trans hx.1, hx.2.trans h⟩) id⟩

/-- A number is between what is left of it and what is right of it if both offsets go the same
way. -/
theorem mem_hull_offsets {a x y u : Rat} (hu : 0 < u) :
    a ∈ hull (a - y * u) (a + x * u) ↔ 0 ≤ x * y := by
  have hneg : ∀ z, z * u ≤ 0 ↔ z ≤ 0 := fun z => by
    rw [← not_lt, mul_pos_iff_of_pos_right hu, not_lt]
  rw [mem_hull_iff, mul_nonneg_iff, sub_le_self_iff, le_add_iff_nonneg_right,
    add_le_iff_nonpos_right, le_sub_self_iff, mul_nonneg_iff_of_pos_right hu,
    mul_nonneg_iff_of_pos_right hu, hneg, hneg, and_comm (a := 0 ≤ y)]

end Interval

namespace Literal

theorem Base.unit_pos (b : Base) : 0 < b.unit := by
  rw [unit]
  split_ifs <;> positivity

theorem Base.uncertainty_symmetric (b : Base) {c k : Text} {integerBase : Bool} {i : Interval}
    (hc : c = '+' :: '-' :: k ∨ c = '-' :: '+' :: k) :
    uncertainty (b.bracket c) integerBase = .ok i ↔ b.digits ≠ [] ∧ ']' ∉ k ∧
      ∃ v, offset k = .ok v ∧ i = .hull (b.value - v * b.unit) (b.value + v * b.unit) := by
  have hs : isSymmetric c = true := by rcases hc with rfl | rfl <;> rfl
  have hne : c ≠ [] := by rcases hc with rfl | rfl <;> exact List.cons_ne_nil _ _
  have hclose : ']' ∉ c ↔ ']' ∉ k := by rcases hc with rfl | rfl <;> simp
  have hbracket : symmetricBracket b.value c b.places = (offsetOf unbracketed k).map fun v =>
      .hull (b.value - inUnits v b.places) (b.value + inUnits v b.places) := by
    rcases hc with rfl | rfl <;> exact symmetricBracket_eq _ _ _ _ _
  rw [b.uncertainty_bracket_eq_ok_iff, and_iff_right hne, hclose]
  constructor
  · rintro ⟨hk, hi⟩
    have hd := b.digits_ne_nil hi
    rw [b.bracketed_symmetric hd hs, hbracket] at hi
    rw [offset_eq hk]
    cases hv : offsetOf unbracketed k with
    | error f => rw [hv] at hi; cases hi
    | ok v =>
      rw [hv] at hi
      refine ⟨hd, hk, v, rfl, ?_⟩
      rw [← Base.inUnits_places]
      exact (Except.ok.inj hi).symm
  · rintro ⟨hd, hk, v, hv, rfl⟩
    rw [offset_eq hk] at hv
    rw [b.bracketed_symmetric hd hs, hbracket, hv, ← Base.inUnits_places]
    exact ⟨hk, rfl⟩

theorem Base.uncertainty_pair (b : Base) {s t p n : Text} {integerBase : Bool} {i : Interval}
    (h : trim s = '+' :: p ∧ trim t = '-' :: n ∨ trim s = '-' :: n ∧ trim t = '+' :: p)
    (hs : isSymmetric (s ++ ',' :: t) = false) :
    uncertainty (b.bracket (s ++ ',' :: t)) integerBase = .ok i ↔
      b.digits ≠ [] ∧ b.fraction ≠ some [] ∧ (',' ∉ s ∧ ',' ∉ t) ∧ (']' ∉ s ∧ ']' ∉ t) ∧
        ∃ x y, offset p = .ok x ∧ offset n = .ok y ∧
          i = .hull (b.value - y * b.unit) (b.value + x * b.unit) := by
  have hsign : '+' ∈ s ++ ',' :: t ∨ '-' ∈ s ++ ',' :: t := by
    rcases h with ⟨h, -⟩ | ⟨h, -⟩
    · exact .inl (List.mem_append_left _ (trim_subset s (h ▸ List.mem_cons_self)))
    · exact .inr (List.mem_append_left _ (trim_subset s (h ▸ List.mem_cons_self)))
  have hclose : ']' ∉ s ++ ',' :: t ↔ ']' ∉ s ∧ ']' ∉ t := by simp
  have hoffset : ']' ∉ s ∧ ']' ∉ t →
      offset p = offsetOf unbracketed p ∧ offset n = offsetOf unbracketed n := by
    have hrest : ∀ {u v : Text} {c : Char}, trim u = c :: v → ']' ∉ u →
        offset v = offsetOf unbracketed v := fun hu hno =>
      offset_eq fun hm => hno (trim_subset _ (hu ▸ List.mem_cons_of_mem _ hm))
    rintro ⟨hno, hno'⟩
    rcases h with ⟨h, h'⟩ | ⟨h, h'⟩
    · exact ⟨hrest h hno, hrest h' hno'⟩
    · exact ⟨hrest h' hno', hrest h hno⟩
  rw [b.uncertainty_bracket_eq_ok_iff, and_iff_right (by simp), hclose]
  constructor
  · rintro ⟨hb, hi⟩
    have hd := b.digits_ne_nil hi
    have hp : b.fraction ≠ some [] := by
      intro hp
      have hends : endsInPoint b.text = true := endsInPoint_text.2 ⟨fun hw => hd (by
        rw [digits, hw, hp]
        rfl), hp⟩
      rw [bracketed, hends, hs, Bool.not_false, Bool.and_self, if_pos rfl] at hi
      exact pointBracket_ne_ok (h.elim (fun h => ⟨p, .inl h.1⟩) fun h => ⟨n, .inr h.1⟩) hi
    rw [b.bracketed_offsets hd hp hs hsign, offsetsBracket_eq_ok_iff h] at hi
    simp only [inUnits_places] at hi
    rw [(hoffset hb).1, (hoffset hb).2]
    exact ⟨hd, hp, ⟨hi.1, hi.2.1⟩, hb, hi.2.2⟩
  · rintro ⟨hd, hp, ⟨hcs, hct⟩, hb, hi⟩
    rw [(hoffset hb).1, (hoffset hb).2] at hi
    rw [b.bracketed_offsets hd hp hs hsign, offsetsBracket_eq_ok_iff h]
    simp only [inUnits_places]
    exact ⟨hb, hcs, hct, hi⟩

/-- **Bases with offsets.** A literal with a bracket is a base with digits and its bracket. Where a
bracket has one offset in both directions, the interval is the numbers that are at most that many
units away from the base, whatever the sign of the offset. Where it has an offset in either
direction, the endpoints are that many units below and above the base, and the base is between them
unless the offsets have opposite signs. -/
theorem uncertainty_offsets (integerBase : Bool) (i : Interval) :
    (∀ t, uncertainty t integerBase = .ok i →
      ∃ (b : Base) (c : Text), body t = b.bracket c ∧ b.digits ≠ []) ∧
    (∀ (b : Base) (c k : Text), c = '+' :: '-' :: k ∨ c = '-' :: '+' :: k →
      (uncertainty (b.bracket c) integerBase = .ok i ↔ b.digits ≠ [] ∧ ']' ∉ k ∧
        ∃ v, offset k = .ok v ∧ b.value ∈ i ∧
          i = .hull (b.value - v * b.unit) (b.value + v * b.unit))) ∧
    ∀ (b : Base) (s t p n : Text),
      trim s = '+' :: p ∧ trim t = '-' :: n ∨ trim s = '-' :: n ∧ trim t = '+' :: p →
      isSymmetric (s ++ ',' :: t) = false →
      (uncertainty (b.bracket (s ++ ',' :: t)) integerBase = .ok i ↔
        b.digits ≠ [] ∧ b.fraction ≠ some [] ∧ (',' ∉ s ∧ ',' ∉ t) ∧ (']' ∉ s ∧ ']' ∉ t) ∧
          ∃ x y, offset p = .ok x ∧ offset n = .ok y ∧ (b.value ∈ i ↔ 0 ≤ x * y) ∧
            i = .hull (b.value - y * b.unit) (b.value + x * b.unit)) := by
  refine ⟨fun t => Base.exists_bracket, fun b c k hc => ?_, fun b s t p n h hs => ?_⟩
  · rw [b.uncertainty_symmetric hc]
    refine and_congr_right fun _ => and_congr_right fun _ => exists_congr fun v =>
      and_congr_right fun _ => (and_iff_right_of_imp ?_).symm
    rintro rfl
    exact (Interval.mem_hull_offsets b.unit_pos).2 (mul_self_nonneg v)
  · rw [b.uncertainty_pair h hs]
    refine and_congr_right fun _ => and_congr_right fun _ => and_congr_right fun _ =>
      and_congr_right fun _ => exists_congr fun x => exists_congr fun y =>
        and_congr_right fun _ => and_congr_right fun _ => (and_iff_right_of_imp ?_).symm
    rintro rfl
    exact Interval.mem_hull_offsets b.unit_pos

/-- Both readings of `1.23` with offsets: five thousandths either way, and six down and five up. -/
theorem thousandths_around :
    let b : Base := ⟨false, ['1'], some ['2', '3'], List.all_eq_true.1 rfl, List.all_eq_true.1 rfl⟩
    let i := Interval.hull (1225 / 1000) (1235 / 1000)
    let j := Interval.hull (1224 / 1000) (1235 / 1000)
    (b.bracket "+-5".toList = "1.23[+-5]".toList ∧
        uncertainty (b.bracket "+-5".toList) true = .ok i) ∧
      b.bracket "+5,-6".toList = "1.23[+5,-6]".toList ∧ isSymmetric "+5,-6".toList = false ∧
        uncertainty (b.bracket "+5,-6".toList) true = .ok j ∧ b.value ∈ j := by
  intro b i j
  have hsymmetric : isSymmetric "+5,-6".toList = false := by decide
  have hfive : offset "5".toList = .ok 5 := by with_unfolding_all decide
  have hsix : offset "6".toList = .ok 6 := by with_unfolding_all decide
  have hi := ((uncertainty_offsets true i).2.1 b "+-5".toList "5".toList (.inl rfl)).2
    ⟨by decide, by decide, 5, hfive, by with_unfolding_all decide, by with_unfolding_all decide⟩
  have hj := (uncertainty_offsets true j).2.2 b "+5".toList "-6".toList "5".toList "6".toList
    (.inl ⟨by decide, by decide⟩) hsymmetric
  have hread : uncertainty (b.bracket "+5,-6".toList) true = .ok j := hj.2
    ⟨by decide, by decide, by decide, by decide, 5, 6, hfive, hsix, by with_unfolding_all decide,
      by with_unfolding_all decide⟩
  obtain ⟨-, -, -, -, x, y, hx, hy, hmem, -⟩ := hj.1 hread
  cases hfive.symm.trans hx
  cases hsix.symm.trans hy
  exact ⟨⟨by decide, hi⟩, by decide, hsymmetric, hread, hmem.2 (by with_unfolding_all decide)⟩

/-- An offset upwards that is negative: the base is not in the interval. -/
theorem base_not_mem_negative_offset :
    rational "1.2".toList = .ok (12 / 10) ∧ offset "3".toList = .ok 3 ∧
      offset "-5".toList = .ok (-5) ∧
      uncertainty "1.2[-3,+-5]".toList true = .ok (.hull (115 / 100) (117 / 100)) ∧
      (12 / 10 : Rat) ∉ Interval.hull (115 / 100) (117 / 100) := by
  with_unfolding_all decide

end Literal

end RatCalc

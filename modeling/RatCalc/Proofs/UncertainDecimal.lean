import Mathlib.Data.List.TakeWhile
import RatCalc.Proofs.ExplicitInterval
import RatCalc.Proofs.RoundTrip
import RatCalc.Proofs.Runs

/-!
# Repeating decimals where every number is an interval

* `LateGroup`: a group behind a plain digit.
* **`uncertain_repeatingDecimal`**: the text of a number is read as the interval of the number,
  unless it has such a group; what stands before the group is then a plain decimal of its own.
-/

namespace RatCalc

open Text Reading Expansion

namespace Dialect

variable {d : Dialect} {t u w r : Text} {negative : Bool}

/-! ## Plain decimals before a group -/

/-- What is found as a plain decimal depends on what follows the digits behind the point. -/
theorem plain?_of_point (hm : minus t = (negative, w ++ '.' :: (u ++ r)))
    (hw : ∀ c ∈ w, d.isDigit c = true) (hu : ∀ c ∈ u, d.isDigit c = true)
    (hr : ∀ c v, r = c :: v → d.isDigit c = false) :
    d.plain? t =
      if u.isEmpty || r.head?.any (['#', ':', '~', '[', '.'].contains ·) then none
      else some (negative, w ++ '.' :: u, u.length, r) := by
  obtain ⟨htake, hdrop⟩ := span_point (d.isDigit_of_reserved (by decide)) hw (u ++ r)
  obtain ⟨htake', hdrop'⟩ := span_append hu hr
  rw [plain?_eq, hm]
  simp only
  rw [hdrop, htake]
  simp only
  rw [htake', hdrop']

theorem PlainDecimal.found (h : d.PlainDecimal t negative w u r) :
    d.plain? t = some (negative, w ++ '.' :: u, u.length, r) := by
  have hends : r.head?.any (['#', ':', '~', '[', '.'].contains ·) = false := by
    cases r with
    | nil => rfl
    | cons c v =>
      rw [← Bool.not_eq_true]
      exact fun hc => h.ends c v rfl (List.contains_iff_mem.1 hc)
  rw [plain?_of_point h.sign h.whole h.places h.stops, hends,
    List.isEmpty_eq_false_iff.2 h.nonempty]
  rfl

/-- A text without marks is shown as it is. -/
theorem display_eq (h : ∀ c ∈ t, c ≠ spacedMark ∧ c ≠ divisionMark) : d.display t = t := by
  induction t with
  | nil => rfl
  | cons c t ih =>
    obtain ⟨⟨hs, hd⟩, ht⟩ := List.forall_mem_cons.1 h
    have hcons : d.display (c :: t) = [c] ++ d.display t := by
      rw [display, List.flatMap_cons, if_neg hs, if_neg hd]
      rfl
    rw [hcons, ih ht]
    rfl

theorem StartsNumber.exists_reads_signed (hs : StartsNumber t) {v w : Value}
    (hr : r = [] ∨ Stuck r) (hv : d.interval t = .ok ((v, false), r))
    (hw : d.interval ('-' :: t) = .ok ((w, false), r)) (negative : Bool) :
    ∃ e, Reads d .factor (sign negative ++ t) e r ∧
      e.eval d = .ok (if negative then d.negate v else v) :=
  Dialect.exists_reads_signed (hs.ne_cons (by decide) (by decide))
    (hs.ne_cons (by decide) (by decide)) hs.bracket?
    (not_signsFraction_iff.2 fun _ => hs.continuedFraction? true) hr hv hw negative

end Dialect

namespace Ratio

open Dialect RunLength

variable {a : Rat} {limit : Nat} {maxDigits : Option Nat} (letters : LetterTable)

/-! ## The text of a number -/

/-- The digits before the period have four equal ones in a row, but not at their start: they are
written with a group behind a plain digit. -/
def LateGroup (a : Rat) : Prop :=
  HasRun 4 (digits a (preperiod a.den)) ∧ ¬ BeginsWithRun 4 (digits a (preperiod a.den))

theorem lateGroup_abs : LateGroup |a| ↔ LateGroup a := by
  have hdigits : ∀ k, digits |a| k = digits a k := fun k => by
    simp only [digits, digit, natAbs_num_abs, Rat.den_abs_eq_den]
  rw [LateGroup, LateGroup, hdigits, Rat.den_abs_eq_den]

theorem not_lateGroup_of_den_one (h : a.den = 1) : ¬ LateGroup a := by
  rintro ⟨hrun, -⟩
  have hnil : digits a (preperiod a.den) = [] := by
    have hzero : preperiod 1 = 0 :=
      Nat.le_zero.1 (preperiod_le_of_dvd Nat.one_ne_zero (t := 1) (by decide) (by decide))
    rw [h, hzero]
    rfl
  obtain ⟨r, hr, -⟩ := (hasRun_iff (by decide)).1 hrun
  rw [hnil] at hr
  cases hr

/-- The text of a magnitude that is not whole. -/
theorem exists_text_abs (limit : Nat) (maxDigits : Option Nat) (h1 : a.den ≠ 1) :
    ∃ z, (repeatingDecimal |a| true limit maxDigits).1 = Numeral.ofNat (wholePart |a|) ++
      '.' :: (compress 4 (digits |a| (preperiod (|a|).den)) ++ '#' :: z) := by
  have h1 : (|a|).den ≠ 1 := by rwa [Rat.den_abs_eq_den]
  by_cases ht : Terminates |a|
  · rw [repeating_of_terminates ht h1, Literal.head_of_nonneg (abs_nonneg a)]
    exact ⟨_, rfl⟩
  · rw [repeating_of_not_terminates ht, Literal.head_of_nonneg (abs_nonneg a)]
    exact ⟨_, rfl⟩

/-- Where every number is an interval. -/
def uncertainly (letters : LetterTable) : Dialect := (exactly letters).mode false

section

variable (hs : StartsNumber (repeatingDecimal |a| true limit maxDigits).1)
include hs

/-- Without a late group the text begins with no plain decimal. -/
theorem plain?_of_not_lateGroup (h : ¬ LateGroup a) (negative : Bool) :
    (uncertainly letters).plain?
      (sign negative ++ (repeatingDecimal |a| true limit maxDigits).1) = none := by
  have hm := hs.minus_sign negative
  have hw := Numeral.all_isPlainDigit_ofNat (wholePart |a|)
  by_cases h1 : a.den = 1
  · rw [repeating_of_den_one ((Rat.den_abs_eq_den a).trans h1),
      Literal.head_of_nonneg (abs_nonneg a)] at hm ⊢
    have hdrop : (Numeral.ofNat (wholePart |a|)).dropWhile (uncertainly letters).isDigit = [] :=
      List.dropWhile_eq_nil_iff.2 hw
    rw [plain?_eq, hm]
    simp only
    rw [hdrop]
  obtain ⟨z, hz⟩ := exists_text_abs limit maxDigits h1
  rw [← lateGroup_abs] at h
  rw [hz] at hm ⊢
  rcases compress_cases (by decide : 0 < 4) (digits |a| (preperiod (|a|).den)) with
    ⟨-, hc⟩ | ⟨-, v, hc⟩ | ⟨hrun, hbegin, -⟩
  · -- all digits are plain, and the mark of the period follows
    rw [hc] at hm ⊢
    rw [plain?_of_point (d := uncertainly letters) hm hw (all_digits |a| _) fun c v hv => by
      rw [← (List.cons.inj hv).1]
      rfl]
    exact if_pos (by simp)
  · -- no plain digit stands behind the point
    rw [hc] at hm ⊢
    rw [plain?_of_point (d := uncertainly letters) (u := []) hm hw (fun _ h => nomatch h)
      fun c v hv => by
        rw [← (List.cons.inj hv).1]
        rfl]
    exact if_pos rfl
  · exact absurd ⟨hrun, hbegin⟩ h

/-- A late group stands behind a plain decimal. -/
theorem exists_plainDecimal_of_lateGroup (h : LateGroup a) :
    ∃ w u r, (repeatingDecimal |a| true limit maxDigits).1 = w ++ '.' :: (u ++ '\x7b' :: r) ∧
      ∀ negative, (uncertainly letters).PlainDecimal
        (sign negative ++ (repeatingDecimal |a| true limit maxDigits).1) negative w u
          ('\x7b' :: r) := by
  have h1 : a.den ≠ 1 := fun h1 => not_lateGroup_of_den_one h1 h
  obtain ⟨z, hz⟩ := exists_text_abs limit maxDigits h1
  rw [← lateGroup_abs] at h
  rcases compress_cases (by decide : 0 < 4) (digits |a| (preperiod (|a|).den)) with
    ⟨hrun, -⟩ | ⟨hbegin, -⟩ | ⟨-, -, u, w, v, hne, hdigits, hc⟩
  · exact absurd h.1 hrun
  · exact absurd hbegin h.2
  · have htext : (repeatingDecimal |a| true limit maxDigits).1 =
        Numeral.ofNat (wholePart |a|) ++ '.' :: (u ++ '\x7b' :: (v ++ '#' :: z)) := by
      rw [hz, hc, List.append_assoc]
      rfl
    refine ⟨_, u, _, htext, fun negative => ?_⟩
    exact {
      sign := by rw [hs.minus_sign, htext]
      whole := Numeral.all_isPlainDigit_ofNat (wholePart |a|)
      places := fun c hc => all_digits |a| _ c (hdigits ▸ List.mem_append_left w hc)
      nonempty := hne
      stops := fun c x hx => by
        rw [← (List.cons.inj hx).1]
        rfl
      ends := fun c x hx => by
        rw [← (List.cons.inj hx).1]
        decide }

end

/-! ## The two readings -/

theorem saysNumber_text (h : period a < defaultLimit) :
    SaysNumber letters (repeatingDecimal |a| true defaultLimit none).1 ⟨|a|, false⟩ [] := by
  have hsays := saysNumber_abs (a := a) letters true (fun _ => Literal.not_shortened h) stops_nil
    (fun _ hu => nomatch hu) (fun _ hu => nomatch hu) List.not_mem_nil
  rwa [List.append_nil] at hsays

theorem negate_point (b : Rat) :
    (uncertainly letters).negate (.plain (.interval (.point b))) =
      .plain (.interval (.point (-b))) := by
  change Value.plain (.interval ((Interval.point (-1)).mul (.point b))) = _
  rw [Interval.point_mul, neg_one_mul]

theorem valueOf_of_not_lateGroup (h : period a < defaultLimit) (hg : ¬ LateGroup a) :
    Expr.valueOf (uncertainly letters) (repeatingDecimal a true defaultLimit none).1 =
      .ok (.plain (.interval (.point a))) := by
  have hs := saysNumber_text letters h
  have hi : ∀ negative, (uncertainly letters).interval
      (sign negative ++ (repeatingDecimal |a| true defaultLimit none).1) =
        .ok ((.plain (.interval (.point (if negative then -|a| else |a|))), false), []) :=
    fun negative => interval_single (d := uncertainly letters)
      (.inr (plain?_of_not_lateGroup letters hs.toStartsNumber hg negative))
      (hs.scaledEndpoint rfl negative true) fun _ h => nomatch h
  obtain ⟨e, he, hv⟩ := hs.exists_reads_signed (d := uncertainly letters) (.inl rfl)
    (hi false) (hi true) (decide (a.num < 0))
  rw [← repeatingDecimal_abs] at he
  rw [Expr.valueOf_eq_ok_iff, prepare_repeatingDecimal]
  refine ⟨_, he.sum_of_factor (.inl rfl), ?_⟩
  have hvalue : (if decide (a.num < 0) then
      (uncertainly letters).negate (.plain (.interval (.point |a|)))
        else .plain (.interval (.point |a|))) = Value.plain (.interval (.point a)) := by
    have hsigned := signed_abs a
    rw [negate_point]
    split_ifs at hsigned ⊢ <;> rw [hsigned]
  rw [Expr.eval, hv]
  exact congrArg Except.ok hvalue

/-- A repeating decimal has none of the marks that stand for blanks. -/
theorem display_repeatingDecimal (d : Dialect) {r : Text} (useGroups : Bool)
    (h : r <:+ (repeatingDecimal a useGroups limit maxDigits).1) : d.display r = r := by
  have hmarks : ∀ s ∈ marks, s ≠ spacedMark ∧ s ≠ divisionMark := forall_of_all (by decide)
  refine display_eq fun c hc => ?_
  rcases mem_repeatingDecimal a useGroups limit maxDigits c (h.subset hc) with hd | hm
  · exact ⟨ne_of_plain hd (by decide), ne_of_plain hd (by decide)⟩
  · exact hmarks c hm

/-- No group stands before the first one. -/
theorem dropWhile_to_group {w u : Text} (hw : ∀ c ∈ w, isPlainDigit c = true)
    (hu : ∀ c ∈ u, isPlainDigit c = true) (negative : Bool) (r : Text) :
    (sign negative ++ (w ++ '.' :: (u ++ '\x7b' :: r))).dropWhile (· != '\x7b') = '\x7b' :: r := by
  have hopen : ∀ c ∈ sign negative ++ (w ++ '.' :: u), (c != '\x7b') = true := by
    intro c hc
    rw [bne_iff_ne]
    rcases List.mem_append.1 hc with hc | hc
    · rw [mem_sign hc]
      decide
    · rcases Literal.mem_point hw hu c hc with hd | rfl
      · exact ne_of_plain hd (by decide)
      · decide
  have hsplit : sign negative ++ (w ++ '.' :: (u ++ '\x7b' :: r)) =
      sign negative ++ (w ++ '.' :: u) ++ '\x7b' :: r := by
    simp only [List.append_assoc, List.cons_append]
  rw [hsplit]
  exact (span_append hopen fun c v hv => by rw [← (List.cons.inj hv).1]; decide).2

theorem valueOf_of_lateGroup (h : period a < defaultLimit) (hg : LateGroup a) :
    Expr.valueOf (uncertainly letters) (repeatingDecimal a true defaultLimit none).1 =
      .error (.literal (.trailingToken (String.ofList
        ((repeatingDecimal a true defaultLimit none).1.dropWhile (· != '\x7b'))))) := by
  have hs := saysNumber_text letters h
  obtain ⟨w, u, r, htext, hplain⟩ := exists_plainDecimal_of_lateGroup letters hs.toStartsNumber hg
  have hi : ∀ negative, ∃ x : Number, (uncertainly letters).interval
      (sign negative ++ (repeatingDecimal |a| true defaultLimit none).1) =
        .ok ((.plain x, false), '\x7b' :: r) := fun negative =>
    ⟨_, interval_uncertain (d := uncertainly letters) rfl (hplain negative).found
      ((hplain negative).uncertain_of_none rfl _)⟩
  obtain ⟨x, hx⟩ := hi false
  obtain ⟨y, hy⟩ := hi true
  have hstuck : Stuck ('\x7b' :: r) := ⟨_, r, rfl, .inr (.inl rfl)⟩
  obtain ⟨e, he, hv⟩ := hs.exists_reads_signed (.inr hstuck) hx hy
    (decide (a.num < 0))
  rw [← repeatingDecimal_abs, ← prepare_repeatingDecimal (uncertainly letters)] at he
  have hdrop : (repeatingDecimal a true defaultLimit none).1.dropWhile (· != '\x7b') =
      '\x7b' :: r := by
    rw [repeatingDecimal_abs, htext]
    exact dropWhile_to_group (hplain false).whole (hplain false).places _ r
  have hsuffix : '\x7b' :: r <:+ (repeatingDecimal a true defaultLimit none).1 :=
    hdrop ▸ List.dropWhile_suffix _
  have hdisplay := display_repeatingDecimal (uncertainly letters) true hsuffix
  have hread := he.sum_of_factor (.inr hstuck)
  rw [Expr.valueOf_of_reads_rest hread (v := _) (by rw [Expr.eval, hv]; rfl), hdrop, hdisplay]

/-- **Repeating decimals where every number is an interval.** The text of a number is read as the
interval of the number alone, unless a group of its digits before the period stands behind a plain
digit. What is before that group is then read as a decimal whose last place is uncertain, and the
text is refused from the group on. -/
theorem uncertain_repeatingDecimal (letters : LetterTable) {a : Rat}
    (h : period a < defaultLimit) :
    let t := (repeatingDecimal a true defaultLimit none).1
    (¬ LateGroup a →
      Expr.valueOf (uncertainly letters) t = .ok (.plain (.interval (.point a)))) ∧
    (LateGroup a → Expr.valueOf (uncertainly letters) t =
      .error (.literal (.trailingToken (String.ofList (t.dropWhile (· != '\x7b')))))) :=
  ⟨valueOf_of_not_lateGroup letters h, valueOf_of_lateGroup letters h⟩

/-- A group stands at the start of the digits of `0.00001`, and behind a digit in `0.100001`. -/
theorem hundred_thousandths :
    (period (mkRat 1 100000) < defaultLimit ∧ ¬ LateGroup (mkRat 1 100000) ∧
      Expr.valueOf (uncertainly .initial)
          (repeatingDecimal (mkRat 1 100000) true defaultLimit none).1 =
        .ok (.plain (.interval (.point (mkRat 1 100000))))) ∧
    (period (mkRat 100001 1000000) < defaultLimit ∧ LateGroup (mkRat 100001 1000000) ∧
      (repeatingDecimal (mkRat 100001 1000000) true defaultLimit none).1 =
        "0.1\x7b0~4\x7d1#0".toList ∧
      Expr.valueOf (uncertainly .initial)
          (repeatingDecimal (mkRat 100001 1000000) true defaultLimit none).1 =
        .error (.literal (.trailingToken "\x7b0~4\x7d1#0"))) := by
  have hperiod : period (mkRat 1 100000) < defaultLimit :=
    (period_le one_pos (by with_unfolding_all decide)).trans_lt (by decide)
  have hperiod' : period (mkRat 100001 1000000) < defaultLimit :=
    (period_le one_pos (by with_unfolding_all decide)).trans_lt (by decide)
  have hdigits : digits (mkRat 1 100000) (preperiod (mkRat 1 100000).den) =
      ['0', '0', '0', '0', '1'] := by with_unfolding_all decide
  have hdigits' : digits (mkRat 100001 1000000) (preperiod (mkRat 100001 1000000).den) =
      ['1', '0', '0', '0', '0', '1'] := by with_unfolding_all decide
  have hnot : ¬ LateGroup (mkRat 1 100000) := fun h => h.2 ⟨'0', ['1'], hdigits⟩
  have hlate : LateGroup (mkRat 100001 1000000) := by
    rw [LateGroup, hdigits']
    refine ⟨⟨['1'], '0', ['1'], rfl⟩, ?_⟩
    rintro ⟨c, v, hv⟩
    cases (List.cons.inj hv).1
    exact absurd (List.cons.inj (List.cons.inj hv).2).1 (by decide)
  have htext : (repeatingDecimal (mkRat 100001 1000000) true defaultLimit none).1 =
      "0.1\x7b0~4\x7d1#0".toList := by with_unfolding_all decide
  have hread := (uncertain_repeatingDecimal .initial hperiod).1 hnot
  have hrefused := (uncertain_repeatingDecimal .initial hperiod').2 hlate
  refine ⟨⟨hperiod, hnot, hread⟩, hperiod', hlate, htext, ?_⟩
  refine hrefused.trans ?_
  rw [htext]
  rfl

end Ratio

end RatCalc
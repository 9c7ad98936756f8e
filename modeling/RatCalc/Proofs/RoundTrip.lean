import RatCalc.Proofs.Blanks
import RatCalc.Proofs.DecimalExpr

/-!
# Decimal texts read back

* `valueOf_repeatingDecimal`: as an expression the text of a number has its value.
* `valueOf_dots`: a text that ends in dots has no value.
* `valueOf_interval`: the two endpoints of an interval have its value.
* **`decimal_readsBack`**: the texts of numbers and intervals are read back, on their own and as
  expressions, unless they end in dots.
-/

namespace RatCalc.Ratio

open Dialect Expansion Text

variable {a : Rat} {useGroups : Bool} {limit : Nat} {maxDigits : Option Nat}
  (letters : LetterTable)

/-! ## Texts of numbers -/

theorem prepare_repeatingDecimal (d : Dialect) (a : Rat) (useGroups : Bool) (limit : Nat)
    (maxDigits : Option Nat) :
    d.prepare (repeatingDecimal a useGroups limit maxDigits).1 =
      (repeatingDecimal a useGroups limit maxDigits).1 :=
  d.prepare_of_no_blank (Literal.isBlank_of_mem_repeatingDecimal a useGroups limit maxDigits)

/-- A magnitude with something after it is read as the magnitude. -/
theorem saysNumber_abs (useGroups : Bool) (h : ¬ Terminates a → ¬ Shortened a limit maxDigits)
    {rest : Text} (hr : Stops rest) (hpoint : ∀ u, rest ≠ '.' :: u) (hover : ∀ u, rest ≠ '/' :: u)
    (hb : '[' ∉ rest) :
    SaysNumber letters ((repeatingDecimal |a| useGroups limit maxDigits).1 ++ rest) ⟨|a|, false⟩
      rest := by
  rw [← terminates_abs, ← shortened_abs] at h
  exact saysNumber_repeatingDecimal letters (abs_nonneg a) h hr hpoint hover hb

theorem startsPlain_written {w : Text} (hne : w ≠ []) (hw : ∀ c ∈ w, isPlainDigit c = true)
    (f p mark u : Text) : StartsPlain (written w f p mark ++ u) := by
  rw [written, List.append_assoc]
  exact Literal.exists_cons_of_plain hne hw _

theorem startsPlain_abs (a : Rat) (useGroups : Bool) (u : Text) :
    StartsPlain ((repeatingDecimal |a| useGroups limit maxDigits).1 ++ u) := by
  have hw := Numeral.ofNat_ne_nil (wholePart |a|)
  have hwd := Numeral.all_isPlainDigit_ofNat (wholePart |a|)
  by_cases h1 : (|a|).den = 1
  · rw [repeating_of_den_one h1, Literal.head_of_nonneg (abs_nonneg a)]
    exact Literal.exists_cons_of_plain hw hwd u
  · by_cases ht : Terminates |a|
    · rw [repeating_of_terminates ht h1, Literal.head_of_nonneg (abs_nonneg a)]
      exact startsPlain_written hw hwd _ _ _ u
    · rw [repeating_of_not_terminates ht, Literal.head_of_nonneg (abs_nonneg a)]
      exact startsPlain_written hw hwd _ _ _ u

/-- **As an expression the text of a number** has its value, unless it is shortened. -/
theorem valueOf_repeatingDecimal (h : ¬ Terminates a → ¬ Shortened a limit maxDigits) :
    Expr.valueOf (exactly letters) (repeatingDecimal a useGroups limit maxDigits).1 =
      .ok (.plain (Number.rational a).simplest) := by
  have hsays := saysNumber_abs letters useGroups h stops_nil (fun _ hu => nomatch hu)
    (fun _ hu => nomatch hu) List.not_mem_nil
  rw [List.append_nil] at hsays
  obtain ⟨e, he, hv⟩ := hsays.reads_sum endsNumber_nil (decide (a.num < 0))
  rw [← repeatingDecimal_abs] at he
  rw [Expr.valueOf_eq_ok_iff, prepare_repeatingDecimal]
  refine ⟨e, he, ?_⟩
  rw [hv, Endpoint.signed, signed_abs, Endpoint.shown_of_not_kept]

/-! ## Texts that end in dots -/

/-- The text of a magnitude with dots after digits of its period. -/
theorem exists_written_dots (useGroups : Bool) (ht : ¬ Terminates a)
    (hs : Shortened a limit maxDigits) :
    ∃ w f p : Text, w ≠ [] ∧ (∀ c ∈ w, isPlainDigit c = true) ∧ (∀ c ∈ f, isPlainDigit c = true) ∧
      (∀ c ∈ p, isPlainDigit c = true) ∧ (repeatingDecimal |a| useGroups limit maxDigits).1 =
        written w (grouped useGroups 4 f) (grouped useGroups 6 p) [] ++ dots := by
  rw [← terminates_abs] at ht
  rw [← shortened_abs] at hs
  rcases writtenDigits_spec |a| limit maxDigits with ⟨-, hn, -⟩ | ⟨hw, -⟩
  · exact absurd hs hn
  · refine ⟨_, _, _, Numeral.ofNat_ne_nil (wholePart |a|), Numeral.all_isPlainDigit_ofNat _,
      all_digits |a| (preperiod (|a|).den),
      all_periodDigits |a| (writtenDigits |a| limit maxDigits), ?_⟩
    rw [repeating_of_not_terminates ht, if_neg hw, written_eq_append,
      Literal.head_of_nonneg (abs_nonneg a)]

/-- **A text that ends in dots** has no value: where no digit of the period is left the decimal is
none, and otherwise the dots are left over. -/
theorem valueOf_dots (ht : ¬ Terminates a) (hs : Shortened a limit maxDigits) :
    ∃ f, Expr.valueOf (exactly letters) (repeatingDecimal a useGroups limit maxDigits).1 =
      .error (.literal f) := by
  obtain ⟨w, f, p, hw, hwd, hfd, hpd, htext⟩ := exists_written_dots useGroups ht hs
  have hprep := prepare_repeatingDecimal (exactly letters) a useGroups limit maxDigits
  have hno : '[' ∉ dots := by decide
  rw [repeatingDecimal_abs, htext] at hprep ⊢
  by_cases hp : p = []
  · have hd : Literal.decimal (written w (grouped useGroups 4 f) (grouped useGroups 6 p) []) =
        .error (.literal .repeatDigits) := by
      rw [Literal.decimal_written 4 6 hwd hfd hpd, hp]
      exact Literal.periodicDecimal_of_not_digits (not_mem_of_plain hwd (by decide))
        (not_mem_of_plain hfd (by decide)) List.not_mem_nil rfl false
    have hu := unsigned_written letters useGroups 4 6 hw hwd hfd hpd stops_dots
    rw [repeatingValue_of_error hd] at hu
    have hstart := startsNumber_written useGroups 4 6 hwd hfd hpd hno
    have hplain : StartsPlain
        (written w (grouped useGroups 4 f) (grouped useGroups 6 p) [] ++ dots) :=
      startsPlain_written hw hwd _ _ _ dots
    have hstop := hstart.factor_of_error hplain hu (decide (a.num < 0))
    rw [← hprep] at hstop
    exact ⟨_, Expr.valueOf_of_factor_stop (by rw [hprep]; simp [dots]) hstop⟩
  · obtain ⟨b, hb⟩ := Literal.exists_repeatingFraction (Numeral.value (w ++ f))
      (Numeral.value (w ++ f ++ p)) f.length (List.length_eq_zero_iff.not.2 hp)
    have hv : repeatingValue (written w (grouped useGroups 4 f) (grouped useGroups 6 p) []) =
        .ok b := by
      refine repeatingValue_eq ?_
      rw [Literal.decimal_written 4 6 hwd hfd hpd,
        Literal.periodicDecimal_written hp hwd hfd hpd, hb]
      rfl
    have hsays := saysNumber_written letters hw hwd hfd hpd stops_dots hno hv
    obtain ⟨e, he, hval⟩ := hsays.reads_sum (endsNumber_cons (by decide) _) (decide (a.num < 0))
    rw [← hprep] at he
    exact ⟨_, Expr.valueOf_of_reads_rest he hval⟩

/-! ## Intervals -/

theorem isBlank_of_mem_interval (i : Interval) (useGroups : Bool) :
    ∀ c ∈ i.repeatingDecimal useGroups, isBlank c = false := by
  intro c hc
  rw [Interval.repeatingDecimal, List.mem_append, List.mem_cons] at hc
  rcases hc with hc | rfl | hc
  · exact Literal.isBlank_of_mem_repeatingDecimal _ _ _ _ c hc
  · decide
  · exact Literal.isBlank_of_mem_repeatingDecimal _ _ _ _ c hc

/-- **As an expression the two endpoints of an interval** have its value. -/
theorem valueOf_interval {i : Interval} (hlow : period i.low < defaultLimit)
    (hhigh : period i.high < defaultLimit) :
    Expr.valueOf (exactly letters) (i.repeatingDecimal useGroups) = .ok (.kept (.interval i)) := by
  have hl : ¬ Terminates i.low → ¬ Shortened i.low defaultLimit none := fun _ =>
    Literal.not_shortened hlow
  have hh : ¬ Terminates i.high → ¬ Shortened i.high defaultLimit none := fun _ =>
    Literal.not_shortened hhigh
  have hsecond : (exactly letters).scaledEndpoint false
      (repeatingDecimal i.high useGroups defaultLimit none).1 =
        .ok (⟨i.high, false⟩, []) := by
    have hsays := saysNumber_abs letters useGroups hh stops_nil (fun _ hu => nomatch hu)
      (fun _ hu => nomatch hu) List.not_mem_nil
    have := hsays.scaledEndpoint rfl (decide (i.high.num < 0)) false
    rwa [List.append_nil, ← repeatingDecimal_abs, Endpoint.signed, signed_abs] at this
  have hno : '[' ∉ ':' :: (repeatingDecimal i.high useGroups defaultLimit none).1 := by
    rw [List.mem_cons, not_or]
    exact ⟨by decide, Literal.not_mem_repeatingDecimal (by decide) (by decide)⟩
  have hfirst := saysNumber_abs letters useGroups hl
    (stops_cons (by decide) (by decide) (by decide) (by decide))
    (fun _ hu => absurd (List.cons.inj hu).1 (by decide))
    (fun _ hu => absurd (List.cons.inj hu).1 (by decide)) hno
  obtain ⟨e, he, hv⟩ := hfirst.reads_sum_pair (startsPlain_abs i.low useGroups _) hsecond
    endsNumber_nil (decide (i.low.num < 0))
  rw [← List.append_assoc, ← repeatingDecimal_abs] at he
  rw [Expr.valueOf_eq_ok_iff, prepare_of_no_blank _ (isBlank_of_mem_interval i useGroups)]
  refine ⟨e, he, ?_⟩
  rw [hv, Endpoint.signed, signed_abs, Literal.hull_self]

/-! ## Both readers -/

/-- **Decimal texts read back.** A text ends in dots exactly where its number does not terminate and
its period is shortened. Where it does not, it is read as the number, on its own and as an
expression; where it does, it is a malformed literal in both readings. The texts of an interval
whose endpoints have short periods are read as the interval. -/
theorem decimal_readsBack (letters : LetterTable) (useGroups : Bool) :
    (∀ (a : Rat) (limit : Nat) (maxDigits : Option Nat),
      let t := (repeatingDecimal a useGroups limit maxDigits).1
      (dots <:+ t ↔ ¬ Terminates a ∧ Shortened a limit maxDigits) ∧
      (¬ dots <:+ t → Literal.decimal t = .ok (.rational a) ∧
        Expr.valueOf (exactly letters) t = .ok (.plain (Number.rational a).simplest)) ∧
      (dots <:+ t → (∃ f, Literal.decimal t = .error (.literal f)) ∧
        ∃ f, Expr.valueOf (exactly letters) t = .error (.literal f))) ∧
    ∀ i : Interval, period i.low < defaultLimit → period i.high < defaultLimit →
      Literal.decimal (i.repeatingDecimal useGroups) = .ok (.interval i) ∧
      Expr.valueOf (exactly letters) (i.repeatingDecimal useGroups) =
        .ok (.kept (.interval i)) := by
  refine ⟨fun a limit maxDigits => ?_, fun i hlow hhigh => ?_⟩
  · have hdots := dots_suffix_iff a useGroups limit maxDigits
    refine ⟨hdots, fun h => ?_, fun h => ?_⟩
    · rw [hdots, not_and] at h
      exact ⟨Literal.decimal_repeatingDecimal h, valueOf_repeatingDecimal letters h⟩
    · obtain ⟨ht, hs⟩ := hdots.1 h
      exact ⟨⟨_, Literal.decimal_dots ht hs⟩, valueOf_dots letters ht hs⟩
  · exact ⟨Literal.decimal_interval hlow hhigh useGroups, valueOf_interval letters hlow hhigh⟩

theorem thirds_readBack :
    (¬ dots <:+ (repeatingDecimal (-mkRat 7 12) true 7 none).1 ∧
      Literal.decimal (repeatingDecimal (-mkRat 7 12) true 7 none).1 =
        .ok (.rational (-mkRat 7 12))) ∧
    (dots <:+ (repeatingDecimal (mkRat 1 7) false 3 none).1 ∧
      ∃ f, Expr.valueOf (exactly .initial) (repeatingDecimal (mkRat 1 7) false 3 none).1 =
        .error (.literal f)) ∧
    (period (-mkRat 7 12) < defaultLimit ∧ period (mkRat 1 3) < defaultLimit ∧
      Expr.valueOf (exactly .initial)
          (Interval.repeatingDecimal ⟨-mkRat 7 12, mkRat 1 3, by decide +kernel⟩ true) =
        .ok (.kept (.interval ⟨-mkRat 7 12, mkRat 1 3, by decide +kernel⟩))) := by
  have hshown : ¬ dots <:+ (repeatingDecimal (-mkRat 7 12) true 7 none).1 := by
    with_unfolding_all decide
  have hdots : dots <:+ (repeatingDecimal (mkRat 1 7) false 3 none).1 := by
    with_unfolding_all decide
  have hlow : period (-mkRat 7 12) < defaultLimit :=
    (period_le one_pos (by with_unfolding_all decide)).trans_lt (by decide)
  have hhigh : period (mkRat 1 3) < defaultLimit :=
    (period_le one_pos (by with_unfolding_all decide)).trans_lt (by decide)
  obtain ⟨-, hread, -⟩ := (decimal_readsBack .initial true).1 (-mkRat 7 12) 7 none
  obtain ⟨-, -, hrefused⟩ := (decimal_readsBack .initial false).1 (mkRat 1 7) 3 none
  obtain ⟨-, hinterval⟩ := (decimal_readsBack .initial true).2
    ⟨-mkRat 7 12, mkRat 1 3, by decide +kernel⟩ hlow hhigh
  exact ⟨⟨hshown, (hread hshown).1⟩, ⟨hdots, (hrefused hdots).2⟩, ⟨hlow, hhigh, hinterval⟩⟩

end RatCalc.Ratio

import RatCalc.Proofs.DecimalExpr
import RatCalc.Proofs.RationalLiteral
import RatCalc.Proofs.Slash
import RatCalc.Proofs.TameText

/-!
# Single numbers of expressions as literals

* `exists_of_pointed?`, `exists_of_denominator`: what the readers of the forms take apart.
* **`exists_of_unsigned`**: without a letter and without a period, what is read as a number in an
  expression is the text of a literal with the same value.
* `exists_expand_digitRuns`: digits and groups that are read as a row are written out on their own.
* **`period_of_repeating?`**: the mark of a period is left where groups are written out.
-/

namespace RatCalc

namespace Dialect

open Text Literal Numeral

variable {letters : LetterTable} {t r v : Text}

/-! ## Forms of numbers -/

theorem isNumeral_takeWhile (h : t.takeWhile isPlainDigit ≠ []) :
    isNumeral (t.takeWhile isPlainDigit) = true :=
  isNumeral_iff.2 ⟨h, fun c hc => isDecimal_of_plain (List.all_eq_true.1 List.all_takeWhile c hc)⟩

theorem isNumeral_of_mem {w : Text} {s : Char} (h : s ∈ w) (hs : isDecimal s = false) :
    isNumeral w = false :=
  Bool.eq_false_iff.2 fun hw => not_mem_of_isDecimal (isNumeral_iff.1 hw).2 hs h

theorem eq_of_slash? (h : slash? t = some v) : t = '/' :: v := by
  rw [slash?.eq_def] at h
  split at h
  · cases h
  · split_ifs at h
    cases h
    rfl
  · cases h
    rfl
  · cases h

theorem exists_of_pointed? {literal : Text} (h : pointed? t = some (literal, r)) :
    ∃ w f, literal = w ++ '.' :: f ∧ t = literal ++ r ∧ (∀ c ∈ w, isDecimal c = true) ∧
      (∀ c ∈ f, isDecimal c = true) ∧ f ≠ [] := by
  rw [pointed?] at h
  split at h
  · rename_i u hu
    simp only at h
    split_ifs at h with hf
    cases h
    refine ⟨_, _, rfl, ?_, List.all_eq_true.1 List.all_takeWhile,
      List.all_eq_true.1 List.all_takeWhile, fun h0 => hf (List.isEmpty_iff.2 h0)⟩
    rw [List.append_assoc, List.cons_append, List.takeWhile_append_dropWhile, ← hu,
      List.takeWhile_append_dropWhile]
  · cases h

theorem denominator_exactly (mixed : Bool) (t : Text) : (exactly letters).denominator mixed t =
    if (t.takeWhile isPlainDigit).isEmpty then
      .error (.literal (if mixed then .mixedDenominator else .missingDenominator))
    else if (exactly letters).marker.isPrefixOf (t.dropWhile isPlainDigit) then
      .error (.literal (if mixed then .exponentAfterMixed else .exponentAfterFraction))
    else if Numeral.value (t.takeWhile isPlainDigit) = 0 then .error (.division .zeroDenominator)
    else .ok (Numeral.value (t.takeWhile isPlainDigit), t.dropWhile isPlainDigit) := rfl

/-- A denominator is a row of digits that is not worth zero. -/
theorem exists_of_denominator {mixed : Bool} {k : Nat}
    (h : (exactly letters).denominator mixed t = .ok (k, r)) :
    ∃ d, isNumeral d = true ∧ t = d ++ r ∧ k = Numeral.value d ∧ k ≠ 0 := by
  rw [denominator_exactly] at h
  split_ifs at h with hd _ h0
  cases h
  exact ⟨_, isNumeral_takeWhile fun h => hd (List.isEmpty_iff.2 h),
    List.takeWhile_append_dropWhile.symm, rfl, h0⟩

variable {x : Endpoint} {w : Text}

theorem exists_of_quotientFrom (hw : isNumeral w = true)
    (h : (exactly letters).quotientFrom (Numeral.value w) t = .ok (x, r)) :
    ∃ s, w ++ t = s ++ r ∧ Unsigned s x.value ∧ (isNumeral s = true → slash? r = none) := by
  rw [quotientFrom] at h
  split at h
  · rename_i hs
    cases h
    exact ⟨w, rfl, .whole hw, fun _ => hs⟩
  · rename_i v hs
    obtain ⟨⟨k, u⟩, hden, h⟩ := bind_eq_ok.1 h
    obtain ⟨d, hd, rfl, rfl, h0⟩ := exists_of_denominator hden
    cases h
    have hno : isNumeral (w ++ '/' :: d) = false :=
      isNumeral_of_mem (List.mem_append_right w List.mem_cons_self) (by decide)
    refine ⟨w ++ '/' :: d, ?_, .quotient hw hd h0, fun h => absurd (hno.symm.trans h) (by decide)⟩
    rw [eq_of_slash? hs, List.append_assoc, List.cons_append]

theorem mixedFrom_exactly (k : Nat) (t : Text) : (exactly letters).mixedFrom k t =
    if (t.takeWhile isPlainDigit).isEmpty then .error (.literal .mixedNumerator)
    else
      match slash? (t.dropWhile isPlainDigit) with
      | none => .error (.literal .mixedDenominator)
      | some u => do
        let (d, r) ← (exactly letters).denominator true u
        return (⟨mkRat (k * d + Numeral.value (t.takeWhile isPlainDigit)) d, false⟩, r) := rfl

theorem exists_of_mixedFrom (hw : isNumeral w = true)
    (h : (exactly letters).mixedFrom (Numeral.value w) t = .ok (x, r)) :
    ∃ s, w ++ '.' :: '.' :: t = s ++ r ∧ Unsigned s x.value ∧ isNumeral s = false := by
  rw [mixedFrom_exactly] at h
  split_ifs at h with hn
  split at h
  · cases h
  · rename_i v hs
    obtain ⟨⟨k, u⟩, hden, h⟩ := bind_eq_ok.1 h
    obtain ⟨d, hd, rfl, rfl, h0⟩ := exists_of_denominator hden
    cases h
    have hn := isNumeral_takeWhile fun h => hn (List.isEmpty_iff.2 h)
    refine ⟨w ++ '.' :: '.' :: (t.takeWhile isPlainDigit ++ '/' :: d), ?_, .mixed hw hn hd h0,
      isNumeral_of_mem (List.mem_append_right w List.mem_cons_self) (by decide)⟩
    have ht := List.takeWhile_append_dropWhile (p := isPlainDigit) (l := t)
    rw [eq_of_slash? hs] at ht
    conv_lhs => rw [← ht]
    simp only [List.append_assoc, List.cons_append]

theorem fraction_exactly (t : Text) : (exactly letters).fraction t =
    if (t.takeWhile isPlainDigit).isEmpty then
      .error (.literal (.unexpectedToken (String.ofList ((exactly letters).display (t.take 1)))))
    else
      match t.dropWhile isPlainDigit with
      | '.' :: '.' :: u =>
        (exactly letters).mixedFrom (Numeral.value (t.takeWhile isPlainDigit)) u
      | u => (exactly letters).quotientFrom (Numeral.value (t.takeWhile isPlainDigit)) u := rfl

theorem exists_of_fraction (h : (exactly letters).fraction t = .ok (x, r)) :
    ∃ s, t = s ++ r ∧ Unsigned s x.value ∧ (isNumeral s = true → slash? r = none) := by
  have ht := List.takeWhile_append_dropWhile (p := isPlainDigit) (l := t)
  rw [fraction_exactly] at h
  split_ifs at h with hw
  have hw := isNumeral_takeWhile fun h => hw (List.isEmpty_iff.2 h)
  split at h
  · rename_i u hu
    obtain ⟨s, hs, hx, hn⟩ := exists_of_mixedFrom hw h
    rw [hu] at ht
    exact ⟨s, ht.symm.trans hs, hx, fun hs => absurd (hn.symm.trans hs) Bool.false_ne_true⟩
  · obtain ⟨s, hs, hx⟩ := exists_of_quotientFrom hw h
    exact ⟨s, ht.symm.trans hs, hx⟩

/-- **What is read as a number is the text of a literal with its value**, without a letter and
without a period. Behind an integer no denominator is left. -/
theorem exists_of_unsigned (hl : (exactly letters).lettered? t = none) (hr : repeating? t = none)
    (h : (exactly letters).unsigned t = .ok (x, r)) :
    ∃ s, t = s ++ r ∧ Unsigned s x.value ∧ (isNumeral s = true → slash? r = none) := by
  rw [unsigned] at h
  split_ifs at h
  simp only [exactly] at hl h
  cases hp : pointed? t with
  | none =>
    rw [hl, hr, hp] at h
    exact exists_of_fraction h
  | some y =>
    obtain ⟨literal, rest⟩ := y
    rw [hl, hr, hp] at h
    obtain ⟨w, f, rfl, ht, hw, hf, hne⟩ := exists_of_pointed? hp
    have hu := Unsigned.decimal hw hf (List.append_ne_nil_of_right_ne_nil w hne)
    have hv : rational (w ++ '.' :: f) = _ := rational_of_unsigned hu false
    have hno : isNumeral (w ++ '.' :: f) = false :=
      isNumeral_of_mem (List.mem_append_right w List.mem_cons_self) (by decide)
    simp only [hv] at h
    cases h
    exact ⟨_, ht, hu, fun h => absurd (hno.symm.trans h) (by decide)⟩

/-! ## Marks of periods -/

open RunLength

/-- A row of digits and groups is written out on its own. -/
theorem exists_expand_digitRuns (t : Text) : ∃ y, expand t = y ++ expand (digitRuns 0 t).2 := by
  induction h : t.length using Nat.strong_induction_on generalizing t with
  | _ n ih =>
    subst h
    cases t with
    | nil => exact ⟨[], rfl⟩
    | cons c t =>
      by_cases hc : isDecimal c = true
      · obtain ⟨y, hy⟩ := ih t.length (by simp) t rfl
        have hopen : c ≠ '\x7b' := fun h => by
          rw [h] at hc
          revert hc
          decide
        exact ⟨c :: y, by rw [digitRuns_decimal hc, expand_cons hopen, hy]; rfl⟩
      · by_cases hg : groupLength (c :: t) = 0
        · exact ⟨[], by rw [digitRuns, if_neg hc, hg]; rfl⟩
        · obtain ⟨ds, es, u, heq, hds, hes⟩ := exists_group hg
          obtain ⟨y, hy⟩ := ih u.length (by rw [heq]; simp; omega) u rfl
          refine ⟨(List.replicate (Numeral.value es) ds).flatten ++ y, ?_⟩
          rw [heq, digitRuns_digits hds hes, expand_digits hds hes, List.append_assoc, hy]

/-- **The mark of a period is left** where groups are written out. -/
theorem period_of_repeating? (h : (repeating? t).isSome) : '#' ∈ expand t := by
  have hrow : ∀ c ∈ t.takeWhile isDecimal, isDecimal c = true :=
    List.all_eq_true.1 List.all_takeWhile
  have hsplit : expand t = t.takeWhile isDecimal ++ expand (t.dropWhile isDecimal) := by
    conv_lhs => rw [← List.takeWhile_append_dropWhile (p := isDecimal) (l := t)]
    exact expand_append (not_mem_of_isDecimal hrow (by decide)) _
  have hmark : ∀ u w, '#' :: u = (digitRuns 0 w).2 → '#' ∈ expand w := by
    intro u w hw
    obtain ⟨y, hy⟩ := exists_expand_digitRuns w
    rw [hy, ← hw, expand_cons (by decide)]
    simp
  rw [hsplit, List.mem_append]
  refine .inr ?_
  rw [repeating?] at h
  split at h
  · rename_i u hf
    rcases fixedPart?_cases hf with ⟨w, hw, hr⟩ | ⟨-, -, hr⟩
    · rw [hw, expand_cons (by decide)]
      exact List.mem_cons_of_mem _ (hmark _ _ hr)
    · exact hmark _ _ hr
  · cases h

end Dialect

end RatCalc

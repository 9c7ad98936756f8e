import Mathlib.Algebra.Order.Ring.Abs
import RatCalc.Proofs.Expansion
import RatCalc.Proofs.RunLength

/-!
# The repeating decimal as a text

* **`repeatingDecimal_abs`**: a sign, if there is one, stands before the text of the magnitude.
* **`expand_repeatingDecimal`**: with its groups written out it is the text without groups.
* `mem_repeatingDecimal`: its characters.
* **`dots_suffix_iff`**: it ends in dots where the digits of the period are shortened.
-/

namespace RatCalc.Ratio

open Expansion RunLength Text

variable (a : Rat) (useGroups : Bool) (limit : Nat) (maxDigits : Option Nat)

/-! ## Sign and magnitude -/

theorem natAbs_num_abs : (|a|).num.natAbs = a.num.natAbs := by
  rw [Rat.num_abs_eq_abs_num, Int.natAbs_abs]

theorem signed_abs : (if decide (a.num < 0) then -|a| else |a|) = a := by
  by_cases hn : a.num < 0
  · rw [decide_eq_true hn, if_pos rfl, abs_of_neg (Rat.num_neg.1 hn), neg_neg]
  · rw [decide_eq_false hn, if_neg (by decide), abs_of_nonneg (Rat.num_nonneg.1 (not_lt.1 hn))]

theorem terminates_abs : Terminates |a| ↔ Terminates a := by
  rw [terminates_iff, terminates_iff, Rat.den_abs_eq_den]

theorem shortened_abs : Shortened |a| limit maxDigits ↔ Shortened a limit maxDigits := by
  rw [Shortened, Shortened, period_eq, period_eq, Rat.den_abs_eq_den]

/-- The expansion of the magnitude is that of the number without its sign. -/
theorem of_abs (k : Nat) :
    Expansion.of (|a|).num (|a|).den k limit =
      { Expansion.of a.num a.den k limit with negative := false } := by
  have : ¬ (|a|).num < 0 := not_lt.2 (Rat.num_nonneg.2 (abs_nonneg a))
  rw [Expansion.of, Expansion.of, natAbs_num_abs, Rat.den_abs_eq_den, decide_eq_false this]
  simp only
  split_ifs <;> rfl

theorem repeatingAfter_append (u w : Text) (e : Expansion) (d : Nat) (negative : Bool) :
    (repeatingAfter (u ++ w) e d useGroups maxDigits).1 =
      u ++ (repeatingAfter w { e with negative := negative } d useGroups maxDigits).1 := by
  rw [repeatingAfter, repeatingAfter, terminates, terminates]
  simp only
  split_ifs <;> simp only [List.append_assoc]

/-- **A sign stands before the text of the magnitude** if the number is negative. -/
theorem repeatingDecimal_abs :
    (repeatingDecimal a useGroups limit maxDigits).1 =
      sign (decide (a.num < 0)) ++ (repeatingDecimal |a| useGroups limit maxDigits).1 := by
  by_cases h0 : a = 0
  · rw [h0, abs_zero]
    rfl
  · have hn : a.num ≠ 0 := mt Rat.num_eq_zero.1 h0
    have hn' : (|a|).num ≠ 0 := mt Rat.num_eq_zero.1 (abs_ne_zero.2 h0)
    rw [repeatingDecimal, repeatingDecimal, repeating, repeating, if_neg hn, if_neg hn', of_abs,
      Rat.den_abs_eq_den]
    have hs : (Expansion.of a.num a.den 0 limit).negative = decide (a.num < 0) := by
      rw [Expansion.of]
      simp only
      split_ifs <;> rfl
    simp only
    rw [repeatingAfter_append, hs]
    rfl

/-! ## Groups written out -/

theorem mem_sign {negative : Bool} {c : Char} (h : c ∈ sign negative) : c = '-' := by
  cases negative with
  | false => cases h
  | true => exact List.mem_singleton.1 h

/-- The text before the point holds no characters but digits and a minus sign. -/
theorem not_mem_head {s : Char} (hs : isPlainDigit s = false) (hm : s ≠ '-') : s ∉ head a := by
  rw [head, List.mem_append, not_or]
  exact ⟨fun h => hm (mem_sign h), not_mem_of_plain (Numeral.all_isPlainDigit_ofNat _) hs⟩

theorem no_open_head : '\x7b' ∉ head a := not_mem_head a (by decide) (by decide)

/-- A decimal text is written out part by part. -/
theorem expand_written {whole f f' p p' mark : Text} (hwhole : '\x7b' ∉ whole)
    (hf : ∀ w, expand (f' ++ w) = f ++ expand w) (hp : ∀ w, expand (p' ++ w) = p ++ expand w)
    (hmark : '\x7b' ∉ mark) (w : Text) :
    expand (written whole f' p' mark ++ w) = written whole f p mark ++ expand w := by
  rw [written, written, List.append_assoc, expand_append hwhole, List.cons_append,
    expand_cons (by decide), List.append_assoc, hf, List.cons_append, expand_cons (by decide),
    List.append_assoc, hp, expand_append hmark]
  simp only [List.append_assoc, List.cons_append]

theorem grouped_false (m : Nat) (t : Text) : grouped false m t = t := rfl

/-- **With its groups written out** it is the text without groups. -/
theorem expand_repeatingDecimal (w : Text) :
    expand ((repeatingDecimal a useGroups limit maxDigits).1 ++ w) =
      (repeatingDecimal a false limit maxDigits).1 ++ expand w := by
  by_cases h1 : a.den = 1
  · rw [repeating_of_den_one h1, repeating_of_den_one h1, expand_append (no_open_head a)]
  · by_cases ht : Terminates a
    · rw [repeating_of_terminates ht h1, repeating_of_terminates ht h1, grouped_false]
      exact expand_written (no_open_head a) (expand_grouped useGroups 4 (all_digits a _))
        (expand_append (by decide)) List.not_mem_nil w
    · rw [repeating_of_not_terminates ht, repeating_of_not_terminates ht, grouped_false,
        grouped_false]
      refine expand_written (no_open_head a) (expand_grouped useGroups 4 (all_digits a _))
        (expand_grouped useGroups 6 (all_periodDigits a _)) ?_ w
      split_ifs <;> decide

theorem expand_repeatingDecimal_eq :
    expand (repeatingDecimal a useGroups limit maxDigits).1 =
      (repeatingDecimal a false limit maxDigits).1 :=
  expand_eq_of_append (expand_repeatingDecimal a useGroups limit maxDigits)

/-! ## Characters -/

/-- The characters of a repeating decimal besides digits. -/
def marks : Text := ['-', '.', '#', '\x7b', '~', '\x7d']

theorem mem_head {c : Char} (h : c ∈ head a) : isPlainDigit c = true ∨ c ∈ marks := by
  rcases List.mem_append.1 h with h | h
  · rw [mem_sign h]
    exact .inr (by decide)
  · exact .inl (Numeral.all_isPlainDigit_ofNat _ c h)

theorem mem_marks_of_grouped {m : Nat} {t : Text} (h : ∀ c ∈ t, isPlainDigit c = true) {c : Char}
    (hc : c ∈ grouped useGroups m t) : isPlainDigit c = true ∨ c ∈ marks := by
  rcases mem_grouped h hc with h | rfl | rfl | rfl
  · exact .inl h
  all_goals exact .inr (by decide)

theorem written_eq_append (whole f p mark : Text) :
    written whole f p mark = written whole f p [] ++ mark := by
  simp only [written, List.append_assoc, List.cons_append, List.append_nil]

theorem mem_written {whole f p mark : Text} {P : Char → Prop} (hwhole : ∀ c ∈ whole, P c)
    (hf : ∀ c ∈ f, P c) (hp : ∀ c ∈ p, P c) (hmark : ∀ c ∈ mark, P c) (hpoint : P '.')
    (hperiod : P '#') : ∀ c ∈ written whole f p mark, P c := by
  intro c hc
  simp only [written, List.mem_append, List.mem_cons] at hc
  rcases hc with h | rfl | h | rfl | h | h
  exacts [hwhole c h, hpoint, hf c h, hperiod, hp c h, hmark c h]

theorem mem_repeatingDecimal :
    ∀ c ∈ (repeatingDecimal a useGroups limit maxDigits).1, isPlainDigit c = true ∨ c ∈ marks := by
  by_cases h1 : a.den = 1
  · rw [repeating_of_den_one h1]
    exact fun c hc => mem_head a hc
  · by_cases ht : Terminates a
    · rw [repeating_of_terminates ht h1]
      exact mem_written (fun c hc => mem_head a hc)
        (fun c hc => mem_marks_of_grouped useGroups (all_digits a _) hc)
        (forall_of_all (by decide)) (forall_of_all (by decide)) (.inr (by decide))
        (.inr (by decide))
    · rw [repeating_of_not_terminates ht]
      refine mem_written (fun c hc => mem_head a hc)
        (fun c hc => mem_marks_of_grouped useGroups (all_digits a _) hc)
        (fun c hc => mem_marks_of_grouped useGroups (all_periodDigits a _) hc) ?_
        (.inr (by decide)) (.inr (by decide))
      split_ifs
      · exact fun c hc => absurd hc List.not_mem_nil
      · exact forall_of_all (by decide)

/-! ## Dots at the end -/

/-- A text that goes on after a point with characters that are no dots does not end in dots. -/
theorem not_dots_suffix {u v : Text} (hne : v ≠ []) (h : '.' ∉ v) : ¬ dots <:+ u ++ v := by
  intro hs
  have hlast : (u ++ v).getLast (by simp [hne]) = '.' := by
    obtain ⟨w, hw⟩ := hs
    simp only [← hw, List.getLast_append_of_ne_nil _ (show dots ≠ [] by decide)]
    rfl
  rw [List.getLast_append_of_ne_nil _ hne] at hlast
  exact h (hlast ▸ List.getLast_mem hne)

theorem not_dots_suffix_of_no_point {u : Text} (h : '.' ∉ u) : ¬ dots <:+ u := fun hs =>
  h (hs.subset (by decide))

theorem no_point_head : '.' ∉ head a := not_mem_head a (by decide) (by decide)

theorem grouped_ne_nil {m : Nat} {t : Text} (h : ∀ c ∈ t, isPlainDigit c = true) (hne : t ≠ []) :
    grouped useGroups m t ≠ [] := by
  intro hg
  have he := expand_eq_of_append (expand_grouped useGroups m h)
  rw [hg, expand] at he
  exact hne he.symm

/-- **It ends in dots** exactly where the number does not terminate and the digits of its period are
shortened. -/
theorem dots_suffix_iff :
    dots <:+ (repeatingDecimal a useGroups limit maxDigits).1 ↔
      ¬ Terminates a ∧ Shortened a limit maxDigits := by
  by_cases h1 : a.den = 1
  · have ht : Terminates a := by_contra fun h => den_ne_one h h1
    rw [repeating_of_den_one h1]
    exact iff_of_false (not_dots_suffix_of_no_point (no_point_head a)) fun h => h.1 ht
  · by_cases ht : Terminates a
    · rw [repeating_of_terminates ht h1, written]
      refine iff_of_false ?_ fun h => h.1 ht
      have := not_dots_suffix
        (u := head a ++ '.' :: grouped useGroups 4 (digits a (preperiod a.den)))
        (v := ['#', '0']) (by simp) (by decide)
      simpa only [List.append_assoc, List.cons_append, List.append_nil] using this
    · rw [repeating_of_not_terminates ht]
      rcases writtenDigits_spec a limit maxDigits with ⟨hw, hs, hk⟩ | ⟨hw, hs⟩
      · refine iff_of_false ?_ fun h => hs h.2
        rw [if_pos hw, hk, written, List.append_nil]
        have := not_dots_suffix
          (u := head a ++ '.' :: (grouped useGroups 4 (digits a (preperiod a.den)) ++ ['#']))
          (grouped_ne_nil useGroups (m := 6) (all_periodDigits a _) (periodDigits_ne_nil a))
          (not_mem_grouped (all_periodDigits a _) (by decide) (by decide))
        simpa only [List.append_assoc, List.cons_append, List.nil_append] using this
      · refine iff_of_true ?_ ⟨ht, hs⟩
        rw [if_neg hw, written_eq_append]
        exact List.suffix_append _ dots

end RatCalc.Ratio

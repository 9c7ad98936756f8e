import RatCalc.Literal.Bracket
import RatCalc.Proofs.DecimalText

/-!
# Reading a repeating decimal

* `split_append`, `split_eq_pair_iff`: a text cut at its separators.
* `periodicDecimal_written`: the value of digits with a period,
  `(abc - ab) / (10 ^ n (10 ^ m - 1))`.
* **`singleDecimal_repeatingDecimal`**: a repeating decimal without groups is read as its number.
* **`decimal_repeatingDecimal`**, `decimal_dots`: so is one with groups, unless it ends in dots.
* **`decimal_interval`**: so are the two endpoints of an interval.
-/

namespace RatCalc

/-! ## Cutting texts -/

namespace Text

section

variable {p : Char → Bool} {s : Char} {t u v w : Text}

theorem split_of_none (h : ∀ c ∈ u, p c = false) : split p u = [u] := by
  induction u with
  | nil => rfl
  | cons c u ih =>
    rw [split, h c List.mem_cons_self, ih fun d hd => h d (List.mem_cons_of_mem _ hd)]
    rfl

theorem split_ne_nil (p : Char → Bool) (t : Text) : split p t ≠ [] := by
  cases t with
  | nil => exact List.cons_ne_nil _ _
  | cons c t =>
    rw [split]
    split_ifs
    · exact List.cons_ne_nil _ _
    · split <;> exact List.cons_ne_nil _ _

/-- A text is cut at each of its separators. -/
theorem split_append_cons (hs : p s = true) (t u : Text) :
    split p (t ++ s :: u) = split p t ++ split p u := by
  induction t with
  | nil =>
    rw [List.nil_append]
    change (if p s then _ else _) = _
    rw [if_pos hs]
    rfl
  | cons c t ih =>
    rw [List.cons_append, split, split, ih]
    split_ifs
    · rfl
    · obtain ⟨part, parts, h⟩ := List.exists_cons_of_ne_nil (split_ne_nil p t)
      rw [h]
      rfl

theorem split_append (h : ∀ c ∈ u, p c = false) (hs : p s = true) (w : Text) :
    split p (u ++ s :: w) = u :: split p w := by
  rw [split_append_cons hs, split_of_none h]
  rfl

/-- A text has one part, or it is cut at some separator. -/
theorem split_cases (p : Char → Bool) (t : Text) :
    (∀ c ∈ t, p c = false) ∨ ∃ a s b, t = a ++ s :: b ∧ p s = true := by
  by_cases h : ∃ s ∈ t, p s = true
  · obtain ⟨s, hmem, hs⟩ := h
    obtain ⟨a, b, rfl⟩ := List.append_of_mem hmem
    exact .inr ⟨a, s, b, rfl, hs⟩
  · exact .inl fun c hc => Bool.eq_false_iff.2 fun hp => h ⟨c, hc, hp⟩

theorem split_eq_singleton_iff : split p t = [u] ↔ (∀ c ∈ t, p c = false) ∧ t = u := by
  constructor
  · intro h
    rcases split_cases p t with hno | ⟨a, s, b, rfl, hs⟩
    · rw [split_of_none hno] at h
      exact ⟨hno, (List.cons.inj h).1⟩
    · have hlength := congrArg List.length h
      rw [split_append_cons hs, List.length_append, List.length_singleton] at hlength
      have ha := List.length_pos_iff.2 (split_ne_nil p a)
      have hb := List.length_pos_iff.2 (split_ne_nil p b)
      omega
  · rintro ⟨hno, rfl⟩
    exact split_of_none hno

/-- A text with a separator has two parts if there is no other on either side of it. -/
theorem split_eq_pair_iff (hs : p s = true) :
    split p (t ++ s :: u) = [v, w] ↔
      ((∀ c ∈ t, p c = false) ∧ t = v) ∧ (∀ c ∈ u, p c = false) ∧ u = w := by
  rw [← split_eq_singleton_iff, ← split_eq_singleton_iff, split_append_cons hs]
  constructor
  · intro h
    obtain ⟨a, as, ha⟩ := List.exists_cons_of_ne_nil (split_ne_nil p t)
    obtain ⟨b, bs, hb⟩ := List.exists_cons_of_ne_nil (split_ne_nil p u)
    rw [ha, hb] at h ⊢
    cases as with
    | nil => exact ⟨congrArg (· :: []) (List.cons.inj h).1, (List.cons.inj h).2⟩
    | cons a' as => simp at h
  · rintro ⟨h, h'⟩
    rw [h, h']
    rfl

theorem separators_of_split_eq_pair (h : split p t = [u, v]) :
    (∀ c ∈ u, p c = false) ∧ ∀ c ∈ v, p c = false := by
  rcases split_cases p t with hno | ⟨a, s, b, rfl, hs⟩
  · rw [split_of_none hno] at h
    cases h
  · obtain ⟨⟨ha, rfl⟩, hb, rfl⟩ := (split_eq_pair_iff hs).1 h
    exact ⟨ha, hb⟩

end

theorem beq_false_of_not_mem {t : Text} {s : Char} (h : s ∉ t) : ∀ c ∈ t, (c == s) = false := by
  intro c hc
  rw [beq_eq_false_iff_ne]
  rintro rfl
  exact h hc

theorem body_of_no_break {t : Text} (h : '\n' ∉ t) : body t = t := by
  rw [body, if_neg]
  intro hl
  exact h (List.mem_of_getLast? hl)

theorem all_isDecimal_of_plain {t : Text} (h : ∀ c ∈ t, isPlainDigit c = true) :
    t.all isDecimal = true := List.all_eq_true.2 fun c hc => isDecimal_of_plain (h c hc)

end Text

open Text

namespace Literal

/-! ## Digits -/

theorem wholeOf_of_plain {t : Text} (hne : t ≠ []) (h : ∀ c ∈ t, isPlainDigit c = true) :
    wholeOf t = .ok (Numeral.value t : Int) := by
  rw [wholeOf, Numeral.readInt?_of_plain hne h]

theorem isDigits_of_plain {t : Text} (h : ∀ c ∈ t, isPlainDigit c = true) : isDigits t = true := by
  rw [isDigits, body_of_no_break (not_mem_of_plain h (by decide))]
  exact all_isDecimal_of_plain h

theorem isDigitsLike_of_plain {t : Text} (hne : t ≠ []) (h : ∀ c ∈ t, isPlainDigit c = true) :
    isDigitsLike t = true := by
  have hall : t.all isDigitLike = true := List.all_eq_true.2 fun c hc => by
    rw [isDigitLike, isDecimal_of_plain (h c hc), Bool.true_or]
  rw [isDigitsLike, hall, Bool.and_true, Bool.not_eq_true']
  exact List.isEmpty_eq_false_iff.2 hne

theorem isDigitsLike_dots (p : Text) : isDigitsLike (p ++ Expansion.dots) = false := by
  have h : (p ++ Expansion.dots).all isDigitLike = false := by
    rw [List.all_append, show Expansion.dots.all isDigitLike = false by decide, Bool.and_false]
  rw [isDigitsLike, h, Bool.and_false]

theorem splitPoint_of_digits {w f : Text} (hw : w ≠ []) (hwd : ∀ c ∈ w, isPlainDigit c = true)
    (hfd : ∀ c ∈ f, isPlainDigit c = true) : splitPoint (w ++ '.' :: f) = .ok (w, f) := by
  have hwp := beq_false_of_not_mem (not_mem_of_plain hwd (s := '.') (by decide))
  have hfp := beq_false_of_not_mem (not_mem_of_plain hfd (s := '.') (by decide))
  rw [splitPoint, split_append hwp rfl, split_of_none hfp]
  simp only [List.isEmpty_eq_false_iff.2 hw, Bool.false_eq_true, if_false]

/-- A missing whole part is a zero. -/
theorem exists_splitPoint {w f : Text} (hwd : ∀ c ∈ w, isPlainDigit c = true)
    (hfd : ∀ c ∈ f, isPlainDigit c = true) :
    ∃ v : Text, v ≠ [] ∧ (∀ c ∈ v, isPlainDigit c = true) ∧ splitPoint (w ++ '.' :: f) = .ok (v, f) ∧
      ∀ t, Numeral.value (v ++ t) = Numeral.value (w ++ t) := by
  cases w with
  | nil =>
    have hfp := beq_false_of_not_mem (not_mem_of_plain hfd (s := '.') (by decide))
    refine ⟨['0'], by decide, forall_of_all (by decide), ?_, fun t => ?_⟩
    · rw [List.nil_append, splitPoint, split, if_pos (by decide), split_of_none hfp]
      rfl
    · rw [Numeral.value_append]
      exact (congrArg (· + _) (Nat.zero_mul _)).trans (Nat.zero_add _)
  | cons c w =>
    have hne := List.cons_ne_nil c w
    exact ⟨c :: w, hne, hwd, splitPoint_of_digits hne hwd hfd, fun _ => rfl⟩

/-- With zero for its period a decimal is worth its digits. -/
theorem repeatingFraction_zero (ab n : Nat) :
    repeatingFraction ab (ab * 10 : Nat) n 1 10 = Ratio.ofInts ab (Nat.pow 10 n : Nat) := by
  change Ratio.ofInts _ ((10 : Int) ^ n * (10 ^ 1 - 1)) = Ratio.ofInts _ ((10 ^ n : Nat) : Int)
  have hn : (10 : Rat) ^ n ≠ 0 := by positivity
  rw [Ratio.ofInts, if_neg (by positivity), Ratio.ofInts, if_neg (by positivity),
    Rat.divInt_eq_div, Rat.divInt_eq_div]
  congr 1
  push_cast
  rw [div_eq_div_iff (mul_ne_zero hn (by norm_num)) hn]
  ring

/-- Digits with a period that is not empty have a value. -/
theorem exists_repeatingFraction (ab abc : Int) (n : Nat) {m : Nat} (hm : m ≠ 0) :
    ∃ a, repeatingFraction ab abc n m 10 = .ok a := by
  change ∃ a, Ratio.ofInts (abc - ab) ((10 : Int) ^ n * (10 ^ m - 1)) = .ok a
  have h : (1 : Int) < 10 ^ m := one_lt_pow₀ (by norm_num) hm
  rw [Ratio.ofInts, if_neg (mul_ne_zero (by positivity) (by omega))]
  exact ⟨_, rfl⟩

variable {w f p : Text}

/-- The value of digits with a period. -/
theorem periodicDecimal_written (hp : p ≠ []) (hwd : ∀ c ∈ w, isPlainDigit c = true)
    (hfd : ∀ c ∈ f, isPlainDigit c = true) (hpd : ∀ c ∈ p, isPlainDigit c = true)
    (negative : Bool) :
    periodicDecimal (Expansion.written w f p []) negative =
      (repeatingFraction (Numeral.value (w ++ f)) (Numeral.value (w ++ f ++ p)) f.length p.length
        10).map fun a => .rational (if negative then -a else a) := by
  obtain ⟨v, hv, hvd, hpoint, hvalue⟩ := exists_splitPoint hwd hfd
  have hvf : ∀ c ∈ v ++ f, isPlainDigit c = true := fun c hc =>
    (List.mem_append.1 hc).elim (hvd c) (hfd c)
  have hvfp : ∀ c ∈ v ++ f ++ p, isPlainDigit c = true := fun c hc =>
    (List.mem_append.1 hc).elim (hvf c) (hpd c)
  have hsplit : split (· == '#') (Expansion.written w f p []) = [w ++ '.' :: f, p] := by
    have hfixed : '#' ∉ w ++ '.' :: f := by
      rw [List.mem_append, List.mem_cons, not_or, not_or]
      exact ⟨not_mem_of_plain hwd (by decide), by decide, not_mem_of_plain hfd (by decide)⟩
    have := split_append (beq_false_of_not_mem hfixed) (s := '#') rfl p
    rw [List.append_assoc, List.cons_append] at this
    rw [Expansion.written, List.append_nil, this,
      split_of_none (beq_false_of_not_mem (not_mem_of_plain hpd (by decide)))]
  rw [periodicDecimal, hsplit]
  simp only [isDigitsLike_of_plain hp hpd, hpoint, isDigits_of_plain hvd,
    isDigits_of_plain hfd, wholeOf_of_plain (List.append_ne_nil_of_left_ne_nil hv f) hvf,
    wholeOf_of_plain (List.append_ne_nil_of_left_ne_nil
      (List.append_ne_nil_of_left_ne_nil hv f) p) hvfp, bind, Except.bind, pure, Except.pure,
    Bool.not_true, Bool.or_self, Bool.false_eq_true, if_false]
  rw [List.append_assoc v, hvalue, hvalue, ← List.append_assoc w]
  by_cases h0 : p = ['0']
  · have hv : Numeral.value (w ++ f ++ p) = Numeral.value (w ++ f) * 10 := by
      rw [h0, Numeral.value_append]
      rfl
    rw [if_pos h0, hv, h0, List.length_singleton, repeatingFraction_zero]
    cases Ratio.ofInts _ _ <;> rfl
  · rw [if_neg h0]
    cases repeatingFraction _ _ _ _ _ <;> rfl

/-- A period that is no row of digits is told. -/
theorem periodicDecimal_of_not_digits {whole f p : Text} (hwhole : '#' ∉ whole) (hf : '#' ∉ f)
    (hp : '#' ∉ p) (hd : isDigitsLike p = false) (negative : Bool) :
    periodicDecimal (Expansion.written whole f p []) negative =
      .error (.literal .repeatDigits) := by
  have hfixed : '#' ∉ whole ++ '.' :: f := by
    rw [List.mem_append, List.mem_cons, not_or, not_or]
    exact ⟨hwhole, by decide, hf⟩
  have hsplit : split (· == '#') (Expansion.written whole f p []) = [whole ++ '.' :: f, p] := by
    have := split_append (beq_false_of_not_mem hfixed) (s := '#') rfl p
    rw [List.append_assoc, List.cons_append] at this
    rw [Expansion.written, List.append_nil, this, split_of_none (beq_false_of_not_mem hp)]
  rw [periodicDecimal, hsplit]
  simp only [hd, Bool.not_false, if_true]

/-! ## Signs -/

theorem exists_cons_of_plain {t : Text} (hne : t ≠ []) (h : ∀ c ∈ t, isPlainDigit c = true)
    (u : Text) : ∃ c v, t ++ u = c :: v ∧ isPlainDigit c = true := by
  cases t with
  | nil => exact absurd rfl hne
  | cons c t => exact ⟨c, t ++ u, rfl, h c List.mem_cons_self⟩

/-- A minus sign is taken off a decimal. -/
theorem singleDecimal_sign (negative : Bool) {c : Char} {t : Text} (hc : c ≠ '-') :
    singleDecimal (Expansion.sign negative ++ c :: t) =
      if (c :: t).elem '#' then periodicDecimal (c :: t) negative
      else plainDecimal (c :: t) negative := by
  cases negative with
  | true => rfl
  | false =>
    change singleDecimal (c :: t) = _
    rw [singleDecimal]
    intro rest h
    exact hc (List.cons.inj h).1

theorem singleDecimal_digits (hw : w ≠ []) (hwd : ∀ c ∈ w, isPlainDigit c = true)
    (negative : Bool) :
    singleDecimal (Expansion.sign negative ++ w) =
      .ok (.rational (if negative then -(Numeral.value w : Rat) else Numeral.value w)) := by
  obtain ⟨c, v, rfl, hc⟩ : ∃ c v, w = c :: v ∧ isPlainDigit c = true := by
    simpa only [List.append_nil] using exists_cons_of_plain hw hwd []
  have hp := split_of_none (beq_false_of_not_mem (not_mem_of_plain hwd (s := '.') (by decide)))
  have hs : splitPoint (c :: v) = .ok (c :: v, []) := by rw [splitPoint, hp]; rfl
  rw [singleDecimal_sign negative (ne_of_plain hc (by decide)),
    if_neg (by simpa using not_mem_of_plain hwd (s := '#') (by decide)), plainDecimal, hs]
  simp only [isDigitsLike_of_plain hw hwd, wholeOf_of_plain hw hwd, bind, Except.bind, pure,
    Except.pure, show isDigits [] = true from rfl, Bool.not_true, Bool.or_self, Bool.false_eq_true,
    if_false, List.isEmpty_nil, if_true]
  cases negative
  · rfl
  · simp

theorem singleDecimal_of_written (hwd : ∀ c ∈ w, isPlainDigit c = true) (f p : Text)
    (negative : Bool) :
    singleDecimal (Expansion.sign negative ++ Expansion.written w f p []) =
      periodicDecimal (Expansion.written w f p []) negative := by
  obtain ⟨c, v, heq, hc⟩ : ∃ c v, Expansion.written w f p [] = c :: v ∧ c ≠ '-' := by
    cases w with
    | nil => exact ⟨'.', _, rfl, by decide⟩
    | cons c w => exact ⟨c, _, rfl, ne_of_plain (hwd c List.mem_cons_self) (by decide)⟩
  have hm : '#' ∈ Expansion.written w f p [] := by simp [Expansion.written]
  rw [heq] at hm ⊢
  rw [singleDecimal_sign negative hc, if_pos (by simpa using hm)]

theorem singleDecimal_written (hp : p ≠ []) (hwd : ∀ c ∈ w, isPlainDigit c = true)
    (hfd : ∀ c ∈ f, isPlainDigit c = true) (hpd : ∀ c ∈ p, isPlainDigit c = true)
    (negative : Bool) :
    singleDecimal (Expansion.sign negative ++ Expansion.written w f p []) =
      (repeatingFraction (Numeral.value (w ++ f)) (Numeral.value (w ++ f ++ p)) f.length p.length
        10).map fun a => .rational (if negative then -a else a) := by
  rw [singleDecimal_of_written hwd, periodicDecimal_written hp hwd hfd hpd]

/-! ## The text of a number -/

section

open Ratio
open Expansion (preperiod)

variable {a : Rat} {useGroups : Bool} {limit : Nat} {maxDigits : Option Nat}

theorem head_of_nonneg (ha : 0 ≤ a) : head a = Numeral.ofNat (wholePart a) := by
  rw [head, decide_eq_false (not_lt.2 (Rat.num_nonneg.2 ha))]
  rfl

theorem magnitude_of_nonneg (ha : 0 ≤ a) : (a.num.natAbs : Rat) / a.den = a := by
  have h := signed_magnitude a
  rwa [decide_eq_false (not_lt.2 (Rat.num_nonneg.2 ha))] at h

/-- A text without groups that is not shortened is read as its number. -/
theorem singleDecimal_of_nonneg (ha : 0 ≤ a) (h : ¬ Terminates a → ¬ Shortened a limit maxDigits)
    (negative : Bool) :
    singleDecimal (Expansion.sign negative ++ (repeatingDecimal a false limit maxDigits).1) =
      .ok (.rational (if negative then -a else a)) := by
  have hw := Numeral.ofNat_ne_nil (wholePart a)
  have hwd := Numeral.all_isPlainDigit_ofNat (wholePart a)
  by_cases h1 : a.den = 1
  · have hv : ((Numeral.value (Numeral.ofNat (wholePart a)) : Nat) : Rat) = a := by
      conv_rhs => rw [← magnitude_of_nonneg ha]
      rw [Numeral.value_ofNat, wholePart, h1, Nat.div_one, Nat.cast_one, div_one]
    rw [repeating_of_den_one h1, head_of_nonneg ha, singleDecimal_digits hw hwd, hv]
  · by_cases ht : Terminates a
    · have hv : Numeral.value (Numeral.ofNat (wholePart a) ++ digits a (preperiod a.den) ++ ['0']) =
          Numeral.value (Numeral.ofNat (wholePart a) ++ digits a (preperiod a.den)) * 10 := by
        rw [Numeral.value_append]
        rfl
      rw [repeating_of_terminates ht h1, head_of_nonneg ha, grouped_false,
        singleDecimal_written (by decide) hwd (all_digits a _) (forall_of_all (by decide)), hv,
        List.length_singleton, repeatingFraction_zero, magnitude_of_terminates ht,
        magnitude_of_nonneg ha]
      rfl
    · rcases writtenDigits_spec a limit maxDigits with ⟨hb, -, hk⟩ | ⟨-, hs⟩
      · have hp := periodDigits_ne_nil a
        have hm := magnitude_of_period a
        rw [← digits_append_periodDigits] at hm
        rw [repeating_of_not_terminates ht, if_pos hb, hk, head_of_nonneg ha, grouped_false,
          grouped_false, singleDecimal_written hp hwd (all_digits a _) (all_periodDigits a _),
          repeatingFraction, length_digits, length_periodDigits, List.append_assoc, hm,
          magnitude_of_nonneg ha]
        rfl
      · exact absurd hs (h ht)

/-- **A repeating decimal without groups is read as its number.** -/
theorem singleDecimal_repeatingDecimal (h : ¬ Terminates a → ¬ Shortened a limit maxDigits) :
    singleDecimal (repeatingDecimal a false limit maxDigits).1 = .ok (.rational a) := by
  have habs : ¬ Terminates |a| → ¬ Shortened |a| limit maxDigits := by
    rwa [terminates_abs, shortened_abs]
  rw [repeatingDecimal_abs, singleDecimal_of_nonneg (abs_nonneg a) habs, signed_abs]

theorem repeatingDecimal_ne_nil (a : Rat) (useGroups : Bool) (limit : Nat)
    (maxDigits : Option Nat) : (repeatingDecimal a useGroups limit maxDigits).1 ≠ [] := by
  have hh : head a ≠ [] := List.append_ne_nil_of_right_ne_nil _ (Numeral.ofNat_ne_nil _)
  by_cases h1 : a.den = 1
  · rw [repeating_of_den_one h1]
    exact hh
  · by_cases ht : Terminates a
    · rw [repeating_of_terminates ht h1]
      exact List.append_ne_nil_of_left_ne_nil hh _
    · rw [repeating_of_not_terminates ht]
      exact List.append_ne_nil_of_left_ne_nil hh _

theorem isBlank_of_marks : ∀ c ∈ marks, isBlank c = false := forall_of_all (by decide)

theorem isBlank_of_mem_repeatingDecimal (a : Rat) (useGroups : Bool) (limit : Nat)
    (maxDigits : Option Nat) :
    ∀ c ∈ (repeatingDecimal a useGroups limit maxDigits).1, isBlank c = false := by
  intro c hc
  rcases mem_repeatingDecimal a useGroups limit maxDigits c hc with h | h
  · exact isBlank_of_plain h
  · exact isBlank_of_marks c h

/-- A character that is neither a digit nor a mark is not in a text of digits and marks. -/
theorem not_mem_of_marks {t : Text} (ht : ∀ c ∈ t, isPlainDigit c = true ∨ c ∈ marks) {s : Char}
    (hs : isPlainDigit s = false) (hm : s ∉ marks) : s ∉ t := fun h =>
  (ht s h).elim (fun hd => ne_of_plain hd hs rfl) hm

theorem not_mem_repeatingDecimal {s : Char} (hs : isPlainDigit s = false) (hm : s ∉ marks) :
    s ∉ (repeatingDecimal a useGroups limit maxDigits).1 :=
  not_mem_of_marks (mem_repeatingDecimal a useGroups limit maxDigits) hs hm

theorem prepared_eq {t : Text} (hne : t ≠ []) (h : ∀ c ∈ t, isBlank c = false) :
    prepared t = .ok (RunLength.expand t) := by
  rw [prepared, List.isEmpty_eq_false_iff.2 hne, trim_of_no_blank h]
  rfl

theorem prepared_repeatingDecimal (a : Rat) (useGroups : Bool) (limit : Nat)
    (maxDigits : Option Nat) :
    prepared (repeatingDecimal a useGroups limit maxDigits).1 =
      .ok (repeatingDecimal a false limit maxDigits).1 := by
  rw [prepared_eq (repeatingDecimal_ne_nil a useGroups limit maxDigits)
    (isBlank_of_mem_repeatingDecimal a useGroups limit maxDigits), expand_repeatingDecimal_eq]

/-- A text of digits and marks is read with its groups written out. -/
theorem decimal_of_marks {t u : Text} (hne : t ≠ [])
    (ht : ∀ c ∈ t, isPlainDigit c = true ∨ c ∈ marks)
    (hu : ∀ c ∈ u, isPlainDigit c = true ∨ c ∈ marks) (he : RunLength.expand t = u) :
    decimal t = singleDecimal u := by
  have hno : ∀ {s : Char}, isPlainDigit s = false → s ∉ marks → u.elem s = false :=
    fun hs hm => by simpa using not_mem_of_marks hu hs hm
  have hblank : ∀ c ∈ t, isBlank c = false := fun c hc =>
    (ht c hc).elim isBlank_of_plain (isBlank_of_marks c)
  rw [decimal, prepared_eq hne hblank, he]
  change (if _ then _ else _) = _
  rw [hno (s := '[') (by decide) (by decide), hno (s := ':') (by decide) (by decide)]
  rfl

theorem decimal_eq_singleDecimal (a : Rat) (useGroups : Bool) (limit : Nat)
    (maxDigits : Option Nat) :
    decimal (repeatingDecimal a useGroups limit maxDigits).1 =
      singleDecimal (repeatingDecimal a false limit maxDigits).1 :=
  decimal_of_marks (repeatingDecimal_ne_nil a useGroups limit maxDigits)
    (mem_repeatingDecimal a useGroups limit maxDigits)
    (mem_repeatingDecimal a false limit maxDigits)
    (expand_repeatingDecimal_eq a useGroups limit maxDigits)

theorem decimal_written (m n : Nat) (hwd : ∀ c ∈ w, isPlainDigit c = true)
    (hfd : ∀ c ∈ f, isPlainDigit c = true) (hpd : ∀ c ∈ p, isPlainDigit c = true) :
    decimal (Expansion.written w (Expansion.grouped useGroups m f)
        (Expansion.grouped useGroups n p) []) =
      periodicDecimal (Expansion.written w f p []) false := by
  have he := RunLength.expand_eq_of_append (expand_written (not_mem_of_plain hwd (by decide))
    (Expansion.expand_grouped useGroups m hfd) (Expansion.expand_grouped useGroups n hpd)
    List.not_mem_nil)
  rw [decimal_of_marks (by simp [Expansion.written]) ?_ ?_ he]
  · exact singleDecimal_of_written hwd f p false
  · exact mem_written (fun c hc => .inl (hwd c hc))
      (fun c hc => mem_marks_of_grouped useGroups hfd hc)
      (fun c hc => mem_marks_of_grouped useGroups hpd hc) (by simp) (.inr (by decide))
      (.inr (by decide))
  · exact mem_written (fun c hc => .inl (hwd c hc)) (fun c hc => .inl (hfd c hc))
      (fun c hc => .inl (hpd c hc)) (by simp) (.inr (by decide)) (.inr (by decide))

/-- **A repeating decimal is read as its number** unless it is shortened. -/
theorem decimal_repeatingDecimal (h : ¬ Terminates a → ¬ Shortened a limit maxDigits) :
    decimal (repeatingDecimal a useGroups limit maxDigits).1 = .ok (.rational a) := by
  rw [decimal_eq_singleDecimal, singleDecimal_repeatingDecimal h]

/-- A shortened decimal is no literal. -/
theorem decimal_dots (ht : ¬ Terminates a) (hs : Shortened a limit maxDigits) :
    decimal (repeatingDecimal a useGroups limit maxDigits).1 =
      .error (.literal .repeatDigits) := by
  rcases writtenDigits_spec a limit maxDigits with ⟨-, hn, -⟩ | ⟨hw, -⟩
  · exact absurd hs hn
  · have hne := Numeral.ofNat_ne_nil (wholePart a)
    have hwd := Numeral.all_isPlainDigit_ofNat (wholePart a)
    have hdots : ∀ whole f p : Text, Expansion.written whole f p Expansion.dots =
        Expansion.written whole f (p ++ Expansion.dots) [] := fun whole f p => by
      simp only [Expansion.written, List.append_nil]
    have hhead : ∀ f p : Text, Expansion.written (head a) f p [] =
        Expansion.sign (decide (a.num < 0)) ++
          Expansion.written (Numeral.ofNat (wholePart a)) f p [] := fun f p => by
      simp only [Expansion.written, head, List.append_assoc]
    have hp : '#' ∉ periodDigits a (writtenDigits a limit maxDigits) ++ Expansion.dots := by
      rw [List.mem_append, not_or]
      exact ⟨not_mem_of_plain (all_periodDigits a _) (by decide), by decide⟩
    rw [decimal_eq_singleDecimal, repeating_of_not_terminates ht, if_neg hw, grouped_false,
      grouped_false]
    simp only [hdots, hhead]
    rw [singleDecimal_of_written hwd]
    exact periodicDecimal_of_not_digits (not_mem_of_plain hwd (by decide))
      (not_mem_of_plain (all_digits a _) (by decide)) hp (isDigitsLike_dots _) _

theorem not_shortened {a : Rat} (h : period a < Expansion.defaultLimit) :
    ¬ Shortened a Expansion.defaultLimit none := by
  rintro (hl | ⟨k, hk, -⟩)
  · omega
  · cases hk

theorem unbracketed_repeatingDecimal (h : ¬ Terminates a → ¬ Shortened a limit maxDigits) :
    unbracketed (repeatingDecimal a false limit maxDigits).1 = .ok (.rational a) := by
  have hc : (repeatingDecimal a false limit maxDigits).1.elem ':' = false := by
    simpa using not_mem_repeatingDecimal (s := ':') (by decide) (by decide)
  rw [unbracketed, prepared_repeatingDecimal]
  change (if _ then _ else _) = _
  rw [hc]
  exact singleDecimal_repeatingDecimal h

theorem hull_self (i : Interval) : Interval.hull i.low i.high = i := dif_pos i.low_le_high

/-- **The two endpoints of an interval** are read as the interval. -/
theorem decimal_interval {i : Interval} (hlow : period i.low < Expansion.defaultLimit)
    (hhigh : period i.high < Expansion.defaultLimit) (useGroups : Bool) :
    decimal (i.repeatingDecimal useGroups) = .ok (.interval i) := by
  set low := fun g => (repeatingDecimal i.low g Expansion.defaultLimit none).1 with hl
  set high := fun g => (repeatingDecimal i.high g Expansion.defaultLimit none).1 with hh
  have hprep : prepared (low useGroups ++ ':' :: high useGroups) =
      .ok (low false ++ ':' :: high false) := by
    rw [prepared_eq (by simp), expand_repeatingDecimal, RunLength.expand_cons (by decide),
      expand_repeatingDecimal_eq]
    intro c hc
    rcases List.mem_append.1 hc with hc | hc
    · exact isBlank_of_mem_repeatingDecimal _ _ _ _ c hc
    · rcases List.mem_cons.1 hc with rfl | hc
      · decide
      · exact isBlank_of_mem_repeatingDecimal _ _ _ _ c hc
  have hsplit : split (· == ':') (low false ++ ':' :: high false) = [low false, high false] := by
    have hno : ∀ b : Rat, ':' ∉ (repeatingDecimal b false Expansion.defaultLimit none).1 := fun b =>
      not_mem_repeatingDecimal (by decide) (by decide)
    rw [split_append (beq_false_of_not_mem (hno _)) rfl,
      split_of_none (beq_false_of_not_mem (hno _))]
  have hbracket : (low false ++ ':' :: high false).elem '[' = false := by
    have hno : ∀ b : Rat, '[' ∉ (repeatingDecimal b false Expansion.defaultLimit none).1 := fun b =>
      not_mem_repeatingDecimal (by decide) (by decide)
    simp [hl, hh, hno]
  have hpair : pairOf unbracketed (low false ++ ':' :: high false) = .ok i := by
    rw [pairOf, hsplit]
    simp only
    rw [trim_of_no_blank (isBlank_of_mem_repeatingDecimal _ _ _ _),
      trim_of_no_blank (isBlank_of_mem_repeatingDecimal _ _ _ _),
      unbracketed_repeatingDecimal fun _ => not_shortened hlow,
      unbracketed_repeatingDecimal fun _ => not_shortened hhigh]
    exact congrArg Except.ok (hull_self i)
  rw [Interval.repeatingDecimal, decimal, hprep]
  change (if _ then _ else if _ then _ else _) = _
  rw [hbracket, Bool.false_and, if_neg (by decide), if_pos (by simp), hpair]
  rfl

end

end Literal

end RatCalc

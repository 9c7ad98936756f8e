import RatCalc.Proofs.NumberText
import RatCalc.Proofs.RationalLiteral
import RatCalc.Proofs.ShownNumber

/-!
# Fractions and mixed numbers read back

* `Ratio.IsMagnitude u b`: `u` is the integer, the fraction or the mixed number that is written for
  the magnitude `b`; `exists_text`, `exists_mixedText`: the texts of numbers are such.
* `Literal.rational_magnitude`, `Literal.interval_magnitudes`: the texts as literals.
* `Dialect.saysNumber_magnitude`, `Dialect.valueOf_magnitude`, `Dialect.valueOf_magnitudes`: the
  texts as expressions, alone and with a colon between them.
* **`Ratio.reads_back`**, **`Interval.reads_back`**: the texts of numbers and intervals read back.
-/

namespace RatCalc

open Text Expansion

/-! ## Texts of magnitudes -/

namespace Ratio

open Numeral

/-- What is written for a magnitude: an integer, a fraction or a mixed number. -/
inductive IsMagnitude : Text → Rat → Prop where
  | whole (n : Nat) : IsMagnitude (ofNat n) n
  | quotient (n : Nat) {d : Nat} : d ≠ 0 → d ≠ 1 →
      IsMagnitude (ofNat n ++ '/' :: ofNat d) (mkRat n d)
  | mixed (w n : Nat) {d : Nat} : d ≠ 0 →
      IsMagnitude (ofNat w ++ '.' :: '.' :: (ofNat n ++ '/' :: ofNat d)) (mkRat (w * d + n) d)

theorem abs_eq_mkRat (a : Rat) : |a| = mkRat a.num.natAbs a.den := by
  rw [Rat.abs_def, Rat.mkRat_eq_divInt]

theorem isMagnitude_natAbs {a : Rat} (h : a.den = 1) : IsMagnitude (ofNat a.num.natAbs) |a| := by
  rw [abs_eq_mkRat, h, Rat.mkRat_one]
  exact .whole _

theorem exists_text (a : Rat) :
    ∃ u, text a = sign (decide (a.num < 0)) ++ u ∧ IsMagnitude u |a| := by
  rw [text, ofInt_eq, List.append_assoc]
  split_ifs with h
  · exact ⟨_, rfl, isMagnitude_natAbs h⟩
  · exact ⟨_, rfl, abs_eq_mkRat a ▸ .quotient _ a.den_nz h⟩

theorem exists_mixedText (a : Rat) :
    ∃ u, mixedText a = sign (decide (a.num < 0)) ++ u ∧ IsMagnitude u |a| := by
  rw [mixedText, ofInt_eq]
  split_ifs with h hw
  · exact ⟨_, rfl, isMagnitude_natAbs h⟩
  · have hr : remainder a = a.num.natAbs := by
      rw [remainder, Nat.mod_eq_of_lt]
      exact (Nat.div_eq_zero_iff.1 hw).resolve_left a.den_nz
    rw [hr]
    exact ⟨_, rfl, abs_eq_mkRat a ▸ .quotient _ a.den_nz h⟩
  · refine ⟨_, rfl, ?_⟩
    have hmixed : wholePart a * a.den + remainder a = a.num.natAbs := Nat.div_add_mod' _ _
    have h := IsMagnitude.mixed (wholePart a) (remainder a) a.den_nz
    rwa [← Nat.cast_mul, ← Nat.cast_add, hmixed, ← abs_eq_mkRat] at h

end Ratio

namespace Ratio.IsMagnitude

variable {u : Text} {b : Rat}

theorem unsigned (h : IsMagnitude u b) : Literal.Unsigned u b := by
  have hn : ∀ n, Numeral.isNumeral (Numeral.ofNat n) = true := fun n => by
    rw [Literal.isNumeral_iff]
    exact ⟨Numeral.ofNat_ne_nil n, List.all_eq_true.1 (Numeral.all_isDecimal_ofNat n)⟩
  cases h with
  | whole n =>
    have h := Literal.Unsigned.whole (hn n)
    rwa [Numeral.value_ofNat] at h
  | @quotient n d hd =>
    have h := Literal.Unsigned.quotient (hn n) (hn d) (by rwa [Numeral.value_ofNat])
    rwa [Numeral.value_ofNat, Numeral.value_ofNat] at h
  | @mixed w n d hd =>
    have h := Literal.Unsigned.mixed (hn w) (hn n) (hn d) (by rwa [Numeral.value_ofNat])
    rwa [Numeral.value_ofNat, Numeral.value_ofNat, Numeral.value_ofNat] at h

end Ratio.IsMagnitude

/-! ## Literals -/

namespace Literal

open Ratio

variable {u v : Text} {a b : Rat}

theorem rational_magnitude (hu : IsMagnitude u |a|) :
    rational (Expansion.sign (decide (a.num < 0)) ++ u) = .ok a := by
  rw [rational_of_unsigned hu.unsigned, signed_abs]

theorem not_mem_magnitude (hu : IsMagnitude u b) (negative : Bool) {c : Char}
    (hc : isDecimal c = false) (hs : c ∉ ['.', '/', '-']) : c ∉ Expansion.sign negative ++ u := by
  rw [List.mem_cons, List.mem_cons, List.mem_singleton, not_or, not_or] at hs
  rw [List.mem_append, not_or]
  refine ⟨fun hm => hs.2.2 (mem_sign hm), hu.unsigned.not_mem hc ?_⟩
  rw [List.mem_cons, List.mem_singleton, not_or]
  exact ⟨hs.1, hs.2.1⟩

theorem interval_magnitudes (hu : IsMagnitude u |a|) (hv : IsMagnitude v |b|) :
    interval (Expansion.sign (decide (a.num < 0)) ++ u ++
      ':' :: (Expansion.sign (decide (b.num < 0)) ++ v)) = .ok (.hull a b) := by
  have hcolon : ∀ {w : Text} {c : Rat} (negative : Bool), IsMagnitude w c →
      ∀ x ∈ Expansion.sign negative ++ w, (x == ':') = false := fun negative hw =>
    beq_false_of_not_mem (not_mem_magnitude hw negative (by decide) (by decide))
  have hsplit : split (· == ':') (Expansion.sign (decide (a.num < 0)) ++ u ++
      ':' :: (Expansion.sign (decide (b.num < 0)) ++ v)) =
        [Expansion.sign (decide (a.num < 0)) ++ u, Expansion.sign (decide (b.num < 0)) ++ v] := by
    rw [split_append (hcolon _ hu) rfl, split_of_none (hcolon _ hv)]
  rw [interval, hsplit]
  simp only [rational_magnitude hu, rational_magnitude hv]
  rfl

end Literal

/-! ## Expressions -/

namespace Dialect

open Ratio

variable (letters : LetterTable) {u v : Text} {a b : Rat}

theorem startsPlain_numeral (n : Nat) (t : Text) : StartsPlain (Numeral.ofNat n ++ t) :=
  Literal.exists_cons_of_plain (Numeral.ofNat_ne_nil n) (Numeral.all_isPlainDigit_ofNat n) t

theorem startsPlain_magnitude (hu : IsMagnitude u b) : StartsPlain u := by
  cases hu with
  | whole n =>
    rw [← List.append_nil (Numeral.ofNat n)]
    exact startsPlain_numeral n []
  | quotient n => exact startsPlain_numeral n _
  | mixed w n => exact startsPlain_numeral w _

theorem isStandard_exactly : (exactly letters).IsStandard := fun _ h => nomatch h

/-- Digits and two points begin a mixed number. -/
theorem unsigned_eq_mixedFrom {w t : Text} (hne : w ≠ []) (hw : ∀ c ∈ w, isPlainDigit c = true) :
    (exactly letters).unsigned (w ++ '.' :: '.' :: t) =
      (exactly letters).mixedFrom (Numeral.value w) t := by
  have hstops : Stops ('.' :: '.' :: t) :=
    stops_cons (by decide) (by decide) (by decide) (by decide)
  have hdots : ∀ v, '.' :: '.' :: t = '.' :: v → ∃ x, v = '.' :: x := fun v h =>
    ⟨t, (List.cons.inj h).2.symm⟩
  have hl : (exactly letters).lettered? (w ++ '.' :: '.' :: t) = none :=
    lettered?_of_digits hne hw hstops.letter _
  have hempty : ¬ (w ++ '.' :: '.' :: t).isEmpty = true := by simp
  have hdigits : (exactly letters).digits (w ++ '.' :: '.' :: t) = .ok (w, '.' :: '.' :: t) :=
    digits_append letters hw fun c v h => isPlainDigit_of_not_isDecimal (hstops.digit c v h)
  have hv : (exactly letters).value w = .ok (Numeral.value w) := rfl
  have hfraction : (exactly letters).unsigned (w ++ '.' :: '.' :: t) =
      (exactly letters).fraction (w ++ '.' :: '.' :: t) := by
    rw [unsigned, if_neg hempty]
    simp only [exactly] at hl ⊢
    rw [hl, repeating?_of_stops hw hstops hdots, pointed?_of_stops hw hstops hdots]
  rw [hfraction, fraction_eq, bind_of_ok hdigits]
  simp only
  rw [if_neg (by simpa using hne), bind_of_ok hv]

theorem unsigned_mixed (w n : Nat) {m : Nat} (hm : m ≠ 0) :
    (exactly letters).unsigned
        (Numeral.ofNat w ++ '.' :: '.' :: (Numeral.ofNat n ++ '/' :: Numeral.ofNat m)) =
      .ok (⟨mkRat (w * m + n) m, false⟩, []) := by
  have hd := isStandard_exactly letters
  have hdigits : (exactly letters).digits (Numeral.ofNat n ++ '/' :: Numeral.ofNat m) =
      .ok (Numeral.ofNat n, '/' :: Numeral.ofNat m) := digits_numeral hd n (.inr ⟨_, rfl⟩)
  have hvalue : (exactly letters).value (Numeral.ofNat n) = .ok n := value_numeral hd n
  have hslash : slash? ('/' :: Numeral.ofNat m) = some (Numeral.ofNat m) := by
    have h := slash?_numeral hd m []
    rwa [List.append_nil] at h
  have hden : (exactly letters).denominator true (Numeral.ofNat m) = .ok (m, []) :=
    denominator_numeral hd true hm
  rw [unsigned_eq_mixedFrom letters (Numeral.ofNat_ne_nil w) (Numeral.all_isPlainDigit_ofNat w),
    mixedFrom, bind_of_ok hdigits]
  simp only
  rw [if_neg (by simpa using Numeral.ofNat_ne_nil n), bind_of_ok hvalue, hslash]
  simp only
  rw [bind_of_ok hden, Numeral.value_ofNat]
  rfl

/-- The text of a magnitude says the magnitude. -/
theorem saysNumber_magnitude (hu : IsMagnitude u b) : SaysNumber letters u ⟨b, false⟩ [] := by
  have hplain := Numeral.all_isPlainDigit_ofNat
  have hdecimal : ∀ n, ∀ c ∈ Numeral.ofNat n, isDecimal c = true := fun n c hc =>
    isDecimal_of_plain (hplain n c hc)
  cases hu with
  | whole n =>
    have h := saysNumber_digits letters (Numeral.ofNat_ne_nil n) (hplain n) stops_nil
      (by rintro u ⟨⟩) (by rintro u ⟨⟩) (by rintro u ⟨⟩)
    rwa [List.append_nil, Numeral.value_ofNat] at h
  | @quotient n d hd h1 =>
    have hstandard := isStandard_exactly letters
    have hslash : slash? ('/' :: Numeral.ofNat d) = some (Numeral.ofNat d) := by
      have h := slash?_numeral hstandard d []
      rwa [List.append_nil] at h
    have hden : (exactly letters).denominator false (Numeral.ofNat d) = .ok (d, []) :=
      denominator_numeral hstandard false hd
    refine ⟨startsNumber_digits (Numeral.ofNat_ne_nil n) (hdecimal n) ?_ (by rintro v ⟨⟩)
      (by rintro v ⟨⟩), ?_⟩
    · rintro c v ⟨⟩
      decide
    · have hnumeral := unsigned_numeral hstandard n (t := '/' :: Numeral.ofNat d) (.inr ⟨_, rfl⟩)
      change (exactly letters).unsigned (Numeral.ofNat n ++ _) = _ at hnumeral
      rw [hnumeral, quotientFrom, hslash]
      simp only
      rw [bind_of_ok hden, beq_false_of_ne h1]
      rfl
  | @mixed w n d hd =>
    refine ⟨startsNumber_point (hdecimal w) (by rintro v ⟨⟩) ?_, unsigned_mixed letters w n hd⟩
    rw [List.dropWhile_cons_of_neg (by decide)]
    rintro v ⟨⟩

/-! ## Their values -/

theorem isBlank_of_mem_magnitude (hu : IsMagnitude u b) (negative : Bool) :
    ∀ c ∈ sign negative ++ u, isBlank c = false := fun c hc =>
  (List.mem_append.1 hc).elim (Literal.isBlank_of_mem_sign c) (hu.unsigned.isBlank c)

/-- **With exact values the text of a number has its value**, as an integer if it is one. -/
theorem valueOf_magnitude (hu : IsMagnitude u |a|) :
    Expr.valueOf (exactly letters) (sign (decide (a.num < 0)) ++ u) =
      .ok (.plain (Number.rational a).simplest) := by
  obtain ⟨e, he, hv⟩ := (saysNumber_magnitude letters hu).reads_sum endsNumber_nil
    (decide (a.num < 0))
  rw [Expr.valueOf_eq_ok_iff, prepare_of_no_blank _ (isBlank_of_mem_magnitude hu _)]
  refine ⟨e, he, ?_⟩
  rw [hv, Endpoint.signed, signed_abs, Endpoint.shown_of_not_kept]

theorem scaledEndpoint_magnitude (hu : IsMagnitude u |a|) :
    (exactly letters).scaledEndpoint false (sign (decide (a.num < 0)) ++ u) =
      .ok (⟨a, false⟩, []) := by
  rw [(saysNumber_magnitude letters hu).scaledEndpoint (exactly letters).exponentFollows_nil,
    Endpoint.signed, signed_abs]

/-- No plain decimal begins the text of a number. -/
theorem plain?_magnitude (hu : IsMagnitude u b) (negative : Bool) :
    (exactly letters).plain? (sign negative ++ u) = none := by
  have hm := (saysNumber_magnitude letters hu).minus_sign negative
  have hend : ∀ (n : Nat) {t : Text}, (∀ c v, t = c :: v → isPlainDigit c = false) →
      (Numeral.ofNat n ++ t).dropWhile (exactly letters).isDigit = t := fun n _ ht =>
    (span_append (Numeral.all_isPlainDigit_ofNat n) ht).2
  rw [plain?_eq, hm]
  simp only
  cases hu with
  | whole n =>
    have h := hend n (t := []) (by rintro c v ⟨⟩)
    rw [List.append_nil] at h
    rw [h]
  | quotient n =>
    rw [hend n (by rintro c v ⟨⟩; decide)]
    rfl
  | mixed w n =>
    rw [hend w (by rintro c v ⟨⟩; decide)]
    rfl

/-- A minus sign before a plain digit belongs to the number that the digit begins. -/
theorem ownsSign_of_startsPlain (hu : StartsPlain u) (negative : Bool) :
    (exactly letters).OwnsSign (sign negative ++ u) := by
  intro v hv
  obtain ⟨c, w, hc, hdigit⟩ := hu
  have hv : v = c :: w := by
    cases negative with
    | true => exact (List.cons.inj hv).2.symm.trans hc
    | false => exact absurd (List.cons.inj (hc.symm.trans hv)).1 (ne_of_plain hdigit (by decide))
  refine .inr ?_
  rw [Reading.SignsNumber, hv, List.head?_cons, Option.any_some]
  change (isPlainDigit c || decide (c = '.')) = true
  rw [hdigit, Bool.true_or]

/-- **Two numbers with a colon between them have the value of their interval**, with exact values
and with intervals. -/
theorem valueOf_magnitudes (exact : Bool) (hu : IsMagnitude u |a|) (hv : IsMagnitude v |b|) :
    Expr.valueOf ⟨exact, none, letters⟩ (sign (decide (a.num < 0)) ++ u ++
      ':' :: (sign (decide (b.num < 0)) ++ v)) = .ok (.kept (.interval (.hull a b))) := by
  have hblank : ∀ c ∈ sign (decide (a.num < 0)) ++ u ++ ':' :: (sign (decide (b.num < 0)) ++ v),
      isBlank c = false := by
    intro c hc
    rcases List.mem_append.1 hc with hc | hc
    · exact isBlank_of_mem_magnitude hu _ c hc
    · rcases List.mem_cons.1 hc with rfl | hc
      · decide
      · exact isBlank_of_mem_magnitude hv _ c hc
  obtain ⟨e, w, hw, hpair, hread⟩ := exists_reads_pair (scaledEndpoint_magnitude letters hu)
    (scaledEndpoint_magnitude letters hv)
  have hcert : ((exactly letters).mode exact).Certain (sign (decide (a.num < 0)) ++ u ++
      ':' :: (sign (decide (b.num < 0)) ++ v)) := by
    refine .inr ?_
    change (exactly letters).plain? _ = none
    rw [plain?_colon, plain?_magnitude letters hu]
    rfl
  have he := (hread exact hcert).sum_of_factor (.inl rfl)
  rw [Expr.valueOf_eq_ok_iff, prepare_of_no_blank _ hblank]
  refine ⟨_, he, ?_⟩
  have hvalue : w = .kept (.interval (.hull a b)) := hpair (ownsSign_of_startsPlain letters (startsPlain_magnitude hu) _)
  have hev : e.eval ⟨exact, none, letters⟩ = .ok w := hw exact
  rw [Expr.eval, hev, hvalue]
  cases exact <;> rfl

end Dialect

/-! ## Reading back -/

open Dialect

/-- **The texts of a number read back**, as literals and as expressions. -/
theorem Ratio.reads_back (letters : LetterTable) (a : Rat) {t : Text}
    (ht : t = text a ∨ t = mixedText a) :
    Literal.rational t = .ok a ∧
      Expr.valueOf (exactly letters) t = .ok (.plain (Number.rational a).simplest) := by
  obtain ⟨u, rfl, hu⟩ : ∃ u, t = sign (decide (a.num < 0)) ++ u ∧ IsMagnitude u |a| := by
    rcases ht with rfl | rfl
    · exact exists_text a
    · exact exists_mixedText a
  exact ⟨Literal.rational_magnitude hu, valueOf_magnitude letters hu⟩

/-- **The texts of an interval read back**, as literals and as expressions. -/
theorem Interval.reads_back (letters : LetterTable) (exact : Bool) (i : Interval) {t : Text}
    (ht : t = i.text ∨ t = i.mixedText) :
    Literal.interval t = .ok i ∧
      Expr.valueOf ⟨exact, none, letters⟩ t = .ok (.kept (.interval i)) := by
  obtain ⟨u, v, rfl, hu, hv⟩ : ∃ u v, t = sign (decide (i.low.num < 0)) ++ u ++
      ':' :: (sign (decide (i.high.num < 0)) ++ v) ∧
        Ratio.IsMagnitude u |i.low| ∧ Ratio.IsMagnitude v |i.high| := by
    rcases ht with rfl | rfl
    · obtain ⟨u, hu, hum⟩ := Ratio.exists_text i.low
      obtain ⟨v, hv, hvm⟩ := Ratio.exists_text i.high
      exact ⟨u, v, by rw [Interval.text, hu, hv], hum, hvm⟩
    · obtain ⟨u, hu, hum⟩ := Ratio.exists_mixedText i.low
      obtain ⟨v, hv, hvm⟩ := Ratio.exists_mixedText i.high
      exact ⟨u, v, by rw [Interval.mixedText, hu, hv], hum, hvm⟩
  have hread := Literal.interval_magnitudes hu hv
  have hvalue := valueOf_magnitudes letters exact hu hv
  rw [Literal.hull_self] at hread hvalue
  exact ⟨hread, hvalue⟩

end RatCalc

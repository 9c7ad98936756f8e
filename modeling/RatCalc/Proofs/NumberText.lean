import RatCalc.Proofs.DecimalExpr
import RatCalc.Proofs.ExplicitInterval
import RatCalc.Proofs.StandardNumeral

/-!
# Fractions in the digits of expressions

* `Dialect.rationalText`: a rational number as a sign, a numerator and, if it is not one, a
  denominator.
* `unsigned_numeral`, `unsigned_magnitude`, `scaledEndpoint_rationalText`: how these are read.
* **`valueOf_rationalText`**: with exact values the text has the value of the number.
* **`valueOf_intervalText`**: two of them with a colon between them are an interval.
* `valueOf_parens`: a text in parentheses.
-/

namespace RatCalc

open Text Reading Expansion

namespace Dialect

variable {d : Dialect}

/-! ## Texts of numbers -/

/-- The magnitude of a rational number in the digits of expressions. -/
def magnitudeText (d : Dialect) (a : Rat) : Text :=
  d.numeral a.num.natAbs ++ (if a.den = 1 then [] else '/' :: d.numeral a.den)

/-- A rational number in the digits of expressions. -/
def rationalText (d : Dialect) (a : Rat) : Text :=
  sign (decide (a.num < 0)) ++ d.magnitudeText a

/-- What may follow a numerator: nothing, or a denominator. -/
def EndsNumerator (t : Text) : Prop := t = [] ∨ ∃ u, t = '/' :: u

theorem endsNumerator_denominator (a : Rat) :
    EndsNumerator (if a.den = 1 then [] else '/' :: d.numeral a.den) := by
  split_ifs
  · exact .inl rfl
  · exact .inr ⟨_, rfl⟩

variable {t : Text} {n m : Nat}

theorem EndsNumerator.head (h : EndsNumerator t) (c : Char) (u : Text) (hc : t = c :: u) :
    c = '/' := by
  rcases h with rfl | ⟨v, rfl⟩
  · cases hc
  · exact (List.cons.inj hc).1.symm

theorem EndsNumerator.ne_cons (h : EndsNumerator t) {c : Char} (hc : c ≠ '/') (u : Text) :
    t ≠ c :: u := fun ht => hc (h.head c u ht)

theorem EndsNumerator.stops (h : EndsNumerator t) : Stops t := by
  rcases h with rfl | ⟨u, rfl⟩
  · exact stops_nil
  · exact stops_cons (by decide) (by decide) (by decide) (by decide)

/-- A number begins with a digit. -/
theorem exists_numeral_eq_cons (hd : d.IsStandard) (n : Nat) (t : Text) :
    ∃ c u, d.numeral n ++ t = c :: u ∧ d.isDigit c = true := by
  cases h : d.numeral n with
  | nil => exact absurd h (numeral_ne_nil hd n)
  | cons c u => exact ⟨c, u ++ t, rfl, isDigit_of_mem_numeral hd c (h ▸ List.mem_cons_self)⟩

theorem numeral_ne_cons (hd : d.IsStandard) {c : Char} (hc : c ∈ NumeralSystem.reservedChars)
    (u : Text) : d.numeral n ++ t ≠ c :: u := by
  obtain ⟨a, v, ht, ha⟩ := exists_numeral_eq_cons hd n t
  intro h
  rw [(List.cons.inj (ht.symm.trans h)).1, d.isDigit_of_reserved hc] at ha
  cases ha

theorem mem_rationalText (hd : d.IsStandard) {a : Rat} {c : Char} (hc : c ∈ d.rationalText a) :
    d.isDigit c = true ∨ c ∈ ['-', '/'] := by
  rw [rationalText, magnitudeText, List.mem_append, List.mem_append] at hc
  rcases hc with hc | hc | hc
  · exact .inr (by rw [Ratio.mem_sign hc]; decide)
  · exact .inl (isDigit_of_mem_numeral hd c hc)
  · split_ifs at hc
    · cases hc
    · rcases List.mem_cons.1 hc with rfl | hc
      · exact .inr (by decide)
      · exact .inl (isDigit_of_mem_numeral hd c hc)

theorem isBlank_of_mem_rationalText (hd : d.IsStandard) {a : Rat} :
    ∀ c ∈ d.rationalText a, isBlank c = false := fun c hc => by
  rcases mem_rationalText hd hc with hc | hc
  · exact isBlank_of_isDigit hd hc
  · exact forall_of_all (P := fun c => isBlank c = false) (by decide) c hc

/-! ## Numerators and denominators -/

theorem digits_numeral (hd : d.IsStandard) (n : Nat) (ht : EndsNumerator t) :
    d.digits (d.numeral n ++ t) = .ok (d.numeral n, t) :=
  digits_append_of_reserved (isDigit_of_mem_numeral hd) fun c u hc => by
    rw [ht.head c u hc]
    decide

theorem fraction_numeral (hd : d.IsStandard) (n : Nat) (ht : EndsNumerator t) :
    d.fraction (d.numeral n ++ t) = d.quotientFrom n t := by
  rw [fraction_eq, bind_of_ok (digits_numeral hd n ht)]
  simp only
  rw [if_neg (by simpa using numeral_ne_nil hd n), bind_of_ok (value_numeral hd n)]
  split
  · exact absurd rfl (ht.ne_cons (by decide) _)
  · rfl

/-- Digits that no point follows are no decimal. -/
theorem pointedIn_of_no_point {s : NumeralSystem} {w r : Text} (hw : d.digits t = .ok (w, r))
    (hr : ∀ u, r ≠ '.' :: u) : d.pointedIn s t = .ok none := by
  rw [pointedIn, bind_of_ok hw]
  simp only
  split
  · exact absurd rfl (hr _)
  · exact absurd rfl (hr _)
  · exact absurd rfl (hr _)
  · rfl

theorem unsigned_numeral (hd : d.IsStandard) (n : Nat) (ht : EndsNumerator t) :
    d.unsigned (d.numeral n ++ t) = d.quotientFrom n t := by
  rw [← fraction_numeral hd n ht]
  obtain ⟨exact, system, letters⟩ := d
  cases system with
  | none =>
    exact unsigned_eq_fraction letters (Numeral.ofNat_ne_nil n) (Numeral.all_isPlainDigit_ofNat n)
      ht.stops (ht.ne_cons (by decide))
  | some s =>
    have hempty : ¬ (numeral ⟨exact, some s, letters⟩ n ++ t).isEmpty = true := by
      simp [numeral_ne_nil hd n]
    have hpoint := pointedIn_of_no_point (s := s) (digits_numeral hd n ht) (ht.ne_cons (by decide))
    rw [unsigned, if_neg hempty]
    simp only
    rw [bind_of_ok hpoint]

theorem denominator_numeral (hd : d.IsStandard) (mixed : Bool) (hm : m ≠ 0) :
    d.denominator mixed (d.numeral m) = .ok (m, []) := by
  have hdigits := digits_numeral hd m (.inl rfl)
  have hmarker : d.marker.isPrefixOf [] = false := by
    rcases d.marker_eq with h | h <;> rw [h] <;> rfl
  rw [List.append_nil] at hdigits
  rw [denominator, bind_of_ok hdigits]
  simp only
  rw [if_neg (by simpa using numeral_ne_nil hd m), hmarker, bind_of_ok (value_numeral hd m)]
  exact if_neg hm

theorem slash?_numeral (hd : d.IsStandard) (m : Nat) (t : Text) :
    slash? ('/' :: (d.numeral m ++ t)) = some (d.numeral m ++ t) := by
  obtain ⟨c, u, hm, hc⟩ := exists_numeral_eq_cons hd m t
  have hmark : c ≠ divisionMark := by
    rintro rfl
    exact absurd (mem_alphabet_of_isDigit hd hc) (by decide)
  have hopen : c ≠ '(' := by
    rintro rfl
    rw [d.isDigit_of_reserved (by decide)] at hc
    cases hc
  rw [hm, slash?]
  · exact if_neg hmark
  · exact hopen

/-- **The text of a magnitude is read as the magnitude.** -/
theorem unsigned_magnitude (hd : d.IsStandard) (a : Rat) :
    d.unsigned (d.magnitudeText a) = .ok (⟨|a|, false⟩, []) := by
  have habs : |a| = mkRat a.num.natAbs a.den := by
    rw [Rat.abs_def, Rat.mkRat_eq_divInt]
  rw [magnitudeText, unsigned_numeral hd _ (endsNumerator_denominator a), habs]
  by_cases h1 : a.den = 1
  · rw [if_pos h1, h1, Rat.mkRat_one]
    rfl
  · have hslash := slash?_numeral hd a.den []
    rw [List.append_nil] at hslash
    rw [if_neg h1, quotientFrom, hslash]
    simp only
    rw [bind_of_ok (denominator_numeral hd false a.den_nz), beq_false_of_ne h1]
    rfl

/-! ## Signs -/

theorem minus_rationalText (hd : d.IsStandard) (a : Rat) (negative : Bool) :
    minus (sign negative ++ d.magnitudeText a) = (negative, d.magnitudeText a) := by
  cases negative with
  | true => rfl
  | false => exact minus_of_ne (numeral_ne_cons hd (by decide))

theorem dropWhile_magnitudeText (hd : d.IsStandard) (a : Rat) :
    EndsNumerator ((d.magnitudeText a).dropWhile d.isDigit) := by
  have hends := endsNumerator_denominator (d := d) a
  rw [magnitudeText, (span_append (isDigit_of_mem_numeral hd) fun c u hc => ?_).2]
  · exact hends
  · rw [hends.head c u hc]
    exact d.isDigit_of_reserved (by decide)

theorem continuedFraction?_rationalText (hd : d.IsStandard) (a : Rat) (negative : Bool)
    (hs : d.system = none) : continuedFraction? (sign negative ++ d.magnitudeText a) = none := by
  have hends := endsNumerator_denominator (d := d) a
  have hplain : ∀ c ∈ d.numeral a.num.natAbs, isDecimal c = true := fun c hc => by
    have := isDigit_of_mem_numeral hd c hc
    rw [isDigit, hs] at this
    exact isDecimal_of_plain this
  have hdrop : (d.magnitudeText a).dropWhile isDecimal = _ :=
    (span_append hplain fun c u hc => by rw [hends.head c u hc]; decide).2
  rw [continuedFraction?_eq, minus_rationalText hd]
  simp only
  rw [hdrop]
  split
  · rename_i heq
    exact absurd heq (hends.ne_cons (by decide) _)
  · rfl

theorem scaledEndpoint_signed (hd : d.IsStandard) (a : Rat) (negative beforeColon : Bool) :
    d.scaledEndpoint beforeColon (sign negative ++ d.magnitudeText a) =
      .ok (Endpoint.signed ⟨|a|, false⟩ negative, []) := by
  have he : d.endpoint (sign negative ++ d.magnitudeText a) =
      .ok (Endpoint.signed ⟨|a|, false⟩ negative, []) := by
    rw [endpoint_of_no_fraction d (continuedFraction?_rationalText hd a negative), signed_eq,
      minus_rationalText hd]
    simp only
    rw [unsigned_magnitude hd]
    rfl
  exact d.scaledEndpoint_of_not_follows he d.exponentFollows_nil beforeColon

/-- **The text of a number is read as the number.** -/
theorem scaledEndpoint_rationalText (hd : d.IsStandard) (a : Rat) :
    d.scaledEndpoint false (d.rationalText a) = .ok (⟨a, false⟩, []) := by
  rw [rationalText, scaledEndpoint_signed hd, Endpoint.signed, Ratio.signed_abs]

theorem bracket?_of_not_mem (h : '[' ∉ t) : Literal.bracket? t = none := by
  rw [bracket?_eq, bracketContents?_of_ne, Option.map_none]
  intro u hu
  obtain ⟨w, -, ht⟩ := (takes_minus t).trans (takes_bracketBase _)
  exact h (by rw [ht, hu]; exact List.mem_append_right w List.mem_cons_self)

theorem bracket?_rationalText (hd : d.IsStandard) (a : Rat) (negative : Bool) :
    Literal.bracket? (sign negative ++ d.magnitudeText a) = none :=
  bracket?_of_not_mem (not_mem_of_scaledEndpoint (scaledEndpoint_signed hd a negative false))

/-! ## Values -/

/-- **With exact values the text of a number has its value**, as an integer if it is one. -/
theorem valueOf_rationalText (hd : d.IsStandard) (hexact : d.exact = true) (a : Rat) :
    Expr.valueOf d (d.rationalText a) = .ok (.plain (Number.rational a).simplest) := by
  have hi : ∀ negative, d.interval (sign negative ++ d.magnitudeText a) =
      .ok (((Endpoint.signed ⟨|a|, false⟩ negative).shown, false), []) := fun negative => by
    rw [interval_single (.inl hexact) (scaledEndpoint_signed hd a negative true)
      (fun _ h => nomatch h), single, if_pos hexact]
  have hf : ¬ SignsFraction d (d.magnitudeText a) :=
    not_signsFraction_iff.2 (continuedFraction?_rationalText hd a true)
  obtain ⟨e, he, hv⟩ := exists_reads_signed (numeral_ne_cons hd (by decide))
    (numeral_ne_cons hd (by decide)) (bracket?_rationalText hd a) hf (.inl rfl) (hi false) (hi true)
    (decide (a.num < 0))
  have hsigned : e.eval d = .ok (Endpoint.shown ⟨a, false⟩) := by
    have hsign : Endpoint.signed ⟨|a|, false⟩ (decide (a.num < 0)) = ⟨a, false⟩ := by
      rw [Endpoint.signed, Ratio.signed_abs]
    rw [hv, ← hsign]
    cases decide (a.num < 0) with
    | true => exact congrArg Except.ok (negate_shown hexact ⟨|a|, false⟩)
    | false => rfl
  rw [Expr.valueOf_eq_ok_iff, prepare_of_no_blank d (isBlank_of_mem_rationalText hd)]
  refine ⟨_, he.sum_of_factor (.inl rfl), ?_⟩
  rw [Expr.eval, hsigned, ← Endpoint.shown_of_not_kept]
  exact congrArg Except.ok (simplify_shown hexact _)

/-- No plain decimal begins the text of a number. -/
theorem plain?_rationalText (hd : d.IsStandard) (a : Rat) : d.plain? (d.rationalText a) = none := by
  rw [plain?_eq, rationalText, minus_rationalText hd]
  simp only
  split
  · rename_i heq
    exact absurd heq ((dropWhile_magnitudeText hd a).ne_cons (by decide) _)
  · rfl

theorem ownsSign_rationalText (hd : d.IsStandard) (a : Rat) : d.OwnsSign (d.rationalText a) := by
  intro u hu
  have hm := minus_rationalText hd a (decide (a.num < 0))
  rw [← rationalText, hu] at hm
  obtain ⟨c, v, hc, hdigit⟩ := exists_numeral_eq_cons hd a.num.natAbs
    (if a.den = 1 then [] else '/' :: d.numeral a.den)
  have hu : u = c :: v := (Prod.mk.inj hm).2.trans hc
  refine .inr ?_
  rw [SignsNumber, hu, List.head?_cons, Option.any_some, hdigit]
  rfl

/-- **Two numbers with a colon between them have the value of their interval.** -/
theorem valueOf_intervalText (hd : d.IsStandard) (i : Interval) :
    Expr.valueOf d (d.rationalText i.low ++ ':' :: d.rationalText i.high) =
      .ok (.kept (.interval i)) := by
  have hblank : ∀ c ∈ d.rationalText i.low ++ ':' :: d.rationalText i.high, isBlank c = false := by
    intro c hc
    rcases List.mem_append.1 hc with hc | hc
    · exact isBlank_of_mem_rationalText hd c hc
    · rcases List.mem_cons.1 hc with rfl | hc
      · decide
      · exact isBlank_of_mem_rationalText hd c hc
  obtain ⟨e, v, hv, hpair, hread⟩ := exists_reads_pair (scaledEndpoint_rationalText hd i.low)
    (scaledEndpoint_rationalText hd i.high)
  have hcert : d.Certain (d.rationalText i.low ++ ':' :: d.rationalText i.high) := by
    refine .inr ?_
    rw [plain?_colon, plain?_rationalText hd]
    rfl
  have he := (hread d.exact hcert).sum_of_factor (.inl rfl)
  rw [Expr.valueOf_eq_ok_iff, prepare_of_no_blank d hblank]
  refine ⟨_, he, ?_⟩
  have hvalue : v = .kept (.interval i) := by
    rw [hpair (ownsSign_rationalText hd i.low), Endpoint.pair, Literal.hull_self]
  have hev : e.eval d = .ok v := hv d.exact
  rw [Expr.eval, hev, hvalue]
  change Except.ok (d.simplify (.kept (.interval i))) = _
  rw [simplify]
  exact congrArg Except.ok (ite_self _)

end Dialect

/-- A text in parentheses has its value in the simplest kind. -/
theorem Expr.valueOf_parens {d : Dialect} {t : Text} {v : Value} (h : valueOf d t = .ok v) :
    valueOf d ('(' :: (t ++ [')'])) = .ok (d.simplify v) := by
  obtain ⟨e, he, hv⟩ := valueOf_eq_ok_iff.1 h
  have hfactor : Reads d .factor ('(' :: (d.prepare t ++ [')'])) e [] :=
    .group (he.close closed_nil []) (Dialect.suffixed_nil d e)
  rw [valueOf_eq_ok_iff, d.prepare_parens]
  refine ⟨_, hfactor.sum_of_factor (.inl rfl), ?_⟩
  rw [eval, hv]
  rfl

end RatCalc

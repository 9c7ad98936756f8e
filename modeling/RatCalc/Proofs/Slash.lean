import RatCalc.Proofs.DecimalExpr
import RatCalc.Proofs.Precedence

/-!
# Slashes after digits

A slash right after a row of digits is that of a fraction, so what follows has to begin with a
denominator.

* `Divisor`: a literal with a point, a period or a letter, and its value.
* `denominator_cases`, `unsigned_slash`: what is read after the slash of a fraction.
* `valueOf_quotient`: a quotient of two texts in parentheses.
* **`valueOf_slash`**: a divisor after the slash is refused, where in parentheses it divides.
-/

namespace RatCalc

namespace Dialect

open Text Reading

variable (letters : LetterTable)

/-- A literal with a point, a period or a letter that is worth `b`. -/
structure Divisor (t : Text) (b : Rat) : Prop where
  form : ((exactly letters).lettered? t).isSome ∨ (repeating? t).isSome ∨ (pointed? t).isSome
  value : (exactly letters).unsigned t = .ok (⟨b, false⟩, [])
  noBlank : ∀ c ∈ t, isBlank c = false

/-! ## Where a decimal ends -/

/-- What stands before a period begins with a digit, a group or the mark of the period. -/
theorem head_of_digitRuns {v x : Text} (h : (digitRuns 0 v).2 = '#' :: x) :
    ∃ c u, v = c :: u ∧ (isDecimal c = true ∨ c = '\x7b' ∨ c = '#') := by
  cases v with
  | nil => cases h
  | cons c u =>
    refine ⟨c, u, rfl, ?_⟩
    by_cases hd : isDecimal c = true
    · exact .inl hd
    · by_cases hg : c = '\x7b'
      · exact .inr (.inl hg)
      · rw [digitRuns_of_ne (Bool.eq_false_iff.2 hd) hg] at h
        exact .inr (.inr (List.cons.inj h).1)

theorem digitRuns_dropWhile (u : Text) :
    (digitRuns 0 (u.dropWhile isDecimal)).2 = (digitRuns 0 u).2 := by
  conv_rhs => rw [← List.takeWhile_append_dropWhile (p := isDecimal) (l := u)]
  rw [digitRuns_append (List.all_eq_true.1 List.all_takeWhile)]

/-- A number with a point, a group or a period after its first digits. -/
structure Pointed (t : Text) : Prop extends StartsNumber t where
  mark : ∃ w c u, t = w ++ c :: u ∧ (∀ a ∈ w, isDecimal a = true) ∧
    c ∈ (['.', '#', '\x7b'] : Text)

theorem pointed_of_point {w u : Text} (hw : ∀ c ∈ w, isDecimal c = true)
    (htilde : ∀ v, u ≠ '~' :: v) (hopen : ∀ v, u.dropWhile isDecimal ≠ '[' :: v) :
    Pointed (w ++ '.' :: u) where
  toStartsNumber := startsNumber_point hw htilde hopen
  mark := ⟨w, '.', u, rfl, hw, by decide⟩

theorem pointed_of_repeating {t : Text} (h : (repeating? t).isSome) : Pointed t := by
  have hw : ∀ a ∈ t.takeWhile isDecimal, isDecimal a = true := List.all_eq_true.1 List.all_takeWhile
  have ht := List.takeWhile_append_dropWhile (p := isDecimal) (l := t)
  obtain ⟨fixed, x, hx⟩ : ∃ fixed x, fixedPart? t = some (fixed, '#' :: x) := by
    rw [repeating?] at h
    split at h
    · exact ⟨_, _, by assumption⟩
    · cases h
  rcases fixedPart?_cases hx with ⟨u, hu, hr⟩ | ⟨hne, hpoint, hr⟩
  · rw [hu] at ht
    rw [← ht]
    refine pointed_of_point hw (fun v hv => ?_) fun v hv => ?_
    · obtain ⟨c, y, hc, h⟩ := head_of_digitRuns hr.symm
      rw [hv] at hc
      rw [← (List.cons.inj hc).1] at h
      exact absurd h (by decide)
    · rw [← digitRuns_dropWhile, hv, digitRuns_of_ne (by decide) (by decide)] at hr
      exact absurd (List.cons.inj hr).1 (by decide)
  · obtain ⟨c, u, hv, hc⟩ := head_of_digitRuns hr.symm
    have hd : isDecimal c = false := by
      have := List.head?_dropWhile_not isDecimal t
      rw [hv] at this
      simpa using this
    have hc : c = '\x7b' ∨ c = '#' := hc.resolve_left (by rw [hd]; exact Bool.false_ne_true)
    rw [hv] at ht hpoint
    rw [← ht]
    refine ⟨startsNumber_digits hne hw ?_ hpoint ?_, _, c, u, rfl, hw, ?_⟩
    · intro a v ha
      rwa [← (List.cons.inj ha).1]
    · intro v hv
      rw [(List.cons.inj hv).1] at hc
      exact absurd hc (by decide)
    · rcases hc with rfl | rfl <;> decide

theorem pointed_of_pointed? {t x : Text} (h : pointed? t = some (x, [])) : Pointed t := by
  have hw : ∀ a ∈ t.takeWhile isDecimal, isDecimal a = true := List.all_eq_true.1 List.all_takeWhile
  have ht := List.takeWhile_append_dropWhile (p := isDecimal) (l := t)
  rw [pointed?] at h
  split at h
  · rename_i u hu
    simp only at h
    split_ifs at h with hne
    rw [hu] at ht
    rw [← ht]
    have hend : u.dropWhile isDecimal = [] := (Prod.mk.inj (Option.some.inj h)).2
    refine pointed_of_point hw (fun v hv => ?_) fun v hv => ?_
    · rw [hv] at hne
      exact hne rfl
    · rw [hend] at hv
      cases hv
  · cases h

/-- What follows the plain digits of such a number does nothing to them. -/
theorem Pointed.endsNumber {t : Text} (h : Pointed t) :
    ∃ c u, t.dropWhile isPlainDigit = c :: u ∧ c ∉ continuing := by
  obtain ⟨w, c, u, rfl, hw, hc⟩ := h.mark
  have hplain : isPlainDigit c = false :=
    (forall_of_all (by decide) : ∀ c ∈ ['.', '#', '\x7b'], isPlainDigit c = false) c hc
  rw [dropWhile_append_cons hplain]
  cases hd : w.dropWhile isPlainDigit with
  | nil =>
    refine ⟨c, u, rfl, ?_⟩
    exact (forall_of_all (by decide) : ∀ c ∈ ['.', '#', '\x7b'], c ∉ continuing) c hc
  | cons a v =>
    have ha := hw a ((List.dropWhile_suffix _).subset (hd ▸ List.mem_cons_self))
    refine ⟨a, v ++ c :: u, rfl, fun hm => ?_⟩
    rw [forall_of_all (P := fun c => isDecimal c = false) (by decide) a hm] at ha
    cases ha

/-! ## Divisors -/

/-- What holds of the letters holds of their codes, which are small. -/
theorem forall_letter {P : Char → Prop}
    (h : ∀ n < 123, LetterTable.isLetter (Char.ofNat n) = true → P (Char.ofNat n)) {c : Char}
    (hc : LetterTable.isLetter c = true) : P c := by
  have hle : c.toNat < 123 := by
    simp only [LetterTable.isLetter, Bool.or_eq_true, Bool.and_eq_true, decide_eq_true_eq,
      Char.le_def, UInt32.le_iff_toNat_le] at hc
    change c.val.toNat < 123
    rcases hc with hc | hc
    · exact Nat.lt_succ_of_le hc.2
    · exact Nat.lt_of_le_of_lt hc.2 (by decide)
  have := h c.toNat hle
  rw [Char.ofNat_toNat] at this
  exact this hc

theorem isDecimal_of_letter {c : Char} (h : LetterTable.isLetter c = true) :
    isDecimal c = false :=
  forall_letter (P := fun c => isDecimal c = false) (by decide) h

namespace Divisor

variable {letters} {t : Text} {b : Rat}

/-- A divisor is a decimal, or an integer after a zero and a letter. -/
theorem shape (h : Divisor letters t b) :
    Pointed t ∨ ∃ c u, t = '0' :: c :: u ∧ LetterTable.isLetter c = true := by
  have hlettered : ((exactly letters).lettered? t).isSome →
      ∃ c u, t = '0' :: c :: u ∧ LetterTable.isLetter c = true := fun hl => by
    rw [lettered?.eq_def] at hl
    split at hl
    · rename_i c u _
      split_ifs at hl with hc
      · exact ⟨c, u, rfl, hc⟩
      · cases hl
    · cases hl
  cases hl : (exactly letters).lettered? t with
  | some x => exact .inr (hlettered (by rw [hl]; rfl))
  | none =>
    cases hr : repeating? t with
    | some x => exact .inl (pointed_of_repeating (by rw [hr]; rfl))
    | none =>
      obtain ⟨⟨x, rest⟩, hp⟩ := Option.isSome_iff_exists.1
        (by simpa [hl, hr] using h.form : (pointed? t).isSome)
      have hu := h.value
      rw [unsigned] at hu
      split_ifs at hu
      simp only [exactly] at hl hu
      rw [hl, hr, hp] at hu
      obtain ⟨a, -, ha⟩ := bind_eq_ok.1 hu
      cases ha
      exact .inl (pointed_of_pointed? hp)

theorem startsNumber (h : Divisor letters t b) : StartsNumber t := by
  rcases h.shape with hp | ⟨c, u, rfl, hc⟩
  · exact hp.toStartsNumber
  · have hlow : ∀ a u', c :: u = a :: u' → LetterTable.isLetter a = true := fun a u' ha => by
      rwa [← (List.cons.inj ha).1]
    exact startsNumber_digits (w := ['0']) (by decide) (forall_of_all (by decide))
      (fun a v ha => isDecimal_of_letter (hlow a v ha))
      (fun v ha => absurd (hlow '.' v ha) (by decide))
      (fun v ha => absurd (hlow '[' v ha) (by decide))

theorem saysNumber (h : Divisor letters t b) : SaysNumber letters t ⟨b, false⟩ [] where
  toStartsNumber := h.startsNumber
  unsigned := h.value

end Divisor

/-! ## After the slash -/

/-- What is wrong with a text right after a slash that follows digits, if it does not consist of a
denominator alone. -/
def slashFault (t : Text) : Failure :=
  let ds := t.takeWhile isPlainDigit
  let rest := t.dropWhile isPlainDigit
  if ds.isEmpty then .literal .missingDenominator
  else if (exactly letters).marker.isPrefixOf rest then .literal .exponentAfterFraction
  else if Numeral.value ds = 0 then .division .zeroDenominator
  else .literal (.trailingToken (String.ofList ((exactly letters).display rest)))

variable {letters} {w t : Text} {b : Rat}

variable (letters) in
/-- The denominator is wrong as told, or it is followed by what is not read. -/
theorem denominator_cases (t : Text) :
    (exactly letters).denominator false t = .error (slashFault letters t) ∨
      Numeral.value (t.takeWhile isPlainDigit) ≠ 0 ∧
      (exactly letters).denominator false t =
        .ok (Numeral.value (t.takeWhile isPlainDigit), t.dropWhile isPlainDigit) ∧
      slashFault letters t = .literal (.trailingToken
        (String.ofList ((exactly letters).display (t.dropWhile isPlainDigit)))) := by
  have hd : (exactly letters).denominator false t =
      if (t.takeWhile isPlainDigit).isEmpty then .error (.literal .missingDenominator)
      else if (exactly letters).marker.isPrefixOf (t.dropWhile isPlainDigit) then
        .error (.literal .exponentAfterFraction)
      else if Numeral.value (t.takeWhile isPlainDigit) = 0 then .error (.division .zeroDenominator)
      else .ok (Numeral.value (t.takeWhile isPlainDigit), t.dropWhile isPlainDigit) := rfl
  rw [hd, slashFault]
  split_ifs with h₁ h₂ h₃
  · exact .inl rfl
  · exact .inl rfl
  · exact .inl rfl
  · exact .inr ⟨h₃, rfl, rfl⟩

variable (letters) in
theorem unsigned_slash (hne : w ≠ []) (hw : ∀ c ∈ w, isPlainDigit c = true)
    (hs : slash? ('/' :: t) = some t) :
    (exactly letters).unsigned (w ++ '/' :: t) =
      ((exactly letters).denominator false t).map fun x =>
        (⟨mkRat (Numeral.value w) x.1, x.1 == 1⟩, x.2) := by
  have hstops : Stops ('/' :: t) :=
    stops_cons (by decide) (by decide) (by decide) (by decide)
  rw [unsigned_eq_quotientFrom letters hne hw hstops
    (fun u hu => absurd (List.cons.inj hu).1 (by decide)), quotientFrom, hs]
  simp only
  cases (exactly letters).denominator false t <;> rfl

theorem Divisor.slash? (h : Divisor letters t b) : Dialect.slash? ('/' :: t) = some t := by
  obtain ⟨c, u, rfl, hc⟩ := h.startsNumber.start
  have hno : c ≠ '(' ∧ c ≠ divisionMark := by
    constructor
    all_goals
      rintro rfl
      exact absurd hc (by decide)
  rw [Dialect.slash?]
  · rw [if_neg hno.2]
  · exact hno.1

/-- **A divisor right after a slash** that follows digits is refused. -/
theorem valueOf_slash_error (hne : w ≠ []) (hw : ∀ c ∈ w, isPlainDigit c = true)
    (h : Divisor letters t b) :
    Expr.valueOf (exactly letters) (w ++ '/' :: t) = .error (slashFault letters t) := by
  have hprep : (exactly letters).prepare (w ++ '/' :: t) = w ++ '/' :: t := by
    refine prepare_of_no_blank _ fun c hc => ?_
    rcases List.mem_append.1 hc with hc | hc
    · exact isBlank_of_plain (hw c hc)
    · rcases List.mem_cons.1 hc with rfl | hc
      · decide
      · exact h.noBlank c hc
  have hstart : StartsNumber (w ++ '/' :: t) :=
    startsNumber_digits hne (fun c hc => isDecimal_of_plain (hw c hc))
      (fun c u hu => by rw [← (List.cons.inj hu).1]; decide)
      (fun u hu => absurd (List.cons.inj hu).1 (by decide))
      (fun u hu => absurd (List.cons.inj hu).1 (by decide))
  have hu := unsigned_slash letters hne hw h.slash?
  rcases denominator_cases letters t with hd | ⟨hv, hd, hf⟩
  · rw [hd] at hu
    have hstop := hstart.factor_of_error (Literal.exists_cons_of_plain hne hw _) hu false
    refine Expr.valueOf_of_factor_stop ?_ ?_
    · rw [hprep]
      exact List.append_ne_nil_of_left_ne_nil hne _
    · rw [hprep]
      exact hstop
  · have hpointed : Pointed t := h.shape.resolve_right fun ⟨c, u, ht, hc⟩ => by
      have hplain := isPlainDigit_of_not_isDecimal (isDecimal_of_letter hc)
      rw [ht, List.takeWhile_cons_of_pos (by decide),
        List.takeWhile_cons_of_neg (by simp [hplain])] at hv
      exact hv rfl
    obtain ⟨c, u, hrest, hc⟩ := hpointed.endsNumber
    rw [hd, hrest] at hu
    have hsays : SaysNumber letters (w ++ '/' :: t) _ (c :: u) := ⟨hstart, hu⟩
    obtain ⟨e, he, hev⟩ := hsays.reads_sum (endsNumber_cons hc u) false
    change Reads _ _ (w ++ '/' :: t) _ _ at he
    rw [← hprep] at he
    rw [hf, hrest]
    exact Expr.valueOf_of_reads_rest he hev

/-! ## Quotients in parentheses -/

/-- The quotient of two texts in parentheses. -/
def quotient (t u : Text) : Text := '(' :: (t ++ ')' :: '/' :: '(' :: (u ++ [')']))

theorem prepare_quotient (d : Dialect) (t u : Text) :
    d.prepare (quotient t u) = quotient (d.prepare t) (d.prepare u) := by
  rw [quotient, d.prepare_parens, d.prepare_slash (by decide), d.prepare_parens]
  rfl

theorem valueOf_quotient {d : Dialect} {t u : Text} {v w : Value} {x : Number}
    (ht : Expr.valueOf d t = .ok v) (hu : Expr.valueOf d u = .ok w)
    (hx : v.number.div w.number = .ok x) :
    Expr.valueOf d (quotient t u) = .ok (d.simplify (d.simplify (.plain x))) := by
  obtain ⟨a, ha, hav⟩ := Expr.valueOf_eq_ok_iff.1 ht
  obtain ⟨b, hb, hbv⟩ := Expr.valueOf_eq_ok_iff.1 hu
  have hfirst : Reads d .factor (quotient (d.prepare t) (d.prepare u)) a
      ('/' :: '(' :: (d.prepare u ++ [')'])) :=
    .group (ha.close closed_nil _) (suffixed_of_follows a (.inr ⟨.slash, _, rfl⟩))
  have hsecond : Reads d .factor ('(' :: (d.prepare u ++ [')'])) b [] :=
    .group (hb.close closed_nil _) (suffixed_of_follows b (.inl rfl))
  have hterm : Reads d (.termFrom a) ('/' :: '(' :: (d.prepare u ++ [')']))
      (.simplified (.div a b)) [] :=
    .divided hsecond (.termEnd (fun _ h => nomatch h) (fun _ h => nomatch h) rfl)
  rw [Expr.valueOf_eq_ok_iff, prepare_quotient]
  refine ⟨_, .sum (.term hfirst hterm) (.sumEnd (fun _ h => nomatch h) (fun _ h => nomatch h)), ?_⟩
  have hdiv : (Expr.div a b).eval d = .ok (.plain x) := by
    rw [Expr.eval, bind_of_ok hav, bind_of_ok hbv, bind_of_ok hx]
    rfl
  rw [Expr.eval, Expr.eval, hdiv]
  rfl

/-! ## Quotients -/

variable (letters) in
theorem valueOf_digits (hne : w ≠ []) (hw : ∀ c ∈ w, isPlainDigit c = true) :
    Expr.valueOf (exactly letters) w = .ok (.plain (.integer (Numeral.value w))) := by
  have hsays := saysNumber_digits letters hne hw stops_nil (fun _ h => nomatch h)
    (fun _ h => nomatch h) (fun _ h => nomatch h)
  rw [List.append_nil] at hsays
  obtain ⟨e, he, hv⟩ := hsays.reads_sum endsNumber_nil false
  rw [Expr.valueOf_eq_ok_iff, prepare_of_no_blank _ fun c hc => isBlank_of_plain (hw c hc)]
  refine ⟨e, he, ?_⟩
  rw [hv, Endpoint.signed, if_neg Bool.false_ne_true, Endpoint.shown_of_not_kept,
    Number.simplest_natCast]

theorem Divisor.valueOf (h : Divisor letters t b) :
    Expr.valueOf (exactly letters) t = .ok (.plain (Number.rational b).simplest) := by
  obtain ⟨e, he, hv⟩ := h.saysNumber.reads_sum endsNumber_nil false
  rw [Expr.valueOf_eq_ok_iff, prepare_of_no_blank _ h.noBlank]
  refine ⟨e, he, ?_⟩
  rw [hv, Endpoint.signed, if_neg Bool.false_ne_true, Endpoint.shown_of_not_kept]

/-- **A slash after digits takes what follows for a denominator.** Digits and a divisor that is not
zero both have values, and in parentheses they have a quotient, but without parentheses the divisor
is refused. -/
theorem valueOf_slash (hne : w ≠ []) (hw : ∀ c ∈ w, isPlainDigit c = true)
    (h : Divisor letters t b) (hb : b ≠ 0) :
    Expr.valueOf (exactly letters) w = .ok (.plain (.integer (Numeral.value w))) ∧
      Expr.valueOf (exactly letters) t = .ok (.plain (Number.rational b).simplest) ∧
      Expr.valueOf (exactly letters) (quotient w t) =
        .ok (.plain (Number.rational (Numeral.value w / b)).simplest) ∧
      Expr.valueOf (exactly letters) (w ++ '/' :: t) = .error (slashFault letters t) := by
  have hvw := valueOf_digits letters hne hw
  have hvt := h.valueOf
  obtain ⟨x, hx, hxa⟩ := Number.exists_div (x := .integer (Numeral.value w)) rfl
    (Number.toRat?_simplest b) hb
  refine ⟨hvw, hvt, ?_, valueOf_slash_error hne hw h⟩
  rw [valueOf_quotient hvw hvt hx]
  rw [Int.cast_natCast] at hxa
  refine congrArg (fun y => Except.ok (Value.plain y)) ?_
  change x.simplest.simplest = _
  rw [Number.simplest_of_toRat? hxa, Number.simplest_simplest]

theorem one_over_half :
    Divisor .initial ['0', '.', '5'] (mkRat 1 2) ∧ mkRat 1 2 ≠ 0 ∧
      Expr.valueOf (exactly .initial) ['1', '/', '0', '.', '5'] =
        .error (.division .zeroDenominator) ∧
      Expr.valueOf (exactly .initial) (quotient ['1'] ['0', '.', '5']) =
        .ok (.plain (.integer 2)) := by
  have hd : Divisor .initial ['0', '.', '5'] (mkRat 1 2) :=
    ⟨by decide, by with_unfolding_all decide, forall_of_all (by decide)⟩
  have hb : mkRat 1 2 ≠ 0 := by decide
  obtain ⟨-, -, hq, he⟩ := valueOf_slash (w := ['1']) (by decide) (forall_of_all (by decide)) hd hb
  exact ⟨hd, hb, he, hq.trans (by with_unfolding_all decide)⟩

end Dialect

end RatCalc

import RatCalc.Proofs.DecimalExpr
import RatCalc.Proofs.IntervalArithmetic

/-!
# Plain decimals

Where every number is an interval, plain decimals have a reader of their own.

* `Dialect.PlainDecimal`: sign, digits and rest of a plain decimal; `exists_plainDecimal`.
* `Literal.rational_plain`, `Literal.plainDecimal_eq`: the number that it is written for, and the
  interval of the numbers that are rounded to it.
* `Text.Stuck`: what no expression goes on with, and what is no end of a text either.
* **`uncertain_mem`**: the number lies in the interval and is read from the same text, or what
  follows the decimal is stuck.
-/

namespace RatCalc

open Text

namespace Interval

theorem mem_hull {a b x : Rat} (ha : a ≤ x) (hb : x ≤ b) : x ∈ hull a b := by
  rw [hull_of_le (ha.trans hb)]
  exact ⟨ha, hb⟩

end Interval

namespace Text

/-- A text that is not empty and begins with nothing that an expression goes on with: with a colon,
a digit or a group. -/
def Stuck (t : Text) : Prop :=
  ∃ c u, t = c :: u ∧ (c = ':' ∨ c = '\x7b' ∨ isDecimal c = true)

theorem sign_append_minus (t : Text) : Expansion.sign (minus t).1 ++ (minus t).2 = t := by
  rcases minus_cases t with ⟨u, rfl, h⟩ | ⟨-, h⟩ <;> rw [h] <;> rfl

/-- A row of characters of one kind ends at a point. -/
theorem span_point {p : Char → Bool} {w : Text} (hp : p '.' = false) (hw : ∀ c ∈ w, p c = true)
    (u : Text) : (w ++ '.' :: u).takeWhile p = w ∧ (w ++ '.' :: u).dropWhile p = '.' :: u :=
  span_append hw fun c v h => by rwa [← (List.cons.inj h).1]

end Text

/-! ## The value of a plain decimal -/

namespace Literal

variable {w f : Text}

theorem sign_of_ne {t : Text} (hm : ∀ u, t ≠ '-' :: u) (hp : ∀ u, t ≠ '+' :: u) :
    Literal.sign t = (false, t) := by
  rw [Literal.sign.eq_def]
  split
  · exact absurd rfl (hm _)
  · exact absurd rfl (hp _)
  · rfl

/-- Digits around a point. -/
theorem mem_point (hw : ∀ c ∈ w, isPlainDigit c = true) (hf : ∀ c ∈ f, isPlainDigit c = true) :
    ∀ c ∈ w ++ '.' :: f, isPlainDigit c = true ∨ c = '.' := by
  intro c hc
  rcases List.mem_append.1 hc with hc | hc
  · exact .inl (hw c hc)
  · rcases List.mem_cons.1 hc with rfl | hc
    · exact .inr rfl
    · exact .inl (hf c hc)

theorem rational_plain (hne : f ≠ []) (hw : ∀ c ∈ w, isPlainDigit c = true)
    (hf : ∀ c ∈ f, isPlainDigit c = true) :
    rational (w ++ '.' :: f) = .ok ((Numeral.value (w ++ f) : Rat) / 10 ^ f.length) := by
  have hmem := mem_point hw hf
  have hno : ∀ {s : Char}, isPlainDigit s = false → s ≠ '.' → s ∉ w ++ '.' :: f :=
    fun hs hp hm => (hmem _ hm).elim (fun h => ne_of_plain h hs rfl) hp
  have htrim : trim (w ++ '.' :: f) = w ++ '.' :: f := trim_of_no_blank fun c hc =>
    (hmem c hc).elim isBlank_of_plain fun h => h ▸ by decide
  have hbody : body (w ++ '.' :: f) = w ++ '.' :: f :=
    body_of_no_break (hno (by decide) (by decide))
  have hsign : Literal.sign (w ++ '.' :: f) = (false, w ++ '.' :: f) :=
    sign_of_ne (fun u hu => hno (s := '-') (by decide) (by decide) (hu ▸ List.mem_cons_self))
      fun u hu => hno (s := '+') (by decide) (by decide) (hu ▸ List.mem_cons_self)
  obtain ⟨htake, hdrop⟩ := span_point (by decide) (fun c hc => isDecimal_of_plain (hw c hc)) f
  have hmixed : mixed? (w ++ '.' :: f) = none := by
    rw [mixed?, hsign]
    simp only
    rw [hdrop]
    split
    · rename_i heq
      have hm : '.' ∈ f := (List.cons.inj heq).2 ▸ List.mem_cons_self
      exact absurd hm (not_mem_of_plain hf (by decide))
    · rfl
  have hdecimal : decimal? (w ++ '.' :: f) = some (false, w, f) := by
    rw [decimal?, hsign]
    simp only
    rw [hdrop, htake]
    simp only [all_isDecimal_of_plain hf, List.isEmpty_eq_false_iff.2 hne, Bool.and_false,
      Bool.not_false, Bool.and_true, if_true]
  have hquotient : quotient (w ++ '.' :: f) =
      .ok ((Numeral.value (w ++ f) : Int), Nat.pow 10 f.length) := by
    rw [quotient, htrim, RunLength.expand_of_no_open (hno (by decide) (by decide)), hbody, hmixed]
    simp only
    rw [if_pos (by simp), hdecimal]
    rfl
  rw [rational, bind_of_ok hquotient]
  have hpos : ((Nat.pow 10 f.length : Nat) : Int) ≠ 0 :=
    Int.natCast_ne_zero.2 (Nat.pos_iff_ne_zero.1 (Nat.pow_pos (by decide)))
  simp only [Ratio.ofInts, if_neg hpos, Rat.divInt_eq_div, Int.cast_natCast]
  congr 2
  exact Nat.cast_pow 10 _

/-- The numbers that are rounded to a decimal with some places, by its digits. -/
def rounded (n : Int) (places : Nat) : Interval :=
  .hull (mkRat (n * 10 - 5) (10 ^ (places + 1))) (mkRat (n * 10 + 5) (10 ^ (places + 1)))

/-- A decimal is one of the numbers that are rounded to it. -/
theorem mem_rounded (n : Int) (k : Nat) : (n : Rat) / 10 ^ k ∈ rounded n k := by
  have hcentre : (n : Rat) / 10 ^ k = n * 10 / 10 ^ (k + 1) := by
    rw [pow_succ, mul_div_mul_right _ _ (by norm_num)]
  have hpos : (0 : Rat) < 10 ^ (k + 1) := by positivity
  rw [hcentre]
  refine Interval.mem_hull ?_ ?_
  · rw [Rat.mkRat_eq_div, Nat.cast_pow, Int.cast_sub, Int.cast_mul]
    exact (div_le_div_iff_of_pos_right hpos).2 (sub_le_self _ (by norm_num))
  · rw [Rat.mkRat_eq_div, Nat.cast_pow, Int.cast_add, Int.cast_mul]
    exact (div_le_div_iff_of_pos_right hpos).2 (le_add_of_nonneg_right (by norm_num))

theorem plainDecimal_eq (hne : f ≠ []) (hw : ∀ c ∈ w, isPlainDigit c = true)
    (hf : ∀ c ∈ f, isPlainDigit c = true) (negative : Bool) :
    plainDecimal (w ++ '.' :: f) negative =
      .ok (.interval (rounded (signed negative (Numeral.value (w ++ f))) f.length)) := by
  obtain ⟨v, hv, hvd, hsplit, hvalue⟩ := exists_splitPoint hw hf
  have hvf : ∀ c ∈ v ++ f, isPlainDigit c = true := fun c hc =>
    (List.mem_append.1 hc).elim (hvd c) (hf c)
  rw [plainDecimal, bind_of_ok hsplit]
  simp only [isDigitsLike_of_plain hv hvd, isDigits_of_plain hf, Bool.not_true, Bool.or_self,
    Bool.false_eq_true, if_false, List.isEmpty_eq_false_iff.2 hne]
  rw [bind_of_ok (wholeOf_of_plain (List.append_ne_nil_of_left_ne_nil hv f) hvf), hvalue]
  cases negative with
  | false => rfl
  | true =>
    have hsigned : signed true (Numeral.value (w ++ f)) * 10 =
        -((Numeral.value (w ++ f) : Int) * 10) := neg_mul _ _
    rw [rounded, hsigned]
    rfl

end Literal

namespace Dialect

/-! ## What is read -/

/-- A plain decimal with its digits before and after the point, and what follows it. -/
structure PlainDecimal (d : Dialect) (t : Text) (negative : Bool) (w f rest : Text) : Prop where
  sign : minus t = (negative, w ++ '.' :: (f ++ rest))
  whole : ∀ c ∈ w, d.isDigit c = true
  places : ∀ c ∈ f, d.isDigit c = true
  nonempty : f ≠ []
  stops : ∀ c u, rest = c :: u → d.isDigit c = false
  ends : ∀ c u, rest = c :: u → c ∉ ['#', ':', '~', '[', '.']

variable {d : Dialect} {t w f rest literal r : Text} {negative : Bool} {places : Nat}

/-- What is found as a plain decimal. -/
theorem exists_plainDecimal (h : d.plain? t = some (negative, literal, places, rest)) :
    ∃ w f, d.PlainDecimal t negative w f rest ∧ literal = w ++ '.' :: f ∧ places = f.length := by
  rw [plain?_eq] at h
  split at h
  · rename_i u hu
    split_ifs at h with hno
    rw [Bool.or_eq_true, not_or, List.isEmpty_iff, Bool.not_eq_true] at hno
    cases h
    refine ⟨(minus t).2.takeWhile d.isDigit, u.takeWhile d.isDigit, ⟨?_,
      List.all_eq_true.1 List.all_takeWhile, List.all_eq_true.1 List.all_takeWhile, hno.1,
      fun c v hc => head_of_dropWhile hc, fun c v hc hm => ?_⟩, rfl, rfl⟩
    · rw [List.takeWhile_append_dropWhile, ← hu, List.takeWhile_append_dropWhile]
    · rw [hc] at hno
      exact absurd (List.contains_iff_mem.2 hm) (by simpa using hno.2)
  · cases h

/-- Without the mark of a period behind its digits a decimal has no period. -/
theorem repeating?_of_point {u : Text} (hu : t.dropWhile isDecimal = '.' :: u)
    (h : ∀ v, (digitRuns 0 u).2 ≠ '#' :: v) : repeating? t = none := by
  rw [repeating?]
  split
  · rename_i v hv
    rcases fixedPart?_cases hv with ⟨u', hu', hr⟩ | ⟨-, hno, -⟩
    · rw [hu] at hu'
      cases hu'
      exact absurd hr.symm (h v)
    · exact absurd hu (hno u)
  · rfl

theorem lettered?_of_point (letters : LetterTable) (hw : ∀ c ∈ w, isPlainDigit c = true)
    (u : Text) :
    (exactly letters).lettered? (w ++ '.' :: u) = none := by
  cases w with
  | nil =>
    rw [lettered?.eq_def]
    split
    · rename_i heq
      exact absurd (List.cons.inj heq).1 (by decide)
    · rfl
  | cons c w =>
    refine lettered?_of_digits (List.cons_ne_nil c w) hw (fun a v h => ?_) _
    rw [← (List.cons.inj h).1]
    decide

section

variable (hw : ∀ c ∈ w, isDecimal c = true) (hf : ∀ c ∈ f, isDecimal c = true)

include hw hf

theorem repeating?_of_places (hruns : digitRuns 0 rest = ([], rest))
    (hperiod : ∀ u, rest ≠ '#' :: u) : repeating? (w ++ '.' :: (f ++ rest)) = none := by
  refine repeating?_of_point (span_point (by decide) hw (f ++ rest)).2 fun v hv => ?_
  rw [digitRuns_append hf, hruns] at hv
  exact hperiod v hv

theorem pointed?_of_places (hne : f ≠ []) (hr : ∀ c u, rest = c :: u → isDecimal c = false) :
    pointed? (w ++ '.' :: (f ++ rest)) = some (w ++ '.' :: f, rest) := by
  obtain ⟨htake, hdrop⟩ := span_point (by decide) hw (f ++ rest)
  obtain ⟨htake', hdrop'⟩ := span_append hf hr
  rw [pointed?, htake, hdrop]
  simp only
  rw [htake', hdrop', if_neg fun h => hne (List.isEmpty_iff.1 h)]

end

/-- Digits around a point, before what goes on no row of digits, are read as their number. -/
theorem unsigned_point (letters : LetterTable) (hne : f ≠ [])
    (hw : ∀ c ∈ w, isPlainDigit c = true) (hf : ∀ c ∈ f, isPlainDigit c = true)
    (hr : ∀ c u, rest = c :: u → isDecimal c = false) (hruns : digitRuns 0 rest = ([], rest))
    (hperiod : ∀ u, rest ≠ '#' :: u) :
    (exactly letters).unsigned (w ++ '.' :: (f ++ rest)) =
      .ok (⟨(Numeral.value (w ++ f) : Rat) / 10 ^ f.length, false⟩, rest) := by
  have hw' : ∀ c ∈ w, isDecimal c = true := fun c hc => isDecimal_of_plain (hw c hc)
  have hf' : ∀ c ∈ f, isDecimal c = true := fun c hc => isDecimal_of_plain (hf c hc)
  have hlettered := lettered?_of_point letters hw (f ++ rest)
  rw [unsigned, if_neg (by simp)]
  simp only [exactly] at hlettered ⊢
  rw [hlettered, repeating?_of_places hw' hf' hruns hperiod, pointed?_of_places hw' hf' hne hr]
  simp only
  rw [bind_of_ok (Literal.rational_plain hne hw hf)]
  rfl

theorem digits_point (d : Dialect) (hw : ∀ c ∈ w, d.isDigit c = true) (u : Text) :
    d.digits (w ++ '.' :: u) = .ok (w, '.' :: u) := by
  have hpoint : isAlphanumeric '.' = false := isAlphanumeric_of_isMark (by decide)
  obtain ⟨ht, hd⟩ := span_point (d.isDigit_of_reserved (by decide)) hw u
  rw [digits, ht, hd]
  cases d.system with
  | none => rfl
  | some s => simp only [hpoint, Bool.false_and, Bool.false_eq_true, if_false]

namespace PlainDecimal

theorem text (h : d.PlainDecimal t negative w f rest) :
    t = Expansion.sign negative ++ (w ++ '.' :: (f ++ rest)) := by
  rw [← sign_append_minus t, h.sign]

theorem ne_cons (h : d.PlainDecimal t negative w f rest) {c : Char}
    (hc : c ∈ ['#', ':', '~', '[', '.']) (u : Text) : rest ≠ c :: u := fun hu => h.ends c u hu hc

theorem isPlainDigit (h : d.PlainDecimal t negative w f rest) (hs : d.system = none) :
    (∀ c ∈ w, isPlainDigit c = true) ∧ ∀ c ∈ f, isPlainDigit c = true := by
  have hdigit : ∀ c, d.isDigit c = Text.isPlainDigit c := fun c => by rw [isDigit, hs]
  exact ⟨fun c hc => hdigit c ▸ h.whole c hc, fun c hc => hdigit c ▸ h.places c hc⟩

/-- In decimal digits a plain decimal is the interval of the numbers that are rounded to it. -/
theorem uncertain_of_none (h : d.PlainDecimal t negative w f rest) (hs : d.system = none)
    (places : Nat) : d.uncertain t negative (w ++ '.' :: f) places rest =
      .ok (.interval (Literal.rounded (Literal.signed negative (Numeral.value (w ++ f))) f.length),
        rest) := by
  obtain ⟨hw, hf⟩ := h.isPlainDigit hs
  rw [uncertain, hs]
  simp only
  rw [bind_of_ok (Literal.plainDecimal_eq h.nonempty hw hf negative)]
  rfl

/-- In decimal digits a plain decimal is read as the number that it is written for, unless what
follows is stuck. -/
theorem endpoint_of_none (h : d.PlainDecimal t negative w f rest) (hs : d.system = none)
    (hr : ¬ Stuck rest) :
    d.endpoint t =
      .ok (⟨(Literal.signed negative (Numeral.value (w ++ f)) : Rat) / 10 ^ f.length, false⟩,
        rest) := by
  obtain ⟨hw, hf⟩ := h.isPlainDigit hs
  obtain ⟨exact, system, letters⟩ := d
  cases hs
  have hdecimal : ∀ c u, rest = c :: u → isDecimal c = false := fun c u hc =>
    Bool.eq_false_iff.2 fun hd => hr ⟨c, u, hc, .inr (.inr hd)⟩
  have hruns : digitRuns 0 rest = ([], rest) := by
    cases rest with
    | nil => rfl
    | cons c u =>
      exact digitRuns_of_ne (hdecimal c u rfl) (fun hg => hr ⟨c, u, rfl, .inr (.inl hg)⟩) u
  have hstart : StartsNumber (w ++ '.' :: (f ++ rest)) := by
    refine startsNumber_point (fun c hc => isDecimal_of_plain (hw c hc)) (fun v hv => ?_)
      fun v hv => ?_
    · obtain ⟨c, u, hc, hplain⟩ := Literal.exists_cons_of_plain h.nonempty hf rest
      rw [hv] at hc
      exact ne_of_plain hplain (by decide) (List.cons.inj hc).1.symm
    · rw [(decimals_append hf hdecimal).2] at hv
      exact h.ne_cons (by decide) v hv
  have hunsigned := unsigned_point letters h.nonempty hw hf hdecimal hruns (h.ne_cons (by decide))
  change (exactly letters).endpoint t = _
  rw [h.text, hstart.endpoint, hunsigned]
  simp only [Except.map, Endpoint.signed, Literal.signed]
  cases negative with
  | false => rfl
  | true =>
    rw [if_pos rfl, if_pos rfl, Int.cast_neg, neg_div]
    rfl

/-- In another system nothing else than the digits is taken either. -/
theorem rest_of_system (h : d.PlainDecimal t negative w f rest) {s : NumeralSystem}
    (hs : d.system = some s) {e : Endpoint} (he : d.endpoint t = .ok (e, r)) : r = rest := by
  obtain ⟨x, hx, he⟩ : ∃ x, d.unsigned (w ++ '.' :: (f ++ rest)) = .ok (x, r) ∧
      x.signed negative = e := by
    rw [endpoint_of_no_fraction d fun h0 => (nomatch h0.symm.trans hs), signed_eq, h.sign] at he
    cases hu : d.unsigned (w ++ '.' :: (f ++ rest)) with
    | error g =>
      simp only [hu] at he
      cases he
    | ok x =>
      simp only [hu] at he
      cases he
      exact ⟨x.1, rfl, rfl⟩
  rw [unsigned, if_neg (by simp), hs] at hx
  obtain ⟨y, hy, hx⟩ := bind_eq_ok.1 hx
  have hno : ∀ {c : Char}, d.isDigit c = false → ∀ u, f ++ rest ≠ c :: u := fun hc u hu => by
    cases f with
    | nil => exact h.nonempty rfl
    | cons a f =>
      have ha := h.places a List.mem_cons_self
      rw [(List.cons.inj hu).1, hc] at ha
      cases ha
  rw [pointedIn_point d (d.digits_point h.whole (f ++ rest))
    (hno (d.isDigit_of_reserved (by decide))) (hno (d.isDigit_of_reserved (by decide)))] at hy
  obtain ⟨⟨fraction, u⟩, hf, hy⟩ := bind_eq_ok.1 hy
  cases d.digits_eq _ hf
  rw [(span_append h.places h.stops).2] at hy
  have hperiod : d.periodIn rest = .ok (none, rest) := by
    rw [periodIn]
    · rfl
    · exact h.ne_cons (by decide)
  simp only at hy
  rw [bind_of_ok hperiod] at hy
  obtain ⟨a, -, hy⟩ := bind_eq_ok.1 hy
  cases hy
  cases hx
  rfl

end PlainDecimal

section

variable {y : Number} {u : Text}

/-- An uncertain decimal ends behind its digits. -/
theorem uncertain_rest (hp : d.plain? t = some (negative, literal, places, rest))
    (hu : d.uncertain t negative literal places rest = .ok (y, u)) : u = rest := by
  obtain ⟨w, f, h, -, -⟩ := exists_plainDecimal hp
  rw [uncertain.eq_def] at hu
  split at hu
  · obtain ⟨x, -, hu⟩ := bind_eq_ok.1 hu
    cases hu
    rfl
  · rename_i s hs
    obtain ⟨x, hx, hu⟩ := bind_eq_ok.1 hu
    cases hu
    exact h.rest_of_system hs hx

/-- **The number that an uncertain decimal is written for** lies in its interval and ends where it
does, or what follows is stuck. -/
theorem uncertain_mem (hp : d.plain? t = some (negative, literal, places, rest))
    (hu : d.uncertain t negative literal places rest = .ok (y, u)) {e : Endpoint}
    (he : d.endpoint t = .ok (e, r)) : Stuck rest ∨ r = rest ∧ e.value ∈ y.toInterval := by
  obtain ⟨w, f, h, rfl, rfl⟩ := exists_plainDecimal hp
  cases hs : d.system with
  | none =>
    refine or_iff_not_imp_left.2 fun hr => ?_
    rw [h.uncertain_of_none hs] at hu
    rw [h.endpoint_of_none hs hr] at he
    cases hu
    cases he
    exact ⟨rfl, Literal.mem_rounded _ _⟩
  | some s =>
    rw [uncertain, hs] at hu
    obtain ⟨⟨x, v⟩, hx, hu⟩ := bind_eq_ok.1 hu
    cases he.symm.trans hx
    cases hu
    have hradius : 0 ≤ mkRat 1 (2 * Nat.pow s.base f.length) := by
      rw [Rat.mkRat_eq_div]
      exact div_nonneg (by norm_num) (Nat.cast_nonneg _)
    exact .inr ⟨h.rest_of_system hs he,
      Interval.mem_hull (sub_le_self _ hradius) (le_add_of_nonneg_right hradius)⟩

end

end Dialect

end RatCalc

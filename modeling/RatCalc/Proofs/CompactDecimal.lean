import RatCalc.Interval.Text
import RatCalc.Proofs.CutDecimal
import RatCalc.Proofs.FractionText
import RatCalc.Proofs.PlainDecimal

/-!
# Intervals written with their common digits once

The decimals of the two endpoints of an interval may begin alike. What they share is then written
once, and the further digits stand in a bracket, `1.23[56,67]`; if they share too little, both
decimals are written out, `1.5:2`.

* `Literal.Base.Extends`: a decimal that goes on with digits after a base; `exists_extends`: what
  stands before the last digits of a decimal is a base.
* **`Literal.Base.bracketed_digits`**: a base with the further digits of two decimals is read as the
  interval of the two, after an integer, after a point, and after decimal places.
* `Dialect.valueOf_compact`, `Dialect.valueOf_decimals`: the two forms as expressions.
* `Interval.compactDecimal_cases`: the texts that are written.
* **`Interval.valueOf_compactDecimal`**: they are read back as their interval.
-/

namespace RatCalc

open Text Expansion

/-! ## Digits behind a base -/

namespace Literal

namespace Base

variable {b : Base} {x y t u : Text} {v w : Rat}

/-- A text that is a base with further digits behind it. -/
structure Extends (b : Base) (x t : Text) : Prop where
  nonempty : x ≠ []
  isPlainDigit : ∀ c ∈ x, isPlainDigit c = true
  text : b.text ++ x = t

/-- What is left of a decimal without some of its last digits, if that is more than a sign. -/
theorem exists_of_text_append (hs : 1 < t.length) (h : t ++ x = b.text) :
    ∃ m, m ≠ [] ∧ t = Expansion.sign b.negative ++ m ∧ b.magnitude = m ++ x := by
  have hsign : (Expansion.sign b.negative).length ≤ 1 := by cases b.negative <;> decide
  rcases List.append_eq_append_iff.1 h with ⟨a, ha, -⟩ | ⟨m, rfl, hm⟩
  · have hlength := congrArg List.length ha
    rw [List.length_append] at hlength
    omega
  · refine ⟨m, ?_, rfl, hm⟩
    rintro rfl
    rw [List.append_nil] at hs
    omega

/-- Digits are cut off the end of a decimal: all that is left is whole, or all of the whole part is
left. -/
theorem exists_of_magnitude_append {m : Text} (hxd : ∀ c ∈ x, isPlainDigit c = true)
    (hm : b.magnitude = m ++ x) :
    ∃ p : Base, p.negative = b.negative ∧ p.magnitude = m ∧ (p.whole = m ∨ p.whole = b.whole) := by
  cases hf : b.fraction with
  | none =>
    rw [magnitude_of_none hf] at hm
    exact ⟨⟨b.negative, m, none, fun c hc => b.isDecimal_whole c (hm ▸ List.mem_append_left x hc),
      List.forall_mem_nil _⟩, rfl, rfl, .inl rfl⟩
  | some f =>
    -- the point is no digit, so the digits end behind it
    have hpoint : '.' ∉ x := not_mem_of_plain hxd (by decide)
    rw [magnitude_of_some hf] at hm
    rcases List.append_eq_append_iff.1 hm with ⟨a, rfl, ha⟩ | ⟨a, -, rfl⟩
    · cases a with
      | nil =>
        rw [← show '.' :: f = x from ha] at hpoint
        exact absurd List.mem_cons_self hpoint
      | cons c f' =>
        obtain ⟨rfl, rfl⟩ := List.cons.inj ha
        exact ⟨⟨b.negative, b.whole, some f', b.isDecimal_whole, fun c hc =>
          isDecimal_of_some hf c (List.mem_append_left x hc)⟩, rfl, rfl, .inr rfl⟩
    · exact absurd (List.mem_append_right a List.mem_cons_self) hpoint

/-- **What stands before the last digits of a decimal** is a base, with a digit of the whole part at
least if more than a sign is left. -/
theorem exists_extends (hw : b.whole ≠ []) (hs : 1 < t.length) (hx : x ≠ [])
    (hxd : ∀ c ∈ x, isPlainDigit c = true) (h : t ++ x = b.text) :
    ∃ p : Base, p.whole ≠ [] ∧ p.text = t ∧ p.Extends x b.text := by
  obtain ⟨m, hne, rfl, hm⟩ := exists_of_text_append hs h
  obtain ⟨p, hnegative, hp, hwhole⟩ := exists_of_magnitude_append hxd hm
  have htext : p.text = Expansion.sign b.negative ++ m := by rw [text, hnegative, hp]
  refine ⟨p, ?_, htext, hx, hxd, htext ▸ h⟩
  rcases hwhole with hwhole | hwhole <;> rw [hwhole] <;> assumption

/-! ## Further digits in a bracket -/

theorem Extends.isBlank (h : b.Extends x t) : ∀ c ∈ x, isBlank c = false := fun c hc =>
  isBlank_of_plain (h.isPlainDigit c hc)

theorem Extends.not_mem (h : b.Extends x t) {s : Char} (hs : Text.isPlainDigit s = false) : s ∉ x :=
  not_mem_of_plain h.isPlainDigit hs

theorem pointEndpoint_of_extends {read : Text → Except Failure Number} (h : b.Extends x t)
    (ht : rational t = .ok v) : pointEndpoint read b.text x = .ok (.rational v) := by
  have hhead : x.head? ≠ some '#' := fun hc =>
    h.not_mem (by decide) (List.mem_of_mem_head? hc)
  rw [pointEndpoint, if_neg hhead, if_pos (isDigitsLike_of_plain h.nonempty h.isPlainDigit), h.text,
    ht]
  rfl

theorem isRangeValue_of_extends (h : b.Extends x t) : isRangeValue x = true := by
  have hnone : splitOnce (· == '.') x = none :=
    splitOnce_of_none (beq_false_of_not_mem (h.not_mem (by decide)))
  rw [isRangeValue, body_of_no_break (h.not_mem (by decide)), hnone]
  exact isNumeral_iff.2 ⟨h.nonempty, fun c hc => isDecimal_of_plain (h.isPlainDigit c hc)⟩

theorem isSymmetric_of_extends (h : b.Extends x t) (u : Text) : isSymmetric (x ++ u) = false := by
  obtain ⟨c, r, hc, hd⟩ := exists_cons_of_plain h.nonempty h.isPlainDigit u
  rw [hc, isSymmetric.eq_def]
  split
  · rename_i heq
    exact absurd (List.cons.inj heq).1 (ne_of_plain hd (by decide))
  · rename_i heq
    exact absurd (List.cons.inj heq).1 (ne_of_plain hd (by decide))
  · rfl

theorem split_of_extends {p : Char → Bool} (hx : b.Extends x t) (hy : b.Extends y u)
    (hp : p ',' = true) (hno : ∀ c, Text.isPlainDigit c = true → p c = false) :
    split p (x ++ ',' :: y) = [x, y] :=
  (split_eq_pair_iff hp).2 ⟨⟨fun c hc => hno c (hx.isPlainDigit c hc), rfl⟩,
    fun c hc => hno c (hy.isPlainDigit c hc), rfl⟩

section

variable (hx : b.Extends x t) (hy : b.Extends y u) (ht : rational t = .ok v)
  (hu : rational u = .ok w)
include hx hy ht hu

theorem pointBracket_digits (read : Text → Except Failure Number) :
    pointBracket read b.text (x ++ ',' :: y) = .ok (.hull v w) := by
  have hcomma : ∀ c, Text.isPlainDigit c = true → (c == ',') = false := fun c hc =>
    beq_false_of_ne (ne_of_plain hc (by decide))
  rw [pointBracket, split_of_extends hx hy rfl hcomma]
  simp only
  rw [trim_of_no_blank hx.isBlank, trim_of_no_blank hy.isBlank,
    bind_of_ok (pointEndpoint_of_extends hx ht), bind_of_ok (pointEndpoint_of_extends hy hu)]
  rfl

theorem rangeBracket_digits (hlength : x.length = y.length) (places : Nat) :
    rangeBracket b.text (x ++ ',' :: y) places true = .ok (.hull v w) := by
  have hmark : ∀ c, Text.isPlainDigit c = true → (decide (c = ',' ∨ c = ':')) = false := by
    intro c hc
    rw [decide_eq_false_iff_not, not_or]
    exact ⟨ne_of_plain hc (by decide), ne_of_plain hc (by decide)⟩
  have hwhole : ∀ {z s : Text}, b.Extends z s → z.takeWhile (· != '.') = z := fun hz =>
    List.takeWhile_eq_self_iff.2 fun c hc =>
      bne_iff_ne.2 (ne_of_plain (hz.isPlainDigit c hc) (by decide))
  rw [rangeBracket, Bool.not_true, Bool.and_false, if_neg Bool.false_ne_true]
  simp only [Bool.decide_or] at hmark ⊢
  rw [split_of_extends hx hy rfl hmark]
  simp only
  rw [trim_of_no_blank hx.isBlank, trim_of_no_blank hy.isBlank, isRangeValue_of_extends hx,
    isRangeValue_of_extends hy, hwhole hx, hwhole hy, hlength, bne_self_eq_false, Bool.and_false,
    hx.text, hy.text, bind_of_ok ht, bind_of_ok hu]
  rfl

/-- **Further digits of two decimals** in the bracket of a base are read as the interval of the two:
the digits stand in the whole part, behind the point, or behind other decimal places. -/
theorem bracketed_digits (hw : b.whole ≠ []) (hlength : x.length = y.length) :
    bracketed b.text (x ++ ',' :: y) true = .ok (.hull v w) := by
  have hd : b.digits ≠ [] := List.append_ne_nil_of_left_ne_nil hw _
  rw [bracketed, isSymmetric_of_extends hx, Bool.not_false, Bool.and_true]
  by_cases hpoint : endsInPoint b.text = true
  · rw [if_pos hpoint]
    exact pointBracket_digits hx hy ht hu unbracketed
  have hrange : ((x ++ ',' :: y).any fun c => c = ',' || c = ':') = true :=
    List.any_eq_true.2 ⟨',', List.mem_append_right x List.mem_cons_self, rfl⟩
  have hsign : ((x ++ ',' :: y).any fun c => c = '+' || c = '-') = false := by
    rw [List.any_eq_false]
    intro c hc
    rcases List.mem_append.1 hc with hc | hc
    · have hp := hx.isPlainDigit c hc
      simp [ne_of_plain hp (s := '+') (by decide), ne_of_plain hp (s := '-') (by decide)]
    · rcases List.mem_cons.1 hc with rfl | hc
      · decide
      · have hp := hy.isPlainDigit c hc
        simp [ne_of_plain hp (s := '+') (by decide), ne_of_plain hp (s := '-') (by decide)]
  rw [if_neg hpoint, if_neg (mt missing_iff.1 hd), bind_of_ok (rational_text hd), hrange, hsign]
  exact rangeBracket_digits hx hy ht hu hlength _

end

/-! ## A base with its bracket -/

variable {c : Text}

theorem bracket?_bracket (hc : c ≠ []) (hclose : ']' ∉ c) :
    bracket? (b.bracket c) = some (b.text, c, []) := by
  rw [bracket, bracket?_text, Reading.bracketContents?_append hclose,
    if_neg fun h => hc (List.isEmpty_iff.1 h)]
  rfl

theorem isBlank_of_mem_bracket (hblank : ∀ s ∈ c, isBlank s = false) :
    ∀ s ∈ b.bracket c, isBlank s = false := by
  intro s hs
  rcases List.mem_append.1 hs with hs | hs
  · exact isBlank_of_mem_text s hs
  rcases List.mem_cons.1 hs with rfl | hs
  · decide
  rcases List.mem_append.1 hs with hs | hs
  · exact hblank s hs
  · rw [List.mem_singleton.1 hs]
    decide

end Base

end Literal

/-! ## The two forms as expressions -/

namespace Dialect

open Ratio Reading
open Literal (Base bracketed)

variable (letters : LetterTable) {b p q : Base} {c : Text} {i : Interval}

/-- An interval of more than one number is kept in its kind. -/
theorem demote_interval (hne : i.low ≠ i.high) :
    (Value.plain (.interval i)).demote = .plain (.interval i) := by
  have hpoint : i.isPoint = false := beq_false_of_ne hne
  rw [Value.demote, Value.plain, Number.simplest, hpoint]
  rfl

/-- **A base with a bracket** has its interval as its value, if that is more than one number. -/
theorem valueOf_bracket (hc : c ≠ []) (hclose : ']' ∉ c) (hblank : ∀ s ∈ c, isBlank s = false)
    (hi : bracketed b.text c true = .ok i) (hne : i.low ≠ i.high) :
    Expr.valueOf (exactly letters) (b.bracket c) = .ok (.plain (.interval i)) := by
  have hopen : ∀ u, b.bracket c ≠ '(' :: u := by
    have hno : '(' ∉ b.text := Base.not_mem_text (by decide) (by decide)
    refine append_ne_cons (by decide) (fun u hu => hno ?_) _
    rw [hu]
    exact List.mem_cons_self
  have hread : Reading.bracket (exactly letters) b.text c [] =
      ⟨.simplified (.literal (.plain (.interval i))), some []⟩ := by
    rw [Reading.bracket, hi]
    exact suffixed_nil _ _
  have hfactor := Reads.bracketed hopen (Base.bracket?_bracket hc hclose) hread
  rw [Expr.valueOf_eq_ok_iff, prepare_of_no_blank _ (Base.isBlank_of_mem_bracket hblank)]
  refine ⟨_, hfactor.sum_of_factor (.inl rfl), ?_⟩
  change Except.ok (Value.plain (.interval i)).demote.demote = _
  rw [demote_interval hne, demote_interval hne]

/-- **Further digits of two decimals** behind what they share have the value of their interval. -/
theorem valueOf_compact {x y : Text} (hw : b.whole ≠ []) (hx : b.Extends x (Base.ofRat i.low).text)
    (hy : b.Extends y (Base.ofRat i.high).text) (hlength : x.length = y.length)
    (hlow : Terminates i.low) (hhigh : Terminates i.high) (hne : i.low ≠ i.high) :
    Expr.valueOf (exactly letters) (b.bracket (x ++ ',' :: y)) = .ok (.plain (.interval i)) := by
  have hread : ∀ {a : Rat}, Terminates a → Literal.rational (Base.ofRat a).text = .ok a :=
    fun {a} ha => by rw [Base.rational_text (Base.digits_ofRat_ne_nil a), Base.value_ofRat ha]
  have hbracket := Base.bracketed_digits hx hy (hread hlow) (hread hhigh) hw hlength
  rw [Literal.hull_self] at hbracket
  have hmem : ∀ c ∈ x ++ ',' :: y, isPlainDigit c = true ∨ c = ',' := by
    intro c hc
    rcases List.mem_append.1 hc with hc | hc
    · exact .inl (hx.isPlainDigit c hc)
    · exact (List.mem_cons.1 hc).symm.imp_left (hy.isPlainDigit c)
  have hclose : ']' ∉ x ++ ',' :: y := fun hc =>
    (hmem _ hc).elim (fun hd => absurd hd (by decide)) (by decide)
  have hblank : ∀ c ∈ x ++ ',' :: y, isBlank c = false := fun c hc =>
    (hmem c hc).elim isBlank_of_plain fun h => h ▸ by decide
  have hcne : x ++ ',' :: y ≠ [] := List.append_ne_nil_of_right_ne_nil _ (List.cons_ne_nil _ _)
  exact valueOf_bracket letters hcne hclose hblank hbracket hne

/-- The decimal of a number says its magnitude. -/
theorem saysNumber_ofRat (a : Rat) :
    SaysNumber letters (Base.ofRat a).magnitude
      ⟨mkRat (Numeral.value (Base.ofRat a).digits) (10 ^ (Base.ofRat a).places), false⟩ [] := by
  have hw : ∀ c ∈ (Base.ofRat a).whole, isPlainDigit c = true :=
    Numeral.all_isPlainDigit_ofNat (wholePart a)
  by_cases h : preperiod a.den = 0
  · have hf := Base.fraction_of_zero h
    have hsays := saysNumber_digits letters (Numeral.ofNat_ne_nil _) hw stops_nil nofun nofun nofun
    rw [List.append_nil] at hsays
    rw [Base.magnitude_of_none hf, Base.digits_of_none hf, Base.places, hf, Option.getD_none,
      List.length_nil, pow_zero, Rat.mkRat_one]
    exact hsays
  · have hf := Base.fraction_of_ne_zero h
    have hfd := all_digits a (preperiod a.den)
    have hne := digits_preperiod_ne_nil h
    rw [Base.magnitude_of_some hf, Base.digits_of_some hf, Base.places, hf, Option.getD_some]
    refine ⟨startsNumber_point (Base.ofRat a).isDecimal_whole (fun v hv => ?_) fun v hv => ?_, ?_⟩
    · exact not_mem_of_plain hfd (s := '~') (by decide) (hv ▸ List.mem_cons_self)
    · rw [List.dropWhile_eq_nil_iff.2 fun c hc => isDecimal_of_plain (hfd c hc)] at hv
      cases hv
    · have hunsigned := unsigned_point letters hne hw hfd stops_nil.digit rfl stops_nil.period
      rw [List.append_nil] at hunsigned
      rw [hunsigned, Rat.mkRat_eq_div]
      push_cast
      rfl

theorem isEndpoint_ofRat {a : Rat} (h : Terminates a) :
    (exactly letters).IsEndpoint (Base.ofRat a).text ⟨a, false⟩ := by
  refine ⟨?_, Base.isBlank_of_mem_text⟩
  rw [Base.text, (saysNumber_ofRat letters a).scaledEndpoint (exactly letters).exponentFollows_nil]
  have hvalue := Base.value_ofRat h
  rw [Base.value] at hvalue
  rw [Endpoint.signed, hvalue]

theorem startsPlain_ofRat (a : Rat) : StartsPlain (Base.ofRat a).magnitude := by
  cases hf : (Base.ofRat a).fraction with
  | none =>
    rw [Base.magnitude_of_none hf, ← List.append_nil (Base.ofRat a).whole]
    exact startsPlain_numeral _ []
  | some f =>
    rw [Base.magnitude_of_some hf]
    exact startsPlain_numeral _ _

/-- **Two decimals with a colon between them** have the value of their interval. -/
theorem valueOf_decimals {a b : Rat} (ha : Terminates a) (hb : Terminates b) :
    Expr.valueOf (exactly letters) ((Base.ofRat a).text ++ ':' :: (Base.ofRat b).text) =
      .ok (.kept (.interval (.hull a b))) := by
  obtain ⟨v, hv, hpair, -⟩ :=
    Expr.valueOf_pair (isEndpoint_ofRat letters ha) (isEndpoint_ofRat letters hb)
  rw [hpair (ownsSign_of_startsPlain letters (startsPlain_ofRat a) _)] at hv
  exact hv

end Dialect

namespace Interval

open Ratio
open Literal (Base)

/-! ## What two texts share -/

theorem common_prefix_left (t u : Text) : common t u <+: t := by
  induction t generalizing u with
  | nil => exact List.nil_prefix
  | cons a t ih =>
    cases u with
    | nil => exact List.nil_prefix
    | cons b u =>
      rw [common]
      split_ifs
      · exact List.cons_prefix_cons.2 ⟨rfl, ih u⟩
      · exact List.nil_prefix

theorem common_comm (t u : Text) : common t u = common u t := by
  induction t generalizing u with
  | nil => cases u <;> rfl
  | cons a t ih =>
    cases u with
    | nil => rfl
    | cons b u =>
      rw [common, common]
      by_cases h : a = b
      · rw [if_pos h, if_pos h.symm, ih, h]
      · rw [if_neg h, if_neg (Ne.symm h)]

theorem common_self (t : Text) : common t t = t := by
  induction t with
  | nil => rfl
  | cons a t ih => rw [common, if_pos rfl, ih]

theorem common_append_drop (t u : Text) : common t u ++ t.drop (common t u).length = t :=
  List.prefix_iff_eq_append.1 (common_prefix_left t u)

/-! ## The texts of intervals -/

variable {i : Interval}

/-- **What is written for an interval**: both decimals, or what they share and their further digits,
as many of the one as of the other. -/
theorem compactDecimal_cases (hlow : HasPlaces i.low defaultDigits)
    (hhigh : HasPlaces i.high defaultDigits) :
    i.compactDecimal = (Base.ofRat i.low).text ++ ':' :: (Base.ofRat i.high).text ∨
      ∃ (b : Base) (x y : Text), b.whole ≠ [] ∧ b.Extends x (Base.ofRat i.low).text ∧
        b.Extends y (Base.ofRat i.high).text ∧ x.length = y.length ∧ x ≠ y ∧
        i.compactDecimal = b.bracket (x ++ ',' :: y) := by
  rw [compactDecimal, Base.decimal_eq hlow, Base.decimal_eq hhigh]
  set low := (Base.ofRat i.low).text with hl
  set high := (Base.ofRat i.high).text with hh
  set x := low.drop (common low high).length with hx
  set y := high.drop (common low high).length with hy
  have hxlow : common low high ++ x = low := common_append_drop low high
  have hyhigh : common low high ++ y = high := by
    rw [hy, common_comm]
    exact common_append_drop high low
  split_ifs with h
  · exact .inl rfl
  refine .inr ?_
  rw [Bool.or_eq_true, not_or, Bool.not_eq_true', Bool.not_eq_false, Bool.not_eq_true] at h
  obtain ⟨hshort, hpair⟩ := h
  have hlong : 1 < (common low high).length :=
    not_le.1 (of_decide_eq_false (Bool.or_eq_false_iff.1 hshort).1)
  simp only [Bool.and_eq_true, Bool.not_eq_true', List.isEmpty_eq_false_iff, beq_iff_eq,
    List.all_eq_true] at hpair
  obtain ⟨⟨⟨⟨hxne, hyne⟩, hlength⟩, hxd⟩, hyd⟩ := hpair
  obtain ⟨b, hw, hb, hbx⟩ :=
    Base.exists_extends (Numeral.ofNat_ne_nil _) hlong hxne hxd (hxlow.trans hl)
  refine ⟨b, x, y, hw, hbx, ⟨hyne, hyd, by rw [hb, hyhigh]⟩, hlength, fun hxy => ?_, ?_⟩
  · have heq : low = high :=
      hxlow.symm.trans ((congrArg (common low high ++ ·) hxy).trans hyhigh)
    rw [hx, heq, common_self, List.drop_length] at hxne
    exact hxne rfl
  · rw [Base.bracket, hb]
    simp

/-- **The text with the common digits once reads back** as its interval, in either form. -/
theorem valueOf_compactDecimal (letters : LetterTable) (hlow : HasPlaces i.low defaultDigits)
    (hhigh : HasPlaces i.high defaultDigits) :
    ∃ v, Expr.valueOf (Dialect.exactly letters) i.compactDecimal = .ok v ∧
      v.number = .interval i := by
  rcases compactDecimal_cases hlow hhigh with h | ⟨b, x, y, hw, hx, hy, hlength, hxy, h⟩
  · have hvalue := Dialect.valueOf_decimals letters hlow.terminates hhigh.terminates
    rw [Literal.hull_self, ← h] at hvalue
    exact ⟨_, hvalue, rfl⟩
  · have hne : i.low ≠ i.high := fun heq =>
      hxy (List.append_cancel_left (hx.text.trans (heq ▸ hy.text.symm)))
    rw [h]
    exact ⟨_, Dialect.valueOf_compact letters hw hx hy hlength hlow.terminates hhigh.terminates hne,
      rfl⟩

/-- Digits that differ behind the point, in negative integers, and everywhere. -/
theorem compactDecimal_forms :
    let read := Expr.valueOf (Dialect.exactly .initial)
    let i := hull (12356 / 10000) (12367 / 10000)
    let j := hull (-1278) (-1234)
    let k := hull (-1 / 2) 2
    (i.compactDecimal = "1.23[56,67]".toList ∧ ∃ v, read i.compactDecimal = .ok v ∧
      v.number = .interval i) ∧
    (j.compactDecimal = "-12[78,34]".toList ∧ ∃ v, read j.compactDecimal = .ok v ∧
      v.number = .interval j) ∧
    k.compactDecimal = "-0.5:2".toList ∧ ∃ v, read k.compactDecimal = .ok v ∧
      v.number = .interval k := by
  intro read i j k
  refine ⟨⟨?_, ?_⟩, ⟨?_, ?_⟩, ?_, ?_⟩
  · with_unfolding_all decide
  · exact valueOf_compactDecimal .initial (by with_unfolding_all decide)
      (by with_unfolding_all decide)
  · decide
  · exact valueOf_compactDecimal .initial (by decide) (by decide)
  · with_unfolding_all decide
  · exact valueOf_compactDecimal .initial (by with_unfolding_all decide)
      (by with_unfolding_all decide)

end Interval

end RatCalc

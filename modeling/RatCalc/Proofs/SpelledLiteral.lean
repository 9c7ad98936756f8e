import RatCalc.Proofs.Tokens

/-!
# Literals in the digits of two dialects

* `Same`: two results that fail alike, or find the same and leave the same tokens; `Same.bind`,
  `Same.map`.
* `unsign`, `divisor?`: a minus sign and the slash of a fraction at the start of a row of tokens.
* `unsigned_spell`, `continuedFraction?_spell`, `plain?_spell`: a spelled text has no decimals and
  no continued fractions.
* `same_exponent`, **`same_interval`**: what is found at the start of a row of tokens does not
  depend on the digits that its numbers are written in.
-/

namespace RatCalc

open Text

namespace Dialect

/-! ## Parts of a row of tokens -/

/-- Whether a minus sign begins a row of tokens, and the tokens without it. -/
def unsign : List Token → Bool × List Token
  | .symbol .minus :: ts => (true, ts)
  | ts => (false, ts)

/-- What follows the slash of a fraction, unless the slash is a division. -/
def divisor? : List Token → Option (List Token)
  | .symbol .slash :: .symbol .opening :: _ => none
  | .symbol .slash :: .gap :: _ => none
  | .symbol .slash :: ts => some ts
  | _ => none

variable {d d' : Dialect} {ts us : List Token} {n : Nat}

theorem unsign_suffix (ts : List Token) : (unsign ts).2 <:+ ts := by
  rw [unsign.eq_def]
  split
  · exact List.suffix_cons _ _
  · exact List.suffix_refl ts

theorem divisor?_suffix (h : divisor? ts = some us) : us <:+ ts := by
  rw [divisor?.eq_def] at h
  split at h
  · cases h
  · cases h
  · cases h
    exact List.suffix_cons _ _
  · cases h

theorem minus_spell (hd : d.IsStandard) (ts : List Token) :
    minus (d.spell ts) = ((unsign ts).1, d.spell (unsign ts).2) := by
  rw [unsign.eq_def]
  split
  · rfl
  · rename_i hno
    exact minus_of_ne (spell_ne_cons hd (s := .minus) fun us h => hno us h)

theorem slash?_spell (hd : d.IsStandard) (ts : List Token) :
    slash? (d.spell ts) = (divisor? ts).map d.spell := by
  by_cases h : ∃ us, ts = .symbol .slash :: us
  · obtain ⟨us, rfl⟩ := h
    rcases us with _ | ⟨n | s | _, us⟩
    · rfl
    · exact slash?_numeral hd n (d.spell us)
    · cases s <;> rfl
    · rfl
  · rw [slash?_of_ne (spell_ne_cons hd (s := .slash) (not_exists.1 h)), divisor?.eq_def]
    split
    · exact absurd ⟨_, rfl⟩ h
    · exact absurd ⟨_, rfl⟩ h
    · exact absurd ⟨_, rfl⟩ h
    · rfl

/-! ## No decimals -/

section

variable {w t : Text} (ht : Breaks t)

include ht

theorem lettered?_of_breaks (hw : ∀ c ∈ w, isPlainDigit c = true) (d : Dialect) :
    d.lettered? (w ++ t) = none := by
  by_cases hne : w = []
  · rw [hne, List.nil_append, lettered?.eq_def]
    split
    · exact absurd rfl (ht.ne_cons (by decide) _)
    · rfl
  · exact lettered?_of_digits hne hw ht.stops.letter d

theorem pointedIn_of_breaks (hd : d.IsStandard) (hw : ∀ c ∈ w, d.isDigit c = true)
    (s : NumeralSystem) : d.pointedIn s (w ++ t) = .ok none := by
  rw [pointedIn, bind_of_ok (digits_append_of_breaks hd hw ht)]
  simp only
  split
  · rfl
  · rfl
  · rename_i u hdots _
    obtain ⟨x, rfl⟩ := ht.point u rfl
    exact absurd rfl (hdots x)
  · rfl

/-- Digits and a text that goes on no number are no decimal. -/
theorem unsigned_of_breaks (hd : d.IsStandard) (hw : ∀ c ∈ w, d.isDigit c = true)
    (hne : w ++ t ≠ []) : d.unsigned (w ++ t) = d.fraction (w ++ t) := by
  rw [unsigned, if_neg fun h => hne (List.isEmpty_iff.1 h)]
  cases hs : d.system with
  | none =>
    have hplain : ∀ c ∈ w, isPlainDigit c = true := fun c hc => by
      have := hw c hc
      rwa [isDigit, hs] at this
    simp only
    rw [lettered?_of_breaks ht hplain, repeating?_of_stops hplain ht.stops ht.point,
      pointed?_of_stops hplain ht.stops ht.point]
  | some s =>
    simp only
    rw [bind_of_ok (pointedIn_of_breaks ht hd hw s)]

/-- A point with digits around it begins no plain decimal unless digits follow it. -/
theorem plain?_of_breaks (hd : d.IsStandard) (hw : ∀ c ∈ w, d.isDigit c = true) {u : Text}
    {negative : Bool} (hm : minus u = (negative, w ++ t)) : d.plain? u = none := by
  have hdot : d.isDigit '.' = false := d.isDigit_of_reserved (by decide)
  rw [plain?_eq, hm]
  simp only
  rw [(span_append hw fun c u hc => isDigit_of_breaks hd (ht.head c u hc)).2]
  split
  · rename_i v
    obtain ⟨x, rfl⟩ := ht.point v rfl
    rw [List.takeWhile_cons_of_neg (by simp [hdot])]
    rfl
  · rfl

theorem continuedFraction?_of_breaks (hw : ∀ c ∈ w, isPlainDigit c = true) {u : Text}
    {negative : Bool} (hm : minus u = (negative, w ++ t)) : continuedFraction? u = none := by
  rw [continuedFraction?_eq, hm]
  simp only
  rw [(decimals_append hw ht.stops.digit).2]
  split
  · exact absurd rfl (ht.point_ne (by decide) _)
  · rfl

end

section

variable (hd : d.IsStandard) (hs : Separated ts)

include hd hs

theorem unsigned_spell (hne : ts ≠ []) : d.unsigned (d.spell ts) = d.fraction (d.spell ts) := by
  obtain ⟨w, r, hwr, hw, hr⟩ := exists_spell hd hs
  have hspell := spell_ne_nil hd hne
  rw [hwr] at hspell ⊢
  exact unsigned_of_breaks hr hd hw hspell

theorem plain?_spell : d.plain? (d.spell ts) = none := by
  obtain ⟨w, r, hwr, hw, hr⟩ := exists_spell hd (hs.suffix (unsign_suffix ts))
  exact plain?_of_breaks hr hd hw ((minus_spell hd ts).trans (by rw [hwr]))

theorem continuedFraction?_spell (hnone : d.system = none) :
    continuedFraction? (d.spell ts) = none := by
  obtain ⟨w, r, hwr, hw, hr⟩ := exists_spell hd (hs.suffix (unsign_suffix ts))
  have hplain : ∀ c ∈ w, isPlainDigit c = true := fun c hc => by
    have := hw c hc
    rwa [isDigit, hnone] at this
  exact continuedFraction?_of_breaks hr hplain ((minus_spell hd ts).trans (by rw [hwr]))

end

theorem bracket?_spell (hd : d.IsStandard) (ts : List Token) :
    Literal.bracket? (d.spell ts) = none := by
  refine bracket?_of_not_mem fun h => ?_
  rcases mem_spell hd h with h | h
  · rw [d.isDigit_of_reserved (by decide)] at h
    cases h
  · exact absurd h (by decide)

/-! ## Results in two dialects -/

/-- Two results that fail alike, or that find the same and leave the same tokens. -/
inductive Same (d d' : Dialect) {α : Type} (ts : List Token) :
    Except Failure (α × Text) → Except Failure (α × Text) → Prop where
  | error (f : Failure) : Same d d' ts (.error f) (.error f)
  | ok (a : α) {us : List Token} (h : us <:+ ts) :
      Same d d' ts (.ok (a, d.spell us)) (.ok (a, d'.spell us))

namespace Same

variable {α β : Type} {x x' : Except Failure (α × Text)}

theorem of_suffix (h : Same d d' us x x') (hs : us <:+ ts) : Same d d' ts x x' := by
  cases h with
  | error f => exact .error f
  | ok a h => exact .ok a (h.trans hs)

theorem bind {f f' : α × Text → Except Failure (β × Text)} (h : Same d d' ts x x')
    (hf : ∀ a us, us <:+ ts → Same d d' us (f (a, d.spell us)) (f' (a, d'.spell us))) :
    Same d d' ts (x >>= f) (x' >>= f') := by
  cases h with
  | error e => exact .error e
  | ok a h => exact (hf a _ h).of_suffix h

theorem elim (h : Same d d' ts x x') :
    (∃ f, x = .error f ∧ x' = .error f) ∨
      ∃ a us, us <:+ ts ∧ x = .ok (a, d.spell us) ∧ x' = .ok (a, d'.spell us) := by
  cases h with
  | error f => exact .inl ⟨f, rfl, rfl⟩
  | ok a h => exact .inr ⟨a, _, h, rfl, rfl⟩

theorem map (h : Same d d' ts x x') (f : α → β) :
    Same d d' ts (x.map fun y => (f y.1, y.2)) (x'.map fun y => (f y.1, y.2)) := by
  cases h with
  | error e => exact .error e
  | ok a h => exact .ok (f a) h

end Same

/-- A row of tokens begins with a number, or it does not. -/
theorem numeral_cases (ts : List Token) :
    (∃ n us, ts = .numeral n :: us) ∨ AfterNumeral ts := by
  by_cases h : ∃ n us, ts = .numeral n :: us
  · exact .inl h
  · exact .inr fun n us hts => h ⟨n, us, hts⟩

theorem denominator_spell_numeral (hd : d.IsStandard) (mixed : Bool) (n : Nat)
    (h : AfterNumeral ts) : d.denominator mixed (d.spell (.numeral n :: ts)) =
      if n = 0 then .error (.division .zeroDenominator) else .ok (n, d.spell ts) := by
  rw [denominator, bind_of_ok (digits_spell_numeral hd h)]
  simp only
  rw [if_neg (by simpa using numeral_ne_nil hd n), isPrefixOf_marker_spell hd,
    bind_of_ok (value_numeral hd n)]
  rfl

theorem denominator_spell (hd : d.IsStandard) (mixed : Bool) (h : AfterNumeral ts) :
    d.denominator mixed (d.spell ts) =
      .error (.literal (if mixed then .mixedDenominator else .missingDenominator)) := by
  rw [denominator, bind_of_ok (digits_spell hd h)]
  rfl

theorem mixedFrom_spell_numeral (hd : d.IsStandard) (whole n : Nat) (h : AfterNumeral ts) :
    d.mixedFrom whole (d.spell (.numeral n :: ts)) =
      match divisor? ts with
      | none => .error (.literal .mixedDenominator)
      | some us => (d.denominator true (d.spell us)).map fun x =>
          (⟨mkRat (whole * x.1 + n) x.1, false⟩, x.2) := by
  rw [mixedFrom, bind_of_ok (digits_spell_numeral hd h)]
  simp only
  rw [if_neg (by simpa using numeral_ne_nil hd n), bind_of_ok (value_numeral hd n), slash?_spell hd]
  cases divisor? ts with
  | none => rfl
  | some us =>
    simp only [Option.map_some]
    cases d.denominator true (d.spell us) <;> rfl

theorem mixedFrom_spell (hd : d.IsStandard) (whole : Nat) (h : AfterNumeral ts) :
    d.mixedFrom whole (d.spell ts) = .error (.literal .mixedNumerator) := by
  rw [mixedFrom, bind_of_ok (digits_spell hd h)]
  rfl

theorem fraction_spell_dots (hd : d.IsStandard) (n : Nat) (ts : List Token) :
    d.fraction (d.spell (.numeral n :: .symbol .dots :: ts)) = d.mixedFrom n (d.spell ts) := by
  rw [fraction_eq, bind_of_ok (digits_spell_numeral hd (afterNumeral_symbol .dots ts))]
  simp only
  rw [if_neg (by simpa using numeral_ne_nil hd n), bind_of_ok (value_numeral hd n)]
  rfl

theorem fraction_spell_numeral (hd : d.IsStandard) (n : Nat) (h : AfterNumeral ts)
    (hno : ∀ us, ts ≠ .symbol .dots :: us) :
    d.fraction (d.spell (.numeral n :: ts)) = d.quotientFrom n (d.spell ts) := by
  rw [fraction_eq, bind_of_ok (digits_spell_numeral hd h)]
  simp only
  rw [if_neg (by simpa using numeral_ne_nil hd n), bind_of_ok (value_numeral hd n)]
  split
  · exact absurd (by assumption) (spell_ne_cons hd (s := .dots) hno _)
  · rfl

theorem fraction_spell (hd : d.IsStandard) (h : AfterNumeral ts) :
    d.fraction (d.spell ts) =
      .error (.literal (.unexpectedToken (String.ofList (d.display ((d.spell ts).take 1))))) := by
  rw [fraction_eq, bind_of_ok (digits_spell hd h)]
  rfl

/-- The first character of a text that begins with no number is shown alike. -/
theorem display_take_spell (d d' : Dialect) (h : AfterNumeral ts) :
    d.display ((d.spell ts).take 1) = d'.display ((d'.spell ts).take 1) := by
  rcases ts with _ | ⟨n | s | _, us⟩
  · rfl
  · exact absurd rfl (h n us)
  · cases s <;> rfl
  · rfl

section

variable (hd : d.IsStandard) (hd' : d'.IsStandard) (hs : Separated ts)

include hd hd' hs

theorem same_denominator (mixed : Bool) :
    Same d d' ts (d.denominator mixed (d.spell ts)) (d'.denominator mixed (d'.spell ts)) := by
  rcases numeral_cases ts with ⟨n, us, rfl⟩ | h
  · rw [denominator_spell_numeral hd mixed n hs.afterNumeral,
      denominator_spell_numeral hd' mixed n hs.afterNumeral]
    split_ifs
    · exact .error _
    · exact .ok n (List.suffix_cons _ _)
  · rw [denominator_spell hd mixed h, denominator_spell hd' mixed h]
    exact .error _

theorem same_quotientFrom (whole : Nat) :
    Same d d' ts (d.quotientFrom whole (d.spell ts)) (d'.quotientFrom whole (d'.spell ts)) := by
  rw [quotientFrom, quotientFrom, slash?_spell hd, slash?_spell hd']
  cases h : divisor? ts with
  | none => exact .ok _ (List.suffix_refl ts)
  | some us =>
    have hsuffix := divisor?_suffix h
    refine Same.of_suffix ((same_denominator hd hd' (hs.suffix hsuffix) false).bind ?_) hsuffix
    intro n vs _
    exact .ok _ (List.suffix_refl vs)

theorem same_mixedFrom (whole : Nat) :
    Same d d' ts (d.mixedFrom whole (d.spell ts)) (d'.mixedFrom whole (d'.spell ts)) := by
  rcases numeral_cases ts with ⟨n, us, rfl⟩ | h
  · rw [mixedFrom_spell_numeral hd whole n hs.afterNumeral,
      mixedFrom_spell_numeral hd' whole n hs.afterNumeral]
    cases h : divisor? us with
    | none => exact .error _
    | some vs =>
      have hsuffix : vs <:+ .numeral n :: us :=
        (divisor?_suffix h).trans (List.suffix_cons _ us)
      exact ((same_denominator hd hd' (hs.suffix hsuffix) true).map fun den =>
        (⟨mkRat (whole * den + n) den, false⟩ : Endpoint)).of_suffix hsuffix
  · rw [mixedFrom_spell hd whole h, mixedFrom_spell hd' whole h]
    exact .error _

theorem same_fraction : Same d d' ts (d.fraction (d.spell ts)) (d'.fraction (d'.spell ts)) := by
  rcases numeral_cases ts with ⟨n, us, rfl⟩ | h
  · by_cases h : ∃ vs, us = .symbol .dots :: vs
    · obtain ⟨vs, rfl⟩ := h
      rw [fraction_spell_dots hd, fraction_spell_dots hd']
      exact (same_mixedFrom hd hd' hs.tail.tail n).of_suffix
        ((List.suffix_cons _ vs).trans (List.suffix_cons _ _))
    · have h := not_exists.1 h
      rw [fraction_spell_numeral hd n hs.afterNumeral h,
        fraction_spell_numeral hd' n hs.afterNumeral h]
      exact (same_quotientFrom hd hd' hs.tail n).of_suffix (List.suffix_cons _ us)
  · rw [fraction_spell hd h, fraction_spell hd' h, display_take_spell d d' h]
    exact .error _

theorem same_unsigned : Same d d' ts (d.unsigned (d.spell ts)) (d'.unsigned (d'.spell ts)) := by
  by_cases hne : ts = []
  · rw [hne]
    exact .error _
  · rw [unsigned_spell hd hs hne, unsigned_spell hd' hs hne]
    exact same_fraction hd hd' hs

theorem same_endpoint : Same d d' ts (d.endpoint (d.spell ts)) (d'.endpoint (d'.spell ts)) := by
  rw [endpoint_of_no_fraction d (continuedFraction?_spell hd hs),
    endpoint_of_no_fraction d' (continuedFraction?_spell hd' hs), signed_eq, signed_eq,
    minus_spell hd, minus_spell hd']
  have hsuffix := unsign_suffix ts
  exact ((same_unsigned hd hd' (hs.suffix hsuffix)).map
    (Endpoint.signed · (unsign ts).1)).of_suffix hsuffix

theorem same_scaledEndpoint (beforeColon : Bool) :
    Same d d' ts (d.scaledEndpoint beforeColon (d.spell ts))
      (d'.scaledEndpoint beforeColon (d'.spell ts)) := by
  refine (same_endpoint hd hd' hs).bind fun e us _ => ?_
  simp only
  rw [exponentFollows_of_after? (after?_marker_spell hd us),
    exponentFollows_of_after? (after?_marker_spell hd' us)]
  exact .ok e (List.suffix_refl us)

/-- An exponent is a number with an optional minus sign. -/
theorem same_exponent : Same d d' ts (d.exponent (d.spell ts)) (d'.exponent (d'.spell ts)) := by
  have hsuffix := unsign_suffix ts
  rw [exponent_eq, exponent_eq, minus_spell hd, minus_spell hd']
  simp only
  rcases numeral_cases (unsign ts).2 with ⟨n, us, hus⟩ | h
  · rw [hus] at hsuffix ⊢
    have hafter := (hs.suffix hsuffix).afterNumeral
    rw [bind_of_ok (digits_spell_numeral hd hafter), bind_of_ok (digits_spell_numeral hd' hafter)]
    simp only
    rw [if_neg (by simpa using numeral_ne_nil hd n), if_neg (by simpa using numeral_ne_nil hd' n),
      bind_of_ok (value_numeral hd n), bind_of_ok (value_numeral hd' n)]
    exact .ok _ ((List.suffix_cons _ us).trans hsuffix)
  · rw [bind_of_ok (digits_spell hd h), bind_of_ok (digits_spell hd' h)]
    exact .error _

end

/-- **What a row of tokens begins with does not depend on the digits.** -/
theorem same_interval (hd : d.IsStandard) (hd' : d'.IsStandard) (he : d.exact = d'.exact)
    (hs : Separated ts) : Same d d' ts (d.interval (d.spell ts)) (d'.interval (d'.spell ts)) := by
  rw [interval_eq (.inr (plain?_spell hd hs)), interval_eq (.inr (plain?_spell hd' hs))]
  refine (same_scaledEndpoint hd hd' hs true).bind fun a us hus => ?_
  simp only
  by_cases h : ∃ vs, us = .symbol .colon :: vs
  · obtain ⟨vs, rfl⟩ := h
    have hvs := (hs.suffix hus).tail
    refine ((same_scaledEndpoint hd hd' hvs false).bind fun b ws _ => ?_).of_suffix
      (List.suffix_cons _ vs)
    exact .ok _ (List.suffix_refl ws)
  · have h := not_exists.1 h
    split
    · exact absurd (by assumption) (spell_ne_cons hd (s := .colon) h _)
    split
    · exact absurd (by assumption) (spell_ne_cons hd' (s := .colon) h _)
    · rw [single, single, he]
      exact .ok _ (List.suffix_refl us)

end Dialect

end RatCalc

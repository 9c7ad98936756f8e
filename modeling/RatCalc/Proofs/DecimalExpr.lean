import RatCalc.Proofs.DecimalLiteral
import RatCalc.Proofs.NumberExpr

/-!
# Repeating decimals in expressions

* `Stops`: what may follow a number that is not taken for more of it.
* `repeating?_written`, `unsigned_written`: a decimal with its period is taken as a whole.
* `unsigned_eq_quotientFrom`, `unsigned_digits`: a row of digits is no decimal.
* **`saysNumber_repeatingDecimal`**: the text of a magnitude says the magnitude.
-/

namespace RatCalc

open Text Expansion

namespace Dialect

variable (letters : LetterTable)

/-! ## Decimals as they are written -/

/-- What may follow a row of digits: nothing, or a character that goes on no such row. -/
structure Stops (t : Text) : Prop where
  digit : ∀ c u, t = c :: u → isDecimal c = false
  letter : ∀ c u, t = c :: u → LetterTable.isLetter c = false
  group : ∀ u, t ≠ '\x7b' :: u
  period : ∀ u, t ≠ '#' :: u

theorem stops_cons {c : Char} {u : Text} (hd : isDecimal c = false)
    (hl : LetterTable.isLetter c = false) (hg : c ≠ '\x7b') (hp : c ≠ '#') : Stops (c :: u) where
  digit a v h := by rwa [← (List.cons.inj h).1]
  letter a v h := by rwa [← (List.cons.inj h).1]
  group v h := hg (List.cons.inj h).1
  period v h := hp (List.cons.inj h).1

theorem stops_nil : Stops [] where
  digit _ _ h := nomatch h
  letter _ _ h := nomatch h
  group _ h := nomatch h
  period _ h := nomatch h

theorem stops_dots : Stops dots := stops_cons (by decide) (by decide) (by decide) (by decide)

variable {w f p rest : Text} {useGroups : Bool} {m n : Nat}

theorem digitRuns_of_stops (h : Stops rest) : digitRuns 0 rest = ([], rest) := by
  cases rest with
  | nil => rfl
  | cons c u => exact digitRuns_of_ne (h.digit c u rfl) (fun hc => h.group u (by rw [hc])) u

theorem decimals_append (hw : ∀ c ∈ w, isPlainDigit c = true)
    (hr : ∀ c u, rest = c :: u → isDecimal c = false) :
    (w ++ rest).takeWhile isDecimal = w ∧ (w ++ rest).dropWhile isDecimal = rest :=
  span_append (fun c hc => isDecimal_of_plain (hw c hc)) hr

theorem lettered?_of_digits (hne : w ≠ []) (hw : ∀ c ∈ w, isPlainDigit c = true)
    (hr : ∀ c u, rest = c :: u → LetterTable.isLetter c = false) (d : Dialect) :
    d.lettered? (w ++ rest) = none := by
  have hplain : ∀ {c : Char}, isPlainDigit c = true → LetterTable.isLetter c = false := by
    intro c hc
    obtain ⟨n, hn, rfl⟩ := isPlainDigit_iff.1 hc
    exact (by decide : ∀ n < 10, LetterTable.isLetter (Nat.digitChar n) = false) n hn
  rw [lettered?.eq_def]
  split
  · rename_i c u _ heq
    have hc : LetterTable.isLetter c = false := by
      rcases w with _ | ⟨a, _ | ⟨b, w⟩⟩
      · exact absurd rfl hne
      · exact hr c u (List.cons.inj heq).2
      · have := (List.cons.inj (List.cons.inj heq).2).1
        exact hplain (this ▸ hw b (by simp))
    rw [hc]
    rfl
  · rfl

theorem repeating?_written (useGroups : Bool) (m n : Nat) (hne : w ≠ [])
    (hw : ∀ c ∈ w, isPlainDigit c = true) (hf : ∀ c ∈ f, isPlainDigit c = true)
    (hp : ∀ c ∈ p, isPlainDigit c = true) (hr : digitRuns 0 rest = ([], rest)) :
    repeating? (written w (grouped useGroups m f) (grouped useGroups n p) [] ++ rest) =
      some (written w (grouped useGroups m f) (grouped useGroups n p) [], rest) := by
  have hpoint : ∀ c u, '.' :: (grouped useGroups m f ++ '#' :: (grouped useGroups n p ++ rest)) =
      c :: u → isDecimal c = false := fun c u h => by
    rw [← (List.cons.inj h).1]
    decide
  have hstart := decimals_append hw hpoint
  have hsharp : ∀ v, digitRuns 0 ('#' :: v) = ([], '#' :: v) := fun v => rfl
  have hfixed : fixedPart? (written w (grouped useGroups m f) (grouped useGroups n p) [] ++ rest) =
      some (w ++ '.' :: grouped useGroups m f, '#' :: (grouped useGroups n p ++ rest)) := by
    have ht : written w (grouped useGroups m f) (grouped useGroups n p) [] ++ rest =
        w ++ '.' :: (grouped useGroups m f ++ '#' :: (grouped useGroups n p ++ rest)) := by
      simp only [written, List.append_nil, List.append_assoc, List.cons_append]
    rw [ht, fixedPart?.eq_def, hstart.1, hstart.2]
    cases w with
    | nil => exact absurd rfl hne
    | cons a w =>
      simp only
      rw [digitRuns_grouped _ _ hf, hsharp, List.append_nil]
  rw [repeating?, hfixed]
  simp only
  rw [digitRuns_grouped _ _ hp, hr]
  simp only [written, List.append_nil, List.append_assoc, List.cons_append]

/-- No continued fraction begins where a decimal is written. -/
theorem grouped_ne_tilde (hf : ∀ c ∈ f, isPlainDigit c = true) (v u : Text) :
    grouped useGroups m f ++ '#' :: v ≠ '~' :: u := by
  intro h
  have hg := digitRuns_grouped useGroups m hf ('#' :: v)
  rw [h] at hg
  have h₁ : digitRuns 0 ('~' :: u) = ([], '~' :: u) := rfl
  have h₂ : digitRuns 0 ('#' :: v) = ([], '#' :: v) := rfl
  rw [h₁, h₂, Prod.mk.injEq] at hg
  exact absurd (List.cons.inj hg.2).1 (by decide)

/-! ## Single numbers -/

theorem unsigned_written (useGroups : Bool) (m n : Nat) (hne : w ≠ [])
    (hw : ∀ c ∈ w, isPlainDigit c = true) (hf : ∀ c ∈ f, isPlainDigit c = true)
    (hp : ∀ c ∈ p, isPlainDigit c = true) (hr : Stops rest) :
    (exactly letters).unsigned
        (written w (grouped useGroups m f) (grouped useGroups n p) [] ++ rest) =
      (repeatingValue (written w (grouped useGroups m f) (grouped useGroups n p) [])).map
        fun a => (⟨a, false⟩, rest) := by
  have hl : (exactly letters).lettered?
      (written w (grouped useGroups m f) (grouped useGroups n p) [] ++ rest) = none := by
    rw [written, List.append_assoc]
    refine lettered?_of_digits hne hw (fun c u h => ?_) _
    rw [← (List.cons.inj h).1]
    decide
  have hrep := repeating?_written useGroups m n hne hw hf hp (digitRuns_of_stops hr)
  have hempty : ¬ (written w (grouped useGroups m f) (grouped useGroups n p) [] ++
      rest).isEmpty = true := by
    simp [written]
  rw [unsigned, if_neg hempty]
  simp only [exactly] at hl ⊢
  rw [hl, hrep]
  simp only
  cases repeatingValue _ <;> rfl

section

variable (hw : ∀ c ∈ w, isDecimal c = true) (hr : ∀ c u, rest = c :: u → isDecimal c = false)
  (hpoint : ∀ u, rest = '.' :: u → ∃ v, u = '.' :: v)

include hw hr hpoint

/-- Digits before something that goes on no row of digits have no period. -/
theorem repeating?_of_digits (hruns : digitRuns 0 rest = ([], rest))
    (hperiod : ∀ u, rest ≠ '#' :: u) : repeating? (w ++ rest) = none := by
  have hdrop := (span_append hw hr).2
  rw [repeating?]
  split
  · rename_i v hv
    rcases fixedPart?_cases hv with ⟨u, hu, hru⟩ | ⟨-, -, hru⟩
    · rw [hdrop] at hu
      obtain ⟨x, rfl⟩ := hpoint u hu
      cases hru
    · rw [hdrop, hruns] at hru
      exact absurd hru.symm (hperiod v)
  · rfl

/-- They have no places either. -/
theorem pointed?_of_digits : pointed? (w ++ rest) = none := by
  rw [pointed?, (span_append hw hr).2]
  split
  · rename_i u
    obtain ⟨x, rfl⟩ := hpoint u rfl
    rfl
  · rfl

end

section

variable (hw : ∀ c ∈ w, isPlainDigit c = true) (hr : Stops rest)
  (hpoint : ∀ u, rest = '.' :: u → ∃ v, u = '.' :: v)

include hw hr hpoint

theorem repeating?_of_stops : repeating? (w ++ rest) = none :=
  repeating?_of_digits (fun c hc => isDecimal_of_plain (hw c hc)) hr.digit hpoint
    (digitRuns_of_stops hr) hr.period

theorem pointed?_of_stops : pointed? (w ++ rest) = none :=
  pointed?_of_digits (fun c hc => isDecimal_of_plain (hw c hc)) hr.digit hpoint

end

/-- Digits before something that goes on no number are no decimal. -/
theorem unsigned_eq_fraction (hne : w ≠ []) (hw : ∀ c ∈ w, isPlainDigit c = true) (hr : Stops rest)
    (hpoint : ∀ u, rest ≠ '.' :: u) :
    (exactly letters).unsigned (w ++ rest) = (exactly letters).fraction (w ++ rest) := by
  have hl : (exactly letters).lettered? (w ++ rest) = none :=
    lettered?_of_digits hne hw hr.letter _
  have hdots : ∀ u, rest = '.' :: u → ∃ v, u = '.' :: v := fun u hu => absurd hu (hpoint u)
  have hempty : ¬ (w ++ rest).isEmpty = true := by simp [hne]
  rw [unsigned, if_neg hempty]
  simp only [exactly] at hl ⊢
  rw [hl, repeating?_of_stops hw hr hdots, pointed?_of_stops hw hr hdots]

/-- A row of plain digits is taken as a whole. -/
theorem digits_append (hw : ∀ c ∈ w, isPlainDigit c = true)
    (hr : ∀ c u, rest = c :: u → isPlainDigit c = false) :
    (exactly letters).digits (w ++ rest) = .ok (w, rest) := by
  obtain ⟨ht, hd⟩ := span_append hw hr
  change Except.ok ((w ++ rest).takeWhile isPlainDigit, (w ++ rest).dropWhile isPlainDigit) = _
  rw [ht, hd]

theorem isPlainDigit_of_not_isDecimal {c : Char} (h : isDecimal c = false) :
    isPlainDigit c = false := by
  rw [← Bool.not_eq_true] at h ⊢
  exact fun h' => h (isDecimal_of_plain h')

/-- Digits that no point follows are an integer, or the numerator of a fraction. -/
theorem unsigned_eq_quotientFrom (hne : w ≠ []) (hw : ∀ c ∈ w, isPlainDigit c = true)
    (hr : Stops rest) (hpoint : ∀ u, rest ≠ '.' :: u) :
    (exactly letters).unsigned (w ++ rest) =
      (exactly letters).quotientFrom (Numeral.value w) rest := by
  have hdigits := digits_append letters hw fun c u h =>
    isPlainDigit_of_not_isDecimal (hr.digit c u h)
  have hv : (exactly letters).value w = .ok (Numeral.value w) := rfl
  rw [unsigned_eq_fraction letters hne hw hr hpoint, fraction_eq, bind_of_ok hdigits]
  simp only
  rw [if_neg (by simpa using hne), bind_of_ok hv]
  split
  · exact absurd rfl (hpoint _)
  · rfl

theorem unsigned_digits (hne : w ≠ []) (hw : ∀ c ∈ w, isPlainDigit c = true) (hr : Stops rest)
    (hpoint : ∀ u, rest ≠ '.' :: u) (hover : ∀ u, rest ≠ '/' :: u) :
    (exactly letters).unsigned (w ++ rest) = .ok (⟨(Numeral.value w : Nat), false⟩, rest) := by
  rw [unsigned_eq_quotientFrom letters hne hw hr hpoint, quotientFrom, slash?_of_ne hover]
  rfl

theorem startsNumber_written (useGroups : Bool) (m n : Nat) (hw : ∀ c ∈ w, isPlainDigit c = true)
    (hf : ∀ c ∈ f, isPlainDigit c = true) (hp : ∀ c ∈ p, isPlainDigit c = true) (hb : '[' ∉ rest) :
    StartsNumber (written w (grouped useGroups m f) (grouped useGroups n p) [] ++ rest) := by
  have hg : ∀ {k : Nat} {t : Text}, (∀ c ∈ t, isPlainDigit c = true) →
      '[' ∉ grouped useGroups k t := fun ht hm => by
    rcases Ratio.mem_marks_of_grouped useGroups ht hm with h | h
    · exact absurd h (by decide)
    · exact absurd h (by decide)
  have ht : written w (grouped useGroups m f) (grouped useGroups n p) [] ++ rest =
      w ++ '.' :: (grouped useGroups m f ++ '#' :: (grouped useGroups n p ++ rest)) := by
    simp only [written, List.append_nil, List.append_assoc, List.cons_append]
  have hno : '[' ∉ grouped useGroups m f ++ '#' :: (grouped useGroups n p ++ rest) := by
    simp only [List.mem_cons, List.mem_append, not_or]
    exact ⟨hg hf, by decide, hg hp, hb⟩
  rw [ht]
  refine startsNumber_point (fun c hc => isDecimal_of_plain (hw c hc))
    (fun v => grouped_ne_tilde hf _ v) fun v hv => hno ?_
  exact (List.dropWhile_suffix isDecimal).subset (hv ▸ List.mem_cons_self)

/-- A decimal with its period says the value that it has on its own. -/
theorem saysNumber_written (hne : w ≠ []) (hw : ∀ c ∈ w, isPlainDigit c = true)
    (hf : ∀ c ∈ f, isPlainDigit c = true) (hp : ∀ c ∈ p, isPlainDigit c = true)
    (hr : Stops rest) (hb : '[' ∉ rest) {b : Rat}
    (hv : repeatingValue (written w (grouped useGroups m f) (grouped useGroups n p) []) = .ok b) :
    SaysNumber letters (written w (grouped useGroups m f) (grouped useGroups n p) [] ++ rest)
      ⟨b, false⟩ rest where
  toStartsNumber := startsNumber_written useGroups m n hw hf hp hb
  unsigned := by
    rw [unsigned_written letters useGroups m n hne hw hf hp hr, hv]
    rfl

theorem saysNumber_digits (hne : w ≠ []) (hw : ∀ c ∈ w, isPlainDigit c = true) (hr : Stops rest)
    (hpoint : ∀ u, rest ≠ '.' :: u) (hover : ∀ u, rest ≠ '/' :: u)
    (hopen : ∀ u, rest ≠ '[' :: u) :
    SaysNumber letters (w ++ rest) ⟨(Numeral.value w : Nat), false⟩ rest where
  toStartsNumber := startsNumber_digits hne (fun c hc => isDecimal_of_plain (hw c hc)) hr.digit
    hpoint hopen
  unsigned := unsigned_digits letters hne hw hr hpoint hover

section

open Ratio

variable {a : Rat} {limit : Nat} {maxDigits : Option Nat}

theorem repeatingValue_of_error {t : Text} {f : LiteralFault}
    (h : Literal.decimal t = .error (.literal f)) :
    repeatingValue t = .error (.literal (.repeatingDecimal f.message)) := by
  rw [repeatingValue, h]
  rfl

theorem repeatingValue_eq {t : Text} (h : Literal.decimal t = .ok (.rational a)) :
    repeatingValue t = .ok a := by
  rw [repeatingValue, h]
  rfl

/-- **The text of a magnitude says the magnitude** unless it is shortened. -/
theorem saysNumber_repeatingDecimal (ha : 0 ≤ a)
    (h : ¬ Terminates a → ¬ Shortened a limit maxDigits) (hr : Stops rest)
    (hpoint : ∀ u, rest ≠ '.' :: u) (hover : ∀ u, rest ≠ '/' :: u) (hb : '[' ∉ rest) :
    SaysNumber letters ((repeatingDecimal a useGroups limit maxDigits).1 ++ rest) ⟨a, false⟩
      rest := by
  have hw := Numeral.ofNat_ne_nil (wholePart a)
  have hwd := Numeral.all_isPlainDigit_ofNat (wholePart a)
  have hv : repeatingValue (repeatingDecimal a useGroups limit maxDigits).1 = .ok a :=
    repeatingValue_eq (Literal.decimal_repeatingDecimal h)
  by_cases h1 : a.den = 1
  · have hn : ((Numeral.value (Numeral.ofNat (wholePart a)) : Nat) : Rat) = a := by
      conv_rhs => rw [← Literal.magnitude_of_nonneg ha]
      rw [Numeral.value_ofNat, wholePart, h1, Nat.div_one, Nat.cast_one, div_one]
    rw [repeating_of_den_one h1, Literal.head_of_nonneg ha]
    have := saysNumber_digits letters hw hwd hr hpoint hover fun u hu =>
      hb (hu ▸ List.mem_cons_self)
    rwa [hn] at this
  · by_cases ht : Terminates a
    · have hz : grouped useGroups 6 ['0'] = ['0'] := by cases useGroups <;> rfl
      rw [repeating_of_terminates ht h1, Literal.head_of_nonneg ha] at hv ⊢
      rw [← hz] at hv ⊢
      exact saysNumber_written letters hw hwd (all_digits a _) (forall_of_all (by decide)) hr hb hv
    · rcases writtenDigits_spec a limit maxDigits with ⟨hp, -, -⟩ | ⟨-, hs⟩
      · rw [repeating_of_not_terminates ht, if_pos hp, Literal.head_of_nonneg ha] at hv ⊢
        exact saysNumber_written letters hw hwd (all_digits a _) (all_periodDigits a _) hr hb hv
      · exact absurd hs (h ht)

end

end Dialect

end RatCalc

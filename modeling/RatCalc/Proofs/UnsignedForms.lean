import RatCalc.Proofs.FractionText
import RatCalc.Proofs.NumberForms
import RatCalc.Proofs.Suffixes

/-!
# Unsigned literals before suffixes

* `Runs`: digits and groups of digits; `Runs.digitRuns_append`: they are read as one row.
* `UnsignedLiteral`: integers, fractions, mixed numbers, decimals, decimals with a period, and
  integers after a letter.
* `MarkApart`: the mark of an exponent with a minus sign is no digit of the literal.
* `startsNumber`: with a suffix behind it a literal begins with a number.
* **`ends_of_unsigned`**: what is read of it as a number ends where the suffix begins, or where no
  expression goes on.
-/

namespace RatCalc

open Text

/-- Digits and groups of digits. -/
inductive Text.Runs : Text → Prop where
  | nil : Runs []
  | digit {c r} : isDecimal c = true → Runs r → Runs (c :: r)
  | group {ds es r} : ds ≠ [] ∧ (∀ c ∈ ds, isDecimal c = true) →
      es ≠ [] ∧ (∀ c ∈ es, isDecimal c = true) → Runs r →
      Runs ('\x7b' :: (ds ++ '~' :: (es ++ '\x7d' :: r)))

/-- The literals for numbers without a sign; blanks are no part of them. -/
inductive UnsignedLiteral (letters : LetterTable) : Text → Prop where
  | integer {w} : IsRow w → UnsignedLiteral letters w
  | fraction {w v} : IsRow w → IsRow v → UnsignedLiteral letters (w ++ '/' :: v)
  | mixed {w n v} : IsRow w → IsRow n → IsRow v →
      UnsignedLiteral letters (w ++ '.' :: '.' :: (n ++ '/' :: v))
  | decimal {w f} : (∀ c ∈ w, isDecimal c = true) → f ≠ [] → (∀ c ∈ f, isDecimal c = true) →
      UnsignedLiteral letters (w ++ '.' :: f)
  | repeating {w f p} : (∀ c ∈ w, isDecimal c = true) → Runs f → (w = [] → f ≠ []) → Runs p →
      UnsignedLiteral letters (w ++ '.' :: (f ++ '#' :: p))
  | repeatingWhole {c f p} : isDecimal c = true → Runs f → Runs p →
      UnsignedLiteral letters (c :: (f ++ '#' :: p))
  | lettered {c n w} : LetterTable.isLetter c = true → letters.system? [c] = some n → w ≠ [] →
      (∀ a ∈ w, n.isDigit a = true ∧ isBlank a = false) → UnsignedLiteral letters ('0' :: c :: w)

/-- Behind the digits of a system that has the digit `E` an exponent has no minus sign. -/
def MarkApart (letters : LetterTable) (t : Text) (s : Suffix) : Prop :=
  ∀ c u n, t = '0' :: c :: u → LetterTable.isLetter c = true → letters.system? [c] = some n →
    n.isDigit 'E' = true → ∀ x ∈ s.exponent, x.negative = false

namespace Text.Runs

variable {r : Text}

theorem mem (h : Runs r) : ∀ c ∈ r, isDecimal c = true ∨ c ∈ ['\x7b', '~', '\x7d'] := by
  induction h with
  | nil => exact fun _ hc => nomatch hc
  | digit hc _ ih =>
    rintro c (_ | ⟨_, h⟩)
    · exact .inl hc
    · exact ih c h
  | group hds hes _ ih =>
    intro c h
    simp only [List.mem_cons, List.mem_append] at h
    rcases h with rfl | h | rfl | h | rfl | h
    · exact .inr (by decide)
    · exact .inl (hds.2 c h)
    · exact .inr (by decide)
    · exact .inl (hes.2 c h)
    · exact .inr (by decide)
    · exact ih c h

theorem digitRuns_append (h : Runs r) (t : Text) :
    Dialect.digitRuns 0 (r ++ t) = (r ++ (Dialect.digitRuns 0 t).1, (Dialect.digitRuns 0 t).2) := by
  induction h with
  | nil => rfl
  | digit hc _ ih => rw [List.cons_append, Dialect.digitRuns_decimal hc, ih]; rfl
  | group hds hes _ ih =>
    simp only [List.cons_append, List.append_assoc]
    rw [Dialect.digitRuns_digits hds hes, ih]

end Text.Runs

namespace Dialect

variable {letters : LetterTable} {s : Suffix} {w f p t r : Text}

/-! ## Rows before suffixes -/

theorem digitRuns_suffix (s : Suffix) : digitRuns 0 s.text = ([], s.text) := by
  cases h : s.text with
  | nil => rfl
  | cons c u =>
    exact digitRuns_of_ne (s.isDecimal_of_text c u h)
      (fun hc => s.text_ne_cons (by decide) u (hc ▸ h)) u

theorem isPlainDigit_of_text (c : Char) (u : Text) (h : s.text = c :: u) :
    isPlainDigit c = false :=
  isPlainDigit_of_not_isDecimal (s.isDecimal_of_text c u h)

/-- After a mark the digits of a denominator are read, and nothing else. -/
theorem rest_of_denominator {mixed : Bool} {k : Nat}
    (h : (exactly letters).denominator mixed t = .ok (k, r)) : r = t.dropWhile isPlainDigit := by
  rw [denominator_exactly] at h
  split_ifs at h
  cases h
  rfl

theorem slash?_row (hw : IsRow w) (t : Text) : slash? ('/' :: (w ++ t)) = some (w ++ t) := by
  obtain ⟨c, u, hc, hplain⟩ := Literal.exists_cons_of_plain hw.ne_nil hw.plain t
  rw [hc]
  have hopen : c ≠ '(' := ne_of_plain hplain (by decide)
  have hmark : c ≠ divisionMark := ne_of_plain hplain (by decide)
  rw [slash?]
  · rw [if_neg hmark]
  · exact hopen

theorem rest_of_fraction {v : Text} {x : Endpoint} (hw : IsRow w) (hv : IsRow v)
    (h : (exactly letters).unsigned (w ++ '/' :: (v ++ s.text)) = .ok (x, r)) : r = s.text := by
  rw [unsigned_slash letters hw.ne_nil hw.plain (slash?_row hv s.text)] at h
  obtain ⟨y, hy, hyr⟩ := Number.exists_of_map_eq_ok h
  have hr := rest_of_denominator hy
  rw [(span_append hv.plain isPlainDigit_of_text).2] at hr
  exact (Prod.mk.inj hyr).2.symm.trans hr

theorem rest_of_mixed {n v : Text} {x : Endpoint} (hw : IsRow w) (hn : IsRow n) (hv : IsRow v)
    (h : (exactly letters).unsigned (w ++ '.' :: '.' :: (n ++ '/' :: (v ++ s.text))) =
      .ok (x, r)) : r = s.text := by
  have hslash : ∀ c u, '/' :: (v ++ s.text) = c :: u → isPlainDigit c = false := fun c u hc => by
    rw [← (List.cons.inj hc).1]
    decide
  obtain ⟨htake, hdrop⟩ := span_append hn.plain hslash
  rw [unsigned_eq_mixedFrom letters hw.ne_nil hw.plain, mixedFrom_exactly, htake, hdrop,
    if_neg fun h => hn.ne_nil (List.isEmpty_iff.1 h), slash?_row hv s.text] at h
  obtain ⟨y, hy, h⟩ := bind_eq_ok.1 h
  have hr := rest_of_denominator hy
  rw [(span_append hv.plain isPlainDigit_of_text).2] at hr
  cases h
  exact hr

/-! ## Decimals before suffixes -/

theorem Pointed.lettered? (h : Pointed t) (d : Dialect) : d.lettered? t = none := by
  obtain ⟨w, c, u, rfl, hw, hc⟩ := h.mark
  have hletter : ∀ {a : Char}, isDecimal a = true ∨ a ∈ ['.', '#', '\x7b'] →
      LetterTable.isLetter a = false := by
    rintro a (ha | ha)
    · refine Bool.eq_false_iff.2 fun hl => ?_
      rw [isDecimal_of_letter hl] at ha
      cases ha
    · exact forall_of_all (P := fun c => LetterTable.isLetter c = false) (by decide) a ha
  rw [Dialect.lettered?.eq_def]
  split
  · rename_i a v _ heq
    have ha : isDecimal a = true ∨ a ∈ ['.', '#', '\x7b'] := by
      rcases w with _ | ⟨b, _ | ⟨b', w⟩⟩
      · rw [(List.cons.inj heq).1] at hc
        exact absurd hc (by decide)
      · exact .inr ((List.cons.inj (List.cons.inj heq).2).1 ▸ hc)
      · exact .inl ((List.cons.inj (List.cons.inj heq).2).1 ▸ hw b' (by simp))
    rw [hletter ha]
    rfl
  · rfl

theorem unsigned_exactly (hne : t ≠ []) :
    (exactly letters).unsigned t =
      match (exactly letters).lettered? t, repeating? t, pointed? t with
      | some (a, rest), _, _ => .ok (⟨a, false⟩, rest)
      | none, some (literal, rest), _ => do return (⟨← repeatingValue literal, false⟩, rest)
      | none, none, some (literal, rest) => do return (⟨← Literal.rational literal, false⟩, rest)
      | none, none, none => (exactly letters).fraction t := by
  rw [unsigned, if_neg fun h => hne (List.isEmpty_iff.1 h)]
  rfl

theorem pointed_decimal (hw : ∀ c ∈ w, isDecimal c = true) (hne : f ≠ [])
    (hf : ∀ c ∈ f, isDecimal c = true) : Pointed (w ++ '.' :: (f ++ s.text)) := by
  refine pointed_of_point hw (fun v hv => ?_) fun v hv => ?_
  · obtain ⟨c, u, rfl⟩ := List.exists_cons_of_ne_nil hne
    have hc := hf c List.mem_cons_self
    rw [(List.cons.inj hv).1] at hc
    exact absurd hc (by decide)
  · rw [(span_append hf s.isDecimal_of_text).2] at hv
    exact s.text_ne_cons (by decide) v hv

theorem rest_of_decimal {x : Endpoint} (hw : ∀ c ∈ w, isDecimal c = true) (hne : f ≠ [])
    (hf : ∀ c ∈ f, isDecimal c = true)
    (h : (exactly letters).unsigned (w ++ '.' :: (f ++ s.text)) = .ok (x, r)) : r = s.text := by
  have hrepeating := repeating?_of_places hw hf (digitRuns_suffix s) (s.text_ne_cons (by decide))
  have hpointed := pointed?_of_places hw hf hne s.isDecimal_of_text
  rw [unsigned_exactly (by simp), (pointed_decimal hw hne hf).lettered?, hrepeating, hpointed] at h
  obtain ⟨y, -, h⟩ := bind_eq_ok.1 h
  cases h
  rfl

/-- A period is read to its end. -/
theorem repeating?_of_fixedPart? {fixed : Text} (hp : Runs p)
    (h : fixedPart? t = some (fixed, '#' :: (p ++ s.text))) :
    repeating? t = some (fixed ++ '#' :: p, s.text) := by
  rw [repeating?, h]
  simp only
  rw [hp.digitRuns_append, digitRuns_suffix, List.append_nil]

theorem digitRuns_sharp (u : Text) : digitRuns 0 ('#' :: u) = ([], '#' :: u) :=
  digitRuns_of_ne (by decide) (by decide) u

theorem repeating?_point (hw : ∀ c ∈ w, isDecimal c = true) (hf : Runs f) (hwf : w = [] → f ≠ [])
    (hp : Runs p) : repeating? (w ++ '.' :: (f ++ '#' :: (p ++ s.text))) =
      some (w ++ '.' :: f ++ '#' :: p, s.text) := by
  obtain ⟨htake, hdrop⟩ := span_point (p := isDecimal) (by decide) hw (f ++ '#' :: (p ++ s.text))
  have hruns : digitRuns 0 (f ++ '#' :: (p ++ s.text)) = (f, '#' :: (p ++ s.text)) := by
    rw [hf.digitRuns_append, digitRuns_sharp, List.append_nil]
  refine repeating?_of_fixedPart? hp ?_
  rw [fixedPart?.eq_def, htake, hdrop]
  cases w with
  | nil =>
    simp only [hruns]
    rw [if_neg fun h => hwf rfl (List.isEmpty_iff.1 h)]
    rfl
  | cons c w =>
    simp only [hruns]

theorem repeating?_whole {c : Char} (hc : isDecimal c = true) (hf : Runs f) (hp : Runs p) :
    ∃ x, repeating? (c :: (f ++ '#' :: (p ++ s.text))) = some (x, s.text) := by
  have hruns : (digitRuns 0 ((f ++ '#' :: (p ++ s.text)).dropWhile isDecimal)).2 =
      '#' :: (p ++ s.text) := by
    rw [digitRuns_dropWhile, hf.digitRuns_append, digitRuns_sharp]
  obtain ⟨a, u, hdrop, ha⟩ := head_of_digitRuns hruns
  have hpoint : a ≠ '.' := by
    rintro rfl
    exact absurd ha (by decide)
  rw [hdrop] at hruns
  have hfixed : fixedPart? (c :: (f ++ '#' :: (p ++ s.text))) =
      some (c :: (f ++ '#' :: (p ++ s.text)).takeWhile isDecimal ++ (digitRuns 0 (a :: u)).1,
        '#' :: (p ++ s.text)) := by
    rw [fixedPart?.eq_def, List.takeWhile_cons_of_pos hc, List.dropWhile_cons_of_pos hc, hdrop]
    split
    · rename_i hnil _
      cases hnil
    · rename_i hnil _
      cases hnil
    · rename_i hu _
      exact absurd (List.cons.inj hu).1 hpoint
    · rw [hruns]
  exact ⟨_, repeating?_of_fixedPart? hp hfixed⟩

theorem pointed_repeating {x : Text} (h : repeating? t = some (x, r)) : Pointed t :=
  pointed_of_repeating (by rw [h]; rfl)

theorem rest_of_repeating {x : Text} {y : Endpoint} {u : Text} (h : repeating? t = some (x, r))
    (hy : (exactly letters).unsigned t = .ok (y, u)) : u = r := by
  have hne : t ≠ [] := fun h0 => by
    rw [h0] at h
    cases h
  rw [unsigned_exactly hne, (pointed_repeating h).lettered?, h] at hy
  obtain ⟨z, -, hy⟩ := bind_eq_ok.1 hy
  cases hy
  rfl

/-! ## Integers before suffixes -/

/-- Digits of a system that are taken off a literal with its suffix leave what no expression goes on
with, or a suffix: the mark of an exponent may be one of the digits. -/
theorem ends_of_digits {n : NumeralSystem}
    (h : n.isDigit 'E' = true → ∀ x ∈ s.exponent, x.negative = false)
    (hw : ∀ c ∈ w, n.isDigit c = true) : Ends ((w ++ s.text).dropWhile n.isDigit) := by
  rw [List.dropWhile_append_of_pos hw, Suffix.text]
  cases hx : s.exponent with
  | none => exact s.ends_dropWhile n (List.forall_mem_nil _)
  | some x =>
    by_cases hE : n.isDigit 'E' = true
    · have hsign : x.text = 'E' :: x.digits := by
        rw [Exponent.text, h hE x hx]
        rfl
      simp only
      rw [hsign, List.cons_append, List.dropWhile_cons_of_pos hE]
      exact s.ends_dropWhile n (s.isRow_exponent x hx).plain
    · refine .inr ⟨s, ?_⟩
      simp only
      rw [Exponent.text, List.cons_append, List.dropWhile_cons_of_neg hE, Suffix.text, hx]
      rfl

theorem exists_of_lettered? {a : Rat} (h : (exactly letters).lettered? t = some (a, r)) :
    ∃ c u n, t = '0' :: c :: u ∧ LetterTable.isLetter c = true ∧
      letters.system? [c] = some n ∧ u.takeWhile n.isDigit ≠ [] ∧ r = u.dropWhile n.isDigit := by
  rw [lettered?.eq_def] at h
  split at h
  · rename_i c u _
    split_ifs at h with hc
    obtain ⟨n, hn, h⟩ := Option.bind_eq_some_iff.1 h
    simp only at h
    split at h
    · split_ifs at h with hne
      cases h
      exact ⟨c, u, n, rfl, hc, hn, fun h0 => hne (List.isEmpty_iff.2 h0), rfl⟩
    · cases h
  · cases h

theorem isLetter_of_plain {c : Char} (h : isPlainDigit c = true) :
    LetterTable.isLetter c = false := by
  refine Bool.eq_false_iff.2 fun hl => ?_
  rw [isPlainDigit_of_not_isDecimal (isDecimal_of_letter hl)] at h
  cases h

/-- A letter after a single zero is the mark of an exponent. -/
theorem exists_of_mark {c : Char} {u : Text} (hw : IsRow w) (h : w ++ s.text = '0' :: c :: u)
    (hc : LetterTable.isLetter c = true) :
    ∃ x ∈ s.exponent, u = Expansion.sign x.negative ++ x.digits ++ s.tail := by
  have htext : s.text = c :: u := by
    rcases w with _ | ⟨a, _ | ⟨b, w⟩⟩
    · exact absurd rfl hw.ne_nil
    · exact (List.cons.inj h).2
    · have hb := isLetter_of_plain (hw.plain b (by simp))
      rw [(List.cons.inj (List.cons.inj h).2).1, hc] at hb
      cases hb
  rw [Suffix.text] at htext
  split at htext
  · rename_i x hx
    exact ⟨x, hx, (List.cons.inj htext).2.symm⟩
  · have hmark := s.head_tail htext
    rw [forall_of_all (P := fun c => LetterTable.isLetter c = false) (by decide) c hmark] at hc
    cases hc

theorem ends_of_integer {x : Endpoint} (hw : IsRow w)
    (h : (exactly letters).unsigned (w ++ s.text) = .ok (x, r)) : Ends r := by
  have hdecimal : ∀ c ∈ w, isDecimal c = true := fun c hc => isDecimal_of_plain (hw.plain c hc)
  rw [unsigned_exactly (List.append_ne_nil_of_left_ne_nil hw.ne_nil _)] at h
  cases hl : (exactly letters).lettered? (w ++ s.text) with
  | some y =>
    obtain ⟨a, rest⟩ := y
    rw [hl] at h
    cases h
    obtain ⟨c, u, n, ht, hc, -, hne, rfl⟩ := exists_of_lettered? hl
    -- the letter is the mark of an exponent, and its digits are taken for those of a system
    obtain ⟨x, hx, rfl⟩ := exists_of_mark hw ht hc
    cases hsign : x.negative with
    | true =>
      rw [hsign] at hne
      refine absurd (List.takeWhile_cons_of_neg ?_) hne
      rw [n.isDigit_of_reserved (by decide)]
      decide
    | false => exact s.ends_dropWhile n (s.isRow_exponent x hx).plain
  | none =>
    have hpoint : ∀ u, s.text = '.' :: u → ∃ v, u = '.' :: v := fun u hu =>
      absurd hu (s.text_ne_cons (by decide) u)
    have hrepeating := repeating?_of_digits hdecimal s.isDecimal_of_text hpoint
      (digitRuns_suffix s) (s.text_ne_cons (by decide))
    have hpointed := pointed?_of_digits hdecimal s.isDecimal_of_text hpoint
    rw [hl, hrepeating, hpointed] at h
    obtain ⟨htake, hdrop⟩ := span_append hw.plain (isPlainDigit_of_text (s := s))
    simp only at h
    rw [fraction_exactly, htake, hdrop, if_neg fun h => hw.ne_nil (List.isEmpty_iff.1 h)] at h
    split at h
    · rename_i hu
      exact absurd hu (s.text_ne_cons (by decide) _)
    · rw [quotientFrom, slash?_of_ne (s.text_ne_cons (by decide))] at h
      cases h
      exact .inr ⟨s, rfl⟩

/-! ## Integers after a letter -/

theorem natValue_of_digits {n : NumeralSystem} (hw : ∀ c ∈ w, n.isDigit c = true) :
    ∃ k, n.natValue w = .ok k :=
  exists_value (d := ⟨true, some n, .initial⟩) hw

theorem lettered?_suffix {c : Char} {n : NumeralSystem} (hc : LetterTable.isLetter c = true)
    (hn : letters.system? [c] = some n) (hne : w ≠ []) (hw : ∀ a ∈ w, n.isDigit a = true) :
    ∃ a, (exactly letters).lettered? ('0' :: c :: (w ++ s.text)) =
      some (a, (w ++ s.text).dropWhile n.isDigit) := by
  obtain ⟨k, hk⟩ := natValue_of_digits
    (List.all_eq_true.1 (List.all_takeWhile (p := n.isDigit) (l := w ++ s.text)))
  have hdigits : (w ++ s.text).takeWhile n.isDigit ≠ [] := by
    rw [List.takeWhile_append_of_pos hw]
    exact List.append_ne_nil_of_left_ne_nil hne _
  refine ⟨k, ?_⟩
  rw [lettered?.eq_def]
  simp only [exactly]
  rw [if_pos hc, hn, Option.bind_some, hk]
  simp only
  rw [if_neg fun h => hdigits (List.isEmpty_iff.1 h)]

end Dialect

/-! ## All forms -/

namespace UnsignedLiteral

open Dialect

variable {letters : LetterTable} {t r : Text} {s : Suffix}

/-- A literal holds no blanks, and no colon. -/
theorem mem (h : UnsignedLiteral letters t) : ∀ c ∈ t, isBlank c = false ∧ c ≠ ':' := by
  have hdecimal : ∀ c, isDecimal c = true → isBlank c = false ∧ c ≠ ':' := fun c hc =>
    ⟨isBlank_of_isDecimal hc, fun h => absurd (h ▸ hc) (by decide)⟩
  have hrow : ∀ {w : Text}, IsRow w → ∀ c ∈ w, isBlank c = false ∧ c ≠ ':' := fun hw c hc =>
    hdecimal c (isDecimal_of_plain (hw.plain c hc))
  have hmarks : ∀ c ∈ ['.', '/', '#', '0', '\x7b', '~', '\x7d'], isBlank c = false ∧ c ≠ ':' :=
    forall_of_all (P := fun c => isBlank c = false ∧ c ≠ ':') (by decide)
  have hruns : ∀ {w : Text}, Runs w → ∀ c ∈ w, isBlank c = false ∧ c ≠ ':' := fun hw c hc =>
    (hw.mem c hc).elim (hdecimal c) fun hc =>
      hmarks c (List.mem_append_right ['.', '/', '#', '0'] hc)
  cases h with
  | integer hw => exact hrow hw
  | fraction hw hv =>
    simp only [List.mem_append, List.mem_cons]
    rintro c (hc | rfl | hc)
    exacts [hrow hw c hc, hmarks _ (by decide), hrow hv c hc]
  | mixed hw hn hv =>
    simp only [List.mem_append, List.mem_cons]
    rintro c (hc | rfl | rfl | hc | rfl | hc)
    exacts [hrow hw c hc, hmarks _ (by decide), hmarks _ (by decide), hrow hn c hc,
      hmarks _ (by decide), hrow hv c hc]
  | decimal hw _ hf =>
    simp only [List.mem_append, List.mem_cons]
    rintro c (hc | rfl | hc)
    exacts [hdecimal c (hw c hc), hmarks _ (by decide), hdecimal c (hf c hc)]
  | repeating hw hf _ hp =>
    simp only [List.mem_append, List.mem_cons]
    rintro c (hc | rfl | hc | rfl | hc)
    exacts [hdecimal c (hw c hc), hmarks _ (by decide), hruns hf c hc, hmarks _ (by decide),
      hruns hp c hc]
  | repeatingWhole hd hf hp =>
    simp only [List.mem_append, List.mem_cons]
    rintro c (rfl | hc | rfl | hc)
    exacts [hdecimal _ hd, hruns hf c hc, hmarks _ (by decide), hruns hp c hc]
  | @lettered a n w ha _ _ hw =>
    simp only [List.mem_cons]
    rintro c (rfl | rfl | hc)
    · exact hmarks _ (by decide)
    · exact forall_letter (P := fun c => isBlank c = false ∧ c ≠ ':') (by decide) ha
    · refine ⟨(hw c hc).2, fun h => ?_⟩
      have := (hw c hc).1
      rw [h, n.isDigit_of_reserved (by decide)] at this
      cases this

/-- With a suffix behind it a literal begins with a number. -/
theorem startsNumber (h : UnsignedLiteral letters t) (s : Suffix) : StartsNumber (t ++ s.text) := by
  have hrow : ∀ {w v : Text}, IsRow w → (∀ c u, v = c :: u → isDecimal c = false) →
      (∀ u, v ≠ '.' :: u) → (∀ u, v ≠ '[' :: u) → StartsNumber (w ++ v) := fun hw =>
    startsNumber_digits hw.ne_nil fun c hc => isDecimal_of_plain (hw.plain c hc)
  cases h with
  | integer hw =>
    exact hrow hw s.isDecimal_of_text (s.text_ne_cons (by decide)) (s.text_ne_cons (by decide))
  | @fraction w v hw hv =>
    rw [List.append_assoc, List.cons_append]
    refine hrow hw (fun c u hc => ?_) (fun u hu => ?_) fun u hu => ?_
    · rw [← (List.cons.inj hc).1]
      decide
    · exact absurd (List.cons.inj hu).1 (by decide)
    · exact absurd (List.cons.inj hu).1 (by decide)
  | @mixed w n v hw hn hv =>
    rw [List.append_assoc, List.cons_append]
    refine startsNumber_point (fun c hc => isDecimal_of_plain (hw.plain c hc)) (fun v hv => ?_)
      fun v hv => ?_
    · exact absurd (List.cons.inj hv).1 (by decide)
    · exact absurd (List.cons.inj hv).1 (by decide)
  | decimal hw hne hf =>
    rw [List.append_assoc, List.cons_append]
    exact (pointed_decimal hw hne hf).toStartsNumber
  | repeating hw hf hwf hp =>
    simp only [List.append_assoc, List.cons_append]
    exact (pointed_repeating (repeating?_point hw hf hwf hp)).toStartsNumber
  | repeatingWhole hc hf hp =>
    obtain ⟨x, hx⟩ := repeating?_whole (s := s) hc hf hp
    simp only [List.append_assoc, List.cons_append]
    exact (pointed_repeating hx).toStartsNumber
  | @lettered c n w hc hn hne hw =>
    refine startsNumber_digits (w := ['0']) (v := c :: (w ++ s.text)) (by decide)
      (forall_of_all (by decide)) (fun a v ha => ?_) (fun v hv => ?_) fun v hv => ?_
    · rw [← (List.cons.inj ha).1]
      exact isDecimal_of_letter hc
    · rw [(List.cons.inj hv).1] at hc
      exact absurd hc (by decide)
    · rw [(List.cons.inj hv).1] at hc
      exact absurd hc (by decide)

/-- **What is read of a literal as a number** ends where the suffix begins, or where no expression
goes on. -/
theorem ends_of_unsigned (h : UnsignedLiteral letters t) (hmark : MarkApart letters t s)
    {x : Endpoint} (hx : (exactly letters).unsigned (t ++ s.text) = .ok (x, r)) : Ends r := by
  have hsuffix : r = s.text → Ends r := fun hr => .inr ⟨s, hr⟩
  cases h with
  | integer hw => exact ends_of_integer hw hx
  | fraction hw hv =>
    simp only [List.append_assoc, List.cons_append] at hx
    exact hsuffix (rest_of_fraction hw hv hx)
  | mixed hw hn hv =>
    simp only [List.append_assoc, List.cons_append] at hx
    exact hsuffix (rest_of_mixed hw hn hv hx)
  | decimal hw hne hf =>
    simp only [List.append_assoc, List.cons_append] at hx
    exact hsuffix (rest_of_decimal hw hne hf hx)
  | repeating hw hf hwf hp =>
    simp only [List.append_assoc, List.cons_append] at hx
    exact hsuffix (rest_of_repeating (repeating?_point hw hf hwf hp) hx)
  | repeatingWhole hc hf hp =>
    obtain ⟨y, hy⟩ := repeating?_whole (s := s) hc hf hp
    simp only [List.append_assoc, List.cons_append] at hx
    exact hsuffix (rest_of_repeating hy hx)
  | @lettered c n w hc hn hne hw =>
    have hdigits : ∀ a ∈ w, n.isDigit a = true := fun a ha => (hw a ha).1
    obtain ⟨a, ha⟩ := lettered?_suffix (s := s) hc hn hne hdigits
    simp only [List.cons_append] at hx
    rw [unsigned_exactly (List.cons_ne_nil _ _), ha] at hx
    cases hx
    exact ends_of_digits (hmark c w n rfl hc hn) hdigits

end UnsignedLiteral

end RatCalc

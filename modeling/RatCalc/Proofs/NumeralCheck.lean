import RatCalc.Proofs.CanonicalNumeral

/-!
# Checking numerals before they are read

A numeral can be checked (`isSignedNumeral`) and it can be read (`valueOf`); each of the two takes
the sign off and goes over the digits by itself.

* `digits_or_foreign`: a text is a row of digits, or has a first character that is none.
* `natValue_of_foreign`: that character is reported, whatever follows it.
* `isSignedNumeral_eq`, `valueOf_eq`: both of them by the text without its sign.
* **`valueOf_succeeds_iff`**: what has a value is what passes the check, and a minus sign alone.
-/

namespace RatCalc.NumeralSystem

open Text

variable {s : NumeralSystem} {c : Char} {t : Text}

/-- What is reported of a character that is no digit. -/
def foreign (s : NumeralSystem) (c : Char) : Failure :=
  .base (.unknownDigit (String.singleton c) s.name s.base)

/-- A character that is no digit stands at a place of a text, and only digits before it. -/
def FirstForeign (s : NumeralSystem) (c : Char) (t : Text) : Prop :=
  ∃ u w, t = u ++ c :: w ∧ (∀ a ∈ u, s.isDigit a = true) ∧ s.isDigit c = false

/-! ## Rows of digits -/

theorem digits_or_foreign (s : NumeralSystem) (t : Text) :
    (∀ c ∈ t, s.isDigit c = true) ∨ ∃ c, s.FirstForeign c t := by
  cases hrest : t.dropWhile s.isDigit with
  | nil => exact .inl (List.dropWhile_eq_nil_iff.1 hrest)
  | cons c w =>
    refine .inr ⟨c, t.takeWhile s.isDigit, w, ?_, List.all_eq_true.1 List.all_takeWhile,
      head_of_dropWhile hrest⟩
    rw [← hrest, List.takeWhile_append_dropWhile]

theorem FirstForeign.not_forall (h : s.FirstForeign c t) : ¬ ∀ a ∈ t, s.isDigit a = true := by
  obtain ⟨u, w, rfl, -, hc⟩ := h
  intro hall
  rw [hall c (List.mem_append_right u List.mem_cons_self)] at hc
  cases hc

theorem charValue_of_foreign (hc : s.isDigit c = false) : s.charValue c = .error (s.foreign c) := by
  have hfind : s.digits.findIdx? (· == String.singleton c) = none := by
    rw [List.findIdx?_eq_none_iff]
    intro a ha
    rw [isDigit, ← Bool.not_eq_true, List.contains_iff_mem] at hc
    exact beq_eq_false_iff_ne.2 fun h => hc (h ▸ ha)
  rw [charValue, digitValue, hfind]
  rfl

/-- **The first character that is no digit is reported.** -/
theorem natValue_of_foreign (h : s.FirstForeign c t) : s.natValue t = .error (s.foreign c) := by
  obtain ⟨u, w, rfl, hu, hc⟩ := h
  obtain ⟨n, -, hn, -⟩ := exists_natValue hu
  rw [natValue] at hn ⊢
  rw [List.foldlM_append, bind_of_ok hn, List.foldlM_cons, charValue_of_foreign hc]
  rfl

/-! ## The sign -/

theorem isSignedNumeral_eq (s : NumeralSystem) (t : Text) :
    s.isSignedNumeral t = s.isNumeral (minus t).2 := by
  rcases minus_cases t with ⟨u, rfl, h⟩ | ⟨hno, h⟩
  · rw [h]
    rfl
  · rw [h, isSignedNumeral]
    exact fun u hu => hno u hu

theorem valueOf_eq (hne : t ≠ []) :
    s.valueOf t = (s.natValue (minus t).2).map (Literal.signed (minus t).1) := by
  rcases minus_cases t with ⟨u, rfl, h⟩ | ⟨hno, h⟩
  · rw [h, valueOf]
    cases s.natValue u <;> rfl
  · rw [h, valueOf.eq_def]
    split
    · exact absurd rfl hne
    · exact absurd rfl (hno _)
    · cases s.natValue t <;> rfl

/-- A text without its sign is empty if it was, or if it was a minus sign alone. -/
theorem minus_eq_nil_iff : (minus t).2 = [] ↔ t = [] ∨ t = ['-'] := by
  rcases minus_cases t with ⟨u, rfl, h⟩ | ⟨hno, h⟩
  · simp [h]
  · rw [h, or_iff_left (hno [])]

/-! ## Checking and reading -/

theorem exists_valueOf_of_digits (hne : t ≠ []) (ht : ∀ c ∈ (minus t).2, s.isDigit c = true) :
    ∃ v, s.valueOf t = .ok v := by
  obtain ⟨n, -, hn, -⟩ := exists_natValue ht
  exact ⟨Literal.signed (minus t).1 n, by rw [valueOf_eq hne, hn]; rfl⟩

theorem valueOf_of_foreign (h : s.FirstForeign c (minus t).2) :
    s.valueOf t = .error (s.foreign c) := by
  have hne : t ≠ [] := by
    rintro rfl
    exact h.not_forall (List.forall_mem_nil _)
  rw [valueOf_eq hne, natValue_of_foreign h]
  rfl

/-- The texts with a value are those of digits after the sign, no digit at all being enough. -/
theorem exists_valueOf_iff :
    (∃ v, s.valueOf t = .ok v) ↔ t ≠ [] ∧ ∀ c ∈ (minus t).2, s.isDigit c = true := by
  refine ⟨fun ⟨v, h⟩ => ⟨?_, ?_⟩, fun ⟨hne, ht⟩ => exists_valueOf_of_digits hne ht⟩
  · rintro rfl
    cases h
  · refine (digits_or_foreign s _).resolve_right fun ⟨c, hc⟩ => ?_
    cases h.symm.trans (valueOf_of_foreign hc)

/-- The texts without a value. -/
theorem valueOf_eq_error_iff (f : Failure) : s.valueOf t = .error f ↔
    t = [] ∧ f = .base .emptyNumeral ∨ ∃ c, s.FirstForeign c (minus t).2 ∧ f = s.foreign c := by
  constructor
  · intro h
    by_cases hne : t = []
    · subst hne
      exact .inl ⟨rfl, (Except.error.inj h).symm⟩
    · rcases digits_or_foreign s (minus t).2 with ht | ⟨c, hc⟩
      · obtain ⟨v, hv⟩ := exists_valueOf_of_digits hne ht
        cases h.symm.trans hv
      · exact .inr ⟨c, hc, Except.error.inj (h.symm.trans (valueOf_of_foreign hc))⟩
  · rintro (⟨rfl, rfl⟩ | ⟨c, hc, rfl⟩)
    · rfl
    · exact valueOf_of_foreign hc

/-- **What has a value is what passes the check, and a minus sign alone**: it is read as the empty
row of digits with a sign, though the check wants a digit. Every other text without a value is
empty, or its first character after the sign that is no digit is reported. -/
theorem valueOf_succeeds_iff (s : NumeralSystem) (t : Text) :
    ((∃ v, s.valueOf t = .ok v) ↔ s.isSignedNumeral t = true ∨ t = ['-']) ∧
    (s.isSignedNumeral ['-'] = false ∧ s.valueOf ['-'] = .ok 0) ∧
    ∀ f, s.valueOf t = .error f ↔
      t = [] ∧ f = .base .emptyNumeral ∨
        ∃ c, s.FirstForeign c (minus t).2 ∧ f = s.foreign c := by
  refine ⟨?_, ⟨rfl, rfl⟩, valueOf_eq_error_iff⟩
  rw [exists_valueOf_iff, isSignedNumeral_eq, isNumeral_iff, ne_eq, ne_eq, minus_eq_nil_iff, not_or]
  constructor
  · rintro ⟨hne, ht⟩
    by_cases hminus : t = ['-']
    · exact .inr hminus
    · exact .inl ⟨⟨hne, hminus⟩, ht⟩
  · rintro (⟨⟨hne, -⟩, ht⟩ | rfl)
    · exact ⟨hne, ht⟩
    · exact ⟨List.cons_ne_nil _ _, List.forall_mem_nil _⟩

end RatCalc.NumeralSystem

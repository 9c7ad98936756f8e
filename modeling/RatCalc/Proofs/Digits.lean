import Mathlib.Data.List.Induction
import Mathlib.Tactic.IntervalCases
import Mathlib.Tactic.Ring
import RatCalc.NumeralSystem.Letters
import RatCalc.Text.Alphanumeric

/-!
# Rows of digits

Numerals are written with the ten plain digits, and read in digits of all scripts.

* `isPlainDigit_iff`: the plain digits are the ones that numbers are written with; they are decimal
  digits (`isDecimal_of_plain`) and no signs (`ne_of_plain`).
* `isBlank_of_isDigitLike`: digits of any kind are no blanks.
* `IsMark`: characters below 128 that are neither letters nor digits; they are not alphanumeric in
  the wider sense either (`isAlphanumeric_of_isMark`).
* **`value_append`**: the value of two rows in a row; **`readInt?_of_isDecimal`**: a row of digits
  reads as its value.
-/

namespace RatCalc

namespace Text

/-- What holds of the characters of a text one after the other. -/
theorem forall_of_all {t : Text} {P : Char → Prop} [DecidablePred P]
    (h : t.all (fun c => decide (P c)) = true) : ∀ c ∈ t, P c :=
  fun c hc => of_decide_eq_true (List.all_eq_true.1 h c hc)

theorem isPlainDigit_iff {c : Char} : isPlainDigit c = true ↔ ∃ n < 10, c = Nat.digitChar n := by
  constructor
  · intro h
    simp only [isPlainDigit, Bool.and_eq_true, decide_eq_true_eq] at h
    have hl : 48 ≤ c.toNat := h.1
    have hu : c.toNat ≤ 57 := h.2
    refine ⟨c.toNat - 48, by omega, ?_⟩
    rw [← Char.ofNat_toNat c]
    generalize c.toNat = k at hl hu ⊢
    interval_cases k <;> rfl
  · rintro ⟨n, hn, rfl⟩
    interval_cases n <;> rfl

theorem isDecimal_of_plain {c : Char} (h : isPlainDigit c = true) : isDecimal c = true := by
  obtain ⟨n, hn, rfl⟩ := isPlainDigit_iff.1 h
  exact isDecimal_digitChar hn

/-- Digits of any kind are no blanks. -/
theorem isBlank_of_isDigitLike {c : Char} (h : isDigitLike c = true) : isBlank c = false := by
  -- none of the eleven characters from the start of a range of blanks is a digit
  have hcodes : ∀ r ∈ blanks, r.2 - r.1 < 11 ∧ ∀ k < 11, r.1 + k ≤ r.2 →
      (digitZeros.all fun z => !(z ≤ r.1 + k && r.1 + k < z + 10)) = true ∧
        (loneDigits.all fun l => !(l.1 ≤ r.1 + k && r.1 + k ≤ l.2)) = true := by decide
  by_contra hblank
  rw [Bool.not_eq_false, isBlank, List.any_eq_true] at hblank
  obtain ⟨r, hr, hc⟩ := hblank
  rw [Bool.and_eq_true, decide_eq_true_eq, decide_eq_true_eq] at hc
  obtain ⟨hlen, hno⟩ := hcodes r hr
  obtain ⟨hz, hl⟩ := hno (c.toNat - r.1) (by omega) (by omega)
  rw [show r.1 + (c.toNat - r.1) = c.toNat by omega] at hz hl
  rw [isDigitLike, Bool.or_eq_true] at h
  rcases h with h | h
  · rw [isDecimal, digitValue?, Option.isSome_map, List.find?_isSome] at h
    obtain ⟨z, hmem, hz'⟩ := h
    simpa [hz'] using List.all_eq_true.1 hz z hmem
  · obtain ⟨l, hmem, hl'⟩ := List.any_eq_true.1 h
    simpa [hl'] using List.all_eq_true.1 hl l hmem

theorem isDigitLike_of_isDecimal {c : Char} (h : isDecimal c = true) : isDigitLike c = true := by
  rw [isDigitLike, h, Bool.true_or]

theorem isBlank_of_isDecimal {c : Char} (h : isDecimal c = true) : isBlank c = false :=
  isBlank_of_isDigitLike (isDigitLike_of_isDecimal h)

theorem isBlank_of_plain {c : Char} (h : isPlainDigit c = true) : isBlank c = false :=
  isBlank_of_isDecimal (isDecimal_of_plain h)

/-- A character below 128 that is neither a letter nor a digit. -/
def IsMark (c : Char) : Prop :=
  c.toNat < 128 ∧ isPlainDigit c = false ∧ LetterTable.isLetter c = false

instance (c : Char) : Decidable (IsMark c) :=
  inferInstanceAs (Decidable (_ ∧ _))

theorem isAlphanumeric_of_isMark {c : Char} (h : IsMark c) : isAlphanumeric c = false := by
  have hranges : ∀ r ∈ alphanumerics, 48 ≤ r.1 ∧ r.2 ≤ 57 ∨ 65 ≤ r.1 ∧ r.2 ≤ 90 ∨
      97 ≤ r.1 ∧ r.2 ≤ 122 ∨ 128 ≤ r.1 := by decide +kernel
  obtain ⟨hlt, hdigit, hletter⟩ := h
  simp only [isPlainDigit, LetterTable.isLetter, Bool.or_eq_false_iff, Bool.and_eq_false_iff,
    decide_eq_false_iff_not] at hdigit hletter
  have hdigit : ¬ 48 ≤ c.toNat ∨ ¬ c.toNat ≤ 57 := hdigit
  have hletter : (¬ 97 ≤ c.toNat ∨ ¬ c.toNat ≤ 122) ∧ (¬ 65 ≤ c.toNat ∨ ¬ c.toNat ≤ 90) := hletter
  rw [isAlphanumeric, List.any_eq_false]
  intro r hr hmem
  have := hranges r hr
  simp only [Bool.and_eq_true, decide_eq_true_eq] at hmem
  omega

/-- A character that is no plain digit is not among plain digits. -/
theorem ne_of_plain {c s : Char} (h : isPlainDigit c = true) (hs : isPlainDigit s = false) :
    c ≠ s := by
  rintro rfl
  rw [h] at hs
  exact absurd hs (by decide)

/-- Plain digits hold no other character. -/
theorem not_mem_of_plain {t : Text} (h : ∀ c ∈ t, isPlainDigit c = true) {s : Char}
    (hs : isPlainDigit s = false) : s ∉ t := fun hm => ne_of_plain (h s hm) hs rfl

/-- A character that is no digit is not among digits. -/
theorem ne_of_isDecimal {c s : Char} (h : isDecimal c = true) (hs : isDecimal s = false) :
    c ≠ s := fun hc => by
  rw [hc, hs] at h
  cases h

theorem not_mem_of_isDecimal {t : Text} (h : ∀ c ∈ t, isDecimal c = true) {s : Char}
    (hs : isDecimal s = false) : s ∉ t := fun hm => ne_of_isDecimal (h s hm) hs rfl

/-- Trimming leaves a text alone that has no blanks. -/
theorem trim_of_no_blank {t : Text} (h : ∀ c ∈ t, isBlank c = false) : trim t = t := by
  have start : ∀ {u : Text}, (∀ c ∈ u, isBlank c = false) → trimStart u = u := by
    intro u hu
    cases u with
    | nil => rfl
    | cons c u => simp [trimStart, hu c List.mem_cons_self]
  have hr : ∀ c ∈ t.reverse, isBlank c = false := fun c hc => h c (List.mem_reverse.1 hc)
  rw [trim, start h, start hr, List.reverse_reverse]

end Text

namespace Numeral

open Text

theorem value_append (s t : Text) : value (s ++ t) = value s * 10 ^ t.length + value t := by
  induction t using List.reverseRecOn with
  | nil => simp [value]
  | append_singleton t c ih =>
    rw [← List.append_assoc, value_append_digit, ih, value_append_digit, List.length_append,
      List.length_singleton, pow_succ]
    ring

theorem value_cons (c : Char) (t : Text) :
    value (c :: t) = (digitValue? c).getD 0 * 10 ^ t.length + value t := by
  have h := value_append [c] t
  simpa [value] using h

theorem all_isPlainDigit_ofNat (n : Nat) : ∀ c ∈ ofNat n, isPlainDigit c = true := by
  induction n using Nat.strongRecOn with
  | ind n ih =>
    intro c hc
    by_cases h : n < 10
    · rw [ofNat_of_lt h, List.mem_singleton] at hc
      exact isPlainDigit_iff.2 ⟨n, h, hc⟩
    · rw [ofNat_of_ge (by omega), List.mem_append, List.mem_singleton] at hc
      rcases hc with hc | hc
      · exact ih (n / 10) (by omega) c hc
      · exact isPlainDigit_iff.2 ⟨n % 10, by omega, hc⟩

/-- A row of digits of any kind is read without regard to blanks and signs. -/
theorem readInt?_of_isDigitLike {t : Text} (h : ∀ c ∈ t, isDigitLike c = true) :
    readInt? t = (readNat? t).map fun n => (n : Int) := by
  rw [readInt?, trim_of_no_blank fun c hc => isBlank_of_isDigitLike (h c hc)]
  -- a sign is no digit
  have hsign : ∀ s ∈ ['-', '+'], ∀ u, t ≠ s :: u := by
    rintro s hs u rfl
    exact absurd (h s List.mem_cons_self)
      (forall_of_all (P := fun s => ¬ isDigitLike s = true) (by decide) s hs)
  split
  · exact absurd rfl (hsign _ (by decide) _)
  · exact absurd rfl (hsign _ (by decide) _)
  · rfl

/-- A row of digits reads as its value. -/
theorem readInt?_of_isDecimal {t : Text} (hne : t ≠ []) (h : ∀ c ∈ t, isDecimal c = true) :
    readInt? t = some (value t : Int) := by
  have hd : readNat? t = some (value t) := by
    simp [readNat?, isNumeral, List.all_eq_true.2 h, hne]
  rw [readInt?_of_isDigitLike fun c hc => isDigitLike_of_isDecimal (h c hc), hd]
  rfl

theorem readInt?_of_plain {t : Text} (hne : t ≠ []) (h : ∀ c ∈ t, isPlainDigit c = true) :
    readInt? t = some (value t : Int) :=
  readInt?_of_isDecimal hne fun c hc => isDecimal_of_plain (h c hc)

end Numeral

end RatCalc

import RatCalc.Proofs.Precedence

/-!
# Numerals of standard systems

* `NumeralSystem.HasCharDigits`: every digit is a single character.
* `charValue_eq_ok_iff`: the value of a digit is its place in the list; `exists_digit`: the character
  of a value has that value.
* `natText_cases`: the last digit of a numeral, and the numeral before it.
* **`natValue_natText`**: the numeral of a number has its value.
* `Dialect.numeral`: a number in the digits of expressions; **`value_numeral`**: its value there.
-/

namespace RatCalc

open Text

namespace NumeralSystem

variable {s : NumeralSystem} {base n v : Nat} {c : Char} {t : Text}

/-! ## Digits and places -/

/-- Every digit is a single character. -/
def HasCharDigits (s : NumeralSystem) : Prop := ∀ d ∈ s.digits, ∃ c, d = String.singleton c

theorem hasCharDigits_ofBase (base : Nat) (h : 2 ≤ base) (name : String) :
    (ofBase base h name).HasCharDigits := by
  intro d hd
  obtain ⟨c, -, rfl⟩ := List.mem_map.1 hd
  exact ⟨c, rfl⟩

/-- The value of a digit is its place. -/
theorem charValue_eq_ok_iff : s.charValue c = .ok v ↔ s.digits[v]? = some (String.singleton c) := by
  rw [charValue, digitValue]
  constructor
  · intro h
    split at h
    · rename_i k hk
      cases h
      obtain ⟨hlt, heq, -⟩ := List.findIdx?_eq_some_iff_getElem.1 hk
      rw [List.getElem?_eq_getElem hlt, eq_of_beq heq]
    · cases h
  · intro h
    obtain ⟨hlt, heq⟩ := List.getElem?_eq_some_iff.1 h
    have hfind : s.digits.findIdx? (· == String.singleton c) = some v := by
      refine List.findIdx?_eq_some_iff_getElem.2 ⟨hlt, beq_iff_eq.2 heq, fun j hj hbeq => ?_⟩
      exact hj.ne ((List.getElem_inj s.nodup).1 ((eq_of_beq hbeq).trans heq.symm))
    rw [hfind]

/-- The digits are the characters that have a value. -/
theorem isDigit_iff : s.isDigit c = true ↔ ∃ v, s.charValue c = .ok v := by
  simp only [isDigit, List.contains_iff_mem, List.mem_iff_getElem?, charValue_eq_ok_iff]

theorem lt_base_of_charValue (h : s.charValue c = .ok v) : v < s.base :=
  (List.getElem?_eq_some_iff.1 (charValue_eq_ok_iff.1 h)).1

theorem digit_of_charValue (h : s.charValue c = .ok v) : (s.digits.getD v "").toList = [c] := by
  rw [List.getD_eq_getElem?_getD, charValue_eq_ok_iff.1 h, Option.getD_some,
    String.toList_singleton]

/-- The digit of a value is a character that has the value. -/
theorem exists_digit (hs : s.HasCharDigits) (hv : v < s.base) :
    ∃ c, (s.digits.getD v "").toList = [c] ∧ s.isDigit c = true ∧ s.charValue c = .ok v := by
  obtain ⟨c, hc⟩ := hs s.digits[v] (List.getElem_mem hv)
  have hvalue : s.charValue c = .ok v := charValue_eq_ok_iff.2 (hc ▸ List.getElem?_eq_getElem hv)
  exact ⟨c, digit_of_charValue hvalue, isDigit_iff.2 ⟨v, hvalue⟩, hvalue⟩

theorem places_of_lt (h : n < base) : places base n = [n] := by
  rw [places, if_pos (.inr h)]

theorem places_of_ge (hb : 2 ≤ base) (h : base ≤ n) :
    places base n = places base (n / base) ++ [n % base] := by
  rw [places, if_neg (by omega)]

/-! ## Numerals -/

/-- The last digit of a numeral, and the numeral of the number without it. -/
theorem natText_cases (hs : s.HasCharDigits) (n : Nat) :
    ∃ t c, s.natText n = t ++ [c] ∧ s.isDigit c = true ∧ s.charValue c = .ok (n % s.base) ∧
      (n < s.base ∧ t = [] ∨ s.base ≤ n ∧ t = s.natText (n / s.base)) := by
  have hbase : 2 ≤ s.base := s.two_le
  obtain ⟨c, hc, hd, hv⟩ := exists_digit hs (Nat.mod_lt n (by omega : 0 < s.base))
  by_cases h : n < s.base
  · refine ⟨[], c, ?_, hd, hv, .inl ⟨h, rfl⟩⟩
    rw [Nat.mod_eq_of_lt h] at hc
    rw [natText, places_of_lt h, List.flatMap_singleton, hc, List.nil_append]
  · refine ⟨_, c, ?_, hd, hv, .inr ⟨Nat.not_lt.1 h, rfl⟩⟩
    rw [natText, places_of_ge hbase (Nat.not_lt.1 h), List.flatMap_append, List.flatMap_singleton,
      hc]
    rfl

theorem natText_ne_nil (hs : s.HasCharDigits) (n : Nat) : s.natText n ≠ [] := by
  obtain ⟨t, c, h, -⟩ := natText_cases hs n
  rw [h]
  exact List.append_ne_nil_of_right_ne_nil t (List.cons_ne_nil c [])

theorem isDigit_of_mem_natText (hs : s.HasCharDigits) (n : Nat) :
    ∀ c ∈ s.natText n, s.isDigit c = true := by
  induction n using Nat.strongRecOn with
  | ind n ih =>
    intro c hc
    obtain ⟨t, a, h, ha, -, hcases⟩ := natText_cases hs n
    rw [h, List.mem_append, List.mem_singleton] at hc
    rcases hc with hc | rfl
    · rcases hcases with ⟨-, rfl⟩ | ⟨hge, rfl⟩
      · exact absurd hc List.not_mem_nil
      · have hbase : 2 ≤ s.base := s.two_le
        exact ih _ (Nat.div_lt_self (by omega) (by omega)) c hc
    · exact ha

theorem natValue_append_digit (ht : s.natValue t = .ok n) (hc : s.charValue c = .ok v) :
    s.natValue (t ++ [c]) = .ok (n * s.base + v) := by
  rw [natValue] at ht ⊢
  rw [List.foldlM_append, bind_of_ok ht, List.foldlM_cons, hc]
  rfl

/-- **The numeral of a number has its value.** -/
theorem natValue_natText (hs : s.HasCharDigits) (n : Nat) : s.natValue (s.natText n) = .ok n := by
  induction n using Nat.strongRecOn with
  | ind n ih =>
    obtain ⟨t, c, h, -, hc, hcases⟩ := natText_cases hs n
    rw [h]
    rcases hcases with ⟨hlt, rfl⟩ | ⟨hge, rfl⟩
    · have hzero : s.natValue [] = .ok 0 := rfl
      rw [natValue_append_digit hzero hc, Nat.zero_mul, Nat.zero_add, Nat.mod_eq_of_lt hlt]
    · have hbase : 2 ≤ s.base := s.two_le
      have hlt : n / s.base < n := Nat.div_lt_self (by omega) (by omega)
      rw [natValue_append_digit (ih _ hlt) hc, Nat.div_add_mod']

end NumeralSystem

namespace Dialect

variable {d : Dialect}

/-- A natural number in the digits of expressions. -/
def numeral (d : Dialect) (n : Nat) : Text :=
  match d.system with
  | some s => s.natText n
  | none => Numeral.ofNat n

theorem IsStandard.hasCharDigits (hd : d.IsStandard) {s : NumeralSystem} (hs : d.system = some s) :
    s.HasCharDigits := by
  obtain ⟨base, h, name, rfl⟩ := hd s hs
  exact NumeralSystem.hasCharDigits_ofBase base h name

theorem numeral_ne_nil (hd : d.IsStandard) (n : Nat) : d.numeral n ≠ [] := by
  rw [numeral]
  cases hs : d.system with
  | none => exact Numeral.ofNat_ne_nil n
  | some s => exact NumeralSystem.natText_ne_nil (hd.hasCharDigits hs) n

theorem isDigit_of_mem_numeral (hd : d.IsStandard) {n : Nat} :
    ∀ c ∈ d.numeral n, d.isDigit c = true := by
  intro c hc
  rw [numeral] at hc
  rw [isDigit]
  cases hs : d.system with
  | none =>
    rw [hs] at hc
    exact Numeral.all_isPlainDigit_ofNat n c hc
  | some s =>
    rw [hs] at hc
    exact NumeralSystem.isDigit_of_mem_natText (hd.hasCharDigits hs) n c hc

/-- **A number in the digits of expressions has its value.** -/
theorem value_numeral (hd : d.IsStandard) (n : Nat) : d.value (d.numeral n) = .ok n := by
  rw [value, numeral]
  cases hs : d.system with
  | none => exact congrArg Except.ok (Numeral.value_ofNat n)
  | some s => exact NumeralSystem.natValue_natText (hd.hasCharDigits hs) n

end Dialect

end RatCalc

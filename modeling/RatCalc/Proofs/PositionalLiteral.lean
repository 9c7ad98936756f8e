import Mathlib.Tactic.FieldSimp
import Mathlib.Tactic.Linarith
import RatCalc.Proofs.NumberText
import RatCalc.Proofs.PlainDecimal

/-!
# Decimals of all numeral systems

* `value_append_digit`, `exists_value_append`: the value of a row of digits, digit by digit and row
  by row, below the power of the base with as many digits.
* `periodicValue`: the number whose expansion has a period; `repeatingFraction_eq`: decimals with a
  period are read as it, and `periodicValue_iff`, `periodicValue_between`: it is determined by an
  equation and by its finite expansions.
* `pointedValue_places`, `pointedValue_period`, `unsigned_pointed`: how decimals are read with other
  digits, with what follows them.
* `unsigned_period`, `unsigned_places`: how they are read with any digits.
* **`valueOf_decimal`**: the value of a decimal, with a period and without one.
-/

namespace RatCalc

open Text

namespace Dialect

variable {d : Dialect} {t u w f p : Text} {c : Char} {m n v k : Nat}

/-! ## The value of a row of digits -/

theorem two_le_radix (d : Dialect) : 2 ≤ d.radix := by
  unfold radix
  cases d.system with
  | none => decide
  | some s => exact s.two_le

/-- A digit has a value below the base, by which it goes on the value of a row. -/
theorem value_append_digit (hc : d.isDigit c = true) :
    ∃ v < d.radix, ∀ t m, d.value t = .ok m → d.value (t ++ [c]) = .ok (m * d.radix + v) := by
  unfold isDigit at hc
  unfold radix value
  cases hs : d.system with
  | none =>
    rw [hs] at hc
    obtain ⟨v, hv, rfl⟩ := isPlainDigit_iff.1 hc
    refine ⟨v, hv, fun t m ht => ?_⟩
    cases ht
    simp only
    rw [Numeral.value_append_digit, digitValue?_digitChar hv, Option.getD_some]
  | some s =>
    rw [hs] at hc
    obtain ⟨v, hv⟩ := NumeralSystem.isDigit_iff.1 hc
    exact ⟨v, NumeralSystem.lt_base_of_charValue hv, fun t m ht =>
      NumeralSystem.natValue_append_digit ht hv⟩

theorem value_nil (d : Dialect) : d.value [] = .ok 0 := by
  unfold value
  cases d.system <;> rfl

/-- A row of digits goes on the value of another row. -/
theorem exists_value_append (hu : ∀ c ∈ u, d.isDigit c = true) :
    ∃ n < d.radix ^ u.length,
      ∀ t m, d.value t = .ok m → d.value (t ++ u) = .ok (m * d.radix ^ u.length + n) := by
  induction u using List.reverseRecOn with
  | nil => exact ⟨0, by simp, fun t m ht => by simpa using ht⟩
  | append_singleton u c ih =>
    obtain ⟨n, hn, hrow⟩ := ih fun a ha => hu a (List.mem_append_left _ ha)
    obtain ⟨v, hv, hdigit⟩ := value_append_digit (hu c (by simp))
    refine ⟨n * d.radix + v, ?_, fun t m ht => ?_⟩
    · rw [List.length_append, List.length_singleton, pow_succ]
      nlinarith
    · rw [← List.append_assoc, hdigit _ _ (hrow t m ht), List.length_append, List.length_singleton,
        pow_succ]
      congr 1
      ring

theorem exists_value_lt (hu : ∀ c ∈ u, d.isDigit c = true) :
    ∃ n < d.radix ^ u.length, d.value u = .ok n ∧
      ∀ t m, d.value t = .ok m → d.value (t ++ u) = .ok (m * d.radix ^ u.length + n) := by
  obtain ⟨n, hn, hrow⟩ := exists_value_append hu
  refine ⟨n, hn, ?_, hrow⟩
  simpa using hrow [] 0 d.value_nil

/-- The value of a row in which all digits have the same value. -/
theorem value_of_same (hu : ∀ c ∈ u, d.isDigit c = true) (hv : ∀ c ∈ u, d.value [c] = .ok v)
    (hn : d.value u = .ok n) : n * (d.radix - 1) + v = v * d.radix ^ u.length := by
  induction u using List.reverseRecOn generalizing n with
  | nil =>
    rw [value_nil] at hn
    cases hn
    simp
  | append_singleton u c ih =>
    have hu' : ∀ a ∈ u, d.isDigit a = true := fun a ha => hu a (List.mem_append_left _ ha)
    obtain ⟨m, -, hm, -⟩ := exists_value_lt hu'
    obtain ⟨x, -, hdigit⟩ := value_append_digit (hu c (by simp))
    have hx : x = v := by
      have := hdigit [] 0 d.value_nil
      rw [List.nil_append, hv c (by simp)] at this
      cases this
      simp
    have ih := ih hu' (fun a ha => hv a (List.mem_append_left _ ha)) hm
    rw [hdigit u m hm] at hn
    cases hn
    obtain ⟨b, hb⟩ := Nat.exists_eq_add_of_le d.two_le_radix
    rw [List.length_append, List.length_singleton, pow_succ, ← mul_assoc, ← ih, hx, hb]
    have : 2 + b - 1 = b + 1 := by omega
    rw [this]
    ring

theorem value_of_greatest (hu : ∀ c ∈ u, d.isDigit c = true)
    (hv : ∀ c ∈ u, d.value [c] = .ok (d.radix - 1)) (hn : d.value u = .ok n) :
    n + 1 = d.radix ^ u.length := by
  have hradix := d.two_le_radix
  have hfactor : (n + 1) * (d.radix - 1) = d.radix ^ u.length * (d.radix - 1) := by
    rw [Nat.add_mul, Nat.one_mul, value_of_same hu hv hn, Nat.mul_comm]
  exact Nat.eq_of_mul_eq_mul_right (by omega) hfactor

theorem value_of_zeros (hu : ∀ c ∈ u, d.isDigit c = true) (hv : ∀ c ∈ u, d.value [c] = .ok 0)
    (hn : d.value u = .ok n) : n = 0 := by
  have hradix := d.two_le_radix
  have hsame := value_of_same hu hv hn
  rw [Nat.zero_mul, Nat.add_zero] at hsame
  exact (Nat.mul_eq_zero.1 hsame).resolve_right (by omega)

/-! ## Expansions with a period -/

theorem one_lt_radix_pow (d : Dialect) (hp : p ≠ []) : (1 : ℚ) < (d.radix : ℚ) ^ p.length := by
  have hlength : p.length ≠ 0 := fun h => hp (List.length_eq_zero_iff.1 h)
  have hradix : 1 < d.radix := d.two_le_radix
  exact_mod_cast Nat.one_lt_pow hlength hradix

/-- The digits of a row, and then those of a period over and over. -/
def periodicValue (d : Dialect) (ab c places period : Nat) : ℚ :=
  (ab + c / ((d.radix : ℚ) ^ period - 1)) / (d.radix : ℚ) ^ places

/-- The quotient of integers that decimals with a period are read as. -/
theorem repeatingFraction_eq (hp : p ≠ []) (ab c places : Nat) :
    Literal.repeatingFraction ab (ab * d.radix ^ p.length + c : Nat) places p.length d.radix =
      .ok (d.periodicValue ab c places p.length) := by
  have hone := d.one_lt_radix_pow hp
  have hradix : (d.radix : ℚ) ≠ 0 := by
    have := d.two_le_radix
    exact_mod_cast (by omega : d.radix ≠ 0)
  have hperiod : (d.radix : ℚ) ^ p.length - 1 ≠ 0 := by linarith
  have hden : ((d.radix : Int) ^ places * ((d.radix : Int) ^ p.length - 1)) ≠ 0 := by
    have : (((d.radix : Int) ^ places * ((d.radix : Int) ^ p.length - 1) : Int) : ℚ) ≠ 0 := by
      push_cast
      exact mul_ne_zero (pow_ne_zero _ hradix) hperiod
    exact_mod_cast this
  change Ratio.ofInts _ ((d.radix : Int) ^ places * ((d.radix : Int) ^ p.length - 1)) = _
  rw [Ratio.ofInts, if_neg hden, Rat.divInt_eq_div, periodicValue]
  congr 1
  push_cast
  field_simp
  ring

/-- The equation of the number, and no other number's. -/
theorem periodicValue_iff (d : Dialect) (ab c places period : Nat) (y : ℚ) :
    (d.radix : ℚ) ^ places * y = ab + c / ((d.radix : ℚ) ^ period - 1) ↔
      y = d.periodicValue ab c places period := by
  have hradix : (d.radix : ℚ) ^ places ≠ 0 := by
    have := d.two_le_radix
    exact pow_ne_zero _ (by exact_mod_cast (by omega : d.radix ≠ 0))
  rw [periodicValue, eq_div_iff hradix, mul_comm]

/-- What is left of the number after so many periods. -/
theorem periodicValue_expansion {ab c : Nat} (hp : p ≠ []) (hdp : ∀ a ∈ p, d.isDigit a = true)
    (hab : d.value (w ++ f) = .ok ab) (hc : d.value p = .ok c) (k : Nat) :
    ∃ n : Nat, d.value (w ++ f ++ (List.replicate k p).flatten) = .ok n ∧
      d.periodicValue ab c f.length p.length * (d.radix : ℚ) ^ (f.length + k * p.length) =
        n + c / ((d.radix : ℚ) ^ p.length - 1) := by
  obtain ⟨c', -, hc', hrow⟩ := exists_value_lt hdp
  obtain rfl : c' = c := Except.ok.inj (hc'.symm.trans hc)
  have hone := d.one_lt_radix_pow hp
  have hperiod : (d.radix : ℚ) ^ p.length - 1 ≠ 0 := by linarith
  induction k with
  | zero =>
    refine ⟨ab, by simpa using hab, ?_⟩
    rw [Nat.zero_mul, Nat.add_zero, mul_comm, periodicValue_iff]
  | succ k ih =>
    obtain ⟨n, hn, heq⟩ := ih
    refine ⟨n * d.radix ^ p.length + c', ?_, ?_⟩
    · rw [List.replicate_succ', List.flatten_append, List.flatten_singleton, ← List.append_assoc]
      exact hrow _ _ hn
    · rw [Nat.succ_mul, ← Nat.add_assoc, pow_add, ← mul_assoc, heq]
      push_cast
      field_simp
      ring

/-- Every finite expansion is at most one in its last place below the number. -/
theorem periodicValue_between {ab c : Nat} (hp : p ≠ []) (hdp : ∀ a ∈ p, d.isDigit a = true)
    (hab : d.value (w ++ f) = .ok ab) (hc : d.value p = .ok c) (k : Nat) :
    ∃ n : Nat, d.value (w ++ f ++ (List.replicate k p).flatten) = .ok n ∧
      n ≤ d.periodicValue ab c f.length p.length * (d.radix : ℚ) ^ (f.length + k * p.length) ∧
      d.periodicValue ab c f.length p.length * (d.radix : ℚ) ^ (f.length + k * p.length) ≤
        n + 1 := by
  obtain ⟨n, hn, heq⟩ := periodicValue_expansion hp hdp hab hc k
  obtain ⟨c', hlt, hc', -⟩ := exists_value_lt hdp
  obtain rfl : c' = c := Except.ok.inj (hc'.symm.trans hc)
  have hone := d.one_lt_radix_pow hp
  have hcast : (c' : ℚ) + 1 ≤ (d.radix : ℚ) ^ p.length := by exact_mod_cast hlt
  have hnonneg : (0 : ℚ) ≤ c' / ((d.radix : ℚ) ^ p.length - 1) :=
    div_nonneg (Nat.cast_nonneg c') (by linarith)
  have hle : (c' : ℚ) / ((d.radix : ℚ) ^ p.length - 1) ≤ 1 := by
    rw [div_le_one (by linarith)]
    linarith
  refine ⟨n, hn, ?_, ?_⟩ <;> rw [heq] <;> linarith

theorem periodicValue_of_greatest {ab c : Nat} (hp : p ≠ []) (hc : c + 1 = d.radix ^ p.length)
    (places : Nat) :
    d.periodicValue ab c places p.length = (ab + 1) / (d.radix : ℚ) ^ places := by
  have hone := d.one_lt_radix_pow hp
  have hc : (c : ℚ) = (d.radix : ℚ) ^ p.length - 1 := by
    have : ((c + 1 : Nat) : ℚ) = (d.radix : ℚ) ^ p.length := by rw [hc, Nat.cast_pow]
    push_cast at this
    linarith
  rw [periodicValue, hc, div_self (by linarith)]

theorem periodicValue_of_zero (d : Dialect) (ab places period : Nat) :
    d.periodicValue ab 0 places period = ab / (d.radix : ℚ) ^ places := by
  simp [periodicValue]

theorem isDigit_of_none (hs : d.system = none) (a : Char) : d.isDigit a = isPlainDigit a := by
  rw [isDigit, hs]

theorem value_of_none (hs : d.system = none) (t : Text) : d.value t = .ok (Numeral.value t) := by
  rw [value, hs]

theorem radix_of_none (hs : d.system = none) : d.radix = 10 := by
  rw [radix, hs]

theorem value_of_some {s : NumeralSystem} (hs : d.system = some s) (t : Text) :
    d.value t = s.natValue t := by
  rw [value, hs]

theorem radix_of_some {s : NumeralSystem} (hs : d.system = some s) : d.radix = s.base := by
  rw [radix, hs]

/-! ## With decimal digits -/

section

variable (letters : LetterTable) (hw : ∀ c ∈ w, isPlainDigit c = true)
  (hf : ∀ c ∈ f, isPlainDigit c = true) (hp : ∀ c ∈ p, isPlainDigit c = true)

include hw hf hp in
theorem repeating?_period (hwf : w ++ f ≠ []) :
    repeating? (w ++ '.' :: (f ++ '#' :: p)) = some (w ++ '.' :: (f ++ '#' :: p), []) := by
  have hruns : digitRuns 0 (f ++ '#' :: p) = (f, '#' :: p) := by
    rw [digitRuns_append fun c hc => isDecimal_of_plain (hf c hc)]
    exact congrArg (·, '#' :: p) (List.append_nil f)
  have hend : digitRuns 0 p = (p, []) := by
    have := digitRuns_append (fun c hc => isDecimal_of_plain (hp c hc)) []
    rw [List.append_nil] at this
    exact this.trans (congrArg (·, []) (List.append_nil p))
  obtain ⟨htake, hdrop⟩ :=
    span_point (by decide) (fun c hc => isDecimal_of_plain (hw c hc)) (f ++ '#' :: p)
  have hfixed : fixedPart? (w ++ '.' :: (f ++ '#' :: p)) = some (w ++ '.' :: f, '#' :: p) := by
    rw [fixedPart?.eq_def, htake, hdrop]
    cases w with
    | nil =>
      simp only
      rw [hruns, if_neg (by simpa using hwf)]
      rfl
    | cons a w =>
      simp only
      rw [hruns]
  rw [repeating?, hfixed]
  simp only
  rw [hend, List.append_assoc, List.cons_append]

include hw hf hp in
/-- What is written with a period is read as the quotient of its digits. -/
theorem repeatingValue_period (hne : p ≠ []) {x : ℚ}
    (hx : Literal.repeatingFraction (Numeral.value (w ++ f)) (Numeral.value (w ++ f ++ p)) f.length
      p.length 10 = .ok x) : repeatingValue (w ++ '.' :: (f ++ '#' :: p)) = .ok x := by
  have hread : Literal.decimal (Expansion.written w (Expansion.grouped false 0 f)
      (Expansion.grouped false 0 p) []) = _ := Literal.decimal_written 0 0 hw hf hp
  rw [Ratio.grouped_false, Ratio.grouped_false,
    Literal.periodicDecimal_written hne hw hf hp, hx, Expansion.written, List.append_nil] at hread
  exact repeatingValue_eq hread

include hw hf hp in
theorem unsigned_period_exactly (hwf : w ++ f ≠ []) (hne : p ≠ []) {x : ℚ}
    (hx : Literal.repeatingFraction (Numeral.value (w ++ f)) (Numeral.value (w ++ f ++ p)) f.length
      p.length 10 = .ok x) :
    (exactly letters).unsigned (w ++ '.' :: (f ++ '#' :: p)) = .ok (⟨x, false⟩, []) := by
  have hlettered := lettered?_of_point letters hw (f ++ '#' :: p)
  rw [unsigned, if_neg (by simp)]
  simp only [exactly] at hlettered ⊢
  rw [hlettered, repeating?_period hw hf hp hwf]
  simp only
  rw [repeatingValue_period hw hf hp hne hx]
  rfl

end

/-! ## With other digits -/

section

variable {s : NumeralSystem}

/-- The value of a decimal without a period. -/
theorem pointedValue_places {ab : Nat} (hs : d.system = some s) (hne : w ++ f ≠ [])
    (hab : d.value (w ++ f) = .ok ab) :
    pointedValue s w f none = .ok (ab / (d.radix : ℚ) ^ f.length) := by
  rw [value_of_some hs] at hab
  have hplaces : ((Nat.pow s.base f.length : Nat) : Int) ≠ 0 := by
    have : 0 < s.base := Nat.zero_lt_of_lt s.two_le
    exact Int.natCast_ne_zero.2 (Nat.pow_pos this).ne'
  rw [pointedValue, if_neg (by simpa using hne), bind_of_ok hab, radix_of_some hs]
  simp only
  rw [Ratio.ofInts, if_neg hplaces, Rat.divInt_eq_div]
  congr 2
  exact_mod_cast rfl

/-- The value of a decimal with a period. -/
theorem pointedValue_period {ab c : Nat} (hs : d.system = some s)
    (hp : ∀ a ∈ p, d.isDigit a = true) (hne : w ++ f ≠ []) (hperiod : p ≠ [])
    (hab : d.value (w ++ f) = .ok ab) (hc : d.value p = .ok c) :
    pointedValue s w f (some p) = .ok (d.periodicValue ab c f.length p.length) := by
  obtain ⟨c', -, hc', hrow⟩ := exists_value_lt hp
  obtain rfl : c' = c := Except.ok.inj (hc'.symm.trans hc)
  have habc := hrow _ _ hab
  rw [value_of_some hs] at hab habc
  rw [pointedValue, if_neg (by simpa using hne), bind_of_ok hab]
  simp only
  rw [bind_of_ok habc, ← radix_of_some hs]
  exact repeatingFraction_eq hperiod ab c' f.length

/-- A period is read behind its mark. -/
theorem periodIn_sharp (hp : ∀ a ∈ p, d.isDigit a = true) (hne : p ≠ [])
    (hu : ∀ c v, u = c :: v → c ∈ NumeralSystem.reservedChars) :
    d.periodIn ('#' :: (p ++ u)) = .ok (some p, u) := by
  rw [periodIn, bind_of_ok (digits_append_of_reserved hp hu)]
  simp only
  rw [if_neg (by simpa using hne)]
  rfl

variable (hs : d.system = some s) (hw : ∀ c ∈ w, d.isDigit c = true)
  (hf : ∀ c ∈ f, d.isDigit c = true)

include hs hw hf in
/-- A decimal in other digits, with its period or without, and what follows it. -/
theorem unsigned_pointed (period : Option Text) {x : ℚ} {r : Text}
    (hu : ∀ c v, u = c :: v → c ∈ NumeralSystem.reservedChars ∧ c ∉ ['.', '~'])
    (hperiod : d.periodIn u = .ok (period, r)) (hx : pointedValue s w f period = .ok x) :
    d.unsigned (w ++ '.' :: (f ++ u)) = .ok (⟨x, false⟩, r) := by
  have hne : ∀ {c : Char}, d.isDigit c = false → c ∈ ['.', '~'] → ∀ v, f ++ u ≠ c :: v := by
    intro c hc hpoint v hv
    cases f with
    | cons a f =>
      rw [← (List.cons.inj hv).1, hf a (by simp)] at hc
      cases hc
    | nil => exact (hu c v hv).2 hpoint
  have hpoint := pointedIn_point d (s := s) (d.digits_point hw (f ++ u))
    (hne (d.isDigit_of_reserved (by decide)) (by decide))
    (hne (d.isDigit_of_reserved (by decide)) (by decide))
  rw [bind_of_ok (digits_append_of_reserved hf fun c v hc => (hu c v hc).1)] at hpoint
  simp only at hpoint
  rw [bind_of_ok hperiod] at hpoint
  simp only at hpoint
  rw [bind_of_ok hx] at hpoint
  rw [unsigned, if_neg (by simp), hs]
  simp only
  rw [hpoint]
  rfl

end

/-! ## With any digits -/

section

variable {ab c : Nat} (hexact : d.exact = true) (hw : ∀ a ∈ w, d.isDigit a = true)
  (hf : ∀ a ∈ f, d.isDigit a = true) (hp : ∀ a ∈ p, d.isDigit a = true)

include hexact in
theorem eq_exactly (hs : d.system = none) : d = exactly d.letters := by
  obtain ⟨exact, system, letters⟩ := d
  cases hs
  cases hexact
  rfl

include hexact hw hf hp in
theorem unsigned_period (hwf : w ++ f ≠ []) (hne : p ≠ []) (hab : d.value (w ++ f) = .ok ab)
    (hc : d.value p = .ok c) :
    d.unsigned (w ++ '.' :: (f ++ '#' :: p)) =
      .ok (⟨d.periodicValue ab c f.length p.length, false⟩, []) := by
  cases hs : d.system with
  | none =>
    obtain ⟨c', -, hc', hrow⟩ := exists_value_lt hp
    obtain rfl : c' = c := Except.ok.inj (hc'.symm.trans hc)
    have habc := hrow _ _ hab
    have hfraction := repeatingFraction_eq (d := d) hne ab c' f.length
    simp only [isDigit_of_none hs] at hw hf hp
    rw [value_of_none hs] at hab habc
    have hten : (10 : Int) = (d.radix : Int) := by rw [radix_of_none hs]; rfl
    rw [← Except.ok.inj habc, ← hten] at hfraction
    rw [← Except.ok.inj hab] at hfraction ⊢
    have := unsigned_period_exactly d.letters hw hf hp hwf hne hfraction
    rwa [← eq_exactly hexact hs] at this
  | some s =>
    have hperiod := periodIn_sharp hp hne (u := []) fun _ _ h => nomatch h
    rw [List.append_nil] at hperiod
    exact unsigned_pointed hs hw hf (some p) (by rintro c v ⟨⟩; decide) hperiod
      (pointedValue_period hs hp hwf hne hab hc)

include hexact hw hf in
theorem unsigned_places (hne : f ≠ []) (hab : d.value (w ++ f) = .ok ab) :
    d.unsigned (w ++ '.' :: f) = .ok (⟨ab / (d.radix : ℚ) ^ f.length, false⟩, []) := by
  cases hs : d.system with
  | none =>
    simp only [isDigit_of_none hs] at hw hf
    rw [value_of_none hs] at hab
    have : (exactly d.letters).unsigned (w ++ '.' :: (f ++ [])) = _ :=
      unsigned_point d.letters hne hw hf (fun _ _ h => nomatch h) rfl fun _ h => nomatch h
    rw [List.append_nil, Except.ok.inj hab, ← eq_exactly hexact hs] at this
    rw [this, radix_of_none hs]
    rfl
  | some s =>
    have hread := unsigned_pointed (u := []) hs hw hf none (fun _ _ h => nomatch h) rfl
      (pointedValue_places hs (List.append_ne_nil_of_right_ne_nil w hne) hab)
    rwa [List.append_nil] at hread

end

/-! ## Expressions -/

/-- What stands in a decimal is no blank and no bracket. -/
theorem mem_decimal (hd : d.IsStandard) (hw : ∀ a ∈ w, d.isDigit a = true)
    (hu : ∀ a ∈ u, d.isDigit a = true ∨ a = '#') :
    ∀ a ∈ w ++ '.' :: u, isBlank a = false ∧ a ∉ ['(', '-', '['] := by
  have hdigit : ∀ a, d.isDigit a = true → isBlank a = false ∧ a ∉ ['(', '-', '['] := by
    intro a ha
    refine ⟨isBlank_of_isDigit hd ha, fun hm => ?_⟩
    have := forall_of_all (P := (· ∈ NumeralSystem.reservedChars)) (by decide) a hm
    rw [d.isDigit_of_reserved this] at ha
    cases ha
  intro a ha
  rw [List.mem_append, List.mem_cons] at ha
  rcases ha with ha | rfl | ha
  · exact hdigit a (hw a ha)
  · decide
  · rcases hu a ha with ha | rfl
    · exact hdigit a ha
    · decide

/-- No continued fraction begins with a point that no tilde follows. -/
theorem continuedFraction?_of_point (hs : d.system = none) (hw : ∀ a ∈ w, d.isDigit a = true)
    (htilde : ∀ v, u ≠ '~' :: v) : continuedFraction? (w ++ '.' :: u) = none := by
  simp only [isDigit_of_none hs] at hw
  have hm : ∀ v, w ++ '.' :: u ≠ '-' :: v := by
    intro v hv
    cases w with
    | nil => exact absurd (List.cons.inj hv).1 (by decide)
    | cons a w => exact ne_of_plain (hw a (by simp)) (by decide) (List.cons.inj hv).1
  rw [continuedFraction?_eq, minus_of_ne hm]
  simp only
  rw [(span_point (by decide) (fun c hc => isDecimal_of_plain (hw c hc)) u).2]
  split
  · rename_i heq
    exact absurd (List.cons.inj heq).2 (htilde _)
  · rfl

/-- A decimal that is read as a number has the value of the number. -/
theorem valueOf_of_unsigned (hd : d.IsStandard) (hexact : d.exact = true)
    (hw : ∀ a ∈ w, d.isDigit a = true) (hu : ∀ a ∈ u, d.isDigit a = true ∨ a = '#') {x : ℚ}
    (hx : d.unsigned (w ++ '.' :: u) = .ok (⟨x, false⟩, [])) :
    Expr.valueOf d (w ++ '.' :: u) = .ok (.plain (Number.rational x).simplest) := by
  have hmem := mem_decimal hd hw hu
  have htilde : ∀ v, u ≠ '~' :: v := by
    rintro v rfl
    rcases hu '~' (by simp) with h | h
    · rw [d.isDigit_of_reserved (by decide)] at h
      cases h
    · exact absurd h (by decide)
  have hstart : ∀ {c : Char}, c ∈ ['(', '-', '['] → ∀ v, w ++ '.' :: u ≠ c :: v :=
    fun hc v hv => (hmem _ (hv ▸ List.mem_cons_self)).2 hc
  have hend : d.endpoint (w ++ '.' :: u) = .ok (⟨x, false⟩, []) := by
    rw [endpoint_of_no_fraction d fun hs => continuedFraction?_of_point hs hw htilde, signed_eq,
      minus_of_ne (hstart (by decide))]
    simp only
    rw [hx]
    rfl
  have hscaled := d.scaledEndpoint_of_not_follows hend d.exponentFollows_nil true
  have hliteral : Reading.literal d (w ++ '.' :: u) =
      ⟨.literal (Endpoint.shown ⟨x, false⟩), some []⟩ := by
    rw [Reading.literal, interval_single (.inl hexact) hscaled fun _ => (List.cons_ne_nil _ _).symm]
    simp only
    rw [suffixed_nil, single, if_pos hexact]
  have hreads : Reads d .factor (w ++ '.' :: u) (.literal (Endpoint.shown ⟨x, false⟩)) [] :=
    .literal (hstart (by decide)) (hstart (by decide))
      (bracket?_of_not_mem fun h => (hmem _ h).2 (by decide)) hliteral
  rw [Expr.valueOf_eq_ok_iff, prepare_of_no_blank d fun a ha => (hmem a ha).1]
  refine ⟨_, hreads.sum_of_factor (.inl rfl), ?_⟩
  rw [← Endpoint.shown_of_not_kept]
  exact congrArg Except.ok (simplify_shown hexact _)

/-- **The value of a decimal** in the digits of expressions. With a period it is the one solution of
an equation, and every finite expansion is at most one in its last place below it; a period of
greatest digits rounds up and one of zeros adds nothing. -/
theorem valueOf_decimal (hd : d.IsStandard) (hexact : d.exact = true)
    (hw : ∀ a ∈ w, d.isDigit a = true) (hf : ∀ a ∈ f, d.isDigit a = true) :
    (∀ p : Text, (∀ a ∈ p, d.isDigit a = true) → p ≠ [] → w ++ f ≠ [] →
      ∃ (ab c : Nat) (x : ℚ), d.value (w ++ f) = .ok ab ∧ d.value p = .ok c ∧
        Expr.valueOf d (w ++ '.' :: (f ++ '#' :: p)) =
          .ok (.plain (Number.rational x).simplest) ∧
        (∀ y : ℚ, (d.radix : ℚ) ^ f.length * y = ab + c / ((d.radix : ℚ) ^ p.length - 1) ↔
          y = x) ∧
        (∀ k : Nat, ∃ n : Nat, d.value (w ++ f ++ (List.replicate k p).flatten) = .ok n ∧
          n ≤ x * (d.radix : ℚ) ^ (f.length + k * p.length) ∧
          x * (d.radix : ℚ) ^ (f.length + k * p.length) ≤ n + 1) ∧
        ((∀ a ∈ p, d.value [a] = .ok (d.radix - 1)) → x = (ab + 1) / (d.radix : ℚ) ^ f.length) ∧
        ((∀ a ∈ p, d.value [a] = .ok 0) → x = ab / (d.radix : ℚ) ^ f.length)) ∧
    (f ≠ [] → ∃ ab : Nat, d.value (w ++ f) = .ok ab ∧
      Expr.valueOf d (w ++ '.' :: f) =
        .ok (.plain (Number.rational (ab / (d.radix : ℚ) ^ f.length)).simplest)) := by
  have hwf : ∀ a ∈ w ++ f, d.isDigit a = true := fun a ha =>
    (List.mem_append.1 ha).elim (hw a) (hf a)
  obtain ⟨ab, hab⟩ := exists_value hwf
  constructor
  · intro p hp hne hnonempty
    obtain ⟨c, hc⟩ := exists_value hp
    refine ⟨ab, c, d.periodicValue ab c f.length p.length, hab, hc, ?_,
      d.periodicValue_iff ab c f.length p.length, periodicValue_between hne hp hab hc,
      fun hgreatest => ?_, fun hzeros => ?_⟩
    · refine valueOf_of_unsigned hd hexact hw (fun a ha => ?_)
        (unsigned_period hexact hw hf hp hnonempty hne hab hc)
      rw [List.mem_append, List.mem_cons] at ha
      rcases ha with ha | rfl | ha
      · exact .inl (hf a ha)
      · exact .inr rfl
      · exact .inl (hp a ha)
    · exact periodicValue_of_greatest hne (value_of_greatest hp hgreatest hc) f.length
    · rw [value_of_zeros hp hzeros hc]
      exact d.periodicValue_of_zero ab f.length p.length
  · intro hne
    exact ⟨ab, hab, valueOf_of_unsigned hd hexact hw (fun a ha => .inl (hf a ha))
      (unsigned_places hexact hw hf hne hab)⟩

/-- With a period of its greatest digit a hexadecimal number is rounded up. -/
theorem decimal_hexadecimal :
    Dialect.IsStandard ⟨true, some .hexadecimal, .initial⟩ ∧
      (∀ a ∈ ['a', '8', 'f'], isDigit ⟨true, some .hexadecimal, .initial⟩ a = true) ∧
      Expr.valueOf ⟨true, some .hexadecimal, .initial⟩ "a.8#f".toList =
        .ok (.plain (Number.rational (169 / 16)).simplest) := by
  have hd : Dialect.IsStandard ⟨true, some .hexadecimal, .initial⟩ := by
    intro s hs
    exact ⟨16, by decide, _, (Option.some.inj hs).symm⟩
  have hdigits : ∀ a ∈ ['a', '8', 'f'], isDigit ⟨true, some .hexadecimal, .initial⟩ a = true :=
    forall_of_all (by decide)
  obtain ⟨ab, c, x, hab, -, hx, -, -, hgreatest, -⟩ :=
    (valueOf_decimal hd rfl (w := ['a']) (f := ['8']) (fun a ha => hdigits a (by simp_all))
      fun a ha => hdigits a (by simp_all)).1 ['f'] (fun a ha => hdigits a (by simp_all)) (by decide)
      (by decide)
  have hvalue : value ⟨true, some .hexadecimal, .initial⟩ ['a', '8'] = .ok 168 := by decide
  have h168 : ab = 168 := Except.ok.inj (hab.symm.trans hvalue)
  have hfifteen := hgreatest fun a ha => by
    obtain rfl : a = 'f' := by simpa using ha
    decide
  have hx16 : x = 169 / 16 := by
    rw [hfifteen, h168]
    norm_num [radix, NumeralSystem.hexadecimal, NumeralSystem.base_ofBase]
  rw [← hx16]
  exact ⟨hd, hdigits, hx⟩

end Dialect

end RatCalc

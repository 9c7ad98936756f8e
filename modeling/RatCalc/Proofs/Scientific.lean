import Mathlib.Data.Nat.Periodic
import RatCalc.Proofs.Mantissa

/-!
# Scientific notation

* `splitZeros_iff`: leading zeros of a row, told by its digits one by one.
* `exists_digit_ne_zero`: no period consists of zeros.
* `Ratio.Hidden`, **`hidden_iff`**: the numbers of which no significant digit is worked out.
* `Ratio.Shifted`, **`misplaced_iff`**: the numbers of which not all zeros at the start of the
  period are written.
* `Ratio.IsScientific`: a mantissa with the first significant digit, and the exponent of its place.
* **`Operand.scientific_exponent`**, **`Operand.scientific_digits`**: the first digit, the exponent
  and the digits that are shown of every number.
-/

namespace RatCalc

open Expansion

namespace Ratio

variable {a : Rat} {k m n : Nat}

/-! ## Zeros among the digits -/

theorem digit_lt_ten (a : Rat) (i : Nat) : digit a i < 10 := Nat.mod_lt _ (by decide)

theorem digitChar_eq_zero_iff {n : Nat} (h : n < 10) : Nat.digitChar n = '0' ↔ n = 0 := by
  interval_cases n <;> decide

theorem rest_eq_nil_iff_forall (f : Nat → Nat) (hf : ∀ i, f i < 10) (n : Nat) :
    (splitZeros ((List.range n).map fun i => Nat.digitChar (f i))).2 = [] ↔ ∀ i < n, f i = 0 := by
  rw [splitZeros, List.dropWhile_eq_nil_iff]
  simp only [List.mem_map, List.mem_range, forall_exists_index, and_imp, forall_apply_eq_imp_iff₂,
    beq_iff_eq, digitChar_eq_zero_iff (hf _)]

/-- Leading zeros end where a digit is not zero, or with the row. -/
theorem splitZeros_row (f : Nat → Nat) (hf : ∀ i, f i < 10) (n : Nat) :
    let s := splitZeros ((List.range n).map fun i => Nat.digitChar (f i))
    s.1 + s.2.length = n ∧ (∀ i < s.1, f i = 0) ∧ (s.1 < n → f s.1 ≠ 0) := by
  generalize ht : (List.range n).map (fun i => Nat.digitChar (f i)) = t
  have hlength : (splitZeros t).1 + (splitZeros t).2.length = n := by
    rw [length_splitZeros, ← ht, List.length_map, List.length_range]
  have hget : ∀ i < n, t[i]? = some (Nat.digitChar (f i)) := by
    intro i hi
    rw [← ht, List.getElem?_map, List.getElem?_range hi]
    rfl
  obtain ⟨happend, hhead⟩ := splitZeros_spec t
  generalize splitZeros t = s at hlength happend hhead ⊢
  refine ⟨hlength, fun i hi => ?_, fun hlt h0 => ?_⟩
  · have hchar := hget i (by omega)
    rw [← happend, List.getElem?_append_left (by rwa [List.length_replicate]),
      List.getElem?_replicate_of_lt hi, Option.some.injEq] at hchar
    exact (digitChar_eq_zero_iff (hf i)).1 hchar.symm
  · have hchar := hget _ hlt
    rw [← happend, List.getElem?_append_right (by rw [List.length_replicate]),
      List.length_replicate, Nat.sub_self, h0, ← List.head?_eq_getElem?] at hchar
    exact hhead hchar

/-- Leading zeros and a digit after them are told by the digits one by one. -/
theorem splitZeros_iff (f : Nat → Nat) (hf : ∀ i, f i < 10) (n z : Nat) :
    (splitZeros ((List.range n).map fun i => Nat.digitChar (f i))).1 = z ∧
        (splitZeros ((List.range n).map fun i => Nat.digitChar (f i))).2 ≠ [] ↔
      z < n ∧ (∀ i < z, f i = 0) ∧ f z ≠ 0 := by
  obtain ⟨hlength, hzero, hnext⟩ := splitZeros_row f hf n
  rw [← List.length_pos_iff]
  constructor
  · rintro ⟨rfl, hpos⟩
    exact ⟨by omega, hzero, hnext (by omega)⟩
  · rintro ⟨hz, hbefore, hne⟩
    rcases lt_trichotomy (splitZeros ((List.range n).map fun i => Nat.digitChar (f i))).1 z with
      hlt | heq | hgt
    · exact absurd (hbefore _ hlt) (hnext (hlt.trans hz))
    · exact ⟨heq, by omega⟩
    · exact absurd (hzero z hgt) hne

theorem periodDigits_eq (a : Rat) (n : Nat) :
    periodDigits a n =
      (List.range n).map fun i => Nat.digitChar (digit a (preperiod a.den + i)) := by
  have h := digits_append_periodDigits a n
  rw [digits, digits, List.range_add, List.map_append, List.map_map] at h
  exact List.append_cancel_left h

/-- A digit of the first period is not zero. -/
theorem exists_digit_ne_zero (h : ¬ Terminates a) :
    ∃ i < period a, digit a (preperiod a.den + i) ≠ 0 := by
  by_contra! hzero
  have hperiodic : Function.Periodic (fun i => digit a (preperiod a.den + i)) (period a) :=
    fun i => (congrArg (digit a) (Nat.add_assoc _ _ _).symm).trans
      (digit_add_period a (Nat.le_add_right _ i))
  refine h ⟨preperiod a.den, fun i hi => ?_⟩
  obtain ⟨j, rfl⟩ := Nat.exists_eq_add_of_le hi
  exact (hperiodic.map_mod_nat j).symm.trans (hzero _ (Nat.mod_lt _ (period_pos a)))

/-- A digit that is not zero is significant. -/
theorem one_le_of_digit_ne_zero {i : Nat} (hi : i < k) (h : digit a i ≠ 0) :
    1 ≤ |a| * 10 ^ k := by
  by_contra hlt
  have hnil := significantDigits_eq_nil_iff.2 (not_le.1 hlt)
  rw [significantDigits_eq, allDigits, rest_append] at hnil
  split_ifs at hnil with hwhole
  · exact h ((rest_eq_nil_iff_forall (digit a) (digit_lt_ten a) k).1 hnil i hi)
  · exact hwhole (List.append_eq_nil_iff.1 hnil).1

theorem one_le_of_terminates (h : Terminates a) (h0 : a ≠ 0) :
    1 ≤ |a| * 10 ^ preperiod a.den := by
  obtain ⟨n, hn⟩ := (hasPlaces_iff (a := a)).1 ((hasPlaces_iff_preperiod h).2 le_rfl)
  have hpow : (0 : Rat) < 10 ^ preperiod a.den := by positivity
  have hscaled : a * 10 ^ preperiod a.den = n := (eq_div_iff hpow.ne').1 hn
  have hn0 : n ≠ 0 := by
    rintro rfl
    rw [Int.cast_zero] at hscaled
    exact mul_ne_zero h0 hpow.ne' hscaled
  calc (1 : Rat) ≤ |(n : Rat)| := by exact_mod_cast Int.one_le_abs hn0
    _ = |a| * 10 ^ preperiod a.den := by rw [← hscaled, abs_mul, abs_of_pos hpow]

/-! ## The digits that are worked out -/

/-- How many digits behind the point a mantissa is made of. -/
noncomputable def scientificPlaces (a : Rat) (limit : Nat) : Nat :=
  preperiod a.den + foundDigits a scientificDigits limit

/-- The first digits are all zero, as far as they are worked out, though the number is not: it does
not terminate, and its first digit that is not zero comes too late. -/
def Hidden (a : Rat) : Prop :=
  ¬ Terminates a ∧ |a| * 10 ^ (preperiod a.den + scientificDigits) < 1

theorem foundDigits_cases (h : ¬ Terminates a) (k limit : Nat) :
    foundDigits a k limit = k ∨ foundDigits a k limit = period a ∧ period a ≤ k := by
  rw [foundDigits, foundPeriod_of_not_terminates h]
  split_ifs
  · rw [Option.elim_some]
    omega
  · exact .inl rfl

theorem foundDigits_le (a : Rat) (k limit : Nat) : foundDigits a k limit ≤ k := by
  rw [foundDigits]
  cases foundPeriod a limit with
  | none => exact le_rfl
  | some p => exact min_le_left k p

/-- No significant digit is worked out of the hidden numbers, and of no others but zero. -/
theorem hidden_iff (h0 : a ≠ 0) (limit : Nat) :
    significantDigits a (scientificPlaces a limit) = [] ↔ Hidden a := by
  rw [significantDigits_eq_nil_iff, scientificPlaces, Hidden]
  constructor
  · intro hlt
    have ht : ¬ Terminates a := by
      intro ht
      rw [foundDigits_of_terminates ht, add_zero] at hlt
      exact absurd (one_le_of_terminates ht h0) (not_le.2 hlt)
    rcases foundDigits_cases ht scientificDigits limit with heq | ⟨heq, -⟩
    · exact ⟨ht, heq ▸ hlt⟩
    · obtain ⟨i, hi, hne⟩ := exists_digit_ne_zero ht
      rw [heq] at hlt
      exact absurd (one_le_of_digit_ne_zero (by omega) hne) (not_le.2 hlt)
  · rintro ⟨-, hlt⟩
    have hle := Nat.add_le_add_left (foundDigits_le a scientificDigits limit) (preperiod a.den)
    refine lt_of_le_of_lt (mul_le_mul_of_nonneg_left ?_ (abs_nonneg a)) hlt
    exact pow_le_pow_right₀ (by norm_num) hle

/-- The digits of the period that are worked out begin with more than ten zeros, which stand behind
a significant digit and are not written as a group. -/
def Shifted (a : Rat) (useGroups : Bool) : Prop :=
  useGroups = false ∧ ¬ Terminates a ∧ |a| < 1 ∧ (∃ i < preperiod a.den, digit a i ≠ 0) ∧
    ∃ z, 10 < z ∧ z < scientificDigits ∧ (∀ i < z, digit a (preperiod a.den + i) = 0) ∧
      digit a (preperiod a.den + z) ≠ 0

theorem isPlain_of (a : Rat) (k limit : Nat) : (Expansion.of a.num a.den k limit).IsPlain := by
  have hterminates := terminates_of a k limit
  rw [of_eq] at hterminates ⊢
  refine ⟨all_digits a _, all_periodDigits a _, fun h => ?_⟩
  rw [foundDigits_of_terminates (hterminates.1 h)]
  rfl

theorem row_of (a : Rat) (limit : Nat) :
    (Expansion.of a.num a.den scientificDigits limit).row =
      allDigits a (scientificPlaces a limit) := by
  rw [of_eq, row, digits_append_periodDigits]
  rfl

theorem places_of (a : Rat) (limit : Nat) :
    (Expansion.of a.num a.den scientificDigits limit).places = scientificPlaces a limit := by
  rw [of_eq, places, length_digits, length_periodDigits]
  rfl

/-- A digit that is not zero is worked out if it is among the first digits of the period: the period
is not over before it. -/
theorem lt_foundDigits_iff {z limit : Nat} (ht : ¬ Terminates a)
    (hzero : ∀ i < z, digit a (preperiod a.den + i) = 0) (k : Nat) :
    z < foundDigits a k limit ↔ z < k := by
  refine ⟨fun h => h.trans_le (foundDigits_le a k limit), fun h => ?_⟩
  rcases foundDigits_cases ht k limit with heq | ⟨heq, -⟩
  · rwa [heq]
  · obtain ⟨i, hi, hne⟩ := exists_digit_ne_zero ht
    rw [heq]
    by_contra hle
    exact hne (hzero i (by omega))

theorem misplaced_iff (a : Rat) (useGroups : Bool) (limit : Nat) :
    Misplaced useGroups (Expansion.of a.num a.den scientificDigits limit) ↔
      Shifted a useGroups := by
  have hterminates := (terminates_of a scientificDigits limit).not
  rw [Bool.not_eq_true] at hterminates
  have hwhole : wholePart a = 0 ↔ |a| < 1 := by rw [wholePart_eq_floor, Nat.floor_eq_zero]
  have hinitial : (splitZeros (digits a (preperiod a.den))).2 ≠ [] ↔
      ∃ i < preperiod a.den, digit a i ≠ 0 := by
    rw [ne_eq, digits, rest_eq_nil_iff_forall _ (digit_lt_ten a)]
    push Not
    rfl
  have hperiod := splitZeros_iff (fun i => digit a (preperiod a.den + i))
    (fun i => digit_lt_ten a _) (foundDigits a scientificDigits limit)
  rw [← periodDigits_eq] at hperiod
  rw [Misplaced, Shifted, hterminates]
  rw [of_eq]
  simp only [hwhole, hinitial]
  constructor
  · rintro ⟨hg, hw, ht, hi, hten, hrest⟩
    obtain ⟨hlt, hzero, hne⟩ := (hperiod _).1 ⟨rfl, hrest⟩
    exact ⟨hg, ht, hw, hi, _, hten, (lt_foundDigits_iff ht hzero _).1 hlt, hzero, hne⟩
  · rintro ⟨hg, ht, hw, hi, z, hten, hlt, hzero, hne⟩
    obtain ⟨hz, hrest⟩ := (hperiod z).2 ⟨(lt_foundDigits_iff ht hzero _).2 hlt, hzero, hne⟩
    exact ⟨hg, hw, ht, hi, by rwa [hz], hrest⟩

/-! ## The text -/

/-- A number in scientific notation: its sign, a mantissa that starts with its first significant
digit, the exponent of that digit and a note if it is wanted. -/
def IsScientific (a : Rat) (shown : Bool) (t : Text) : Prop :=
  ∃ (v : Nat) (m note : Text) (k : Int),
    t = sign (decide (a < 0)) ++ (Nat.digitChar v :: m ++ (exponent k ++ note)) ∧ 'E' ∉ m ∧
      IsNote shown note ∧ v ≠ 0 ∧ v = ⌊|a| / 10 ^ k⌋₊ ∧ 10 ^ k ≤ |a| ∧ |a| < 10 ^ (k + 1)

theorem decide_num_neg (a : Rat) : decide (a.num < 0) = decide (a < 0) :=
  decide_eq_decide.2 Rat.num_neg

/-- The first significant digit with its place makes up the notation. -/
theorem isScientific_of_layout {c : Char} {u x t : Text} {shown : Bool}
    (h : significantDigits a k = c :: u)
    (ht : Layout (decide (a.num < 0)) c x (u.length - k) shown t) : IsScientific a shown t := by
  obtain ⟨v, hv, hten, rfl, hle, hlt⟩ := magnitude_of_leading h
  obtain ⟨m, note, rfl, hhead, hm, hnote⟩ := ht
  obtain ⟨rest, rfl⟩ := List.head?_eq_some_iff.1 hhead
  have hpow : (0 : Rat) < 10 ^ ((u.length : Int) - k) := zpow_pos (by norm_num) _
  have hv1 : (1 : Rat) ≤ v := by exact_mod_cast hv
  have hv9 : (v : Rat) + 1 ≤ 10 := by exact_mod_cast hten
  refine ⟨v, rest, note, _, by rw [decide_num_neg],
    fun h => hm.no_exponent (List.mem_cons_of_mem _ h), hnote, hv.ne', ?_, ?_, ?_⟩
  · rw [eq_comm, Nat.floor_eq_iff (div_nonneg (abs_nonneg a) hpow.le), le_div_iff₀ hpow,
      div_lt_iff₀ hpow]
    exact ⟨hle, hlt⟩
  · exact (le_mul_of_one_le_left hpow.le hv1).trans hle
  · rw [zpow_add_one₀ (by norm_num), mul_comm]
    exact hlt.trans_le (mul_le_mul_of_nonneg_right hv9 hpow.le)

theorem exponent_mem_of_isScientific {t : Text} {shown : Bool} (h : IsScientific a shown t) :
    'E' ∈ t := by
  obtain ⟨v, m, note, k, rfl, -⟩ := h
  simp [exponent]

theorem no_exponent_sign_zero (negative : Bool) : 'E' ∉ sign negative ++ ['0'] := by
  cases negative <;> decide

/-- Reciprocals over large denominators that are coprime to ten are hidden. -/
theorem hidden_inv {d : Nat} (hcoprime : d.Coprime 10) (hd : 10 ^ scientificDigits < d) :
    Hidden (d : Rat)⁻¹ := by
  have hpos : 0 < d := Nat.zero_lt_of_lt hd
  have hden : ((d : Rat)⁻¹).den = d := Rat.inv_natCast_den_of_pos hpos
  have hpre : preperiod d = 0 := by
    refine Nat.le_zero.1 (preperiod_le_of_dvd hpos.ne' hcoprime ?_)
    rw [pow_zero, one_mul]
  rw [Hidden, terminates_iff_dvd, hden, hpre, Nat.zero_add]
  refine ⟨fun ⟨k, hk⟩ => ?_, ?_⟩
  · have hone : d = 1 := Nat.Coprime.eq_one_of_dvd (hcoprime.pow_right k) hk
    have : 1 ≤ 10 ^ scientificDigits := Nat.one_le_pow _ _ (by decide)
    omega
  · rw [abs_inv, Nat.abs_cast, inv_mul_lt_one₀ (by exact_mod_cast hpos)]
    exact_mod_cast hd

end Ratio

open Ratio

namespace Operand

variable (a : Rat) (useGroups : Bool) (digits : Int) (withNote : Bool) (limit : Option Int)

theorem exists_precision (used : Option Nat) : ∃ k, (whole digits).precision used = pure k := by
  cases used with
  | none => exact ⟨0, rfl⟩
  | some used =>
    have hexceeds : (whole digits).exceeds? (used + 1 : Nat) =
        some (decide (((used + 1 : Nat) : Int) < (digits : Rat))) := rfl
    rw [precision, hexceeds]
    cases decide (((used + 1 : Nat) : Int) < (digits : Rat)) with
    | true => exact ⟨digits.toNat, rfl⟩
    | false => exact ⟨0, rfl⟩

/-- Mantissa and exponent of a fraction in lowest terms, with some precision. -/
theorem exists_scientific_eq (h : a ≠ 0) :
    ∃ k, scientific (whole a.num) (whole a.den) useGroups (whole digits) withNote (ofOption limit) =
      .ok (scientificOf (Expansion.of a.num a.den scientificDigits (searchBound limit)) useGroups k
        withNote) := by
  have hperiod : (Expansion.of a.num a.den 0 (searchBound limit)).periodLength =
      foundPeriod a (searchBound limit) := by
    rw [of_eq]
  have hwith := withPeriod_of a 0 scientificDigits (searchBound limit)
  obtain ⟨k, hk⟩ := exists_precision digits
    ((Expansion.of a.num a.den scientificDigits (searchBound limit)).precisionUse? useGroups)
  refine ⟨k, ?_⟩
  rw [scientific, if_neg (mt (equals_iff a.num 0).1 (mt Rat.num_eq_zero.1 h))]
  simp only [plain_whole, searchedSigned_eq, hperiod, pure_bind, Int.natAbs_natCast,
    if_neg (not_lt.2 (Int.natCast_nonneg a.den))]
  rw [foundDigits] at hwith
  rcases hfound : foundPeriod a (searchBound limit) with _ | p <;> rw [hfound] at hwith
  · rw [Option.elim_none] at hwith
    simp only [hwith, hk, pure_bind]
    rfl
  · have hcount : (if p < scientificDigits then p else scientificDigits) =
        min scientificDigits p := by
      split_ifs <;> omega
    rw [Option.elim_some] at hwith
    simp only [hcount, hwith, hk, pure_bind]
    rfl

/-- **The text with mantissa and exponent** of a number that is not zero: its first significant
digit with its place, and the digits after it unless they are shifted, or a zero where no
significant digit is worked out. -/
theorem scientific_spec (h : a ≠ 0) :
    ∃ t, scientific (whole a.num) (whole a.den) useGroups (whole digits) withNote
        (ofOption limit) = .ok t ∧
      ((Hidden a ∧ t = sign (decide (a < 0)) ++ ['0']) ∨
        ¬ Hidden a ∧ IsScientific a withNote t ∧
          ((∃ k, shownDigits (mantissa t) <+: significantDigits a k) ↔
            ¬ Shifted a useGroups)) := by
  obtain ⟨p, hp⟩ := exists_scientific_eq a useGroups digits withNote limit h
  refine ⟨_, hp, ?_⟩
  have hplain := isPlain_of a scientificDigits (searchBound limit)
  have hrow := row_of a (searchBound limit)
  have hplaces := places_of a (searchBound limit)
  have hmisplaced := misplaced_iff a useGroups (searchBound limit)
  have hnegative : (Expansion.of a.num a.den scientificDigits (searchBound limit)).negative =
      decide (a.num < 0) := by rw [of_eq]
  generalize Expansion.of a.num a.den scientificDigits (searchBound limit) = e at *
  generalize hplaces' : scientificPlaces a (searchBound limit) = k at *
  have hhidden : significantDigits a k = [] ↔ Hidden a := hplaces' ▸ hidden_iff h _
  rw [significantDigits_eq, ← hrow] at hhidden
  cases hdigits : (splitZeros e.row).2 with
  | nil =>
    refine .inl ⟨hhidden.1 hdigits, ?_⟩
    rw [scientificOf_of_nil useGroups p withNote hdigits, hnegative, decide_num_neg]
  | cons c u =>
    obtain ⟨x, hlayout, hlength, hprefix⟩ :=
      layout_of_cons useGroups p withNote hplain hdigits
    have hsignificant : significantDigits a k = c :: u := by
      rw [significantDigits_eq, ← hrow, hdigits]
    rw [hnegative, hplaces] at hlayout
    refine .inr ⟨fun hh => ?_, isScientific_of_layout hsignificant hlayout, ?_⟩
    · rw [hhidden.2 hh] at hdigits
      cases hdigits
    · rw [hlayout.shownDigits_eq, ← hmisplaced, ← hprefix, ← hsignificant]
      exact exists_significant_iff (by rw [hsignificant]; exact hlength)

/-- **Mantissa and exponent**: the mantissa starts with the first significant digit and the exponent
is the place of that digit, except where no significant digit is worked out. Of such a number
nothing is left but a zero. -/
theorem scientific_exponent {a : Rat} (h : a ≠ 0) (useGroups : Bool) (digits : Int)
    (withNote : Bool) (limit : Option Int) :
    ∃ t, scientific (whole a.num) (whole a.den) useGroups (whole digits) withNote
        (ofOption limit) = .ok t ∧
      (IsScientific a withNote t ↔ ¬ Hidden a) ∧
      (Hidden a → t = sign (decide (a < 0)) ++ ['0']) := by
  obtain ⟨t, ht, ⟨hhidden, rfl⟩ | ⟨hnot, hs, -⟩⟩ :=
    scientific_spec a useGroups digits withNote limit h
  · refine ⟨_, ht, iff_of_false (fun hs => ?_) (not_not.2 hhidden), fun _ => rfl⟩
    exact no_exponent_sign_zero _ (exponent_mem_of_isScientific hs)
  · exact ⟨t, ht, iff_of_true hs hnot, fun hh => absurd hh hnot⟩

theorem scientific_nines :
    ((10 ^ 101 - 1 : Nat) : Rat)⁻¹ ≠ 0 ∧
      scientific (whole 1) (whole (10 ^ 101 - 1 : Nat)) true (whole 11) false nothing = .ok ['0'] ∧
      ¬ IsScientific ((10 ^ 101 - 1 : Nat) : Rat)⁻¹ false ['0'] ∧
      ∃ t, scientific (whole 1) (whole (7 : Nat)) true (whole 11) false nothing = .ok t ∧
        IsScientific ((7 : Nat) : Rat)⁻¹ false t := by
  have hnines : (0 : Nat) < 10 ^ 101 - 1 := by norm_num
  have hne : ((10 ^ 101 - 1 : Nat) : Rat)⁻¹ ≠ 0 := inv_ne_zero (Nat.cast_ne_zero.2 hnines.ne')
  have hhidden : Hidden ((10 ^ 101 - 1 : Nat) : Rat)⁻¹ :=
    hidden_inv (by decide) (by decide)
  have hnegative : decide (((10 ^ 101 - 1 : Nat) : Rat)⁻¹ < 0) = false :=
    decide_eq_false (not_lt.2 (inv_nonneg.2 (Nat.cast_nonneg _)))
  have hseven : ¬ Hidden ((7 : Nat) : Rat)⁻¹ := by
    rintro ⟨-, hlt⟩
    rw [abs_inv, Nat.abs_cast, inv_mul_lt_one₀ (by norm_num)] at hlt
    have : (10 : Rat) ^ 1 ≤ 10 ^ (preperiod (((7 : Nat) : Rat)⁻¹).den + scientificDigits) :=
      pow_le_pow_right₀ (by norm_num) (by rw [scientificDigits]; omega)
    norm_num at this hlt
    linarith
  obtain ⟨t, ht, hiff, hzero⟩ := scientific_exponent hne true 11 false none
  obtain ⟨t', ht', hiff', -⟩ :=
    scientific_exponent (a := ((7 : Nat) : Rat)⁻¹) (by norm_num) true 11 false none
  rw [hzero hhidden, hnegative] at hiff ht
  rw [Rat.inv_natCast_num_of_pos hnines, Rat.inv_natCast_den_of_pos hnines] at ht
  rw [Rat.inv_natCast_num_of_pos (by decide), Rat.inv_natCast_den_of_pos (by decide)] at ht'
  exact ⟨hne, ht, mt hiff.1 (not_not.2 hhidden), t', ht', hiff'.2 hseven⟩

/-- **The digits that are shown** are the first significant digits of the number, unless zeros are
left out before the digits of the period. -/
theorem scientific_digits (a : Rat) (useGroups : Bool) (digits : Int) (withNote : Bool)
    (limit : Option Int) :
    ∃ t, scientific (whole a.num) (whole a.den) useGroups (whole digits) withNote
        (ofOption limit) = .ok t ∧
      ('E' ∈ t ↔ a ≠ 0 ∧ ¬ Hidden a) ∧
      ('E' ∈ t →
        ((∃ k, shownDigits (mantissa t) <+: significantDigits a k) ↔ ¬ Shifted a useGroups)) := by
  by_cases h : a = 0
  · subst h
    exact ⟨['0'], rfl, iff_of_false (by decide) fun h => h.1 rfl, fun h => absurd h (by decide)⟩
  · obtain ⟨t, ht, ⟨hhidden, rfl⟩ | ⟨hnot, hs, hshown⟩⟩ :=
      scientific_spec a useGroups digits withNote limit h
    · exact ⟨_, ht, iff_of_false (no_exponent_sign_zero _) fun hh => hh.2 hhidden,
        fun hm => absurd hm (no_exponent_sign_zero _)⟩
    · exact ⟨t, ht, iff_of_true (exponent_mem_of_isScientific hs) ⟨h, hnot⟩, fun _ => hshown⟩

theorem scientific_shifted :
    scientific (whole 1999999999999) (whole (9999999999990 : Nat)) false (whole 11) false nothing =
        .ok "2.#00000000001E-1".toList ∧
      ¬ ∃ k, shownDigits "2.#00000000001".toList <+:
        significantDigits (mkRat 1999999999999 9999999999990) k := by
  have hnum : (mkRat 1999999999999 9999999999990).num = 1999999999999 := by decide
  have hden : (mkRat 1999999999999 9999999999990).den = 9999999999990 := by decide
  have hpre : preperiod 9999999999990 = 1 := by simp [preperiod, Expansion.countFactor]
  have hterminates : ¬ Terminates (mkRat 1999999999999 9999999999990) := by
    rw [terminates_iff_dvd, hden]
    rintro ⟨k, hk⟩
    have hcoprime : Nat.Coprime 999999999999 (10 ^ k) :=
      Nat.Coprime.pow_right k (by decide)
    have hdvd : 999999999999 ∣ 10 ^ k := Nat.dvd_trans (by decide) hk
    exact absurd (hcoprime.eq_one_of_dvd hdvd) (by decide)
  have hshifted : Shifted (mkRat 1999999999999 9999999999990) false := by
    refine ⟨rfl, hterminates, by decide, ?_⟩
    rw [hden, hpre]
    exact ⟨⟨0, by decide⟩, 11, by decide⟩
  have htext : scientific (whole 1999999999999) (whole (9999999999990 : Nat)) false (whole 11) false
      nothing = .ok "2.#00000000001E-1".toList := by with_unfolding_all decide
  obtain ⟨t, ht, -, hshown⟩ :=
    scientific_digits (mkRat 1999999999999 9999999999990) false 11 false none
  rw [hnum, hden] at ht
  cases htext.symm.trans ht
  exact ⟨htext, fun h => (hshown (by decide)).1 h hshifted⟩

end Operand

end RatCalc

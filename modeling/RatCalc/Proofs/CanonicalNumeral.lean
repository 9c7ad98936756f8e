import Mathlib.Data.List.Shortlex
import RatCalc.Proofs.OwnDigits
import RatCalc.Proofs.PositionalLiteral

/-!
# Numerals without leading zeros

In a numeral system whose digits are characters every integer has one numeral without leading
zeros, and the other numerals of the integer only have zeros before it.

* `NumeralSystem.withoutZeros`, `NumeralSystem.IsCanonical`: a row of digits without its leading
  zeros, and the rows that have none.
* `Below`: the order of digits by value; `charValue_injective`: it tells all digits apart.
* `natText_append_digit`: a digit more, and **`natText_natValue`**: the numeral of the value of a
  row is the row without leading zeros.
* `natValue_lt_iff_lex`, **`natValue_lt_iff`**: numerals are ordered by length, and numerals of one
  length by their digits.
* **`NumeralSystem.conversion_canonical`**: writing and reading are inverse to each other between
  integers and numerals without leading zeros, and reading keeps the order.
-/

namespace RatCalc.NumeralSystem

open Text

variable {s : NumeralSystem} {a c : Char} {t u : Text} {m n v w : Nat}

/-- A row of digits without the zeros at its start; of zeros alone one is left. -/
def withoutZeros (s : NumeralSystem) (t : Text) : Text :=
  let rest := t.dropWhile fun c => String.singleton c == s.leastDigit
  if rest.isEmpty then s.leastDigit.toList else rest

/-- The numerals without a sign and without leading zeros. -/
def IsCanonical (s : NumeralSystem) (t : Text) : Prop :=
  s.isNumeral t = true ∧ s.withoutZeros t = t

/-- A digit is worth less than another one. -/
def Below (s : NumeralSystem) (a c : Char) : Prop :=
  ∃ v w, s.charValue a = .ok v ∧ s.charValue c = .ok w ∧ v < w

/-! ## Digits -/

/-- Digits of the same value are the same. -/
theorem charValue_injective (ha : s.charValue a = .ok v) (hc : s.charValue c = .ok v) : a = c := by
  rw [charValue_eq_ok_iff] at ha hc
  exact singleton_injective (Option.some.inj (ha.symm.trans hc))

/-- The digit of value zero is the first one. -/
theorem charValue_zero_iff : s.charValue c = .ok 0 ↔ String.singleton c = s.leastDigit := by
  rw [charValue_eq_ok_iff, leastDigit, ← List.head?_eq_getElem?, List.head?_eq_some_head, eq_comm,
    Option.some.injEq]

/-! ## Rows of digits -/

/-- A row of digits has a value, and goes on the value of another row. -/
theorem exists_natValue (ht : ∀ c ∈ t, s.isDigit c = true) :
    ∃ n < s.base ^ t.length, s.natValue t = .ok n ∧
      ∀ u m, s.natValue u = .ok m → s.natValue (u ++ t) = .ok (m * s.base ^ t.length + n) :=
  Dialect.exists_value_lt (d := ⟨true, some s, []⟩) ht

theorem natValue_lt (ht : ∀ c ∈ t, s.isDigit c = true) (hn : s.natValue t = .ok n) :
    n < s.base ^ t.length := by
  obtain ⟨k, hk, hvalue, -⟩ := exists_natValue ht
  cases hvalue.symm.trans hn
  exact hk

theorem natValue_singleton (hc : s.charValue c = .ok v) : s.natValue [c] = .ok v := by
  have h := natValue_append_digit (t := []) rfl hc
  rwa [Nat.zero_mul, Nat.zero_add] at h

theorem natValue_cons (ht : ∀ c ∈ t, s.isDigit c = true) (hc : s.charValue c = .ok v)
    (hn : s.natValue t = .ok n) : s.natValue (c :: t) = .ok (v * s.base ^ t.length + n) := by
  obtain ⟨k, -, hvalue, happend⟩ := exists_natValue ht
  cases hvalue.symm.trans hn
  exact happend [c] v (natValue_singleton hc)

/-! ## Leading zeros -/

theorem natText_of_charValue (hc : s.charValue c = .ok v) : s.natText v = [c] := by
  rw [natText, places_of_lt (lt_base_of_charValue hc), List.flatMap_singleton,
    digit_of_charValue hc]

/-- A digit more at the end of a numeral. -/
theorem natText_append_digit (hn : n ≠ 0) (hc : s.charValue c = .ok v) :
    s.natText (n * s.base + v) = s.natText n ++ [c] := by
  have hbase : 2 ≤ s.base := s.two_le
  have hv := lt_base_of_charValue hc
  have hge : s.base ≤ n * s.base + v :=
    (Nat.le_mul_of_pos_left _ (Nat.pos_of_ne_zero hn)).trans (Nat.le_add_right _ _)
  have hdiv : (n * s.base + v) / s.base = n := by
    rw [Nat.add_comm, Nat.add_mul_div_right _ _ (by omega), Nat.div_eq_of_lt hv, Nat.zero_add]
  have hmod : (n * s.base + v) % s.base = v := by
    rw [Nat.mul_add_mod_self_right, Nat.mod_eq_of_lt hv]
  rw [natText, places_of_ge hbase hge, List.flatMap_append, List.flatMap_singleton, hdiv, hmod,
    digit_of_charValue hc]
  rfl

/-- Zeros before a row do not matter. -/
theorem withoutZeros_append_of_zeros (ht : ∀ c ∈ t, s.charValue c = .ok 0) (u : Text) :
    s.withoutZeros (t ++ u) = s.withoutZeros u := by
  have hzeros : ∀ c ∈ t, (String.singleton c == s.leastDigit) = true := fun c hc =>
    beq_iff_eq.2 (charValue_zero_iff.1 (ht c hc))
  rw [withoutZeros, withoutZeros, List.dropWhile_append_of_pos hzeros]

theorem withoutZeros_append (ht : ¬ ∀ c ∈ t, s.charValue c = .ok 0) (u : Text) :
    s.withoutZeros (t ++ u) = s.withoutZeros t ++ u := by
  have hdrop : (t.dropWhile fun c => String.singleton c == s.leastDigit) ≠ [] := fun h =>
    ht fun c hc => charValue_zero_iff.2 (beq_iff_eq.1 (List.dropWhile_eq_nil_iff.1 h c hc))
  rw [withoutZeros, withoutZeros, List.dropWhile_append]
  simp [hdrop]

/-- The zero alone is kept. -/
theorem withoutZeros_singleton (c : Char) : s.withoutZeros [c] = [c] := by
  by_cases h : String.singleton c = s.leastDigit
  · simp [withoutZeros, ← h]
  · simp [withoutZeros, h]

/-- A row has value zero if all its digits have. -/
theorem natValue_zero_iff (ht : ∀ c ∈ t, s.isDigit c = true) :
    s.natValue t = .ok 0 ↔ ∀ c ∈ t, s.charValue c = .ok 0 := by
  induction t with
  | nil => exact iff_of_true rfl (List.forall_mem_nil _)
  | cons c t ih =>
    obtain ⟨hc, ht⟩ := List.forall_mem_cons.1 ht
    obtain ⟨v, hv⟩ := isDigit_iff.1 hc
    obtain ⟨n, -, hn, -⟩ := exists_natValue ht
    have hbase : 2 ≤ s.base := s.two_le
    have hpow : s.base ^ t.length ≠ 0 := (Nat.pow_pos (by omega)).ne'
    have ih := ih ht
    rw [hn, Except.ok.injEq] at ih
    rw [List.forall_mem_cons, ← ih, natValue_cons ht hv hn, hv, Except.ok.injEq, Except.ok.injEq,
      Nat.add_eq_zero_iff, Nat.mul_eq_zero, or_iff_left hpow]

/-- **The numeral of the value of a row** is the row without leading zeros. -/
theorem natText_natValue (ht : ∀ c ∈ t, s.isDigit c = true) (hne : t ≠ [])
    (hn : s.natValue t = .ok n) : s.natText n = s.withoutZeros t := by
  induction t using List.reverseRecOn generalizing n with
  | nil => exact absurd rfl hne
  | append_singleton t c ih =>
    have ht' : ∀ c ∈ t, s.isDigit c = true := fun a ha => ht a (List.mem_append_left _ ha)
    obtain ⟨v, hv⟩ := isDigit_iff.1 (ht c (by simp))
    obtain ⟨m, -, hm, -⟩ := exists_natValue ht'
    cases (natValue_append_digit hm hv).symm.trans hn
    by_cases hzeros : ∀ c ∈ t, s.charValue c = .ok 0
    · -- the last digit is all that counts
      cases hm.symm.trans ((natValue_zero_iff ht').2 hzeros)
      rw [Nat.zero_mul, Nat.zero_add, natText_of_charValue hv, withoutZeros_append_of_zeros hzeros,
        withoutZeros_singleton]
    · have hm0 : m ≠ 0 := fun h => hzeros ((natValue_zero_iff ht').1 (h ▸ hm))
      have htne : t ≠ [] := by
        rintro rfl
        exact hzeros (List.forall_mem_nil _)
      rw [natText_append_digit hm0 hv, ih ht' htne hm, withoutZeros_append hzeros]

/-! ## Order -/

/-- A leading digit counts for more than all digits after it. -/
theorem lt_iff_of_leading {p : Nat} (hm : m < p) (hn : n < p) :
    v * p + m < w * p + n ↔ v < w ∨ v = w ∧ m < n := by
  rcases lt_trichotomy v w with h | h | h
  · have : (v + 1) * p ≤ w * p := Nat.mul_le_mul_right p h
    rw [Nat.succ_mul] at this
    exact iff_of_true (by omega) (.inl h)
  · subst h
    simp
  · have : (w + 1) * p ≤ v * p := Nat.mul_le_mul_right p h
    rw [Nat.succ_mul] at this
    exact iff_of_false (by omega) (by omega)

/-- Rows of one length are ordered digit by digit. -/
theorem natValue_lt_iff_lex (ht : ∀ c ∈ t, s.isDigit c = true) (hu : ∀ c ∈ u, s.isDigit c = true)
    (hlength : t.length = u.length) (hm : s.natValue t = .ok m) (hn : s.natValue u = .ok n) :
    List.Lex s.Below t u ↔ m < n := by
  induction t generalizing u m n with
  | nil =>
    obtain rfl := List.length_eq_zero_iff.1 hlength.symm
    cases hm.symm.trans hn
    exact iff_of_false (fun h => nomatch h) (lt_irrefl m)
  | cons a t ih =>
    obtain ⟨c, u, rfl⟩ := List.exists_cons_of_length_eq_add_one hlength.symm
    rw [List.length_cons, List.length_cons, Nat.add_right_cancel_iff] at hlength
    obtain ⟨ha, ht⟩ := List.forall_mem_cons.1 ht
    obtain ⟨hc, hu⟩ := List.forall_mem_cons.1 hu
    obtain ⟨v, hv⟩ := isDigit_iff.1 ha
    obtain ⟨w, hw⟩ := isDigit_iff.1 hc
    obtain ⟨k, hk, hkt, -⟩ := exists_natValue ht
    obtain ⟨l, hl, hlu, -⟩ := exists_natValue hu
    cases (natValue_cons ht hv hkt).symm.trans hm
    cases (natValue_cons hu hw hlu).symm.trans hn
    have hbelow : s.Below a c ↔ v < w := by
      refine ⟨fun ⟨v', w', hv', hw', h⟩ => ?_, fun h => ⟨v, w, hv, hw, h⟩⟩
      cases hv.symm.trans hv'
      cases hw.symm.trans hw'
      exact h
    have hsame : a = c ↔ v = w := by
      refine ⟨fun h => ?_, fun h => charValue_injective hv (h ▸ hw)⟩
      subst h
      cases hv.symm.trans hw
      rfl
    rw [hlength] at hk
    rw [List.cons_lex_cons_iff, hbelow, hsame, ih ht hu hlength hkt hlu, hlength,
      lt_iff_of_leading hk hl]

theorem isNumeral_iff : s.isNumeral t = true ↔ t ≠ [] ∧ ∀ c ∈ t, s.isDigit c = true := by
  rw [isNumeral, Bool.and_eq_true, Bool.not_eq_true', List.isEmpty_eq_false_iff, List.all_eq_true]

theorem forall_isDigit (ht : s.isNumeral t = true) : t ≠ [] ∧ ∀ c ∈ t, s.isDigit c = true :=
  isNumeral_iff.1 ht

/-- A numeral of more than one digit without leading zeros does not begin with zero. -/
theorem IsCanonical.charValue_ne_zero (ht : s.IsCanonical (c :: t)) (hne : t ≠ []) :
    s.charValue c ≠ .ok 0 := by
  intro hc
  have hzero : ∀ a ∈ [c], s.charValue a = .ok 0 := List.forall_mem_singleton.2 hc
  have hcanonical : s.withoutZeros t = c :: t := by
    rw [← withoutZeros_append_of_zeros hzero]
    exact ht.2
  rw [withoutZeros] at hcanonical
  split_ifs at hcanonical
  · rw [← charValue_zero_iff.1 hc, String.toList_singleton] at hcanonical
    exact hne (List.cons.inj hcanonical).2.symm
  · have hle := (List.dropWhile_suffix (l := t) fun c => String.singleton c == s.leastDigit).length_le
    rw [hcanonical, List.length_cons] at hle
    omega

/-- So it has at least the value of the power of the base with as many digits. -/
theorem IsCanonical.base_pow_le (ht : s.IsCanonical (c :: t)) (hne : t ≠ [])
    (hn : s.natValue (c :: t) = .ok n) : s.base ^ t.length ≤ n := by
  obtain ⟨hc, hdigits⟩ := List.forall_mem_cons.1 (forall_isDigit ht.1).2
  obtain ⟨v, hv⟩ := isDigit_iff.1 hc
  obtain ⟨k, -, hk, -⟩ := exists_natValue hdigits
  cases (natValue_cons hdigits hv hk).symm.trans hn
  have hv0 : v ≠ 0 := fun h => ht.charValue_ne_zero hne (h ▸ hv)
  exact (Nat.le_mul_of_pos_left _ (Nat.pos_of_ne_zero hv0)).trans (Nat.le_add_right _ _)

/-- A longer numeral without leading zeros has a greater value. -/
theorem IsCanonical.natValue_lt_of_length (hu : s.IsCanonical u)
    (ht : s.isNumeral t = true) (hlength : t.length < u.length) (hm : s.natValue t = .ok m)
    (hn : s.natValue u = .ok n) : m < n := by
  have hbase : 2 ≤ s.base := s.two_le
  obtain ⟨hne, hdigits⟩ := forall_isDigit ht
  obtain ⟨c, u, rfl⟩ := List.exists_cons_of_length_pos (Nat.zero_lt_of_lt hlength)
  rw [List.length_cons, Nat.lt_succ_iff] at hlength
  have hune : u ≠ [] := List.ne_nil_of_length_pos ((List.length_pos_iff.2 hne).trans_le hlength)
  calc m < s.base ^ t.length := natValue_lt hdigits hm
    _ ≤ s.base ^ u.length := Nat.pow_le_pow_right (by omega) hlength
    _ ≤ n := hu.base_pow_le hune hn

/-- **Numerals without leading zeros are ordered** by length, and those of one length digit by
digit. -/
theorem natValue_lt_iff (ht : s.IsCanonical t) (hu : s.IsCanonical u) (hm : s.natValue t = .ok m)
    (hn : s.natValue u = .ok n) : List.Shortlex s.Below t u ↔ m < n := by
  rw [List.shortlex_def]
  rcases lt_trichotomy t.length u.length with h | h | h
  · exact iff_of_true (.inl h) (hu.natValue_lt_of_length ht.1 h hm hn)
  · rw [natValue_lt_iff_lex (forall_isDigit ht.1).2 (forall_isDigit hu.1).2 h hm hn,
      or_iff_right h.not_lt, and_iff_right h]
  · have hlt := ht.natValue_lt_of_length hu.1 h hn hm
    exact iff_of_false (by omega) hlt.not_gt

/-! ## Integers -/

theorem isDigit_minus : s.isDigit '-' = false := s.isDigit_of_reserved (by decide)

/-- A row of digits is read without a sign. -/
theorem valueOf_of_natValue (hne : t ≠ []) (ht : ∀ c ∈ t, s.isDigit c = true)
    (hn : s.natValue t = .ok n) : s.valueOf t = .ok n := by
  rw [valueOf.eq_def]
  split
  · exact absurd rfl hne
  · have := ht '-' List.mem_cons_self
    rw [isDigit_minus] at this
    cases this
  · rw [hn]
    rfl

theorem valueOf_minus (hn : s.natValue t = .ok n) : s.valueOf ('-' :: t) = .ok (-n) := by
  rw [valueOf, hn]
  rfl

theorem toText_neg (n : Nat) :
    s.toText (-n) = if n = 0 then s.natText n else '-' :: s.natText n := by
  rw [toText, Int.natAbs_neg, Int.natAbs_natCast]
  by_cases h : n = 0
  · rw [if_neg (by omega), if_pos h]
  · rw [if_pos (by omega), if_neg h]

/-- The numeral of an integer has its value. -/
theorem valueOf_toText (hs : s.HasCharDigits) (v : Int) : s.valueOf (s.toText v) = .ok v := by
  have hvalue := natValue_natText hs v.natAbs
  rw [toText]
  split_ifs with h
  · rw [valueOf_minus hvalue]
    exact congrArg Except.ok (by omega)
  · rw [valueOf_of_natValue (natText_ne_nil hs _) (isDigit_of_mem_natText hs _) hvalue]
    exact congrArg Except.ok (by omega)

theorem isCanonical_natText (hs : s.HasCharDigits) (n : Nat) : s.IsCanonical (s.natText n) := by
  have hdigits := isDigit_of_mem_natText hs n
  have hne := natText_ne_nil hs n
  refine ⟨?_, (natText_natValue hdigits hne (natValue_natText hs n)).symm⟩
  rw [isNumeral, List.all_eq_true.2 hdigits, Bool.and_true, Bool.not_eq_true',
    List.isEmpty_eq_false_iff]
  exact hne

/-- **Writing and reading are inverse to each other** between integers and numerals without leading
zeros. The numeral of an integer has its value and no leading zeros; every row of digits has a
value, whose numeral is the row without leading zeros; with a minus sign before it the sign is kept
unless the value is zero. Among the numerals without leading zeros reading keeps the order: the
shorter one has the smaller value, and of two of one length the first digit they differ in
decides. -/
theorem conversion_canonical (hs : s.HasCharDigits) :
    (∀ v : Int, s.valueOf (s.toText v) = .ok v) ∧
    (∀ n : Nat, s.IsCanonical (s.toText n)) ∧
    (∀ t, s.isNumeral t = true → ∃ n : Nat,
      s.valueOf t = .ok n ∧ s.toText n = s.withoutZeros t ∧
      s.valueOf ('-' :: t) = .ok (-n) ∧
      s.toText (-n) = if n = 0 then s.withoutZeros t else '-' :: s.withoutZeros t) ∧
    ∀ t u, s.IsCanonical t → s.IsCanonical u → ∃ m n : Int,
      s.valueOf t = .ok m ∧ s.valueOf u = .ok n ∧ (List.Shortlex s.Below t u ↔ m < n) := by
  refine ⟨valueOf_toText hs, fun n => ?_, fun t ht => ?_, fun t u ht hu => ?_⟩
  · rw [toText_natCast]
    exact isCanonical_natText hs n
  · obtain ⟨hne, hdigits⟩ := forall_isDigit ht
    obtain ⟨n, -, hn, -⟩ := exists_natValue hdigits
    have htext := natText_natValue hdigits hne hn
    refine ⟨n, valueOf_of_natValue hne hdigits hn, ?_, valueOf_minus hn, ?_⟩
    · rw [toText_natCast, htext]
    · rw [toText_neg, htext]
  · obtain ⟨hne, hdigits⟩ := forall_isDigit ht.1
    obtain ⟨hne', hdigits'⟩ := forall_isDigit hu.1
    obtain ⟨m, -, hm, -⟩ := exists_natValue hdigits
    obtain ⟨n, -, hn, -⟩ := exists_natValue hdigits'
    refine ⟨m, n, valueOf_of_natValue hne hdigits hm, valueOf_of_natValue hne' hdigits' hn, ?_⟩
    rw [natValue_lt_iff ht hu hm hn, Int.ofNat_lt]

/-- A system with three letters as its digits. -/
def threeLetters : NumeralSystem :=
  ofChars ['z', 'u', 't'] "Letters" (by decide) (by decide) (unreserved_of_all (by decide))

theorem five_in_letters :
    threeLetters.HasCharDigits ∧
    threeLetters.valueOf (threeLetters.toText (-5)) = .ok (-5) ∧
    (threeLetters.isNumeral "zzut".toList = true ∧ threeLetters.valueOf "zzut".toList = .ok 5 ∧
      threeLetters.toText 5 = "ut".toList ∧ threeLetters.toText (-5) = "-ut".toList) ∧
    threeLetters.IsCanonical "ut".toList ∧ threeLetters.IsCanonical "tz".toList ∧
    List.Shortlex threeLetters.Below "ut".toList "tz".toList := by
  have hchars : threeLetters.HasCharDigits := fun d hd => by
    obtain ⟨c, -, rfl⟩ := List.mem_map.1 hd
    exact ⟨c, rfl⟩
  obtain ⟨hint, -, hrow, horder⟩ := conversion_canonical hchars
  have hzzut : threeLetters.isNumeral "zzut".toList = true := by decide
  have hfive : threeLetters.valueOf "zzut".toList = .ok 5 := by decide
  have hwithout : threeLetters.withoutZeros "zzut".toList = "ut".toList := by decide
  obtain ⟨n, hn, htext, -, hminus⟩ := hrow _ hzzut
  cases Int.ofNat_inj.1 (Except.ok.inj (hn.symm.trans hfive))
  rw [hwithout] at htext hminus
  have hut : threeLetters.IsCanonical "ut".toList := ⟨by decide, by decide⟩
  have htz : threeLetters.IsCanonical "tz".toList := ⟨by decide, by decide⟩
  obtain ⟨m, k, hm, hk, hlt⟩ := horder _ _ hut htz
  cases hm.symm.trans (show threeLetters.valueOf "ut".toList = .ok 5 by decide)
  cases hk.symm.trans (show threeLetters.valueOf "tz".toList = .ok 6 by decide)
  exact ⟨hchars, hint (-5), ⟨hzzut, hfive, htext, hminus⟩, hut, htz, hlt.2 (by decide)⟩

end RatCalc.NumeralSystem

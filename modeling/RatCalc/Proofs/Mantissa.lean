import RatCalc.Proofs.RunLength
import RatCalc.Proofs.SignificantDigits

/-!
# Mantissa and exponent of an expansion

* `shownDigits`: the digits that a mantissa shows; `Writes`, a row of digits that a part of a
  mantissa shows.
* `Layout`: a text of a sign, a mantissa, an exponent and a note.
* `row`, `Misplaced`: the digits that were worked out, and the expansions of which not all zeros at
  the start of the period are shown.
* **`scientificOf_of_nil`**, **`layout_of_cons`**: the text shows the first of these digits with its
  place, and those that follow it unless they are misplaced.
-/

namespace RatCalc

open Text RunLength

namespace Expansion

/-! ## Digits of a mantissa -/

/-- What stands between the digits of a mantissa: the sign, the point and the mark of the period. -/
def fillers : Text := ['-', '.', '#']

/-- What is left of a mantissa without them. -/
def withoutFillers (m : Text) : Text := m.filter fun c => !fillers.elem c

/-- The digits that a mantissa shows, with its groups written out. -/
def shownDigits (m : Text) : Text := expand (withoutFillers m)

/-- What stands before the exponent. -/
def mantissa (t : Text) : Text := t.takeWhile (· != 'E')

theorem withoutFillers_append (m n : Text) :
    withoutFillers (m ++ n) = withoutFillers m ++ withoutFillers n := List.filter_append m n

/-- A part of a mantissa shows a row of digits, whatever follows it. -/
structure Writes (m x : Text) : Prop where
  no_exponent : 'E' ∉ m
  expand_append : ∀ w, expand (withoutFillers m ++ w) = x ++ expand w

theorem Writes.append {m n x y : Text} (hm : Writes m x) (hn : Writes n y) :
    Writes (m ++ n) (x ++ y) where
  no_exponent := by
    rw [List.mem_append, not_or]
    exact ⟨hm.no_exponent, hn.no_exponent⟩
  expand_append w := by
    rw [withoutFillers_append, List.append_assoc, hm.expand_append, hn.expand_append,
      List.append_assoc]

theorem Writes.shownDigits_eq {m x : Text} (h : Writes m x) : shownDigits m = x :=
  expand_eq_of_append h.expand_append

/-- Digits and groups are written out, and hold no fillers. -/
theorem writes_of_groups {m x : Text}
    (h : ∀ c ∈ m, isPlainDigit c = true ∨ c = '\x7b' ∨ c = '~' ∨ c = '\x7d')
    (hexpand : ∀ w, expand (m ++ w) = x ++ expand w) : Writes m x := by
  have hnot : ∀ s, isPlainDigit s = false → s ∉ ['\x7b', '~', '\x7d'] → s ∉ m := by
    intro s hs hbrace hm
    rcases h s hm with hplain | hgroup
    · exact ne_of_plain hplain hs rfl
    · exact hbrace (by simpa using hgroup)
  have hfillers : ∀ s ∈ fillers, isPlainDigit s = false ∧ s ∉ ['\x7b', '~', '\x7d'] :=
    forall_of_all (by decide)
  have hfilter : withoutFillers m = m := by
    refine List.filter_eq_self.2 fun c hc => ?_
    rw [Bool.not_eq_true', Bool.eq_false_iff, ne_eq, List.elem_iff]
    exact fun hf => hnot c (hfillers c hf).1 (hfillers c hf).2 hc
  exact ⟨hnot 'E' (by decide) (by decide), fun w => by rw [hfilter, hexpand]⟩

theorem writes_grouped (useGroups : Bool) (threshold : Nat) {t : Text}
    (h : ∀ c ∈ t, isPlainDigit c = true) : Writes (grouped useGroups threshold t) t :=
  writes_of_groups (fun _ hc => mem_grouped h hc) (expand_grouped useGroups threshold h)

theorem writes_digits {t : Text} (h : ∀ c ∈ t, isPlainDigit c = true) : Writes t t :=
  writes_grouped false 0 h

theorem writes_filler {c : Char} (h : c ∈ fillers) : Writes [c] [] where
  no_exponent hm := by
    rw [List.mem_singleton] at hm
    exact absurd h (hm ▸ by decide)
  expand_append w := by
    rw [withoutFillers, List.filter_cons_of_neg (by simpa using List.elem_iff.2 h)]
    rfl

theorem writes_sign (negative : Bool) : Writes (sign negative) [] := by
  cases negative with
  | true => exact writes_filler (by decide)
  | false => exact writes_digits (List.forall_mem_nil _)

/-- Digits go on after a filler. -/
theorem Writes.filler_cons {c : Char} {m x : Text} (h : Writes m x) (hc : c ∈ fillers) :
    Writes (c :: m) x := (writes_filler hc).append h

/-- A point after the first digit is not shown. -/
theorem writes_point {t : Text} (h : ∀ c ∈ t, isPlainDigit c = true) :
    Writes (t.take 1 ++ '.' :: t.drop 1) t := by
  have hd := (writes_digits fun c hc => h c (List.mem_of_mem_drop hc)).filler_cons
    (m := t.drop 1) (c := '.') (by decide)
  have h := (writes_digits fun c hc => h c (List.mem_of_mem_take hc)).append (m := t.take 1) hd
  rwa [List.take_append_drop] at h

theorem Writes.mantissa_eq {m x : Text} (h : Writes m x) (rest : Text) :
    mantissa (m ++ 'E' :: rest) = m := by
  rw [mantissa, List.takeWhile_append_of_pos, List.takeWhile_cons_of_neg (by decide),
    List.append_nil]
  intro c hc
  rw [bne_iff_ne]
  rintro rfl
  exact h.no_exponent hc

/-! ## Exponents and notes -/

/-- The exponent with its sign. -/
def exponent (k : Int) : Text := 'E' :: (if 0 ≤ k then '+' else '-') :: Numeral.ofNat k.natAbs

theorem exponent_natCast (n : Nat) : exponent n = 'E' :: '+' :: Numeral.ofNat n := by
  rw [exponent, if_pos (Int.natCast_nonneg n), Int.natAbs_natCast]

theorem negativeExponent_eq (zeros : Nat) : negativeExponent zeros = exponent (-(zeros + 1)) := by
  rw [exponent, if_neg (by omega), negativeExponent]
  congr 3

/-- A note is set off with a blank, and there is none unless it is wanted. -/
def IsNote (shown : Bool) (note : Text) : Prop :=
  (shown = false → note = []) ∧ ∀ c ∈ note.head?, c = ' '

theorem isNote_nil (shown : Bool) : IsNote shown [] := ⟨fun _ => rfl, nofun⟩

theorem isNote_periodNote (e : Expansion) (shown : Bool) : IsNote shown (periodNote e shown) := by
  refine ⟨fun h => by rw [h]; rfl, ?_⟩
  rw [periodNote]
  simp only
  generalize (_ ++ _ : List Text) = notes
  split_ifs
  · exact nofun
  · exact nofun
  · exact fun c hc => (Option.mem_some_iff.1 hc).symm

/-- A text of a sign, a mantissa that starts with the digit `c` and shows the digits `x`, an
exponent and a note. -/
def Layout (negative : Bool) (c : Char) (x : Text) (k : Int) (shown : Bool) (t : Text) : Prop :=
  ∃ m note, t = sign negative ++ (m ++ (exponent k ++ note)) ∧ m.head? = some c ∧ Writes m x ∧
    IsNote shown note

theorem Layout.shownDigits_eq {negative shown : Bool} {c : Char} {x t : Text} {k : Int}
    (h : Layout negative c x k shown t) : shownDigits (mantissa t) = x := by
  obtain ⟨m, note, rfl, -, hm, -⟩ := h
  have hw := (writes_sign negative).append hm
  rw [← List.append_assoc, exponent, List.cons_append, hw.mantissa_eq]
  exact hw.shownDigits_eq

/-! ## The digits of an expansion -/

variable {e : Expansion} {c : Char} {t u : Text} (useGroups : Bool) (precision : Nat)
  (withNote : Bool)

/-- All digits that were worked out. -/
def row (e : Expansion) : Text := Numeral.ofNat e.whole ++ (e.initial ++ e.period)

/-- How many of them stand behind the point. -/
def places (e : Expansion) : Nat := e.initial.length + e.period.length

/-- The segments are rows of digits, and an expansion that ends has no period. -/
structure IsPlain (e : Expansion) : Prop where
  initial : ∀ c ∈ e.initial, isPlainDigit c = true
  period : ∀ c ∈ e.period, isPlainDigit c = true
  ends : e.terminates = true → e.period = []

theorem head?_ofNat {n : Nat} (h : n ≠ 0) : (Numeral.ofNat n).head? ≠ some '0' := by
  induction n using Nat.strongRecOn with
  | ind n ih =>
    by_cases hn : n < 10
    · rw [Numeral.ofNat_of_lt hn]
      interval_cases n <;> first | exact absurd rfl h | decide
    · rw [Numeral.ofNat_of_ge (by omega), List.head?_append_of_ne_nil _ (Numeral.ofNat_ne_nil _)]
      exact ih (n / 10) (by omega) (by omega)

theorem rest_of_head? (h : t.head? ≠ some '0') : (splitZeros t).2 = t := by
  cases t with
  | nil => rfl
  | cons c t => exact List.dropWhile_cons_of_neg (p := (· == '0')) (by simpa using h)

theorem length_splitZeros (t : Text) : (splitZeros t).1 + (splitZeros t).2.length = t.length := by
  have h := congrArg List.length (splitZeros_spec t).1
  rwa [List.length_append, List.length_replicate] at h

theorem rest_row_of_pos (h : 0 < e.whole) : (splitZeros e.row).2 = e.row := by
  refine rest_of_head? ?_
  rw [row, List.head?_append_of_ne_nil _ (Numeral.ofNat_ne_nil _)]
  exact head?_ofNat h.ne'

theorem rest_row_of_zero (h : e.whole = 0) :
    (splitZeros e.row).2 =
      if (splitZeros e.initial).2 = [] then (splitZeros e.period).2
      else (splitZeros e.initial).2 ++ e.period := by
  rw [row, h, rest_append, rest_append]
  rfl

/-! ## Magnitudes of one or more -/

theorem head?_take_one (h : t.head? = some c) (w : Text) : (t.take 1 ++ w).head? = some c := by
  rw [List.head?_append, List.head?_take, if_neg one_ne_zero, h]
  rfl

theorem scientificLarge_eq (hp : e.IsPlain) {us : Text} (h : Numeral.ofNat e.whole = c :: us) :
    ∃ m x, scientificLarge e useGroups precision = m ++ exponent us.length ∧ m.head? = some c ∧
      Writes m x ∧ x <+: e.row := by
  have hwhole : ∀ c ∈ Numeral.ofNat e.whole, isPlainDigit c = true :=
    Numeral.all_isPlainDigit_ofNat _
  have hhead : (Numeral.ofNat e.whole).head? = some c := by rw [h]; rfl
  have hexp : exponent us.length =
      'E' :: '+' :: Numeral.ofNat ((Numeral.ofNat e.whole).length - 1) := by
    rw [exponent_natCast, h, List.length_cons, Nat.add_sub_cancel]
  have hfixed : Writes (wholeMantissa e useGroups) (Numeral.ofNat e.whole ++ e.initial) :=
    (writes_point hwhole).append (writes_grouped useGroups 4 hp.initial)
  have hfixedHead : ∀ w, (wholeMantissa e useGroups ++ w).head? = some c := fun w => by
    rw [wholeMantissa, List.append_assoc, List.append_assoc]
    exact head?_take_one hhead _
  rw [row, ← List.append_assoc, hexp, scientificLarge]
  split_ifs
  · refine ⟨_, _, rfl, ?_, writes_digits fun c hc => hwhole c (List.mem_of_mem_take hc), ?_⟩
    · exact (congrArg List.head? (List.append_nil _).symm).trans (head?_take_one hhead [])
    · exact ((List.take_prefix _ _).trans (List.prefix_append _ _)).trans (List.prefix_append _ _)
  · refine ⟨_, _, rfl, ?_, hfixed, List.prefix_append _ _⟩
    exact (congrArg List.head? (List.append_nil _).symm).trans (hfixedHead [])
  · exact ⟨_, _, rfl, hfixedHead _,
      hfixed.append ((writes_grouped true 6 hp.period).filler_cons (by decide)),
      List.prefix_rfl⟩
  · refine ⟨_, _, rfl, hfixedHead _, hfixed.append (Writes.filler_cons (writes_digits
      fun c hc => hp.period c (List.mem_of_mem_take hc)) (by decide)), ?_⟩
    exact (List.prefix_append_right_inj _).2 (List.take_prefix _ _)

/-! ## Smaller magnitudes -/

/-- A first digit with some of the digits that follow it. -/
theorem writes_leadingDigits (h : ∀ c ∈ t, isPlainDigit c = true) :
    ∃ k, Writes (leadingDigits t precision) (t.take k) := by
  rw [leadingDigits]
  split_ifs
  · rw [List.append_nil]
    exact ⟨1, writes_digits fun c hc => h c (List.mem_of_mem_take hc)⟩
  · refine ⟨room precision, ?_⟩
    have hroom : min 1 (room precision) = 1 := by
      rw [room]
      split_ifs <;> omega
    have hp := writes_point (t := t.take (room precision))
      fun c hc => h c (List.mem_of_mem_take hc)
    rwa [List.take_take, hroom] at hp

theorem head?_leadingDigits (h : t.head? = some c) :
    (leadingDigits t precision).head? = some c := head?_take_one h _

theorem room_pos (k : Nat) : ∃ n, room k = n + 1 := by
  rw [room]
  split_ifs with h
  · exact ⟨0, rfl⟩
  · exact ⟨k - 1, by omega⟩

/-- How many of the zeros at the start of a period stand in a mantissa. -/
def shownZeros (zeros : Nat) : Nat :=
  if useGroups && decide (6 ≤ zeros) then zeros else if zeros < 10 then zeros else 10

theorem shownZeros_le (zeros : Nat) : shownZeros useGroups zeros ≤ zeros := by
  rw [shownZeros]
  split_ifs <;> omega

theorem shownZeros_eq_iff (zeros : Nat) :
    shownZeros useGroups zeros = zeros ↔ ¬ (useGroups = false ∧ 10 < zeros) := by
  rw [shownZeros]
  cases useGroups with
  | true =>
    simp only [Bool.true_and, decide_eq_true_eq, Bool.true_eq_false, false_and, not_false_iff,
      iff_true]
    split_ifs <;> omega
  | false =>
    simp only [Bool.false_and, Bool.false_eq_true, if_false, true_and, not_lt]
    split_ifs <;> omega

/-- A group of zeros. -/
theorem writes_zeros (k : Nat) :
    Writes ('\x7b' :: '0' :: '~' :: (Numeral.ofNat k ++ ['\x7d'])) (List.replicate k '0') := by
  have hzero : isPlainDigit '0' = true := by decide
  have hgroup : writeRun 0 ('0', k) = '\x7b' :: '0' :: '~' :: (Numeral.ofNat k ++ ['\x7d']) :=
    if_pos (Nat.zero_le k)
  rw [← hgroup]
  exact writes_of_groups (fun _ hc => mem_writeRun hzero hc) (expand_writeRun 0 (isDecimal_of_plain hzero))

theorem writes_initialMantissa (hp : e.IsPlain) :
    Writes (initialMantissa e useGroups)
      ((splitZeros e.initial).2 ++
        List.replicate (shownZeros useGroups (splitZeros e.period).1) '0') := by
  have hfixed := (writes_point (plain_rest hp.initial)).append
    (writes_filler (c := '#') (by decide))
  rw [List.append_nil] at hfixed
  rw [initialMantissa, shownZeros]
  split_ifs
  · exact hfixed.append (writes_zeros _)
  all_goals
    exact hfixed.append (writes_digits fun c hc => by rw [List.eq_of_mem_replicate hc]; decide)

theorem writes_mixedMantissa (hp : e.IsPlain) :
    ∃ n, Writes (mixedMantissa e useGroups precision)
      ((splitZeros e.initial).2 ++
        (List.replicate (shownZeros useGroups (splitZeros e.period).1) '0' ++
          (splitZeros e.period).2.take (n + 1))) := by
  obtain ⟨n, hn⟩ := room_pos (precision + 1 - (initialMantissa e useGroups).length)
  refine ⟨n, ?_⟩
  rw [mixedMantissa, ← List.append_assoc, hn]
  exact (writes_initialMantissa useGroups hp).append
    (writes_digits fun c hc => plain_rest hp.period c (List.mem_of_mem_take hc))

theorem head?_mixedMantissa (h : (splitZeros e.initial).2.head? = some c) :
    (mixedMantissa e useGroups precision).head? = some c := by
  rw [mixedMantissa, initialMantissa]
  split_ifs <;> simp only [List.append_assoc] <;> exact head?_take_one h _

/-- Fewer zeros than there are do not go on with the digits after them. -/
theorem zeros_prefix_iff {j k n : Nat} (hj : j ≤ k) (ht : t.head? ≠ some '0') :
    List.replicate j '0' ++ t.take (n + 1) <+: List.replicate k '0' ++ t ↔ j = k ∨ t = [] := by
  obtain ⟨i, rfl⟩ := Nat.exists_eq_add_of_le hj
  rw [List.replicate_add, List.append_assoc, List.prefix_append_right_inj]
  cases i with
  | zero => exact iff_of_true (List.take_prefix _ _) (.inl rfl)
  | succ i =>
    cases t with
    | nil => exact iff_of_true List.nil_prefix (.inr rfl)
    | cons c t =>
      refine iff_of_false (fun h => ht ?_) (by simp)
      exact congrArg some (List.cons_prefix_cons.1 h).1

/-- The first digits of the period are cut in a mantissa, but their place is moved up: there are
more zeros before them than are shown. -/
def Misplaced (e : Expansion) : Prop :=
  useGroups = false ∧ e.whole = 0 ∧ e.terminates = false ∧ (splitZeros e.initial).2 ≠ [] ∧
    10 < (splitZeros e.period).1 ∧ (splitZeros e.period).2 ≠ []

/-! ## The parts of the text -/

/-- **Nothing is shown but a zero** if there is no significant digit among those worked out. -/
theorem scientificOf_of_nil (h : (splitZeros e.row).2 = []) :
    scientificOf e useGroups precision withNote = sign e.negative ++ ['0'] := by
  have hzero : e.whole = 0 := by
    by_contra hne
    rw [rest_row_of_pos (Nat.pos_of_ne_zero hne), row] at h
    exact Numeral.ofNat_ne_nil _ (List.append_eq_nil_iff.1 h).1
  rw [rest_row_of_zero hzero] at h
  split_ifs at h with hinitial
  · rw [scientificOf]
    simp [hzero, hinitial, h]
  · exact absurd (List.append_eq_nil_iff.1 h).1 hinitial

/-- A mantissa and its exponent in a text. -/
theorem layout_of_mantissa {m x note : Text} {k : Int} (negative : Bool)
    (hhead : m.head? = some c) (hm : Writes m x) (hnote : IsNote withNote note) :
    Layout negative c x k withNote (sign negative ++ m ++ exponent k ++ note) :=
  ⟨m, note, by simp only [List.append_assoc], hhead, hm, hnote⟩

/-- A mantissa of the first digits of a row. -/
theorem layout_leading (negative : Bool) {k : Int} {note : Text}
    (hplain : ∀ c ∈ t, isPlainDigit c = true) (h : t.head? = some c)
    (hnote : IsNote withNote note) :
    ∃ x, Layout negative c x k withNote
        (sign negative ++ leadingDigits t precision ++ exponent k ++ note) ∧ x <+: t := by
  obtain ⟨n, hn⟩ := writes_leadingDigits precision hplain
  exact ⟨t.take n, layout_of_mantissa withNote negative (head?_leadingDigits precision h) hn hnote,
    List.take_prefix n t⟩

section Cases

variable (hp : e.IsPlain)

include hp

theorem layout_large (hwhole : 0 < e.whole) (h : (splitZeros e.row).2 = c :: u) :
    ∃ x, Layout e.negative c x (u.length - e.places) withNote
        (scientificOf e useGroups precision withNote) ∧ x <+: c :: u := by
  rw [rest_row_of_pos hwhole] at h
  obtain ⟨us, hus⟩ : ∃ us, Numeral.ofNat e.whole = c :: us := by
    cases hus : Numeral.ofNat e.whole with
    | nil => exact absurd hus (Numeral.ofNat_ne_nil _)
    | cons c' us =>
      rw [row, hus, List.cons_append, List.cons.injEq] at h
      exact ⟨us, by rw [h.1]⟩
  have hexp : (u.length : Int) - e.places = us.length := by
    have := congrArg List.length h
    simp only [row, hus, List.length_append, List.length_cons] at this
    rw [places]
    omega
  obtain ⟨m, x, heq, hhead, hm, hx⟩ := scientificLarge_eq useGroups precision hp hus
  refine ⟨x, ?_, h ▸ hx⟩
  rw [scientificOf, hexp]
  simp only [if_pos hwhole, heq, ← List.append_assoc]
  exact layout_of_mantissa withNote _ hhead hm (isNote_periodNote e withNote)

theorem layout_of_terminates (hwhole : e.whole = 0) (ht : e.terminates = true)
    (h : (splitZeros e.row).2 = c :: u) :
    ∃ x, Layout e.negative c x (u.length - e.places) withNote
        (scientificOf e useGroups precision withNote) ∧ x <+: c :: u := by
  have hperiod := hp.ends ht
  have hrest : (splitZeros e.initial).2 = c :: u := by
    rw [rest_row_of_zero hwhole, hperiod] at h
    split_ifs at h with hnil
    · cases h
    · rwa [List.append_nil] at h
  have hlength := length_splitZeros e.initial
  have hexp : (u.length : Int) - e.places = -((splitZeros e.initial).1 + 1) := by
    rw [hrest, List.length_cons] at hlength
    rw [places, hperiod, List.length_nil]
    omega
  obtain ⟨x, hx, hprefix⟩ := layout_leading precision withNote e.negative
    (k := -((splitZeros e.initial).1 + 1)) (plain_rest hp.initial) (by rw [hrest]; rfl)
    (isNote_nil withNote)
  refine ⟨x, ?_, hrest ▸ hprefix⟩
  rw [scientificOf, hexp]
  simpa [hwhole, ht, hrest, negativeExponent_eq] using hx

theorem layout_periodic (hwhole : e.whole = 0) (ht : e.terminates = false)
    (hinitial : (splitZeros e.initial).2 = []) (h : (splitZeros e.row).2 = c :: u) :
    ∃ x, Layout e.negative c x (u.length - e.places) withNote
        (scientificOf e useGroups precision withNote) ∧ x <+: c :: u := by
  have hrest : (splitZeros e.period).2 = c :: u := by
    rwa [rest_row_of_zero hwhole, if_pos hinitial] at h
  have hexp : (u.length : Int) - e.places =
      -(((splitZeros e.initial).1 + (splitZeros e.period).1 : Nat) + 1) := by
    have hi := length_splitZeros e.initial
    have hp := length_splitZeros e.period
    rw [hinitial, List.length_nil] at hi
    rw [hrest, List.length_cons] at hp
    rw [places]
    omega
  obtain ⟨x, hx, hprefix⟩ := layout_leading precision withNote e.negative
    (k := -(((splitZeros e.initial).1 + (splitZeros e.period).1 : Nat) + 1))
    (plain_rest hp.period) (by rw [hrest]; rfl) (isNote_periodNote e withNote)
  refine ⟨x, ?_, hrest ▸ hprefix⟩
  rw [scientificOf, hexp]
  simpa [hwhole, ht, hinitial, hrest, negativeExponent_eq] using hx

/-- The first digit is in the initial segment, and the period follows it. -/
theorem layout_mixed (hwhole : e.whole = 0) (ht : e.terminates = false)
    (hinitial : (splitZeros e.initial).2 ≠ []) (h : (splitZeros e.row).2 = c :: u) :
    ∃ x, Layout e.negative c x (u.length - e.places) withNote
        (scientificOf e useGroups precision withNote) ∧
      x.length ≤ u.length + 1 ∧ (x <+: c :: u ↔ ¬ Misplaced useGroups e) := by
  rw [rest_row_of_zero hwhole, if_neg hinitial] at h
  have hzeros := shownZeros_le useGroups (splitZeros e.period).1
  have hlengthPeriod := length_splitZeros e.period
  have hlength := congrArg List.length h
  rw [List.length_append, List.length_cons] at hlength
  have hexp : (u.length : Int) - e.places = -((splitZeros e.initial).1 + 1) := by
    have := length_splitZeros e.initial
    rw [places]
    omega
  have hhead : (splitZeros e.initial).2.head? = some c := by
    have happend := congrArg List.head? h
    rw [List.head?_append_of_ne_nil _ hinitial] at happend
    exact happend
  obtain ⟨n, hm⟩ := writes_mixedMantissa useGroups precision hp
  have hlayout := layout_of_mantissa (k := -((splitZeros e.initial).1 + 1)) withNote e.negative
    (head?_mixedMantissa useGroups precision hhead) hm (isNote_periodNote e withNote)
  refine ⟨(splitZeros e.initial).2 ++ (List.replicate (shownZeros useGroups
    (splitZeros e.period).1) '0' ++ (splitZeros e.period).2.take (n + 1)), ?_, ?_, ?_⟩
  · rw [scientificOf, hexp]
    simpa [hwhole, ht, hinitial, negativeExponent_eq] using hlayout
  · simp only [List.length_append, List.length_replicate, List.length_take]
    omega
  · have hprefix := zeros_prefix_iff (n := n) hzeros (splitZeros_spec e.period).2
    rw [(splitZeros_spec e.period).1, shownZeros_eq_iff] at hprefix
    rw [← h, List.prefix_append_right_inj, hprefix, Misplaced]
    tauto

end Cases

/-- **The text with mantissa and exponent**: the first digit and the exponent are those of the
digits worked out, and the digits that are shown are the first of them unless they are misplaced. -/
theorem layout_of_cons (hp : e.IsPlain) (h : (splitZeros e.row).2 = c :: u) :
    ∃ x, Layout e.negative c x (u.length - e.places) withNote
        (scientificOf e useGroups precision withNote) ∧
      x.length ≤ u.length + 1 ∧ (x <+: c :: u ↔ ¬ Misplaced useGroups e) := by
  have hmain : ¬ Misplaced useGroups e → (∃ x, Layout e.negative c x (u.length - e.places) withNote
        (scientificOf e useGroups precision withNote) ∧ x <+: c :: u) →
      ∃ x, Layout e.negative c x (u.length - e.places) withNote
        (scientificOf e useGroups precision withNote) ∧
        x.length ≤ u.length + 1 ∧ (x <+: c :: u ↔ ¬ Misplaced useGroups e) :=
    fun hnot ⟨x, hx, hprefix⟩ => ⟨x, hx, hprefix.length_le, iff_of_true hprefix hnot⟩
  by_cases hwhole : e.whole = 0
  · cases ht : e.terminates with
    | true =>
      exact hmain (fun hs => by rw [hs.2.2.1] at ht; cases ht)
        (layout_of_terminates useGroups precision withNote hp hwhole ht h)
    | false =>
      by_cases hinitial : (splitZeros e.initial).2 = []
      · exact hmain (fun hs => hs.2.2.2.1 hinitial)
          (layout_periodic useGroups precision withNote hp hwhole ht hinitial h)
      · exact layout_mixed useGroups precision withNote hp hwhole ht hinitial h
  · exact hmain (fun hs => hwhole hs.2.1)
      (layout_large useGroups precision withNote hp (Nat.pos_of_ne_zero hwhole) h)

end Expansion

end RatCalc

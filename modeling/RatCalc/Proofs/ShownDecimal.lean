import RatCalc.Display
import RatCalc.Proofs.DecimalLiteral
import RatCalc.Proofs.Takes

/-!
# Decimals as they are shown

* `cutPeriod_cases`, `cut_cases`: where a repeating decimal is cut.
* `Faithful`: a text tells the sign, the whole part and some digits of a number.
* `shown_cases`: what is shown of a number whose expansion does not end.
* **`decimal_faithful_iff`**: when it tells the number.
-/

namespace RatCalc.Display

open Expansion Ratio RunLength Text

variable {before after mark : Text} {limit : Int}

/-! ## Where a decimal is cut -/

/-- A decimal is not cut, or cut before its period, or in it. Point and digits make up the limit. -/
theorem cutPeriod_cases (hlimit : 0 ≤ limit) (hb : '#' ∉ before) (after : Text) :
    (before.length + after.length ≤ limit + 1 ∧
        cutPeriod (before ++ '#' :: after) limit = none) ∨
      (limit + 1 < before.length ∧ cutPeriod (before ++ '#' :: after) limit =
        some (before.take (limit + 1).toNat ++ dots)) ∨
      (∃ x, x <+: after ∧ before.length + x.length ≤ limit + 1 ∧
        cutPeriod (before ++ '#' :: after) limit = some (before ++ '#' :: (x ++ dots))) := by
  have hw : (before ++ '#' :: after).takeWhile (· != '#') = before :=
    (span_append (fun c hc => by simpa using fun h : c = '#' => hb (h ▸ hc)) fun c u h => by
      rw [← (List.cons.inj h).1]; rfl).1
  have hd : (before ++ '#' :: after).drop (before.length + 1) = after := by
    rw [← List.drop_drop, List.drop_left]
    rfl
  have hl : (before ++ '#' :: after).length = before.length + after.length + 1 := by
    rw [List.length_append, List.length_cons]
    omega
  have hup : ∀ k : Int, 0 ≤ k → ∀ t, upTo k t = t.take k.toNat := fun k hk t => if_pos hk
  rw [cutPeriod]
  simp only [hw, hd, hl]
  split_ifs with h₁ h₂ h₃ h₄
  · rw [hup _ (by omega)]
    exact .inr (.inl ⟨h₂, rfl⟩)
  · exact .inr (.inr ⟨[], List.nil_prefix, by rw [List.length_nil]; omega, rfl⟩)
  · rw [hup _ (by omega)]
    exact .inr (.inr ⟨_, List.take_prefix _ _, by rw [List.length_take]; omega, rfl⟩)
  · omega
  · exact .inl ⟨by omega, rfl⟩

theorem withoutDots?_append (t : Text) : withoutDots? (t ++ dots) = some t := by
  have h : dots.isSuffixOf (t ++ dots) = true :=
    List.isSuffixOf_iff_suffix.2 (List.suffix_append t dots)
  have hl : (t ++ dots).length - 3 = t.length := by
    rw [List.length_append]
    rfl
  rw [withoutDots?, if_pos h, hl, List.take_left]

theorem withoutDots?_of_not {t : Text} (h : ¬ dots <:+ t) : withoutDots? t = none := by
  rw [withoutDots?, if_neg fun h' => h (List.isSuffixOf_iff_suffix.1 h')]

theorem isTerminating_dots (t : Text) : isTerminating (t ++ dots) = false := by
  rw [isTerminating, List.isSuffixOf, List.reverse_append]
  rfl

/-- The period is zero exactly where a text has the ending of a decimal that terminates. -/
theorem isTerminating_append_iff (h : '#' ∉ after) :
    isTerminating (before ++ '#' :: after) = true ↔ after = ['0'] := by
  rw [isTerminating, List.isSuffixOf_iff_suffix]
  refine ⟨fun hs => ?_, fun hs => hs ▸ List.suffix_append before ['#', '0']⟩
  rcases List.suffix_or_suffix_of_suffix hs (List.suffix_append before ('#' :: after)) with hs | hs
  · rcases List.suffix_cons_iff.1 hs with hs | hs
    · exact (List.cons.inj hs).2.symm
    · exact absurd (hs.subset List.mem_cons_self) h
  · rcases List.suffix_cons_iff.1 hs with hs | hs
    · exact (List.cons.inj hs).2
    · exact absurd (hs.subset List.mem_cons_self) (by decide)

theorem cut_of_isTerminating {f : Format} {t : Text} (h : isTerminating t = true) : cut f t = t :=
  if_pos h

theorem cut_of_period {f : Format} {t : Text} (hp : '#' ∈ t) (h : ¬ isTerminating t = true) :
    cut f t =
      match withoutDots? t with
      | some u => (cutPeriod u f.limit).getD (u ++ dots)
      | none => (cutPeriod t f.limit).getD t := by
  rw [cut, if_neg h, cutRepeating, if_neg (by simpa using hp)]
  rw [isTerminating] at h
  refine (if_neg h).trans ?_
  rfl

theorem cut_dots {f : Format} {t : Text} (hp : '#' ∈ t) :
    cut f (t ++ dots) = (cutPeriod t f.limit).getD (t ++ dots) := by
  rw [cut_of_period (List.mem_append_left dots hp) (by rw [isTerminating_dots]; decide),
    withoutDots?_append]

theorem cut_of_no_dots {f : Format} {t : Text} (hp : '#' ∈ t) (h : ¬ isTerminating t = true)
    (hno : ¬ dots <:+ t) : cut f t = (cutPeriod t f.limit).getD t := by
  rw [cut_of_period hp h, withoutDots?_of_not hno]

/-- **A repeating decimal is shown in full**, or up to a place before its period or in it. -/
theorem cut_cases {f : Format} (hlimit : 0 ≤ f.limit) (hb : '#' ∉ before)
    (hterm : ¬ isTerminating (before ++ '#' :: (after ++ mark)) = true)
    (hmark : mark = dots ∨ mark = [] ∧ ¬ dots <:+ before ++ '#' :: after) :
    (mark = [] ∧ before.length + after.length ≤ f.limit + 1 ∧
        cut f (before ++ '#' :: (after ++ mark)) = before ++ '#' :: (after ++ mark)) ∨
      (f.limit + 1 < before.length ∧ cut f (before ++ '#' :: (after ++ mark)) =
        before.take (f.limit + 1).toNat ++ dots) ∨
      (∃ x, x <+: after ∧ before.length + x.length ≤ f.limit + 1 ∧
        cut f (before ++ '#' :: (after ++ mark)) = before ++ '#' :: x ++ dots) := by
  have hperiod : ∀ u, '#' ∈ before ++ '#' :: u := fun u =>
    List.mem_append_right before List.mem_cons_self
  have hdots : ∀ u : Text, before ++ '#' :: (u ++ dots) = before ++ '#' :: u ++ dots := fun u => by
    rw [List.append_assoc, List.cons_append]
  rcases hmark with rfl | ⟨rfl, hno⟩
  · rw [hdots, cut_dots (hperiod after)]
    rcases cutPeriod_cases hlimit hb after with ⟨hl, hc⟩ | ⟨hl, hc⟩ | ⟨x, hx, hl, hc⟩
    · rw [hc]
      exact .inr (.inr ⟨after, List.prefix_refl _, hl, rfl⟩)
    · rw [hc]
      exact .inr (.inl ⟨hl, rfl⟩)
    · rw [hc]
      exact .inr (.inr ⟨x, hx, hl, hdots x⟩)
  · rw [List.append_nil] at hterm ⊢
    rw [cut_of_no_dots (hperiod after) hterm hno]
    rcases cutPeriod_cases hlimit hb after with ⟨hl, hc⟩ | ⟨hl, hc⟩ | ⟨x, hx, hl, hc⟩
    · rw [hc]
      exact .inl ⟨rfl, hl, rfl⟩
    · rw [hc]
      exact .inr (.inl ⟨hl, rfl⟩)
    · rw [hc]
      exact .inr (.inr ⟨x, hx, hl, hdots x⟩)

/-! ## What is told of a number -/

/-- A text tells the sign of a number, its whole part and, after the point, some of its digits, once
the mark of the period is left out and groups are written out. -/
def Faithful (a : Rat) (t : Text) : Prop :=
  ∃ k, expand (t.filter (· != '#')) = head a ++ '.' :: digits a k

variable {a : Rat}

theorem exists_eq_digits {x : Text} {m : Nat} (h : x <+: digits a m) : ∃ k, x = digits a k := by
  rw [List.prefix_iff_eq_take, take_digits] at h
  exact ⟨_, h⟩

theorem expand_head (a : Rat) (x : Text) :
    expand (head a ++ '.' :: x) = head a ++ '.' :: expand x := by
  rw [expand_append (no_open_head a), expand_cons (by decide)]

theorem filter_period {t : Text} (h : '#' ∉ t) : t.filter (· != '#') = t :=
  List.filter_eq_self.2 fun c hc => by simpa using fun hp : c = '#' => h (hp ▸ hc)

theorem no_period_head (a : Rat) : '#' ∉ head a := not_mem_head a (by decide) (by decide)

theorem no_period_grouped {m : Nat} {t : Text} (h : ∀ c ∈ t, isPlainDigit c = true) :
    '#' ∉ grouped true m t := not_mem_grouped h (by decide) (by decide)

/-- Before the period there is no mark of it. -/
theorem no_period_initial (a : Rat) :
    '#' ∉ head a ++ '.' :: grouped true 4 (digits a (preperiod a.den)) := by
  rw [List.mem_append, List.mem_cons, not_or, not_or]
  exact ⟨no_period_head a, by decide, no_period_grouped (all_digits a _)⟩

theorem balanced_head (a : Rat) (x : Text) : Balanced (head a ++ '.' :: x) ↔ Balanced x := by
  have hh : Balanced (head a) :=
    balanced_of_not_mem (no_open_head a) (not_mem_head a (by decide) (by decide))
  rw [hh.append_iff]
  exact Balanced.append_iff (t := ['.']) rfl x

/-- Digits that end in a prefix of written digits tell the digits, unless a group is broken off. -/
theorem faithful_iff {c g x s : Text} {n m : Nat}
    (hc : c.filter (· != '#') = head a ++ '.' :: (g ++ x))
    (hg : expand (g ++ x) = digits a n ++ expand x) (hx : Stands x s)
    (hs : digits a n ++ s = digits a m) : Faithful a c ↔ Balanced x := by
  rw [Faithful, hc, expand_head, hg]
  constructor
  · rintro ⟨k, hk⟩
    by_contra hb
    have hk := List.cons.inj (List.append_cancel_left hk)
    have hm : '\x7b' ∈ digits a k := hk.2 ▸ List.mem_append_right _ (hx.broken hb)
    exact not_mem_of_plain (all_digits a k) (by decide) hm
  · intro hb
    have hp : digits a n ++ expand x <+: digits a m :=
      hs ▸ (List.prefix_append_right_inj _).2 (hx.whole hb)
    obtain ⟨k, hk⟩ := exists_eq_digits hp
    exact ⟨k, by rw [hk]⟩

/-- A text that breaks off before the point tells no whole part. -/
theorem not_faithful_of_short {c : Text} (h : c <+: head a) : ¬ Faithful a c := by
  rintro ⟨k, hk⟩
  rw [filter_period fun hm => no_period_head a (h.subset hm),
    expand_of_no_open fun hm => no_open_head a (h.subset hm)] at hk
  refine no_point_head a (h.subset ?_)
  rw [hk]
  exact List.mem_append_right _ List.mem_cons_self

/-- **A decimal that is cut before its period** tells its number if the cut is behind the point and
in no group. -/
theorem faithful_before_iff (m : Nat) {limit : Int} (hlimit : 0 ≤ limit) :
    Faithful a ((head a ++ '.' :: grouped true 4 (digits a m)).take (limit + 1).toNat) ↔
      (head a).length ≤ limit ∧
        Balanced ((head a ++ '.' :: grouped true 4 (digits a m)).take (limit + 1).toNat) := by
  by_cases hl : (head a).length ≤ limit
  · obtain ⟨k, hk⟩ : ∃ k, (limit + 1).toNat = (head a).length + (k + 1) :=
      ⟨(limit - (head a).length).toNat, by omega⟩
    rw [hk, List.take_length_add_append, List.take_succ_cons, balanced_head, and_iff_right hl]
    have hx := List.take_prefix k (grouped true 4 (digits a m))
    refine faithful_iff (g := []) (n := 0) ?_ rfl (stands_grouped true 4 (all_digits a m) hx) rfl
    refine filter_period ?_
    rw [List.mem_append, List.mem_cons, not_or, not_or]
    exact ⟨no_period_head a, by decide, fun hm => no_period_grouped (all_digits a m) (hx.subset hm)⟩
  · refine iff_of_false (not_faithful_of_short ?_) fun h => hl h.1
    rw [List.take_append_of_le_length (by omega)]
    exact List.take_prefix _ _

/-- **A decimal that is cut in its period** tells its number if the cut is in no group. -/
theorem faithful_period_iff {k : Nat} {x : Text} (hx : x <+: grouped true 6 (periodDigits a k)) :
    Faithful a (head a ++ '.' :: grouped true 4 (digits a (preperiod a.den)) ++ '#' :: x) ↔
      Balanced (head a ++ '.' :: grouped true 4 (digits a (preperiod a.den)) ++ '#' :: x) := by
  have hinitial := all_digits a (preperiod a.den)
  have hperiod := all_periodDigits a k
  have hb : Balanced (head a ++ '.' :: grouped true 4 (digits a (preperiod a.den)) ++ '#' :: x) ↔
      Balanced x := by
    rw [((balanced_head a _).2 (balanced_grouped true 4 hinitial)).append_iff]
    exact Balanced.append_iff (t := ['#']) rfl x
  rw [hb]
  refine faithful_iff ?_ (expand_grouped true 4 hinitial x) (stands_grouped true 6 hperiod hx)
    (digits_append_periodDigits a k)
  rw [List.filter_append, filter_period (no_period_initial a), List.filter_cons_of_neg (by simp),
    filter_period fun hm => no_period_grouped hperiod (hx.subset hm), List.append_assoc,
    List.cons_append]

/-! ## The decimal that is shown -/

theorem cut_of_no_period {f : Format} {t : Text} (h : '#' ∉ t) : cut f t = t := by
  rw [cut]
  split_ifs
  · rfl
  · rw [cutRepeating, if_pos]
    rw [Bool.not_eq_true', Bool.eq_false_iff, ne_eq, List.elem_iff]
    exact h

/-- The decimal of a number whose expansion ends is shown in full. -/
theorem decimal_of_terminates (f : Format) (ht : Terminates a) :
    decimal f a = (expansion f a).1 := by
  rw [decimal, expansion]
  by_cases h1 : a.den = 1
  · rw [repeating_of_den_one h1, cut_of_no_period (no_period_head a)]
  · rw [repeating_of_terminates ht h1]
    refine cut_of_isTerminating (List.isSuffixOf_iff_suffix.2 ?_)
    exact ⟨head a ++ '.' :: grouped true 4 (digits a (preperiod a.den)), by simp [written]⟩

/-- The text that is cut: dots stand at its end where the period is shortened. -/
theorem exists_expansion (f : Format) (ht : ¬ Terminates a) :
    ∃ k mark, (expansion f a).1 =
        head a ++ '.' :: grouped true 4 (digits a (preperiod a.den)) ++
          '#' :: (grouped true 6 (periodDigits a k) ++ mark) ∧
      (mark = dots ∨
        mark = [] ∧ k = period a ∧ ¬ Shortened a f.periodLimit (some f.maxPeriodDigits)) := by
  rw [expansion, repeating_of_not_terminates ht]
  rcases writtenDigits_spec a f.periodLimit (some f.maxPeriodDigits) with ⟨hw, hs, hk⟩ | ⟨hw, -⟩
  · refine ⟨writtenDigits a f.periodLimit (some f.maxPeriodDigits), [], ?_, .inr ⟨rfl, hk, hs⟩⟩
    rw [if_pos hw, written, List.append_assoc, List.cons_append]
  · refine ⟨writtenDigits a f.periodLimit (some f.maxPeriodDigits), dots, ?_, .inl rfl⟩
    rw [if_neg hw, written, List.append_assoc, List.cons_append]

theorem isTerminating_expansion (f : Format) (ht : ¬ Terminates a) :
    isTerminating (expansion f a).1 = false := by
  obtain ⟨k, mark, htext, rfl | ⟨rfl, rfl, -⟩⟩ := exists_expansion f ht
  · rw [htext, ← List.cons_append, ← List.append_assoc]
    exact isTerminating_dots _
  · have hperiod := all_periodDigits a (period a)
    rw [htext, List.append_nil, Bool.eq_false_iff, ne_eq,
      isTerminating_append_iff (no_period_grouped hperiod)]
    intro h
    have he := expand_eq_of_append (expand_grouped true 6 hperiod)
    rw [h, expand_of_no_open (by decide)] at he
    exact periodDigits_ne_zero ht he.symm

/-- Where the expansion does not end it is shown in full, or up to a place before its period or in
it. -/
theorem shown_cases {f : Format} (hlimit : 0 ≤ f.limit) (ht : ¬ Terminates a) :
    let before := head a ++ '.' :: grouped true 4 (digits a (preperiod a.den))
    ∃ k mark, (expansion f a).1 = before ++ '#' :: (grouped true 6 (periodDigits a k) ++ mark) ∧
      ((¬ Shortened a f.periodLimit (some f.maxPeriodDigits) ∧ mark = [] ∧
          before.length + (grouped true 6 (periodDigits a k)).length ≤ f.limit + 1 ∧
          decimal f a = (expansion f a).1) ∨
        (f.limit + 1 < before.length ∧
          decimal f a = before.take (f.limit + 1).toNat ++ dots) ∨
        ∃ x, x <+: grouped true 6 (periodDigits a k) ∧ before.length + x.length ≤ f.limit + 1 ∧
          decimal f a = before ++ '#' :: x ++ dots) := by
  intro before
  obtain ⟨k, mark, htext, hmark⟩ := exists_expansion f ht
  have hterm := isTerminating_expansion f ht
  rw [htext] at hterm
  have hno : mark = dots ∨
      mark = [] ∧ ¬ dots <:+ before ++ '#' :: grouped true 6 (periodDigits a k) := by
    refine hmark.imp_right fun ⟨hm, _, hs⟩ => ⟨hm, ?_⟩
    rw [hm, List.append_nil] at htext
    rw [← htext, expansion, dots_suffix_iff]
    exact fun h => hs h.2
  refine ⟨k, mark, htext, ?_⟩
  rw [decimal, htext]
  refine (cut_cases hlimit (no_period_initial a) (by rw [hterm]; decide) hno).imp_left ?_
  rintro ⟨rfl, hl, hc⟩
  rcases hmark with h | ⟨-, -, hs⟩
  · cases h
  · exact ⟨hs, rfl, hl, hc⟩

/-- Where the expansion does not end the text is shown in full, without dots, or what stands before
the dots tells the number where there is room for the whole part and no group is broken off. -/
theorem decimal_cases {f : Format} (hlimit : 0 ≤ f.limit) (ht : ¬ Terminates a) :
    (¬ Shortened a f.periodLimit (some f.maxPeriodDigits) ∧ decimal f a = (expansion f a).1) ∨
      ∃ core, decimal f a = core ++ dots ∧
        (Faithful a core ↔ (head a).length ≤ f.limit ∧ Balanced core) := by
  obtain ⟨k, mark, -, ⟨hs, -, -, hd⟩ | ⟨-, hd⟩ | ⟨x, hx, hl, hd⟩⟩ := shown_cases hlimit ht
  · exact .inl ⟨hs, hd⟩
  · exact .inr ⟨_, hd, faithful_before_iff _ hlimit⟩
  · rw [List.length_append, List.length_cons] at hl
    refine .inr ⟨_, hd, ?_⟩
    rw [faithful_period_iff hx, and_iff_right (by omega)]

/-- **The decimal that is shown of a number** is read as the number, unless it ends in dots. What
stands before the dots tells the sign, the whole part and some digits exactly where there is room
for sign and whole part, and no group is broken off. -/
theorem decimal_faithful_iff (f : Format) (hlimit : 0 ≤ f.limit) (a : Rat) :
    rational { f with mode := .decimal } a = decimal f a ++ periodSuffix (expansion f a).2 ∧
      (¬ dots <:+ decimal f a → Literal.decimal (decimal f a) = .ok (.rational a)) ∧
      ∀ core, decimal f a = core ++ dots →
        (Faithful a core ↔ (head a).length ≤ f.limit ∧ Balanced core) := by
  refine ⟨rfl, ?_⟩
  by_cases ht : Terminates a
  · have hno : ¬ dots <:+ (expansion f a).1 := by
      rw [expansion, dots_suffix_iff]
      exact fun h => h.1 ht
    rw [decimal_of_terminates f ht]
    refine ⟨fun _ => Literal.decimal_repeatingDecimal fun h => absurd ht h, fun core hcore => ?_⟩
    exact absurd (hcore ▸ List.suffix_append core dots) hno
  · rcases decimal_cases hlimit ht with ⟨hs, hd⟩ | ⟨core, hd, hf⟩
    · have hno : ¬ dots <:+ (expansion f a).1 := by
        rw [expansion, dots_suffix_iff]
        exact fun h => hs h.2
      rw [hd]
      refine ⟨fun _ => Literal.decimal_repeatingDecimal fun _ => hs, fun core hcore => ?_⟩
      exact absurd (hcore ▸ List.suffix_append core dots) hno
    · rw [hd]
      refine ⟨fun h => absurd (List.suffix_append core dots) h, fun core' hcore => ?_⟩
      rwa [← List.append_cancel_right hcore]

theorem thirty_one_thirds :
    decimal ⟨.decimal, 1, 20, 100⟩ (mkRat 31 3) = ['1', '0'] ++ dots ∧
      ¬ Faithful (mkRat 31 3) ['1', '0'] ∧
      ¬ dots <:+ decimal ⟨.decimal, 4, 20, 100⟩ (mkRat 31 3) ∧
      Literal.decimal (decimal ⟨.decimal, 4, 20, 100⟩ (mkRat 31 3)) =
        .ok (.rational (mkRat 31 3)) := by
  have hcut : decimal ⟨.decimal, 1, 20, 100⟩ (mkRat 31 3) = ['1', '0'] ++ dots := by
    with_unfolding_all decide
  have hroom : ¬ dots <:+ decimal ⟨.decimal, 4, 20, 100⟩ (mkRat 31 3) := by
    with_unfolding_all decide
  have hiff := (decimal_faithful_iff ⟨.decimal, 1, 20, 100⟩ (by decide) (mkRat 31 3)).2.2 _ hcut
  refine ⟨hcut, fun h => absurd (hiff.1 h).1 (by decide), hroom, ?_⟩
  exact (decimal_faithful_iff ⟨.decimal, 4, 20, 100⟩ (by decide) (mkRat 31 3)).2.1 hroom

end RatCalc.Display

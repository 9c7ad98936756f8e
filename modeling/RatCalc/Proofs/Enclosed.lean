import Mathlib.Tactic.ByContra
import RatCalc.Proofs.Takes

/-!
# Digits before a closing parenthesis or a colon

* `closers`: the characters that end every number.
* `Local`: a reader takes no bracket, and reads a text the same with such a character behind it.
* `local_digits`, `local_exponent`, `continuedFraction?_close`: digits and exponents.
* **`digitRuns_close`**, `takes_digitRuns`: rows of digits and groups.
-/

namespace RatCalc

open Text

/-- The characters that end every number. -/
def closers : Text := [')', ':']

theorem parenthesis_mem_closers : ')' ∈ closers := by decide

theorem colon_mem_closers : ':' ∈ closers := by decide

theorem ne_of_closer {c z : Char} (hz : z ∈ closers) (hc : c ∉ closers) : c ≠ z := fun h =>
  hc (h ▸ hz)

/-- A reader takes no bracket, and a character behind the text is left to what follows. -/
def Local {α : Type} (z : Char) (f : Text → Except Failure (α × Text)) : Prop :=
  ∀ ⦃t a r⦄, f t = .ok (a, r) → Takes t r ∧ ∀ w, f (t ++ z :: w) = .ok (a, r ++ z :: w)

/-! ## Where a text begins -/

section

variable {z : Char}

theorem exists_of_append_eq_append {t u w r : Text} (hu : z ∉ u) (h : t ++ z :: w = u ++ r) :
    ∃ r', t = u ++ r' ∧ r = r' ++ z :: w := by
  rcases List.append_eq_append_iff.1 h with ⟨v, rfl, hv⟩ | ⟨v, rfl, hv⟩
  · cases v with
    | nil => exact ⟨[], by rw [List.append_nil, List.append_nil], hv.symm⟩
    | cons c v =>
      rw [List.cons_append, List.cons.injEq] at hv
      exact absurd (List.mem_append_right t (hv.1 ▸ List.mem_cons_self)) hu
  · exact ⟨v, rfl, hv⟩

theorem exists_of_append_eq_cons {t w r : Text} {c : Char} (hc : c ≠ z)
    (h : t ++ z :: w = c :: r) : ∃ r', t = c :: r' ∧ r = r' ++ z :: w :=
  exists_of_append_eq_append (u := [c]) (by simpa using hc.symm) h

theorem exists_of_append_eq_cons_cons {t w r : Text} {c c' : Char} (hc : c ≠ z) (hc' : c' ≠ z)
    (h : t ++ z :: w = c :: c' :: r) : ∃ r', t = c :: c' :: r' ∧ r = r' ++ z :: w :=
  exists_of_append_eq_append (u := [c, c']) (by simpa using ⟨hc.symm, hc'.symm⟩) h

theorem append_ne_cons {t : Text} {c : Char} (hc : c ≠ z) (h : ∀ u, t ≠ c :: u) (w u : Text) :
    t ++ z :: w ≠ c :: u := by
  intro heq
  obtain ⟨r, hr, -⟩ := exists_of_append_eq_cons hc heq
  exact h r hr

theorem append_ne_cons_cons {t : Text} {c c' : Char} (hc : c ≠ z) (hc' : c' ≠ z)
    (h : ∀ u, t ≠ c :: c' :: u) (w u : Text) : t ++ z :: w ≠ c :: c' :: u := by
  intro heq
  obtain ⟨r, hr, -⟩ := exists_of_append_eq_cons_cons hc hc' heq
  exact h r hr

theorem head?_ne_close {c : Char} (hc : c ≠ z) (t w : Text) :
    ((t ++ z :: w).head? != some c) = (t.head? != some c) := by
  cases t with
  | nil =>
    have : (z == c) = false := beq_eq_false_iff_ne.2 hc.symm
    simp [bne, this]
  | cons => rfl

theorem any_head?_close {p : Char → Bool} (hp : p z = false) (t w : Text) :
    (t ++ z :: w).head?.any p = t.head?.any p := by
  cases t with
  | nil => exact hp
  | cons => rfl

end

theorem isDecimal_close {z : Char} (hz : z ∈ closers) : isDecimal z = false :=
  forall_of_all (P := fun z => isDecimal z = false) (by decide) z hz

theorem isAlphanumeric_close {z : Char} (hz : z ∈ closers) : isAlphanumeric z = false :=
  isAlphanumeric_of_isMark (forall_of_all (P := IsMark) (by decide) z hz)

theorem isDecimal_bracket : isDecimal '[' = false := by decide

namespace Dialect

variable (d : Dialect) {z : Char} (hz : z ∈ closers)

theorem isDigit_bracket : d.isDigit '[' = false := d.isDigit_of_reserved (by decide)

theorem bracket_not_mem_marker : '[' ∉ d.marker :=
  d.not_mem_marker (by decide) (by decide) (by decide)

include hz in
theorem isDigit_close : d.isDigit z = false :=
  d.isDigit_of_reserved (forall_of_all (P := (· ∈ NumeralSystem.reservedChars)) (by decide) z hz)

include hz in
theorem close_not_mem_marker : z ∉ d.marker :=
  d.not_mem_marker (ne_of_closer hz (by decide)).symm (ne_of_closer hz (by decide)).symm
    (ne_of_closer hz (by decide)).symm

/-! ## Digits and exponents -/

theorem digits_eq (t : Text) {x : Text × Text} (h : d.digits t = .ok x) :
    x = (t.takeWhile d.isDigit, t.dropWhile d.isDigit) := by
  rw [digits] at h
  split at h
  · split_ifs at h
    · obtain ⟨_, -, h⟩ := bind_eq_ok.1 h
      exact (Except.ok.inj h).symm
    · exact (Except.ok.inj h).symm
  · exact (Except.ok.inj h).symm

include hz in
theorem local_digits : Local z d.digits := by
  intro t a r h
  cases d.digits_eq t h
  refine ⟨.dropWhile d.isDigit_bracket t, fun w => ?_⟩
  rw [digits, dropWhile_append_cons (d.isDigit_close hz),
    takeWhile_append_cons (d.isDigit_close hz)]
  rw [digits] at h
  cases hs : d.system with
  | none => rfl
  | some s =>
    rw [hs] at h
    cases hr : t.dropWhile d.isDigit with
    | nil =>
      simp [isAlphanumeric_close hz]
    | cons c r =>
      rw [hr] at h
      simp only [List.cons_append] at h ⊢
      rw [← List.cons_append, isPrefixOf_append_cons (d.close_not_mem_marker hz)]
      split_ifs at h ⊢
      · obtain ⟨_, hv, -⟩ := bind_eq_ok.1 h
        rw [hv]
        rfl
      · rfl

include hz in
theorem exponentFollows_close (t w : Text) :
    d.exponentFollows (t ++ z :: w) = d.exponentFollows t := by
  have hm : d.isDigit '-' = false := d.isDigit_of_reserved (by decide)
  rw [exponentFollows, exponentFollows, after?_append_cons (d.close_not_mem_marker hz)]
  cases after? d.marker t with
  | none => rfl
  | some u =>
    rw [Option.map_some]
    match u with
    | [] =>
      have hne : z ≠ '-' := (ne_of_closer hz (by decide)).symm
      simp [hne, d.isDigit_close hz]
    | ['-'] => exact (d.isDigit_close hz).trans hm.symm
    | '-' :: c :: u => rfl
    | [c] =>
      by_cases hc : c = '-'
      · rw [hc]
        exact (d.isDigit_close hz).trans hm.symm
      · simp [hc]
    | c :: c' :: u =>
      by_cases hc : c = '-'
      · rw [hc]
        rfl
      · simp [hc]

theorem exponent_eq (t : Text) :
    d.exponent t = (do
      let (ds, rest) ← d.digits (minus t).2
      if ds.isEmpty then .error (.literal .missingExponent)
      else return (Literal.signed (minus t).1 (← d.value ds), rest)) := rfl

include hz in
theorem local_exponent : Local z d.exponent := by
  intro t k r h
  rw [exponent_eq] at h
  obtain ⟨⟨ds, rest⟩, hd, h⟩ := bind_eq_ok.1 h
  obtain ⟨htake, happend⟩ := d.local_digits hz hd
  simp only at h
  split_ifs at h with hne
  obtain ⟨n, hn, h⟩ := bind_eq_ok.1 h
  cases h
  refine ⟨(takes_minus t).trans htake, fun w => ?_⟩
  rw [exponent_eq, minus_append_cons (ne_of_closer hz (by decide)).symm, bind_of_ok (happend w)]
  simp only [hne, if_false, Bool.false_eq_true]
  rw [bind_of_ok hn]
  rfl

/-! ## Continued fractions and groups of digits -/

include hz in
theorem termRow_close (t w : Text) :
    termRow (t ++ z :: w) = ((termRow t).1, (termRow t).2 ++ z :: w) := by
  induction t with
  | nil =>
    have hne : z ≠ '~' := (ne_of_closer hz (by decide)).symm
    change termRow (z :: w) = _
    simp [termRow, isDecimal_close hz, hne]
  | cons c t ih =>
    rw [List.cons_append, termRow, termRow, any_head?_close (isDecimal_close hz), ih]
    split_ifs <;> rfl

theorem takes_termRow (t : Text) : Takes t (termRow t).2 := by
  induction t with
  | nil => exact .refl []
  | cons c t ih =>
    rw [termRow]
    split_ifs with h
    · refine Takes.trans (.cons ?_ t) ih
      rintro rfl
      rw [isDecimal_bracket] at h
      cases h
    · exact .refl _

/-- What an optional reader finds, with a text behind what it leaves. -/
def behind {α : Type} (w : Text) (x : Option (α × Text)) : Option (α × Text) :=
  x.map fun x => (x.1, x.2 ++ w)

theorem continuedFraction?_eq (t : Text) :
    continuedFraction? t =
      match (minus t).2.dropWhile isDecimal with
      | '.' :: '~' :: c :: rest =>
        if !((minus t).2.takeWhile isDecimal).isEmpty && isDecimal c then
          some (Expansion.sign (minus t).1 ++ (minus t).2.takeWhile isDecimal ++ '.' :: '~' ::
            (termRow (c :: rest)).1, (termRow (c :: rest)).2)
        else none
      | _ => none := by
  rcases minus_cases t with ⟨u, rfl, h⟩ | ⟨hno, h⟩
  · rfl
  · rw [h, continuedFraction?]
    · rfl
    · exact hno

include hz in
theorem continuedFraction?_close (t w : Text) :
    continuedFraction? (t ++ z :: w) = behind (z :: w) (continuedFraction? t) := by
  have hc := isDecimal_close hz
  rw [continuedFraction?_eq, continuedFraction?_eq,
    minus_append_cons (ne_of_closer hz (by decide)).symm]
  simp only [dropWhile_append_cons hc, takeWhile_append_cons hc]
  generalize (minus t).2.dropWhile isDecimal = v
  split
  · rename_i c rest heq
    obtain ⟨v', rfl, heq'⟩ := exists_of_append_eq_cons_cons (ne_of_closer hz (by decide))
      (ne_of_closer hz (by decide)) heq
    rw [heq', termRow_close hz]
    cases v' with
    | nil =>
      rw [List.nil_append, List.cons.injEq] at heq'
      rw [heq'.1, hc, Bool.and_false]
      rfl
    | cons a v' =>
      rw [List.cons_append, List.cons.injEq] at heq'
      simp only [heq'.1]
      split_ifs <;> rfl
  · rename_i hno
    split
    · rename_i c rest
      exact absurd rfl (hno c (rest ++ z :: w))
    · rfl

theorem consumes_continuedFraction? {t x r : Text} (h : continuedFraction? t = some (x, r)) :
    Consumes t r := by
  rw [continuedFraction?_eq] at h
  refine (takes_minus t).trans_consumes
    (Takes.trans_consumes (.dropWhile (p := isDecimal) (by decide) _) ?_)
  split at h
  · rename_i c rest heq
    split_ifs at h
    cases h
    rw [heq]
    exact (Consumes.cons (by decide) _).trans_takes
      ((Takes.cons (by decide) _).trans (takes_termRow _))
  · cases h

/-- A group of digits at the start of a text. -/
theorem groupLength_of {ds es : Text} (hds : ds ≠ [] ∧ ∀ c ∈ ds, isDecimal c = true)
    (hes : es ≠ [] ∧ ∀ c ∈ es, isDecimal c = true) (r : Text) :
    groupLength ('\x7b' :: (ds ++ '~' :: (es ++ '\x7d' :: r))) = ds.length + es.length + 3 := by
  rw [groupLength, List.dropWhile_append_of_pos hds.2, List.dropWhile_cons_of_neg (by decide)]
  simp only
  rw [List.dropWhile_append_of_pos hes.2, List.dropWhile_cons_of_neg (by decide)]
  simp only [List.takeWhile_append_of_pos hds.2, List.takeWhile_append_of_pos hes.2,
    List.takeWhile_cons_of_neg (show ¬ isDecimal '~' = true by decide),
    List.takeWhile_cons_of_neg (show ¬ isDecimal '\x7d' = true by decide), List.append_nil,
    List.isEmpty_eq_false_iff.2 hds.1, List.isEmpty_eq_false_iff.2 hes.1, Bool.or_self,
    Bool.false_eq_true, if_false, List.length_cons, List.length_append]
  omega

theorem exists_group {t : Text} (h : groupLength t ≠ 0) :
    ∃ ds es r, t = '\x7b' :: (ds ++ '~' :: (es ++ '\x7d' :: r)) ∧
      (ds ≠ [] ∧ ∀ c ∈ ds, isDecimal c = true) ∧ es ≠ [] ∧ ∀ c ∈ es, isDecimal c = true := by
  rw [groupLength.eq_def] at h
  split at h
  · rename_i u
    split at h
    · rename_i v hv
      split at h
      · rename_i r hr
        split_ifs at h with hne
        · exact absurd rfl h
        rw [Bool.or_eq_true, not_or, List.isEmpty_iff, List.isEmpty_iff] at hne
        refine ⟨u.takeWhile isDecimal, v.takeWhile isDecimal, r, ?_,
          ⟨hne.1, List.all_eq_true.1 List.all_takeWhile⟩,
          hne.2, List.all_eq_true.1 List.all_takeWhile⟩
        rw [← hr, List.takeWhile_append_dropWhile, ← hv, List.takeWhile_append_dropWhile]
      · exact absurd rfl h
    · exact absurd rfl h
  · exact absurd rfl h

/-- A character that starts neither a digit nor a group ends a row. -/
theorem digitRuns_of_ne {c : Char} (hd : isDecimal c = false) (hg : c ≠ '\x7b') (u : Text) :
    digitRuns 0 (c :: u) = ([], c :: u) := by
  have hl : groupLength (c :: u) = 0 := by
    by_contra hne
    obtain ⟨ds, es, r, heq, -⟩ := exists_group hne
    exact hg (List.cons.inj heq).1
  rw [digitRuns, hd, hl]
  rfl

theorem not_mem_group {ds es : Text} {s : Char} (hs : isDecimal s = false)
    (hm : s ∉ ['\x7b', '~', '\x7d']) (hds : ∀ c ∈ ds, isDecimal c = true)
    (hes : ∀ c ∈ es, isDecimal c = true) : s ∉ '\x7b' :: (ds ++ '~' :: (es ++ ['\x7d'])) := by
  have hn : ∀ u : Text, (∀ c ∈ u, isDecimal c = true) → s ∉ u := fun u hu hm => by
    rw [hu _ hm] at hs
    cases hs
  simp only [List.mem_cons, List.mem_append, List.not_mem_nil, not_or] at hm ⊢
  exact ⟨hm.1, hn ds hds, hm.2.1, hn es hes, hm.2.2⟩

include hz in
theorem groupLength_close (t w : Text) : groupLength (t ++ z :: w) = groupLength t := by
  by_cases h : groupLength t = 0
  · rw [h]
    by_contra h'
    obtain ⟨ds, es, r, heq, hds, hes⟩ := exists_group h'
    obtain ⟨r', rfl, -⟩ := exists_of_append_eq_append (r := r)
      (not_mem_group (isDecimal_close hz)
        (forall_of_all (P := (· ∉ ['\x7b', '~', '\x7d'])) (by decide) z hz) hds.2 hes.2)
      (by simpa using heq)
    have hl := groupLength_of hds hes r'
    simp only [List.cons_append, List.append_assoc, List.nil_append] at h
    omega
  · obtain ⟨ds, es, r, rfl, hds, hes⟩ := exists_group h
    simp only [List.cons_append, List.append_assoc]
    rw [groupLength_of hds hes, groupLength_of hds hes]

theorem groupLength_le (t : Text) : groupLength t ≤ t.length := by
  by_cases h : groupLength t = 0
  · omega
  · obtain ⟨ds, es, r, rfl, hds, hes⟩ := exists_group h
    rw [groupLength_of hds hes]
    simp only [List.length_cons, List.length_append]
    omega

include hz in
theorem digitRuns_close {skip : Nat} {t : Text} (h : skip ≤ t.length) (w : Text) :
    digitRuns skip (t ++ z :: w) =
      ((digitRuns skip t).1, (digitRuns skip t).2 ++ z :: w) := by
  induction t generalizing skip with
  | nil =>
    cases Nat.le_zero.1 h
    exact digitRuns_of_ne (isDecimal_close hz) (ne_of_closer hz (by decide)).symm w
  | cons c t ih =>
    cases skip with
    | succ skip =>
      rw [List.cons_append, digitRuns, digitRuns, ih (Nat.le_of_succ_le_succ h)]
    | zero =>
      rw [List.cons_append, digitRuns, digitRuns, ← List.cons_append, groupLength_close hz]
      have hle := groupLength_le (c :: t)
      split_ifs
      · rw [ih (Nat.zero_le _)]
      · cases hg : groupLength (c :: t) with
        | zero => rfl
        | succ k =>
          rw [hg, List.length_cons] at hle
          simp only
          rw [ih (Nat.le_of_succ_le_succ hle)]

theorem takes_digitRuns {skip : Nat} {t : Text} (h : '[' ∉ t.take skip) :
    Takes t (digitRuns skip t).2 := by
  induction t generalizing skip with
  | nil =>
    cases skip <;> exact .refl []
  | cons c t ih =>
    cases skip with
    | succ skip =>
      rw [List.take_succ_cons, List.mem_cons, not_or] at h
      exact (Takes.cons (Ne.symm h.1) t).trans (ih h.2)
    | zero =>
      rw [digitRuns]
      split_ifs with hc
      · refine Takes.trans (.cons ?_ t) (ih (by simp))
        rintro rfl
        exact absurd hc (by decide)
      · cases hg : groupLength (c :: t) with
        | zero => exact .refl _
        | succ k =>
          obtain ⟨ds, es, r, heq, hds, hes⟩ := exists_group (t := c :: t) (by omega)
          have hl := groupLength_of hds hes r
          rw [← heq, hg] at hl
          have hno := not_mem_group (s := '[') (by decide) (by decide) hds.2 hes.2
          rw [List.cons.injEq] at heq
          obtain ⟨rfl, rfl⟩ := heq
          rw [List.mem_cons, not_or] at hno
          refine Takes.trans (.cons (by decide) _) (ih ?_)
          have ht : (ds ++ '~' :: (es ++ '\x7d' :: r)) =
              (ds ++ '~' :: (es ++ ['\x7d'])) ++ r := by simp
          rw [ht, List.take_append_of_le_length (by simp; omega)]
          exact fun hm => hno.2 (List.mem_of_mem_take hm)

end Dialect

end RatCalc

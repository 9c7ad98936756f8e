import RatCalc.Proofs.Convergents
import RatCalc.Proofs.NumberText
import RatCalc.Proofs.Promotion
import RatCalc.Proofs.ShownNumber

/-!
# The text of a continued fraction

* `split_join`: rows without a separator are found again in the text that joins them.
* `write_eq`: the text of canonical terms is a sign, the digits of the first term, `.~` and the
  later terms with tildes between them (`row`), a zero if there are none.
* **`read_write`**: the text is read as the terms.
* **`valueOf_continuedFraction`**: an expression that is such a text has the value of the number.
* **`continuedFraction_roundTrip`**: quotients, terms, texts and numbers of a continued fraction
  determine each other.
-/

namespace RatCalc

open Text

namespace Text

variable {s : Char} {row : Text} {rows : List Text}

theorem join_cons_cons (separator t u : Text) :
    join separator (t :: u :: rows) = t ++ separator ++ join separator (u :: rows) := rfl

/-- Cutting undoes joining, if the separator stands in no row. -/
theorem split_join (h : ∀ t ∈ row :: rows, s ∉ t) :
    split (· == s) (join [s] (row :: rows)) = row :: rows := by
  induction rows generalizing row with
  | nil => exact split_of_none (beq_false_of_not_mem (h row (by simp)))
  | cons u rows ih =>
    rw [join_cons_cons, List.append_assoc, List.singleton_append,
      split_append (beq_false_of_not_mem (h row (by simp))) (beq_self_eq_true s),
      ih fun t ht => h t (List.mem_cons_of_mem _ ht)]

end Text

namespace ContinuedFraction

open Dialect Numeral

/-! ## Rows of later terms -/

/-- The numbers that are written after the first term. -/
def laterNumbers : List Int → List Nat
  | [] => [0]
  | rest => rest.map Int.toNat

/-- Numbers with tildes between them. -/
def row (numbers : List Nat) : Text := join ['~'] (numbers.map ofNat)

theorem laterNumbers_ne_nil (rest : List Int) : laterNumbers rest ≠ [] := by
  cases rest <;> simp [laterNumbers]

theorem row_cons_cons (k m : Nat) (numbers : List Nat) :
    row (k :: m :: numbers) = ofNat k ++ '~' :: row (m :: numbers) := by
  simp [row, join_cons_cons]

/-- A row begins with a digit. -/
theorem exists_row_eq_cons (k : Nat) (numbers : List Nat) :
    ∃ c u, row (k :: numbers) = c :: u ∧ isPlainDigit c = true := by
  obtain ⟨c, u, h⟩ := List.exists_cons_of_ne_nil (ofNat_ne_nil k)
  have hc : isPlainDigit c = true := all_isPlainDigit_ofNat k c (by simp [h])
  cases numbers with
  | nil => exact ⟨c, u, h, hc⟩
  | cons m numbers => exact ⟨c, u ++ '~' :: row (m :: numbers), by simp [row_cons_cons, h], hc⟩

theorem mem_row {numbers : List Nat} {c : Char} (h : c ∈ row numbers) :
    isPlainDigit c = true ∨ c = '~' := by
  match numbers with
  | [] => simp [row, join] at h
  | [k] => exact .inl (all_isPlainDigit_ofNat k c h)
  | k :: m :: numbers =>
    rw [row_cons_cons, List.mem_append, List.mem_cons] at h
    rcases h with h | rfl | h
    · exact .inl (all_isPlainDigit_ofNat k c h)
    · exact .inr rfl
    · exact mem_row h

theorem split_row (numbers : List Nat) (h : numbers ≠ []) :
    split (· == '~') (row numbers) = numbers.map ofNat := by
  cases numbers with
  | nil => exact absurd rfl h
  | cons k numbers =>
    refine split_join (s := '~') fun t ht => ?_
    obtain ⟨m, -, rfl⟩ := List.mem_map.mp (List.map_cons ▸ ht)
    exact not_mem_of_plain (all_isPlainDigit_ofNat m) (by decide)

theorem termRow_append_of_plain {w : Text} (hw : ∀ c ∈ w, isPlainDigit c = true) (t : Text) :
    termRow (w ++ t) = (w ++ (termRow t).1, (termRow t).2) := by
  induction w with
  | nil => rfl
  | cons c w ih =>
    rw [List.cons_append, termRow, isDecimal_of_plain (hw c (by simp)), Bool.true_or, if_pos rfl,
      ih fun a ha => hw a (List.mem_cons_of_mem c ha)]
    rfl

/-- A whole row is taken as one. -/
theorem termRow_row (numbers : List Nat) : termRow (row numbers) = (row numbers, []) := by
  match numbers with
  | [] => rfl
  | [k] =>
    have := termRow_append_of_plain (all_isPlainDigit_ofNat k) []
    simpa [row, join, termRow] using this
  | k :: m :: numbers =>
    obtain ⟨c, u, h, hc⟩ := exists_row_eq_cons m numbers
    have hstep : termRow ('~' :: row (m :: numbers)) = ('~' :: row (m :: numbers), []) := by
      rw [termRow, termRow_row (m :: numbers)]
      simp [h, isDecimal_of_plain hc]
    rw [row_cons_cons, termRow_append_of_plain (all_isPlainDigit_ofNat k), hstep]

/-! ## The text of canonical terms -/

variable {a : Int} {rest : List Int}

theorem map_ofInt_of_pos (h : ∀ b ∈ rest, 1 ≤ b) :
    rest.map ofInt = (rest.map Int.toNat).map ofNat := by
  rw [List.map_map]
  refine List.map_congr_left fun b hb => ?_
  have := h b hb
  lift b to Nat using (by omega)
  rfl

theorem write_eq (h : Canonical (a :: rest)) :
    write (a :: rest) = Expansion.sign (decide (a < 0)) ++
      (ofNat a.natAbs ++ '.' :: '~' :: row (laterNumbers rest)) := by
  cases rest with
  | nil =>
    rw [write, List.map_singleton, joinTerms, ofInt_eq, List.append_assoc]
    rfl
  | cons b rest =>
    have hlater : ∀ c ∈ b :: rest, 1 ≤ c := h.later
    have hrow : join ['~'] ((b :: rest).map ofInt) = row ((b :: rest).map Int.toNat) := by
      rw [map_ofInt_of_pos hlater, row]
    rw [write, List.map_cons, List.map_cons, joinTerms, ← List.map_cons, hrow, ofInt_eq,
      laterNumbers]
    · simp
    · simp
    · simp

/-! ## Reading the text -/

theorem parts?_eq (t : Text) :
    parts? t = match (minus t).2.dropWhile isDecimal with
      | '.' :: '~' :: rest =>
        if isNumeral ((minus t).2.takeWhile isDecimal) && (split (· == '~') rest).all isNumeral then
          some ((minus t).1, (minus t).2.takeWhile isDecimal, split (· == '~') rest)
        else none
      | _ => none := rfl

section

variable {w : Text} {numbers : List Nat} (hne : w ≠ []) (hw : ∀ c ∈ w, isPlainDigit c = true)
  (negative : Bool)

include hne hw in
theorem minus_signed (t : Text) :
    minus (Expansion.sign negative ++ (w ++ t)) = (negative, w ++ t) := by
  obtain ⟨c, u, rfl⟩ := List.exists_cons_of_ne_nil hne
  cases negative with
  | true => rfl
  | false =>
    refine minus_of_ne fun v hv => ?_
    exact ne_of_plain (hw c (by simp)) (by decide) (List.cons.inj hv).1

include hw in
theorem span_first (t : Text) :
    (w ++ '.' :: t).takeWhile isDecimal = w ∧ (w ++ '.' :: t).dropWhile isDecimal = '.' :: t :=
  span_point (by decide) (fun c hc => isDecimal_of_plain (hw c hc)) t

include hne hw in
theorem isNumeral_of_plain : isNumeral w = true := by
  simp [isNumeral, hne, all_isDecimal_of_plain hw]

include hne hw in
theorem parts?_signed (hnum : numbers ≠ []) :
    parts? (Expansion.sign negative ++ (w ++ '.' :: '~' :: row numbers)) =
      some (negative, w, numbers.map ofNat) := by
  obtain ⟨htake, hdrop⟩ := span_first hw ('~' :: row numbers)
  rw [parts?_eq, minus_signed hne hw]
  simp only
  rw [htake, hdrop]
  simp only
  rw [split_row numbers hnum]
  have hall : (numbers.map ofNat).all isNumeral = true := by
    rw [List.all_eq_true]
    intro t ht
    obtain ⟨m, -, rfl⟩ := List.mem_map.mp ht
    exact isNumeral_of_plain (ofNat_ne_nil m) (all_isPlainDigit_ofNat m)
  rw [isNumeral_of_plain hne hw, hall]
  rfl

include hne hw in
theorem continuedFraction?_signed (hnum : numbers ≠ []) :
    continuedFraction? (Expansion.sign negative ++ (w ++ '.' :: '~' :: row numbers)) =
      some (Expansion.sign negative ++ (w ++ '.' :: '~' :: row numbers), []) := by
  obtain ⟨htake, hdrop⟩ := span_first hw ('~' :: row numbers)
  obtain ⟨k, numbers, rfl⟩ := List.exists_cons_of_ne_nil hnum
  obtain ⟨c, u, hrow, hc⟩ := exists_row_eq_cons k numbers
  have hterms := termRow_row (k :: numbers)
  rw [hrow] at htake hdrop hterms ⊢
  rw [continuedFraction?_eq, minus_signed hne hw]
  simp only
  rw [htake, hdrop]
  simp [hterms, hne, isDecimal_of_plain hc]

include hw hne in
/-- The tilde after the point makes it no decimal. -/
theorem plain?_signed {d : Dialect} (hd : d.system = none) (t : Text) :
    d.plain? (Expansion.sign negative ++ (w ++ '.' :: '~' :: t)) = none := by
  have hdigit : ∀ c, d.isDigit c = isPlainDigit c := fun c => by rw [isDigit, hd]
  have hdrop := (span_point (p := d.isDigit) (by rw [hdigit]; decide)
    (fun c hc => by rw [hdigit]; exact hw c hc) ('~' :: t)).2
  rw [plain?_eq, minus_signed hne hw]
  simp only
  rw [hdrop]
  simp [hdigit, show isPlainDigit '~' = false by decide]

end

theorem mem_write (h : Canonical (a :: rest)) {c : Char} (hc : c ∈ write (a :: rest)) :
    isPlainDigit c = true ∨ c ∈ ['-', '.', '~'] := by
  rw [write_eq h, List.mem_append, List.mem_append, List.mem_cons, List.mem_cons] at hc
  rcases hc with hc | hc | rfl | rfl | hc
  · exact .inr (by rw [Ratio.mem_sign hc]; decide)
  · exact .inl (all_isPlainDigit_ofNat a.natAbs c hc)
  · exact .inr (by decide)
  · exact .inr (by decide)
  · exact (mem_row hc).imp_right fun h => by rw [h]; decide

theorem isBlank_of_mem_write (h : Canonical (a :: rest)) :
    ∀ c ∈ write (a :: rest), isBlank c = false := by
  intro c hc
  rcases mem_write h hc with hc | hc
  · exact isBlank_of_plain hc
  · exact forall_of_all (P := fun c => isBlank c = false) (by decide) c hc

theorem map_value_ofNat (numbers : List Nat) :
    (numbers.map ofNat).map Numeral.value = numbers := by
  rw [List.map_map]
  conv_rhs => rw [← List.map_id numbers]
  exact List.map_congr_left fun n _ => value_ofNat n

theorem signed_natAbs (a : Int) :
    (if decide (a < 0) = true then -(a.natAbs : Int) else a.natAbs) = a := by
  by_cases ha : a < 0
  · rw [if_pos (by simpa using ha)]
    omega
  · rw [if_neg (by simpa using ha)]
    omega

/-- Positive terms are found again from their numbers, and none of these is a zero. -/
theorem map_toNat_of_pos (h : ∀ b ∈ rest, 1 ≤ b) :
    (rest.map Int.toNat).map Int.ofNat = rest ∧ 0 ∉ rest.map Int.toNat := by
  constructor
  · rw [List.map_map]
    conv_rhs => rw [← List.map_id rest]
    refine List.map_congr_left fun b hb => ?_
    have := h b hb
    simp
    omega
  · intro hzero
    obtain ⟨b, hb, hb0⟩ := List.mem_map.mp hzero
    have := h b hb
    omega

/-- **The text of canonical terms is read as these terms.** -/
theorem read_write (h : Canonical (a :: rest)) : read (write (a :: rest)) = .ok (a :: rest) := by
  rw [read, trim_of_no_blank (isBlank_of_mem_write h), write_eq h,
    parts?_signed (ofNat_ne_nil _) (all_isPlainDigit_ofNat _) _ (laterNumbers_ne_nil rest)]
  simp only
  rw [map_value_ofNat, value_ofNat, signed_natAbs]
  cases rest with
  | nil => rfl
  | cons b rest =>
    have hlater : ∀ c ∈ b :: rest, 1 ≤ c := h.later
    obtain ⟨hback, hzero⟩ := map_toNat_of_pos hlater
    have hnone : ((b :: rest).map Int.toNat).any (· == 0) = false :=
      List.any_eq_false.mpr fun m hm hm0 => hzero (by rwa [beq_iff_eq.mp hm0] at hm)
    have hne : (b :: rest).map Int.toNat ≠ [0] := fun hone => hzero (by simp [hone])
    rw [laterNumbers, if_neg hne, hnone, if_neg Bool.false_ne_true, hback]
    exact List.cons_ne_nil b rest

/-! ## Expressions -/

/-- The text of a rational number as a continued fraction. -/
def text (a : Rat) : Text := write (termsOf a.num a.den)

theorem continuedFraction_text (a : Rat) : Literal.continuedFraction (text a) = .ok a := by
  have hcan := canonical_termsOf a.num a.den_pos
  have hfold := fold_termsOf_num_den a
  rw [text]
  generalize termsOf a.num a.den = ts at hcan hfold
  cases ts with
  | nil => exact absurd rfl hcan.nonempty
  | cons b rest =>
    have hden : (a.den : Int) ≠ 0 := by exact_mod_cast a.den_nz
    rw [Literal.continuedFraction, bind_of_ok (read_write hcan), Literal.ofTerms,
      bind_of_ok (evaluate_of_canonical hcan), hfold]
    simp only
    rw [Ratio.ofInts, if_neg hden, Rat.num_divInt_den]

section

variable {d : Dialect} {t : Text}

theorem scaledEndpoint_fraction (hd : d.system = none) {a : Rat}
    (ht : continuedFraction? t = some (t, [])) (ha : Literal.continuedFraction t = .ok a)
    (beforeColon : Bool) : d.scaledEndpoint beforeColon t = .ok (⟨a, false⟩, []) := by
  have hend : d.endpoint t = .ok (⟨a, false⟩, []) := by
    unfold endpoint
    rw [hd, ht]
    simp only
    rw [ha]
    rfl
  exact d.scaledEndpoint_of_not_follows hend d.exponentFollows_nil beforeColon

/-- A text that is one continued fraction is read as a literal, its sign included. -/
theorem reads_fraction (hd : d.system = none) {v : Value} {b : Bool} (ho : ∀ u, t ≠ '(' :: u)
    (hb : '[' ∉ t) (ht : continuedFraction? t = some (t, []))
    (hv : d.interval t = .ok ((v, b), [])) : Reads d .factor t (.literal v) [] := by
  have hliteral : Reading.literal d t = ⟨.literal v, some []⟩ := by
    rw [Reading.literal, hv]
    exact suffixed_nil d _
  by_cases hm : ∃ u, t = '-' :: u
  · obtain ⟨u, rfl⟩ := hm
    refine .signed (bracket?_of_not_mem hb) ?_
    rw [Reading.signedLiteral?, hd, ht]
    exact congrArg some hliteral
  · exact .literal ho (not_exists.mp hm) (bracket?_of_not_mem hb) hliteral

/-- An expression that is the text of a number has the value of the number. -/
theorem valueOf_continuedFraction (hd : d.system = none) (a : Rat) :
    Expr.valueOf d (text a) = .ok (d.simplify (d.single ⟨a, false⟩)) := by
  have hcan := canonical_termsOf a.num a.den_pos
  have hvalue := continuedFraction_text a
  rw [text] at hvalue ⊢
  generalize termsOf a.num a.den = ts at hcan hvalue
  obtain ⟨b, rest, rfl⟩ := List.exists_cons_of_ne_nil hcan.nonempty
  have hblank := isBlank_of_mem_write hcan
  have hstart : ∀ u, write (b :: rest) ≠ '(' :: u := by
    intro u hu
    have := mem_write hcan (c := '(') (by simp [hu])
    revert this
    decide
  have hne := ofNat_ne_nil b.natAbs
  have hdigits := all_isPlainDigit_ofNat b.natAbs
  rw [write_eq hcan] at hvalue hblank hstart ⊢
  have ht := continuedFraction?_signed hne hdigits (decide (b < 0)) (laterNumbers_ne_nil rest)
  have hplain := plain?_signed hne hdigits (decide (b < 0)) hd (row (laterNumbers rest))
  generalize Expansion.sign (decide (b < 0)) ++
      (ofNat b.natAbs ++ '.' :: '~' :: row (laterNumbers rest)) = t at *
  have hend := scaledEndpoint_fraction hd ht hvalue
  have hinterval := interval_single (.inr hplain) (hend true) fun u hu => nomatch hu
  have hreads := reads_fraction hd hstart (not_mem_of_scaledEndpoint (hend false)) ht hinterval
  rw [Expr.valueOf_eq_ok_iff, prepare_of_no_blank d hblank]
  exact ⟨_, hreads.sum_of_factor (.inl rfl), rfl⟩

/-- The value of a single number, in its simplest kind or as an interval, is the number. -/
theorem toInterval_simplify_single (a : Rat) :
    (d.simplify (d.single ⟨a, false⟩)).number.toInterval = .point a := by
  rw [single]
  cases hexact : d.exact with
  | true =>
    rw [if_pos rfl, simplify_shown hexact, Endpoint.shown_of_not_kept]
    exact Number.toInterval_simplest (.rational a)
  | false =>
    rw [if_neg Bool.false_ne_true, simplify, hexact]
    rfl

end

/-- **Continued fractions round-trip.** The terms of a quotient are canonical and stand for it in
lowest terms; canonical terms are those of their fraction and are read from their text; a rational
number is read from its text, alone and as an expression of either kind of values. -/
theorem continuedFraction_roundTrip :
    (∀ n d : Int, d ≠ 0 → ∃ ts, terms n d = .ok ts ∧ Canonical ts ∧
      evaluate ts = .ok ((Rat.divInt n d).num, ((Rat.divInt n d).den : Int))) ∧
    (∀ ts, Canonical ts →
      (∃ p q, evaluate ts = .ok (p, q) ∧ terms p q = .ok ts) ∧ read (write ts) = .ok ts) ∧
    (∀ a : Rat, Literal.continuedFraction (text a) = .ok a ∧
      ∀ d : Dialect, d.system = none →
        ∃ v, Expr.valueOf d (text a) = .ok v ∧ v.number.toInterval = .point a) := by
  refine ⟨fun n d => terms_eq_ok, fun ts hts => ⟨?_, ?_⟩, fun a => ⟨?_, fun d hd => ?_⟩⟩
  · exact ⟨_, _, evaluate_of_canonical hts, terms_fold hts⟩
  · obtain ⟨b, rest, rfl⟩ := List.exists_cons_of_ne_nil hts.nonempty
    exact read_write hts
  · exact continuedFraction_text a
  · exact ⟨_, valueOf_continuedFraction hd a, toInterval_simplify_single a⟩

/-- The terms of -8/3, read from their text. -/
theorem minus_eight_thirds : Canonical [-3, 3] ∧ (3 : Int) ≠ 0 ∧
    (∃ ts, terms (-8) 3 = .ok ts ∧ Canonical ts ∧
      evaluate ts = .ok ((Rat.divInt (-8) 3).num, ((Rat.divInt (-8) 3).den : Int))) ∧
    read "-3.~3".toList = .ok [-3, 3] := by
  have h : Canonical [-3, 3] := ⟨by decide, by decide, by decide⟩
  exact ⟨h, by decide, continuedFraction_roundTrip.1 (-8) 3 (by decide),
    (continuedFraction_roundTrip.2.1 [-3, 3] h).2⟩

end ContinuedFraction

end RatCalc

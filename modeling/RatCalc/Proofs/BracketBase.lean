import Mathlib.Data.List.TakeWhile
import RatCalc.Proofs.EnclosedOperand
import RatCalc.Proofs.PlainDecimal
import RatCalc.Proofs.RationalLiteral

/-!
# The base of a bracket

A bracket stands behind a number that is written with digits, `1.23[+-5]`, and what it holds is
counted from that number.

* `Literal.Base`: the number before a bracket, digit by digit; `Base.value`, `Base.places` and
  `Base.unit`: its value, the digits after its point, and the unit of offsets.
* `rational_text`, `placesOf_text`, `endsInPoint_text`: what is read off the text of a base.
* **`uncertainty_bracket_eq_ok_iff`**, **`exists_bracket`**: the literals with brackets are the
  bases with digits and a bracket behind them.
* `bracketed_symmetric`, `bracketed_offsets`: brackets with offsets.
-/

namespace RatCalc

open Text Numeral

namespace Literal

/-! ## Bases -/

/-- The base of a bracket: digits with a minus sign before them or not, and a point with more digits
after them or not. -/
structure Base where
  negative : Bool
  whole : Text
  fraction : Option Text
  isDecimal_whole : ∀ c ∈ whole, isDecimal c = true
  isDecimal_fraction : ∀ c ∈ fraction.getD [], isDecimal c = true

namespace Base

variable (b : Base)

/-- All digits of a base. -/
def digits : Text := b.whole ++ b.fraction.getD []

/-- How many digits stand after the point. -/
def places : Nat := (b.fraction.getD []).length

/-- The number of a base, all of whose digits count. -/
def value : Rat :=
  if b.negative then -mkRat (Numeral.value b.digits) (10 ^ b.places)
  else mkRat (Numeral.value b.digits) (10 ^ b.places)

/-- What offsets count: units of the digit after the last place, and ones where there is none. -/
def unit : Rat := if b.places = 0 then 1 else 1 / 10 ^ (b.places + 1)

/-- The base without its sign. -/
def magnitude : Text :=
  match b.fraction with
  | none => b.whole
  | some f => b.whole ++ '.' :: f

/-- The base as it is written. -/
def text : Text := Expansion.sign b.negative ++ b.magnitude

/-- The base with a bracket after it. -/
def bracket (contents : Text) : Text := b.text ++ '[' :: (contents ++ [']'])

variable {b}

theorem magnitude_of_none (h : b.fraction = none) : b.magnitude = b.whole := by
  rw [magnitude, h]

theorem magnitude_of_some {f : Text} (h : b.fraction = some f) :
    b.magnitude = b.whole ++ '.' :: f := by
  rw [magnitude, h]

theorem digits_of_none (h : b.fraction = none) : b.digits = b.whole := by
  rw [digits, h, Option.getD_none, List.append_nil]

theorem digits_of_some {f : Text} (h : b.fraction = some f) : b.digits = b.whole ++ f := by
  rw [digits, h, Option.getD_some]

theorem isDecimal_of_some {f : Text} (h : b.fraction = some f) : ∀ c ∈ f, isDecimal c = true := by
  have hf := b.isDecimal_fraction
  rwa [h, Option.getD_some] at hf

theorem isDecimal_digits : ∀ c ∈ b.digits, isDecimal c = true := fun c hc =>
  (List.mem_append.1 hc).elim (b.isDecimal_whole c) (b.isDecimal_fraction c)

theorem digits_subset : b.digits ⊆ b.magnitude := by
  cases hf : b.fraction with
  | none =>
    rw [digits_of_none hf, magnitude_of_none hf]
    exact List.Subset.refl _
  | some f =>
    rw [digits_of_some hf, magnitude_of_some hf]
    exact List.append_subset.2 ⟨List.subset_append_left _ _,
      List.subset_append_of_subset_right _ (List.subset_cons_self _ _)⟩

theorem mem_magnitude {c : Char} (hc : c ∈ b.magnitude) : isDecimal c = true ∨ c = '.' := by
  cases hf : b.fraction with
  | none =>
    rw [magnitude_of_none hf] at hc
    exact .inl (b.isDecimal_whole c hc)
  | some f =>
    rw [magnitude_of_some hf] at hc
    rcases List.mem_append.1 hc with h | h
    · exact .inl (b.isDecimal_whole c h)
    · exact (List.mem_cons.1 h).symm.imp_left (isDecimal_of_some hf c)

theorem not_mem_magnitude {c : Char} (hd : isDecimal c = false) (hc : c ≠ '.') :
    c ∉ b.magnitude := fun h => (mem_magnitude h).elim (fun h => by rw [hd] at h; cases h) hc

theorem mem_text {c : Char} (hc : c ∈ b.text) : isDecimal c = true ∨ c ∈ ['-', '.'] := by
  rcases List.mem_append.1 hc with hc | hc
  · rw [Ratio.mem_sign hc]
    exact .inr (by decide)
  · refine (mem_magnitude hc).imp_right fun h => ?_
    rw [h]
    decide

theorem not_mem_text {c : Char} (hd : isDecimal c = false) (hc : c ∉ ['-', '.']) :
    c ∉ b.text := fun h => (mem_text h).elim (fun h => by rw [hd] at h; cases h) hc

theorem isBlank_of_mem_text : ∀ c ∈ b.text, isBlank c = false := fun c hc =>
  (mem_text hc).elim isBlank_of_isDecimal
    (forall_of_all (P := fun c => isBlank c = false) (by decide) c)

theorem text_ne_nil (hd : b.digits ≠ []) : b.text ≠ [] := fun h => by
  have hsubset : b.digits ⊆ b.text := List.Subset.trans digits_subset (List.subset_append_right _ _)
  rw [h] at hsubset
  exact hd (List.eq_nil_of_subset_nil hsubset)

/-! ## How a base is read -/

theorem unsigned_magnitude (hd : b.digits ≠ []) :
    Unsigned b.magnitude (mkRat (Numeral.value b.digits) (10 ^ b.places)) := by
  cases hf : b.fraction with
  | none =>
    rw [digits_of_none hf] at hd
    rw [magnitude_of_none hf, digits_of_none hf, places, hf, Option.getD_none, List.length_nil,
      pow_zero, Rat.mkRat_one]
    exact .whole (isNumeral_iff.2 ⟨hd, b.isDecimal_whole⟩)
  | some f =>
    rw [digits_of_some hf] at hd
    rw [magnitude_of_some hf, digits_of_some hf, places, hf, Option.getD_some]
    exact .decimal b.isDecimal_whole (isDecimal_of_some hf) hd

/-- **The digits of a base** make up its value. -/
theorem rational_text (hd : b.digits ≠ []) : rational b.text = .ok b.value :=
  rational_of_unsigned (unsigned_magnitude hd) b.negative

theorem minus_text : minus b.text = (b.negative, b.magnitude) := by
  rw [text]
  cases b.negative with
  | true => rfl
  | false =>
    refine minus_of_ne fun u hu => ?_
    have hno : '-' ∉ b.magnitude := not_mem_magnitude (by decide) (by decide)
    rw [show b.magnitude = '-' :: u from hu] at hno
    exact hno List.mem_cons_self

theorem bracketBase_magnitude (u : Text) :
    Reading.bracketBase (b.magnitude ++ '[' :: u) = (b.magnitude, '[' :: u) := by
  cases hf : b.fraction with
  | none =>
    obtain ⟨htake, hdrop⟩ := span_decimal b.isDecimal_whole (s := '[') (by decide) u
    rw [magnitude_of_none hf, Reading.bracketBase, htake, hdrop]
    rfl
  | some f =>
    obtain ⟨htake, hdrop⟩ := span_decimal b.isDecimal_whole (s := '.') (by decide) (f ++ '[' :: u)
    obtain ⟨htake', hdrop'⟩ := span_decimal (isDecimal_of_some hf) (s := '[') (by decide) u
    rw [magnitude_of_some hf, List.append_assoc, List.cons_append, Reading.bracketBase, htake,
      hdrop]
    simp only [htake', hdrop']

theorem bracket?_text (u : Text) : bracket? (b.text ++ '[' :: u) =
    (Reading.bracketContents? ('[' :: u)).map fun x => (b.text, x.1, x.2) := by
  rw [Reading.bracket?_eq, minus_append_cons (by decide), minus_text]
  simp only [bracketBase_magnitude]
  rfl

/-- A base without digits is all signs and points. -/
theorem missing_iff : (b.text.all fun c => c = '-' || c = '.') = true ↔ b.digits = [] := by
  have hmark : ∀ {c : Char}, isDecimal c = true → ¬ (c = '-' ∨ c = '.') := by
    rintro c hc (rfl | rfl) <;> exact absurd hc (by decide)
  have hall : (b.text.all fun c => c = '-' || c = '.') = true ↔
      ∀ c ∈ b.text, c = '-' ∨ c = '.' := by simp
  rw [hall]
  constructor
  · intro h
    refine List.eq_nil_iff_forall_not_mem.2 fun c hc => ?_
    exact hmark (isDecimal_digits c hc) (h c (List.mem_append_right _ (digits_subset hc)))
  · intro h c hc
    rcases List.mem_append.1 hc with hc | hc
    · exact .inl (Ratio.mem_sign hc)
    · cases hf : b.fraction with
      | none =>
        rw [magnitude_of_none hf, ← digits_of_none hf, h] at hc
        cases hc
      | some f =>
        rw [digits_of_some hf, List.append_eq_nil_iff] at h
        rw [magnitude_of_some hf, h.1, h.2] at hc
        exact .inr (List.mem_singleton.1 hc)

theorem placesOf_text : placesOf b.text = b.places := by
  have hsign : ∀ c ∈ Expansion.sign b.negative, (c != '.') = true := fun c hc => by
    rw [Ratio.mem_sign hc]
    rfl
  have hwhole : ∀ c ∈ b.whole, (c != '.') = true := fun c hc => by
    rw [bne_iff_ne]
    rintro rfl
    exact absurd (b.isDecimal_whole _ hc) (by decide)
  rw [placesOf, text, List.dropWhile_append_of_pos hsign, places]
  cases hf : b.fraction with
  | none =>
    rw [magnitude_of_none hf, List.dropWhile_eq_nil_iff.2 hwhole]
    rfl
  | some f =>
    rw [magnitude_of_some hf, List.dropWhile_append_of_pos hwhole,
      List.dropWhile_cons_of_neg (by decide)]
    rfl

theorem inUnits_places (a : Rat) : inUnits a b.places = a * b.unit := by
  rw [inUnits, unit]
  split_ifs
  · rw [mul_one]
  · rw [mul_one_div, Nat.pow_eq]
    push_cast
    rfl

theorem endsInPoint_sign_append (negative : Bool) {w : Text} (hw : ∀ c ∈ w, isDecimal c = true) :
    endsInPoint (Expansion.sign negative ++ (w ++ ['.'])) = isNumeral w := by
  rw [endsInPoint, ← List.append_assoc, List.reverse_append]
  simp only [List.reverse_cons, List.reverse_nil, List.nil_append, List.singleton_append,
    List.reverse_reverse]
  cases negative with
  | true => rfl
  | false =>
    have hsign : Expansion.sign false ++ w = w := rfl
    rw [hsign]
    split
    · exact absurd (hw _ List.mem_cons_self) (by decide)
    · rfl

theorem getLast?_of_endsInPoint {t : Text} (h : endsInPoint t = true) : t.getLast? = some '.' := by
  rw [endsInPoint] at h
  split at h
  · rename_i rest hrest
    rw [← List.reverse_reverse t, hrest, List.reverse_cons, List.getLast?_concat]
  · cases h

/-- A base with digits ends in its point if no digit stands after it. -/
theorem endsInPoint_text : endsInPoint b.text = true ↔ b.whole ≠ [] ∧ b.fraction = some [] := by
  by_cases hf : b.fraction = some []
  · rw [text, magnitude_of_some hf, endsInPoint_sign_append b.negative b.isDecimal_whole,
      isNumeral_iff, and_iff_left b.isDecimal_whole, and_iff_left hf]
  · refine iff_of_false (fun h => ?_) fun h => hf h.2
    have hlast := getLast?_of_endsInPoint h
    cases hfraction : b.fraction with
    | none =>
      rw [text, magnitude_of_none hfraction] at hlast
      rcases List.mem_append.1 (List.mem_of_getLast? hlast) with hm | hm
      · exact absurd (Ratio.mem_sign hm) (by decide)
      · exact absurd (b.isDecimal_whole _ hm) (by decide)
    | some f =>
      have hfd := isDecimal_of_some hfraction
      rcases List.eq_nil_or_concat f with rfl | ⟨u, c, rfl⟩
      · exact hf hfraction
      · rw [text, magnitude_of_some hfraction, List.concat_eq_append, ← List.cons_append,
          ← List.append_assoc, ← List.append_assoc, List.getLast?_concat] at hlast
        rw [Option.some.inj hlast, List.concat_eq_append] at hfd
        exact absurd (hfd _ (List.mem_append_right _ List.mem_cons_self)) (by decide)

/-! ## The contents of a bracket -/

variable (b)

theorem body_bracket (c : Text) : body (b.bracket c) = b.bracket c := by
  rw [body, bracket, ← List.cons_append, ← List.append_assoc, List.getLast?_concat]
  exact if_neg (by decide)

/-- **A base with a bracket** is one literal if no bracket closes within the contents. -/
theorem uncertainty_bracket_eq_ok_iff {c : Text} {integerBase : Bool} {i : Interval} :
    uncertainty (b.bracket c) integerBase = .ok i ↔
      c ≠ [] ∧ ']' ∉ c ∧ bracketed b.text c integerBase = .ok i := by
  rw [uncertainty, body_bracket, bracket, bracket?_text]
  by_cases hc : ']' ∈ c
  · -- the first bracket that closes leaves the last one behind
    obtain ⟨u, w, rfl, hu⟩ := List.eq_append_cons_of_mem hc
    refine iff_of_false (fun h => ?_) fun h => h.2.1 hc
    rw [List.append_assoc, List.cons_append, Reading.bracketContents?_append hu] at h
    split_ifs at h
    · cases h
    · cases w <;> cases h
  · rw [Reading.bracketContents?_append hc]
    cases c with
    | nil => exact iff_of_false (fun h => nomatch h) fun h => h.1 rfl
    | cons a c => exact ⟨fun h => ⟨List.cons_ne_nil _ _, hc, h⟩, fun h => h.2.2⟩

/-- What a reader takes before a bracket is a base. -/
theorem exists_bracketBase (negative : Bool) (t : Text) : ∃ b : Base,
    b.negative = negative ∧ t = b.magnitude ++ (Reading.bracketBase t).2 := by
  have ht := List.takeWhile_append_dropWhile (p := isDecimal) (l := t)
  have hw : ∀ c ∈ t.takeWhile isDecimal, isDecimal c = true :=
    List.all_eq_true.1 List.all_takeWhile
  rw [Reading.bracketBase]
  split
  · rename_i u hu
    have hu' := List.takeWhile_append_dropWhile (p := isDecimal) (l := u)
    refine ⟨⟨negative, _, some (u.takeWhile isDecimal), hw,
      List.all_eq_true.1 List.all_takeWhile⟩, rfl, ?_⟩
    rw [magnitude]
    simp only [List.append_assoc, List.cons_append]
    rw [hu', ← hu, ht]
  · exact ⟨⟨negative, _, none, hw, List.forall_mem_nil _⟩, rfl, ht.symm⟩

/-- The base and the contents of a bracket at the start of a text. -/
theorem exists_of_bracket?_eq {t base c r : Text} (h : bracket? t = some (base, c, r)) :
    ∃ b : Base, base = b.text ∧ t = b.bracket c ++ r := by
  have h' := h
  rw [Reading.bracket?_eq] at h
  obtain ⟨⟨c', r'⟩, hc, hr⟩ := Option.map_eq_some_iff.1 h
  obtain ⟨-, rfl, rfl⟩ : _ ∧ c' = c ∧ r' = r := by simpa only [Prod.mk.injEq] using hr
  obtain ⟨b, hb, hbase⟩ := exists_bracketBase (minus t).1 (minus t).2
  have ht : t = b.text ++ '[' :: (c' ++ ']' :: r') := by
    rw [text, hb, List.append_assoc, ← Reading.eq_of_bracketContents? hc, ← hbase,
      sign_append_minus]
  refine ⟨b, ?_, ?_⟩
  · rw [ht, bracket?_text] at h'
    obtain ⟨x, -, hx⟩ := Option.map_eq_some_iff.1 h'
    exact (Prod.mk.inj hx).1.symm
  · rw [bracket, List.append_assoc, List.cons_append, List.append_assoc]
    exact ht

theorem digits_ne_nil {c : Text} {integerBase : Bool} {i : Interval}
    (h : bracketed b.text c integerBase = .ok i) : b.digits ≠ [] := by
  intro hd
  have hwhole : b.whole = [] := (List.append_eq_nil_iff.1 hd).1
  rw [bracketed, if_neg, if_pos (missing_iff.2 hd)] at h
  · cases h
  · rw [Bool.and_eq_true, endsInPoint_text]
    exact fun h => h.1.1 hwhole

/-- **Every literal with a bracket** has a base with digits. -/
theorem exists_bracket {t : Text} {integerBase : Bool} {i : Interval}
    (h : uncertainty t integerBase = .ok i) :
    ∃ (b : Base) (c : Text), body t = b.bracket c ∧ b.digits ≠ [] := by
  have hbracket : ∃ (b : Base) (c : Text), body t = b.bracket c := by
    rw [uncertainty] at h
    split at h
    · rename_i base c hbracket
      obtain ⟨b, -, ht⟩ := exists_of_bracket?_eq hbracket
      exact ⟨b, c, ht.trans (List.append_nil _)⟩
    · cases h
  obtain ⟨b, c, ht⟩ := hbracket
  rw [uncertainty, ht, ← b.body_bracket, ← uncertainty] at h
  exact ⟨b, c, ht, b.digits_ne_nil (b.uncertainty_bracket_eq_ok_iff.1 h).2.2⟩

theorem bracketed_symmetric (hd : b.digits ≠ []) {c : Text} (hs : isSymmetric c = true)
    (integerBase : Bool) :
    bracketed b.text c integerBase = symmetricBracket b.value c b.places := by
  have hsign : (c.any fun c => c = '+' || c = '-') = true := by
    rw [isSymmetric.eq_def] at hs
    split at hs <;> first | rfl | cases hs
  rw [bracketed, hs, Bool.not_true, Bool.and_false, if_neg Bool.false_ne_true,
    if_neg (mt missing_iff.1 hd), bind_of_ok (rational_text hd), hsign, Bool.not_true,
    Bool.and_false, placesOf_text]
  rfl

theorem bracketed_offsets (hd : b.digits ≠ []) (hp : b.fraction ≠ some []) {c : Text}
    (hs : isSymmetric c = false) (hsign : '+' ∈ c ∨ '-' ∈ c) (integerBase : Bool) :
    bracketed b.text c integerBase = offsetsBracket b.value c b.places := by
  have hsign : (c.any fun c => c = '+' || c = '-') = true := by
    rw [List.any_eq_true]
    exact hsign.elim (fun h => ⟨_, h, rfl⟩) fun h => ⟨_, h, rfl⟩
  rw [bracketed, if_neg (by rw [Bool.and_eq_true, endsInPoint_text]; exact fun h => hp h.1.2),
    if_neg (mt missing_iff.1 hd), bind_of_ok (rational_text hd), hsign, Bool.not_true,
    Bool.and_false, placesOf_text, hs]
  rfl

end Base

end Literal

end RatCalc

import RatCalc.Proofs.DecimalLiteral
import RatCalc.Proofs.RunLength
import RatCalc.Proofs.Takes

/-!
# The forms of rational literals

* `Literal.Unsigned u b`: the text `u` is an integer, a fraction, a mixed number or a decimal
  without a sign, in decimal digits of any script, and `b` is its value.
* `exists_of_mixed?`, `exists_of_decimal?`, `exists_of_fraction?`: what the readers of the forms
  take apart; `mixed?_eq`, `decimal?_eq`, `fraction?_whole`, `fraction?_quotient`: what they read.
* **`rational_eq_ok_iff`**: a text is read as a rational number just if such a text is left of it
  when groups are written out and margins and sign are taken off.
* **`rational_of_unsigned`**: the text of a number, with or without a minus sign, has its value.
-/

namespace RatCalc.Literal

open Text Numeral

/-- The texts of numbers without a sign, with their values. -/
inductive Unsigned : Text → Rat → Prop where
  | whole {w} : isNumeral w = true → Unsigned w (value w)
  | quotient {w d} : isNumeral w = true → isNumeral d = true → value d ≠ 0 →
      Unsigned (w ++ '/' :: d) (mkRat (value w) (value d))
  | mixed {w n d} : isNumeral w = true → isNumeral n = true → isNumeral d = true → value d ≠ 0 →
      Unsigned (w ++ '.' :: '.' :: (n ++ '/' :: d)) (mkRat (value w * value d + value n) (value d))
  | decimal {w f} : (∀ c ∈ w, isDecimal c = true) → (∀ c ∈ f, isDecimal c = true) → w ++ f ≠ [] →
      Unsigned (w ++ '.' :: f) (mkRat (value (w ++ f)) (10 ^ f.length))

variable {t w n d f : Text} {negative : Bool} {a : Rat}

/-- What is read of a text: its groups are written out, and its margins do not matter. -/
def core (t : Text) : Text := body (RunLength.expand (trim t))

/-! ## Rows of digits -/

theorem isNumeral_iff : isNumeral w = true ↔ w ≠ [] ∧ ∀ c ∈ w, isDecimal c = true := by
  rw [isNumeral, Bool.and_eq_true, Bool.not_eq_true', List.isEmpty_eq_false_iff, List.all_eq_true]

theorem readNat?_of_isNumeral (h : isNumeral w = true) : readNat? w = some (value w) := if_pos h

theorem exists_of_readNat? {k : Nat} (h : readNat? w = some k) :
    isNumeral w = true ∧ k = value w := by
  rw [readNat?] at h
  split_ifs at h with hw
  exact ⟨hw, (Option.some.inj h).symm⟩

/-- No slash stands in a decimal. -/
theorem slash_not_mem (hw : ∀ c ∈ w, isDecimal c = true) (hf : ∀ c ∈ f, isDecimal c = true) :
    '/' ∉ w ++ '.' :: f := by
  rw [List.mem_append, List.mem_cons, not_or, not_or]
  exact ⟨not_mem_of_isDecimal hw (by decide), by decide, not_mem_of_isDecimal hf (by decide)⟩

/-- Digits end before a character that is none. -/
theorem span_decimal (h : ∀ c ∈ w, isDecimal c = true) {s : Char} (hs : isDecimal s = false)
    (u : Text) :
    (w ++ s :: u).takeWhile isDecimal = w ∧ (w ++ s :: u).dropWhile isDecimal = s :: u :=
  span_append h fun c v hv => by rwa [← (List.cons.inj hv).1]

/-! ## Mixed numbers -/

theorem exists_of_mixed? {x : Bool × Nat × Nat × Nat} (h : mixed? t = some x) :
    ∃ w n d, isNumeral w = true ∧ isNumeral n = true ∧ isNumeral d = true ∧
      (sign t).2 = w ++ '.' :: '.' :: (n ++ '/' :: d) ∧
        x = ((sign t).1, value w, value n, value d) := by
  rw [mixed?] at h
  simp only at h
  have hu := List.takeWhile_append_dropWhile (p := isDecimal) (l := (sign t).2)
  split at h
  · rename_i v hv
    have hv' := List.takeWhile_append_dropWhile (p := isDecimal) (l := v)
    split at h
    · rename_i d hd
      split at h
      · rename_i i j k hi hj hk
        obtain ⟨hw, rfl⟩ := exists_of_readNat? hi
        obtain ⟨hn, rfl⟩ := exists_of_readNat? hj
        obtain ⟨hd', rfl⟩ := exists_of_readNat? hk
        refine ⟨_, _, d, hw, hn, hd', ?_, (Option.some.inj h).symm⟩
        rw [← hd, hv', ← hv, hu]
      · cases h
    · cases h
  · cases h

theorem mixed?_eq (hw : isNumeral w = true) (hn : isNumeral n = true) (hd : isNumeral d = true)
    (hs : sign t = (negative, w ++ '.' :: '.' :: (n ++ '/' :: d))) :
    mixed? t = some (negative, value w, value n, value d) := by
  obtain ⟨htake, hdrop⟩ := span_decimal (isNumeral_iff.1 hw).2 (s := '.') (by decide)
    ('.' :: (n ++ '/' :: d))
  obtain ⟨htake', hdrop'⟩ := span_decimal (isNumeral_iff.1 hn).2 (s := '/') (by decide) d
  rw [mixed?, hs]
  simp only [htake, hdrop, htake', hdrop', readNat?_of_isNumeral hw, readNat?_of_isNumeral hn,
    readNat?_of_isNumeral hd]

/-! ## Decimals -/

theorem exists_of_decimal? {x : Bool × Text × Text} (h : decimal? t = some x) :
    ∃ w f, (∀ c ∈ w, isDecimal c = true) ∧ (∀ c ∈ f, isDecimal c = true) ∧ w ++ f ≠ [] ∧
      (sign t).2 = w ++ '.' :: f ∧ x = ((sign t).1, w, f) := by
  rw [decimal?] at h
  simp only at h
  split at h
  · rename_i f hf
    split_ifs at h with hall
    rw [Bool.and_eq_true, List.all_eq_true, Bool.not_eq_true', Bool.and_eq_false_iff,
      List.isEmpty_eq_false_iff, List.isEmpty_eq_false_iff] at hall
    refine ⟨_, f, List.all_eq_true.1 List.all_takeWhile, hall.1, ?_, ?_, (Option.some.inj h).symm⟩
    · exact hall.2.elim (fun h => List.append_ne_nil_of_left_ne_nil h f)
        fun h => List.append_ne_nil_of_right_ne_nil _ h
    · rw [← hf, List.takeWhile_append_dropWhile]
  · cases h

theorem decimal?_eq (hw : ∀ c ∈ w, isDecimal c = true) (hf : ∀ c ∈ f, isDecimal c = true)
    (hne : w ++ f ≠ []) (hs : sign t = (negative, w ++ '.' :: f)) :
    decimal? t = some (negative, w, f) := by
  obtain ⟨htake, hdrop⟩ := span_decimal hw (s := '.') (by decide) f
  have hempty : (w.isEmpty && f.isEmpty) = false := by
    rw [Bool.and_eq_false_iff, List.isEmpty_eq_false_iff, List.isEmpty_eq_false_iff]
    by_contra h
    rw [not_or, not_not, not_not] at h
    exact hne (by rw [h.1, h.2]; rfl)
  rw [decimal?, hs]
  simp only [htake, hdrop, List.all_eq_true.2 hf, hempty, Bool.not_false, Bool.and_self, if_true]

/-! ## Fractions -/

theorem exists_of_fraction? {q : Int × Nat} (h : fraction? t = some q) :
    (isNumeral (sign t).2 = true ∧ q = (signed (sign t).1 (value (sign t).2), 1)) ∨
      ∃ w d, isNumeral w = true ∧ isNumeral d = true ∧ (sign t).2 = w ++ '/' :: d ∧
        q = (signed (sign t).1 (value w), value d) := by
  rw [fraction?] at h
  simp only at h
  have hu := List.takeWhile_append_dropWhile (p := isDecimal) (l := (sign t).2)
  split at h
  · rename_i k hk hd
    obtain ⟨hw, rfl⟩ := exists_of_readNat? hk
    rw [hd, List.append_nil] at hu
    rw [hu] at hw h
    exact .inl ⟨hw, (Option.some.inj h).symm⟩
  · rename_i k d hk hd
    obtain ⟨hw, rfl⟩ := exists_of_readNat? hk
    obtain ⟨j, hj, hq⟩ := Option.map_eq_some_iff.1 h
    obtain ⟨hd', rfl⟩ := exists_of_readNat? hj
    exact .inr ⟨_, d, hw, hd', by rw [← hd, hu], hq.symm⟩
  · cases h

theorem fraction?_whole (hw : isNumeral w = true) (hs : sign t = (negative, w)) :
    fraction? t = some (signed negative (value w), 1) := by
  have hall := (isNumeral_iff.1 hw).2
  obtain ⟨htake, hdrop⟩ : w.takeWhile isDecimal = w ∧ w.dropWhile isDecimal = [] := by
    have hnil : ∀ c u, ([] : Text) = c :: u → isDecimal c = false := by rintro c u ⟨⟩
    have h := span_append hall hnil
    rwa [List.append_nil] at h
  rw [fraction?, hs]
  simp only [htake, hdrop, readNat?_of_isNumeral hw]

theorem fraction?_quotient (hw : isNumeral w = true) (hd : isNumeral d = true)
    (hs : sign t = (negative, w ++ '/' :: d)) :
    fraction? t = some (signed negative (value w), value d) := by
  obtain ⟨htake, hdrop⟩ := span_decimal (isNumeral_iff.1 hw).2 (s := '/') (by decide) d
  rw [fraction?, hs]
  simp only [htake, hdrop, readNat?_of_isNumeral hw, readNat?_of_isNumeral hd, Option.map_some]

/-! ## Literals -/

theorem mem_sign_iff {c : Char} (hm : c ≠ '-') (hp : c ≠ '+') : c ∈ t ↔ c ∈ (sign t).2 := by
  rw [sign.eq_def]
  split
  · rw [List.mem_cons, or_iff_right hm]
  · rw [List.mem_cons, or_iff_right hp]
  · rfl

theorem mem_body {c : Char} (hc : c ≠ '\n') : c ∈ t ↔ c ∈ body t := by
  rw [body]
  split_ifs with h
  · obtain ⟨u, rfl⟩ := List.getLast?_eq_some_iff.1 h
    rw [List.dropLast_concat, List.mem_append, List.mem_singleton, or_iff_left hc]
  · rfl

theorem mem_point_iff : '.' ∈ RunLength.expand (trim t) ↔ '.' ∈ (sign (core t)).2 := by
  rw [mem_body (by decide), mem_sign_iff (by decide) (by decide), core]

/-- A quotient with the sign of its numerator. -/
theorem ofInts_signed (negative : Bool) (k : Nat) {m : Nat} (hm : m ≠ 0) :
    Ratio.ofInts (signed negative k) m = .ok (if negative then -mkRat k m else mkRat k m) := by
  rw [Ratio.ofInts, if_neg (Int.natCast_ne_zero.2 hm), Rat.mkRat_eq_divInt]
  cases negative with
  | false => rfl
  | true => exact congrArg Except.ok (Rat.neg_divInt k m).symm

theorem quotient_eq (t : Text) : quotient t =
    match mixed? (core t) with
    | some (negative, w, n, d) =>
      if d = 0 then .error (.division .zeroDenominator) else .ok (signed negative (w * d + n), d)
    | none =>
      if (RunLength.expand (trim t)).elem '.' then
        match decimal? (core t) with
        | some (negative, w, f) => .ok (signed negative (value (w ++ f)), Nat.pow 10 f.length)
        | none => .error (.literal .decimalFormat)
      else
        match fraction? (core t) with
        | some q => .ok q
        | none => .error (.literal .rationalFormat) := rfl

/-- A quotient that is read comes from a number without a sign. -/
theorem exists_of_quotient {q : Int × Nat} (h : quotient t = .ok q) (hd : q.2 ≠ 0) :
    ∃ k, q.1 = signed (sign (core t)).1 k ∧ Unsigned (sign (core t)).2 (mkRat k q.2) := by
  rw [quotient_eq] at h
  split at h
  · rename_i hm
    obtain ⟨w, n, d, hw, hn, hd', hs, hx⟩ := exists_of_mixed? hm
    cases hx
    split_ifs at h with h0
    cases h
    exact ⟨_, rfl, hs ▸ .mixed hw hn hd' h0⟩
  · split_ifs at h with hpoint
    · split at h
      · rename_i hm
        obtain ⟨w, f, hw, hf, hne, hs, hx⟩ := exists_of_decimal? hm
        cases hx
        cases h
        exact ⟨_, rfl, hs ▸ .decimal hw hf hne⟩
      · cases h
    · split at h
      · rename_i hm
        cases h
        rcases exists_of_fraction? hm with ⟨hw, rfl⟩ | ⟨w, d, hw, hd', hs, rfl⟩
        · refine ⟨_, rfl, ?_⟩
          rw [Rat.mkRat_one]
          exact .whole hw
        · exact ⟨_, rfl, hs ▸ .quotient hw hd' hd⟩
      · cases h

/-- No mixed number is a number of another form. -/
theorem mixed?_eq_none {u : Text} (hs : sign t = (negative, u)) (h : '.' ∉ u ∨ '/' ∉ u) :
    mixed? t = none := by
  cases hm : mixed? t with
  | none => rfl
  | some x =>
    obtain ⟨w, n, d, -, -, -, hu, -⟩ := exists_of_mixed? hm
    rw [hs] at hu
    subst hu
    exact absurd h (by simp)

/-- A number without a sign is read as a quotient. -/
theorem quotient_of_unsigned {u : Text} {b : Rat} (hu : Unsigned u b)
    (hs : sign (core t) = (negative, u)) :
    ∃ k m, m ≠ 0 ∧ quotient t = .ok (signed negative k, m) ∧ b = mkRat k m := by
  have hpoint : '.' ∈ RunLength.expand (trim t) ↔ '.' ∈ u := by rw [mem_point_iff, hs]
  cases hu with
  | whole hw =>
    have hno : '.' ∉ u := not_mem_of_isDecimal (isNumeral_iff.1 hw).2 (by decide)
    have hmixed := mixed?_eq_none hs (.inl hno)
    refine ⟨value u, 1, by decide, ?_, (Rat.mkRat_one _).symm⟩
    rw [quotient_eq, hmixed]
    simp only
    rw [if_neg (by rwa [List.elem_iff, hpoint]), fraction?_whole hw hs]
  | @quotient w d hw hd h0 =>
    have hno : '.' ∉ w ++ '/' :: d := by
      rw [List.mem_append, List.mem_cons, not_or, not_or]
      exact ⟨not_mem_of_isDecimal (isNumeral_iff.1 hw).2 (by decide), by decide,
        not_mem_of_isDecimal (isNumeral_iff.1 hd).2 (by decide)⟩
    have hmixed := mixed?_eq_none hs (.inl hno)
    refine ⟨value w, value d, h0, ?_, rfl⟩
    rw [quotient_eq, hmixed]
    simp only
    rw [if_neg (by rwa [List.elem_iff, hpoint]), fraction?_quotient hw hd hs]
  | @mixed w n d hw hn hd h0 =>
    refine ⟨value w * value d + value n, value d, h0, ?_, by push_cast; rfl⟩
    rw [quotient_eq, mixed?_eq hw hn hd hs]
    exact if_neg h0
  | @decimal w f hw hf hne =>
    have hmixed := mixed?_eq_none hs (.inr (slash_not_mem hw hf))
    refine ⟨value (w ++ f), 10 ^ f.length, by positivity, ?_, rfl⟩
    rw [quotient_eq, hmixed]
    simp only
    rw [if_pos (by rw [List.elem_iff, hpoint]; simp), decimal?_eq hw hf hne hs]
    rfl

/-- **A text is read as a rational number** just if a number without a sign is left of it. -/
theorem rational_eq_ok_iff : rational t = .ok a ↔
    ∃ b, Unsigned (sign (core t)).2 b ∧ a = if (sign (core t)).1 then -b else b := by
  constructor
  · intro h
    obtain ⟨⟨n, d⟩, hq, h⟩ := bind_eq_ok.1 h
    have hd : d ≠ 0 := by
      rintro rfl
      cases h
    obtain ⟨k, rfl, hu⟩ := exists_of_quotient hq hd
    simp only [ofInts_signed _ k hd] at h
    exact ⟨_, hu, (Except.ok.inj h).symm⟩
  · rintro ⟨b, hu, rfl⟩
    obtain ⟨k, m, hm, hq, rfl⟩ := quotient_of_unsigned hu (t := t) rfl
    rw [rational, bind_of_ok hq]
    exact ofInts_signed _ k hm

/-! ## Numbers without a sign -/

section

variable {u : Text} {b : Rat}

theorem Unsigned.mem (h : Unsigned u b) : ∀ c ∈ u, isDecimal c = true ∨ c ∈ ['.', '/'] := by
  intro c hc
  cases h with
  | whole hw => exact .inl ((isNumeral_iff.1 hw).2 c hc)
  | quotient hw hd =>
    rw [List.mem_append, List.mem_cons] at hc
    rcases hc with hc | rfl | hc
    · exact .inl ((isNumeral_iff.1 hw).2 c hc)
    · exact .inr (by decide)
    · exact .inl ((isNumeral_iff.1 hd).2 c hc)
  | mixed hw hn hd =>
    rw [List.mem_append, List.mem_cons, List.mem_cons, List.mem_append, List.mem_cons] at hc
    rcases hc with hc | rfl | rfl | hc | rfl | hc
    · exact .inl ((isNumeral_iff.1 hw).2 c hc)
    · exact .inr (by decide)
    · exact .inr (by decide)
    · exact .inl ((isNumeral_iff.1 hn).2 c hc)
    · exact .inr (by decide)
    · exact .inl ((isNumeral_iff.1 hd).2 c hc)
  | decimal hw hf =>
    rw [List.mem_append, List.mem_cons] at hc
    rcases hc with hc | rfl | hc
    · exact .inl (hw c hc)
    · exact .inr (by decide)
    · exact .inl (hf c hc)

theorem Unsigned.not_mem (h : Unsigned u b) {s : Char} (hd : isDecimal s = false)
    (hs : s ∉ ['.', '/']) : s ∉ u := fun hm => by
  rcases h.mem s hm with h | h
  · rw [hd] at h
    cases h
  · exact hs h

theorem Unsigned.isBlank (h : Unsigned u b) : ∀ c ∈ u, isBlank c = false := fun c hc =>
  (h.mem c hc).elim isBlank_of_isDecimal fun h =>
    forall_of_all (P := fun c => Text.isBlank c = false) (by decide) c h

theorem sign_append (hm : '-' ∉ u) (hp : '+' ∉ u) (negative : Bool) :
    sign (Expansion.sign negative ++ u) = (negative, u) := by
  cases negative with
  | true => rfl
  | false =>
    change sign u = _
    rw [sign.eq_def]
    split
    · exact absurd List.mem_cons_self hm
    · exact absurd List.mem_cons_self hp
    · rfl

/-- A text without blanks and groups is read as it is. -/
theorem core_eq (hb : ∀ c ∈ t, isBlank c = false) (hg : '\x7b' ∉ t) : core t = t := by
  have hbreak : '\n' ∉ t := fun hm => by
    have h := hb _ hm
    revert h
    decide
  rw [core, trim_of_no_blank hb, RunLength.expand_of_no_open hg, body_of_no_break hbreak]

theorem isBlank_of_mem_sign {negative : Bool} :
    ∀ c ∈ Expansion.sign negative, isBlank c = false := by
  cases negative with
  | false => exact List.forall_mem_nil _
  | true => exact List.forall_mem_singleton.2 (by decide)

theorem sign_core_of_unsigned (h : Unsigned u b) (negative : Bool) :
    sign (core (Expansion.sign negative ++ u)) = (negative, u) := by
  have hm : '-' ∉ u := h.not_mem (by decide) (by decide)
  have hp : '+' ∉ u := h.not_mem (by decide) (by decide)
  have hg : '\x7b' ∉ u := h.not_mem (by decide) (by decide)
  rw [core_eq, sign_append hm hp]
  · exact fun c hc => (List.mem_append.1 hc).elim (isBlank_of_mem_sign c) (h.isBlank c)
  · rw [List.mem_append, not_or]
    exact ⟨by cases negative <;> decide, hg⟩

/-- **A number with its sign is read as its value.** -/
theorem rational_of_unsigned (h : Unsigned u b) (negative : Bool) :
    rational (Expansion.sign negative ++ u) = .ok (if negative then -b else b) := by
  have hs := sign_core_of_unsigned h negative
  exact rational_eq_ok_iff.2 ⟨b, by rwa [hs], by rw [hs]⟩

end

end RatCalc.Literal

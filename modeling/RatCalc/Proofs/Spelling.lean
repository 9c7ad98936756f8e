import RatCalc.Proofs.Precedence
import RatCalc.Proofs.TameText

/-!
# Characters of numbers

* `Spans P t r`: characters with a property stand before `r` in `t`; `Spans.refl`, `Spans.trans`.
* `LetterTable.letter_of_initial`, `mem_take_of_initial`: the letters that are known at the start, and
  the digits after them.
* `Dialect.IsNumeric`, `Dialect.Spells`: the characters of numbers, and those of numbers with all
  that may follow them.
* `spans_endpoint`: a single number is written with characters of numbers.
* `SpansNumber`: what begins with a character of a number; **`spansNumber_literal`**: literals with
  what follows them do.
-/

namespace RatCalc

open Text

namespace Text

/-! ## What is passed over -/

/-- Characters with a property stand before `r` in `t`. -/
def Spans (P : Char → Prop) (t r : Text) : Prop := ∃ u, (∀ c ∈ u, P c) ∧ t = u ++ r

variable {P Q : Char → Prop} {t u r : Text}

theorem Spans.refl (t : Text) : Spans P t t := ⟨[], List.forall_mem_nil _, rfl⟩

theorem Spans.trans (h : Spans P t u) (h' : Spans P u r) : Spans P t r := by
  obtain ⟨a, ha, rfl⟩ := h
  obtain ⟨b, hb, rfl⟩ := h'
  exact ⟨a ++ b, List.forall_mem_append.2 ⟨ha, hb⟩, (List.append_assoc a b r).symm⟩

theorem Spans.cons {c : Char} (h : P c) (t : Text) : Spans P (c :: t) t :=
  ⟨[c], List.forall_mem_singleton.2 h, rfl⟩

theorem Spans.mono (h : Spans P t r) (hP : ∀ c, P c → Q c) : Spans Q t r := by
  obtain ⟨u, hu, rfl⟩ := h
  exact ⟨u, fun c hc => hP c (hu c hc), rfl⟩

theorem Spans.dropWhile {p : Char → Bool} (h : ∀ c, p c = true → P c) (t : Text) :
    Spans P t (t.dropWhile p) :=
  ⟨t.takeWhile p, fun c hc => h c (List.all_eq_true.1 List.all_takeWhile c hc),
    List.takeWhile_append_dropWhile.symm⟩

theorem spans_minus (h : P '-') (t : Text) : Spans P t (minus t).2 := by
  rcases minus_cases t with ⟨u, rfl, hu⟩ | ⟨-, ht⟩
  · rw [hu]
    exact .cons h u
  · rw [ht]
    exact .refl t

end Text

/-! ## The letters that are known at the start -/

namespace LetterTable

variable {c : Char} {t : Text} {s : NumeralSystem}

theorem mem_of_isLetter (h : isLetter c = true) : c ∈ NumeralSystem.alphabet.drop 10 := by
  have hsmall : ∀ n : Fin 26, Char.ofNat (97 + n) ∈ NumeralSystem.alphabet.drop 10 := by
    decide
  have hlarge : ∀ n : Fin 26, Char.ofNat (65 + n) ∈ NumeralSystem.alphabet.drop 10 := by
    decide
  simp only [isLetter, Bool.or_eq_true, Bool.and_eq_true, decide_eq_true_eq] at h
  rcases h with ⟨hlow, hhigh⟩ | ⟨hlow, hhigh⟩
  · have hlow : 97 ≤ c.toNat := hlow
    have hhigh : c.toNat ≤ 122 := hhigh
    have hc := hsmall ⟨c.toNat - 97, by omega⟩
    rwa [show 97 + (c.toNat - 97) = c.toNat by omega, Char.ofNat_toNat] at hc
  · have hlow : 65 ≤ c.toNat := hlow
    have hhigh : c.toNat ≤ 90 := hhigh
    have hc := hlarge ⟨c.toNat - 65, by omega⟩
    rwa [show 65 + (c.toNat - 65) = c.toNat by omega, Char.ofNat_toNat] at hc

theorem mem_of_system? {table : LetterTable} (h : table.system? t = some s) :
    ∃ a, (a, s) ∈ table := by
  rw [system?] at h
  split at h
  · rename_i x hx
    cases h
    exact ⟨x.1, List.mem_of_find?_eq_some hx⟩
  · obtain ⟨x, hx, rfl⟩ := Option.map_eq_some_iff.1 h
    exact ⟨x.1, List.mem_of_find?_eq_some hx⟩

/-- The digits after the letters that are known at the start are hexadecimal at most. -/
theorem mem_take_of_initial (h : initial.system? t = some s) (hc : s.isDigit c = true) :
    c ∈ NumeralSystem.alphabet.take 16 := by
  have hshort : ∀ {n}, n ≤ 16 → c ∈ NumeralSystem.alphabet.take n →
      c ∈ NumeralSystem.alphabet.take 16 := fun hn h => List.take_subset_take_left _ hn h
  obtain ⟨a, ha⟩ := mem_of_system? h
  simp only [initial, List.mem_cons, Prod.mk.injEq, List.not_mem_nil, or_false] at ha
  rcases ha with ⟨-, rfl⟩ | ⟨-, rfl⟩ | ⟨-, rfl⟩ | ⟨-, rfl⟩
  · exact mem_take_of_isDigit hc
  · exact hshort (n := 2) (by decide) (mem_take_of_isDigit hc)
  · exact hshort (n := 8) (by decide) (mem_take_of_isDigit hc)
  · exact hshort (n := 10) (by decide) (mem_take_of_isDigit hc)

theorem letter_of_initial (hc : isLetter c = true) (h : initial.system? [c] = some s) :
    c ∈ ['x', 'b', 'o', 'd', 'X', 'B', 'O', 'D'] := by
  have hall : ∀ c ∈ NumeralSystem.alphabet.drop 10, (initial.system? [c]).isSome = true →
      c ∈ ['x', 'b', 'o', 'd', 'X', 'B', 'O', 'D'] := forall_of_all (by decide)
  exact hall c (mem_of_isLetter hc) (by rw [h]; rfl)

end LetterTable

namespace Dialect

/-! ## Characters of numbers -/

/-- The characters that single numbers are written with, exponents apart. -/
def IsNumeric (d : Dialect) (c : Char) : Prop :=
  d.isDigit c = true ∨ c ∈ ['-', '.', '/', '#'] ∨
    d.system = none ∧
      (InDecimal c ∨ ∃ a s, LetterTable.isLetter a = true ∧ d.letters.system? [a] = some s ∧
        (c = a ∨ s.isDigit c = true))

/-- The characters of literals, and of the exponents, factorials and powers that follow them. -/
def Spells (d : Dialect) (c : Char) : Prop :=
  d.IsNumeric c ∨ c ∈ [':', '!', '*', '^'] ∨ c ∈ d.marker

variable {d : Dialect} {t r : Text} {c : Char}

theorem isNumeric_of_isDigit (h : d.isDigit c = true) : d.IsNumeric c := .inl h

theorem isNumeric_of_mem (h : c ∈ ['-', '.', '/', '#']) : d.IsNumeric c := .inr (.inl h)

theorem isNumeric_of_inDecimal (hs : d.system = none) (h : InDecimal c) : d.IsNumeric c :=
  .inr (.inr ⟨hs, .inl h⟩)

theorem spells_of_mem_marker (h : c ∈ d.marker) : d.Spells c := .inr (.inr h)

theorem spells_of_mem (h : c ∈ [':', '!', '*', '^']) : d.Spells c := .inr (.inl h)

theorem spells_of_spans (h : Spans d.IsNumeric t r) : Spans d.Spells t r := h.mono fun _ => .inl

theorem spans_digits {ds : Text} (h : d.digits t = .ok (ds, r)) : Spans d.IsNumeric t r := by
  cases d.digits_eq t h
  exact .dropWhile (fun _ => isNumeric_of_isDigit) t

theorem spans_exponent {k : Int} (h : d.exponent t = .ok (k, r)) : Spans d.IsNumeric t r := by
  rw [exponent_eq] at h
  obtain ⟨⟨ds, rest⟩, hd, h⟩ := bind_eq_ok.1 h
  simp only at h
  split_ifs at h
  obtain ⟨n, -, h⟩ := bind_eq_ok.1 h
  cases h
  exact (spans_minus (isNumeric_of_mem (by decide)) t).trans (spans_digits hd)

theorem spans_marker (u : Text) : Spans d.Spells (d.marker ++ u) u :=
  ⟨d.marker, fun _ => spells_of_mem_marker, rfl⟩

/-! ## Decimals -/

theorem spans_isDecimal (t : Text) : Spans InDecimal t (t.dropWhile isDecimal) :=
  .dropWhile (fun _ => .inl) t

theorem spans_termRow (t : Text) : Spans InDecimal t (termRow t).2 := by
  induction t with
  | nil => exact .refl []
  | cons c t ih =>
    rw [termRow]
    split_ifs with h
    · refine Spans.trans (.cons ?_ t) ih
      rw [Bool.or_eq_true, Bool.and_eq_true, decide_eq_true_eq] at h
      rcases h with h | ⟨rfl, -⟩
      · exact .inl h
      · exact .inr (by decide)
    · exact .refl _

theorem spans_continuedFraction? {x : Text} (h : continuedFraction? t = some (x, r)) :
    Spans InDecimal t r := by
  rw [continuedFraction?_eq] at h
  refine (spans_minus (.inr (by decide)) t).trans ((spans_isDecimal _).trans ?_)
  split at h
  · rename_i c rest heq
    split_ifs at h
    cases h
    rw [heq]
    exact (Spans.cons (.inr (by decide)) _).trans
      ((Spans.cons (.inr (by decide)) _).trans (spans_termRow _))
  · cases h

theorem append_digitRuns (skip : Nat) (t : Text) :
    (digitRuns skip t).1 ++ (digitRuns skip t).2 = t := by
  induction t generalizing skip with
  | nil => cases skip <;> rfl
  | cons c t ih =>
    cases skip with
    | succ skip => rw [digitRuns, List.cons_append, ih]
    | zero =>
      rw [digitRuns]
      split_ifs
      · rw [List.cons_append, ih]
      · split
        · rw [List.cons_append, ih]
        · rfl

theorem spans_digitRuns (t : Text) : Spans InDecimal t (digitRuns 0 t).2 :=
  ⟨(digitRuns 0 t).1, inDecimal_digitRuns (by simp), (append_digitRuns 0 t).symm⟩

theorem spans_repeating? {x : Text} (h : repeating? t = some (x, r)) : Spans InDecimal t r := by
  rw [repeating?] at h
  split at h
  · rename_i u hf
    cases h
    refine Spans.trans (u := '#' :: u) ?_ ((Spans.cons (.inr (by decide)) u).trans
      (spans_digitRuns u))
    rcases fixedPart?_cases hf with ⟨v, hv, hr⟩ | ⟨-, -, hr⟩
    · have hpoint := spans_isDecimal t
      rw [hv] at hpoint
      rw [hr]
      exact hpoint.trans ((Spans.cons (.inr (by decide)) v).trans (spans_digitRuns v))
    · rw [hr]
      exact (spans_isDecimal t).trans (spans_digitRuns _)
  · cases h

theorem spans_pointed? {x : Text} (h : pointed? t = some (x, r)) : Spans InDecimal t r := by
  have hpoint := spans_isDecimal t
  rw [pointed?] at h
  split at h
  · rename_i u hu
    simp only at h
    split_ifs at h
    cases h
    rw [hu] at hpoint
    exact hpoint.trans ((Spans.cons (.inr (by decide)) u).trans (spans_isDecimal u))
  · cases h

theorem spans_lettered? {a : Rat} (h : d.lettered? t = some (a, r)) : Spans d.IsNumeric t r := by
  rw [lettered?.eq_def] at h
  split at h
  · rename_i c u hs
    split_ifs at h with hletter
    obtain ⟨s, hsystem, h⟩ := Option.bind_eq_some_iff.1 h
    have hnumeric : ∀ b, b = c ∨ s.isDigit b = true → d.IsNumeric b := fun b hb =>
      .inr (.inr ⟨hs, .inr ⟨c, s, hletter, hsystem, hb⟩⟩)
    simp only at h
    split at h
    · split_ifs at h
      cases h
      refine Spans.trans (.cons (isNumeric_of_inDecimal hs (.inl (by decide))) _) ?_
      refine Spans.trans (.cons (hnumeric c (.inl rfl)) u) ?_
      exact .dropWhile (fun b hb => hnumeric b (.inr hb)) u
    · cases h
  · cases h

/-! ## Single numbers -/

theorem spans_periodIn {x : Option Text} (h : d.periodIn t = .ok (x, r)) :
    Spans d.IsNumeric t r := by
  rw [periodIn.eq_def] at h
  split at h
  · rename_i u
    obtain ⟨⟨period, rest⟩, hp, h⟩ := bind_eq_ok.1 h
    simp only at h
    split_ifs at h
    cases h
    exact (Spans.cons (isNumeric_of_mem (by decide)) u).trans (spans_digits hp)
  · cases h
    exact .refl _

theorem spans_pointedIn {s : NumeralSystem} {a : Rat} (h : d.pointedIn s t = .ok (some (a, r))) :
    Spans d.IsNumeric t r := by
  have h' := h
  rw [pointedIn] at h
  obtain ⟨⟨whole, rest⟩, hw, h⟩ := bind_eq_ok.1 h
  simp only at h
  split at h
  · cases h
  · cases h
  · rename_i rest h₁ h₂
    rw [d.pointedIn_point hw h₁ h₂] at h'
    obtain ⟨⟨fraction, u⟩, hf, h'⟩ := bind_eq_ok.1 h'
    obtain ⟨⟨period, v⟩, hp, h'⟩ := bind_eq_ok.1 h'
    obtain ⟨b, -, h'⟩ := bind_eq_ok.1 h'
    cases h'
    exact (spans_digits hw).trans ((Spans.cons (isNumeric_of_mem (by decide)) rest).trans
      ((spans_digits hf).trans (spans_periodIn hp)))
  · cases h

theorem spans_denominator {mixed : Bool} {n : Nat} (h : d.denominator mixed t = .ok (n, r)) :
    Spans d.IsNumeric t r := by
  rw [denominator] at h
  obtain ⟨⟨ds, rest⟩, hd, h⟩ := bind_eq_ok.1 h
  simp only at h
  split_ifs at h
  obtain ⟨k, -, h⟩ := bind_eq_ok.1 h
  split_ifs at h
  cases h
  exact spans_digits hd

theorem spans_slash? (h : slash? t = some r) : Spans d.IsNumeric t r := by
  have hslash : d.IsNumeric '/' := isNumeric_of_mem (by decide)
  rw [slash?.eq_def] at h
  split at h
  · cases h
  · split_ifs at h
    cases h
    exact .cons hslash _
  · cases h
    exact .cons hslash _
  · cases h

theorem spans_mixedFrom {whole : Nat} {x : Endpoint} (h : d.mixedFrom whole t = .ok (x, r)) :
    Spans d.IsNumeric t r := by
  rw [mixedFrom] at h
  obtain ⟨⟨ds, u⟩, hd, h⟩ := bind_eq_ok.1 h
  simp only at h
  split_ifs at h
  obtain ⟨n, -, h⟩ := bind_eq_ok.1 h
  cases hs : slash? u with
  | none =>
    rw [hs] at h
    cases h
  | some v =>
    rw [hs] at h
    obtain ⟨⟨den, v'⟩, hden, h⟩ := bind_eq_ok.1 h
    cases h
    exact (spans_digits hd).trans ((spans_slash? hs).trans (spans_denominator hden))

theorem spans_quotientFrom {whole : Nat} {x : Endpoint} (h : d.quotientFrom whole t = .ok (x, r)) :
    Spans d.IsNumeric t r := by
  rw [quotientFrom] at h
  cases hs : slash? t with
  | none =>
    rw [hs] at h
    cases h
    exact .refl _
  | some v =>
    rw [hs] at h
    obtain ⟨⟨den, v'⟩, hden, h⟩ := bind_eq_ok.1 h
    cases h
    exact (spans_slash? hs).trans (spans_denominator hden)

theorem spans_fraction {x : Endpoint} (h : d.fraction t = .ok (x, r)) : Spans d.IsNumeric t r := by
  have hpoint : d.IsNumeric '.' := isNumeric_of_mem (by decide)
  rw [fraction_eq] at h
  obtain ⟨⟨ds, rest⟩, hd, h⟩ := bind_eq_ok.1 h
  simp only at h
  split_ifs at h
  obtain ⟨whole, -, h⟩ := bind_eq_ok.1 h
  refine (spans_digits hd).trans ?_
  split at h
  · exact (Spans.cons hpoint _).trans ((Spans.cons hpoint _).trans (spans_mixedFrom h))
  · exact spans_quotientFrom h

theorem spans_unsigned {x : Endpoint} (h : d.unsigned t = .ok (x, r)) : Spans d.IsNumeric t r := by
  rw [unsigned] at h
  split_ifs at h
  split at h
  · rename_i s hs
    obtain ⟨y, hy, h⟩ := bind_eq_ok.1 h
    cases y with
    | none => exact spans_fraction h
    | some y =>
      cases h
      exact spans_pointedIn hy
  · rename_i hs
    have hdecimal : ∀ {u}, Spans InDecimal t u → Spans d.IsNumeric t u := fun hu =>
      hu.mono fun _ => isNumeric_of_inDecimal hs
    split at h
    · rename_i hl
      cases h
      exact spans_lettered? hl
    · rename_i hr
      obtain ⟨a, -, h⟩ := bind_eq_ok.1 h
      cases h
      exact hdecimal (spans_repeating? hr)
    · rename_i hp
      obtain ⟨a, -, h⟩ := bind_eq_ok.1 h
      cases h
      exact hdecimal (spans_pointed? hp)
    · exact spans_fraction h

theorem spans_signed {x : Endpoint} (h : d.signed t = .ok (x, r)) : Spans d.IsNumeric t r := by
  rw [signed.eq_def] at h
  split at h
  · rename_i rest
    obtain ⟨⟨e', u⟩, he, h⟩ := bind_eq_ok.1 h
    cases h
    exact (Spans.cons (isNumeric_of_mem (by decide)) rest).trans (spans_unsigned he)
  · exact spans_unsigned h

theorem spans_endpoint {x : Endpoint} (h : d.endpoint t = .ok (x, r)) : Spans d.IsNumeric t r := by
  rw [endpoint_eq] at h
  split at h
  · rename_i hs hf
    obtain ⟨a, -, h⟩ := bind_eq_ok.1 h
    cases h
    exact (spans_continuedFraction? hf).mono fun _ => isNumeric_of_inDecimal hs
  · exact spans_signed h

/-! ## Literals -/

/-- A number stands before `r` in `t`, with what may follow one. -/
def SpansNumber (d : Dialect) (t r : Text) : Prop :=
  ∃ u, Spans d.IsNumeric t u ∧ u.length < t.length ∧ Spans d.Spells u r

theorem SpansNumber.trans {u : Text} (h : d.SpansNumber t u) (h' : Spans d.Spells u r) :
    d.SpansNumber t r := by
  obtain ⟨v, hv, hlt, hu⟩ := h
  exact ⟨v, hv, hlt, hu.trans h'⟩

theorem spansNumber_scaledEndpoint {beforeColon : Bool} {x : Endpoint}
    (h : d.scaledEndpoint beforeColon t = .ok (x, r)) : d.SpansNumber t r := by
  rw [scaledEndpoint] at h
  obtain ⟨⟨x', u⟩, hx, h⟩ := bind_eq_ok.1 h
  have hlt := (d.progressive_endpoint parenthesis_mem_closers hx).1.2
  refine ⟨u, spans_endpoint hx, hlt, ?_⟩
  simp only at h
  split_ifs at h with hf
  · obtain ⟨v, rfl⟩ := d.exists_of_exponentFollows hf
    rw [List.drop_left] at h
    obtain ⟨⟨k, after⟩, hk, h⟩ := bind_eq_ok.1 h
    simp only at h
    split_ifs at h
    · cases h
      exact .refl _
    · cases h
      exact (spans_marker v).trans (spells_of_spans (spans_exponent hk))
  · cases h
    exact .refl _

theorem spans_plain? {negative : Bool} {literal : Text} {places : Nat}
    (h : d.plain? t = some (negative, literal, places, r)) : Spans d.IsNumeric t r := by
  have hdigit : ∀ u : Text, Spans d.IsNumeric u (u.dropWhile d.isDigit) := fun u =>
    .dropWhile (fun _ => isNumeric_of_isDigit) u
  have hpoint := (spans_minus (isNumeric_of_mem (d := d) (by decide)) t).trans (hdigit _)
  rw [plain?_eq] at h
  split at h
  · rename_i u hu
    split_ifs at h
    cases h
    rw [hu] at hpoint
    exact hpoint.trans ((Spans.cons (isNumeric_of_mem (by decide)) u).trans (hdigit u))
  · cases h

/-- **A literal is a number with what may follow one**, or two with a colon between them. -/
theorem spansNumber_interval {x : Value × Bool} (h : d.interval t = .ok (x, r)) :
    d.SpansNumber t r := by
  rcases interval_cases h with ⟨negative, literal, places, rest, y, -, hp, hy, rfl⟩ |
    ⟨-, a, u, b, ha, hb, rfl⟩ | ⟨-, a, ha, -, rfl⟩
  · have hlt := (d.progressive_uncertain parenthesis_mem_closers hp hy).1.2
    refine ⟨r, ?_, hlt, .refl r⟩
    rw [uncertain.eq_def] at hy
    split at hy
    · obtain ⟨z, -, hy⟩ := bind_eq_ok.1 hy
      cases hy
      exact spans_plain? hp
    · obtain ⟨⟨e, v⟩, he, hy⟩ := bind_eq_ok.1 hy
      cases hy
      exact spans_endpoint he
  · obtain ⟨v, hv, -, hu⟩ := spansNumber_scaledEndpoint hb
    exact (spansNumber_scaledEndpoint ha).trans
      ((Spans.cons (spells_of_mem (by decide)) u).trans ((spells_of_spans hv).trans hu))
  · exact spansNumber_scaledEndpoint ha

end Dialect

namespace Reading

variable {d : Dialect} {a e : Expr} {t r : Text}

theorem spans_raised {wrap : Int → Expr} (h : raised d a wrap t = ⟨e, some r⟩) :
    Spans d.Spells t r := by
  rw [raised] at h
  split at h
  · rename_i hk
    cases h
    exact Dialect.spells_of_spans (Dialect.spans_exponent hk)
  · cases h

theorem spans_exponentSuffix (h : exponentSuffix d a t = ⟨e, some r⟩) : Spans d.Spells t r := by
  rw [exponentSuffix] at h
  split_ifs at h with hf
  · obtain ⟨u, rfl⟩ := d.exists_of_exponentFollows hf
    rw [List.drop_left] at h
    exact (Dialect.spans_marker u).trans (spans_raised h)
  · cases h
    exact .refl _

theorem spans_factorialSuffix (h : factorialSuffix a t = ⟨e, some r⟩) : Spans d.Spells t r := by
  have hmark : d.Spells '!' := Dialect.spells_of_mem (by decide)
  rw [factorialSuffix.eq_def] at h
  split at h
  · cases h
    exact (Spans.cons hmark _).trans (.cons hmark _)
  · cases h
    exact .cons hmark _
  · cases h
    exact .refl _

theorem spans_powerSuffix (h : powerSuffix d a t = ⟨e, some r⟩) : Spans d.Spells t r := by
  have hstar : d.Spells '*' := Dialect.spells_of_mem (by decide)
  rw [powerSuffix.eq_def] at h
  split at h
  · exact (Spans.cons hstar _).trans ((Spans.cons hstar _).trans (spans_raised h))
  · exact (Spans.cons (Dialect.spells_of_mem (by decide)) _).trans (spans_raised h)
  · cases h
    exact .refl _

/-- **What follows an operand is written with characters of numbers.** -/
theorem spans_suffixed (h : suffixed d a t = ⟨e, some r⟩) : Spans d.Spells t r := by
  obtain ⟨b, u, hu, h⟩ := andThen_eq_some.1 h
  obtain ⟨b', v, hv, h⟩ := andThen_eq_some.1 h
  exact (spans_exponentSuffix hu).trans ((spans_factorialSuffix hv).trans (spans_powerSuffix h))

theorem spansNumber_literal (h : literal d t = ⟨e, some r⟩) : d.SpansNumber t r := by
  rw [literal] at h
  split at h
  · rename_i hi
    exact (Dialect.spansNumber_interval hi).trans (spans_suffixed h)
  · cases h

theorem spansNumber_signedLiteral? (h : signedLiteral? d t = some ⟨e, some r⟩) :
    d.SpansNumber t r := by
  rw [signedLiteral?] at h
  split_ifs at h
  · exact spansNumber_literal (Option.some.inj h)
  · split at h
    · rename_i hi
      exact (Dialect.spansNumber_interval hi).trans (spans_suffixed (Option.some.inj h))
    · cases h
    · cases h

end Reading

end RatCalc

import RatCalc.Operand.System
import RatCalc.Proofs.NumberText

/-!
# Numeral systems with digits of one's own

A numeral system may take almost any characters as its digits. Its numerals can be read where the
digits can be told from blanks, and from the mark of an exponent.

* `NumeralSystem.dialect`: expressions in the digits of a system; `NumeralSystem.Legible`: what its
  digits have to be told from.
* `EndsRow`: what may stand after a row of digits; `unsigned_row`, `scaledEndpoint_row`,
  `exists_reads_row`: the row is an integer there.
* `valueOf_row`, `valueOf_row_exponent`, `valueOf_row_power`: rows of digits alone, before an
  exponent and before a power.
* **`NumeralSystem.valueOf_natText_iff`**: the numerals of a system have their values, alone and with
  an exponent, if and only if its digits are legible; and what they are read as otherwise.
-/

namespace RatCalc

open Text Reading

namespace NumeralSystem

/-- Exact expressions in the digits of a system; those in the decimal digits are decimal. -/
def dialect (s : NumeralSystem) (letters : LetterTable) : Dialect :=
  ⟨true, (some s).filter fun s => !s.sameDigits .decimal, letters⟩

/-- A system that is handed in as the input base is the system of its dialect. -/
theorem toInputBase_system (s : NumeralSystem) (letters : LetterTable) :
    Operand.toInputBase (.system s) = .ok (s.dialect letters).system := rfl

/-- The digits of a system differ from what surrounds numerals: no digit is a blank, and one of the
two marks of an exponent does not begin with a digit. -/
structure Legible (s : NumeralSystem) : Prop where
  blank : ∀ c, s.isDigit c = true → isBlank c = false
  mark : ¬ (s.isDigit 'E' = true ∧ s.isDigit '_' = true)

end NumeralSystem

namespace Dialect

variable {d : Dialect} {w x t : Text} {n k : Nat}

/-! ## Rows of digits -/

/-- What may stand after a row of digits that is an integer: nothing, the mark of an exponent, or the
sign of a power. -/
def EndsRow (d : Dialect) (t : Text) : Prop :=
  ∀ c u, t = c :: u → d.isDigit c = false ∧ c ∈ ['E', '_', '^'] ∧ (c = 'E' → d.marker = ['E'])

theorem endsRow_nil : d.EndsRow [] := fun _ _ h => nomatch h

theorem endsRow_power (t : Text) : d.EndsRow ('^' :: t) := by
  intro c u h
  obtain ⟨rfl, -⟩ := List.cons.inj h
  exact ⟨d.isDigit_of_reserved (by decide), by decide, fun h => absurd h (by decide)⟩

theorem endsRow_marker (hm : ∀ c ∈ d.marker.head?, d.isDigit c = false) (t : Text) :
    d.EndsRow (d.marker ++ t) := by
  rcases d.marker_eq with h | h <;> rw [h] at hm ⊢ <;> intro c u hc <;>
    obtain ⟨rfl, -⟩ := List.cons.inj hc <;> refine ⟨hm _ rfl, by decide, fun hE => ?_⟩
  · exact h
  · exact absurd hE (by decide)

theorem EndsRow.ne_cons (h : d.EndsRow t) {c : Char} (hc : c ∉ ['E', '_', '^']) (u : Text) :
    t ≠ c :: u := fun ht => hc (h c u ht).2.1

theorem EndsRow.isDecimal (h : d.EndsRow t) (c : Char) (u : Text) (hc : t = c :: u) :
    isDecimal c = false :=
  forall_of_all (P := fun c => Text.isDecimal c = false) (by decide) c (h c u hc).2.1

theorem digits_row (hw : ∀ c ∈ w, d.isDigit c = true) (ht : d.EndsRow t) :
    d.digits (w ++ t) = .ok (w, t) := by
  obtain ⟨htake, hdrop⟩ := span_append hw fun c u h => (ht c u h).1
  rw [digits, htake, hdrop]
  split
  · rename_i s c u _
    obtain ⟨-, hc, hE⟩ := ht c u rfl
    rw [if_neg]
    rw [Bool.and_eq_true, not_and]
    intro halnum
    -- the one letter that may follow begins the mark of an exponent
    have hc : c = 'E' := by
      rcases List.mem_cons.1 hc with hc | hc
      · exact hc
      · rw [isAlphanumeric_of_isMark
          (forall_of_all (P := IsMark) (t := ['_', '^']) (by decide) c hc)] at halnum
        cases halnum
    rw [hc, hE hc]
    simp
  · rfl

/-- Whether the letter of the mark names a numeral system, after a zero: where digits are decimal,
it must not. -/
def MarksExponent (d : Dialect) : Prop := d.system = none → d.letters.system? ['E'] = none

theorem lettered?_row (hletters : d.MarksExponent) (hw : ∀ c ∈ w, d.isDigit c = true)
    (ht : d.EndsRow t) : d.lettered? (w ++ t) = none := by
  rw [lettered?.eq_def]
  split
  · rename_i c u hs heq
    split_ifs with hletter
    · -- the letter is no digit, so it is the mark right after a single zero
      have hc : c = 'E' := by
        rcases w with _ | ⟨a, _ | ⟨b, w⟩⟩
        · exact absurd heq (ht.ne_cons (by decide) _)
        · have hmem := (ht c u (List.cons.inj heq).2).2.1
          rcases List.mem_cons.1 hmem with hc | hc
          · exact hc
          · rw [forall_of_all (P := fun c => LetterTable.isLetter c = false) (t := ['_', '^'])
              (by decide) c hc] at hletter
            cases hletter
        · have hb := hw b (by simp)
          rw [(List.cons.inj (List.cons.inj heq).2).1, isDigit, hs] at hb
          obtain ⟨v, hv, rfl⟩ := isPlainDigit_iff.1 hb
          rw [(by decide : ∀ v < 10, LetterTable.isLetter (Nat.digitChar v) = false) v hv] at hletter
          cases hletter
      rw [hc, hletters hs]
      rfl
    · rfl
  · rfl

theorem isDecimal_row (hs : d.system = none) (hw : ∀ c ∈ w, d.isDigit c = true) :
    ∀ c ∈ w, Text.isDecimal c = true := fun c hc => isDecimal_of_plain (by
  have := hw c hc
  rwa [isDigit, hs] at this)

theorem decimals_row (hs : d.system = none) (hw : ∀ c ∈ w, d.isDigit c = true)
    (ht : d.EndsRow t) : (w ++ t).dropWhile Text.isDecimal = t :=
  (span_append (isDecimal_row hs hw) ht.isDecimal).2

theorem repeating?_row (hs : d.system = none) (hw : ∀ c ∈ w, d.isDigit c = true)
    (ht : d.EndsRow t) : repeating? (w ++ t) = none := by
  have hruns : digitRuns 0 t = ([], t) := by
    cases t with
    | nil => rfl
    | cons c u =>
      have hbrace : c ≠ '\x7b' := fun hc => ht.ne_cons (c := '\x7b') (by decide) u (by rw [hc])
      exact digitRuns_of_ne (ht.isDecimal c u rfl) hbrace u
  exact repeating?_of_digits (isDecimal_row hs hw) ht.isDecimal
    (fun u hu => absurd hu (ht.ne_cons (by decide) u)) hruns (ht.ne_cons (by decide))

theorem pointed?_row (hs : d.system = none) (hw : ∀ c ∈ w, d.isDigit c = true)
    (ht : d.EndsRow t) : pointed? (w ++ t) = none :=
  pointed?_of_digits (isDecimal_row hs hw) ht.isDecimal
    fun u hu => absurd hu (ht.ne_cons (by decide) u)

/-- **A row of digits is an integer.** -/
theorem unsigned_row (hletters : d.MarksExponent) (hne : w ≠ []) (hw : ∀ c ∈ w, d.isDigit c = true)
    (hn : d.value w = .ok n) (ht : d.EndsRow t) : d.unsigned (w ++ t) = .ok (⟨n, false⟩, t) := by
  have hdigits := digits_row hw ht
  have hfraction : d.fraction (w ++ t) = .ok (⟨n, false⟩, t) := by
    rw [fraction_eq, bind_of_ok hdigits]
    simp only
    rw [if_neg (by simpa using hne), bind_of_ok hn]
    split
    · exact absurd rfl (ht.ne_cons (by decide) _)
    · rw [quotientFrom, slash?_of_ne (ht.ne_cons (by decide))]
      rfl
  have hempty : ¬ (w ++ t).isEmpty = true := by simp [hne]
  rw [unsigned, if_neg hempty, ← hfraction]
  split
  · rename_i s _
    rw [bind_of_ok (pointedIn_of_no_point hdigits (ht.ne_cons (by decide)))]
  · rename_i hs
    rw [lettered?_row hletters hw ht, repeating?_row hs hw ht, pointed?_row hs hw ht]

/-- A row of digits begins with no sign and no other symbol. -/
theorem row_ne_cons (hne : w ≠ []) (hw : ∀ c ∈ w, d.isDigit c = true) {c : Char}
    (hc : c ∈ NumeralSystem.reservedChars) (t u : Text) : w ++ t ≠ c :: u := by
  cases w with
  | nil => exact absurd rfl hne
  | cons a w =>
    intro h
    have ha := hw a List.mem_cons_self
    rw [(List.cons.inj h).1, d.isDigit_of_reserved hc] at ha
    cases ha

theorem not_mem_row (hw : ∀ c ∈ w, d.isDigit c = true) {c : Char}
    (hc : c ∈ NumeralSystem.reservedChars) : c ∉ w := fun hm => by
  have := hw c hm
  rw [d.isDigit_of_reserved hc] at this
  cases this

theorem endpoint_row (hletters : d.MarksExponent) (hne : w ≠ [])
    (hw : ∀ c ∈ w, d.isDigit c = true) (hn : d.value w = .ok n) (ht : d.EndsRow t) :
    d.endpoint (w ++ t) = .ok (⟨n, false⟩, t) := by
  have hminus := minus_of_ne (row_ne_cons hne hw (c := '-') (by decide) t)
  rw [endpoint_of_no_fraction d, signed_eq, hminus]
  · simp only
    rw [unsigned_row hletters hne hw hn ht]
    rfl
  · intro hs
    rw [continuedFraction?_eq, hminus]
    simp only
    rw [decimals_row hs hw ht]
    split
    · exact absurd rfl (ht.ne_cons (by decide) _)
    · rfl

/-- What follows a row of digits is no exponent, or one without a colon after it. -/
def EndsEndpoint (d : Dialect) (t : Text) : Prop :=
  d.exponentFollows t = false ∨
    ∃ k, d.exponent (t.drop d.marker.length) = .ok (k, [])

theorem scaledEndpoint_row (hletters : d.MarksExponent) (hne : w ≠ [])
    (hw : ∀ c ∈ w, d.isDigit c = true) (hn : d.value w = .ok n) (ht : d.EndsRow t)
    (hend : d.EndsEndpoint t) : d.scaledEndpoint true (w ++ t) = .ok (⟨n, false⟩, t) := by
  rw [scaledEndpoint, bind_of_ok (endpoint_row hletters hne hw hn ht)]
  simp only
  split_ifs with hfollows
  · obtain ⟨k, hk⟩ := hend.resolve_left (by rw [hfollows]; exact Bool.false_ne_true ∘ Eq.symm)
    rw [bind_of_ok hk]
    rfl
  · rfl

/-- **A row of digits is read as an integer**, and what follows it as what is done to it. -/
theorem exists_reads_row (hexact : d.exact = true) (hletters : d.MarksExponent) (hne : w ≠ [])
    (hw : ∀ c ∈ w, d.isDigit c = true) (hn : d.value w = .ok n) (ht : d.EndsRow t)
    (hend : d.EndsEndpoint t) (hopen : '[' ∉ t) {e : Expr}
    (he : suffixed d (.literal (.plain (.integer n))) t = ⟨e, some []⟩) :
    Reads d .sum (w ++ t) (.simplified e) [] := by
  have hbracket : '[' ∉ w ++ t := by
    rw [List.mem_append, not_or]
    exact ⟨not_mem_row hw (by decide), hopen⟩
  have hi := interval_single (.inl hexact) (scaledEndpoint_row hletters hne hw hn ht hend)
    (ht.ne_cons (by decide))
  have hvalue : d.single ⟨n, false⟩ = .plain (.integer n) := by
    rw [single, if_pos hexact, Endpoint.shown_of_not_kept]
    simp [Number.simplest, Number.simplest.simplestRat]
  have hread : Reading.literal d (w ++ t) = ⟨e, some []⟩ := by
    rw [literal_of_interval hi, hvalue, he]
  have hfactor : Reads d .factor (w ++ t) e [] :=
    .literal (row_ne_cons hne hw (by decide) t) (row_ne_cons hne hw (by decide) t)
      (bracket?_of_not_mem hbracket) hread
  exact hfactor.sum_of_factor (.inl rfl)

/-! ## Their values -/

theorem exponent_row (hne : x ≠ []) (hx : ∀ c ∈ x, d.isDigit c = true) (hk : d.value x = .ok k) :
    d.exponent x = .ok ((k : Int), []) := by
  have h := exponent_of_digits (p := ⟨false, false, x⟩) hne hx hk (t := []) fun _ _ h => nomatch h
  rw [List.append_nil] at h
  exact h

theorem exponentFollows_row (hne : x ≠ []) (hx : ∀ c ∈ x, d.isDigit c = true) :
    d.exponentFollows (d.marker ++ x) = true := by
  have hafter : after? d.marker (d.marker ++ x) = some x := by
    rcases d.marker_eq with h | h <;> rw [h] <;> rfl
  rw [exponentFollows, hafter]
  obtain ⟨c, u, rfl⟩ := List.exists_cons_of_ne_nil hne
  have hminus : c ≠ '-' := fun hc => not_mem_row hx (c := '-') (by decide) (hc ▸ List.mem_cons_self)
  split
  · rename_i heq
    exact absurd (List.cons.inj (Option.some.inj heq)).1 hminus
  · rename_i heq
    obtain ⟨rfl, -⟩ := List.cons.inj (Option.some.inj heq)
    exact hx _ List.mem_cons_self
  · rename_i hno
    exact absurd rfl (hno c u)

theorem isBlank_of_mem_marker {c : Char} (hc : c ∈ d.marker) : isBlank c = false := by
  rcases d.marker_eq with h | h <;> rw [h] at hc
  · exact forall_of_all (P := fun c => isBlank c = false) (by decide) c hc
  · exact forall_of_all (P := fun c => isBlank c = false) (by decide) c hc

/-- What is done to a row of digits gives the value of the text. -/
theorem valueOf_of_reads {e : Expr} {v : Value} (hblank : ∀ c ∈ t, isBlank c = false)
    (h : Reads d .sum t (.simplified e) []) (hv : e.eval d = .ok v) :
    Expr.valueOf d t = .ok (d.simplify v) := by
  rw [Expr.valueOf_eq_ok_iff, prepare_of_no_blank d hblank]
  refine ⟨_, h, ?_⟩
  rw [Expr.eval, hv]
  rfl

theorem simplify_integer (d : Dialect) (m : Int) :
    d.simplify (.plain (.integer m)) = .plain (.integer m) := by
  rw [simplify]
  exact ite_self _

theorem simplify_scale (hexact : d.exact = true) (n k : Nat) :
    d.simplify (.plain (d.scale (.integer n) k)) = .plain (.integer (n * d.radix ^ k : Nat)) := by
  rw [simplify, if_pos hexact, scale, radix]
  cases d.system with
  | none =>
    simp only [Number.shift, Int.natCast_nonneg, if_true, Int.natAbs_natCast]
    refine congrArg (fun m => Value.plain (.integer m)) ?_
    push_cast
    rfl
  | some s =>
    have hvalue : ((n : Int) : Rat) * (s.base : Rat) ^ (k : Int) = ((n * s.base ^ k : Nat) : Rat) := by
      rw [zpow_natCast]
      push_cast
      rfl
    change Value.plain (Number.rational (((n : Int) : Rat) * (s.base : Rat) ^ (k : Int))).simplest = _
    rw [hvalue, Number.simplest, Number.simplest.simplestRat, if_pos (Rat.den_natCast _)]
    rfl

section

variable (hexact : d.exact = true) (hletters : d.MarksExponent)
  (hblank : ∀ c, d.isDigit c = true → isBlank c = false) (hne : w ≠ [])
  (hw : ∀ c ∈ w, d.isDigit c = true) (hn : d.value w = .ok n)

include hexact hletters hblank hne hw hn

/-- A row of digits has its value. -/
theorem valueOf_row : Expr.valueOf d w = .ok (.plain (.integer n)) := by
  have hreads := exists_reads_row hexact hletters hne hw hn endsRow_nil
    (.inl d.exponentFollows_nil) List.not_mem_nil (suffixed_nil d _)
  rw [List.append_nil] at hreads
  rw [valueOf_of_reads (fun c hc => hblank c (hw c hc)) hreads rfl, simplify_integer]

variable (hx : ∀ c ∈ x, d.isDigit c = true) (hxne : x ≠ []) (hk : d.value x = .ok k)

include hx hxne hk

/-- With an exponent it is multiplied by a power of the base. -/
theorem valueOf_row_exponent (hm : ∀ c ∈ d.marker.head?, d.isDigit c = false) :
    Expr.valueOf d (w ++ (d.marker ++ x)) = .ok (.plain (.integer (n * d.radix ^ k : Nat))) := by
  have hexp := exponent_row hxne hx hk
  have hdrop : (d.marker ++ x).drop d.marker.length = x := List.drop_left
  have hfollows : d.exponentFollows (d.marker ++ x) = true := exponentFollows_row hxne hx
  have hsuffixed : suffixed d (.literal (.plain (.integer n))) (d.marker ++ x) =
      ⟨.simplified (.scale (.literal (.plain (.integer n))) k), some []⟩ := by
    rw [suffixed, exponentSuffix, if_pos hfollows, hdrop, raised, hexp]
    rfl
  have hopen : '[' ∉ d.marker ++ x := by
    rw [List.mem_append, not_or]
    exact ⟨d.not_mem_marker (by decide) (by decide) (by decide), not_mem_row hx (by decide)⟩
  have hreads := exists_reads_row hexact hletters hne hw hn (endsRow_marker hm x)
    (.inr ⟨k, by rw [hdrop, hexp]⟩) hopen hsuffixed
  have hprepared : ∀ c ∈ w ++ (d.marker ++ x), isBlank c = false := by
    simp only [List.mem_append]
    rintro c (hc | hc | hc)
    · exact hblank c (hw c hc)
    · exact isBlank_of_mem_marker hc
    · exact hblank c (hx c hc)
  rw [valueOf_of_reads hprepared hreads rfl]
  change Except.ok (d.simplify (d.simplify (.plain (d.scale (.integer n) k)))) = _
  rw [simplify_scale hexact, simplify_integer]

/-- With a power it is raised to it. -/
theorem valueOf_row_power (hpow : n ≠ 0 ∨ k ≠ 0) :
    Expr.valueOf d (w ++ '^' :: x) = .ok (.plain (.integer (n ^ k : Nat))) := by
  have hsuffixed : suffixed d (.literal (.plain (.integer n))) ('^' :: x) =
      ⟨.pow (.literal (.plain (.integer n))) k, some []⟩ := by
    have h := suffixed_power (.literal (.plain (.integer n))) (p := ⟨false, false, x⟩) hxne hx hk
      (.inl rfl)
    rw [List.append_nil] at h
    exact h
  have hno : d.exponentFollows ('^' :: x) = false := by
    refine exponentFollows_of_after? ?_
    rcases d.marker_eq with h | h <;> rw [h] <;> rfl
  have hopen : '[' ∉ '^' :: x := by
    rw [List.mem_cons, not_or]
    exact ⟨by decide, not_mem_row hx (by decide)⟩
  have hreads := exists_reads_row hexact hletters hne hw hn (endsRow_power x) (.inl hno) hopen
    hsuffixed
  have hprepared : ∀ c ∈ w ++ '^' :: x, isBlank c = false := by
    simp only [List.mem_append, List.mem_cons]
    rintro c (hc | rfl | hc)
    · exact hblank c (hw c hc)
    · decide
    · exact hblank c (hx c hc)
  have hvalue : Number.powInteger n k = .ok (.integer (n ^ k : Nat)) := by
    rw [Number.powInteger]
    by_cases hk : k = 0
    · have hn : n ≠ 0 := hpow.resolve_right (not_not.2 hk)
      simp [hk, hn]
    · rw [if_neg (Int.natCast_ne_zero.2 hk), if_neg (by omega), Int.natAbs_natCast]
      push_cast
      rfl
  have heval : (Expr.pow (.literal (.plain (.integer n))) k).eval d =
      .ok (.plain (.integer (n ^ k : Nat))) := by
    change (Number.powInteger n k).map Value.plain = _
    rw [hvalue]
    rfl
  rw [valueOf_of_reads hprepared hreads heval, simplify_integer]

end

end Dialect

namespace NumeralSystem

variable {s : NumeralSystem} {letters : LetterTable} {c : Char} {n k v : Nat}

/-! ## Digits of a system in its dialect -/

theorem digit_of_decimal (hd : s.sameDigits .decimal = true) (hv : v < 10) :
    (s.digits.getD v "").toList = [Nat.digitChar v] := by
  rw [eq_of_beq hd]
  interval_cases v <;> rfl

theorem natText_of_decimal (hd : s.sameDigits .decimal = true) (n : Nat) :
    s.natText n = Numeral.ofNat n := by
  have hbase : s.base = 10 := by
    rw [base, eq_of_beq hd]
    rfl
  induction n using Nat.strongRecOn with
  | ind n ih =>
    by_cases h : n < 10
    · rw [natText, hbase, places_of_lt h, List.flatMap_singleton, digit_of_decimal hd h,
        Numeral.ofNat_of_lt h]
    · rw [natText, hbase, places_of_ge (by decide) (by omega), List.flatMap_append,
        List.flatMap_singleton, digit_of_decimal hd (by omega), Numeral.ofNat_of_ge (by omega),
        ← ih (n / 10) (by omega), natText, hbase]

theorem isDigit_of_decimal (hd : s.sameDigits .decimal = true) (c : Char) :
    s.isDigit c = isPlainDigit c := by
  have hdigits : s.digits = (alphabet.take 10).map String.singleton := eq_of_beq hd
  rw [isDigit, hdigits, Bool.eq_iff_iff, List.contains_iff_mem, List.mem_map, isPlainDigit_iff]
  constructor
  · rintro ⟨a, ha, h⟩
    rw [← singleton_injective h]
    exact forall_of_all (P := fun a => ∃ v < 10, a = Nat.digitChar v) (by decide) a ha
  · rintro ⟨v, hv, rfl⟩
    exact ⟨_, (by decide : ∀ v < 10, Nat.digitChar v ∈ alphabet.take 10) v hv, rfl⟩

theorem dialect_cases (s : NumeralSystem) (letters : LetterTable) :
    s.sameDigits .decimal = true ∧ s.dialect letters = ⟨true, none, letters⟩ ∨
      s.dialect letters = ⟨true, some s, letters⟩ := by
  cases h : s.sameDigits .decimal with
  | true => exact .inl ⟨rfl, by simp [dialect, Option.filter, h]⟩
  | false => exact .inr (by simp [dialect, Option.filter, h])

theorem isDigit_dialect (c : Char) : (s.dialect letters).isDigit c = s.isDigit c := by
  rcases s.dialect_cases letters with ⟨hd, h⟩ | h <;> rw [h]
  · exact (isDigit_of_decimal hd c).symm
  · rfl

theorem radix_dialect : (s.dialect letters).radix = s.base := by
  rcases s.dialect_cases letters with ⟨hd, h⟩ | h <;> rw [h]
  · rw [base, eq_of_beq hd]
    rfl
  · rfl

theorem marker_dialect : (s.dialect letters).marker = s.expMarker := by
  rcases s.dialect_cases letters with ⟨hd, h⟩ | h <;> rw [h]
  · rw [expMarker, eq_of_beq hd]
    rfl
  · rfl

theorem isDigit_dialect_of_mem (hs : s.HasCharDigits) (n : Nat) :
    ∀ c ∈ s.natText n, (s.dialect letters).isDigit c = true := fun c hc => by
  rw [isDigit_dialect]
  exact isDigit_of_mem_natText hs n c hc

theorem value_dialect (hs : s.HasCharDigits) (n : Nat) :
    (s.dialect letters).value (s.natText n) = .ok n := by
  rcases s.dialect_cases letters with ⟨hd, h⟩ | h <;> rw [h]
  · rw [natText_of_decimal hd]
    exact congrArg Except.ok (Numeral.value_ofNat n)
  · exact natValue_natText hs n

/-! ## Legible digits -/

theorem toText_natCast (s : NumeralSystem) (n : Nat) : s.toText n = s.natText n := by
  rw [toText, if_neg (by omega), Int.natAbs_natCast]

theorem expMarker_eq (s : NumeralSystem) :
    s.expMarker = if s.isDigit 'E' then ['_', '^'] else ['E'] := rfl

theorem Legible.blank_dialect (h : s.Legible) :
    ∀ c, (s.dialect letters).isDigit c = true → isBlank c = false := fun c hc =>
  h.blank c (by rwa [isDigit_dialect] at hc)

/-- The mark of an exponent begins with no legible digit. -/
theorem Legible.marker_dialect (h : s.Legible) :
    ∀ c ∈ (s.dialect letters).marker.head?, (s.dialect letters).isDigit c = false := by
  rw [NumeralSystem.marker_dialect, expMarker_eq]
  intro c hc
  rw [isDigit_dialect, ← Bool.not_eq_true]
  cases hE : s.isDigit 'E' with
  | true =>
    rw [hE] at hc
    cases hc
    exact fun h_ => h.mark ⟨hE, h_⟩
  | false =>
    rw [hE] at hc
    cases hc
    rw [hE]
    exact Bool.false_ne_true

section

variable (hs : s.HasCharDigits) (hletters : (s.dialect letters).MarksExponent)

/-- A blank digit is a numeral that nothing is left of. -/
theorem valueOf_blank (letters : LetterTable) (hc : s.isDigit c = true) (hblank : isBlank c = true) :
    ∃ v : Nat, s.toText v = [c] ∧
      Expr.valueOf (s.dialect letters) [c] = .error (.literal .emptyExpression) := by
  obtain ⟨v, hv, hvc⟩ := List.getElem_of_mem (List.contains_iff_mem.1 hc)
  refine ⟨v, ?_, ?_⟩
  · have hplaces : places s.base v = [v] := places_of_lt hv
    rw [toText_natCast, natText, hplaces, List.flatMap_singleton, List.getD_eq_getElem?_getD,
      List.getElem?_eq_getElem hv, Option.getD_some, hvc, String.toList_singleton]
  · have hprefix : (s.dialect letters).marker.isPrefixOf [] = false := by
      rcases (s.dialect letters).marker_eq with h | h <;> rw [h] <;> rfl
    have hprepare : (s.dialect letters).prepare [c] = [] := by
      simp [Dialect.prepare, Dialect.markExponents, Dialect.withoutBlanks, hblank, hprefix]
    rw [Expr.valueOf, Expr.read, hprepare]
    rfl

include hs hletters

/-- Where both `E` and the underscore are digits, the mark of an exponent is read as a last digit and
the sign of a power. -/
theorem valueOf_mark (hblank : ∀ c, s.isDigit c = true → isBlank c = false)
    (hE : s.isDigit 'E' = true) (hv : s.charValue '_' = .ok v)
    (hpow : n * s.base + v ≠ 0 ∨ k ≠ 0) :
    Expr.valueOf (s.dialect letters) (s.toText n ++ s.expMarker ++ s.toText k) =
      .ok (.plain (.integer ((n * s.base + v) ^ k : Nat))) := by
  have hsystem : s.dialect letters = ⟨true, some s, letters⟩ := by
    refine (s.dialect_cases letters).resolve_left fun h => ?_
    rw [isDigit_of_decimal h.1] at hE
    exact absurd hE (by decide)
  have htext : s.toText n ++ s.expMarker ++ s.toText k =
      (s.natText n ++ ['_']) ++ '^' :: s.natText k := by
    rw [toText_natCast, toText_natCast, expMarker_eq, if_pos hE]
    simp
  have hunderscore : s.isDigit '_' = true := isDigit_iff.2 ⟨v, hv⟩
  have hrow : ∀ c ∈ s.natText n ++ ['_'], (s.dialect letters).isDigit c = true := by
    simp only [List.mem_append, List.mem_singleton]
    rintro c (hc | rfl)
    · exact isDigit_dialect_of_mem hs n c hc
    · rw [isDigit_dialect, hunderscore]
  have hvalue : (s.dialect letters).value (s.natText n ++ ['_']) = .ok (n * s.base + v) := by
    rw [hsystem]
    exact natValue_append_digit (natValue_natText hs n) hv
  rw [htext]
  exact Dialect.valueOf_row_power rfl hletters (fun c hc => hblank c (by rwa [isDigit_dialect] at hc))
    (by simp) hrow hvalue (isDigit_dialect_of_mem hs k) (natText_ne_nil hs k) (value_dialect hs k)
    hpow

/-- **The numerals of a system have their values, alone and with an exponent, if and only if its
digits are legible.** A blank digit is an empty expression; where `E` and the underscore are digits
the mark of an exponent is read as a digit and a power. -/
theorem valueOf_natText_iff :
    ((∀ n k : Nat,
        Expr.valueOf (s.dialect letters) (s.toText n) = .ok (.plain (.integer n)) ∧
        Expr.valueOf (s.dialect letters) (s.toText n ++ s.expMarker ++ s.toText k) =
          .ok (.plain (.integer (n * s.base ^ k : Nat)))) ↔ s.Legible) ∧
      (∀ c, s.isDigit c = true → isBlank c = true → ∃ v : Nat, s.toText v = [c] ∧
        Expr.valueOf (s.dialect letters) [c] = .error (.literal .emptyExpression)) ∧
      ((∀ c, s.isDigit c = true → isBlank c = false) → s.isDigit 'E' = true →
        ∀ v, s.charValue '_' = .ok v → ∀ n k : Nat, n * s.base + v ≠ 0 ∨ k ≠ 0 →
          Expr.valueOf (s.dialect letters) (s.toText n ++ s.expMarker ++ s.toText k) =
            .ok (.plain (.integer ((n * s.base + v) ^ k : Nat)))) := by
  refine ⟨⟨fun h => ?_, fun h n k => ⟨?_, ?_⟩⟩,
    fun c hc hblank => valueOf_blank letters hc hblank, fun hblank hE v hv n k hpow =>
      valueOf_mark hs hletters hblank hE hv hpow⟩
  · have hblank : ∀ c, s.isDigit c = true → isBlank c = false := by
      intro c hc
      by_contra hb
      obtain ⟨v, hv, herror⟩ := valueOf_blank letters hc (Bool.not_eq_false _ ▸ hb)
      have hvalue := (h v 0).1
      rw [hv, herror] at hvalue
      cases hvalue
    refine ⟨hblank, fun ⟨hE, hu⟩ => ?_⟩
    -- the square of `2 * base + v` is not twice the square of the base
    obtain ⟨v, hv⟩ := isDigit_iff.1 hu
    have hread := valueOf_mark (n := 2) (k := 2) hs hletters hblank hE hv (.inr (by decide))
    rw [(h 2 2).2] at hread
    have heq : 2 * s.base ^ 2 = (2 * s.base + v) ^ 2 := by
      simp only [Except.ok.injEq, Value.plain, Value.mk.injEq, Number.integer.injEq] at hread
      exact Int.natCast_inj.1 hread.1
    have hlt : 2 * s.base ^ 2 < (2 * s.base) ^ 2 := by
      have hbase : 2 ≤ s.base := s.two_le
      nlinarith
    exact absurd heq (hlt.trans_le (Nat.pow_le_pow_left (Nat.le_add_right _ _) 2)).ne
  · rw [toText_natCast]
    exact Dialect.valueOf_row rfl hletters h.blank_dialect (natText_ne_nil hs n)
      (isDigit_dialect_of_mem hs n) (value_dialect hs n)
  · rw [toText_natCast, toText_natCast, List.append_assoc, ← marker_dialect, ← radix_dialect]
    exact Dialect.valueOf_row_exponent rfl hletters h.blank_dialect (natText_ne_nil hs n)
      (isDigit_dialect_of_mem hs n) (value_dialect hs n) (isDigit_dialect_of_mem hs k)
      (natText_ne_nil hs k) (value_dialect hs k) h.marker_dialect

end

/-- Three digits, two of which are characters of marks of exponents. -/
def underscored : NumeralSystem :=
  ofChars ['0', 'E', '_'] "Base 3" (by decide) (by decide) (unreserved_of_all (by decide))

/-- One times three, as the system writes it, is read as five to the power of one. -/
theorem underscored_exponent :
    underscored.HasCharDigits ∧ (underscored.dialect .initial).MarksExponent ∧
      ¬ underscored.Legible ∧
      underscored.toText 1 ++ underscored.expMarker ++ underscored.toText 1 = "E_^E".toList ∧
      Expr.valueOf (underscored.dialect .initial) "E_^E".toList = .ok (.plain (.integer 5)) := by
  have hchars : underscored.HasCharDigits := fun d hd => by
    obtain ⟨c, -, rfl⟩ := List.mem_map.1 hd
    exact ⟨c, rfl⟩
  have hletters : (underscored.dialect .initial).MarksExponent := fun _ => by decide
  have hblank : ∀ c, underscored.isDigit c = true → isBlank c = false := fun c hc => by
    obtain ⟨a, ha, h⟩ := List.mem_map.1 (List.contains_iff_mem.1 hc)
    rw [← singleton_injective h]
    exact forall_of_all (P := fun c => isBlank c = false) (by decide) a ha
  have hone : underscored.toText (1 : Nat) = ['E'] := by
    rw [toText_natCast, natText, places_of_lt (by decide)]
    rfl
  have htext : underscored.toText 1 ++ underscored.expMarker ++ underscored.toText 1 =
      "E_^E".toList := by
    rw [show (1 : Int) = ((1 : Nat) : Int) from rfl, hone]
    decide
  have hread := (valueOf_natText_iff hchars hletters).2.2 hblank (by decide) 2 (by rfl) 1 1
    (.inr (by decide))
  refine ⟨hchars, hletters, fun h => h.mark ⟨by decide, by decide⟩, htext, ?_⟩
  rw [← htext]
  exact hread

end NumeralSystem

end RatCalc

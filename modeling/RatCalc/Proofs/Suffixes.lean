import RatCalc.Proofs.TwoModes
import RatCalc.Proofs.Precedence

/-!
# What is done to an operand

* `IsRow`: a row of plain digits, and not an empty one.
* `Exponent`, `Suffix`: an exponent, a factorial and a power, each of which may be missing;
  `Suffix.text` is how they are written.
* `exists_exponentSuffix`, `exists_factorialSuffix`: each of them is read before the later ones.
* `Ends`: a text that is a suffix, or that no expression goes on with; `ends_dropWhile`: digits of
  another system taken off the digits of an exponent.
* **`exists_suffixed`**: a suffix is read to its end.
-/

namespace RatCalc

open Text Reading

/-- A row of plain digits. -/
structure Text.IsRow (w : Text) : Prop where
  ne_nil : w ≠ []
  plain : ∀ c ∈ w, isPlainDigit c = true

/-- Without a system of its own a dialect has the plain digits. -/
theorem Text.IsRow.isDigit {d : Dialect} {w : Text} (hw : IsRow w) (hs : d.system = none) :
    ∀ c ∈ w, d.isDigit c = true := fun c hc => by
  rw [Dialect.isDigit, hs]
  exact hw.plain c hc

/-- A power of ten. -/
structure Exponent where
  negative : Bool
  digits : Text

/-- How the exponent is written. -/
def Exponent.text (x : Exponent) : Text := 'E' :: (Expansion.sign x.negative ++ x.digits)

theorem Exponent.isRow_none : ∀ x ∈ (none : Option Exponent), IsRow x.digits :=
  fun _ h => nomatch h

/-- What is done to an operand: it is multiplied by a power of ten, its factorial is taken, and it
is raised to a power. -/
structure Suffix where
  exponent : Option Exponent
  /-- Whether the factorial is a double one. -/
  factorial : Option Bool
  power : Option Power
  isRow_exponent : ∀ x ∈ exponent, IsRow x.digits
  isRow_power : ∀ p ∈ power, IsRow p.digits

namespace Suffix

/-- How the power is written. -/
def powerText (s : Suffix) : Text :=
  match s.power with
  | some p => p.text
  | none => []

/-- How the factorial and the power are written. -/
def tail (s : Suffix) : Text :=
  match s.factorial with
  | some true => '!' :: '!' :: s.powerText
  | some false => '!' :: s.powerText
  | none => s.powerText

/-- How the suffix is written. -/
def text (s : Suffix) : Text :=
  match s.exponent with
  | some x => x.text ++ s.tail
  | none => s.tail

/-- The suffix without its exponent. -/
def withoutExponent (s : Suffix) : Suffix :=
  { s with exponent := none, isRow_exponent := Exponent.isRow_none }

theorem text_withoutExponent (s : Suffix) : s.withoutExponent.text = s.tail := rfl

/-! ## Their characters -/

variable (s : Suffix) {c : Char} {u : Text}

theorem head_powerText (h : s.powerText = c :: u) : c ∈ ['*', '^'] := by
  rw [powerText] at h
  split at h
  · rename_i p _
    rw [Power.text] at h
    split_ifs at h
    · rw [← (List.cons.inj h).1]
      decide
    · rw [← (List.cons.inj h).1]
      decide
  · cases h

theorem head_tail (h : s.tail = c :: u) : c ∈ ['!', '*', '^'] := by
  rw [tail] at h
  split at h
  · rw [← (List.cons.inj h).1]
    decide
  · rw [← (List.cons.inj h).1]
    decide
  · exact List.mem_cons_of_mem '!' (s.head_powerText h)

theorem head_text (h : s.text = c :: u) : c ∈ ['E', '!', '*', '^'] := by
  rw [text] at h
  split at h
  · rw [← (List.cons.inj h).1]
    decide
  · exact List.mem_cons_of_mem 'E' (s.head_tail h)

theorem reserved_of_tail (c : Char) (u : Text) (h : s.tail = c :: u) :
    c ∈ NumeralSystem.reservedChars :=
  forall_of_all (P := (· ∈ NumeralSystem.reservedChars)) (by decide) c (s.head_tail h)

theorem text_ne_cons (hc : c ∉ ['E', '!', '*', '^']) (u : Text) : s.text ≠ c :: u :=
  fun h => hc (s.head_text h)

theorem isDecimal_of_text (c : Char) (u : Text) (h : s.text = c :: u) : isDecimal c = false :=
  forall_of_all (P := fun c => isDecimal c = false) (by decide) c (s.head_text h)

/-- The characters of suffixes that are no digits. -/
def marks : Text := ['E', '-', '!', '*', '^']

theorem mem_signed {negative : Bool} {w : Text} (hw : IsRow w)
    (h : c ∈ Expansion.sign negative ++ w) : isPlainDigit c = true ∨ c ∈ marks := by
  rcases List.mem_append.1 h with h | h
  · exact .inr (by rw [Ratio.mem_sign h]; decide)
  · exact .inl (hw.plain c h)

theorem mem_powerText (h : c ∈ s.powerText) : isPlainDigit c = true ∨ c ∈ marks := by
  rw [powerText] at h
  split at h
  · rename_i p hp
    rcases List.mem_append.1 h with h | h
    · split_ifs at h
      · exact .inr (forall_of_all (P := (· ∈ marks)) (t := ['*', '*']) (by decide) c h)
      · exact .inr (forall_of_all (P := (· ∈ marks)) (t := ['^']) (by decide) c h)
    · exact mem_signed (s.isRow_power p hp) h
  · cases h

theorem mem_tail (h : c ∈ s.tail) : isPlainDigit c = true ∨ c ∈ marks := by
  rw [tail] at h
  split at h
  · rcases List.mem_append.1 (show c ∈ ['!', '!'] ++ s.powerText from h) with h | h
    · exact .inr (forall_of_all (P := (· ∈ marks)) (by decide) c h)
    · exact s.mem_powerText h
  · rcases List.mem_cons.1 h with rfl | h
    · exact .inr (by decide)
    · exact s.mem_powerText h
  · exact s.mem_powerText h

/-- A suffix has digits, signs and the marks of its parts. -/
theorem mem_text (h : c ∈ s.text) : isPlainDigit c = true ∨ c ∈ marks := by
  rw [text] at h
  split at h
  · rename_i x hx
    rcases List.mem_append.1 h with h | h
    · rcases List.mem_cons.1 h with rfl | h
      · exact .inr (by decide)
      · exact mem_signed (s.isRow_exponent x hx) h
    · exact s.mem_tail h
  · exact s.mem_tail h

theorem isBlank_of_mem_text (h : c ∈ s.text) : isBlank c = false := by
  rcases s.mem_text h with h | h
  · exact isBlank_of_plain h
  · exact forall_of_all (P := fun c => isBlank c = false) (by decide) c h

theorem not_mem_text (hc : isPlainDigit c = false) (hm : c ∉ marks) : c ∉ s.text := fun h => by
  rcases s.mem_text h with h | h
  · rw [hc] at h
    cases h
  · exact hm h

/-! ## What is read -/

variable {d : Dialect} (hs : d.system = none) (e : Expr)

include hs

/-- A power is read to its end. -/
theorem exists_powerSuffix : ∃ e', powerSuffix d e s.powerText = ⟨e', some []⟩ := by
  cases hp : s.power with
  | none =>
    rw [powerText, hp]
    exact ⟨e, rfl⟩
  | some p =>
    have hrow := s.isRow_power p hp
    obtain ⟨n, hn⟩ := exists_value (hrow.isDigit hs)
    have h := powerSuffix_text e hrow.ne_nil (hrow.isDigit hs) hn (t := [])
      fun _ _ h => nomatch h
    rw [List.append_nil] at h
    rw [powerText, hp]
    exact ⟨_, h⟩

omit hs in
/-- A factorial is read before a power. -/
theorem exists_factorialSuffix : ∃ e', factorialSuffix e s.tail = ⟨e', some s.powerText⟩ := by
  have hpower : ∀ u, s.powerText ≠ '!' :: u := fun u h =>
    absurd (s.head_powerText h) (by decide)
  rw [tail]
  split
  · exact ⟨_, rfl⟩
  · refine ⟨.factorial false e, ?_⟩
    rw [factorialSuffix]
    exact fun u h => hpower u h
  · refine ⟨e, ?_⟩
    rw [factorialSuffix]
    · exact fun u => hpower _
    · exact fun u => hpower _

theorem exponent_text {x : Exponent} (hx : IsRow x.digits) :
    ∃ k, d.exponent (Expansion.sign x.negative ++ x.digits ++ s.tail) = .ok (k, s.tail) := by
  obtain ⟨n, hn⟩ := exists_value (hx.isDigit hs)
  exact ⟨_, exponent_of_digits (p := ⟨false, x.negative, x.digits⟩) hx.ne_nil
    (hx.isDigit hs) hn s.reserved_of_tail⟩

theorem exponentFollows_text {x : Exponent} (hx : IsRow x.digits) (t : Text) :
    d.exponentFollows (x.text ++ t) = true := by
  obtain ⟨c, u, hc⟩ := List.exists_cons_of_ne_nil hx.ne_nil
  have hdigit : d.isDigit c = true := hx.isDigit hs c (hc ▸ List.mem_cons_self)
  have hsign : c ≠ '-' := fun h => by
    rw [h, d.isDigit_of_reserved (by decide)] at hdigit
    cases hdigit
  have hafter : after? d.marker (x.text ++ t) =
      some (Expansion.sign x.negative ++ c :: (u ++ t)) := by
    rw [Dialect.marker_of_none hs, Exponent.text, hc, List.cons_append, List.append_assoc]
    rfl
  rw [Dialect.exponentFollows, hafter]
  cases x.negative with
  | true => exact hdigit
  | false =>
    rw [show Expansion.sign false ++ c :: (u ++ t) = c :: (u ++ t) from rfl]
    split
    · rename_i heq
      exact absurd (List.cons.inj (Option.some.inj heq)).1 hsign
    · rename_i heq
      rwa [← (List.cons.inj (Option.some.inj heq)).1]
    · rename_i hno
      exact absurd rfl (hno c _)

/-- An exponent is read before a factorial and a power. -/
theorem exists_exponentSuffix : ∃ e', exponentSuffix d e s.text = ⟨e', some s.tail⟩ := by
  cases hx : s.exponent with
  | none =>
    have hfollows : d.exponentFollows s.tail = false := by
      refine Dialect.exponentFollows_of_after? ?_
      rw [Dialect.marker_of_none hs]
      cases ht : s.tail with
      | nil => rfl
      | cons c u =>
        have hc : 'E' ≠ c := fun h => absurd (s.head_tail ht) (h ▸ by decide)
        rw [after?, if_neg hc]
    rw [text, hx]
    refine ⟨e, ?_⟩
    simp only
    rw [exponentSuffix, hfollows]
    rfl
  | some x =>
    have hrow := s.isRow_exponent x hx
    obtain ⟨k, hk⟩ := s.exponent_text hs hrow
    rw [text, hx]
    refine ⟨.simplified (.scale e k), ?_⟩
    have hdrop : (x.text ++ s.tail).drop d.marker.length =
        Expansion.sign x.negative ++ x.digits ++ s.tail := by
      rw [Dialect.marker_of_none hs]
      rfl
    simp only
    rw [exponentSuffix, if_pos (exponentFollows_text hs hrow s.tail), hdrop, raised, hk]

/-- **A suffix is read to its end.** -/
theorem exists_suffixed : ∃ e', suffixed d e s.text = ⟨e', some []⟩ := by
  obtain ⟨a, ha⟩ := s.exists_exponentSuffix hs e
  obtain ⟨b, hb⟩ := s.exists_factorialSuffix a
  obtain ⟨c, hc⟩ := s.exists_powerSuffix hs b
  refine ⟨c, ?_⟩
  rw [suffixed, ha]
  simp only [andThen, id]
  rw [hb]
  exact hc

end Suffix

/-! ## What is left -/

/-- A text that is a suffix, or that no expression goes on with. -/
def Text.Ends (t : Text) : Prop := Stuck t ∨ ∃ s : Suffix, t = s.text

/-- Digits of a system that are taken off a row of plain digits leave digits, or what follows. -/
theorem Suffix.ends_dropWhile (s : Suffix) (n : NumeralSystem) {w : Text}
    (hw : ∀ c ∈ w, isPlainDigit c = true) : Ends ((w ++ s.tail).dropWhile n.isDigit) := by
  induction w with
  | nil =>
    refine .inr ⟨s.withoutExponent, ?_⟩
    rw [text_withoutExponent, List.nil_append]
    cases ht : s.tail with
    | nil => rfl
    | cons c u =>
      have hc := n.isDigit_of_reserved (s.reserved_of_tail c u ht)
      rw [List.dropWhile_cons_of_neg (by rw [hc]; decide)]
  | cons c w ih =>
    rw [List.cons_append]
    by_cases hc : n.isDigit c = true
    · rw [List.dropWhile_cons_of_pos hc]
      exact ih fun a ha => hw a (List.mem_cons_of_mem c ha)
    · rw [List.dropWhile_cons_of_neg hc]
      exact .inl ⟨c, _, rfl, .inr (.inr (isDecimal_of_plain (hw c List.mem_cons_self)))⟩

end RatCalc

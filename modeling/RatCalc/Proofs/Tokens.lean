import Mathlib.Data.List.Chain
import RatCalc.Proofs.NumberText

/-!
# Expressions as rows of tokens

* `Token`: what expressions are written with; `Dialect.spell`: the text of a row of tokens, with
  the numbers in the digits of a dialect; `Separated`: no two numbers are side by side.
* `Breaks`: a text that goes on no number; `breaks_spell`, `exists_spell`: a spelled text is such a
  text, or a number and such a text.
* `digits_spell_numeral`, `digits_spell`, `after?_marker_spell`: the digits and the mark of an
  exponent at the start of a spelled text.
* `Piece`, `Dialect.write`: the same with blanks; **`prepare_write`**: the blanks leave a row of
  tokens.
-/

namespace RatCalc

open Text

/-! ## Tokens -/

/-- The symbols of expressions. The dots stand behind the whole part of a mixed number. -/
inductive Symbol where
  | plus
  | minus
  | times
  | slash
  | caret
  | bang
  | opening
  | closing
  | colon
  | dots
  deriving DecidableEq

namespace Symbol

/-- The first character. -/
def char : Symbol → Char
  | plus => '+'
  | minus => '-'
  | times => '*'
  | slash => '/'
  | caret => '^'
  | bang => '!'
  | opening => '('
  | closing => ')'
  | colon => ':'
  | dots => '.'

def text : Symbol → Text
  | dots => ['.', '.']
  | s => [s.char]

theorem text_eq (s : Symbol) : ∃ u, s.text = s.char :: u := by
  cases s <;> exact ⟨_, rfl⟩

theorem char_injective {s s' : Symbol} (h : s.char = s'.char) : s = s' := by
  revert h
  cases s <;> cases s' <;> decide

theorem char_mem_reservedChars (s : Symbol) : s.char ∈ NumeralSystem.reservedChars := by
  cases s <;> decide

theorem isBlank_char (s : Symbol) : isBlank s.char = false :=
  forall_of_all (P := fun c => isBlank c = false) (by decide) _ s.char_mem_reservedChars

theorem eq_char (s : Symbol) {c : Char} (hc : c ∈ s.text) : c = s.char := by
  cases s <;> simpa [text, char] using hc

theorem text_ne_nil (s : Symbol) : s.text ≠ [] := by
  obtain ⟨u, h⟩ := s.text_eq
  rw [h]
  exact List.cons_ne_nil _ _

end Symbol

/-- What expressions are written with. -/
inductive Token where
  | numeral (n : Nat)
  | symbol (s : Symbol)
  /-- Blanks after a slash. -/
  | gap
  deriving DecidableEq

/-- Not both tokens are numbers. -/
def Token.apart : Token → Token → Bool
  | numeral _, numeral _ => false
  | _, _ => true

/-- No two numbers are side by side. -/
def Separated (ts : List Token) : Prop := ts.IsChain (Token.apart · ·)

instance (ts : List Token) : Decidable (Separated ts) :=
  inferInstanceAs (Decidable (ts.IsChain (Token.apart · ·)))

/-- No number comes first. -/
def AfterNumeral (ts : List Token) : Prop := ∀ n us, ts ≠ .numeral n :: us

theorem afterNumeral_nil : AfterNumeral [] := fun _ _ h => nomatch h

theorem afterNumeral_symbol (s : Symbol) (ts : List Token) : AfterNumeral (.symbol s :: ts) :=
  fun _ _ h => nomatch (List.cons.inj h).1

theorem afterNumeral_gap (ts : List Token) : AfterNumeral (.gap :: ts) :=
  fun _ _ h => nomatch (List.cons.inj h).1

namespace Separated

variable {t : Token} {ts us : List Token} {n : Nat}

theorem suffix (h : Separated ts) (hs : us <:+ ts) : Separated us := List.IsChain.suffix h hs

theorem tail (h : Separated (t :: ts)) : Separated ts := List.IsChain.tail h

theorem afterNumeral (h : Separated (.numeral n :: ts)) : AfterNumeral ts := by
  rintro m us rfl
  exact absurd (List.isChain_cons_cons.1 h).1 Bool.false_ne_true

end Separated

/-! ## Texts that go on no number -/

/-- The characters that symbols and blanks after a slash begin with. -/
def breaks : Text := ['+', '-', '*', '/', '^', '!', '(', ')', ':', '.', Dialect.divisionMark]

theorem Symbol.mem_breaks (s : Symbol) {c : Char} (hc : c ∈ s.text) : c ∈ breaks := by
  rw [s.eq_char hc]
  cases s <;> decide

/-- A text that goes on no number: a point at its start is one of the two of a mixed number. -/
structure Breaks (t : Text) : Prop where
  head : ∀ c u, t = c :: u → c ∈ breaks
  point : ∀ u, t = '.' :: u → ∃ v, u = '.' :: v

namespace Breaks

variable {t : Text} {c : Char}

theorem forall_head (h : Breaks t) {P : Char → Prop} [DecidablePred P]
    (hP : breaks.all (fun c => decide (P c)) = true) (c : Char) (u : Text) (hc : t = c :: u) :
    P c :=
  forall_of_all hP c (h.head c u hc)

theorem ne_cons (h : Breaks t) (hc : c ∉ breaks) (u : Text) : t ≠ c :: u :=
  fun ht => hc (h.head c u ht)

theorem stops (h : Breaks t) : Dialect.Stops t where
  digit := h.forall_head (P := (isDecimal · = false)) (by decide)
  letter := h.forall_head (P := (LetterTable.isLetter · = false)) (by decide)
  group := h.ne_cons (by decide)
  period := h.ne_cons (by decide)

theorem point_ne (h : Breaks t) (hc : c ≠ '.') (u : Text) : t ≠ '.' :: c :: u := by
  intro ht
  obtain ⟨v, hv⟩ := h.point _ ht
  exact hc (List.cons.inj hv).1

end Breaks

namespace Dialect

variable {d : Dialect} {ts us : List Token} {n : Nat} {s : Symbol} {c : Char} {t : Text}

/-! ## Spelling -/

/-- The text of a token. -/
def tokenText (d : Dialect) : Token → Text
  | .numeral n => d.numeral n
  | .symbol s => s.text
  | .gap => [divisionMark]

/-- The text of a row of tokens. -/
def spell (d : Dialect) (ts : List Token) : Text := ts.flatMap d.tokenText

theorem spell_numeral (d : Dialect) (n : Nat) (ts : List Token) :
    d.spell (.numeral n :: ts) = d.numeral n ++ d.spell ts := rfl

theorem spell_symbol (d : Dialect) (s : Symbol) (ts : List Token) :
    d.spell (.symbol s :: ts) = s.text ++ d.spell ts := rfl

theorem spell_gap (d : Dialect) (ts : List Token) :
    d.spell (.gap :: ts) = divisionMark :: d.spell ts := rfl

theorem length_le_spell (hd : d.IsStandard) (ts : List Token) :
    ts.length ≤ (d.spell ts).length := by
  induction ts with
  | nil => exact Nat.le_refl 0
  | cons t ts ih =>
    have ht : 0 < (d.tokenText t).length := by
      cases t with
      | numeral n => exact List.length_pos_iff.2 (numeral_ne_nil hd n)
      | symbol s => exact List.length_pos_iff.2 s.text_ne_nil
      | gap => exact Nat.one_pos
    have hcons : d.spell (t :: ts) = d.tokenText t ++ d.spell ts := rfl
    rw [hcons, List.length_append, List.length_cons]
    omega

theorem spell_ne_nil (hd : d.IsStandard) (h : ts ≠ []) : d.spell ts ≠ [] := by
  have hlength := length_le_spell hd ts
  have hpos := List.length_pos_iff.2 h
  exact List.length_pos_iff.1 (by omega)

theorem isDigit_of_breaks (hd : d.IsStandard) (hc : c ∈ breaks) : d.isDigit c = false := by
  rcases eq_or_ne c divisionMark with rfl | hne
  · rw [← Bool.not_eq_true]
    exact fun h => absurd (mem_alphabet_of_isDigit hd h) (by decide)
  · refine d.isDigit_of_reserved ?_
    exact (forall_of_all (by decide) : ∀ c ∈ breaks, c ≠ divisionMark →
      c ∈ NumeralSystem.reservedChars) c hc hne

/-- A text that begins with another token than a number goes on no number. -/
theorem breaks_spell (d : Dialect) (h : AfterNumeral ts) : Breaks (d.spell ts) := by
  rcases ts with _ | ⟨n | s | _, us⟩
  · exact ⟨fun _ _ h => (nomatch h), fun _ h => nomatch h⟩
  · exact absurd rfl (h n us)
  · constructor
    · intro c u hc
      cases s <;> cases hc <;> decide
    · intro u hu
      cases s <;> cases hu
      exact ⟨_, rfl⟩
  · constructor
    · intro c u hc
      cases hc
      decide
    · intro u hu
      cases hu

/-- The digits at the start of a spelled text, and what follows them. -/
theorem exists_spell (hd : d.IsStandard) (hs : Separated ts) :
    ∃ w r, d.spell ts = w ++ r ∧ (∀ c ∈ w, d.isDigit c = true) ∧ Breaks r := by
  rcases ts with _ | ⟨n | s | _, us⟩
  · exact ⟨[], [], rfl, fun _ h => (nomatch h), d.breaks_spell afterNumeral_nil⟩
  · exact ⟨d.numeral n, d.spell us, rfl, isDigit_of_mem_numeral hd, d.breaks_spell hs.afterNumeral⟩
  · exact ⟨[], _, rfl, fun _ h => (nomatch h), d.breaks_spell (afterNumeral_symbol s us)⟩
  · exact ⟨[], _, rfl, fun _ h => (nomatch h), d.breaks_spell (afterNumeral_gap us)⟩

/-- A spelled text begins with a symbol only where its first token is that symbol. -/
theorem spell_ne_cons (hd : d.IsStandard) (h : ∀ us, ts ≠ .symbol s :: us) (u : Text) :
    d.spell ts ≠ s.char :: u := by
  rcases ts with _ | ⟨n | s' | _, us⟩
  · exact fun hu => nomatch hu
  · exact numeral_ne_cons hd s.char_mem_reservedChars u
  · intro hu
    obtain ⟨v, hv⟩ := s'.text_eq
    rw [spell_symbol, hv] at hu
    exact h us (by rw [Symbol.char_injective (List.cons.inj hu).1])
  · intro hu
    rw [spell_gap] at hu
    have := s.char_mem_reservedChars
    rw [← (List.cons.inj hu).1] at this
    exact absurd this (by decide)

theorem mem_spell (hd : d.IsStandard) (hc : c ∈ d.spell ts) :
    d.isDigit c = true ∨ c ∈ breaks := by
  obtain ⟨t, -, ht⟩ := List.mem_flatMap.1 hc
  cases t with
  | numeral n => exact .inl (isDigit_of_mem_numeral hd c ht)
  | symbol s => exact .inr (s.mem_breaks ht)
  | gap =>
    rw [List.mem_singleton.1 ht]
    exact .inr (by decide)

/-! ## Digits and marks -/

theorem digits_append_of_breaks (hd : d.IsStandard) {w : Text} (hw : ∀ c ∈ w, d.isDigit c = true)
    (ht : Breaks t) : d.digits (w ++ t) = .ok (w, t) :=
  digits_append_of_not_alphanumeric hw fun c u hc => ⟨isDigit_of_breaks hd (ht.head c u hc),
    isAlphanumeric_of_isMark (ht.forall_head (P := IsMark) (by decide) c u hc)⟩

theorem digits_spell_numeral (hd : d.IsStandard) (h : AfterNumeral ts) :
    d.digits (d.spell (.numeral n :: ts)) = .ok (d.numeral n, d.spell ts) :=
  digits_append_of_breaks hd (isDigit_of_mem_numeral hd) (d.breaks_spell h)

theorem digits_spell (hd : d.IsStandard) (h : AfterNumeral ts) :
    d.digits (d.spell ts) = .ok ([], d.spell ts) :=
  digits_append_of_breaks hd (w := []) (fun _ hc => nomatch hc) (d.breaks_spell h)

/-- The mark of an exponent begins with a character that nothing else in a text begins with. -/
theorem exists_marker_eq_cons (hd : d.IsStandard) :
    ∃ a m, d.marker = a :: m ∧ d.isDigit a = false ∧ isBlank a = false ∧ a ∉ breaks := by
  unfold marker isDigit
  cases hs : d.system with
  | none => exact ⟨'E', [], rfl, by decide, by decide, by decide⟩
  | some s =>
    simp only
    rw [NumeralSystem.expMarker]
    split_ifs with hE
    · refine ⟨'_', ['^'], rfl, ?_, by decide, by decide⟩
      rw [← Bool.not_eq_true]
      intro h
      have : d.isDigit '_' = true := by rw [isDigit, hs]; exact h
      exact absurd (mem_alphabet_of_isDigit hd this) (by decide)
    · exact ⟨'E', [], rfl, Bool.eq_false_iff.2 hE, by decide, by decide⟩

theorem exists_marker_not_mem (hd : d.IsStandard) (ts : List Token) :
    ∃ a m, d.marker = a :: m ∧ a ∉ d.spell ts := by
  obtain ⟨a, m, hm, ha, -, hb⟩ := exists_marker_eq_cons hd
  refine ⟨a, m, hm, fun h => ?_⟩
  rcases mem_spell hd h with h | h
  · rw [ha] at h
    cases h
  · exact hb h

/-- No exponent begins in a spelled text. -/
theorem after?_marker_spell (hd : d.IsStandard) (ts : List Token) :
    after? d.marker (d.spell ts) = none := by
  obtain ⟨a, m, hm, ha⟩ := exists_marker_not_mem hd ts
  rw [hm]
  cases h : d.spell ts with
  | nil => rfl
  | cons c u =>
    rw [after?]
    refine if_neg ?_
    rintro rfl
    exact ha (h ▸ List.mem_cons_self)

theorem isPrefixOf_marker_spell (hd : d.IsStandard) (ts : List Token) :
    d.marker.isPrefixOf (d.spell ts) = false := by
  obtain ⟨a, m, hm, ha⟩ := exists_marker_not_mem hd ts
  rw [hm, ← Bool.not_eq_true, List.isPrefixOf_iff_prefix]
  exact fun h => ha (h.subset List.mem_cons_self)

end Dialect

/-! ## Blanks -/

/-- A part of an expression text: a number, a symbol or a blank. -/
inductive Piece where
  | numeral (n : Nat)
  | symbol (s : Symbol)
  | blank (c : Char) (h : isBlank c = true)

/-- The tokens of an expression text: blanks matter after a slash only. -/
def tokens : List Piece → List Token
  | [] => []
  | .numeral n :: ps => .numeral n :: tokens ps
  | .symbol .slash :: .blank _ _ :: ps => .symbol .slash :: .gap :: tokens ps
  | .symbol s :: ps => .symbol s :: tokens ps
  | .blank _ _ :: ps => tokens ps

namespace Dialect

variable {d : Dialect} {ps : List Piece} {c a : Char} {t u m : Text}

/-- The text of a part. -/
def pieceText (d : Dialect) : Piece → Text
  | .numeral n => d.numeral n
  | .symbol s => s.text
  | .blank c _ => [c]

/-- An expression text, with its numbers in the digits of a dialect. -/
def write (d : Dialect) (ps : List Piece) : Text := ps.flatMap d.pieceText

theorem write_numeral (d : Dialect) (n : Nat) (ps : List Piece) :
    d.write (.numeral n :: ps) = d.numeral n ++ d.write ps := rfl

theorem write_symbol (d : Dialect) (s : Symbol) (ps : List Piece) :
    d.write (.symbol s :: ps) = s.text ++ d.write ps := rfl

theorem write_blank (d : Dialect) (hc : isBlank c = true) (ps : List Piece) :
    d.write (.blank c hc :: ps) = c :: d.write ps := rfl

theorem mem_write (hd : d.IsStandard) (hc : c ∈ d.write ps) :
    d.isDigit c = true ∨ c ∈ breaks ∨ isBlank c = true := by
  obtain ⟨p, -, hp⟩ := List.mem_flatMap.1 hc
  cases p with
  | numeral n => exact .inl (isDigit_of_mem_numeral hd c hp)
  | symbol s => exact .inr (.inl (s.mem_breaks hp))
  | blank a h =>
    rw [List.mem_singleton.1 hp]
    exact .inr (.inr h)

/-- Where the mark of an exponent is missing, blanks do not stand before one. -/
theorem markExponents_of_not_mem (h : a ∉ t) : markExponents (a :: m) 0 t = t := by
  induction t with
  | nil => rfl
  | cons c t ih =>
    rw [List.mem_cons, not_or] at h
    have hprefix : (a :: m).isPrefixOf (t.dropWhile isBlank) = false := by
      rw [← Bool.not_eq_true, List.isPrefixOf_iff_prefix]
      exact fun hp => h.2 ((List.dropWhile_suffix _).subset (hp.subset List.mem_cons_self))
    rw [markExponents, hprefix, Bool.and_false, ih h.2]
    rfl

theorem withoutBlanks_append (ht : ∀ c ∈ t, isBlank c = false ∧ c ≠ '/') (u : Text) :
    withoutBlanks (t ++ u) = t ++ withoutBlanks u := by
  induction t with
  | nil => rfl
  | cons c t ih =>
    obtain ⟨hblank, hslash⟩ := ht c List.mem_cons_self
    rw [List.cons_append, withoutBlanks, hblank, decide_eq_false hslash, Bool.false_and,
      ih fun a ha => ht a (List.mem_cons_of_mem c ha)]
    rfl

theorem withoutBlanks_numeral (hd : d.IsStandard) (n : Nat) (u : Text) :
    withoutBlanks (d.numeral n ++ u) = d.numeral n ++ withoutBlanks u := by
  refine withoutBlanks_append (fun c hc => ?_) u
  have hdigit := isDigit_of_mem_numeral hd c hc
  refine ⟨isBlank_of_isDigit hd hdigit, ?_⟩
  rintro rfl
  rw [d.isDigit_of_reserved (by decide)] at hdigit
  cases hdigit

/-- Behind a symbol only a slash tells whether blanks follow. -/
theorem withoutBlanks_symbol {s : Symbol} (h : s = .slash → u.head?.any isBlank = false) :
    withoutBlanks (s.text ++ u) = s.text ++ withoutBlanks u := by
  by_cases hs : s = .slash
  · have hu := h hs
    subst hs
    change withoutBlanks ('/' :: u) = '/' :: withoutBlanks u
    rw [withoutBlanks, hu, Bool.and_false]
    rfl
  · refine withoutBlanks_append (fun c hc => ?_) u
    obtain rfl := s.eq_char hc
    exact ⟨s.isBlank_char, fun h : s.char = Symbol.slash.char => hs (Symbol.char_injective h)⟩

/-- No blank comes first unless a blank is the first part. -/
theorem head?_write (hd : d.IsStandard) (h : ∀ c hc qs, ps ≠ .blank c hc :: qs) :
    (d.write ps).head?.any isBlank = false := by
  rcases ps with _ | ⟨n | s | ⟨c, hc⟩, qs⟩
  · rfl
  · obtain ⟨c, u, hn, hc⟩ := exists_numeral_eq_cons hd n (d.write qs)
    rw [write_numeral, hn]
    exact isBlank_of_isDigit hd hc
  · obtain ⟨u, hu⟩ := s.text_eq
    rw [write_symbol, hu]
    exact s.isBlank_char
  · exact absurd rfl (h c hc qs)

theorem withoutBlanks_write (hd : d.IsStandard) (ps : List Piece) :
    withoutBlanks (d.write ps) = d.spell (tokens ps) := by
  induction ps using tokens.induct with
  | case1 => rfl
  | case2 n ps ih => rw [write_numeral, withoutBlanks_numeral hd, ih, tokens, spell_numeral]
  | case3 c hc ps ih =>
    change withoutBlanks ('/' :: c :: d.write ps) = _
    rw [withoutBlanks, withoutBlanks, List.head?_cons, Option.any_some, hc, ih]
    rfl
  | case4 s ps hno ih =>
    have hslash : s = .slash → (d.write ps).head?.any isBlank = false := fun hs =>
      head?_write hd fun c hc qs hps => hno c hc qs hps hs
    rw [write_symbol, withoutBlanks_symbol hslash, ih, tokens, spell_symbol]
    exact hno
  | case5 c hc ps ih =>
    rw [write_blank, withoutBlanks, hc, if_pos rfl, ih, tokens]

/-- **The blanks of an expression text leave a row of tokens.** -/
theorem prepare_write (hd : d.IsStandard) (ps : List Piece) :
    d.prepare (d.write ps) = d.spell (tokens ps) := by
  obtain ⟨a, m, hm, ha, hblank, hb⟩ := exists_marker_eq_cons hd
  have hmem : a ∉ d.write ps := by
    intro h
    rcases mem_write hd h with h | h | h
    · rw [ha] at h
      cases h
    · exact hb h
    · rw [hblank] at h
      cases h
  rw [prepare, hm, markExponents_of_not_mem hmem, withoutBlanks_write hd]

end Dialect

end RatCalc

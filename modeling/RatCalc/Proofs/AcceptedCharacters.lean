import RatCalc.Proofs.Segments

/-!
# The characters of accepted texts

In decimal digits an expression is written with digits, letters and symbols. There are two ways
around that: the marks for blanks can be typed, and a group without copies in a bracket holds
anything.

* `Text.IsWritten`: the characters that expressions are written with; `isWritten_of_spells`: those
  of numbers are such.
* `Walk.isWritten`: a text that is read has no others, apart from marks and what is dropped.
* `MarksSlash`, **`prepare_display`**: a text whose marks stand where blanks would leave them comes
  from a text without marks.
* **`Expr.characters_of_value`**: the characters of a text that has a value.
-/

namespace RatCalc

open Text

namespace Text

/-- The letters and symbols of expressions in decimal digits. -/
def writtenChars : List Char := ['a', 'b', 'c', 'd', 'e', 'f', 'x', 'o', 'X', 'B', 'O', 'D', 'E',
  '+', '-', '*', '/', '^', '!', '(', ')', '[', ']', '\x7b', '\x7d', ':', '.', ',', '#', '~']

/-- The characters of expressions in decimal digits. -/
def IsWritten (c : Char) : Prop := isDecimal c = true ∨ c ∈ writtenChars

instance (c : Char) : Decidable (IsWritten c) :=
  inferInstanceAs (Decidable (isDecimal c = true ∨ c ∈ writtenChars))

end Text

namespace Dialect

/-- What stands for blanks, before the mark of an exponent and after a slash. -/
def blankMarks : List Char := [spacedMark, divisionMark]

variable {d : Dialect} {t : Text} {c : Char}

/-! ## Characters of numbers -/

section

variable (hs : d.system = none) (hl : d.letters = .initial)

include hs hl

/-- Numbers are written with digits and the letters of hexadecimal digits and of their mark. -/
theorem isWritten_of_isNumeric (h : d.IsNumeric c) : IsWritten c ∧ c ≠ 'E' := by
  rcases h with hc | hc | ⟨-, hc | ⟨a, s, ha, hsystem, hc⟩⟩
  · rw [isDigit, hs] at hc
    refine ⟨.inl (isDecimal_of_plain hc), ?_⟩
    rintro rfl
    exact absurd hc (by decide)
  · exact forall_of_all (P := fun c => IsWritten c ∧ c ≠ 'E') (by decide) c hc
  · rcases hc with hc | hc
    · refine ⟨.inl hc, ?_⟩
      rintro rfl
      exact absurd hc (by decide)
    · exact forall_of_all (P := fun c => IsWritten c ∧ c ≠ 'E') (by decide) c hc
  · rw [hl] at hsystem
    rcases hc with rfl | hc
    · exact forall_of_all (P := fun c => IsWritten c ∧ c ≠ 'E') (by decide) c
        (LetterTable.letter_of_initial ha hsystem)
    · exact forall_of_all (P := fun c => IsWritten c ∧ c ≠ 'E') (by decide) c
        (LetterTable.mem_take_of_initial hsystem hc)

theorem isWritten_of_spells (h : d.Spells c) : IsWritten c := by
  rcases h with hc | hc | hc
  · exact (isWritten_of_isNumeric hs hl hc).1
  · exact forall_of_all (P := IsWritten) (by decide) c hc
  · rw [marker_of_none hs] at hc
    exact forall_of_all (P := IsWritten) (by decide) c hc

end

/-! ## Texts without marks -/

/-- A mark for blanks after a slash stands behind one, and neither a mark nor the mark of an exponent
stands behind it. -/
def MarksSlash (a c : Char) : Prop :=
  (c = divisionMark → a = '/') ∧ (a = divisionMark → c ∉ ['E', spacedMark, divisionMark])

/-- A blank for the mark of blanks after a slash. -/
def asBlank (c : Char) : Char := if c = divisionMark then ' ' else c

theorem display_cons (c : Char) (t : Text) : d.display (c :: t) =
    (if c = spacedMark then ' ' :: d.marker else if c = divisionMark then [' '] else [c]) ++
      d.display t := rfl

theorem markExponents_display (hm : d.marker = ['E']) (hblank : ∀ c ∈ t, isBlank c = false)
    (h : t.IsChain MarksSlash) : markExponents ['E'] 0 (d.display t) = t.map asBlank := by
  induction t with
  | nil => rfl
  | cons c t ih =>
    obtain ⟨hc, ht⟩ := List.forall_mem_cons.1 hblank
    obtain ⟨hnext, htail⟩ := List.isChain_cons.1 h
    rw [display_cons, List.map_cons, ← ih ht htail]
    by_cases hs : c = spacedMark
    · subst hs
      rw [if_pos rfl, hm]
      rfl
    · rw [if_neg hs]
      by_cases hd : c = divisionMark
      · subst hd
        -- what stands behind the mark begins with something else than a mark
        have hno : (['E'] : Text).isPrefixOf ((d.display t).dropWhile isBlank) = false := by
          cases t with
          | nil => rfl
          | cons b t =>
            have hb := (hnext b rfl).2 rfl
            rw [List.mem_cons, List.mem_cons, List.mem_singleton, not_or, not_or] at hb
            rw [display_cons, if_neg hb.2.1, if_neg hb.2.2, List.singleton_append,
              List.dropWhile_cons_of_neg (by rw [ht b List.mem_cons_self]; decide)]
            simp [List.isPrefixOf, Ne.symm hb.1]
        rw [if_pos rfl, List.singleton_append, markExponents, hno, Bool.and_false,
          if_neg Bool.false_ne_true]
        rfl
      · rw [if_neg hd, List.singleton_append, markExponents_cons hc, asBlank, if_neg hd]

/-- Blanks for marks leave the marks again, but for one at the start. -/
theorem withoutBlanks_asBlank (hblank : ∀ c ∈ t, isBlank c = false) (h : t.IsChain MarksSlash) :
    withoutBlanks (t.map asBlank) = if t.head? = some divisionMark then t.tail else t := by
  induction t with
  | nil => rfl
  | cons c t ih =>
    obtain ⟨hc, ht⟩ := List.forall_mem_cons.1 hblank
    obtain ⟨hnext, htail⟩ := List.isChain_cons.1 h
    have ih := ih ht htail
    rw [List.map_cons, withoutBlanks, List.head?_cons, List.tail_cons]
    by_cases hd : c = divisionMark
    · subst hd
      have hno : t.head? ≠ some divisionMark := fun hh =>
        (hnext divisionMark hh).2 rfl (by decide)
      rw [if_neg hno] at ih
      rw [if_pos (show isBlank (asBlank divisionMark) = true by decide), if_pos rfl, ih]
    · have hcb : asBlank c = c := if_neg hd
      rw [hcb, hc, if_neg Bool.false_ne_true, if_neg (fun h => hd (Option.some.inj h)), ih]
      cases t with
      | nil => simp
      | cons b t =>
        by_cases hb : b = divisionMark
        · have hslash := (hnext b rfl).1 hb
          subst hb hslash
          rfl
        · have hbb : isBlank (asBlank b) = false := by
            rw [asBlank, if_neg hb]
            exact ht b List.mem_cons_self
          rw [List.map_cons, List.head?_cons, List.head?_cons, Option.any_some, hbb,
            Bool.and_false, if_neg Bool.false_ne_true, if_neg fun h => hb (Option.some.inj h)]

/-- **A text whose marks stand where blanks would leave them** comes from the text with the blanks. -/
theorem prepare_display (hm : d.marker = ['E']) (hblank : ∀ c ∈ t, isBlank c = false)
    (h : t.IsChain MarksSlash) (hhead : t.head? ≠ some divisionMark) :
    d.prepare (d.display t) = t := by
  rw [prepare, hm, markExponents_display hm hblank h, withoutBlanks_asBlank hblank h, if_neg hhead]

end Dialect

/-! ## Accepted texts -/

variable {d : Dialect} {t : Text} (hs : d.system = none) (hl : d.letters = .initial)

include hs hl

theorem Segment.isWritten {b b' : Bool} {x : Text} (h : Segment d b x b') :
    ∀ c ∈ x, IsWritten c ∨ c ∈ Dialect.blankMarks ∨ Dropped c x := by
  have hall : ∀ {x : Text}, (x.all fun c => decide (IsWritten c ∨ c ∈ Dialect.blankMarks)) = true →
      ∀ c ∈ x, IsWritten c ∨ c ∈ Dialect.blankMarks ∨ Dropped c x :=
    fun hx c hc => (of_decide_eq_true (List.all_eq_true.1 hx c hc)).imp_right .inl
  cases h with
  | opened => exact hall (by decide)
  | negated => exact hall (by decide)
  | operand hx =>
    intro c hc
    rcases hx.mem c hc with h | ⟨-, h | h⟩
    · exact .inl (Dialect.isWritten_of_spells hs hl h)
    · exact .inl (forall_of_all (P := IsWritten) (by decide) c h)
    · exact .inr (.inr h)
  | operator hc =>
    rw [List.forall_mem_singleton]
    exact (forall_of_all (P := fun c => IsWritten c ∨ c ∈ Dialect.blankMarks) (by decide) _
      hc).imp_right .inl
  | divided => exact hall (by decide)
  | scaled =>
    rw [Dialect.marker_of_none hs]
    exact hall (by decide)
  | closed hx =>
    refine List.forall_mem_cons.2 ⟨.inl (by decide), fun c hc => .inl ?_⟩
    exact Dialect.isWritten_of_spells hs hl (hx.mem c hc)

/-- The characters of a text that is read. -/
theorem Walk.isWritten {b b' : Bool} (h : Walk d b t b' []) :
    ∀ c ∈ t, IsWritten c ∨ c ∈ Dialect.blankMarks ∨ Dropped c t := by
  generalize hr : ([] : Text) = r at h
  induction h with
  | refl =>
    rw [← hr]
    exact List.forall_mem_nil _
  | step hx _ ih =>
    intro c hc
    rcases List.mem_append.1 hc with hc | hc
    · exact (hx.isWritten hs hl c hc).imp_right (Or.imp_right fun h =>
        h.mono (List.prefix_append _ _).isInfix)
    · exact (ih hr c hc).imp_right (Or.imp_right fun h => h.mono (List.suffix_append _ _).isInfix)

/-- **The characters of a text that has a value**, in decimal digits and with the letters that are
known at the start: besides blanks these are digits, letters and symbols, the two marks for blanks,
and what a bracket drops. The text with its blanks marked has the same value, and so has, if nothing
is dropped, the text with blanks for all marks, which has none of the other characters. -/
theorem Expr.characters_of_value {v : Value} (h : valueOf d t = .ok v) :
    (∀ c ∈ t, isBlank c = true ∨ IsWritten c ∨ c ∈ Dialect.blankMarks ∨ Dropped c (d.prepare t)) ∧
    valueOf d (d.prepare t) = .ok v ∧
    ((∀ c, ¬ Dropped c (d.prepare t)) →
      valueOf d (d.display (d.prepare t)) = .ok v ∧
        ∀ c ∈ d.display (d.prepare t), c = ' ' ∨ IsWritten c) := by
  obtain ⟨e, he, -⟩ := Expr.valueOf_eq_ok_iff.1 h
  have hm := Dialect.marker_of_none hs
  have hblank : ∀ c ∈ d.prepare t, isBlank c = false := Dialect.isBlank_of_mem_withoutBlanks _
  have hwalk : Walk d true (d.prepare t) false [] := he.walk hblank
  have hchars := hwalk.isWritten hs hl
  have hvalue : ∀ {u : Text}, d.prepare u = d.prepare t → valueOf d u = .ok v := fun hu => by
    rw [valueOf, read, hu]
    exact h
  refine ⟨fun c hc => ?_, hvalue (d.prepare_of_no_blank hblank), fun hdrop => ?_⟩
  · cases hb : isBlank c with
    | true => exact .inl rfl
    | false =>
      rcases d.mem_prepare hb hc with hp | hp
      · exact .inr (hchars c hp)
      · rw [hm] at hp
        exact .inr (.inl (forall_of_all (P := IsWritten) (by decide) c hp))
  · have hd : d.KeepsApart := Dialect.keepsApart_of_isStandard (fun s hsystem => by
      rw [hs] at hsystem
      cases hsystem) fun _ => hl
    have hbegins : ∀ c, Begins d true c → c ∉ ['E', Dialect.spacedMark, Dialect.divisionMark] := by
      rintro c (rfl | hc) hm
      · exact absurd hm (by decide)
      · rcases List.mem_cons.1 hm with rfl | hm
        · exact (Dialect.isWritten_of_isNumeric hs hl hc).2 rfl
        · exact hd c (.inl hc) (List.mem_cons_of_mem _ (List.mem_cons_of_mem _ hm))
    have hchain := hwalk.isChain hd fun c _ => hdrop c
    have hdisplay : d.prepare (d.display (d.prepare t)) = d.prepare t :=
      Dialect.prepare_display hm hblank
        (hchain.imp fun a c h => ⟨h.slash, fun ha => hbegins c (h.operand ha)⟩)
        fun hh => hbegins _ (hwalk.begins _ hh) (by decide)
    refine ⟨hvalue hdisplay, fun c hc => ?_⟩
    obtain ⟨a, ha, hc⟩ := List.mem_flatMap.1 hc
    split_ifs at hc with hspaced hdivision
    · rw [hm] at hc
      rcases List.mem_cons.1 hc with rfl | hc
      · exact .inl rfl
      · exact .inr (forall_of_all (P := IsWritten) (by decide) c hc)
    · exact .inl (List.mem_singleton.1 hc)
    · rw [List.mem_singleton.1 hc]
      rcases hchars a ha with h | h | h
      · exact .inr h
      · rw [Dialect.blankMarks, List.mem_cons, List.mem_singleton] at h
        exact absurd h (not_or.2 ⟨hspaced, hdivision⟩)
      · exact absurd h (hdrop a)

omit hs hl in
/-- A mark that is typed does what the blank in its place would do, and a letter that is no digit
stands in a group without copies. -/
theorem Expr.typed_mark :
    valueOf (Dialect.exactly .initial) ['2', Dialect.spacedMark, '3'] =
        .ok (.plain (.integer 2000)) ∧
      valueOf (Dialect.exactly .initial) "2 E3".toList = .ok (.plain (.integer 2000)) ∧
      valueOf (Dialect.exactly .initial) "1[+-0\x7bq~0\x7d#3]".toList =
        .ok (.plain (.interval (.hull (mkRat 2 3) (mkRat 4 3)))) ∧
      Dropped 'q' "1[+-0\x7bq~0\x7d#3]".toList := by
  have hmark : valueOf (Dialect.exactly .initial) ['2', Dialect.spacedMark, '3'] =
      .ok (.plain (.integer 2000)) := by decide
  have hgroup : valueOf (Dialect.exactly .initial) "1[+-0\x7bq~0\x7d#3]".toList =
      .ok (.plain (.interval (.hull (mkRat 2 3) (mkRat 4 3)))) := by with_unfolding_all decide
  have hno : '[' ∉ (Dialect.exactly .initial).prepare ['2', Dialect.spacedMark, '3'] := by decide
  have hq := (characters_of_value rfl rfl hgroup).1 'q' (by decide)
  rw [Dialect.prepare_of_no_blank _ (forall_of_all (by decide))] at hq
  refine ⟨hmark, ((characters_of_value rfl rfl hmark).2.2 fun _ => not_dropped hno).1, hgroup, ?_⟩
  exact ((hq.resolve_left (by decide)).resolve_left (by decide)).resolve_left (by decide)

end RatCalc

import RatCalc.Proofs.BracketContents
import RatCalc.Proofs.Precedence
import RatCalc.Proofs.Reader
import RatCalc.Proofs.Spelling

/-!
# The segments of an expression

A text that is read falls into operands, the operators between them, and the parentheses around
them. What may come next depends on whether an operand is still missing.

* `Text.Dropped`: the characters of groups without copies in brackets.
* `Dialect.IsOperand`, `Dialect.IsSuffix`: what stands for one operand, and behind a parenthesis;
  `exists_operand_of_bracket`, `exists_suffix`: what readers take is such.
* `Segment`, `Walk`: the segments, and the ways through a text in segments; **`Reads.walk`**: what
  is read is such a way.
* `Dialect.KeepsApart`: numbers have no parentheses and no marks for blanks in them;
  `keepsApart_of_isStandard`: so do the standard digits.
* `Beside`: what stands next to parentheses and marks; **`Walk.isChain`**: in a text that is read.
-/

namespace RatCalc

open Text Reading

namespace Text

variable {c : Char} {t u : Text}

/-- The character stands in a bracket, in a group without copies. -/
def Dropped (c : Char) (t : Text) : Prop :=
  ∃ contents : Text, ']' ∉ contents ∧ RunLength.DroppedIn c contents ∧
    '[' :: (contents ++ [']']) <:+: t

theorem Dropped.mono (h : Dropped c t) (ht : t <:+: u) : Dropped c u := by
  obtain ⟨contents, hclose, hc, hb⟩ := h
  exact ⟨contents, hclose, hc, hb.trans ht⟩

theorem not_dropped (h : '[' ∉ t) : ¬ Dropped c t := by
  rintro ⟨contents, -, -, hb⟩
  exact h (hb.subset List.mem_cons_self)

end Text

namespace Dialect

variable {d : Dialect} {x t r : Text} {a e : Expr}

/-! ## Operands -/

/-- What stands for one operand: it begins like a number, and may have a bracket. -/
structure IsOperand (d : Dialect) (x : Text) : Prop where
  ne_nil : x ≠ []
  head : ∀ c ∈ x.head?, d.IsNumeric c
  mem : ∀ c ∈ x, d.Spells c ∨ d.system = none ∧ (c ∈ ['+', ',', '[', ']'] ∨ Dropped c x)

/-- What may follow an operand in parentheses. -/
structure IsSuffix (d : Dialect) (x : Text) : Prop where
  head : ∀ c ∈ x.head?, c ∈ ['!', '*', '^'] ∨ c ∈ d.marker
  mem : ∀ c ∈ x, d.Spells c

theorem exists_operand (h : d.SpansNumber t r) : ∃ x, d.IsOperand x ∧ t = x ++ r := by
  obtain ⟨u, ⟨w, hw, rfl⟩, hlt, v, hv, rfl⟩ := h
  have hne : w ≠ [] := by
    rintro rfl
    exact absurd hlt (lt_irrefl _)
  refine ⟨w ++ v, ⟨List.append_ne_nil_of_left_ne_nil hne v, ?_, ?_⟩, (List.append_assoc w v r).symm⟩
  · obtain ⟨c, w, rfl⟩ := List.exists_cons_of_ne_nil hne
    rintro c ⟨⟩
    exact hw c List.mem_cons_self
  · intro c hc
    exact .inl ((List.mem_append.1 hc).elim (fun h => .inl (hw c h)) (hv c))

/-- A bracket that is accepted stands for an operand, with what follows it. -/
theorem exists_operand_of_bracket {base contents u : Text} (hblank : ∀ c ∈ t, isBlank c = false)
    (hb : Literal.bracket? t = some (base, contents, u))
    (h : bracket d base contents u = ⟨e, some r⟩) : ∃ x, d.IsOperand x ∧ t = x ++ r := by
  obtain ⟨-, w, -, hw, hclose⟩ := Literal.exists_of_bracket? hb
  have hcontents : ∀ c ∈ contents, isBlank c = false := fun c hc => hblank c (by
    rw [hw]
    exact List.mem_append_right w (List.mem_cons_of_mem _ (List.mem_append_left _ hc)))
  obtain ⟨b, rfl, ht⟩ := Literal.Base.exists_of_bracket?_eq hb
  rw [bracket] at h
  split_ifs at h with hs
  · cases h
  rw [Option.isSome_iff_ne_none, not_not] at hs
  split at h
  · rename_i i hi
    obtain ⟨v, hv, rfl⟩ := spans_suffixed h
    have hne := Literal.Base.text_ne_nil (b.digits_ne_nil hi)
    have hbase : ∀ c ∈ b.text, d.IsNumeric c := fun c hc =>
      (Literal.Base.mem_text hc).elim (fun h => isNumeric_of_inDecimal hs (.inl h))
        fun h => isNumeric_of_mem (List.mem_append_left ['/', '#'] h)
    have hx : b.bracket contents ++ v = b.text ++ ('[' :: (contents ++ [']']) ++ v) := by
      rw [Literal.Base.bracket, List.append_assoc]
    refine ⟨b.bracket contents ++ v, ⟨?_, ?_, ?_⟩, by rw [ht, List.append_assoc]⟩
    · rw [hx]
      exact List.append_ne_nil_of_left_ne_nil hne _
    · rw [hx]
      obtain ⟨c, w, hc⟩ := List.exists_cons_of_ne_nil hne
      rw [hc] at hbase ⊢
      rintro c ⟨⟩
      exact hbase c List.mem_cons_self
    · intro c hc
      rw [hx, List.mem_append, List.mem_append, List.mem_cons, List.mem_append,
        List.mem_singleton] at hc
      rcases hc with hc | (rfl | hc | rfl) | hc
      · exact .inl (.inl (hbase c hc))
      · exact .inr ⟨hs, .inl (by decide)⟩
      · rcases Literal.accounted_of_bracketed hcontents hi c hc with (hc | hc) | hc
        · exact .inl (.inl (isNumeric_of_inDecimal hs hc))
        · rw [List.mem_cons, List.mem_cons, List.mem_cons, List.mem_singleton] at hc
          rcases hc with rfl | rfl | rfl | rfl
          · exact .inr ⟨hs, .inl (by decide)⟩
          · exact .inr ⟨hs, .inl (by decide)⟩
          · exact .inl (spells_of_mem (by decide))
          · refine .inl (spells_of_mem_marker ?_)
            rw [marker_of_none hs]
            exact List.mem_singleton_self _
        · exact .inr ⟨hs, .inr ⟨contents, hclose, hc, b.text, v, by rw [hx]; simp⟩⟩
      · exact .inr ⟨hs, .inl (by decide)⟩
      · exact .inl (hv c hc)
  · cases h

theorem suffixed_start (h : suffixed d a t = ⟨e, some r⟩) :
    r = t ∨ ∃ c u, t = c :: u ∧ (c ∈ ['!', '*', '^'] ∨ c ∈ d.marker) := by
  obtain ⟨b, u, hu, h⟩ := andThen_eq_some.1 h
  obtain ⟨b', v, hv, h⟩ := andThen_eq_some.1 h
  rw [exponentSuffix] at hu
  split_ifs at hu with hf
  · obtain ⟨w, rfl⟩ := d.exists_of_exponentFollows hf
    obtain ⟨c, m, hm⟩ := List.exists_cons_of_ne_nil d.marker_ne_nil
    exact .inr ⟨c, m ++ w, by rw [hm]; rfl, .inr (by rw [hm]; exact List.mem_cons_self)⟩
  · cases hu
    rw [factorialSuffix.eq_def] at hv
    split at hv
    · exact .inr ⟨'!', _, rfl, .inl (by decide)⟩
    · exact .inr ⟨'!', _, rfl, .inl (by decide)⟩
    · cases hv
      rw [powerSuffix.eq_def] at h
      split at h
      · exact .inr ⟨'*', _, rfl, .inl (by decide)⟩
      · exact .inr ⟨'^', _, rfl, .inl (by decide)⟩
      · cases h
        exact .inl rfl

theorem exists_suffix (h : suffixed d a t = ⟨e, some r⟩) : ∃ x, d.IsSuffix x ∧ t = x ++ r := by
  obtain ⟨x, hx, rfl⟩ := spans_suffixed h
  refine ⟨x, ⟨fun c hc => ?_, hx⟩, rfl⟩
  cases x with
  | nil => cases hc
  | cons b x =>
    cases hc
    rcases suffixed_start h with hr | ⟨c, u, ht, hc⟩
    · have hlength := congrArg List.length hr
      rw [List.length_append, List.length_cons] at hlength
      omega
    · rwa [(List.cons.inj ht).1]

end Dialect

/-! ## Segments -/

variable {d : Dialect}

/-- The segments of expressions, from whether an operand comes next to whether one comes after. -/
inductive Segment (d : Dialect) : Bool → Text → Bool → Prop where
  | opened : Segment d true ['('] true
  | negated : Segment d true ['-'] true
  | operand {x} : d.IsOperand x → Segment d true x false
  | operator {c} : c ∈ ['+', '-', '*', '/', Dialect.spacedMark] → Segment d false [c] true
  | divided : Segment d false ['/', Dialect.divisionMark] true
  | scaled : Segment d false d.marker true
  | closed {x} : d.IsSuffix x → Segment d false (')' :: x) false

/-- The ways through a text in segments. -/
inductive Walk (d : Dialect) : Bool → Text → Bool → Text → Prop where
  | refl {b t} : Walk d b t b t
  | step {b x b' t b'' r} : Segment d b x b' → Walk d b' t b'' r → Walk d b (x ++ t) b'' r

variable {b b' b'' : Bool} {t u r x : Text} {e : Expr} {part : Part}

theorem Segment.walk (h : Segment d b x b') (t : Text) : Walk d b (x ++ t) b' t := .step h .refl

theorem Walk.trans (h : Walk d b t b' u) (h' : Walk d b' u b'' r) : Walk d b t b'' r := by
  induction h with
  | refl => exact h'
  | step hx _ ih => exact .step hx (ih h')

theorem Walk.suffix (h : Walk d b t b' r) : r <:+ t := by
  induction h with
  | refl => exact List.suffix_refl _
  | step _ _ ih => exact ih.trans (List.suffix_append _ _)

/-- Whether an operand comes next. -/
def Part.opens : Part → Bool
  | sum | term | factor => true
  | sumFrom _ | termFrom _ => false

theorem walk_afterSlash (t : Text) : Walk d false ('/' :: t) true (afterSlash t) := by
  rw [afterSlash.eq_def]
  split
  · exact (Segment.operator (by decide)).walk []
  · split_ifs with hc
    · rw [hc]
      exact Segment.divided.walk _
    · exact (Segment.operator (c := '/') (by decide)).walk _

theorem walk_afterMarker? (h : afterMarker? d t = some u) : Walk d false t true u := by
  rw [afterMarker?.eq_def] at h
  split at h
  · cases h
  · split_ifs at h with hc
    · cases h
      rw [hc]
      exact (Segment.operator (by decide)).walk _
    · rw [eq_append_of_after? h]
      exact Segment.scaled.walk _

/-- **What is read is a way through the text in segments.** -/
theorem Reads.walk (h : Reads d part t e r) (hblank : ∀ c ∈ t, isBlank c = false) :
    Walk d part.opens t false r := by
  have hrest : ∀ {b b' : Bool} {t u : Text}, (∀ c ∈ t, isBlank c = false) → Walk d b t b' u →
      ∀ c ∈ u, isBlank c = false := fun hblank h c hc => hblank c (h.suffix.subset hc)
  induction h with
  | sum _ _ ih₁ ih₂ | term _ _ ih₁ ih₂ =>
    exact (ih₁ hblank).trans (ih₂ (hrest hblank (ih₁ hblank)))
  | plus _ _ ih₁ ih₂ | minus _ _ ih₁ ih₂ | times _ _ ih₁ ih₂ =>
    have hterm := ih₁ (List.forall_mem_cons.1 hblank).2
    exact .step (.operator (by decide)) (hterm.trans (ih₂ (hrest (List.forall_mem_cons.1 hblank).2
      hterm)))
  | sumEnd | termEnd => exact .refl
  | @divided t _ _ _ _ _ _ _ ih₁ ih₂ =>
    have hslash : Walk d false ('/' :: t) true (afterSlash t) := walk_afterSlash t
    have hfactor := ih₁ (hrest hblank hslash)
    exact hslash.trans (hfactor.trans (ih₂ (hrest (hrest hblank hslash) hfactor)))
  | scaled _ _ hm _ _ ih₁ ih₂ =>
    have hmark := walk_afterMarker? hm
    have hfactor := ih₁ (hrest hblank hmark)
    exact hmark.trans (hfactor.trans (ih₂ (hrest (hrest hblank hmark) hfactor)))
  | group _ hs ih =>
    obtain ⟨x, hx, rfl⟩ := Dialect.exists_suffix hs
    exact .step .opened ((ih (List.forall_mem_cons.1 hblank).2).trans ((Segment.closed hx).walk _))
  | bracketed _ hb hs =>
    obtain ⟨x, hx, rfl⟩ := Dialect.exists_operand_of_bracket hblank hb hs
    exact (Segment.operand hx).walk _
  | signed _ hs =>
    obtain ⟨x, hx, ht⟩ := Dialect.exists_operand (spansNumber_signedLiteral? hs)
    rw [ht]
    exact (Segment.operand hx).walk _
  | negated _ _ _ ih => exact .step .negated (ih (List.forall_mem_cons.1 hblank).2)
  | literal _ _ _ hl =>
    obtain ⟨x, hx, rfl⟩ := Dialect.exists_operand (spansNumber_literal hl)
    exact (Segment.operand hx).walk _

/-! ## Characters that stand apart -/

/-- Parentheses, and the marks for blanks. -/
def outer : List Char := ['(', ')', Dialect.spacedMark, Dialect.divisionMark]

/-- Numbers and what follows them have none of them in them. -/
def Dialect.KeepsApart (d : Dialect) : Prop := ∀ c, d.Spells c → c ∉ outer

theorem not_mem_marker_of_mem_outer {c : Char} (h : c ∈ outer) : c ∉ d.marker := by
  rcases d.marker_eq with hm | hm <;> rw [hm]
  · exact forall_of_all (P := fun c => c ∉ ['E']) (by decide) c h
  · exact forall_of_all (P := fun c => c ∉ ['_', '^']) (by decide) c h

theorem Dialect.keepsApart_of_isStandard (hd : d.IsStandard)
    (hl : d.system = none → d.letters = .initial) : d.KeepsApart := by
  have halphabet : ∀ c ∈ NumeralSystem.alphabet, c ∉ outer := forall_of_all (by decide)
  rintro c (hc | hc | hc)
  · rcases hc with hc | hc | ⟨hs, hc | ⟨a, s, ha, hsystem, hc⟩⟩
    · exact halphabet c (mem_alphabet_of_isDigit hd hc)
    · exact forall_of_all (P := fun c => c ∉ outer) (by decide) c hc
    · rcases hc with hc | hc
      · intro hm
        rw [forall_of_all (P := fun c => isDecimal c = false) (by decide) c hm] at hc
        cases hc
      · exact forall_of_all (P := fun c => c ∉ outer) (by decide) c hc
    · rw [hl hs] at hsystem
      rcases hc with rfl | hc
      · exact halphabet c (List.mem_of_mem_drop (LetterTable.mem_of_isLetter ha))
      · exact halphabet c (List.mem_of_mem_take (LetterTable.mem_take_of_initial hsystem hc))
  · exact forall_of_all (P := fun c => c ∉ outer) (by decide) c hc
  · exact fun hm => not_mem_marker_of_mem_outer hm hc

/-- What a text that is read has next to parentheses and marks for blanks: an operand comes after
them, except for the closing parenthesis, and the mark for blanks after a slash comes after one. -/
structure Beside (d : Dialect) (a c : Char) : Prop where
  opened : c = '(' →
    a ∈ ['(', '+', '-', '*', '/', Dialect.spacedMark, Dialect.divisionMark] ∨ a ∈ d.marker
  closed : a = ')' → c ∈ [')', '+', '-', '*', '/', '!', '^', Dialect.spacedMark] ∨ c ∈ d.marker
  slash : c = Dialect.divisionMark → a = '/'
  operand : a = Dialect.divisionMark → c = '(' ∨ d.IsNumeric c

/-- What comes next: the first character of an operand, or an operator or closing parenthesis. -/
def Begins (d : Dialect) : Bool → Char → Prop
  | true, c => c = '(' ∨ d.IsNumeric c
  | false, c => c ∈ [')', '+', '-', '*', '/', Dialect.spacedMark] ∨ c ∈ d.marker

variable {a c : Char}

theorem beside_of_inner (ha : a ∉ outer) (hc : c ∉ outer) : Beside d a c where
  opened h := absurd (by rw [h]; decide) hc
  closed h := absurd (by rw [h]; decide) ha
  slash h := absurd (by rw [h]; decide) hc
  operand h := absurd (by rw [h]; decide) ha

section

variable (hd : d.KeepsApart)

include hd

theorem beside_operand
    (ha : a ∈ ['(', '+', '-', '*', '/', Dialect.spacedMark, Dialect.divisionMark] ∨ a ∈ d.marker)
    (hc : Begins d true c) : Beside d a c where
  opened _ := ha
  closed h := by
    subst h
    rcases ha with ha | ha
    · exact absurd ha (by decide)
    · exact absurd ha (not_mem_marker_of_mem_outer (by decide))
  slash h := by
    subst h
    rcases hc with hc | hc
    · exact absurd hc (by decide)
    · exact absurd (by decide) (hd _ (.inl hc))
  operand _ := hc

omit hd in
theorem beside_operator (ha : a ≠ Dialect.divisionMark) (hc : Begins d false c) : Beside d a c where
  opened h := by
    subst h
    rcases hc with hc | hc
    · exact absurd hc (by decide)
    · exact absurd hc (not_mem_marker_of_mem_outer (by decide))
  closed _ := hc.imp_left fun h =>
    forall_of_all (P := fun c => c ∈ [')', '+', '-', '*', '/', '!', '^', Dialect.spacedMark])
      (by decide) c h
  slash h := by
    subst h
    rcases hc with hc | hc
    · exact absurd hc (by decide)
    · exact absurd hc (not_mem_marker_of_mem_outer (by decide))
  operand h := absurd h ha

/-! ## Neighbours -/

omit hd in
theorem Segment.ne_nil (h : Segment d b x b') : x ≠ [] := by
  cases h with
  | operand hx => exact hx.ne_nil
  | scaled => exact d.marker_ne_nil
  | _ => exact List.cons_ne_nil _ _

omit hd in
theorem Segment.begins (h : Segment d b x b') : ∀ c ∈ x.head?, Begins d b c := by
  cases h with
  | opened =>
    rintro c ⟨⟩
    exact .inl rfl
  | negated =>
    rintro c ⟨⟩
    exact .inr (Dialect.isNumeric_of_mem (by decide))
  | operand hx => exact fun c hc => .inr (hx.head c hc)
  | operator hc =>
    rintro c ⟨⟩
    exact .inl (List.mem_cons_of_mem _ hc)
  | divided =>
    rintro c ⟨⟩
    exact .inl (by decide)
  | scaled => exact fun c hc => .inr (List.mem_of_mem_head? hc)
  | closed =>
    rintro c ⟨⟩
    exact .inl (by decide)

omit hd in
theorem Walk.begins (h : Walk d b t b' []) : ∀ c ∈ t.head?, Begins d b c := by
  generalize hr : ([] : Text) = r at h
  cases h with
  | refl =>
    rw [← hr]
    exact fun c hc => nomatch hc
  | step hx _ =>
    intro c hc
    rw [List.head?_append_of_ne_nil _ hx.ne_nil] at hc
    exact hx.begins c hc

/-- The characters of an operand in which no parenthesis and no mark is dropped. -/
theorem not_mem_outer_of_isOperand (hx : d.IsOperand x) (hdrop : ∀ c ∈ outer, ¬ Dropped c x) :
    ∀ c ∈ x, c ∉ outer := by
  intro c hc hm
  rcases hx.mem c hc with h | ⟨-, h | h⟩
  · exact hd c h hm
  · exact forall_of_all (P := fun c => c ∉ outer) (by decide) c h hm
  · exact hdrop c hm h

theorem Segment.beside (h : Segment d b x b') (hdrop : ∀ c ∈ outer, ¬ Dropped c x) :
    ∀ a ∈ x.getLast?, ∀ c, Begins d b' c → Beside d a c := by
  cases h with
  | opened =>
    rintro a ⟨⟩ c hc
    exact beside_operand hd (.inl (by decide)) hc
  | negated =>
    rintro a ⟨⟩ c hc
    exact beside_operand hd (.inl (by decide)) hc
  | operand hx =>
    intro a ha c hc
    refine beside_operator ?_ hc
    rintro rfl
    exact not_mem_outer_of_isOperand hd hx hdrop _ (List.mem_of_getLast? ha) (by decide)
  | operator hs =>
    rintro a ⟨⟩ c hc
    refine beside_operand hd (.inl ?_) hc
    exact forall_of_all (P := fun a => a ∈
      ['(', '+', '-', '*', '/', Dialect.spacedMark, Dialect.divisionMark]) (by decide) _ hs
  | divided =>
    rintro a ⟨⟩ c hc
    exact beside_operand hd (.inl (by decide)) hc
  | scaled => exact fun a ha c hc => beside_operand hd (.inr (List.mem_of_getLast? ha)) hc
  | closed hx =>
    intro a ha c hc
    refine beside_operator ?_ hc
    rintro rfl
    rcases List.mem_cons.1 (List.mem_of_getLast? ha) with h | h
    · exact absurd h (by decide)
    · exact hd _ (hx.mem _ h) (by decide)

theorem Segment.isChain (h : Segment d b x b') (hdrop : ∀ c ∈ outer, ¬ Dropped c x) :
    x.IsChain (Beside d) := by
  have hinner : ∀ {u : Text}, (∀ c ∈ u, c ∉ outer) → u.IsChain (Beside d) := fun hu =>
    (List.pairwise_of_forall_mem_list fun a ha c hc => beside_of_inner (hu a ha) (hu c hc)).isChain
  cases h with
  | opened | negated | operator => exact List.isChain_singleton _
  | operand hx => exact hinner (not_mem_outer_of_isOperand hd hx hdrop)
  | divided =>
    refine List.isChain_cons_cons.2 ⟨⟨fun h => absurd h (by decide), fun h => absurd h (by decide),
      fun _ => rfl, fun h => absurd h (by decide)⟩, List.isChain_singleton _⟩
  | scaled => exact hinner fun c hc hm => not_mem_marker_of_mem_outer hm hc
  | @closed u hx =>
    refine List.isChain_cons.2 ⟨fun c hc => ?_, hinner fun c hc => hd c (hx.mem c hc)⟩
    have hc' := hd c (hx.mem c (List.mem_of_mem_head? hc))
    refine ⟨fun h => absurd (by rw [h]; decide) hc', fun _ => ?_,
      fun h => absurd (by rw [h]; decide) hc', fun h => absurd h (by decide)⟩
    exact (hx.head c hc).imp_left fun h => forall_of_all
      (P := fun c => c ∈ [')', '+', '-', '*', '/', '!', '^', Dialect.spacedMark]) (by decide) c h

/-- **Next to parentheses and marks for blanks**, in a text in which none of them is dropped. -/
theorem Walk.isChain (h : Walk d b t b' []) (hdrop : ∀ c ∈ outer, ¬ Dropped c t) :
    t.IsChain (Beside d) := by
  generalize hr : ([] : Text) = r at h
  induction h with
  | refl =>
    rw [← hr]
    exact List.isChain_nil
  | step hx h ih =>
    subst hr
    have hx' : ∀ c ∈ outer, ¬ Dropped c _ := fun c hc h =>
      hdrop c hc (h.mono (List.prefix_append _ _).isInfix)
    refine List.isChain_append.2 ⟨hx.isChain hd hx', ih (fun c hc h =>
      hdrop c hc (h.mono (List.suffix_append _ _).isInfix)) rfl, fun a ha c hc => ?_⟩
    exact hx.beside hd hx' a ha c (h.begins c hc)

end

end RatCalc

import RatCalc.Proofs.LineAnswers
import RatCalc.Proofs.PointFormulas
import RatCalc.Proofs.Segments

/-!
# Letters that are digits

In the input bases above ten small letters are digits. A letter that is all there is on one side of
a point is taken for the variable of that name all the same, if there is one.

* `substitute_append_cons`: variables are written out in each part of a line on its own;
  `NoVariable`, `substitute_row`: a row of digits is changed only if it is the name of a variable.
* `Torn`: texts with a parenthesis beside a point; `not_torn`: a text with a value is none.
* `substitute_formula`, **`torn_formula`**: a formula with its variables written out, if it has none
  and if it has some.
* `ofLine_of_point`: a line with a point is an expression, or sets the limit.
* **`formula_answer`**: the formulas that are answered as without variables; all others are answered
  with an error.
-/

namespace RatCalc

open Text

namespace Session

variable {s : Session} {v : Value} {c : Char} {t u w : Text}

/-! ## Variables in parts of a line -/

theorem isWordChar_of_isName (h : isName c = true) : isWordChar c = true := by
  rw [isName] at h
  rw [isWordChar, h, Bool.or_true, Bool.true_or, Bool.true_or]

theorem isName_of_not_isWordChar (h : isWordChar c = false) : isName c = false := by
  rw [← Bool.not_eq_true] at h ⊢
  exact fun hname => h (isWordChar_of_isName hname)

theorem isWordChar_of_isDigit {d : Dialect} (hd : d.IsStandard) (h : d.isDigit c = true) :
    isWordChar c = true :=
  forall_of_all (P := fun c => isWordChar c = true) (by decide) c
    (mem_alphabet_of_isDigit hd h)

theorem substituteFrom_append_cons (hc : isWordChar c = false) (joined : Bool) (t u : Text) :
    s.substituteFrom joined (t ++ c :: u) = s.substituteFrom joined t ++ c :: s.substitute u := by
  induction t generalizing joined with
  | nil =>
    change s.substituteFrom joined (c :: u) = c :: s.substitute u
    rw [substituteFrom, isName_of_not_isWordChar hc, Bool.false_and, Bool.false_and,
      if_neg Bool.false_ne_true, hc]
    rfl
  | cons a t ih =>
    -- the symbol that comes next joins with a letter as little as the end of a text
    have hnext : (t ++ c :: u).head?.any isWordChar = t.head?.any isWordChar := by
      cases t with
      | nil => exact hc
      | cons b t => rfl
    rw [List.cons_append, substituteFrom, substituteFrom, hnext, ih]
    split_ifs
    · split
      · simp
      · rfl
    · rfl

/-- **Variables are written out in each part on its own**, where the parts do not join. -/
theorem substitute_append_cons (hc : isWordChar c = false) (t u : Text) :
    s.substitute (t ++ c :: u) = s.substitute t ++ c :: s.substitute u :=
  substituteFrom_append_cons hc false t u

theorem substitute_cons (hc : isWordChar c = false) (u : Text) :
    s.substitute (c :: u) = c :: s.substitute u := substitute_append_cons hc [] u

theorem substituteFrom_joined (hw : ∀ c ∈ w, isWordChar c = true) :
    s.substituteFrom true w = w := by
  induction w with
  | nil => rfl
  | cons c w ih =>
    obtain ⟨hc, hw⟩ := List.forall_mem_cons.1 hw
    rw [substituteFrom, Bool.not_true, Bool.and_false, Bool.false_and, if_neg Bool.false_ne_true,
      hc, ih hw]

/-- The text is not the name of a variable. -/
def NoVariable (s : Session) (w : Text) : Prop :=
  ∀ c, w = [c] → isName c = true → s.value? c = none

/-- A row of digits is changed only if it is the name of a variable. -/
theorem substitute_row (hw : ∀ c ∈ w, isWordChar c = true) (h : s.NoVariable w) :
    s.substitute w = w := by
  cases w with
  | nil => rfl
  | cons c w =>
    obtain ⟨hc, hw⟩ := List.forall_mem_cons.1 hw
    rw [substitute, substituteFrom, hc, substituteFrom_joined hw]
    split_ifs with hvariable
    · rw [Bool.and_eq_true, Bool.and_eq_true] at hvariable
      cases w with
      | nil => rw [h c rfl hvariable.1.1]
      | cons a w =>
        rw [List.head?_cons, Option.any_some, hw a List.mem_cons_self] at hvariable
        exact absurd hvariable.2 (by decide)
    · rfl

/-- Where a variable is written out there are parentheses and a literal. -/
theorem mem_of_mem_substituteFrom {joined : Bool} (h : c ∈ s.substituteFrom joined t) :
    c ∈ t ∨ c ∈ ['(', ')'] ∨ ∃ v, c ∈ s.literal v := by
  induction t generalizing joined with
  | nil => cases h
  | cons a t ih =>
    have hnext : c ∈ a :: s.substituteFrom (isWordChar a) t →
        c ∈ a :: t ∨ c ∈ ['(', ')'] ∨ ∃ v, c ∈ s.literal v := fun h =>
      (List.mem_cons.1 h).elim (fun h => .inl (h ▸ List.mem_cons_self)) fun h =>
        (ih h).imp_left (List.mem_cons_of_mem a)
    rw [substituteFrom] at h
    split_ifs at h
    · split at h
      · rename_i v _
        rw [List.mem_append, List.mem_cons, List.mem_cons] at h
        rcases h with (rfl | h) | rfl | h
        · exact .inr (.inl (by decide))
        · exact .inr (.inr ⟨v, h⟩)
        · exact .inr (.inl (by decide))
        · exact hnext (List.mem_cons_of_mem a h)
      · exact hnext h
    · exact hnext h

theorem exists_name (h : ¬ s.NoVariable w) :
    ∃ c v, w = [c] ∧ isName c = true ∧ s.value? c = some v := by
  simp only [NoVariable, not_forall] at h
  obtain ⟨c, hw, hname, hv⟩ := h
  obtain ⟨v, hv⟩ := Option.ne_none_iff_exists'.1 hv
  exact ⟨c, v, hw, hname, hv⟩

/-- In the place of the name of a variable stands its value, in parentheses. -/
theorem exists_substitute (h : ¬ s.NoVariable w) :
    ∃ v, s.substitute w = '(' :: (s.literal v ++ [')']) := by
  obtain ⟨c, v, rfl, hname, hv⟩ := exists_name h
  exact ⟨v, substitute_name hname hv⟩

/-! ## Parentheses beside a point -/

/-- A point, or the mark of a period, has a parenthesis where digits have to be. -/
def Torn (t : Text) : Prop := ∃ p ∈ ['.', '#'], [')', p] <:+: t ∨ [p, '('] <:+: t

theorem Torn.mono (h : Torn t) (ht : t <:+: u) : Torn u := by
  obtain ⟨p, hp, h⟩ := h
  exact ⟨p, hp, h.imp (·.trans ht) (·.trans ht)⟩

theorem torn_close {p : Char} (hp : p ∈ ['.', '#']) (t u : Text) : Torn (t ++ ')' :: p :: u) :=
  ⟨p, hp, .inl ⟨t, u, by simp⟩⟩

theorem torn_open {p : Char} (hp : p ∈ ['.', '#']) (t u : Text) : Torn (t ++ p :: '(' :: u) :=
  ⟨p, hp, .inr ⟨t, u, by simp⟩⟩

/-- **A text with a value is not torn**, in the digits of another base. -/
theorem not_torn {d : Dialect} {system : NumeralSystem} (hs : d.system = some system)
    (hd : d.IsStandard) (hblank : ∀ c ∈ t, isBlank c = false) (hbracket : '[' ∉ t)
    (h : Expr.valueOf d t = .ok v) : ¬ Torn t := by
  obtain ⟨e, he, -⟩ := Expr.valueOf_eq_ok_iff.1 h
  rw [d.prepare_of_no_blank hblank] at he
  have hapart : d.KeepsApart := Dialect.keepsApart_of_isStandard hd fun hnone => by
    rw [hs] at hnone
    cases hnone
  have hchain := (he.walk hblank).isChain hapart fun c _ => not_dropped hbracket
  rintro ⟨p, hp, h⟩
  have hmarker : p ∉ d.marker := by
    have hp := forall_of_all (P := fun p => p ≠ 'E' ∧ p ≠ '_' ∧ p ≠ '^') (by decide) p hp
    exact d.not_mem_marker hp.1 hp.2.1 hp.2.2
  rcases h with h | h
  · have hpair := List.IsChain.infix hchain h
    have hbeside := (List.isChain_cons_cons.1 hpair).1
    refine (hbeside.closed rfl).elim (fun hm => ?_) hmarker
    exact forall_of_all (P := fun p => p ∉ [')', '+', '-', '*', '/', '!', '^', Dialect.spacedMark])
      (by decide) p hp hm
  · have hpair := List.IsChain.infix hchain h
    have hbeside := (List.isChain_cons_cons.1 hpair).1
    refine (hbeside.opened rfl).elim (fun hm => ?_) hmarker
    exact forall_of_all
      (P := fun p => p ∉ ['(', '+', '-', '*', '/', Dialect.spacedMark, Dialect.divisionMark])
      (by decide) p hp hm

/-! ## Formulas -/

section

variable {n : PointNumeral s.settings.dialect} {a : Formula s.settings.dialect}

theorem isWordChar_of_mem_row {d : Dialect} (hd : d.IsStandard) (hw : d.IsDigitRow w) :
    ∀ c ∈ w, isWordChar c = true := fun c hc => isWordChar_of_isDigit hd (hw.isDigit c hc)

theorem substitute_numeral (h : ∀ w ∈ n.rows, s.NoVariable w) : s.substitute n.text = n.text := by
  have hrow : ∀ w ∈ n.rows, s.substitute w = w := fun w hw =>
    substitute_row (isWordChar_of_mem_row (isStandard_dialect _) (n.isDigitRow w hw)) (h w hw)
  rw [PointNumeral.rows, List.forall_mem_cons, List.forall_mem_cons] at hrow
  obtain ⟨hwhole, hfraction, hperiod⟩ := hrow
  rw [PointNumeral.text, substitute_append_cons (by decide), hwhole, PointNumeral.periodText]
  cases hp : n.period with
  | none => rw [List.append_nil, hfraction]
  | some p =>
    simp only
    rw [substitute_append_cons (by decide), hfraction, hperiod p (by rw [hp]; simp)]

/-- Beside the value of a variable stands a point or the mark of a period. -/
theorem torn_numeral (h : ∃ w ∈ n.rows, ¬ s.NoVariable w) : Torn (s.substitute n.text) := by
  obtain ⟨w, hw, h⟩ := h
  obtain ⟨v, hv⟩ := exists_substitute h
  rw [PointNumeral.text, substitute_append_cons (by decide), PointNumeral.periodText]
  rw [PointNumeral.rows, List.mem_cons, List.mem_cons, Option.mem_toList] at hw
  rcases hw with rfl | rfl | hw
  · rw [hv, List.cons_append, List.append_assoc]
    exact torn_close (t := '(' :: s.literal v) (by decide) _
  · cases n.period with
    | none =>
      rw [List.append_nil, hv]
      exact torn_open (by decide) _ _
    | some p =>
      simp only
      rw [substitute_append_cons (by decide), hv]
      exact torn_open (by decide) _ _
  · rw [hw]
    simp only
    rw [substitute_append_cons (by decide), hv]
    have htorn : Torn (s.substitute n.fraction ++ '#' :: '(' :: (s.literal v ++ [')'])) :=
      torn_open (by decide) _ _
    exact htorn.mono ((List.suffix_cons _ _).trans (List.suffix_append _ _)).isInfix

theorem isWordChar_of_operator (op : Operator) : isWordChar op.char = false := by
  cases op <;> decide

/-- Without variables among its rows a formula stays as it is. -/
theorem substitute_formula (h : ∀ w ∈ a.rows, s.NoVariable w) : s.substitute a.text = a.text := by
  induction a with
  | numeral n => exact substitute_numeral h
  | parens a ih =>
    rw [Formula.text, substitute_cons (by decide), substitute_append_cons (by decide), ih h]
    rfl
  | joined a op hop b iha ihb =>
    rw [Formula.rows, List.forall_mem_append] at h
    rw [Formula.text, substitute_append_cons (isWordChar_of_operator op), iha h.1, ihb h.2]

/-- **With one of them it is torn.** -/
theorem torn_formula (h : ∃ w ∈ a.rows, ¬ s.NoVariable w) : Torn (s.substitute a.text) := by
  induction a with
  | numeral n => exact torn_numeral h
  | parens a ih =>
    rw [Formula.text, substitute_cons (by decide), substitute_append_cons (by decide)]
    exact (ih h).mono ((List.prefix_append _ _).isInfix.trans (List.suffix_cons _ _).isInfix)
  | joined a op hop b iha ihb =>
    obtain ⟨w, hw, h⟩ := h
    rw [Formula.text, substitute_append_cons (isWordChar_of_operator op)]
    rcases List.mem_append.1 hw with hw | hw
    · exact (iha ⟨w, hw, h⟩).mono (List.prefix_append _ _).isInfix
    · exact (ihb ⟨w, hw, h⟩).mono
        ((List.suffix_cons _ _).trans (List.suffix_append _ _)).isInfix

/-- The name of a variable is a digit of another base than ten. -/
theorem exists_system (h : ∃ w ∈ a.rows, ¬ s.NoVariable w) :
    ∃ system, s.settings.dialect.system = some system := by
  obtain ⟨w, hw, h⟩ := h
  obtain ⟨c, -, rfl, hname, -⟩ := exists_name h
  refine Option.ne_none_iff_exists'.1 fun hs => ?_
  have hdigit := (a.isDigitRow [c] hw).isDigit c (List.mem_singleton_self c)
  rw [Dialect.isDigit, hs] at hdigit
  have hlike := isName_of_isDigitLike (isDigitLike_of_isDecimal (isDecimal_of_plain hdigit))
  rw [hname] at hlike
  cases hlike

/-- What a formula becomes when its variables are written out has no blanks and no brackets. -/
theorem mem_substitute_formula (h : c ∈ s.substitute a.text) : isBlank c = false ∧ c ≠ '[' := by
  have hchars : s.settings.dialect.isDigit c = true ∨
      c ∈ ['.', '#', '(', ')', '+', '-', '*', '/', ':'] := by
    rcases mem_of_mem_substituteFrom h with h | h | ⟨v, h⟩
    · exact (Formula.mem_text h).imp_right (List.mem_append_left ['/', ':'])
    · exact .inr (forall_of_all (by decide) c h)
    · exact (mem_literal h).imp_right (forall_of_all (by decide) c)
  rcases hchars with h | h
  · refine ⟨isBlank_of_isDigit (isStandard_dialect _) h, ?_⟩
    rintro rfl
    rw [Dialect.isDigit_of_reserved _ (by decide)] at h
    cases h
  · exact forall_of_all (P := fun c => isBlank c = false ∧ c ≠ '[') (by decide) c h

end

/-! ## Answers -/

/-- **A line with a point and without an equals sign** is an expression, or sets the limit. -/
theorem ofLine_of_point (hblank : ∀ c ∈ t, isBlank c = false) (hpoint : '.' ∈ t) (heq : '=' ∉ t) :
    Command.ofLine t = .evaluate t ∨ ∃ argument, Command.ofLine t = .limit argument := by
  have hword : ∀ word ∈ commandWords, String.ofList (commandCase t) ≠ word := by
    rintro word hmem rfl
    refine (by decide : ∀ word ∈ commandWords, '.' ∉ word.toList) _ hmem ?_
    rw [String.toList_ofList]
    exact List.mem_flatMap.2 ⟨'.', hpoint, by decide⟩
  have hassign : assignment? t = none := by
    rw [assignment?.eq_def]
    split
    · rfl
    · rename_i c rest
      split
      · rename_i u hu
        refine absurd ?_ heq
        have hm : '=' ∈ trimStart rest := hu ▸ List.mem_cons_self
        exact List.mem_cons_of_mem c ((List.dropWhile_sublist _).subset hm)
      · rfl
  rw [ofLine_of_no_word hblank (List.ne_nil_of_mem hpoint) hword, hassign]
  split
  · exact .inr ⟨_, rfl⟩
  · exact .inl rfl

/-- A session without variables. -/
def forgetful (s : Session) : Session := { s with store := [] }

theorem step_of_limit {argument : Text} (h : Command.ofLine t = .limit argument) :
    (s.step t).2 = (s.forgetful.step t).2 := by
  rw [step, step, h, run, run, setLimit, setLimit]
  split_ifs
  · rfl
  · rfl
  · cases Literal.wholeOf argument with
    | error f => rfl
    | ok n =>
      simp only
      split_ifs <;> rfl

/-- An expression in which no variable is written out is answered as without variables. -/
theorem step_of_substitute (h : Command.ofLine t = .evaluate t)
    (hsubst : s.substitute t = s.forgetful.substitute t) :
    (s.step t).2 = (s.forgetful.step t).2 := by
  rw [step, step, h, run, run, evaluate, evaluate, hsubst]
  rfl

variable {a : Formula s.settings.dialect}

theorem ofLine_formula (a : Formula s.settings.dialect) :
    Command.ofLine a.text = .evaluate a.text ∨
      ∃ argument, Command.ofLine a.text = .limit argument := by
  have heq : '=' ∉ a.text := fun h => by
    rcases Formula.mem_text h with h | h
    · have := mem_alphabet_of_isDigit (isStandard_dialect s.settings) h
      exact absurd this (by decide)
    · exact absurd h (by decide)
  exact ofLine_of_point (Formula.isBlank_of_mem_text (isStandard_dialect _) a) a.point_mem heq

theorem substitute_forgetful (a : Formula s.settings.dialect) :
    s.forgetful.substitute a.text = a.text :=
  substitute_formula (s := s.forgetful) fun _ _ _ _ _ => rfl

/-- What is shown tells of no error. -/
theorem not_tellsError_shown (s : Session) (v : Value) : ¬ TellsError (s.shown v) := by
  rintro ⟨u, hu⟩
  have hletter : 'E' ∈ s.shown v := hu ▸ List.mem_append_left u (by decide)
  rcases Display.shows_number s.format v.number 'E' hletter with h | h
  · cases h
  · exact absurd h (by decide)

/-- **With the name of a variable among its rows** a formula is answered with an error, though it
has a value. -/
theorem answer_of_variable (hline : Command.ofLine a.text = .evaluate a.text)
    (h : ∃ w ∈ a.rows, ¬ s.NoVariable w) :
    ∃ message v, (s.step a.text).2.result = .ok (some message) ∧ TellsError message ∧
      Expr.valueOf s.settings.dialect a.text = .ok v ∧
      (s.forgetful.step a.text).2.result = .ok (some (s.shown v)) := by
  have hd := isStandard_dialect s.settings
  obtain ⟨system, hs⟩ := exists_system h
  obtain ⟨v, hv⟩ := a.exists_value hs hd
  have herror : ∃ f, (s.evaluate a.text).result = .error f := by
    cases hr : (s.evaluate a.text).result with
    | error f => exact ⟨f, rfl⟩
    | ok v =>
      exact absurd (torn_formula h) (not_torn hs hd (fun c hc => (mem_substitute_formula hc).1)
        (fun hm => (mem_substitute_formula hm).2 rfl) hr)
  obtain ⟨f, hf⟩ := herror
  have hfault : f.IsFault := reported_evaluate (fun hnone => by
    have hsystem : s.settings.system = some system := hs
    rw [hsystem] at hnone
    cases hnone) f hf
  obtain ⟨code, message, -, hanswer, -, htells⟩ := result_run_of_fault hfault hf
  refine ⟨_, v, by rw [step, hline]; exact hanswer, htells, hv, ?_⟩
  have hvalue : (s.forgetful.evaluate a.text).result = .ok v := by
    rw [← hv]
    exact congrArg (Expr.valueOf s.settings.dialect) (substitute_forgetful a)
  rw [step, hline, run]
  simp only [hvalue]
  rfl

/-- **A formula is answered as without variables** if it sets the limit or no row of its digits is
the name of a variable, and only then. All others are answered with an error, though they have a
value. -/
theorem formula_answer (s : Session) (a : Formula s.settings.dialect) :
    ((s.step a.text).2 = (s.forgetful.step a.text).2 ↔
      (∃ argument, Command.ofLine a.text = .limit argument) ∨ ∀ w ∈ a.rows, s.NoVariable w) ∧
    ((s.step a.text).2 ≠ (s.forgetful.step a.text).2 → ∃ message v,
      (s.step a.text).2.result = .ok (some message) ∧ TellsError message ∧
        Expr.valueOf s.settings.dialect a.text = .ok v ∧
        (s.forgetful.step a.text).2.result = .ok (some (s.shown v))) := by
  have hsame : (∃ argument, Command.ofLine a.text = .limit argument) ∨
      (∀ w ∈ a.rows, s.NoVariable w) → (s.step a.text).2 = (s.forgetful.step a.text).2 := by
    rintro (⟨argument, h⟩ | h)
    · exact step_of_limit h
    · rcases ofLine_formula a with hline | ⟨argument, hline⟩
      · exact step_of_substitute hline
          ((substitute_formula h).trans (substitute_forgetful a).symm)
      · exact step_of_limit hline
  have hdiffer : ¬ ((∃ argument, Command.ofLine a.text = .limit argument) ∨
      ∀ w ∈ a.rows, s.NoVariable w) → ∃ message v,
        (s.step a.text).2.result = .ok (some message) ∧ TellsError message ∧
          Expr.valueOf s.settings.dialect a.text = .ok v ∧
          (s.forgetful.step a.text).2.result = .ok (some (s.shown v)) := by
    intro h
    obtain ⟨hlimit, hrows⟩ := not_or.1 h
    exact answer_of_variable ((ofLine_formula a).resolve_right hlimit) (by simpa using hrows)
  refine ⟨⟨fun heq => ?_, hsame⟩, fun hne => hdiffer (mt hsame hne)⟩
  by_contra h
  obtain ⟨message, v, hanswer, htells, -, hshown⟩ := hdiffer h
  rw [heq, hshown] at hanswer
  cases hanswer
  exact not_tellsError_shown s v htells

/-- The hexadecimal session in which a variable has the name of a digit. -/
def fiveInA : Session := (hexadecimal.step "a = 5".toList).1

/-- One and ten sixteenths. -/
def onePointA : PointNumeral fiveInA.settings.dialect where
  whole := ['1']
  fraction := ['a']
  period := none
  isDigitRow_whole := ⟨by decide, forall_of_all (by decide +kernel)⟩
  isDigitRow_fraction := ⟨by decide, forall_of_all (by decide +kernel)⟩
  isDigitRow_period := fun _ h => nomatch h

/-- A digit of a hexadecimal numeral is taken for a variable. -/
theorem digit_as_variable :
    Session.ofRecord [("input_base", .int 16)] = .ok hexadecimal ∧
      (hexadecimal.step "a = 5".toList).2.result = .ok (some "a = 5".toList) ∧
      (Formula.numeral onePointA).text = "1.a".toList ∧
      (fiveInA.step "1.a".toList).2.result =
        .ok (some "Error: Unexpected token at end: (5)".toList) ∧
      (fiveInA.forgetful.step "1.a".toList).2.result = .ok (some "1.625#0 (13/8)".toList) ∧
      (fiveInA.step "1.a".toList).2 ≠ (fiveInA.forgetful.step "1.a".toList).2 := by
  have hline : Command.ofLine "1.a".toList = .evaluate "1.a".toList := by decide
  have hne : (fiveInA.step "1.a".toList).2 ≠ (fiveInA.forgetful.step "1.a".toList).2 := by
    intro heq
    rcases (formula_answer fiveInA (.numeral onePointA)).1.1 heq with ⟨argument, h⟩ | h
    · cases hline.symm.trans h
    · have hnone := h ['a'] (by simp [Formula.rows, PointNumeral.rows, onePointA]) 'a' rfl rfl
      have hfive : fiveInA.value? 'a' = some (.plain (.integer 5)) := by decide
      cases hnone.symm.trans hfive
  exact ⟨rfl, by decide, rfl, by decide +kernel, by decide +kernel, hne⟩

end Session

end RatCalc

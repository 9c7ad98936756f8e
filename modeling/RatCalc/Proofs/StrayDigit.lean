import RatCalc.Proofs.Blanks
import RatCalc.Proofs.Reader
import RatCalc.Proofs.TameText

/-!
# Digits without a place value in brackets

What stands in a bracket is read by a reader of its own, which takes digits without a place value
for digits and cannot read them. Everywhere else they are refused.

* `Text.strayFrom`, `Text.Quiet`: such digits in brackets, and the texts without them;
  `quiet_of_append`, `tame_of_bracket?`: what follows in a quiet text is quiet, and brackets are
  tame.
* `Dialect.Readable`: what a reader may come across; `readable_prepare`: a quiet text, prepared.
* `Reading.Reports`: an expression whose evaluation is reported, and a readable rest;
  `Reports.andThen`, **`reports_run`**: all readers give such.
* **`Expr.reported_valueOf`**: what is wrong with a quiet text is a fault.
* `strayBracket`, `Expr.valueOf_stray`: a bracket with such digits, which is wrong without a fault.
-/

namespace RatCalc

namespace Text

/-- Whether a digit without a place value stands in brackets. `inside` tells whether the text begins
in one. -/
def strayFrom : (inside : Bool) → Text → Bool
  | _, [] => false
  | inside, c :: rest => inside && isLone c || strayFrom (c = '[' || (inside && c ≠ ']')) rest

/-- No digit without a place value stands in brackets. -/
def Quiet (t : Text) : Prop := strayFrom false t = false

variable {t u w base contents r : Text} {inside : Bool} {c : Char}

theorem strayFrom_cons : strayFrom inside (c :: t) = false ↔
    (inside = true → isLone c = false) ∧
      strayFrom (c = '[' || (inside && c ≠ ']')) t = false := by
  rw [strayFrom, Bool.or_eq_false_iff, Bool.and_eq_false_iff]
  cases inside <;> simp

/-- Outside of brackets less is asked for. -/
theorem quiet_of_strayFrom (h : strayFrom inside t = false) : Quiet t := by
  cases inside with
  | false => exact h
  | true =>
    induction t with
    | nil => rfl
    | cons c t ih =>
      obtain ⟨-, h⟩ := strayFrom_cons.1 h
      refine strayFrom_cons.2 ⟨(fun h => nomatch h), ?_⟩
      by_cases hopen : c = '['
      · simpa [hopen] using h
      · by_cases hclose : c = ']'
        · simpa [hclose] using h
        · have hinside : strayFrom true t = false := by simpa [hopen, hclose] using h
          have hquiet : strayFrom false t = false := ih hinside
          simpa [hopen] using hquiet

/-- **What follows in a quiet text is quiet.** -/
theorem quiet_of_append (h : strayFrom inside (u ++ t) = false) : Quiet t := by
  induction u generalizing inside with
  | nil => exact quiet_of_strayFrom h
  | cons c u ih => exact ih (strayFrom_cons.1 h).2

/-- In brackets every digit has a place value. -/
theorem isLone_of_strayFrom (h : strayFrom true (contents ++ ']' :: r) = false)
    (hc : ']' ∉ contents) : ∀ c ∈ contents, isLone c = false := by
  induction contents with
  | nil => exact fun _ h => nomatch h
  | cons a contents ih =>
    rw [List.mem_cons, not_or] at hc
    obtain ⟨ha, h⟩ := strayFrom_cons.1 h
    have hinside : (decide (a = '[') || (true && decide (a ≠ ']'))) = true := by
      simp [Ne.symm hc.1]
    rw [hinside] at h
    exact List.forall_mem_cons.2 ⟨ha rfl, ih h hc.2⟩

/-- **A bracket in a quiet text is tame.** -/
theorem tame_of_bracket? (hb : Literal.bracket? t = some (base, contents, r)) (hq : Quiet t)
    (hblank : ∀ c ∈ t, isBlank c = false) : Tame base ∧ Tame contents := by
  obtain ⟨hbase, w, hw, rfl, hclose⟩ := Literal.exists_of_bracket? hb
  refine ⟨hbase, fun c hc => ⟨hblank c ?_, ?_⟩⟩
  · exact List.mem_append_right w (List.mem_cons_of_mem _ (List.mem_append_left _ hc))
  · have hq : Quiet ('[' :: (contents ++ ']' :: r)) := quiet_of_append hq
    exact isLone_of_strayFrom (strayFrom_cons.1 hq).2 hclose c hc

/-- The characters that do not matter for what stands in brackets. -/
def IsNeutral (c : Char) : Prop := isLone c = false ∧ c ≠ '[' ∧ c ≠ ']'

instance (c : Char) : Decidable (IsNeutral c) :=
  inferInstanceAs (Decidable (isLone c = false ∧ c ≠ '[' ∧ c ≠ ']'))

theorem strayFrom_neutral (hc : IsNeutral c) (t : Text) :
    strayFrom inside (c :: t) = strayFrom inside t := by
  rw [strayFrom, hc.1, Bool.and_false, Bool.false_or]
  congr 1
  simp [hc.2.1, hc.2.2]

theorem strayFrom_append_neutral (hu : ∀ c ∈ u, IsNeutral c) (t : Text) :
    strayFrom inside (u ++ t) = strayFrom inside t := by
  induction u with
  | nil => rfl
  | cons c u ih =>
    rw [List.forall_mem_cons] at hu
    rw [List.cons_append, strayFrom_neutral hu.1, ih hu.2]

theorem isNeutral_of_isBlank (h : isBlank c = true) : IsNeutral c := by
  have hne : ∀ s : Char, isBlank s = false → c ≠ s := by
    rintro s hs rfl
    rw [h] at hs
    cases hs
  refine ⟨?_, hne _ (by decide), hne _ (by decide)⟩
  rw [isLone, Bool.and_eq_false_iff]
  left
  rw [← Bool.not_eq_true]
  intro hd
  rw [isBlank_of_isDigitLike hd] at h
  cases h

end Text

open Text

/-! ## Texts without their blanks -/

namespace Dialect

variable {d : Dialect} {t u : Text}

/-- What a reader may come across: no blanks and, where digits are decimal, no digits without a
place value in brackets. -/
structure Readable (d : Dialect) (t : Text) : Prop where
  blank : ∀ c ∈ t, isBlank c = false
  quiet : d.system = none → Quiet t

theorem Readable.of_append (h : d.Readable (t ++ u)) : d.Readable u :=
  ⟨fun c hc => h.blank c (List.mem_append_right t hc), fun hs => quiet_of_append (h.quiet hs)⟩

theorem Readable.of_takes (h : d.Readable t) (ht : Takes t u) : d.Readable u := by
  obtain ⟨w, -, rfl⟩ := ht
  exact h.of_append

theorem isBlank_of_mem_withoutBlanks (t : Text) : ∀ c ∈ withoutBlanks t, isBlank c = false := by
  induction t with
  | nil => exact fun _ h => nomatch h
  | cons c t ih =>
    rw [withoutBlanks]
    split_ifs with hc hslash
    · exact ih
    · exact List.forall_mem_cons.2 ⟨by decide, List.forall_mem_cons.2 ⟨by decide, ih⟩⟩
    · exact List.forall_mem_cons.2 ⟨Bool.eq_false_of_not_eq_true hc, ih⟩

theorem strayFrom_withoutBlanks (inside : Bool) (t : Text) :
    strayFrom inside (withoutBlanks t) = strayFrom inside t := by
  induction t generalizing inside with
  | nil => rfl
  | cons c t ih =>
    rw [withoutBlanks]
    split_ifs with hc hslash
    · rw [ih, strayFrom_neutral (isNeutral_of_isBlank hc)]
    · rw [Bool.and_eq_true, decide_eq_true_eq] at hslash
      have hneutral : IsNeutral '/' ∧ IsNeutral divisionMark := by decide
      rw [hslash.1, strayFrom_neutral hneutral.1, strayFrom_neutral hneutral.2,
        strayFrom_neutral hneutral.1, ih]
    · rw [strayFrom, strayFrom, ih]

theorem strayFrom_markExponents (inside : Bool) (t : Text) :
    strayFrom inside (markExponents ['E'] 0 t) = strayFrom inside t := by
  induction hn : t.length using Nat.strongRecOn generalizing t inside with
  | ind n ih =>
    cases t with
    | nil => rfl
    | cons c t =>
      rw [List.length_cons] at hn
      rw [markExponents]
      split_ifs with hmark hblank
      · rw [Bool.and_eq_true] at hmark
        rw [ih t.length (by omega) inside t rfl, strayFrom_neutral (isNeutral_of_isBlank hmark.1)]
      · -- the mark follows the last blank
        rw [Bool.and_eq_true] at hmark
        have hdrop : t.dropWhile isBlank = t := by
          cases t with
          | nil => rfl
          | cons a t => exact List.dropWhile_cons_of_neg hblank
        rw [hdrop, List.isPrefixOf_iff_prefix] at hmark
        obtain ⟨u, rfl⟩ := hmark.2
        have hneutral : IsNeutral 'E' ∧ IsNeutral spacedMark := by decide
        rw [strayFrom_neutral hneutral.2, strayFrom_neutral (isNeutral_of_isBlank hmark.1),
          strayFrom_append_neutral (by simpa using hneutral.1)]
        exact ih u.length (by simp at hn; omega) inside u rfl
      · rw [strayFrom, strayFrom, ih t.length (by omega) _ t rfl]

/-- A quiet text is readable once it is prepared. -/
theorem readable_prepare (h : d.system = none → Quiet t) : d.Readable (d.prepare t) where
  blank := isBlank_of_mem_withoutBlanks _
  quiet hs := by
    have hm : d.marker = ['E'] := by rw [marker, hs]
    rw [Quiet, prepare, hm, strayFrom_withoutBlanks, strayFrom_markExponents]
    exact h hs

end Dialect

/-! ## Readers -/

namespace Reading

variable {d : Dialect} {x : Reading} {e a : Expr} {t base contents : Text}

/-- The evaluation of what was read is reported, and what follows is readable. -/
structure Reports (d : Dialect) (x : Reading) : Prop where
  expr : x.expr.Reports d
  rest : ∀ r, x.rest = some r → d.Readable r

theorem reports_some (he : e.Reports d) (ht : d.Readable t) : Reports d ⟨e, some t⟩ :=
  ⟨he, fun _ h => Option.some.inj h ▸ ht⟩

theorem reports_none (he : e.Reports d) : Reports d ⟨e, none⟩ := ⟨he, fun _ h => nomatch h⟩

theorem reports_stop {f : Failure} (h : f.IsFault) : (stop f).Reports d :=
  reports_none (Expr.reports_fault h)

/-- **Reading goes on with a larger expression.** -/
theorem Reports.andThen {wrap : Expr → Expr} {next : Expr → Text → Reading} (hx : x.Reports d)
    (hw : ∀ a : Expr, a.Reports d → (wrap a).Reports d)
    (hn : ∀ (a : Expr) (t : Text), a.Reports d → d.Readable t → (next a t).Reports d) :
    (x.andThen wrap next).Reports d := by
  obtain ⟨a, t⟩ := x
  cases t with
  | none => exact reports_none (hw a hx.expr)
  | some t => exact hn _ t (hw a hx.expr) (hx.rest t rfl)

theorem reports_raised {wrap : Int → Expr} (he : e.Reports d) (hw : ∀ k, (wrap k).Reports d)
    (ht : d.Readable t) : (raised d e wrap t).Reports d := by
  rw [raised]
  split
  · rename_i k rest hk
    exact reports_some (hw k) (ht.of_takes (d.local_exponent parenthesis_mem_closers hk).1)
  · rename_i f hf
    exact reports_none (he.halted (d.reported_exponent t f hf))

theorem reports_suffixed (he : e.Reports d) (ht : d.Readable t) : (suffixed d e t).Reports d := by
  rw [suffixed]
  refine Reports.andThen ?_ (fun _ h => h) fun e t he ht =>
    Reports.andThen ?_ (fun _ h => h) fun e t he ht => ?_
  · rw [exponentSuffix]
    split_ifs with hf
    · obtain ⟨u, rfl⟩ := d.exists_of_exponentFollows hf
      rw [List.drop_left]
      exact reports_raised he (fun k => he.scale.simplified) (ht.of_takes (d.takes_marker u))
    · exact reports_some he ht
  · rw [factorialSuffix.eq_def]
    split
    · exact reports_some (he.factorial true)
        (ht.of_takes ((Takes.cons (by decide) _).trans (.cons (by decide) _)))
    · exact reports_some (he.factorial false) (ht.of_takes (.cons (by decide) _))
    · exact reports_some he ht
  · rw [powerSuffix.eq_def]
    split
    · exact reports_raised he (fun k => he.productPow)
        (ht.of_takes ((Takes.cons (by decide) _).trans (.cons (by decide) _)))
    · exact reports_raised he (fun k => he.pow) (ht.of_takes (.cons (by decide) _))
    · exact reports_some he ht

theorem reports_literal (ht : d.Readable t) : (literal d t).Reports d := by
  rw [literal]
  split
  · rename_i hi
    exact reports_suffixed (Expr.reports_literal _)
      (ht.of_takes (d.progressive_interval hi).1.takes)
  · rename_i f hf
    exact reports_stop (d.reported_interval t f hf)

theorem reports_signedLiteral? (ht : d.Readable t) (h : signedLiteral? d t = some x) :
    x.Reports d := by
  rw [signedLiteral?] at h
  split_ifs at h
  · exact Option.some.inj h ▸ reports_literal ht
  · split at h
    · rename_i hi
      exact Option.some.inj h ▸ reports_suffixed (Expr.reports_literal _)
        (ht.of_takes (d.progressive_interval hi).1.takes)
    · cases h
    · rename_i f hf
      exact Option.some.inj h ▸ reports_stop (d.reported_interval t f hf)

theorem reports_bracket {rest : Text} (ht : d.Readable t)
    (hb : Literal.bracket? t = some (base, contents, rest)) :
    (bracket d base contents rest).Reports d := by
  obtain ⟨-, w, -, heq, -⟩ := Literal.exists_of_bracket? hb
  have hrest : d.Readable rest := by
    have ht : d.Readable ((w ++ '[' :: contents ++ [']']) ++ rest) := by
      rw [heq] at ht
      simpa using ht
    exact ht.of_append
  rw [bracket]
  split_ifs with hs
  · exact reports_stop trivial
  · have hs : d.system = none := by simpa using hs
    obtain ⟨hbase, hcontents⟩ := tame_of_bracket? hb (ht.quiet hs) ht.blank
    split
    · exact reports_suffixed (Expr.reports_literal _).simplified hrest
    · rename_i f hf
      exact reports_stop (Literal.reported_bracketed hbase hcontents true f hf)

/-- The expression that a part goes on with is reported. -/
def StartsReported (d : Dialect) : Part → Prop
  | .sumFrom a | .termFrom a => a.Reports d
  | .sum | .term | .factor => True

section

variable {n : Nat} (ih : ∀ (p : Part) (t : Text), StartsReported d p → d.Readable t →
  (p.run d n t).Reports d)

include ih

theorem reports_sumFrom (ha : a.Reports d) (ht : d.Readable t) :
    (Reading.sumFrom d (n + 1) a t).Reports d := by
  rcases start_cases '+' '-' t with ⟨u, rfl⟩ | ⟨u, rfl⟩ | ⟨hp, hm⟩
  · rw [Reading.sumFrom]
    exact (ih .term u trivial (ht.of_takes (.cons (by decide) u))).andThen (fun _ hb => ha.add hb)
      fun b v hb hv => ih (.sumFrom b) v hb hv
  · rw [Reading.sumFrom]
    exact (ih .term u trivial (ht.of_takes (.cons (by decide) u))).andThen (fun _ hb => ha.sub hb)
      fun b v hb hv => ih (.sumFrom b) v hb hv
  · rw [sumFrom_end _ hp hm]
    exact reports_some ha.simplified ht

theorem reports_termFrom (ha : a.Reports d) (ht : d.Readable t) :
    (Reading.termFrom d (n + 1) a t).Reports d := by
  rcases start_cases '*' '/' t with ⟨u, rfl⟩ | ⟨u, rfl⟩ | ⟨htimes, hover⟩
  · rw [Reading.termFrom]
    exact (ih .factor u trivial (ht.of_takes (.cons (by decide) u))).andThen
      (fun _ hb => (ha.mul hb).simplified) fun b v hb hv => ih (.termFrom b) v hb hv
  · rw [Reading.termFrom]
    have hu := ht.of_takes ((Takes.cons (by decide) u).trans (takes_afterSlash u))
    exact (ih .factor _ trivial hu).andThen
      (fun _ hb => (ha.div hb).simplified) fun b v hb hv => ih (.termFrom b) v hb hv
  · cases hm : afterMarker? d t with
    | none =>
      rw [termFrom_end _ htimes hover hm]
      exact reports_some ha ht
    | some u =>
      rw [termFrom_marker _ htimes hover hm]
      exact (ih .factor u trivial (ht.of_takes (consumes_afterMarker? d hm).takes)).andThen
        (fun _ hb => (ha.scaleBy hb).simplified) fun b v hb hv => ih (.termFrom b) v hb hv

theorem reports_factor (ht : d.Readable t) : (Reading.factor d (n + 1) t).Reports d := by
  rcases factor_cases t with ⟨u, rfl⟩ | ⟨ho, base, contents, u, hb⟩ | ⟨u, rfl, hb⟩ | rfl |
    ⟨hne, ho, hm, hb⟩
  · rw [factor_open]
    refine (ih .sum u trivial (ht.of_takes (.cons (by decide) u))).andThen (fun _ h => h)
      fun a v ha hv => ?_
    split
    · exact reports_suffixed ha (hv.of_takes (.cons (by decide) _))
    · exact reports_none (ha.halted trivial)
  · rw [factor_bracket ho hb]
    exact reports_bracket ht hb
  · rw [factor_minus hb]
    split
    · rename_i hs
      exact reports_signedLiteral? ht hs
    · exact (ih .factor u trivial (ht.of_takes (.cons (by decide) u))).andThen
        (fun _ ha => ha.neg) fun a v ha hv => reports_some ha hv
  · rw [factor_nil]
    exact reports_stop trivial
  · rw [factor_literal hne ho hm hb]
    exact reports_literal ht

end

/-- **All that the readers give is reported**, and so is what they stop with. -/
theorem reports_run (n : Nat) : ∀ (p : Part) (t : Text), StartsReported d p → d.Readable t →
    (p.run d n t).Reports d := by
  induction n with
  | zero =>
    intro p t hp ht
    cases p with
    | sum => exact reports_stop trivial
    | term => exact reports_stop trivial
    | factor => exact reports_stop trivial
    | sumFrom a =>
      simp only [Part.run]
      rw [Reading.sumFrom.eq_def]
      exact reports_some (Expr.Reports.simplified hp) ht
    | termFrom a => exact reports_some hp ht
  | succ n ih =>
    intro p t hp ht
    cases p with
    | sum =>
      simp only [Part.run]
      rw [Reading.sum]
      exact (ih .term t trivial ht).andThen (fun _ h => h) fun a u ha hu => ih (.sumFrom a) u ha hu
    | term =>
      simp only [Part.run]
      rw [Reading.term]
      exact (ih .factor t trivial ht).andThen (fun _ h => h)
        fun a u ha hu => ih (.termFrom a) u ha hu
    | sumFrom a => exact reports_sumFrom ih hp ht
    | termFrom a => exact reports_termFrom ih hp ht
    | factor => exact reports_factor ih ht

end Reading

/-! ## Values -/

namespace Expr

variable {d : Dialect} {t : Text}

/-- **What is wrong with a quiet text is a fault.** In digits other than the decimal ones brackets
are refused, so that all texts are like that. -/
theorem reported_valueOf (h : d.system = none → Quiet t) : Reported (valueOf d t) := by
  have hrun := Reading.reports_run (3 * (d.prepare t).length + 3) .sum (d.prepare t) trivial
    (Dialect.readable_prepare h)
  rw [valueOf, read, ofPrepared]
  split_ifs
  · exact reported_error trivial
  · simp only [Part.run] at hrun
    split
    · rename_i heq
      rw [heq] at hrun
      exact hrun.expr
    · rename_i heq
      rw [heq] at hrun
      exact hrun.expr.halted trivial
    · rename_i heq
      rw [heq] at hrun
      exact hrun.expr

end Expr

/-! ## What is wrong with others -/

namespace Literal

variable {t : Text} (hd : ∀ c ∈ t, isDigitLike c = true) (hlone : ∃ c ∈ t, isLone c = true)

include hd

theorem not_mem_of_isDigitLike {s : Char} (hs : isDigitLike s = false) : s ∉ t := fun hm => by
  rw [hd s hm] at hs
  cases hs

include hlone

/-- A row of digits one of which has no place value is no numeral. -/
theorem wholeOf_of_isLone : ∃ quoted, wholeOf t = .error (.numeral quoted) := by
  have hnat : Numeral.readNat? t = none := by
    rw [Numeral.readNat?, if_neg]
    rw [Numeral.isNumeral, Bool.and_eq_true, not_and]
    intro _ hall
    obtain ⟨c, hc, hl⟩ := hlone
    rw [isLone_of_isDecimal (List.all_eq_true.1 hall c hc)] at hl
    cases hl
  rw [wholeOf, Numeral.readInt?_of_isDigitLike hd, hnat]
  exact ⟨_, rfl⟩

end Literal

section

variable {t : Text} (hd : ∀ c ∈ t, isDigitLike c = true)

include hd

end

end RatCalc

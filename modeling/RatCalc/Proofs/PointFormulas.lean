import RatCalc.Proofs.PositionalLiteral

/-!
# Formulas of numerals with a point

Sums, differences and products of numerals with a point, such as `1.a*(2.5#3-c.0)`.

* `PointNumeral`, `Formula`: the numerals, and what they are joined to by operators and parentheses;
  `Formula.text`, `Formula.rows`: how a formula is written, and its rows of digits.
* `EndsOperand`: what may follow an operand; `PointNumeral.exists_reads`: a numeral is read up to
  it.
* `SumTail`, `TermTail`, `OperandTail`: texts that go on a sum, a term, or with an operand, to a
  rest, without failing.
* **`Formula.exists_value`**: with digits of another base every formula has a value.
-/

namespace RatCalc

open Text Reading

/-- Digits of expressions in a row. -/
structure Dialect.IsDigitRow (d : Dialect) (w : Text) : Prop where
  ne_nil : w ≠ []
  isDigit : ∀ c ∈ w, d.isDigit c = true

/-- A numeral with a point, and with a period or without. -/
structure PointNumeral (d : Dialect) where
  whole : Text
  fraction : Text
  period : Option Text
  isDigitRow_whole : d.IsDigitRow whole
  isDigitRow_fraction : d.IsDigitRow fraction
  isDigitRow_period : ∀ p ∈ period, d.IsDigitRow p

/-- Numerals with a point that operators other than the slash and parentheses join. -/
inductive Formula (d : Dialect) where
  | numeral (n : PointNumeral d)
  | parens (a : Formula d)
  | joined (a : Formula d) (op : Operator) (hop : op ≠ .slash) (b : Formula d)

variable {d : Dialect}

namespace PointNumeral

/-- The period as it is written. -/
def periodText (n : PointNumeral d) : Text :=
  match n.period with
  | some p => '#' :: p
  | none => []

/-- The numeral as it is written. -/
def text (n : PointNumeral d) : Text := n.whole ++ '.' :: (n.fraction ++ n.periodText)

/-- The rows of digits of a numeral. -/
def rows (n : PointNumeral d) : List Text := n.whole :: n.fraction :: n.period.toList

theorem isDigitRow (n : PointNumeral d) : ∀ w ∈ n.rows, d.IsDigitRow w := by
  rw [rows, List.forall_mem_cons, List.forall_mem_cons]
  exact ⟨n.isDigitRow_whole, n.isDigitRow_fraction, fun p hp =>
    n.isDigitRow_period p (Option.mem_toList.1 hp)⟩

theorem mem_text {n : PointNumeral d} {c : Char} (h : c ∈ n.text) :
    d.isDigit c = true ∨ c ∈ ['.', '#'] := by
  rw [text, List.mem_append, List.mem_cons, List.mem_append] at h
  rcases h with h | rfl | h | h
  · exact .inl (n.isDigitRow_whole.isDigit c h)
  · exact .inr (by decide)
  · exact .inl (n.isDigitRow_fraction.isDigit c h)
  · rw [periodText] at h
    split at h
    · rename_i p hp
      exact (List.mem_cons.1 h).elim (fun h => .inr (by rw [h]; decide)) fun h =>
        .inl ((n.isDigitRow_period p hp).isDigit c h)
    · cases h

theorem exists_text_eq_cons (n : PointNumeral d) : ∃ c u, n.text = c :: u ∧ d.isDigit c = true := by
  obtain ⟨c, w, hw⟩ := List.exists_cons_of_ne_nil n.isDigitRow_whole.ne_nil
  refine ⟨c, _, by rw [text, hw]; rfl, ?_⟩
  exact n.isDigitRow_whole.isDigit c (hw ▸ List.mem_cons_self)

end PointNumeral

namespace Formula

/-- The formula as it is written. -/
def text : Formula d → Text
  | numeral n => n.text
  | parens a => '(' :: (a.text ++ [')'])
  | joined a op _ b => a.text ++ op.char :: b.text

/-- The rows of digits of a formula. -/
def rows : Formula d → List Text
  | numeral n => n.rows
  | parens a => a.rows
  | joined a _ _ b => a.rows ++ b.rows

theorem isDigitRow (a : Formula d) : ∀ w ∈ a.rows, d.IsDigitRow w := by
  induction a with
  | numeral n => exact n.isDigitRow
  | parens a ih => exact ih
  | joined a op hop b iha ihb => exact List.forall_mem_append.2 ⟨iha, ihb⟩

theorem char_mem {op : Operator} (hop : op ≠ .slash) : op.char ∈ ['+', '-', '*'] := by
  cases op with
  | slash => exact absurd rfl hop
  | _ => decide

theorem mem_text {a : Formula d} {c : Char} (h : c ∈ a.text) :
    d.isDigit c = true ∨ c ∈ ['.', '#', '(', ')', '+', '-', '*'] := by
  induction a with
  | numeral n => exact (PointNumeral.mem_text h).imp_right (List.mem_append_left _)
  | parens a ih =>
    rw [text, List.mem_cons, List.mem_append, List.mem_singleton] at h
    rcases h with rfl | h | rfl
    · exact .inr (by decide)
    · exact ih h
    · exact .inr (by decide)
  | joined a op hop b iha ihb =>
    rw [text, List.mem_append, List.mem_cons] at h
    rcases h with h | rfl | h
    · exact iha h
    · exact .inr (List.mem_append_right ['.', '#', '(', ')'] (char_mem hop))
    · exact ihb h

theorem point_mem (a : Formula d) : '.' ∈ a.text := by
  induction a with
  | numeral n => exact List.mem_append_right _ List.mem_cons_self
  | parens a ih => exact List.mem_cons_of_mem _ (List.mem_append_left _ ih)
  | joined a op hop b iha => exact List.mem_append_left _ iha

theorem not_mem_text {a : Formula d} {c : Char} (hc : d.isDigit c = false)
    (hs : c ∉ ['.', '#', '(', ')', '+', '-', '*']) : c ∉ a.text := fun h => by
  rcases mem_text h with h | h
  · rw [hc] at h
    cases h
  · exact hs h

theorem isBlank_of_mem_text (hd : d.IsStandard) (a : Formula d) : ∀ c ∈ a.text, isBlank c = false :=
  fun c hc => (mem_text hc).elim (isBlank_of_isDigit hd)
    (forall_of_all (P := fun c => isBlank c = false) (by decide) c)

theorem exists_text_eq_cons (a : Formula d) :
    ∃ c u, a.text = c :: u ∧ (d.isDigit c = true ∨ c = '(') := by
  induction a with
  | numeral n =>
    obtain ⟨c, u, hn, hc⟩ := n.exists_text_eq_cons
    exact ⟨c, u, hn, .inl hc⟩
  | parens a => exact ⟨'(', _, rfl, .inr rfl⟩
  | joined a op hop b iha =>
    obtain ⟨c, u, ha, hc⟩ := iha
    exact ⟨c, _, by rw [text, ha]; rfl, hc⟩

end Formula

/-! ## Operands -/

/-- What may follow an operand: nothing, a closing parenthesis, or an operator that is no part of a
longer one. -/
structure EndsOperand (t : Text) : Prop where
  head : ∀ c u, t = c :: u → c ∈ [')', '+', '-', '*']
  single : ∀ u, t ≠ '*' :: '*' :: u
  noBracket : '[' ∉ t

namespace EndsOperand

variable {t : Text}

theorem nil : EndsOperand [] where
  head _ _ h := nomatch h
  single _ h := nomatch h
  noBracket h := nomatch h

theorem close (h : EndsOperand t) : EndsOperand (')' :: t) where
  head c u hc := by
    rw [← (List.cons.inj hc).1]
    decide
  single u hu := absurd (List.cons.inj hu).1 (by decide)
  noBracket hm := (List.mem_cons.1 hm).elim (by decide) h.noBracket

/-- Before an operator and another formula. -/
theorem operator (h : EndsOperand t) {op : Operator} (hop : op ≠ .slash) (a : Formula d) :
    EndsOperand (op.char :: (a.text ++ t)) where
  head c u hc := by
    rw [← (List.cons.inj hc).1]
    exact List.mem_cons_of_mem _ (Formula.char_mem hop)
  single u hu := by
    obtain ⟨c, v, ha, hc⟩ := a.exists_text_eq_cons
    have hstar : c = '*' := by
      rw [ha] at hu
      exact (List.cons.inj (List.cons.inj hu).2).1
    rcases hc with hc | hc
    · rw [hstar, d.isDigit_of_reserved (by decide)] at hc
      cases hc
    · exact absurd (hstar.symm.trans hc) (by decide)
  noBracket hm := by
    rw [List.mem_cons, List.mem_append] at hm
    rcases hm with hm | hm | hm
    · exact absurd (hm ▸ Formula.char_mem hop) (by decide)
    · exact Formula.not_mem_text (d.isDigit_of_reserved (by decide)) (by decide) hm
    · exact h.noBracket hm

theorem ne_cons (h : EndsOperand t) {c : Char} (hc : c ∉ [')', '+', '-', '*']) (u : Text) :
    t ≠ c :: u := fun ht => hc (h.head c u ht)

theorem after? (h : EndsOperand t) (d : Dialect) : Text.after? d.marker t = none := by
  cases t with
  | nil => exact d.after?_marker_nil
  | cons c u =>
    refine d.after?_marker_cons ?_ u
    have hc := h.head c u rfl
    exact d.not_mem_marker (by rintro rfl; exact absurd hc (by decide))
      (by rintro rfl; exact absurd hc (by decide)) (by rintro rfl; exact absurd hc (by decide))

/-- Nothing of it belongs to the operand. -/
theorem suffixed (h : EndsOperand t) (e : Expr) : suffixed d e t = ⟨e, some t⟩ := by
  have hfactorial : factorialSuffix e t = ⟨e, some t⟩ := by
    rw [factorialSuffix.eq_def]
    split
    · exact absurd rfl (h.ne_cons (by decide) _)
    · exact absurd rfl (h.ne_cons (by decide) _)
    · rfl
  rw [suffixed_of_after? (h.after? d), hfactorial]
  simp only [Reading.andThen, id]
  rw [powerSuffix.eq_def]
  split
  · exact absurd rfl (h.single _)
  · exact absurd rfl (h.ne_cons (by decide) _)
  · rfl

end EndsOperand

section

variable {s : NumeralSystem} (hs : d.system = some s) {t r : Text}

include hs

/-- A number that no colon and no exponent follow is an operand, in both modes. -/
theorem Dialect.exists_interval_of_endpoint {x : Endpoint} (hx : d.endpoint t = .ok (x, r))
    (hf : d.exponentFollows r = false) (hcolon : ∀ u, r ≠ ':' :: u) :
    ∃ v, d.interval t = .ok ((v, false), r) := by
  by_cases hcert : d.Certain t
  · exact ⟨_, Dialect.interval_single hcert (d.scaledEndpoint_of_not_follows hx hf true) hcolon⟩
  · rw [Dialect.Certain, not_or, Bool.not_eq_true] at hcert
    obtain ⟨hexact, hp⟩ := hcert
    obtain ⟨⟨negative, literal, places, rest⟩, hp⟩ := Option.ne_none_iff_exists'.1 hp
    obtain ⟨y, hy⟩ : ∃ y, d.uncertain t negative literal places rest = .ok (y, r) := by
      rw [Dialect.uncertain, hs]
      simp only
      rw [bind_of_ok hx]
      exact ⟨_, rfl⟩
    exact ⟨_, Dialect.interval_uncertain hexact hp hy⟩

namespace PointNumeral

/-- A numeral has a value. -/
theorem exists_unsigned (n : PointNumeral d) (hr : EndsOperand r) :
    ∃ x, d.unsigned (n.text ++ r) = .ok (⟨x, false⟩, r) := by
  have hw := n.isDigitRow_whole.isDigit
  have hf := n.isDigitRow_fraction.isDigit
  have hne : n.whole ++ n.fraction ≠ [] :=
    List.append_ne_nil_of_left_ne_nil n.isDigitRow_whole.ne_nil _
  have htext : n.text ++ r = n.whole ++ '.' :: (n.fraction ++ (n.periodText ++ r)) := by
    simp [text]
  have hreserved : ∀ c v, r = c :: v → c ∈ NumeralSystem.reservedChars ∧ c ∉ ['.', '~'] :=
    fun c v hc => forall_of_all (P := fun c => c ∈ NumeralSystem.reservedChars ∧ c ∉ ['.', '~'])
      (by decide) c (hr.head c v hc)
  obtain ⟨ab, hab⟩ := exists_value (List.forall_mem_append.2 ⟨hw, hf⟩)
  rw [htext, periodText]
  cases hp : n.period with
  | none =>
    have hend : d.periodIn r = .ok (none, r) := by
      rw [Dialect.periodIn.eq_def]
      split
      · exact absurd rfl (hr.ne_cons (by decide) _)
      · rfl
    exact ⟨_, Dialect.unsigned_pointed hs hw hf none hreserved hend
      (Dialect.pointedValue_places hs hne hab)⟩
  | some p =>
    have hrow := n.isDigitRow_period p hp
    obtain ⟨c, hc⟩ := exists_value hrow.isDigit
    have hsharp : ∀ c v, '#' :: (p ++ r) = c :: v →
        c ∈ NumeralSystem.reservedChars ∧ c ∉ ['.', '~'] := by
      rintro c v ⟨⟩
      decide
    exact ⟨_, Dialect.unsigned_pointed hs hw hf (some p) hsharp
      (Dialect.periodIn_sharp hrow.isDigit hrow.ne_nil fun c v h => (hreserved c v h).1)
      (Dialect.pointedValue_period hs hrow.isDigit hne hrow.ne_nil hab hc)⟩

/-- **A numeral is read as an operand.** -/
theorem exists_reads (n : PointNumeral d) (hr : EndsOperand r) :
    ∃ v, Reads d .factor (n.text ++ r) (.literal v) r := by
  have hstart : ∀ {c : Char}, d.isDigit c = false → ∀ u, n.text ++ r ≠ c :: u := by
    intro c hc u hu
    obtain ⟨a, v, hn, ha⟩ := n.exists_text_eq_cons
    rw [hn] at hu
    rw [(List.cons.inj hu).1, hc] at ha
    cases ha
  have hopen : d.isDigit '(' = false := d.isDigit_of_reserved (by decide)
  have hminus : d.isDigit '-' = false := d.isDigit_of_reserved (by decide)
  obtain ⟨x, hx⟩ := n.exists_unsigned hs hr
  have hend : d.endpoint (n.text ++ r) = .ok (⟨x, false⟩, r) := by
    rw [d.endpoint_of_no_fraction fun h => absurd (h.symm.trans hs) (by simp), Dialect.signed_eq,
      minus_of_ne (hstart hminus)]
    simp only
    rw [hx]
    rfl
  have hbracket : '[' ∉ n.text ++ r := by
    rw [List.mem_append, not_or]
    exact ⟨Formula.not_mem_text (a := .numeral n) (d.isDigit_of_reserved (by decide)) (by decide),
      hr.noBracket⟩
  obtain ⟨v, hv⟩ := Dialect.exists_interval_of_endpoint hs hend
    (Dialect.exponentFollows_of_after? (hr.after? d)) (hr.ne_cons (by decide))
  refine ⟨v, .literal (hstart hopen) (hstart hminus)
    (Dialect.bracket?_of_not_mem hbracket) ?_⟩
  rw [Dialect.literal_of_interval hv, hr.suffixed]

end PointNumeral

end

/-! ## Tails -/

/-- The expression has a value. -/
def Expr.HasValue (d : Dialect) (e : Expr) : Prop := ∃ v, e.eval d = .ok v

namespace Expr.HasValue

variable {a b e : Expr}

/-- An operation on values that cannot fail has a value. -/
theorem operation (ha : a.HasValue d) (hb : b.HasValue d) {f : Value → Value → Value}
    (he : e.eval d = (do
      let v ← a.eval d
      let w ← b.eval d
      return f v w)) : e.HasValue d := by
  obtain ⟨v, hv⟩ := ha
  obtain ⟨w, hw⟩ := hb
  refine ⟨f v w, ?_⟩
  rw [he, hv, hw]
  rfl

theorem add (ha : a.HasValue d) (hb : b.HasValue d) : (add a b).HasValue d :=
  ha.operation hb (by rw [eval])

theorem sub (ha : a.HasValue d) (hb : b.HasValue d) : (sub a b).HasValue d :=
  ha.operation hb (by rw [eval])

theorem mul (ha : a.HasValue d) (hb : b.HasValue d) : (mul a b).HasValue d :=
  ha.operation hb (by rw [eval])

theorem simplified (ha : a.HasValue d) : (simplified a).HasValue d := by
  obtain ⟨v, hv⟩ := ha
  exact ⟨_, by rw [eval, hv]; rfl⟩

end Expr.HasValue

/-- The text goes on any sum up to the rest. -/
def SumTail (d : Dialect) (t r : Text) : Prop :=
  ∀ a : Expr, a.HasValue d → ∃ e, Reads d (.sumFrom a) t e r ∧ e.HasValue d

/-- The text goes on any term, and the sum behind it, up to the rest. -/
def TermTail (d : Dialect) (t r : Text) : Prop :=
  ∀ a : Expr, a.HasValue d → ∃ e u, Reads d (.termFrom a) t e u ∧ e.HasValue d ∧ SumTail d u r

/-- The text goes on with an operand, and the term and the sum behind it, up to the rest. -/
def OperandTail (d : Dialect) (t r : Text) : Prop :=
  ∃ a u, Reads d .factor t a u ∧ a.HasValue d ∧ TermTail d u r

section

variable {t r : Text}

theorem sumTail_refl (hp : ∀ u, t ≠ '+' :: u) (hm : ∀ u, t ≠ '-' :: u) : SumTail d t t :=
  fun _ ha => ⟨_, .sumEnd hp hm, ha.simplified⟩

theorem OperandTail.exists_term (h : OperandTail d t r) :
    ∃ e u, Reads d .term t e u ∧ e.HasValue d ∧ SumTail d u r := by
  obtain ⟨a, u, ha, hav, htail⟩ := h
  obtain ⟨e, v, he, hev, hsum⟩ := htail a hav
  exact ⟨e, v, .term ha he, hev, hsum⟩

theorem OperandTail.exists_sum (h : OperandTail d t r) :
    ∃ e, Reads d .sum t e r ∧ e.HasValue d := by
  obtain ⟨a, u, ha, hav, hsum⟩ := h.exists_term
  obtain ⟨e, he, hev⟩ := hsum a hav
  exact ⟨e, .sum ha he, hev⟩

/-- A term ends before a loose operator, and the operator goes on the sum. -/
theorem termTail_of_loose {op : Operator} (hop : op.isTight = false)
    (h : SumTail d (op.char :: t) r) : TermTail d (op.char :: t) r :=
  fun a ha => ⟨a, _, Row.reads_termFrom_loose hop a t, ha, h⟩

/-- **An operator and an operand go on a term or the sum.** -/
theorem OperandTail.operator (h : OperandTail d t r) {op : Operator} (hop : op ≠ .slash) :
    TermTail d (op.char :: t) r := by
  cases op with
  | plus =>
    refine termTail_of_loose rfl fun a ha => ?_
    obtain ⟨b, u, hb, hbv, hsum⟩ := h.exists_term
    obtain ⟨e, he, hev⟩ := hsum _ (ha.add hbv)
    exact ⟨e, .plus hb he, hev⟩
  | minus =>
    refine termTail_of_loose rfl fun a ha => ?_
    obtain ⟨b, u, hb, hbv, hsum⟩ := h.exists_term
    obtain ⟨e, he, hev⟩ := hsum _ (ha.sub hbv)
    exact ⟨e, .minus hb he, hev⟩
  | times =>
    intro a ha
    obtain ⟨b, u, hb, hbv, htail⟩ := h
    obtain ⟨e, v, he, hev, hsum⟩ := htail _ (ha.mul hbv).simplified
    exact ⟨e, v, .times hb he, hev, hsum⟩
  | slash => exact absurd rfl hop

theorem termTail_nil : TermTail d [] [] := fun a ha =>
  ⟨a, [], .termEnd (fun _ h => nomatch h) (fun _ h => nomatch h) rfl, ha,
    sumTail_refl (fun _ h => nomatch h) fun _ h => nomatch h⟩

theorem termTail_close (t : Text) : TermTail d (')' :: t) (')' :: t) := by
  have hne : ∀ {c : Char}, c ≠ ')' → ∀ u, ')' :: t ≠ c :: u := fun hc u hu =>
    hc (List.cons.inj hu).1.symm
  have hm : afterMarker? d (')' :: t) = none :=
    d.after?_marker_cons (d.not_mem_marker (by decide) (by decide) (by decide)) t
  exact fun a ha => ⟨a, _, .termEnd (hne (by decide)) (hne (by decide)) hm, ha,
    sumTail_refl (hne (by decide)) (hne (by decide))⟩

end

/-! ## Formulas -/

namespace Formula

variable {s : NumeralSystem} (hs : d.system = some s) {t r : Text}

include hs

/-- **A formula is read as its operands**, and what goes on the term and the sum behind it. -/
theorem operandTail (a : Formula d) (ht : EndsOperand t) (h : TermTail d t r) :
    OperandTail d (a.text ++ t) r := by
  -- what follows a formula is a part of the text around it, up to the end of that
  induction a generalizing t r with
  | numeral n =>
    obtain ⟨v, hv⟩ := n.exists_reads hs ht
    exact ⟨_, t, hv, ⟨v, rfl⟩, h⟩
  | parens a ih =>
    obtain ⟨e, he, hev⟩ := (ih ht.close (termTail_close t)).exists_sum
    refine ⟨e, t, ?_, hev, h⟩
    rw [text, List.cons_append, List.append_assoc]
    exact .group he (ht.suffixed e)
  | joined a op hop b iha ihb =>
    rw [text, List.append_assoc]
    exact iha (ht.operator hop b) ((ihb ht h).operator hop)

/-- **Every formula has a value.** -/
theorem exists_value (hd : d.IsStandard) (a : Formula d) : ∃ v, Expr.valueOf d a.text = .ok v := by
  obtain ⟨e, he, v, hv⟩ := (a.operandTail hs .nil termTail_nil).exists_sum
  rw [List.append_nil] at he
  refine ⟨v, Expr.valueOf_eq_ok_iff.2 ⟨e, ?_, hv⟩⟩
  rwa [d.prepare_of_no_blank (isBlank_of_mem_text hd a)]

end Formula

end RatCalc

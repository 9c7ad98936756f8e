import RatCalc.Proofs.Digits
import RatCalc.Proofs.Reader

/-!
# Numbers in expressions

* `Dialect.exactly`: exact evaluation with decimal digits.
* `Bare`: a text that begins with no minus sign and no bracket literal;
  `Bare.interval_of_error`, `Bare.not_reads_factor`: what is wrong with it as a number.
* `StartsNumber`: such a text that begins with a digit or a point;
  `factor_of_error`: what is wrong with it as a number is wrong with it as an operand.
* `SaysNumber`: such a text that is read as a number, with what follows the number.
* **`SaysNumber.reads_sum`**: with or without a sign it is read as an expression of that value;
  `SaysNumber.reads_sum_pair`: so are two with a colon between them.
-/

namespace RatCalc

open Text Expansion

/-- The endpoint of opposite sign, if there is a minus sign. -/
def Endpoint.signed (x : Endpoint) (negative : Bool) : Endpoint :=
  ⟨if negative then -x.value else x.value, x.kept⟩

theorem Number.simplest_simplest (a : Rat) :
    (Number.rational a).simplest.simplest = (Number.rational a).simplest := by
  rw [simplest, simplest.simplestRat]
  split_ifs with h
  · rfl
  · rw [simplest, simplest.simplestRat, if_neg h]

theorem Endpoint.shown_of_not_kept (a : Rat) :
    Endpoint.shown ⟨a, false⟩ = .plain (Number.rational a).simplest := by
  rw [shown, Number.simplest, Number.simplest.simplestRat]
  by_cases h : a.den = 1 <;> simp [h, Value.plain]

namespace Dialect

theorem signed_eq (d : Dialect) (t : Text) :
    d.signed t = (d.unsigned (minus t).2).map fun x => (x.1.signed (minus t).1, x.2) := by
  rcases minus_cases t with ⟨u, rfl, h⟩ | ⟨hno, h⟩
  · rw [h, signed]
    cases d.unsigned u <;> rfl
  · rw [h, signed]
    · cases d.unsigned t <;> rfl
    · exact hno

/-- Exact evaluation with decimal digits. -/
def exactly (letters : LetterTable) : Dialect := ⟨true, none, letters⟩

theorem negate_shown {d : Dialect} (hd : d.exact = true) (x : Endpoint) :
    d.negate x.shown = (x.signed true).shown := by
  rw [negate, hd, Endpoint.shown, Endpoint.shown, Endpoint.signed]
  simp only [if_true, Rat.neg_den, Rat.neg_num]
  split_ifs <;> rfl

theorem simplify_shown {d : Dialect} (hd : d.exact = true) (x : Endpoint) :
    d.simplify x.shown = x.shown := by
  rw [simplify, if_pos hd]
  obtain ⟨a, kept⟩ := x
  cases kept with
  | true => by_cases h : a.den = 1 <;> simp [Endpoint.shown, Value.demote]
  | false =>
    rw [Endpoint.shown_of_not_kept, Value.demote, Value.plain, if_neg Bool.false_ne_true,
      Number.simplest_simplest]
    rfl

variable (letters : LetterTable)

/-! ## Texts of numbers -/

/-- A text that begins with no minus sign, with no literal that has a bracket and with no continued
fraction. -/
structure Bare (t : Text) : Prop where
  noMinus : ∀ u, t ≠ '-' :: u
  noBracket : Reading.bracketContents? (Reading.bracketBase t).2 = none
  noFraction : ∀ u, t.dropWhile isDecimal ≠ '.' :: '~' :: u

/-- A text that begins with a digit or a point, but not with a literal that has a bracket and not
with a continued fraction. -/
structure StartsNumber (t : Text) : Prop where
  start : ∃ c u, t = c :: u ∧ (isDecimal c = true ∨ c = '.')
  noBracket : Reading.bracketContents? (Reading.bracketBase t).2 = none
  noFraction : ∀ u, t.dropWhile isDecimal ≠ '.' :: '~' :: u

/-- A text that begins with a plain digit. -/
def StartsPlain (t : Text) : Prop := ∃ c u, t = c :: u ∧ isPlainDigit c = true

theorem bracketContents?_of_ne {t : Text} (h : ∀ u, t ≠ '[' :: u) :
    Reading.bracketContents? t = none := by
  rw [Reading.bracketContents?.eq_def]
  split
  · exact absurd rfl (h _)
  · rfl

/-- A row of digits starts a number, if what follows goes on neither a decimal nor a bracket. -/
theorem startsNumber_digits {w v : Text} (hne : w ≠ []) (hw : ∀ c ∈ w, isDecimal c = true)
    (hv : ∀ c u, v = c :: u → isDecimal c = false) (hpoint : ∀ u, v ≠ '.' :: u)
    (hopen : ∀ u, v ≠ '[' :: u) : StartsNumber (w ++ v) where
  start := by
    cases w with
    | nil => exact absurd rfl hne
    | cons c w => exact ⟨c, w ++ v, rfl, .inl (hw c List.mem_cons_self)⟩
  noBracket := by
    rw [Reading.bracketBase, (span_append hw hv).2]
    split
    · exact absurd rfl (hpoint _)
    · exact bracketContents?_of_ne hopen
  noFraction u := by
    rw [(span_append hw hv).2]
    exact hpoint _

/-- Digits and a point start a number, if what follows goes on neither a continued fraction nor a
bracket. -/
theorem startsNumber_point {w u : Text} (hw : ∀ c ∈ w, isDecimal c = true)
    (htilde : ∀ v, u ≠ '~' :: v) (hopen : ∀ v, u.dropWhile isDecimal ≠ '[' :: v) :
    StartsNumber (w ++ '.' :: u) := by
  have hd : (w ++ '.' :: u).dropWhile isDecimal = '.' :: u :=
    (span_append hw fun c v h => by rw [← (List.cons.inj h).1]; decide).2
  refine ⟨?_, ?_, fun v h => ?_⟩
  · cases w with
    | nil => exact ⟨'.', u, rfl, .inr rfl⟩
    | cons c w => exact ⟨c, w ++ '.' :: u, rfl, .inl (hw c List.mem_cons_self)⟩
  · rw [Reading.bracketBase, hd]
    exact bracketContents?_of_ne hopen
  · rw [hd] at h
    exact htilde v (List.cons.inj h).2

/-- A text that begins with a number, and what follows the number. -/
structure SaysNumber (t : Text) (x : Endpoint) (rest : Text) : Prop extends StartsNumber t where
  unsigned : (exactly letters).unsigned t = .ok (x, rest)

variable {letters} {t rest : Text} {x : Endpoint}

namespace Bare

theorem minus_sign (h : Bare t) (negative : Bool) :
    minus (sign negative ++ t) = (negative, t) := by
  cases negative with
  | true => rfl
  | false => exact minus_of_ne h.noMinus

theorem continuedFraction? (h : Bare t) (negative : Bool) :
    continuedFraction? (sign negative ++ t) = none := by
  rw [continuedFraction?_eq, h.minus_sign]
  simp only
  split
  · rename_i heq
    exact absurd heq (h.noFraction _)
  · rfl

theorem endpoint (h : Bare t) (negative : Bool) :
    (exactly letters).endpoint (sign negative ++ t) =
      ((exactly letters).unsigned t).map fun x => (x.1.signed negative, x.2) := by
  rw [endpoint_of_no_fraction _ fun _ => h.continuedFraction? negative, signed_eq, h.minus_sign]

theorem bracket? (h : Bare t) (negative : Bool) :
    Literal.bracket? (sign negative ++ t) = none := by
  rw [Reading.bracket?_eq, h.minus_sign, h.noBracket]
  rfl

/-- What is wrong with a number is wrong with it as an operand. -/
theorem interval_of_error (h : Bare t) {f : Failure}
    (hf : (exactly letters).unsigned t = .error f) (negative : Bool) :
    (exactly letters).interval (sign negative ++ t) = .error f := by
  have he : (exactly letters).scaledEndpoint true (sign negative ++ t) = .error f := by
    rw [scaledEndpoint, h.endpoint, hf]
    rfl
  exact interval_error (.inl rfl) he

/-- So no operand is read, with or without a sign. -/
theorem not_reads_factor (h : Bare t) (hopen : ∀ u, t ≠ '(' :: u) {f : Failure}
    (hf : (exactly letters).unsigned t = .error f) (negative : Bool) (e : Expr) (r : Text) :
    ¬ Reads (exactly letters) .factor (sign negative ++ t) e r := by
  have hbare : ∀ e, ¬ Reads (exactly letters) .factor t e r := fun e he => by
    have hl := he.of_literal hopen h.noMinus (h.bracket? false)
    have hi := h.interval_of_error hf false
    change Dialect.interval _ t = _ at hi
    rw [Reading.literal, hi] at hl
    cases hl
  cases negative with
  | false => exact hbare e
  | true =>
    intro he
    have hb : Literal.bracket? ('-' :: t) = none := h.bracket? true
    have hc : Dialect.continuedFraction? ('-' :: t) = none := h.continuedFraction? true
    have hi := h.interval_of_error hf true
    change Dialect.interval _ ('-' :: t) = _ at hi
    rcases Reads.of_minus hb he with hs | ⟨-, a, -, ha⟩
    · rw [Reading.signedLiteral?, hc, hi] at hs
      simp only [Option.isSome_none, Bool.and_false, Bool.false_eq_true, if_false] at hs
      split_ifs at hs
      cases hs
    · exact hbare a ha

end Bare

namespace StartsNumber

theorem ne_cons (h : StartsNumber t) {c : Char} (hc : isDecimal c = false) (hp : c ≠ '.')
    (u : Text) : t ≠ c :: u := by
  obtain ⟨a, v, rfl, ha | rfl⟩ := h.start
  · intro heq
    rw [(List.cons.inj heq).1, hc] at ha
    cases ha
  · exact fun heq => hp (List.cons.inj heq).1.symm

theorem bare (h : StartsNumber t) : Bare t where
  noMinus := h.ne_cons (by decide) (by decide)
  noBracket := h.noBracket
  noFraction := h.noFraction

theorem minus_sign (h : StartsNumber t) (negative : Bool) :
    minus (sign negative ++ t) = (negative, t) := h.bare.minus_sign negative

theorem continuedFraction? (h : StartsNumber t) (negative : Bool) :
    continuedFraction? (sign negative ++ t) = none := h.bare.continuedFraction? negative

theorem endpoint (h : StartsNumber t) (negative : Bool) :
    (exactly letters).endpoint (sign negative ++ t) =
      ((exactly letters).unsigned t).map fun x => (x.1.signed negative, x.2) :=
  h.bare.endpoint negative

theorem bracket? (h : StartsNumber t) (negative : Bool) :
    Literal.bracket? (sign negative ++ t) = none := h.bare.bracket? negative

theorem signedLiteral? (h : StartsNumber t) (hp : StartsPlain t) :
    Reading.signedLiteral? (exactly letters) ('-' :: t) =
      match (exactly letters).interval ('-' :: t) with
      | .ok ((v, true), rest) => some (Reading.suffixed (exactly letters) (.literal v) rest)
      | .ok ((_, false), _) => none
      | .error f => some (Reading.stop f) := by
  have hc : Dialect.continuedFraction? ('-' :: t) = none := h.continuedFraction? true
  have hd : (('-' :: t).drop 1).head?.any
      (fun c => (exactly letters).isDigit c || decide (c = '.')) = true := by
    obtain ⟨c, u, rfl, hd⟩ := hp
    change (isPlainDigit c || decide (c = '.')) = true
    rw [hd, Bool.true_or]
  rw [Reading.signedLiteral?, hc, if_pos hd]
  rfl

theorem factor_of_error (h : StartsNumber t) (hp : StartsPlain t) {f : Failure}
    (hf : (exactly letters).unsigned t = .error f) (negative : Bool) (n : Nat) :
    Reading.factor (exactly letters) (n + 1) (sign negative ++ t) = Reading.stop f := by
  have hi := h.bare.interval_of_error hf negative
  cases negative with
  | true =>
    have hb : Literal.bracket? ('-' :: t) = none := h.bracket? true
    change Dialect.interval _ ('-' :: t) = _ at hi
    change Reading.factor _ _ ('-' :: t) = _
    rw [factor_minus hb, h.signedLiteral? hp, hi]
  | false =>
    obtain ⟨c, u, hc, -⟩ := h.start
    change Reading.factor _ _ t = _
    rw [factor_literal (hc ▸ List.cons_ne_nil c u) (h.ne_cons (by decide) (by decide))
      (h.ne_cons (by decide) (by decide)) (h.bracket? false), Reading.literal]
    change Dialect.interval _ t = _ at hi
    rw [hi]

end StartsNumber

/-! ## Numbers with their signs -/

/-- The characters that do something to the number before them. -/
def continuing : Text := ['+', '-', '*', '/', '^', '!', ':', 'E', spacedMark]

/-- What may stand after a number so that nothing is done to it. -/
def EndsNumber (t : Text) : Prop := ∀ c u, t = c :: u → c ∉ continuing

theorem endsNumber_nil : EndsNumber [] := fun _ _ h => nomatch h

theorem endsNumber_cons {c : Char} (h : c ∉ continuing) (u : Text) : EndsNumber (c :: u) := by
  intro a v heq
  rwa [← (List.cons.inj heq).1]

theorem EndsNumber.ne_cons (h : EndsNumber rest) {c : Char} (hc : c ∈ continuing) (u : Text) :
    rest ≠ c :: u := fun heq => h c u heq hc

theorem EndsNumber.after? (h : EndsNumber rest) : Text.after? ['E'] rest = none := by
  cases rest with
  | nil => rfl
  | cons c u =>
    have hc : 'E' ≠ c := fun he => h c u rfl (he ▸ by decide)
    rw [Text.after?, if_neg hc]

theorem EndsNumber.exponentFollows (h : EndsNumber rest) :
    (exactly letters).exponentFollows rest = false :=
  exponentFollows_of_after? h.after?

theorem EndsNumber.suffixed (h : EndsNumber rest) (e : Expr) :
    Reading.suffixed (exactly letters) e rest = ⟨e, some rest⟩ := by
  have hf : Reading.factorialSuffix e rest = ⟨e, some rest⟩ := by
    rw [Reading.factorialSuffix.eq_def]
    split
    · exact absurd rfl (h.ne_cons (by decide) _)
    · exact absurd rfl (h.ne_cons (by decide) _)
    · rfl
  rw [suffixed_of_after? (d := exactly letters) h.after?, hf]
  simp only [Reading.andThen, id]
  rw [Reading.powerSuffix.eq_def]
  split
  · exact absurd rfl (h.ne_cons (by decide) _)
  · exact absurd rfl (h.ne_cons (by decide) _)
  · rfl

theorem literal_of_interval {d : Dialect} {v : Value} {pair : Bool}
    (h : d.interval t = .ok ((v, pair), rest)) :
    Reading.literal d t = Reading.suffixed d (.literal v) rest := by
  rw [Reading.literal, h]

/-- A factor that nothing is done to is a whole expression. -/
theorem reads_sum_of_factor {e : Expr} {v : Value} (he : Reads (exactly letters) .factor t e rest)
    (hr : EndsNumber rest) (hv : e.eval (exactly letters) = .ok v)
    (hs : (exactly letters).simplify v = v) :
    Reads (exactly letters) .sum t (.simplified e) rest ∧
      (Expr.simplified e).eval (exactly letters) = .ok v := by
  have hm : Reading.afterMarker? (exactly letters) rest = none := by
    cases rest with
    | nil => rfl
    | cons c u =>
      have hc : c ≠ spacedMark := fun hc => hr c u rfl (hc ▸ by decide)
      rw [Reading.afterMarker?, if_neg hc]
      exact hr.after?
  have hterm : Reads (exactly letters) (.termFrom e) rest e rest :=
    .termEnd (hr.ne_cons (by decide)) (hr.ne_cons (by decide)) hm
  have hsum : Reads (exactly letters) (.sumFrom e) rest (.simplified e) rest :=
    .sumEnd (hr.ne_cons (by decide)) (hr.ne_cons (by decide))
  refine ⟨.sum (.term he hterm) hsum, ?_⟩
  rw [Expr.eval, hv]
  exact congrArg Except.ok hs

namespace SaysNumber

theorem scaledEndpoint (h : SaysNumber letters t x rest)
    (he : (exactly letters).exponentFollows rest = false) (negative beforeColon : Bool) :
    (exactly letters).scaledEndpoint beforeColon (sign negative ++ t) =
      .ok (x.signed negative, rest) := by
  have hp : (exactly letters).endpoint (sign negative ++ t) = .ok (x.signed negative, rest) := by
    rw [h.endpoint, h.unsigned]
    rfl
  rw [Dialect.scaledEndpoint, bind_of_ok hp]
  simp only
  rw [he]
  rfl

theorem interval (h : SaysNumber letters t x rest) (hr : EndsNumber rest) (negative : Bool) :
    (exactly letters).interval (sign negative ++ t) =
      .ok (((x.signed negative).shown, false), rest) :=
  interval_single (.inl rfl) (h.scaledEndpoint hr.exponentFollows negative true)
    (hr.ne_cons (by decide))

/-- A number with its sign is read as a factor. -/
theorem reads_factor (h : SaysNumber letters t x rest) (hr : EndsNumber rest) (negative : Bool) :
    ∃ e, Reads (exactly letters) .factor (sign negative ++ t) e rest ∧
      e.eval (exactly letters) = .ok (x.signed negative).shown := by
  have hlit : Reading.literal (exactly letters) t = ⟨.literal x.shown, some rest⟩ := by
    have hi := h.interval hr false
    change Dialect.interval _ t = _ at hi
    rw [literal_of_interval hi]
    exact hr.suffixed _
  have hbare : Reads (exactly letters) .factor t (.literal x.shown) rest :=
    .literal (h.ne_cons (by decide) (by decide)) (h.ne_cons (by decide) (by decide))
      (h.bracket? false) hlit
  cases negative with
  | false => exact ⟨_, hbare, rfl⟩
  | true =>
    have hs : Reading.signedLiteral? (exactly letters) ('-' :: t) = none := by
      have hi := h.interval hr true
      have hc : Dialect.continuedFraction? ('-' :: t) = none := h.continuedFraction? true
      change Dialect.interval _ ('-' :: t) = _ at hi
      rw [Reading.signedLiteral?, hc, hi]
      simp only [Option.isSome_none, Bool.and_false, Bool.false_eq_true, if_false, ite_self]
    refine ⟨_, .negated (h.bracket? true) hs hbare, ?_⟩
    rw [Expr.eval]
    exact congrArg Except.ok (negate_shown rfl x)

/-- **A number with its sign is read as an expression** that has its value. -/
theorem reads_sum (h : SaysNumber letters t x rest) (hr : EndsNumber rest) (negative : Bool) :
    ∃ e, Reads (exactly letters) .sum (sign negative ++ t) e rest ∧
      e.eval (exactly letters) = .ok (x.signed negative).shown := by
  obtain ⟨e, he, hv⟩ := h.reads_factor hr negative
  exact ⟨_, reads_sum_of_factor he hr hv (simplify_shown rfl _)⟩

variable {u : Text} {y : Endpoint}

/-- **Two numbers with a colon between them** are read as their interval. -/
theorem reads_sum_pair (h : SaysNumber letters t x (':' :: u))
    (hp : StartsPlain t) (hy : (exactly letters).scaledEndpoint false u = .ok (y, rest))
    (hr : EndsNumber rest) (negative : Bool) :
    ∃ e, Reads (exactly letters) .sum (sign negative ++ t) e rest ∧
      e.eval (exactly letters) =
        .ok (.kept (.interval (.hull (x.signed negative).value y.value))) := by
  have hi := interval_pair (.inl rfl) (h.scaledEndpoint rfl negative true) hy
  suffices hf : Reads (exactly letters) .factor (sign negative ++ t)
      (.literal (.kept (.interval (.hull (x.signed negative).value y.value)))) rest from
    ⟨_, reads_sum_of_factor hf hr rfl rfl⟩
  cases negative with
  | false =>
    change Dialect.interval _ t = _ at hi
    refine .literal (h.ne_cons (by decide) (by decide)) (h.ne_cons (by decide) (by decide))
      (h.bracket? false) ?_
    exact (literal_of_interval hi).trans (hr.suffixed _)
  | true =>
    change Dialect.interval _ ('-' :: t) = _ at hi
    refine .signed (h.bracket? true) ?_
    change Reading.signedLiteral? _ ('-' :: t) = _
    rw [h.signedLiteral? hp, hi]
    exact congrArg some (hr.suffixed _)

end SaysNumber

end Dialect

end RatCalc

import RatCalc.Proofs.ExplicitInterval
import RatCalc.Proofs.UnsignedForms

/-!
# A minus sign before a literal with its suffix

* `scaledEndpoint_sign`, `interval_sign`: a number with a minus sign is read as far as the one
  without it, and no second number follows where there is no colon.
* `factor_sign`: so the minus sign is taken off, or both texts fail in the same way.
* `Reading.outcome`, `Expr.valueOf_of_factor`: the value of a text that is read as one factor.
* **`Expr.valueOf_unaryMinus`**: a minus sign negates the literal with all that is done to it.
-/

namespace RatCalc

open Text Reading Expansion

theorem Interval.minus_one_mul (i : Interval) : (Interval.point (-1)).mul i = i.neg := by
  have hset : Set.image2 (fun a b => a * b) (Interval.point (-1)).toSet i.toSet =
      Set.image (fun a => -a) i.toSet := by
    ext x
    constructor
    · rintro ⟨a, ha, b, hb, rfl⟩
      refine ⟨b, hb, ?_⟩
      rw [Interval.mem_point.1 ha]
      exact (neg_one_mul b).symm
    · rintro ⟨b, hb, rfl⟩
      exact ⟨-1, Interval.mem_point.2 rfl, b, hb, neg_one_mul b⟩
  have hmul := Interval.isHull_mul (Interval.point (-1)) i
  have hneg := Interval.isHull_neg i
  exact Interval.subset_antisymm (hmul.mono hneg hset.le) (hneg.mono hmul hset.ge)

namespace Dialect

variable {d : Dialect} {t r : Text}

/-! ## Numbers with and without a minus sign -/

theorem endpoint_exactly (hs : d.system = none) (t : Text) :
    d.endpoint t = (exactly d.letters).endpoint t := by
  obtain ⟨exact, system, letters⟩ := d
  cases hs
  rfl

/-- A part of a text without a colon begins with no colon. -/
theorem ne_colon_of_takes (hcolon : ':' ∉ t) (h : Takes t r) (u : Text) : r ≠ ':' :: u := by
  obtain ⟨w, -, rfl⟩ := h
  rintro rfl
  exact hcolon (List.mem_append_right w List.mem_cons_self)

/-- Before a colon that does not come a number is read without its exponent, with a sign or without
one, but its exponent has to be one. -/
theorem scaledEndpoint_sign (hs : d.system = none) (h : StartsNumber t) (hcolon : ':' ∉ t) :
    (∃ f, ∀ negative, d.scaledEndpoint true (sign negative ++ t) = .error f) ∨
      ∃ x r, (exactly d.letters).unsigned t = .ok (x, r) ∧
        ∀ negative, d.scaledEndpoint true (sign negative ++ t) = .ok (x.signed negative, r) := by
  have hendpoint : ∀ negative, d.endpoint (sign negative ++ t) =
      ((exactly d.letters).unsigned t).map fun x => (x.1.signed negative, x.2) := fun negative => by
    rw [endpoint_exactly hs, h.endpoint]
  cases hu : (exactly d.letters).unsigned t with
  | error f =>
    refine .inl ⟨f, fun negative => ?_⟩
    rw [scaledEndpoint, hendpoint, hu]
    rfl
  | ok y =>
    obtain ⟨x, r⟩ := y
    have hend : ∀ negative, d.endpoint (sign negative ++ t) = .ok (x.signed negative, r) :=
      fun negative => by rw [hendpoint, hu]; rfl
    have htakes := ((exactly d.letters).progressive_unsigned parenthesis_mem_closers hu).1.takes
    by_cases hf : d.exponentFollows r = true
    · cases hk : d.exponent (r.drop d.marker.length) with
      | error f =>
        refine .inl ⟨f, fun negative => ?_⟩
        rw [scaledEndpoint, bind_of_ok (hend negative)]
        simp only
        rw [if_pos hf, hk]
        rfl
      | ok z =>
        obtain ⟨k, after⟩ := z
        have hafter : Takes t after := by
          obtain ⟨u, rfl⟩ := d.exists_of_exponentFollows hf
          rw [List.drop_left] at hk
          exact htakes.trans
            ((d.takes_marker u).trans (d.local_exponent parenthesis_mem_closers hk).1)
        have hhead : (after.head? != some ':') = true := by
          rw [bne_iff_ne]
          intro hhead
          obtain ⟨u, rfl⟩ := List.head?_eq_some_iff.1 hhead
          exact ne_colon_of_takes hcolon hafter u rfl
        refine .inr ⟨x, r, rfl, fun negative => ?_⟩
        rw [scaledEndpoint, bind_of_ok (hend negative)]
        simp only
        rw [if_pos hf, bind_of_ok hk]
        simp only
        rw [hhead]
        rfl
    · exact .inr ⟨x, r, rfl, fun negative =>
        d.scaledEndpoint_of_not_follows (hend negative) (Bool.eq_false_iff.2 hf) true⟩

/-- **A literal with a minus sign is read as far as the one without it**, and fails as it does. -/
theorem interval_sign (hs : d.system = none) (h : StartsNumber t) (hcolon : ':' ∉ t) :
    (∃ f, ∀ negative, d.interval (sign negative ++ t) = .error f) ∨
      ∃ r, (Stuck r ∨ ∃ x, (exactly d.letters).unsigned t = .ok (x, r)) ∧
        ∀ negative, ∃ v, d.interval (sign negative ++ t) = .ok ((v, false), r) := by
  have hminus : d.plain? ('-' :: t) = (d.plain? t).map fun x => (true, x.2) :=
    d.plain?_minus h.bare.noMinus
  by_cases hcert : d.Certain t
  · have hcert : ∀ negative, d.Certain (sign negative ++ t)
      | false => hcert
      | true => hcert.imp_right fun hp => by
          rw [hp] at hminus
          exact hminus
    rcases scaledEndpoint_sign hs h hcolon with ⟨f, hf⟩ | ⟨x, r, hx, hr⟩
    · exact .inl ⟨f, fun negative => interval_error (hcert negative) (hf negative)⟩
    · have htakes := ((exactly d.letters).progressive_unsigned parenthesis_mem_closers hx).1.takes
      exact .inr ⟨r, .inr ⟨x, hx⟩, fun negative => ⟨_, interval_single (hcert negative)
        (hr negative) (ne_colon_of_takes hcolon htakes)⟩⟩
  · rw [Certain, not_or, Bool.not_eq_true] at hcert
    obtain ⟨hexact, hp⟩ := hcert
    obtain ⟨⟨negative, literal, places, r⟩, hp⟩ := Option.ne_none_iff_exists'.1 hp
    have hfound : ∀ negative, ∃ b, d.plain? (sign negative ++ t) = some (b, literal, places, r)
      | false => ⟨_, hp⟩
      | true => by
          rw [hp] at hminus
          exact ⟨_, hminus⟩
    have hstuck : Stuck r ∨ ∃ x, (exactly d.letters).unsigned t = .ok (x, r) := by
      obtain ⟨w, f, hplain, -, -⟩ := exists_plainDecimal hp
      refine or_iff_not_imp_left.2 fun hr => ?_
      have he := hplain.endpoint_of_none hs hr
      have hu : (exactly d.letters).endpoint t =
          ((exactly d.letters).unsigned t).map fun x => (x.1.signed false, x.2) := h.endpoint false
      rw [← endpoint_exactly hs, he] at hu
      obtain ⟨⟨x, u⟩, hx, hxu⟩ := Number.exists_of_map_eq_ok hu.symm
      cases (Prod.mk.inj hxu).2
      exact ⟨x, hx⟩
    refine .inr ⟨r, hstuck, fun negative => ?_⟩
    obtain ⟨b, hb⟩ := hfound negative
    obtain ⟨w, f, hplain, rfl, rfl⟩ := exists_plainDecimal hb
    exact ⟨_, interval_uncertain hexact hb (hplain.uncertain_of_none hs _)⟩

end Dialect

/-! ## Factors -/

namespace Reading

variable {d : Dialect} {t : Text}

/-- The reading with a minus sign before it. -/
def negated (x : Reading) : Reading := ⟨.neg x.expr, x.rest⟩

theorem factor_of_startsNumber (h : Dialect.StartsNumber t) (n : Nat) :
    factor d (n + 1) t = literal d t := by
  obtain ⟨c, u, hc, -⟩ := h.start
  exact factor_literal (hc ▸ List.cons_ne_nil c u) (h.ne_cons (by decide) (by decide))
    (h.ne_cons (by decide) (by decide)) (h.bracket? false)

/-- The value of a text that is read as one factor. -/
def outcome (d : Dialect) (x : Reading) : Except Failure Value :=
  match x.rest with
  | none => x.expr.eval d
  | some [] => (Expr.simplified x.expr).eval d
  | some rest => (Expr.halted (.simplified x.expr)
      (.literal (.trailingToken (String.ofList (d.display rest))))).eval d

/-- **A minus sign before a literal negates what is read**, or both fail in the same way. -/
theorem factor_sign (hs : d.system = none) (h : Dialect.StartsNumber t) (hcolon : ':' ∉ t) :
    ∃ y : Reading, (∀ n, factor d (n + 2) ('-' :: t) = y) ∧ y.rest = (literal d t).rest ∧
      y.outcome d = (literal d t).negated.outcome d := by
  have hbracket : Literal.bracket? ('-' :: t) = none := h.bracket? true
  have hfraction : ¬ SignsFraction d t :=
    Dialect.not_signsFraction_iff.2 fun _ => h.continuedFraction? true
  -- without a literal of its own the sign is taken off
  have hfactor : signedLiteral? d ('-' :: t) = none →
      ∀ n, factor d (n + 2) ('-' :: t) = (literal d t).negated := fun hno n => by
    rw [factor_minus hbracket, hno, factor_of_startsNumber h]
    rcases literal d t with ⟨e, _ | rest⟩ <;> rfl
  by_cases hn : SignsNumber d t
  · have hsigned := signedLiteral?_of_number hfraction hn
    rcases Dialect.interval_sign hs h hcolon with ⟨f, hf⟩ | ⟨r, -, hv⟩
    · have hi : d.interval t = .error f := hf false
      have hi' : d.interval ('-' :: t) = .error f := hf true
      rw [hi'] at hsigned
      rw [literal, hi]
      refine ⟨stop f, fun n => ?_, rfl, rfl⟩
      rw [factor_minus hbracket, hsigned]
    · obtain ⟨v, hi'⟩ : ∃ v, d.interval ('-' :: t) = .ok ((v, false), r) := hv true
      rw [hi'] at hsigned
      exact ⟨_, hfactor hsigned, rfl, rfl⟩
  · exact ⟨_, hfactor (signedLiteral?_of_other hfraction hn), rfl, rfl⟩

/-- A reading that leaves nothing for an expression to go on with. -/
def Final (x : Reading) : Prop := ∀ r, x.rest = some r → r = [] ∨ Stuck r

/-- A suffix leaves nothing. -/
theorem final_suffixed (hs : d.system = none) {r : Text} (h : Ends r) (e : Expr) :
    (suffixed d e r).Final := by
  rcases h with h | ⟨s, rfl⟩
  · rw [h.suffixed]
    rintro u hu
    cases hu
    exact .inr h
  · obtain ⟨e', he⟩ := s.exists_suffixed hs e
    rw [he]
    rintro u hu
    cases hu
    exact .inl rfl

/-- A literal leaves nothing if what is read of it as a number leaves a suffix. -/
theorem final_literal (hs : d.system = none) (h : Dialect.StartsNumber t) (hcolon : ':' ∉ t)
    (hends : ∀ x r, (Dialect.exactly d.letters).unsigned t = .ok (x, r) → Ends r) :
    (literal d t).Final := by
  rcases Dialect.interval_sign hs h hcolon with ⟨f, hf⟩ | ⟨r, hr, hv⟩
  · have hi : d.interval t = .error f := hf false
    rw [literal, hi]
    intro r h
    cases h
  · obtain ⟨v, hi⟩ : ∃ v, d.interval t = .ok ((v, false), r) := hv false
    rw [Dialect.literal_of_interval hi]
    refine final_suffixed hs ?_ _
    rcases hr with hr | ⟨x, hx⟩
    · exact .inl hr
    · exact hends x r hx

/-- The value with a minus sign is the negated one. -/
theorem outcome_negated (d : Dialect) (x : Reading) :
    (outcome d x.negated).map (·.number.toInterval) =
      (outcome d x).map (·.number.toInterval.neg) := by
  have hneg : ∀ v : Value, (d.negate v).number.toInterval = v.number.toInterval.neg := fun v => by
    rw [d.toInterval_negate, Interval.minus_one_mul]
  obtain ⟨e, rest⟩ := x
  rcases rest with _ | _ | ⟨c, r⟩
  · simp only [outcome, negated, Expr.eval]
    cases e.eval d with
    | error f => rfl
    | ok v => exact congrArg Except.ok (hneg v)
  · simp only [outcome, negated, Expr.eval]
    cases e.eval d with
    | error f => rfl
    | ok v =>
      refine congrArg Except.ok ?_
      simp only [d.toInterval_simplify, hneg]
  · simp only [outcome, negated, Expr.eval]
    cases e.eval d <;> rfl

end Reading

namespace Expr

variable {d : Dialect} {t : Text}

/-- A text that is read as one factor has the value of the factor. -/
theorem valueOf_of_factor {x : Reading} (hx : x.Final) (hne : d.prepare t ≠ [])
    (h : ∀ n, factor d (n + 2) (d.prepare t) = x) : valueOf d t = x.outcome d := by
  obtain ⟨e, rest⟩ := x
  have hlen := List.length_pos_iff.2 hne
  obtain ⟨n, hn⟩ : ∃ n, 3 * (d.prepare t).length + 1 = n + 2 :=
    ⟨3 * (d.prepare t).length - 1, by omega⟩
  cases rest with
  | none =>
    have hsum : sum d (3 * (d.prepare t).length + 3) (d.prepare t) = ⟨e, none⟩ := by
      rw [sum, term, hn, h]
      rfl
    rw [valueOf, read, ofPrepared, if_neg fun h0 => hne (List.isEmpty_iff.1 h0), hsum]
    rfl
  | some r =>
    have hfactor : Reads d .factor (d.prepare t) e r :=
      reads_of_run (n + 2) (p := .factor) (Nat.le_of_eq hn) (h n)
    have hsum := hfactor.sum_of_factor (hx r rfl)
    rw [valueOf]
    cases r with
    | nil => rw [read_of_reads hsum]; rfl
    | cons c r => rw [read_of_reads_rest hsum]; rfl

/-- **A minus sign negates a literal with all that is done to it**: the value is the negated one, as
an interval, or both texts fail in the same way. -/
theorem valueOf_unaryMinus (hs : d.system = none) (h : UnsignedLiteral d.letters t) (s : Suffix)
    (hmark : MarkApart d.letters t s) :
    (valueOf d ('-' :: (t ++ s.text))).map (·.number.toInterval) =
      (valueOf d (t ++ s.text)).map (·.number.toInterval.neg) := by
  have hstart := h.startsNumber s
  have hchars : ∀ c ∈ t ++ s.text, isBlank c = false ∧ c ≠ ':' := fun c hc =>
    (List.mem_append.1 hc).elim (h.mem c) fun hc => ⟨s.isBlank_of_mem_text hc, fun h0 =>
      s.not_mem_text (c := ':') (by decide) (by decide) (h0 ▸ hc)⟩
  have hcolon : ':' ∉ t ++ s.text := fun hc => (hchars ':' hc).2 rfl
  have hplain : d.prepare (t ++ s.text) = t ++ s.text :=
    d.prepare_of_no_blank fun c hc => (hchars c hc).1
  have hsigned : d.prepare ('-' :: (t ++ s.text)) = '-' :: (t ++ s.text) := by
    rw [d.prepare_cons (by decide) (by decide), hplain]
  have hfinal := final_literal hs hstart hcolon fun _ _ hx => h.ends_of_unsigned hmark hx
  obtain ⟨y, hy, hrest, houtcome⟩ := factor_sign hs hstart hcolon
  have hplus : valueOf d (t ++ s.text) = (Reading.literal d (t ++ s.text)).outcome d := by
    refine valueOf_of_factor hfinal ?_ fun n => ?_
    · obtain ⟨c, u, hc, -⟩ := hstart.start
      rw [hplain, hc]
      exact List.cons_ne_nil c u
    · rw [hplain, factor_of_startsNumber hstart]
  have hminus : valueOf d ('-' :: (t ++ s.text)) = y.outcome d := by
    refine valueOf_of_factor (fun r hr => hfinal r (hrest ▸ hr)) ?_ fun n => ?_
    · rw [hsigned]
      exact List.cons_ne_nil _ _
    · rw [hsigned, hy]
  rw [hminus, hplus, houtcome, outcome_negated]

/-- The square of the factorial. -/
def factorialSquared : Suffix where
  exponent := none
  factorial := some false
  power := some ⟨false, false, ['2']⟩
  isRow_exponent := Exponent.isRow_none
  isRow_power p h := by
    cases h
    exact ⟨by decide, forall_of_all (by decide)⟩

theorem minus_factorialSquared :
    UnsignedLiteral .initial ['3'] ∧ MarkApart .initial ['3'] factorialSquared ∧
      '-' :: (['3'] ++ factorialSquared.text) = "-3!^2".toList ∧
      (valueOf ⟨true, none, .initial⟩ "-3!^2".toList).map (·.number.toInterval) =
        .ok (.point (-36)) ∧
      (valueOf ⟨false, none, .initial⟩ "-3!^2".toList).map (·.number.toInterval) =
        .ok (.point (-36)) := by
  have hliteral : UnsignedLiteral .initial ['3'] :=
    .integer ⟨by decide, forall_of_all (by decide)⟩
  have hmark : MarkApart .initial ['3'] factorialSquared := fun _ _ _ h => nomatch h
  refine ⟨hliteral, hmark, by decide, ?_, ?_⟩
  · exact (valueOf_unaryMinus (d := ⟨true, none, .initial⟩) rfl hliteral factorialSquared
      hmark).trans (by decide)
  · exact (valueOf_unaryMinus (d := ⟨false, none, .initial⟩) rfl hliteral factorialSquared
      hmark).trans (by decide)

/-- Integers in base 62 after the letter `z`. -/
def lettersTo62 : LetterTable := LetterTable.initial ++ [('z', .base62)]

/-- An exponent of minus five. -/
def fifthPlace : Suffix where
  exponent := some ⟨true, ['5']⟩
  factorial := none
  power := none
  isRow_exponent x h := by
    cases h
    exact ⟨by decide, forall_of_all (by decide)⟩
  isRow_power _ h := by cases h

/-- In base 62 the mark of an exponent is a digit, and the sign behind it a subtraction. -/
theorem minus_before_digit :
    UnsignedLiteral lettersTo62 "0z1".toList ∧
      "0z1".toList ++ fifthPlace.text = "0z1E-5".toList ∧
      valueOf ⟨true, none, lettersTo62⟩ "0z1E-5".toList = .ok (.plain (.integer 97)) ∧
      valueOf ⟨true, none, lettersTo62⟩ "-0z1E-5".toList = .ok (.plain (.integer (-107))) ∧
      (valueOf ⟨true, none, lettersTo62⟩ ('-' :: ("0z1".toList ++ fifthPlace.text))).map
          (·.number.toInterval) ≠
        (valueOf ⟨true, none, lettersTo62⟩ ("0z1".toList ++ fifthPlace.text)).map
          (·.number.toInterval.neg) := by
  refine ⟨.lettered (c := 'z') (n := .base62) (w := ['1']) (by decide) ?_ (by decide) ?_,
    by decide, by decide, by decide +kernel, by decide⟩
  · rfl
  · exact forall_of_all
      (P := fun a => NumeralSystem.base62.isDigit a = true ∧ isBlank a = false) (by decide)

end Expr

end RatCalc

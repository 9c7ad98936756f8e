import RatCalc.Proofs.EnclosedLiteral

/-!
# Failures that are faults

A fault has a code and a message. Other failures are outside what the calculator puts into words.

* `Failure.IsFault`: the failures of the eight kinds of faults; they are reported
  (`Failure.IsFault.report?`).
* `Reported x`: if `x` fails it is with a fault; **`Reported.bind`**, `Reported.map`.
* `Expr.Reports`: the evaluation of an expression is reported, constructor by constructor.
* `Literal.reported_rational`, `Dialect.reported_fraction`, `Dialect.reported_pointedIn`: literals
  whose digits are checked before they are read.
-/

namespace RatCalc

open Text

/-- A failure of one of the kinds of faults. -/
def Failure.IsFault : Failure → Prop
  | literal _ | division _ | power _ | factorial _ | base _ | uncertainty _ | calculation _
  | setting _ => True
  | unexpected _ | operand | numeral _ | overflow | endOfInput => False

/-- A fault has a code and a message. -/
theorem Failure.IsFault.report? {f : Failure} (h : f.IsFault) :
    ∃ code message, f.report? = some (code, message) := by
  cases f with
  | literal | division | power | factorial | base | uncertainty | calculation | setting =>
    exact ⟨_, _, rfl⟩
  | unexpected | operand | numeral | overflow | endOfInput => exact h.elim

/-- If the computation fails it is with a fault. -/
def Reported {α : Type} (x : Except Failure α) : Prop := ∀ f, x = .error f → f.IsFault

section

variable {α β : Type} {x : Except Failure α}

theorem reported_ok (a : α) : Reported (.ok a : Except Failure α) := fun _ h => nomatch h

theorem reported_error {f : Failure} (h : f.IsFault) : Reported (.error f : Except Failure α) := by
  rintro g ⟨⟩
  exact h

/-- **Two steps are reported if both are.** -/
theorem Reported.bind (hx : Reported x) {f : α → Except Failure β}
    (hf : ∀ a, x = .ok a → Reported (f a)) : Reported (x >>= f) := by
  cases x with
  | error g => exact reported_error (hx g rfl)
  | ok a => exact hf a rfl

theorem Reported.map (hx : Reported x) (f : α → β) : Reported (x.map f) := by
  cases x with
  | error g => exact reported_error (hx g rfl)
  | ok a => exact reported_ok (f a)

theorem Reported.ite {c : Prop} [Decidable c] {y : Except Failure α} (hx : c → Reported x)
    (hy : ¬ c → Reported y) : Reported (if c then x else y) := by
  split_ifs with h
  · exact hx h
  · exact hy h

end

/-! ## Arithmetic -/

theorem Ratio.reported_ofInts (n d : Int) : Reported (ofInts n d) :=
  .ite (fun _ => reported_error trivial) fun _ => reported_ok _

namespace Number

variable (x y : Number) (k : Int)

theorem reported_div : Reported (x.div y) := by
  have hratio : ∀ a b : Rat, Reported (Ratio.div a b) := fun _ _ =>
    .ite (fun _ => reported_error trivial) fun _ => reported_ok _
  have hinterval : ∀ i j : Interval, Reported (i.div j) := fun _ _ =>
    .ite (fun _ => reported_error trivial) fun _ =>
      .ite (fun _ => reported_error trivial) fun _ => reported_ok _
  unfold div
  split
  · exact .ite (fun _ => reported_error trivial) fun _ => reported_ok _
  · exact (hratio _ _).map _
  · exact (hratio _ _).map _
  · exact (hratio _ _).map _
  · exact (hinterval _ _).map _

theorem reported_pow : Reported (x.pow k) := by
  cases x with
  | integer n =>
    refine .ite (fun _ => .ite (fun _ => reported_error trivial) fun _ => reported_ok _) fun _ =>
      .ite (fun _ => .ite (fun _ => reported_error trivial) fun _ => reported_ok _) fun _ =>
        reported_ok _
  | rational a =>
    refine Reported.map (x := Ratio.pow a k) ?_ _
    exact .ite (fun _ => reported_error trivial) fun _ =>
      .ite (fun _ => reported_error trivial) fun _ => reported_ok _
  | interval i =>
    refine Reported.map (x := i.pow k) ?_ _
    exact .ite (fun _ => .ite (fun _ => reported_error trivial) fun _ => reported_ok _) fun _ =>
      .ite (fun _ => .ite (fun _ => reported_error trivial) fun _ => reported_ok _) fun _ =>
        reported_ok _

theorem reported_productPow : Reported (x.productPow k) := by
  have hreciprocal : ∀ i : Interval, Reported i.reciprocal := fun _ =>
    .ite (fun _ => reported_error trivial) fun _ => reported_ok _
  refine Reported.map (x := x.toInterval.productPow k) ?_ _
  exact .ite (fun _ => reported_error trivial) fun _ =>
    .ite (fun _ => (hreciprocal _).bind fun _ _ => reported_ok _) fun _ => reported_ok _

theorem reported_factorial (double : Bool) : Reported (x.factorial double) := by
  have hwhole : ∀ n : Int, Reported (Whole.factorial double n) := fun _ =>
    .ite (fun _ => reported_error trivial) fun _ => reported_ok _
  cases x with
  | integer n => exact (hwhole n).map _
  | rational a => exact .ite (fun _ => (hwhole _).map _) fun _ => reported_error trivial
  | interval i =>
    refine .ite (fun _ => .ite (fun _ => Reported.map ?_ _) fun _ => reported_error trivial)
      fun _ => reported_error trivial
    exact (hwhole _).bind fun _ _ => reported_ok _

end Number

/-! ## Expressions -/

namespace Expr

variable {d : Dialect} {a b : Expr} {k : Int}

/-- The evaluation of an expression is reported. -/
def Reports (d : Dialect) (e : Expr) : Prop := Reported (e.eval d)

theorem reports_literal (v : Value) : Reports d (literal v) := reported_ok v

theorem reports_fault {f : Failure} (h : f.IsFault) : Reports d (fault f) := reported_error h

namespace Reports

theorem halted (ha : Reports d a) {f : Failure} (h : f.IsFault) : Reports d (.halted a f) :=
  Reported.bind ha fun _ _ => reported_error h

/-- An operation on two operands. -/
theorem operation (ha : Reports d a) (hb : Reports d b) {f : Value → Value → Except Failure Value}
    (hf : ∀ x y, Reported (f x y)) : Reported (do f (← a.eval d) (← b.eval d)) :=
  Reported.bind ha fun x _ => Reported.bind hb fun y _ => hf x y

theorem add (ha : Reports d a) (hb : Reports d b) : Reports d (.add a b) :=
  ha.operation hb fun _ _ => reported_ok _

theorem sub (ha : Reports d a) (hb : Reports d b) : Reports d (.sub a b) :=
  ha.operation hb fun _ _ => reported_ok _

theorem mul (ha : Reports d a) (hb : Reports d b) : Reports d (.mul a b) :=
  ha.operation hb fun _ _ => reported_ok _

theorem div (ha : Reports d a) (hb : Reports d b) : Reports d (.div a b) :=
  ha.operation hb fun x y => (x.number.reported_div y.number).bind fun _ _ => reported_ok _

theorem scaleBy (ha : Reports d a) (hb : Reports d b) : Reports d (.scaleBy a b) := by
  refine ha.operation hb fun x y => ?_
  split
  · exact reported_ok _
  · exact reported_error trivial

theorem scale (ha : Reports d a) : Reports d (.scale a k) :=
  Reported.bind ha fun _ _ => reported_ok _

theorem neg (ha : Reports d a) : Reports d (.neg a) :=
  Reported.bind ha fun _ _ => reported_ok _

theorem factorial (ha : Reports d a) (double : Bool) : Reports d (.factorial double a) :=
  Reported.bind ha fun x _ =>
    (x.number.reported_factorial double).bind fun _ _ => reported_ok _

theorem pow (ha : Reports d a) : Reports d (.pow a k) :=
  Reported.bind ha fun x _ => (x.number.reported_pow k).bind fun _ _ => reported_ok _

theorem productPow (ha : Reports d a) : Reports d (.productPow a k) :=
  Reported.bind ha fun x _ => (x.number.reported_productPow k).bind fun _ _ => reported_ok _

theorem simplified (ha : Reports d a) : Reports d (.simplified a) :=
  Reported.bind ha fun _ _ => reported_ok _

end Reports

end Expr

/-! ## Literals -/

namespace NumeralSystem

theorem reported_charValue (s : NumeralSystem) (c : Char) : Reported (s.charValue c) := by
  rw [charValue, digitValue]
  split
  · exact reported_ok _
  · exact reported_error trivial

theorem reported_natValue (s : NumeralSystem) (t : Text) : Reported (s.natValue t) := by
  have hfold : ∀ (t : Text) (v : Nat),
      Reported (t.foldlM (fun v c => (s.charValue c).map (v * s.base + ·)) v) := by
    intro t
    induction t with
    | nil => exact fun v => reported_ok v
    | cons c t ih =>
      intro v
      rw [List.foldlM_cons]
      exact ((s.reported_charValue c).map _).bind fun w _ => ih w
  exact hfold t 0

end NumeralSystem

namespace Literal

theorem reported_quotient (t : Text) : Reported (quotient t) := by
  unfold quotient
  dsimp only
  split
  · exact .ite (fun _ => reported_error trivial) fun _ => reported_ok _
  · refine .ite (fun _ => ?_) fun _ => ?_
    · split
      · exact reported_ok _
      · exact reported_error trivial
    · split
      · exact reported_ok _
      · exact reported_error trivial

theorem reported_rational (t : Text) : Reported (rational t) :=
  (reported_quotient t).bind fun _ _ => Ratio.reported_ofInts _ _

theorem reported_continuedFraction (t : Text) : Reported (continuedFraction t) := by
  have hread : Reported (ContinuedFraction.read t) := by
    unfold ContinuedFraction.read
    dsimp only
    split
    · exact reported_error trivial
    · exact .ite (fun _ => reported_ok _) fun _ =>
        .ite (fun _ => reported_error trivial) fun _ => reported_ok _
  have hevaluate : ∀ terms, Reported (ContinuedFraction.evaluate terms) := by
    intro terms
    unfold ContinuedFraction.evaluate
    split
    · exact reported_error trivial
    · exact .ite (fun _ => reported_error trivial) fun _ => reported_ok _
  exact hread.bind fun terms _ => (hevaluate terms).bind fun _ _ => Ratio.reported_ofInts _ _

theorem reported_repeatingFraction (ab abc : Int) (n m : Nat) (base : Int) :
    Reported (repeatingFraction ab abc n m base) := Ratio.reported_ofInts _ _

end Literal

namespace Dialect

variable (d : Dialect) (t : Text)

theorem reported_digits : Reported (d.digits t) := by
  unfold digits
  dsimp only
  split
  · exact .ite (fun _ => (NumeralSystem.reported_charValue _ _).bind fun _ _ => reported_ok _)
      fun _ => reported_ok _
  · exact reported_ok _

theorem reported_value : Reported (d.value t) := by
  unfold value
  split
  · exact NumeralSystem.reported_natValue _ _
  · exact reported_ok _

theorem reported_exponent : Reported (d.exponent t) := by
  rw [exponent_eq]
  refine (d.reported_digits _).bind fun x _ => ?_
  obtain ⟨ds, rest⟩ := x
  exact .ite (fun _ => reported_error trivial) fun _ =>
    (d.reported_value ds).bind fun _ _ => reported_ok _

theorem reported_denominator (mixed : Bool) : Reported (d.denominator mixed t) := by
  rw [denominator]
  refine (d.reported_digits _).bind fun x _ => ?_
  obtain ⟨ds, rest⟩ := x
  refine .ite (fun _ => ?_) fun _ => .ite (fun _ => ?_) fun _ => ?_
  · cases mixed <;> exact reported_error trivial
  · cases mixed <;> exact reported_error trivial
  · exact (d.reported_value ds).bind fun _ _ =>
      .ite (fun _ => reported_error trivial) fun _ => reported_ok _

theorem reported_fraction : Reported (d.fraction t) := by
  rw [fraction]
  refine (d.reported_digits _).bind fun x _ => ?_
  obtain ⟨ds, rest⟩ := x
  refine .ite (fun _ => reported_error trivial) fun _ => (d.reported_value ds).bind fun _ _ => ?_
  split
  · refine (d.reported_digits _).bind fun x _ => ?_
    obtain ⟨ds, rest⟩ := x
    refine .ite (fun _ => reported_error trivial) fun _ => (d.reported_value ds).bind fun _ _ => ?_
    split
    · exact reported_error trivial
    · exact (d.reported_denominator _ true).bind fun _ _ => reported_ok _
  · split
    · exact reported_ok _
    · exact (d.reported_denominator _ false).bind fun _ _ => reported_ok _

theorem reported_periodIn : Reported (d.periodIn t) := by
  rw [periodIn.eq_def]
  split
  · refine (d.reported_digits _).bind fun x _ => ?_
    obtain ⟨period, rest⟩ := x
    exact .ite (fun _ => reported_error trivial) fun _ => reported_ok _
  · exact reported_ok _

theorem reported_pointedValue (s : NumeralSystem) (whole fraction : Text) (period : Option Text) :
    Reported (pointedValue s whole fraction period) := by
  rw [pointedValue]
  refine .ite (fun _ => reported_error trivial) fun _ => (s.reported_natValue _).bind fun _ _ => ?_
  cases period with
  | none => exact Ratio.reported_ofInts _ _
  | some period =>
    exact (s.reported_natValue _).bind fun _ _ => Literal.reported_repeatingFraction _ _ _ _ _

theorem reported_pointedIn (s : NumeralSystem) : Reported (d.pointedIn s t) := by
  cases hw : d.digits t with
  | error f =>
    rw [pointedIn, hw]
    exact reported_error (d.reported_digits t f hw)
  | ok x =>
    obtain ⟨whole, rest⟩ := x
    by_cases hpoint : ∃ u, rest = '.' :: u ∧ (∀ v, u ≠ '.' :: v) ∧ ∀ v, u ≠ '~' :: v
    · obtain ⟨u, rfl, h₁, h₂⟩ := hpoint
      rw [d.pointedIn_point hw h₁ h₂]
      refine (d.reported_digits u).bind fun x _ => (d.reported_periodIn x.2).bind fun y _ => ?_
      exact (reported_pointedValue s whole x.1 y.1).bind fun _ _ => reported_ok _
    · rw [pointedIn, bind_of_ok hw]
      dsimp only
      split
      · exact reported_ok _
      · exact reported_ok _
      · rename_i u h₁ h₂
        exact absurd ⟨u, rfl, fun v hv => h₁ v (by rw [hv]), fun v hv => h₂ v (by rw [hv])⟩ hpoint
      · exact reported_ok _

end Dialect

end RatCalc

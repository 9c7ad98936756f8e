import RatCalc.ContinuedFraction
import RatCalc.Operand.Arithmetic
import RatCalc.Operand.Measure

/-!
# Continued fractions of operands

* `terms`, `convergents`, `evaluateTerms`, `writeTerms`: the terms of a quotient, and the fractions
  and the text of a list of terms.
* `approximate`: the closest fraction with a bounded denominator.
* `ofTerms`: the rational number of a list of terms.
-/

namespace RatCalc.Operand

/-- The terms of a quotient. -/
def terms (n d : Operand) : Except Failure (List Int) := do
  if d.same (whole 0) then ContinuedFraction.terms 0 0
  else ContinuedFraction.terms (← n.plain) (← d.plain)

/-- The terms in a list. -/
def plainTerms (x : Operand) : Except Failure (List Int) :=
  match x.items? with
  | some items => items.mapM plain
  | none => .error .operand

/-- The convergents of a list of terms. -/
def convergents (x : Operand) : Except Failure (List ContinuedFraction.Pair) :=
  ContinuedFraction.convergents <$> x.plainTerms

/-- Checks that terms after the first are positive, one by one. -/
def checkLater : List Operand → Except Failure Unit
  | [] => .ok ()
  | x :: rest =>
    match x.exceeds? 0 with
    | some true => checkLater rest
    | some false => .error (.literal .continuedFractionTerm)
    | none => .error .operand

/-- The fraction that a list of terms stands for. -/
def evaluateTerms (x : Operand) : Except Failure ContinuedFraction.Pair := do
  if !x.holds then ContinuedFraction.evaluate []
  else
    match x.items? with
    | some items =>
      checkLater (items.drop 1)
      ContinuedFraction.evaluate (← items.mapM plain)
    | none => .error .operand

/-- The text of a list of terms, each as it is printed. -/
def writeTerms (x : Operand) : Except Failure Text :=
  match x.items? with
  | some items => .ok (ContinuedFraction.joinTerms (items.map printed))
  | none => .error .operand

/-- The number of opposite sign, which may be a plain one. -/
def opposite (x : Operand) : Except Failure Operand :=
  match x with
  | value _ => x.neg
  | x => do return whole (-(← x.plain))

/-- The fraction closest to `n / d` among those with denominators up to a limit. A quotient whose
denominator is no larger is left as it is. -/
def approximate (n d limit : Operand) : Except Failure (Operand × Operand) := do
  if ← limit.isBelow 1 then .error (.calculation .approximationLimit)
  else
    let (n, d) ← if ← d.isBelow 0 then do pure (← n.opposite, ← d.opposite) else pure (n, d)
    match d.size?, limit.size? with
    | some a, some b =>
      if a ≤ b then return (n, d)
      else
        let n ← n.plain
        let d ← d.plain
        -- only where the quotient itself does not fit in is the limit reckoned with
        let k ← if d / Int.gcd n d ≤ b.floor then pure b.floor else limit.plain
        let (p, q) ← ContinuedFraction.bestApproximation n d k
        return (whole p, whole q)
    | _, _ => .error .operand

/-- The rational number of a list of terms. -/
def ofTerms (x : Operand) : Except Failure Rat :=
  match x.items? with
  | some items => do Literal.ofTerms (← items.mapM component)
  | none => .error .operand

end RatCalc.Operand

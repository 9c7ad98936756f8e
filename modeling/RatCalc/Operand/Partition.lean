import RatCalc.Operand.Conversion

/-!
# Splitting at operands

* `partitionAt`: an interval of fractions split at the fractions of a list.
* `partitionWithMediants`: an interval of fractions split at mediants as often as an operand says.
-/

namespace RatCalc.Operand

/-- The fractions of a list. -/
def fractionsOf (points : Operand) : Except Failure (List Fraction) :=
  match points with
  | list items => items.mapM fun
    | fraction a => .ok a
    | _ => .error (.calculation .partitionMember)
  | _ => .error (.calculation .partitionKind)

/-- The pieces of an interval between the points of a list. -/
def partitionAt (i : FractionInterval) (points : Operand) : Except Failure Operand := do
  let pieces ← i.partitionAt (← fractionsOf points)
  return list (pieces.map fractions)

/-- How often an interval is to be split. -/
def depth (x : Operand) : Except Failure Int :=
  match x with
  | datum (.truth b) => .ok (if b then 1 else 0)
  -- other numbers can be told to be negative or zero, but do not count
  | value ⟨.rational a, _⟩ =>
    if a < 0 then .ok (-1) else if a = 0 then .ok 0 else .error .operand
  | datum (.real (.finite negative m _)) =>
    if m = 0 then .ok 0 else if negative then .ok (-1) else .error .operand
  | datum (.real (.infinite true)) => .ok (-1)
  | x =>
    match x.whole? with
    | some n => .ok n
    | none => .error .operand

/-- The pieces of an interval split at mediants. -/
def partitionWithMediants (i : FractionInterval) (x : Operand) : Except Failure Operand := do
  let pieces ← i.partitionWithMediants (← x.depth)
  return list (pieces.map fractions)

end RatCalc.Operand

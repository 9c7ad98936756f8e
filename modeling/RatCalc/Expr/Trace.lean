import RatCalc.Expr.Basic

/-!
# The trace of an evaluation

* `Expr.trace`: the signs of the sums and differences in the order in which they are worked out, up
  to the first failure.
-/

namespace RatCalc.Expr

/-- What comes after an evaluation, if that does not fail. -/
def after (r : Except Failure Value) (next : Text) : Text :=
  match r with
  | .ok _ => next
  | .error _ => []

/-- The signs of the sums and differences that are worked out. -/
def trace (d : Dialect) : Expr → Text
  | literal _ | fault _ => []
  | halted a _ | scale a _ | neg a | factorial _ a | pow a _ | productPow a _ | simplified a =>
    trace d a
  | add a b => trace d a ++ after (a.eval d) (trace d b ++ after (b.eval d) ['+'])
  | sub a b => trace d a ++ after (a.eval d) (trace d b ++ after (b.eval d) ['-'])
  | mul a b | div a b | scaleBy a b => trace d a ++ after (a.eval d) (trace d b)

end RatCalc.Expr

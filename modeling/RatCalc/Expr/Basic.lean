import RatCalc.NumeralSystem.Letters
import RatCalc.Number.Level

/-!
# Expressions

* `Dialect`: how expressions are read and evaluated: exactly or with every number an interval, in
  which numeral system, with which letters for others.
* `Expr`: what an expression text says. A text that cannot be read to its end still says what comes
  before the place where reading fails, because a failure of arithmetic there comes first.
* `Expr.eval`: the value.
-/

namespace RatCalc

/-- How expressions are read and evaluated. -/
structure Dialect where
  /-- Whether values stay integers and rational numbers; otherwise every number is an interval, and
  a plain decimal that of the numbers rounded to it. -/
  exact : Bool
  /-- The digits, if they are not the decimal ones. -/
  system : Option NumeralSystem
  /-- The letters that name numeral systems in decimal expressions. -/
  letters : LetterTable

/-- An expression. -/
inductive Expr where
  | literal (v : Value)
  /-- Nothing can be read. -/
  | fault (f : Failure)
  /-- Nothing can be read after an expression. -/
  | halted (a : Expr) (f : Failure)
  | add (a b : Expr)
  | sub (a b : Expr)
  | mul (a b : Expr)
  | div (a b : Expr)
  /-- The first operand times a power of the base, whose exponent is the second one. -/
  | scaleBy (a b : Expr)
  /-- The operand times a power of the base. -/
  | scale (a : Expr) (k : Int)
  | neg (a : Expr)
  | factorial (double : Bool) (a : Expr)
  | pow (a : Expr) (k : Int)
  | productPow (a : Expr) (k : Int)
  /-- The operand in its simplest kind. -/
  | simplified (a : Expr)

namespace Dialect

/-- The base of the digits. -/
def radix (d : Dialect) : Nat :=
  match d.system with
  | some s => s.base
  | none => 10

/-- A number times a power of the base. -/
def scale (d : Dialect) (x : Number) (k : Int) : Number :=
  match d.system with
  | some s => x.mul (.rational ((s.base : Rat) ^ k))
  | none => x.shift k

/-- The value of opposite sign. A single exact number keeps its form. -/
def negate (d : Dialect) (v : Value) : Value :=
  match d.exact, v.number with
  | true, .integer n => ⟨.integer (-n), v.keepForm⟩
  | true, .rational a => ⟨.rational (-a), v.keepForm⟩
  | _, x => .plain ((Number.interval (.point (-1))).mul x)

/-- The value in its simplest kind, if values are exact. -/
def simplify (d : Dialect) (v : Value) : Value := if d.exact then v.demote else v

end Dialect

namespace Expr

/-- The value of an expression; operands are evaluated from left to right. -/
def eval (d : Dialect) : Expr → Except Failure Value
  | literal v => .ok v
  | fault f => .error f
  | halted a f => do
    let _ ← eval d a
    .error f
  | add a b => do
    let x ← eval d a
    let y ← eval d b
    return .plain (x.number.add y.number)
  | sub a b => do
    let x ← eval d a
    let y ← eval d b
    return .plain (x.number.sub y.number)
  | mul a b => do
    let x ← eval d a
    let y ← eval d b
    return .plain (x.number.mul y.number)
  | div a b => do
    let x ← eval d a
    let y ← eval d b
    return .plain (← x.number.div y.number)
  | scaleBy a b => do
    let x ← eval d a
    let y ← eval d b
    match y.number.wholeExponent? with
    | some k => return .plain (d.scale x.number k)
    | none => .error (.literal .exponentValue)
  | scale a k => do
    let x ← eval d a
    return .plain (d.scale x.number k)
  | neg a => do
    let x ← eval d a
    return d.negate x
  | factorial double a => do
    let x ← eval d a
    return .plain (← x.number.factorial double)
  | pow a k => do
    let x ← eval d a
    return .plain (← x.number.pow k)
  | productPow a k => do
    let x ← eval d a
    return .kept (← x.number.productPow k)
  | simplified a => do
    let x ← eval d a
    return d.simplify x

end Expr

end RatCalc

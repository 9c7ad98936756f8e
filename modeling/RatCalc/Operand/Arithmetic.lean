import RatCalc.Operand.Order

/-!
# Arithmetic of operands

Numbers of the tower and plain integers go together; fractions go with whatever has a numerator and a
denominator. Other pairs have no sum, product and so on.

* `add`, `sub`, `mul`, `div`, `modulo`, `gcd`, `lcm`, `pow`, `shift`: the operations.
* `addLevelled` … `divLevelled`, `productPow`, `promote`, `demote`: the tower's levels.
-/

namespace RatCalc.Operand

/-- An operation of numbers. -/
def onNumbers (f : Number → Number → Except Failure Number) (x y : Operand) :
    Except Failure Operand :=
  match x.number?, y.number? with
  | some a, some b => (f a b).map number
  | _, _ => .error .operand

/-- An operation of a fraction and something with numerator and denominator, or else of numbers. -/
def onFractions (f : Fraction → Fraction → Except Failure Fraction)
    (g : Number → Number → Except Failure Number) : Operand → Operand → Except Failure Operand
  | fraction a, y => do
    let b ← y.asFraction
    fraction <$> f a b
  | x, y => onNumbers g x y

/-- Sums. -/
def add : Operand → Operand → Except Failure Operand :=
  onFractions Fraction.add fun a b => .ok (a.add b)

/-- Differences. -/
def sub : Operand → Operand → Except Failure Operand :=
  onFractions Fraction.sub fun a b => .ok (a.sub b)

/-- How often a text or a list can be repeated: the count has to fit into a word of 64 bits. -/
def repetitions (k : Int) : Except Failure Nat :=
  if -9223372036854775808 ≤ k && k < 9223372036854775808 then .ok k.toNat else .error .overflow

/-- A text several times; its length has to fit into a word as well. -/
def repeatedText (s : WideText) (k : Int) : Except Failure Operand := do
  let k ← repetitions k
  if s.isEmpty then return datum (.text s)
  else if 9223372036854775808 ≤ s.points.length * k then .error .overflow
  else return datum (.text ⟨(List.replicate k s.points).flatten⟩)

/-- A list several times. -/
def repeatedList (items : List Operand) (k : Int) : Except Failure Operand := do
  let k ← repetitions k
  if items.isEmpty then return list []
  else return list (List.replicate k items).flatten

/-- Products; a text or a list is repeated as often as an integer of the tower says. -/
def mul : Operand → Operand → Except Failure Operand
  | datum (.text s), value ⟨.integer k, _⟩ => repeatedText s k
  | value ⟨.integer k, _⟩, datum (.text s) => repeatedText s k
  | list items, value ⟨.integer k, _⟩ => repeatedList items k
  | value ⟨.integer k, _⟩, list items => repeatedList items k
  | x, y => onFractions (fun a b => .ok (a.mul b)) (fun a b => .ok (a.mul b)) x y

/-- Quotients. -/
def div : Operand → Operand → Except Failure Operand := onFractions Fraction.div Number.div

/-- The remainder of an integer with the sign of the dividend. -/
def modulo : Operand → Operand → Except Failure Operand
  | value ⟨.integer a, _⟩, y =>
    match y.whole? with
    | some b => integer <$> Whole.modulo a b
    | none => .error (.calculation .moduloOperand)
  | _, _ => .error .operand

/-- The remainder as an operator: operands of other kinds have none. -/
def remainder (x y : Operand) : Except Failure Operand :=
  match y.whole? with
  | some _ => modulo x y
  | none => .error .operand

/-- The greatest common divisor of two integers. -/
def gcd : Operand → Operand → Except Failure Operand
  | value ⟨.integer a, _⟩, y =>
    match y.whole? with
    | some b => .ok (integer (Whole.gcd a b))
    | none => .error .operand
  | _, _ => .error .operand

/-- The least common multiple of two integers. That of zero is zero whatever the other operand is. -/
def lcm : Operand → Operand → Except Failure Operand
  | value ⟨.integer a, _⟩, y =>
    match y.whole? with
    | some b => .ok (integer (Whole.lcm a b))
    | none => if a = 0 then .ok (integer 0) else .error .operand
  | _, _ => .error .operand

/-- The operand of opposite sign. -/
def neg : Operand → Except Failure Operand
  | value v => .ok (number v.number.neg)
  | _ => .error .operand

/-- The magnitude. -/
def abs : Operand → Except Failure Operand
  | value v =>
    match v.number.abs? with
    | some x => .ok (number x)
    | none => .error .operand
  | _ => .error .operand

/-- Powers. -/
def pow : Operand → Operand → Except Failure Operand
  | value v, k => do return number (← v.number.pow (← k.exponent))
  | fraction a, k => do return fraction (← a.pow (← k.exponent))
  | _, _ => .error .operand

/-- The operand times a power of ten. -/
def shift : Operand → Operand → Except Failure Operand
  | value v, k => do return number (v.number.shift (← k.exponent))
  | fraction a, k => do return fraction (a.shift (← k.exponent))
  | fractions i, k => do return fractions (i.shift (← k.exponent))
  | _, _ => .error .operand

/-! ## Levels of the tower -/

/-- The number of the tower that an operand is. -/
def asValue : Operand → Except Failure Value
  | value v => .ok v
  | x => .error (.calculation (.unknownType x.typeName))

/-- The level of an operand. -/
def level (x : Operand) : Except Failure Nat := (·.number.level) <$> x.asValue

/-- A value raised to a level that is not below its own; at its own level it keeps its form. -/
def raised (v : Value) (target : Nat) : Value :=
  if v.number.level = target then v else .plain (v.number.raise target)

/-- The level that an operand is equal to. -/
def levelNumber? (x : Operand) : Option Nat := [0, 1, 2].find? fun (n : Nat) => x.same (whole n)

/-- The operand at a level that is not below its own. -/
def promote (x target : Operand) : Except Failure Operand :=
  match target.levelNumber? with
  | none => .error (.calculation (.targetLevel (String.ofList target.printed)))
  | some n => do
    let v ← x.asValue
    if n < v.number.level then
      .error (.calculation (.demotion v.number.level (String.ofList target.printed)))
    else return value (raised v n)

/-- Two operands at the higher of their levels. -/
def atCommonLevel (x y : Operand) : Except Failure (Value × Value) := do
  let v ← x.asValue
  let w ← y.asValue
  let target := if v.number.level < w.number.level then w.number.level else v.number.level
  return (raised v target, raised w target)

/-- An operation at the common level. -/
def levelled (f : Number → Number → Except Failure Number) (x y : Operand) :
    Except Failure Operand := do
  let v ← x.asValue
  let w ← y.asValue
  number <$> f v.number w.number

/-- The products of numbers of the interval that an operand stands for. One factor leaves an
interval as it is, with its form. -/
def productPow (x k : Operand) : Except Failure Operand := do
  let v ← x.asValue
  let k ← k.exponent
  let y ← v.number.productPow k
  return value ⟨y, v.keepForm && v.number.level == 2 && k == 1⟩

/-- The operand of opposite sign, if it is in the tower. -/
def negLevelled (x : Operand) : Except Failure Operand := do
  return number (← x.asValue).number.neg

/-- The operand in its simplest kind. -/
def demote : Operand → Except Failure Operand
  | value v => .ok (value v.demote)
  | _ => .error .operand

end RatCalc.Operand

import RatCalc.Operand.Order

/-!
# Counts and bounds

* `plain`: an operand that takes part in arithmetic of plain integers.
* `count`: how often something is to be done.
* `exceeds?`, `isBelow`: comparison with an integer.
* `searchLimit`: how far a period is to be searched.
* `plain_whole`, `count_whole`, `size?_whole`, `isBelow_whole`: what these are of a plain integer.
-/

namespace RatCalc.Operand

/-- A plain integer; a truth value is zero or one. -/
def plain : Operand → Except Failure Int
  | datum (.truth b) => .ok (if b then 1 else 0)
  | datum (.int n) => .ok n
  | _ => .error .operand

/-- A plain integer or an integer of the tower. -/
def count (x : Operand) : Except Failure Int :=
  match x.whole? with
  | some n => .ok n
  | none => x.plain

/-- The value that an operand is compared by. -/
def size? : Operand → Option Rat
  | datum d => numeric? d
  | x => x.number?.bind Number.toRat?

/-- Whether an operand is greater than an integer, if it can be compared with one. -/
def exceeds? (x : Operand) (n : Int) : Option Bool :=
  match x with
  | datum (.real (.infinite negative)) => some !negative
  | datum (.real .undefined) => some false
  | x => x.size?.map fun a => decide ((n : Rat) < a)

/-- Whether an operand is less than an integer. -/
def isBelow (x : Operand) (n : Int) : Except Failure Bool :=
  match x with
  | datum (.real (.infinite negative)) => .ok negative
  | datum (.real .undefined) => .ok false
  | x =>
    match x.size? with
    | some a => .ok (decide (a < (n : Rat)))
    | none => .error .operand

/-- The limit of the search for a period modulo `m`: the least integer that is not below the operand,
or the usual limit if there is none. Every period modulo `m` is found below `m + 1`. -/
def searchLimit (x : Operand) (m : Nat) : Except Failure Nat :=
  match x with
  | datum .null => .ok Expansion.defaultLimit
  | datum (.real (.infinite negative)) => .ok (if negative then 0 else m + 1)
  | x =>
    match x.size? with
    | some a => .ok a.ceil.toNat
    | none => .error .operand

/-! ## Plain integers -/

theorem plain_whole (n : Int) : (whole n).plain = pure n := rfl

theorem count_whole (n : Int) : (whole n).count = pure n := rfl

theorem size?_whole (n : Int) : (whole n).size? = some (n : Rat) := rfl

theorem isBelow_whole (n m : Int) : (whole n).isBelow m = .ok (decide (n < m)) := by
  have h : (whole n).isBelow m = .ok (decide ((n : Rat) < (m : Rat))) := rfl
  rw [h]
  simp only [Rat.intCast_lt_intCast]

end RatCalc.Operand

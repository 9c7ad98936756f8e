import RatCalc.Operand.Conversion

/-!
# Equality and order of operands

* `same`, `isZero`: equality. Numbers are equal by value, intervals and fractions by their parts, numeral
  systems by their digits.
* `order`: how two numbers or fractions are ordered; `compare` also takes texts.
* `distinct`: a list without later equals.
-/

namespace RatCalc.Operand

/-- The value of plain data that are numbers. -/
def numeric? : Datum → Option Rat
  | .truth b => some (if b then 1 else 0)
  | .int n => some n
  | .real x => Ratio.ofBinary64? x
  | _ => none

mutual

/-- Whether two plain data are equal; a truth value counts as zero or one. -/
def sameDatum : Datum → Datum → Bool
  | .null, .null => true
  | .text s, .text t => s == t
  | .list xs, .list ys => sameDatumList xs ys
  | .record xs, .record ys => xs.length == ys.length && sameFields xs ys
  | x, y =>
    match numeric? x, numeric? y with
    | some a, some b => a == b
    | _, _ => false

/-- Whether two lists of plain data are equal. -/
def sameDatumList : List Datum → List Datum → Bool
  | [], [] => true
  | x :: xs, y :: ys => sameDatum x y && sameDatumList xs ys
  | _, _ => false

/-- Whether every field has an equal in a record. -/
def sameFields : List (WideText × Datum) → List (WideText × Datum) → Bool
  | [], _ => true
  | (key, x) :: xs, ys =>
    (match ys.lookup key with
      | some y => sameDatum x y
      | none => false) && sameFields xs ys

end

/-- Whether two operands are equal. -/
def same : Operand → Operand → Bool
  | datum x, datum y => sameDatum x y
  | fraction a, fraction b => a == b
  | fractions i, fractions j => i == j
  | system s, system t => s.sameDigits t
  | x, y =>
    match x.number?, y.number? with
    | some a, some b => a.same b
    | _, _ => false

/-- Whether an operand is equal to zero, or the interval of zero alone. -/
def isZero : Operand → Bool
  | value v => v.number.isZero
  | x => same x (whole 0)

/-- How two operands are ordered. Intervals are not. -/
def order (x y : Operand) : Except Failure Ordering :=
  match x, y with
  | fraction a, fraction b => .ok (a.order b)
  | fraction a, value ⟨.integer n, _⟩ => .ok (Ratio.order a.toRat n)
  | value ⟨.integer n, _⟩, fraction a => .ok (Ratio.order n a.toRat)
  | x, y =>
    match x.number?.bind Number.toRat?, y.number?.bind Number.toRat? with
    | some a, some b => .ok (Ratio.order a b)
    | _, _ => .error .operand

/-- How two operands are ordered, where an integer is also compared with a literal. -/
def compare (x y : Operand) : Except Failure Ordering :=
  match x, y with
  | value ⟨.integer n, _⟩, y =>
    match y.whole? with
    | some k => .ok (Ratio.order n k)
    | none => do return Ratio.order n (← toRational y (whole 1))
  | x, y => order x y

/-- The operands without those that are equal to an earlier one. They are looked up in a table, so
none may be a list or a record. -/
def distinct (xs : List Operand) : Except Failure (List Operand) :=
  if xs.any isCompound then .error .operand
  else .ok (xs.foldl (fun found x => if found.any fun y => same y x then found else found ++ [x]) [])

end RatCalc.Operand

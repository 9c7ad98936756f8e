import RatCalc.Expansion.Signed
import RatCalc.Operand.Measure

/-!
# Expansions of operands

A quotient is handed in as numerator and denominator, with counts and limits beside it. An operand
that plays no part in the result is not looked at: over a numerator of zero the denominator may be
anything, and a limit matters only where a period has to be searched.

* `countFactor`, `divide`, `periodLength`: factors, long division and periods.
* `expansion`, `segment`: the expansion of a quotient, and digits of its period.
* `decimal`, `repeating`, `scientific`: texts of quotients.
* `compress`, `expand`: rows of digits.
-/

namespace RatCalc.Operand

/-! ## Parts -/

/-- Whether an operand is equal to an integer. -/
def equals (x : Operand) (n : Int) : Bool := x.same (whole n)

/-- How often a factor divides a number. -/
def countFactor (n factor : Operand) : Except Failure Nat := do
  if n.equals 0 then return 0
  else return Expansion.countFactor (← n.plain).natAbs (← factor.plain).natAbs

/-- Long division: the digits, and the remainder left. -/
def divide (r d times : Operand) : Except Failure (Text × Operand) := do
  let k ← times.count
  if k ≤ 0 || r.equals 0 then return ([], r)
  else
    let (digits, rest) := Expansion.divideDown (← r.plain) (← d.plain) k.toNat
    return (digits, whole rest)

/-- The length of the period modulo a number. -/
def periodLength (m limit : Operand) : Except Failure (Option Nat) := do
  if m.equals 1 then return some 0
  else
    let m ← m.plain
    let limit ← limit.searchLimit m.natAbs
    return if m < 0 then none else Expansion.orderOfTen m.toNat limit

/-! ## Expansions -/

/-- The expansion of `n / d` without digits of its period. -/
def searched (n : Int) (d : Nat) (limit : Operand) : Except Failure Expansion := do
  if Expansion.ends n d then return Expansion.of n d 0 0
  else return Expansion.of n d 0 (← limit.searchLimit d)

/-- The expansion of `n / -m` without digits of its period. -/
def searchedBelow (n : Int) (m : Nat) (limit : Operand) : Except Failure Expansion := do
  let e := Expansion.below n m 0
  if e.terminates then return e
  else
    let _ ← limit.searchLimit m
    return e

/-- The expansion of `n / d` over a denominator of either sign, without digits of its period. -/
def searchedSigned (n d : Int) (limit : Operand) : Except Failure Expansion :=
  if d < 0 then searchedBelow n d.natAbs limit else searched n d.natAbs limit

/-- As many digits as asked for, but at most one period. -/
def cappedCount (digits : Operand) (p : Nat) : Except Failure Nat := do
  if ← digits.isBelow p then Int.toNat <$> digits.count else return p

/-- The expansion of a quotient with some digits of its period. -/
def expansion (n d digits limit : Operand) : Except Failure Expansion := do
  let d ← d.plain
  let e ← searchedSigned (← n.plain) d limit
  let k ← match e.periodLength with
    | some 0 => pure 0
    | some p => digits.cappedCount p
    | none => Int.toNat <$> digits.count
  return e.withPeriod d.natAbs k

/-- The lesser of two counts. -/
def lesser (x y : Operand) : Except Failure Nat :=
  match x.size?, y.size? with
  | some a, some b => Int.toNat <$> (if b < a then y else x).count
  | _, _ => .error .operand

/-- The digits of a period of given length that follow as many places as `initial` has. -/
def segment (n d initial length requested : Operand) : Except Failure Text := do
  if length.equals 0 || length.equals (-1) then return []
  else
    let n ← n.plain
    let d ← d.plain
    let start ← match initial.items? with
      | some items => .ok items.length
      | none => .error .operand
    let k ← requested.lesser length
    let r : Int := if d < 0 then Expansion.remainderBelow n d.natAbs else n
    return Expansion.periodSegment r d.natAbs start (some k) k

/-! ## Texts -/

/-- The decimal of a quotient, cut after some digits. -/
def decimal (n d digits : Operand) : Except Failure Text := do
  if n.equals 0 then return ['0']
  else
    let n ← n.plain
    let d ← d.plain
    let k := (← digits.count).toNat
    return if d < 0 then Expansion.truncatedBelow n d.natAbs k
      else Expansion.truncated n d.natAbs k

/-- The repeating decimal of a quotient, with the length of its period. -/
def repeating (n d : Operand) (useGroups : Bool) (limit maxDigits : Operand) :
    Except Failure (Text × Option Nat) := do
  if n.equals 0 then return (['0'], some 0)
  else
    let n ← n.plain
    let d ← d.plain
    let e ← searchedSigned n d limit
    let k ← match e.periodLength, maxDigits with
      | none, _ | some 0, _ | some _, datum .null => pure none
      | some p, k => some <$> k.cappedCount p
    let whole := if d < 0 then Expansion.wholeTextBelow n d.natAbs
      else Expansion.sign e.negative ++ Numeral.ofNat e.whole
    return Expansion.repeatingAfter whole e d.natAbs useGroups k

/-- The precision of a mantissa that takes the given part of it before the digits that it cuts. Where
no more than one digit is left of it, its size alone matters. -/
def precision (x : Operand) : Option Nat → Except Failure Nat
  | none => .ok 0
  | some used =>
    match x.exceeds? (used + 1 : Nat) with
    | some true => Int.toNat <$> x.count
    | some false => .ok 0
    | none => .error .operand

/-- Mantissa and exponent of a quotient, with a note on its period if that is wanted. -/
def scientific (n d : Operand) (useGroups : Bool) (digits : Operand) (withNote : Bool)
    (limit : Operand) : Except Failure Text := do
  if n.equals 0 then return ['0']
  else
    let d ← d.plain
    let e ← searchedSigned (← n.plain) d limit
    let k := match e.periodLength with
      | some p => if p < Expansion.scientificDigits then p else Expansion.scientificDigits
      | none => Expansion.scientificDigits
    let e := e.withPeriod d.natAbs k
    let e := if d < 0 then { e with whole := 0 } else e
    let k ← digits.precision (e.precisionUse? useGroups)
    return e.scientificOf useGroups k withNote

/-! ## Rows of digits -/

/-- The characters of a text, or of a list of characters. -/
def characters? (x : Operand) : Option Text :=
  match x.text? with
  | some t => some t
  | none => x.items?.bind fun items => items.mapM character?

/-- A row of digits with its long runs as groups; what is empty stays as it is. -/
def compress (digits threshold : Operand) : Except Failure Operand := do
  if !digits.holds then return digits
  else
    match digits.characters?, threshold.size? with
    | some t, some k => return text (RunLength.compress k.ceil.toNat t)
    | _, _ => .error .operand

/-- A row of digits with its groups written out; what has no brace stays as it is. -/
def expand (digits : Operand) : Except Failure Operand := do
  if !digits.holds then return digits
  else
    match digits.text?, digits.items? with
    | some t, _ => return text (RunLength.expand t)
    | none, some items =>
      if items.any fun x => x.same (text ['\x7b']) then .error .operand else return digits
    | none, none => .error .operand

end RatCalc.Operand

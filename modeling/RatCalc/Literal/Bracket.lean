import RatCalc.Literal.Decimal

/-!
# Literals with brackets

* `1.23[56,67]`: the further digits of the two endpoints.
* `1.23[+-5]`, `1.23[+5,-6]`: offsets, which count units of the digit after the last place.
* `1.[#3,5]`: a base that ends in its point, with what follows it at the two endpoints.

The main readers are `uncertainty` for a bracket, `offset` for what may stand in one, and `decimal`
for a literal of any form.
-/

namespace RatCalc.Literal

open Text Numeral

/-! ## Parts of brackets -/

/-- The base and the contents of a bracket literal at the start of a text, and what follows. -/
def bracket? (t : Text) : Option (Text × Text × Text) :=
  let (minus, t) := match t with
    | '-' :: rest => (['-'], rest)
    | t => ([], t)
  let whole := t.takeWhile isDecimal
  let (base, rest) := match t.dropWhile isDecimal with
    | '.' :: u => (whole ++ '.' :: u.takeWhile isDecimal, u.dropWhile isDecimal)
    | u => (whole, u)
  match rest with
  | '[' :: u =>
    match u.dropWhile (· != ']') with
    | ']' :: after =>
      let contents := u.takeWhile (· != ']')
      if contents.isEmpty then none else some (minus ++ base, contents, after)
    | _ => none
  | _ => none

/-- Whether the contents of a bracket are one offset in both directions. -/
def isSymmetric : Text → Bool
  | '+' :: '-' :: _ => true
  | '-' :: '+' :: _ => true
  | _ => false

/-- How many digits stand after the point of a base. -/
def placesOf (base : Text) : Nat := (base.dropWhile (· != '.')).length - 1

/-- Whether a base ends in its point. -/
def endsInPoint (base : Text) : Bool :=
  match base.reverse with
  | '.' :: rest =>
    match rest.reverse with
    | '-' :: digits => isNumeral digits
    | digits => isNumeral digits
  | _ => false

/-- An offset in the unit of a base with some places. -/
def inUnits (offset : Rat) (places : Nat) : Rat :=
  if places = 0 then offset else offset / (Nat.pow 10 (places + 1) : Nat)

/-- Whether a text is a number with digits on both sides of its point, if it has one. -/
def isRangeValue (t : Text) : Bool :=
  match splitOnce (· == '.') (body t) with
  | none => isNumeral (body t)
  | some (whole, fraction) => isNumeral whole && isNumeral fraction

/-- Whether a text is a decimal with an optional minus sign and digits on one side of its point. -/
def isPlainNumber (t : Text) : Bool :=
  let t := match body t with
    | '-' :: rest => rest
    | t => t
  match splitOnce (· == '.') t with
  | none => isNumeral t
  | some (whole, fraction) =>
    (isNumeral whole && fraction.all isDecimal) || (whole.isEmpty && isNumeral fraction)

/-- Whether a text is an integer with an optional minus sign. -/
def isExponent (t : Text) : Bool :=
  match body t with
  | '-' :: digits => isNumeral digits
  | digits => isNumeral digits

/-! ## Brackets by their contents -/

/-- A bracket with the further digits of the two endpoints. -/
def rangeBracket (base contents : Text) (places : Nat) (integerBase : Bool) :
    Except Failure Interval :=
  if places = 0 && !integerBase then .error (.uncertainty .rangeOnInteger)
  else
    match split (fun c => c = ',' || c = ':') contents with
    | [lower, upper] =>
      let lower := trim lower
      let upper := trim upper
      let lowerWhole := lower.takeWhile (· != '.')
      let upperWhole := upper.takeWhile (· != '.')
      if !isRangeValue lower || !isRangeValue upper then .error (.uncertainty .rangeValue)
      else if places = 0 && lowerWhole.length != upperWhole.length then
        .error (.uncertainty (.rangeWidths (String.ofList base) (String.ofList lower)
          (String.ofList upper) (String.ofList lowerWhole) (String.ofList upperWhole)))
      else do
        let first ← rational (base ++ lower)
        let second ← rational (base ++ upper)
        return .hull first second
    | _ => .error (.uncertainty .rangeCount)

/-- A single number from a decimal literal; what stands for an interval cannot be an endpoint. -/
def endpoint : Number → Except Failure Rat
  | .integer n => .ok n
  | .rational a => .ok a
  | .interval i => .error (.literal (.intervalEndpoint (String.ofList i.shown)))

/-- What follows a base that ends in its point: a period, or digits. -/
def pointEndpoint (read : Text → Except Failure Number) (base t : Text) : Except Failure Number :=
  if t.head? = some '#' then read (base ++ t)
  else if isDigitsLike t then (rational (base ++ t)).map .rational
  else .error (.uncertainty (.pointEndpoint (String.ofList t)))

/-- A bracket whose base ends in its point. -/
def pointBracket (read : Text → Except Failure Number) (base contents : Text) :
    Except Failure Interval :=
  match split (· == ',') contents with
  | [_] => .error (.uncertainty .pointFormat)
  | [lower, upper] => do
    let lower ← pointEndpoint read base (trim lower)
    let upper ← pointEndpoint read base (trim upper)
    return .hull (← endpoint lower) (← endpoint upper)
  | _ => .error (.uncertainty .rangeCount)

/-- An offset: a plain number or a decimal with its period, with an optional power of ten. -/
def offsetOf (read : Text → Except Failure Number) (t : Text) : Except Failure Rat := do
  let (t, exponent) ←
    match splitOnce (· == 'E') t with
    | none => pure (t, 0)
    | some (mantissa, exponent) =>
      if isExponent exponent then pure (mantissa, ← wholeOf exponent)
      else .error (.uncertainty .exponent)
  if t.elem '#' then
    match (← read t).toRat? with
    | some a => return Ratio.shift 10 a exponent
    | none => .error (.uncertainty .offsetInterval)
  else if isPlainNumber t then return Ratio.shift 10 (← rational t) exponent
  else .error (.uncertainty .symmetricOffset)

/-- The offsets upwards and downwards of a bracket, as far as they were found. -/
structure Offsets where
  up : Option Rat
  down : Option Rat

/-- One offset of a pair, added to those found before. -/
def Offsets.include (found : Offsets) (t : Text) : Except Failure Offsets :=
  match t with
  | '+' :: rest =>
    if found.up.isSome then .error (.uncertainty .secondPositive)
    else if rest.isEmpty then .error (.uncertainty .missingOffset)
    else (offsetOf unbracketed rest).map fun a => ⟨some a, found.down⟩
  | '-' :: rest =>
    if found.down.isSome then .error (.uncertainty .secondNegative)
    else if rest.isEmpty then .error (.uncertainty .missingOffset)
    else (offsetOf unbracketed rest).map fun a => ⟨found.up, some a⟩
  | _ => .error (.uncertainty .unsignedOffset)

/-- A bracket with an offset in either direction. -/
def offsetsBracket (base : Rat) (contents : Text) (places : Nat) : Except Failure Interval :=
  match split (· == ',') contents with
  | [first, second] => do
    let found ← Offsets.include ⟨none, none⟩ (trim first)
    let found ← found.include (trim second)
    match found.up, found.down with
    | some up, some down => return .hull (base - inUnits down places) (base + inUnits up places)
    | _, _ => .error (.uncertainty .offsetSigns)
  | _ => .error (.uncertainty .relativeCount)

/-- A bracket with the same offset in both directions. -/
def symmetricBracket (base : Rat) (contents : Text) (places : Nat) : Except Failure Interval :=
  match contents.drop 2 with
  | [] => .error (.uncertainty .symmetricOffset)
  | t => do
    let offset ← offsetOf unbracketed t
    return .hull (base - inUnits offset places) (base + inUnits offset places)

/-! ## Whole literals -/

/-- The interval of a base and the contents of its bracket. Whether the bracket of an integer may
hold further digits is up to the caller. -/
def bracketed (base contents : Text) (integerBase : Bool) : Except Failure Interval :=
  if endsInPoint base && !isSymmetric contents then pointBracket unbracketed base contents
  else if base.all fun c => c = '-' || c = '.' then .error (.uncertainty .missingBase)
  else do
    let value ← rational base
    let places := placesOf base
    if contents.any (fun c => c = ',' || c = ':') && !contents.any (fun c => c = '+' || c = '-') then
      rangeBracket base contents places integerBase
    else if isSymmetric contents then symmetricBracket value contents places
    else offsetsBracket value contents places

/-- A number with a bracket, as a whole text. -/
def uncertainty (t : Text) (integerBase : Bool) : Except Failure Interval :=
  match bracket? (body t) with
  | some (base, contents, []) => bracketed base contents integerBase
  | _ => .error (.uncertainty .format)

/-- A decimal of any form: with a period, plain, with a bracket, or the interval of two. -/
def decimal (t : Text) : Except Failure Number := do
  let t ← prepared t
  if t.elem '[' && t.elem ']' then (uncertainty t false).map .interval
  else if t.elem ':' then (pairOf unbracketed t).map .interval
  else singleDecimal t

/-- The interval of two decimals with a colon between them. -/
def decimalPair (t : Text) : Except Failure Interval := pairOf decimal t

/-- An offset that stands alone. -/
def offset (t : Text) : Except Failure Rat := offsetOf decimal t

end RatCalc.Literal

import RatCalc.Expr.Digit
import RatCalc.Literal.Bracket

/-!
# Literals in expressions

The forms are the integer, the fraction `a/b`, the mixed number `a..b/c`, the decimal with or
without a period, the continued fraction `a.~b~c`, and the integer after a letter `0xff`. In another
numeral system than the decimal one there are no continued fractions and no letters.

* `Dialect.unsigned`, `Dialect.endpoint`: a single number, without and with its sign.
* `Dialect.interval`: one number, or two with a colon between them.
-/

namespace RatCalc

/-- A single number as it is written; an explicit denominator of one is kept. -/
structure Endpoint where
  value : Rat
  kept : Bool
  deriving DecidableEq

namespace Dialect

open Text Literal

/-- The longest row of digits and tildes at the start of a text, in which a digit follows every
tilde. -/
def termRow : Text → Text × Text
  | [] => ([], [])
  | c :: rest =>
    if isDecimal c || (c = '~' && rest.head?.any isDecimal) then
      (c :: (termRow rest).1, (termRow rest).2)
    else ([], c :: rest)

/-- A continued fraction at the start of a text. -/
def continuedFraction? (t : Text) : Option (Text × Text) :=
  let (minus, t) := match t with
    | '-' :: rest => (['-'], rest)
    | t => ([], t)
  let first := t.takeWhile isDecimal
  match t.dropWhile isDecimal with
  | '.' :: '~' :: c :: rest =>
    if !first.isEmpty && isDecimal c then
      let (row, rest) := termRow (c :: rest)
      some (minus ++ first ++ '.' :: '~' :: row, rest)
    else none
  | _ => none

/-- The length of a group `{d~k}` of digits at the start of a text, or zero. -/
def groupLength (t : Text) : Nat :=
  match t with
  | '\x7b' :: u =>
    match u.dropWhile isDecimal with
    | '~' :: v =>
      match v.dropWhile isDecimal with
      | '\x7d' :: rest =>
        if (u.takeWhile isDecimal).isEmpty || (v.takeWhile isDecimal).isEmpty then 0
        else t.length - rest.length
      | _ => 0
    | _ => 0
  | _ => 0

/-- Digits and groups of digits at the start of a text; `skip` characters belong to a group that was
found before. -/
def digitRuns : (skip : Nat) → Text → Text × Text
  | _, [] => ([], [])
  | skip + 1, c :: rest => (c :: (digitRuns skip rest).1, (digitRuns skip rest).2)
  | 0, c :: rest =>
    if isDecimal c then (c :: (digitRuns 0 rest).1, (digitRuns 0 rest).2)
    else
      match groupLength (c :: rest) with
      | k + 1 => (c :: (digitRuns k rest).1, (digitRuns k rest).2)
      | 0 => ([], c :: rest)

/-- What stands before the period of a decimal: digits, a point and digits that may be grouped. -/
def fixedPart? (t : Text) : Option (Text × Text) :=
  match t.takeWhile isDecimal, t.dropWhile isDecimal with
  | [], '.' :: u =>
    if (digitRuns 0 u).1.isEmpty then none else some ('.' :: (digitRuns 0 u).1, (digitRuns 0 u).2)
  | [], _ => none
  | whole, '.' :: u => some (whole ++ '.' :: (digitRuns 0 u).1, (digitRuns 0 u).2)
  | whole, u => some (whole ++ (digitRuns 0 u).1, (digitRuns 0 u).2)

/-- A decimal with its period at the start of a text. -/
def repeating? (t : Text) : Option (Text × Text) :=
  match fixedPart? t with
  | some (fixed, '#' :: u) => some (fixed ++ '#' :: (digitRuns 0 u).1, (digitRuns 0 u).2)
  | _ => none

/-- A decimal with digits after its point at the start of a text. -/
def pointed? (t : Text) : Option (Text × Text) :=
  match t.dropWhile isDecimal with
  | '.' :: u =>
    let fraction := u.takeWhile isDecimal
    if fraction.isEmpty then none
    else some (t.takeWhile isDecimal ++ '.' :: fraction, u.dropWhile isDecimal)
  | _ => none

/-- The value of a decimal with its period; what is wrong with it is told as such. -/
def repeatingValue (t : Text) : Except Failure Rat :=
  match decimal t with
  | .ok x =>
    match x.toRat? with
    | some a => .ok a
    | none => .error (.literal .repeatFormat)
  | .error f =>
    match f.report? with
    | some (_, message) => .error (.literal (.repeatingDecimal message))
    | none => .error f

/-- An integer after a letter that names its numeral system. -/
def lettered? (d : Dialect) (t : Text) : Option (Rat × Text) :=
  match d.system, t with
  | none, '0' :: c :: u =>
    if LetterTable.isLetter c then
      (d.letters.system? [c]).bind fun s =>
        let digits := u.takeWhile s.isDigit
        match s.natValue digits with
        | .ok n => if digits.isEmpty then none else some ((n : Rat), u.dropWhile s.isDigit)
        | .error _ => none
    else none
  | _, _ => none

/-- A decimal in another numeral system, with or without a period. A text without a point, or with
the two points of a mixed number, is none. -/
def pointedIn (d : Dialect) (s : NumeralSystem) (t : Text) : Except Failure (Option (Rat × Text)) := do
  let (whole, rest) ← d.digits t
  match rest with
  | '.' :: '.' :: _ => return none
  | '.' :: '~' :: _ => return none
  | '.' :: rest =>
    let (fraction, rest) ← d.digits rest
    let (period, rest) ← match rest with
      | '#' :: rest => do
        let (period, rest) ← d.digits rest
        if period.isEmpty then
          .error (.literal (.repeatingDecimal (LiteralFault.message .repeatDigits)))
        else pure (some period, rest)
      | rest => pure (none, rest)
    if whole.isEmpty && fraction.isEmpty then .error (.literal .decimalFormat)
    else
      let ab ← s.natValue (whole ++ fraction)
      let a ← match period with
        | none => Ratio.ofInts ab (Nat.pow s.base fraction.length : Nat)
        | some period => do
          let abc ← s.natValue (whole ++ fraction ++ period)
          repeatingFraction ab abc fraction.length period.length s.base
      return some (a, rest)
  | _ => return none

/-- The denominator of a fraction or mixed number, after its slash. -/
def denominator (d : Dialect) (mixed : Bool) (t : Text) : Except Failure (Nat × Text) := do
  let (ds, rest) ← d.digits t
  if ds.isEmpty then
    .error (.literal (if mixed then .mixedDenominator else .missingDenominator))
  else if d.marker.isPrefixOf rest then
    .error (.literal (if mixed then .exponentAfterMixed else .exponentAfterFraction))
  else
    let n ← d.value ds
    if n = 0 then .error (.division .zeroDenominator) else return (n, rest)

/-- What follows the slash of a fraction, unless the slash is a division. -/
def slash? : Text → Option Text
  | '/' :: '(' :: _ => none
  | '/' :: c :: rest => if c = divisionMark then none else some (c :: rest)
  | '/' :: [] => some []
  | _ => none

/-- An integer, fraction or mixed number. -/
def fraction (d : Dialect) (t : Text) : Except Failure (Endpoint × Text) := do
  let (ds, rest) ← d.digits t
  if ds.isEmpty then
    .error (.literal (.unexpectedToken (String.ofList (d.display (t.take 1)))))
  else
    let whole ← d.value ds
    match rest with
    | '.' :: '.' :: rest =>
      let (ds, rest) ← d.digits rest
      if ds.isEmpty then .error (.literal .mixedNumerator)
      else
        let n ← d.value ds
        match slash? rest with
        | none => .error (.literal .mixedDenominator)
        | some rest =>
          let (den, rest) ← d.denominator true rest
          return (⟨mkRat (whole * den + n) den, false⟩, rest)
    | rest =>
      match slash? rest with
      | none => return (⟨whole, false⟩, rest)
      | some rest =>
        let (den, rest) ← d.denominator false rest
        return (⟨mkRat whole den, den == 1⟩, rest)

/-- A single number without a sign. -/
def unsigned (d : Dialect) (t : Text) : Except Failure (Endpoint × Text) :=
  if t.isEmpty then .error (.literal .unexpectedEnd)
  else
    match d.system with
    | some s => do
      match ← d.pointedIn s t with
      | some (a, rest) => return (⟨a, false⟩, rest)
      | none => d.fraction t
    | none =>
      match d.lettered? t, repeating? t, pointed? t with
      | some (a, rest), _, _ => .ok (⟨a, false⟩, rest)
      | none, some (literal, rest), _ => do return (⟨← repeatingValue literal, false⟩, rest)
      | none, none, some (literal, rest) => do return (⟨← rational literal, false⟩, rest)
      | none, none, none => d.fraction t

/-- A single number with an optional minus sign. The sign of a continued fraction belongs to its
first term. -/
def endpoint (d : Dialect) (t : Text) : Except Failure (Endpoint × Text) :=
  match d.system, continuedFraction? t with
  | none, some (literal, rest) => do return (⟨← continuedFraction literal, false⟩, rest)
  | _, _ =>
    match t with
    | '-' :: rest => do
      let (e, rest) ← d.unsigned rest
      return (⟨-e.value, e.kept⟩, rest)
    | t => d.unsigned t

/-- A single number with its exponent, if it has one. Where a colon has to come (`beforeColon`) and
does not, the exponent is left in the text. -/
def scaledEndpoint (d : Dialect) (beforeColon : Bool) (t : Text) : Except Failure (Endpoint × Text) := do
  let (e, rest) ← d.endpoint t
  if d.exponentFollows rest then
    let (k, after) ← d.exponent (rest.drop d.marker.length)
    if beforeColon && after.head? != some ':' then return (e, rest)
    else return (⟨Ratio.shift d.radix e.value k, false⟩, after)
  else return (e, rest)

/-- A decimal with nothing but digits around its point, with an optional minus sign, at the start of
a text: its sign, its text without the sign, the number of its places, and what follows. -/
def plain? (d : Dialect) (t : Text) : Option (Bool × Text × Nat × Text) :=
  let (negative, t) := match t with
    | '-' :: rest => (true, rest)
    | t => (false, t)
  match t.dropWhile d.isDigit with
  | '.' :: u =>
    let fraction := u.takeWhile d.isDigit
    let rest := u.dropWhile d.isDigit
    if fraction.isEmpty || rest.head?.any (['#', ':', '~', '[', '.'].contains ·) then none
    else some (negative, t.takeWhile d.isDigit ++ '.' :: fraction, fraction.length, rest)
  | _ => none

/-- The interval of the numbers that are rounded to a decimal. -/
def uncertain (d : Dialect) (t : Text) (negative : Bool) (literal : Text) (places : Nat)
    (rest : Text) : Except Failure (Number × Text) :=
  match d.system with
  | none => do return (← plainDecimal literal negative, rest)
  | some s => do
    let (e, rest) ← d.endpoint t
    let radius := mkRat 1 (2 * Nat.pow s.base places)
    return (.interval (.hull (e.value - radius) (e.value + radius)), rest)

/-- One number, or the interval of two with a colon between them; the second component tells which.
An interval that was written out is kept. -/
def interval (d : Dialect) (t : Text) : Except Failure ((Value × Bool) × Text) :=
  match d.exact, d.plain? t with
  | false, some (negative, literal, places, rest) => do
    let (x, rest) ← d.uncertain t negative literal places rest
    return ((.plain x, false), rest)
  | _, _ => do
    let (a, rest) ← d.scaledEndpoint true t
    match rest with
    | ':' :: rest =>
      let (b, rest) ← d.scaledEndpoint false rest
      return ((.kept (.interval (.hull a.value b.value)), true), rest)
    | rest =>
      if !d.exact then return ((.plain (.interval (.point a.value)), false), rest)
      else if a.value.den = 1 && !a.kept then
        return ((.plain (.integer a.value.num), false), rest)
      else return ((⟨.rational a.value, a.kept⟩, false), rest)

end Dialect

end RatCalc

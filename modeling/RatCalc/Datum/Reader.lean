import RatCalc.Datum.Basic

/-!
# Reading plain data

The texts are JSON, with the numbers `NaN`, `Infinity` and `-Infinity` besides. A number with a
point or an exponent is a double, any other an integer. Of several fields with one key the last
counts. An escaped surrogate without its partner is a code point of its own.

* `Datum.read?`: reads a whole text, or nothing if it is malformed.
-/

namespace RatCalc.Datum.Reader

open Text

/-- The blanks that may stand between tokens. -/
def isSpace (c : Char) : Bool := c = ' ' || c = '\t' || c = '\n' || c = '\r'

/-- The text without leading blanks. -/
def skip (t : Text) : Text := t.dropWhile isSpace

/-- The value of a hexadecimal digit. -/
def hexValue? (c : Char) : Option Nat :=
  if '0' ≤ c && c ≤ '9' then some (c.toNat - 48)
  else if 'a' ≤ c && c ≤ 'f' then some (c.toNat - 87)
  else if 'A' ≤ c && c ≤ 'F' then some (c.toNat - 55)
  else none

/-- The number that four hexadecimal digits stand for. -/
def unit? (a b c d : Char) : Option Nat := do
  let a ← hexValue? a
  let b ← hexValue? b
  let c ← hexValue? c
  let d ← hexValue? d
  return ((a * 16 + b) * 16 + c) * 16 + d

/-- The code point of a pair of surrogates, if the two numbers are one. -/
def pair? (high low : Nat) : Option CodePoint :=
  if 0xD800 ≤ high && high < 0xDC00 && 0xDC00 ≤ low && low < 0xE000 then
    some (.ofNat (0x10000 + (high - 0xD800) * 0x400 + (low - 0xDC00)))
  else none

/-- The character that stands after a backslash and a letter other than `u`. -/
def escape? : Char → Option Char
  | '\x22' => some '\x22'
  | '\\' => some '\\'
  | '/' => some '/'
  | 'b' => some '\x08'
  | 'f' => some '\x0c'
  | 'n' => some '\n'
  | 'r' => some '\r'
  | 't' => some '\t'
  | _ => none

/-- The code points of a quoted text, up to its closing quote, and what follows. -/
def points? : Text → Option (List CodePoint × Text)
  | [] => none
  | '\x22' :: rest => some ([], rest)
  | '\\' :: 'u' :: a :: b :: c :: d :: '\\' :: 'u' :: e :: f :: g :: h :: rest => do
    let high ← unit? a b c d
    let low ← unit? e f g h
    match pair? high low with
    | some p =>
      let (s, after) ← points? rest
      return (p :: s, after)
    | none =>
      let (s, after) ← points? ('\\' :: 'u' :: e :: f :: g :: h :: rest)
      return (.ofNat high :: s, after)
  | '\\' :: 'u' :: a :: b :: c :: d :: rest => do
    let code ← unit? a b c d
    let (s, after) ← points? rest
    return (.ofNat code :: s, after)
  | '\\' :: x :: rest => do
    let x ← escape? x
    let (s, after) ← points? rest
    return (.char x :: s, after)
  | x :: rest =>
    if x.toNat < 32 then none
    else do
      let (s, after) ← points? rest
      return (.char x :: s, after)

/-- The rest of a quoted text, and what follows. -/
def string? (t : Text) : Option (WideText × Text) :=
  (points? t).map fun (s, after) => (⟨s⟩, after)

/-- The digits at the start of a text, and the rest. -/
def digits (t : Text) : Text × Text := (t.takeWhile isPlainDigit, t.dropWhile isPlainDigit)

/-- A fractional part, if one follows. -/
def fraction (t : Text) : Text × Text :=
  match t with
  | '.' :: rest => if (digits rest).1.isEmpty then ([], t) else digits rest
  | _ => ([], t)

/-- An exponent, if one follows. -/
def exponent (t : Text) : Option Int × Text :=
  match t with
  | c :: rest =>
    if c = 'e' || c = 'E' then
      let (negative, rest) :=
        match rest with
        | '-' :: r => (true, r)
        | '+' :: r => (false, r)
        | r => (false, r)
      let (ds, after) := digits rest
      if ds.isEmpty then (none, t)
      else
        let n : Int := Numeral.value ds
        (some (if negative then -n else n), after)
    else (none, t)
  | [] => (none, t)

/-- A number without its sign. -/
def unsigned? (negative : Bool) (t : Text) : Option (Datum × Text) :=
  let whole := match t with
    | '0' :: rest => (['0'], rest)
    | t => digits t
  if whole.1.isEmpty then none
  else
    let (frac, rest) := fraction whole.2
    let (exp, rest) := exponent rest
    if frac.isEmpty && exp.isNone then
      let n : Int := Numeral.value whole.1
      some (.int (if negative then -n else n), rest)
    else
      let power : Int := exp.getD 0 - frac.length
      some (.real (Binary64.ofDecimal negative (Numeral.value (whole.1 ++ frac)) power), rest)

/-- A number, or one of the names of numbers. -/
def number? (t : Text) : Option (Datum × Text) :=
  match after? "NaN".toList t, after? "Infinity".toList t, after? "-Infinity".toList t with
  | some rest, _, _ => some (.real .undefined, rest)
  | _, some rest, _ => some (.real (.infinite false), rest)
  | _, _, some rest => some (.real (.infinite true), rest)
  | _, _, _ =>
    match t with
    | '-' :: rest => unsigned? true rest
    | t => unsigned? false t

mutual

/-- A value at the start of a text, and the rest. `fuel` bounds the depth of nesting. -/
def value? : (fuel : Nat) → Text → Option (Datum × Text)
  | 0, _ => none
  | fuel + 1, t =>
    match t with
    | '\x22' :: rest => (string? rest).map fun (s, after) => (.text s, after)
    | '[' :: rest =>
      match skip rest with
      | ']' :: after => some (.list [], after)
      | rest => (items? fuel rest).map fun (items, after) => (.list items, after)
    | '\x7b' :: rest =>
      match skip rest with
      | '\x7d' :: after => some (.record [], after)
      | rest => (fields? fuel [] rest).map fun (fields, after) => (.record fields, after)
    | t =>
      match after? "null".toList t, after? "true".toList t, after? "false".toList t with
      | some rest, _, _ => some (.null, rest)
      | _, some rest, _ => some (.truth true, rest)
      | _, _, some rest => some (.truth false, rest)
      | _, _, _ => number? t

/-- The items of a list up to its closing bracket. -/
def items? : (fuel : Nat) → Text → Option (List Datum × Text)
  | 0, _ => none
  | fuel + 1, t => do
    let (item, rest) ← value? fuel t
    match skip rest with
    | ',' :: rest =>
      let (items, after) ← items? fuel (skip rest)
      return (item :: items, after)
    | ']' :: after => return ([item], after)
    | _ => none

/-- The fields of a record up to its closing brace, after those that were read before. -/
def fields? : (fuel : Nat) → Record → Text → Option (Record × Text)
  | 0, _, _ => none
  | fuel + 1, fields, t =>
    match t with
    | '\x22' :: rest => do
      let (key, rest) ← string? rest
      match skip rest with
      | ':' :: rest =>
        let (value, rest) ← value? fuel (skip rest)
        let fields := Record.set fields key value
        match skip rest with
        | ',' :: rest => fields? fuel fields (skip rest)
        | '\x7d' :: after => return (fields, after)
        | _ => none
      | _ => none
    | _ => none

end

end RatCalc.Datum.Reader

namespace RatCalc.Datum

open Reader

/-- Reads a whole text. -/
def read? (t : Text) : Option Datum :=
  match value? (t.length + 1) (skip t) with
  | some (value, rest) => if (skip rest).isEmpty then some value else none
  | none => none

end RatCalc.Datum

import RatCalc.Expansion.Basic
import RatCalc.Expansion.RunLength

/-!
# Decimal texts

* `truncated`: a decimal cut after a number of digits.
* `repeating`: a decimal with its period after `#`; a terminating one ends in `#0`.
* `scientific`: one digit before the point and a power of ten.
* `repeatingAfter`, `scientificOf`: the same for an expansion that was worked out.

Where not all digits of a period are written the repeating text ends in three dots.
-/

namespace RatCalc.Expansion

open RunLength

/-- The three dots that stand for what was cut off. -/
def dots : Text := ['.', '.', '.']

/-- The sign of a magnitude. -/
def sign (negative : Bool) : Text := if negative then ['-'] else []

/-- The decimal of `n / d` cut after `maxDigits` digits. -/
def truncated (n : Int) (d : Nat) (maxDigits : Nat) : Text :=
  if n = 0 then ['0']
  else
    let digits := (longDivision (n.natAbs % d) d maxDigits).1
    sign (decide (n < 0)) ++ Numeral.ofNat (n.natAbs / d)
      ++ (if digits.isEmpty then [] else '.' :: digits)

/-- The long runs of a text as groups, if that is wanted. -/
def grouped (useGroups : Bool) (threshold : Nat) (t : Text) : Text :=
  if useGroups then compress threshold t else t

/-- An expansion over the denominator `d` as a repeating decimal after its whole part, with the
length of its period. The period is written in full if it was found and is no longer than
`maxDigits`. -/
def repeatingAfter (whole : Text) (e : Expansion) (d : Nat) (useGroups : Bool)
    (maxDigits : Option Nat) : Text × Option Nat :=
  let initial := grouped useGroups 4 e.initial
  if e.terminates then
    (if e.initial.isEmpty then whole else whole ++ '.' :: initial ++ ['#', '0'], some 0)
  else
    let count := match e.periodLength with
      | none => defaultDigits
      | some p => match maxDigits with
        | some k => if k < p then k else p
        | none => p
    let rest := (longDivision e.remainder d e.initial.length).2
    let period := grouped useGroups 6 (longDivision rest d count).1
    let mark := if e.periodLength = some count then [] else dots
    (whole ++ '.' :: initial ++ '#' :: period ++ mark, e.periodLength)

/-- The repeating decimal of `n / d`, with the length of its period, which is searched below
`limit`. -/
def repeating (n : Int) (d : Nat) (useGroups : Bool) (limit : Nat) (maxDigits : Option Nat) :
    Text × Option Nat :=
  if n = 0 then (['0'], some 0)
  else
    let e := Expansion.of n d 0 limit
    repeatingAfter (sign e.negative ++ Numeral.ofNat e.whole) e d useGroups maxDigits

/-! ## Powers of ten -/

/-- What is told about zeros and the period after a decimal with a power of ten. -/
def periodNote (e : Expansion) (shown : Bool) : Text :=
  if !shown || e.terminates then []
  else
    let initialZeros := (splitZeros e.initial).1
    let periodZeros := (splitZeros e.period).1
    let notes : List Text :=
      (if 0 < initialZeros then
        ["initial: ".toList ++ Numeral.ofNat initialZeros ++ " zeros".toList] else [])
      ++ (if 0 < periodZeros then
        ["period starts: +".toList ++ Numeral.ofNat periodZeros ++ " zeros".toList] else [])
      ++ (match e.periodLength with
        | none => ["period: >10^7".toList]
        | some 0 => []
        | some p => ["period: ".toList ++ Numeral.ofNat p])
    if notes.isEmpty then [] else ' ' :: '\x7b' :: Text.join [',', ' '] notes ++ ['\x7d']

/-- How many characters there is room for; one at least. -/
def room (k : Nat) : Nat := if k = 0 then 1 else k

/-- The mantissa of a magnitude of one or more, up to its period. -/
def wholeMantissa (e : Expansion) (useGroups : Bool) : Text :=
  let whole := Numeral.ofNat e.whole
  whole.take 1 ++ '.' :: whole.drop 1 ++ grouped useGroups 4 e.initial

/-- The mantissa and exponent of a magnitude of one or more. -/
def scientificLarge (e : Expansion) (useGroups : Bool) (precision : Nat) : Text :=
  let whole := Numeral.ofNat e.whole
  let fixed := wholeMantissa e useGroups
  let mantissa :=
    if whole.length ≤ 1 && e.remainder = 0 then whole.take 1
    else if e.remainder = 0 || e.terminates then fixed
    else if useGroups then fixed ++ '#' :: compress 6 e.period
    else fixed ++ '#' :: e.period.take (room (precision - fixed.length))
  mantissa ++ 'E' :: '+' :: Numeral.ofNat (whole.length - 1)

/-- A digit, and after a point the digits that follow it as far as `precision` goes. -/
def leadingDigits (digits : Text) (precision : Nat) : Text :=
  digits.take 1
    ++ (if digits.length ≤ 1 then [] else '.' :: (digits.take (room precision)).drop 1)

/-- The negative exponent that skips a number of zeros. -/
def negativeExponent (zeros : Nat) : Text := 'E' :: '-' :: Numeral.ofNat (zeros + 1)

/-- The mantissa whose first digit is in the initial segment, up to the first digit of the period
that is not zero. -/
def initialMantissa (e : Expansion) (useGroups : Bool) : Text :=
  let initial := (splitZeros e.initial).2
  let zeros := (splitZeros e.period).1
  let fixed := initial.take 1 ++ '.' :: initial.drop 1 ++ ['#']
  if useGroups && decide (6 ≤ zeros) then
    fixed ++ '\x7b' :: '0' :: '~' :: (Numeral.ofNat zeros ++ ['\x7d'])
  else fixed ++ List.replicate (if zeros < 10 then zeros else 10) '0'

/-- The mantissa whose first digit is in the initial segment, with the period behind it. -/
def mixedMantissa (e : Expansion) (useGroups : Bool) (precision : Nat) : Text :=
  let fixed := initialMantissa e useGroups
  fixed ++ (splitZeros e.period).2.take (room (precision + 1 - fixed.length))

/-- Mantissa and exponent of an expansion that is not zero, with a note on zeros and period if it is
wanted. -/
def scientificOf (e : Expansion) (useGroups : Bool) (precision : Nat) (withNote : Bool) : Text :=
  let start := sign e.negative
  let note := periodNote e withNote
  let (initialZeros, initial) := splitZeros e.initial
  let (periodZeros, period) := splitZeros e.period
  if 0 < e.whole then start ++ scientificLarge e useGroups precision ++ note
  else if e.terminates then
    if initial.isEmpty then start ++ ['0']
    else start ++ leadingDigits initial precision ++ negativeExponent initialZeros
  else if !initial.isEmpty then
    start ++ mixedMantissa e useGroups precision ++ negativeExponent initialZeros ++ note
  else if period.isEmpty then start ++ ['0']
  else
    start ++ leadingDigits period precision ++ negativeExponent (initialZeros + periodZeros)
      ++ note

/-- How much of the precision is taken before the digits of a mantissa that it cuts, if it cuts
any. -/
def precisionUse? (e : Expansion) (useGroups : Bool) : Option Nat :=
  let initial := (splitZeros e.initial).2
  let period := (splitZeros e.period).2
  if 0 < e.whole then
    if e.remainder = 0 || e.terminates || useGroups then none
    else some (wholeMantissa e useGroups).length
  else if e.terminates then if 1 < initial.length then some 0 else none
  else if !initial.isEmpty then
    if period.isEmpty then none else some ((initialMantissa e useGroups).length - 1)
  else if 1 < period.length then some 0
  else none

/-- How many digits of a period a mantissa is made of. -/
def scientificDigits : Nat := 100

/-- Mantissa and exponent of `n / d`. -/
def scientific (n : Int) (d : Nat) (useGroups : Bool) (precision : Nat) (withNote : Bool)
    (limit : Nat) : Text :=
  if n = 0 then ['0']
  else scientificOf (Expansion.of n d scientificDigits limit) useGroups precision withNote

end RatCalc.Expansion

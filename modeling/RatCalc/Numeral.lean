import RatCalc.Text.Digit
import RatCalc.Text.Blank

/-!
# Numerals in base ten

* `Numeral.ofNat`, `Numeral.ofInt`: writing a number.
* `Numeral.value`: the value of a row of decimal digits of any script.
* `Numeral.readInt?`: reading a whole text as an integer; `Numeral.readGrouped?` also takes digits in
  groups, such as `1_000`.
* **`value_ofNat`**: a written number has its value; **`all_isDecimal_ofNat`**: it is digits only.
-/

namespace RatCalc.Numeral

open Text

/-- The digits of a natural number, most significant first. -/
def ofNat (n : Nat) : Text := Nat.toDigits 10 n

/-- The numeral of an integer: a minus sign stands before a negative one. -/
def ofInt : Int → Text
  | .ofNat n => ofNat n
  | .negSucc n => '-' :: ofNat (n + 1)

/-- The value of a row of decimal digits; the empty row has value zero. -/
def value (digits : Text) : Nat :=
  digits.foldl (fun v c => v * 10 + (digitValue? c).getD 0) 0

/-- Whether a text is a non-empty row of decimal digits. -/
def isNumeral (t : Text) : Bool := !t.isEmpty && t.all isDecimal

/-- Reads an unsigned row of digits. -/
def readNat? (t : Text) : Option Nat := if isNumeral t then some (value t) else none

/-- Reads digits with an optional sign. Blanks around them do not matter. -/
def readInt? (t : Text) : Option Int :=
  match trim t with
  | '-' :: digits => (readNat? digits).map fun n => -(n : Int)
  | '+' :: digits => (readNat? digits).map fun n => (n : Int)
  | digits => (readNat? digits).map fun n => (n : Int)

/-- Reads rows of digits with single underscores between them as one number. -/
def readGroups? (t : Text) : Option Nat :=
  if (split (· == '_') t).all isNumeral then some (value (t.filter (· != '_'))) else none

/-- Whether a character may stand around a grouped numeral: white space, but no information
separator. -/
def isMargin (c : Char) : Bool := isBlank c && (c.toNat < 0x1C || 0x1F < c.toNat)

/-- The text without the margins at its two ends. -/
def withoutMargins (t : Text) : Text :=
  ((t.dropWhile isMargin).reverse.dropWhile isMargin).reverse

/-- Reads digits that may stand in groups, with an optional sign and margins around them. -/
def readGrouped? (t : Text) : Option Int :=
  match withoutMargins t with
  | '-' :: digits => (readGroups? digits).map fun n => -(n : Int)
  | '+' :: digits => (readGroups? digits).map fun n => (n : Int)
  | digits => (readGroups? digits).map fun n => (n : Int)

/-! ## Written numbers -/

theorem value_append_digit (t : Text) (c : Char) :
    value (t ++ [c]) = value t * 10 + (digitValue? c).getD 0 := by
  simp [value, List.foldl_append]

theorem ofNat_of_lt {n : Nat} (h : n < 10) : ofNat n = [Nat.digitChar n] :=
  Nat.toDigits_of_lt_base h

theorem ofNat_of_ge {n : Nat} (h : 10 ≤ n) :
    ofNat n = ofNat (n / 10) ++ [Nat.digitChar (n % 10)] :=
  Nat.toDigits_of_base_le (by omega) h

theorem value_ofNat (n : Nat) : value (ofNat n) = n := by
  induction n using Nat.strongRecOn with
  | ind n ih =>
    by_cases h : n < 10
    · simp [ofNat_of_lt h, value, digitValue?_digitChar h]
    · rw [ofNat_of_ge (by omega), value_append_digit, ih (n / 10) (by omega),
        digitValue?_digitChar (by omega)]
      simp only [Option.getD_some]
      omega

theorem all_isDecimal_ofNat (n : Nat) : (ofNat n).all isDecimal = true := by
  induction n using Nat.strongRecOn with
  | ind n ih =>
    by_cases h : n < 10
    · simp [ofNat_of_lt h, isDecimal_digitChar h]
    · rw [ofNat_of_ge (by omega), List.all_append, ih (n / 10) (by omega)]
      simp [isDecimal_digitChar (show n % 10 < 10 by omega)]

theorem ofNat_ne_nil (n : Nat) : ofNat n ≠ [] := Nat.toDigits_ne_nil

theorem readNat?_ofNat (n : Nat) : readNat? (ofNat n) = some n := by
  simp [readNat?, isNumeral, all_isDecimal_ofNat, ofNat_ne_nil, value_ofNat]

end RatCalc.Numeral

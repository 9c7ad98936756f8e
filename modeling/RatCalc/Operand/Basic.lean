import RatCalc.Datum.Basic
import RatCalc.Fraction.Interval
import RatCalc.Number.Level
import RatCalc.NumeralSystem.Standard

/-!
# Operands

What can be handed to an operation of the toolkit: a number of the tower, a fraction, an interval of
fractions, a numeral system, or plain data that may or may not stand for a number.

* `Operand`: the kinds of operands.
* `whole?`, `number?`, `parts?`, `text?`, `items?`, `holds`: what an operand can be used as.
* `isCompound`: lists and records, which are no keys of a table.
* `shown`, `typeName`: how reports show it.
-/

namespace RatCalc

/-- Whatever can be handed to an operation. -/
inductive Operand where
  | datum (d : Datum)
  | list (items : List Operand)
  | value (v : Value)
  | fraction (a : Fraction)
  | fractions (i : FractionInterval)
  | system (s : NumeralSystem)

namespace Operand

/-! ## Kinds of results -/

def nothing : Operand := datum .null
def truth (b : Bool) : Operand := datum (.truth b)
def whole (n : Int) : Operand := datum (.int n)
def real (x : Binary64) : Operand := datum (.real x)
def text (t : Text) : Operand := datum (.text (.ofText t))
def number (x : Number) : Operand := value (.plain x)
def integer (n : Int) : Operand := number (.integer n)
def rational (a : Rat) : Operand := number (.rational a)
def interval (i : Interval) : Operand := number (.interval i)

/-! ## What an operand can be used as -/

/-- The integer of a plain integer or of an integer of the tower. Truth values are none. -/
def whole? : Operand → Option Int
  | datum (.int n) => some n
  | value ⟨.integer n, _⟩ => some n
  | _ => none

/-- The number that takes part in arithmetic. -/
def number? : Operand → Option Number
  | datum (.int n) => some (.integer n)
  | value v => some v.number
  | _ => none

/-- Numerator and denominator, of whatever has them. -/
def parts? : Operand → Option (Int × Int)
  | datum (.int n) => some (n, 1)
  | datum (.truth b) => some (if b then 1 else 0, 1)
  | value ⟨.rational a, _⟩ => some (a.num, a.den)
  | fraction a => some (a.num, a.den)
  | _ => none

/-- The fraction with the numerator and denominator of an operand that has them. -/
def asFraction (x : Operand) : Except Failure Fraction :=
  match x.parts? with
  | some (n, d) => Fraction.ofInts n d
  | none => .error .operand

/-- The fractions at the endpoints of an interval of numbers or of fractions. -/
def asFractions : Operand → Except Failure FractionInterval
  | value ⟨.interval i, _⟩ => .ok (.ofInterval i)
  | fractions i => .ok i
  | _ => .error .operand

/-- The text of an operand that is one. -/
def text? : Operand → Option Text
  | datum (.text s) => some s.toText
  | _ => none

/-- The members of a list; those of a text are its characters, those of a record its keys. -/
def items? : Operand → Option (List Operand)
  | list items => some items
  | datum (.list items) => some (items.map datum)
  | datum (.text s) => some (s.points.map fun p => datum (.text ⟨[p]⟩))
  | datum (.record fields) => some (fields.map fun f => datum (.text f.1))
  | _ => none

/-- Whether an operand is a list or a record. Those cannot be looked up in a table. -/
def isCompound : Operand → Bool
  | list _ | datum (.list _) | datum (.record _) => true
  | _ => false

/-- Whether an operand counts as true: a number or text that is not zero or empty, anything else
that is there. -/
def holds : Operand → Bool
  | datum .null => false
  | datum (.truth b) => b
  | datum (.int n) => n != 0
  | datum (.real (.finite _ m _)) => m != 0
  | datum (.text s) => !s.isEmpty
  | datum (.list items) => !items.isEmpty
  | datum (.record fields) => !fields.isEmpty
  | list items => !items.isEmpty
  | value ⟨.integer n, _⟩ => n != 0
  | value ⟨.rational a, _⟩ => a != 0
  | _ => true

/-! ## How reports show operands -/

mutual

/-- The operand on one line. -/
def shown : Operand → Text
  | datum d => d.shown
  | list items => '[' :: Text.join [',', ' '] (shownItems items) ++ [']']
  | value v => v.number.shown
  | fraction a => a.shown
  | fractions i => i.shown
  | system s => s.shown

/-- The members of a list, each on one line. -/
def shownItems : List Operand → List Text
  | [] => []
  | x :: rest => shown x :: shownItems rest

end

/-- The operand as it is printed: a text as it is, anything else as reports show it or by its own
text. -/
def printed : Operand → Text
  | datum d => d.printed
  | value v => v.number.text
  | fraction a => a.text
  | fractions i => i.text
  | system s => s.text
  | x => x.shown

/-- The name of an operand's kind. -/
def typeName : Operand → String
  | datum .null => "NoneType"
  | datum (.truth _) => "bool"
  | datum (.int _) => "int"
  | datum (.real _) => "float"
  | datum (.text _) => "str"
  | datum (.list _) | list _ => "list"
  | datum (.record _) => "dict"
  | value ⟨.integer _, _⟩ => "Integer"
  | value ⟨.rational _, _⟩ => "Rational"
  | value ⟨.interval _, _⟩ => "RationalInterval"
  | fraction _ => "Fraction"
  | fractions _ => "FractionInterval"
  | system _ => "BaseSystem"

end Operand

end RatCalc

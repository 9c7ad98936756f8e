/-!
# The catalogue of failure codes

A code has four digits: the first tells the area, the second the kind, the last two count.

* `Catalogue.sentence?`: the general sentence of a code.
* `Catalogue.area?`, `Catalogue.kind?`: what the first two digits stand for.
-/

namespace RatCalc.Catalogue

/-- The area that a first digit stands for. -/
def areas : List (Char × String) := [
  ('3', "Calculator Error"),
  ('4', "UI Error"),
  ('5', "Configuration Error"),
  ('9', "Unexpected Error")]

/-- The kind that a second digit stands for. -/
def kinds : List (Char × String) := [
  ('0', "Malformed Literal"),
  ('1', "Division by Zero"),
  ('2', "Undefined Power"),
  ('3', "Factorial"),
  ('4', "Base System"),
  ('5', "Uncertainty Format"),
  ('6', "Calculation")]

/-- The general sentences; those that end in a space are completed by the report. -/
def sentences : List (String × String) := [
  ("3000", "Expression cannot be empty."),
  ("3001", "Unexpected token: "),
  ("3002", "Unexpected end of expression."),
  ("3003", "Invalid rational number format."),
  ("3004", "Invalid integer format."),
  ("3005", "Invalid decimal format."),
  ("3006", "Invalid repeating decimal."),
  ("3007", "Invalid mixed number."),
  ("3008", "Invalid exponent."),
  ("3009", "Missing ')'. "),
  ("3010", "E notation not allowed directly after a fraction."),
  ("3011", "Invalid interval format."),
  ("3012", "Nested intervals are not supported."),
  ("3013", "Invalid continued fraction."),
  ("3014", "Invalid fraction format."),
  ("3100", "Division by Zero"),
  ("3101", "Denominator cannot be zero."),
  ("3102", "Cannot divide by an interval containing zero."),
  ("3103", "Cannot take reciprocal of zero."),
  ("3104", "Modulo by zero."),
  ("3200", "0^0 is undefined."),
  ("3201", "Zero cannot be raised to a negative power."),
  ("3202", "Interval containing zero raised to a negative power."),
  ("3203", "Multiplicative exponentiation requires at least one factor."),
  ("3204", "Exponent must be an integer."),
  ("3300", "Factorial is not defined for negative numbers."),
  ("3301", "Factorial is only defined for integers."),
  ("3400", "Invalid base system."),
  ("3401", "Invalid digit for base: "),
  ("3402", "Base system characters conflict with parser symbols."),
  ("3500", "Invalid uncertainty notation."),
  ("3501", "Invalid range notation."),
  ("3502", "Invalid relative notation."),
  ("3503", "Invalid symmetric notation."),
  ("3600", "Calculation Error: "),
  ("3601", "Rational is not a whole number."),
  ("3602", "Invalid partition."),
  ("3603", "Invalid arguments."),
  ("4000", "Calculation already Running!"),
  ("4501", "Not all Settings could be saved: "),
  ("5000", "Invalid configuration value: "),
  ("9999", "Unexpected Error: ")]

/-- The general sentence of a code. -/
def sentence? (code : String) : Option String := sentences.lookup code

/-- The area of a code. -/
def area? (code : String) : Option String := code.toList[0]?.bind fun c => List.lookup c areas

/-- The kind within the area. -/
def kind? (code : String) : Option String := code.toList[1]?.bind fun c => List.lookup c kinds

end RatCalc.Catalogue

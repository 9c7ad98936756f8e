/-!
# Causes of failure

* `LiteralFault`, `DivisionFault`, `PowerFault`, `FactorialFault`, `BaseFault`, `UncertaintyFault`,
  `CalculationFault`, `SettingFault`: what can go wrong, by kind. Each has a four digit code
  (`code`) and a sentence for the reader (`message`).
* `Failure`: a fault of one of these kinds, or a cause outside them.
* `Failure.report?`: code and message of the causes that have them.
-/

namespace RatCalc

/-- Faults of literals: of an expression text, or of an operand that stands for a number. -/
inductive LiteralFault where
  | emptyExpression
  | unexpectedToken (token : String)
  | trailingToken (rest : String)
  | unexpectedEnd
  | rationalFormat
  | rationalComponent (shown : String)
  | missingDenominator
  | integerFormat
  | decimalFormat
  | decimalPoints
  | decimalDigits
  | noText
  | repeatFormat
  | repeatDigits
  | fixedDigits
  | repeatingDecimal (reason : String)
  | mixedNumerator
  | mixedDenominator
  | missingExponent
  | exponentValue
  | unclosedParenthesis
  | exponentAfterFraction
  | exponentAfterMixed
  | intervalEndpoint (shown : String)
  | intervalFormat
  | decimalIntervalFormat
  | nestedInterval
  | continuedFractionFormat (text : String)
  | continuedFractionEmpty
  | continuedFractionTerm
  | fractionFormat
  | fractionComponent (shown : String)
  deriving DecidableEq, Repr

namespace LiteralFault

def code : LiteralFault → String
  | emptyExpression => "3000"
  | unexpectedToken _ | trailingToken _ => "3001"
  | unexpectedEnd => "3002"
  | rationalFormat | rationalComponent _ | missingDenominator => "3003"
  | integerFormat => "3004"
  | decimalFormat | decimalPoints | decimalDigits => "3005"
  | noText | repeatFormat | repeatDigits | fixedDigits | repeatingDecimal _ => "3006"
  | mixedNumerator | mixedDenominator => "3007"
  | missingExponent | exponentValue => "3008"
  | unclosedParenthesis => "3009"
  | exponentAfterFraction | exponentAfterMixed => "3010"
  | intervalEndpoint _ | intervalFormat | decimalIntervalFormat => "3011"
  | nestedInterval => "3012"
  | continuedFractionFormat _ | continuedFractionEmpty | continuedFractionTerm => "3013"
  | fractionFormat | fractionComponent _ => "3014"

def message : LiteralFault → String
  | emptyExpression => "Expression cannot be empty"
  | unexpectedToken token => "Unexpected token: " ++ token
  | trailingToken rest => "Unexpected token at end: " ++ rest
  | unexpectedEnd => "Unexpected end of expression"
  | rationalFormat => "Invalid rational format. Use 'a/b', 'a', or 'a..b/c'"
  | rationalComponent shown => "Invalid rational component: " ++ shown
  | missingDenominator => "Invalid rational number format"
  | integerFormat => "Invalid integer format. Must be a whole number"
  | decimalFormat => "Invalid decimal format"
  | decimalPoints => "Invalid decimal format - multiple decimal points"
  | decimalDigits => "Decimal must contain only digits and at most one decimal point"
  | noText => "Input must be a non-empty string"
  | repeatFormat => "Invalid repeating decimal format. Use format like \"0.12#45\""
  | repeatDigits => "Repeating part must contain only digits"
  | fixedDigits => "Non-repeating part must contain only digits and at most one decimal point"
  | repeatingDecimal reason => "Invalid repeating decimal: " ++ reason
  | mixedNumerator => "Invalid mixed number format: missing numerator after \"..\""
  | mixedDenominator => "Invalid mixed number format: missing denominator"
  | missingExponent => "Invalid exponent"
  | exponentValue => "E notation exponent must be an integer"
  | unclosedParenthesis => "Missing closing parenthesis"
  | exponentAfterFraction => "E notation not allowed directly after fraction without parentheses"
  | exponentAfterMixed => "E notation not allowed directly after mixed number without parentheses"
  | intervalEndpoint shown => "Invalid interval endpoint: " ++ shown
  | intervalFormat => "Invalid interval format. Use 'a:b'"
  | decimalIntervalFormat => "Invalid interval format. Use format like \"0.#3:0.5#0\""
  | nestedInterval => "Nested intervals are not supported"
  | continuedFractionFormat text => "Invalid continued fraction format: " ++ text
  | continuedFractionEmpty => "Continued fraction must have at least one term"
  | continuedFractionTerm => "Continued fraction terms after the first must be positive"
  | fractionFormat => "Invalid fraction format. Use 'a/b' or 'a'"
  | fractionComponent shown => "Invalid fraction component: " ++ shown

end LiteralFault

/-- Faults of division. -/
inductive DivisionFault where
  | byZero
  | zeroDenominator
  | byIntervalWithZero
  | reciprocalOfIntervalWithZero
  | reciprocalOfZero
  | moduloZero
  deriving DecidableEq, Repr

namespace DivisionFault

def code : DivisionFault → String
  | byZero => "3100"
  | zeroDenominator => "3101"
  | byIntervalWithZero | reciprocalOfIntervalWithZero => "3102"
  | reciprocalOfZero => "3103"
  | moduloZero => "3104"

def message : DivisionFault → String
  | byZero => "Division by zero"
  | zeroDenominator => "Denominator cannot be zero"
  | byIntervalWithZero => "Cannot divide by an interval containing zero"
  | reciprocalOfIntervalWithZero => "Cannot reciprocate an interval containing zero"
  | reciprocalOfZero => "Cannot take reciprocal of zero"
  | moduloZero => "Modulo by zero"

end DivisionFault

/-- Faults of powers. -/
inductive PowerFault where
  | zeroToZero
  | zeroToNegative
  | intervalToNegative
  | noFactor
  | exponentKind
  deriving DecidableEq, Repr

namespace PowerFault

def code : PowerFault → String
  | zeroToZero => "3200"
  | zeroToNegative => "3201"
  | intervalToNegative => "3202"
  | noFactor => "3203"
  | exponentKind => "3204"

def message : PowerFault → String
  | zeroToZero => "Zero cannot be raised to the power of zero"
  | zeroToNegative => "Zero cannot be raised to a negative power"
  | intervalToNegative => "Cannot raise an interval containing zero to a negative power"
  | noFactor => "Multiplicative exponentiation requires at least one factor"
  | exponentKind => "Exponent must be an integer"

end PowerFault

/-- Faults of factorials and double factorials. -/
inductive FactorialFault where
  | negative (double : Bool)
  | notWhole (double : Bool)
  deriving DecidableEq, Repr

namespace FactorialFault

def code : FactorialFault → String
  | negative _ => "3300"
  | notWhole _ => "3301"

def message : FactorialFault → String
  | negative false => "Factorial is not defined for negative integers"
  | negative true => "Double factorial is not defined for negative integers"
  | notWhole false => "Factorial is only defined for integers"
  | notWhole true => "Double factorial is only defined for integers"

end FactorialFault

/-- Faults of numeral systems, their numerals and their letters. -/
inductive BaseFault where
  | charactersKind
  | tooFewCharacters
  | duplicateCharacters
  | reservedCharacters (conflicts reserved : List String)
  | unknownDigit (digit name : String) (base : Nat)
  | digitOutOfRange (value : String) (base : Nat)
  | emptyNumeral
  | baseTooSmall
  | baseTooLarge
  | patternTooLarge (pattern : String) (limit : Nat) (size : String)
  | unknownPattern (pattern : String)
  | letterLength
  | letterSystem
  | letterKind
  | inputBase
  | placeBase
  deriving DecidableEq, Repr

namespace BaseFault

def code : BaseFault → String
  | unknownDigit _ _ _ => "3401"
  | reservedCharacters _ _ => "3402"
  | _ => "3400"

def message : BaseFault → String
  | charactersKind => "Characters must be a string or array of strings"
  | tooFewCharacters => "Base system must have at least 2 characters"
  | duplicateCharacters => "Character set contains duplicate characters"
  | reservedCharacters conflicts reserved =>
    "Base system characters conflict with parser symbols: " ++ ", ".intercalate conflicts
      ++ ". Reserved symbols are: " ++ ", ".intercalate reserved
  | unknownDigit digit name base =>
    "Invalid character '" ++ digit ++ "' for " ++ name ++ " (base " ++ toString base ++ ")"
  | digitOutOfRange value base =>
    "Value " ++ value ++ " is out of range for base " ++ toString base
  | emptyNumeral => "Input must be a non-empty string"
  | baseTooSmall => "Base must be an integer >= 2"
  | baseTooLarge => "BaseSystem.from_base() only supports bases up to 62. "
      ++ "Use the constructor with a custom character sequence for larger bases."
  | patternTooLarge pattern limit size =>
    pattern ++ " pattern only supports up to base " ++ toString limit ++ ", got " ++ size
  | unknownPattern pattern => "Unknown pattern: " ++ pattern
      ++ ". Supported patterns: alphanumeric, digits-only, letters-only, uppercase-only"
  | letterLength => "Prefix must be a single character"
  | letterSystem => "Must provide a valid BaseSystem"
  | letterKind => "Prefix must be a letter"
  | inputBase => "Input base must be a BaseSystem or an integer"
  | placeBase => "Base must be greater than 1"

end BaseFault

/-- Faults of uncertainty brackets. -/
inductive UncertaintyFault where
  | format
  | missingBase
  | otherBase
  | exponent
  | offsetInterval
  | symmetricOffset
  | rangeOnInteger
  | rangeCount
  | rangeValue
  | rangeWidths (base lower upper lowerWhole upperWhole : String)
  | pointFormat
  | pointEndpoint (text : String)
  | relativeCount
  | secondPositive
  | secondNegative
  | missingOffset
  | unsignedOffset
  | offsetSigns
  deriving DecidableEq, Repr

namespace UncertaintyFault

def code : UncertaintyFault → String
  | format | missingBase | otherBase | exponent | offsetInterval => "3500"
  | rangeOnInteger | rangeCount | rangeValue | rangeWidths _ _ _ _ _ | pointFormat
  | pointEndpoint _ => "3501"
  | relativeCount | secondPositive | secondNegative | missingOffset | unsignedOffset
  | offsetSigns => "3502"
  | symmetricOffset => "3503"

def message : UncertaintyFault → String
  | format => "Invalid uncertainty format"
  | missingBase => "Uncertainty notation requires a base number"
  | otherBase => "Uncertainty notation is only supported in base 10"
  | exponent => "E notation exponent must be an integer"
  | offsetInterval => "Offset must be a single value"
  | symmetricOffset => "Symmetric notation must have a valid number after +- or -+"
  | rangeOnInteger => "Range notation on integer bases is not supported in this context"
  | rangeCount => "Range notation must have exactly two values separated by comma"
  | rangeValue => "Range values must be valid decimal numbers"
  | rangeWidths base lower upper lowerWhole upperWhole =>
    "Invalid range notation: " ++ base ++ "[" ++ lower ++ "," ++ upper
      ++ "] - integer parts of range values must have the same number of digits (" ++ lowerWhole
      ++ " has " ++ toString lowerWhole.length ++ ", " ++ upperWhole ++ " has "
      ++ toString upperWhole.length ++ ")"
  | pointFormat => "Invalid uncertainty format for decimal point notation"
  | pointEndpoint text => "Invalid endpoint format: " ++ text
  | relativeCount => "Relative notation must have exactly two values separated by comma"
  | secondPositive => "Only one positive offset allowed"
  | secondNegative => "Only one negative offset allowed"
  | missingOffset => "Offset must be a valid number"
  | unsignedOffset => "Relative notation values must start with + or -"
  | offsetSigns => "Relative notation must have exactly one + and one - value"

end UncertaintyFault

/-- Faults of calculations whose operands cannot be used together. -/
inductive CalculationFault where
  | unequalSummands
  | unequalDifference
  | notWhole
  | depth
  | partitionKind
  | partitionMember
  | partitionOutside
  | moduloOperand
  | denominatorLimit
  | approximationLimit
  | endpointKind
  | unknownType (name : String)
  | targetLevel (level : String)
  | demotion (source : Nat) (target : String)
  deriving DecidableEq, Repr

namespace CalculationFault

def code : CalculationFault → String
  | unequalSummands | unequalDifference => "3600"
  | notWhole => "3601"
  | depth | partitionKind | partitionMember | partitionOutside => "3602"
  | _ => "3603"

def message : CalculationFault → String
  | unequalSummands => "Addition only supported for equal denominators"
  | unequalDifference => "Subtraction only supported for equal denominators"
  | notWhole => "Rational is not a whole number"
  | depth => "Depth of mediant partitioning must be non-negative"
  | partitionKind => "Partition function must return an array of Fractions"
  | partitionMember => "Partition function must return an array of Fraction objects"
  | partitionOutside => "Partition points should be within the interval"
  | moduloOperand => "Modulo requires an integer operand"
  | denominatorLimit => "maxDenominator must be positive"
  | approximationLimit => "Maximum denominator must be positive"
  | endpointKind => "FractionInterval endpoints must be Fraction objects"
  | unknownType name => "Unknown type: " ++ name
  | targetLevel level => "Invalid target level: " ++ level
  | demotion source target =>
    "Cannot demote from level " ++ toString source ++ " to level " ++ target

end CalculationFault

/-- Settings that the calculator cannot use. -/
inductive SettingFault where
  | outputMode
  | positive (key : String)
  | inputBase
  | truthValue (key : String)
  deriving DecidableEq, Repr

namespace SettingFault

def code : SettingFault → String := fun _ => "5000"

def message : SettingFault → String
  | outputMode => "output_mode must be DECI, RAT or BOTH"
  | positive key => key ++ " must be a positive integer"
  | inputBase => "input_base must be an integer between 2 and 62"
  | truthValue key => key ++ " must be true or false"

end SettingFault

/-- Why there is no result. -/
inductive Failure where
  | literal (fault : LiteralFault)
  | division (fault : DivisionFault)
  | power (fault : PowerFault)
  | factorial (fault : FactorialFault)
  | base (fault : BaseFault)
  | uncertainty (fault : UncertaintyFault)
  | calculation (fault : CalculationFault)
  | setting (fault : SettingFault)
  /-- A cause that only the calculator's outermost layer could put into words. -/
  | unexpected (message : String)
  /-- The operation does not exist for operands of these kinds. -/
  | operand
  /-- A text of digits that do not form a place-value numeral; `quoted` is the text in quotes. -/
  | numeral (quoted : String)
  /-- The magnitude is beyond every double. -/
  | overflow
  /-- Nothing is left to read. -/
  | endOfInput
  deriving DecidableEq, Repr

namespace Failure

/-- Code and message of a failure that is reported to the reader. -/
def report? : Failure → Option (String × String)
  | literal fault => some (fault.code, fault.message)
  | division fault => some (fault.code, fault.message)
  | power fault => some (fault.code, fault.message)
  | factorial fault => some (fault.code, fault.message)
  | base fault => some (fault.code, fault.message)
  | uncertainty fault => some (fault.code, fault.message)
  | calculation fault => some (fault.code, fault.message)
  | setting fault => some (fault.code, fault.message)
  | unexpected message => some ("9999", message)
  | operand | numeral _ | overflow | endOfInput => none

/-- The causes that the calculator turns into a report of its own. -/
def toReported : Failure → Failure
  | numeral quoted => unexpected ("invalid literal for int() with base 10: " ++ quoted)
  | operand => unexpected "unsupported operand"
  | overflow => unexpected "integer division result too large for a float"
  | failure => failure

end Failure

end RatCalc

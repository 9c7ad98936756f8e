import RatCalc.Binary64
import RatCalc.Calculator
import RatCalc.ContinuedFraction
import RatCalc.Datum.Basic
import RatCalc.Datum.Reader
import RatCalc.Datum.Writer
import RatCalc.Display
import RatCalc.Expansion.Basic
import RatCalc.Expansion.RunLength
import RatCalc.Expansion.Signed
import RatCalc.Expansion.Text
import RatCalc.Expr.Basic
import RatCalc.Expr.Digit
import RatCalc.Expr.Literal
import RatCalc.Expr.Reader
import RatCalc.Expr.Trace
import RatCalc.Failure
import RatCalc.Failure.Catalogue
import RatCalc.Fraction.Basic
import RatCalc.Fraction.Interval
import RatCalc.Installation
import RatCalc.Interval.Basic
import RatCalc.Interval.Points
import RatCalc.Interval.Sets
import RatCalc.Interval.Text
import RatCalc.Literal.Bracket
import RatCalc.Literal.Decimal
import RatCalc.Literal.Rational
import RatCalc.Main
import RatCalc.Number.Basic
import RatCalc.Number.Level
import RatCalc.Numeral
import RatCalc.NumeralSystem.Basic
import RatCalc.NumeralSystem.Letters
import RatCalc.NumeralSystem.Standard
import RatCalc.Operand.Arithmetic
import RatCalc.Operand.Basic
import RatCalc.Operand.ContinuedFraction
import RatCalc.Operand.Conversion
import RatCalc.Operand.Display
import RatCalc.Operand.Expansion
import RatCalc.Operand.Measure
import RatCalc.Operand.Order
import RatCalc.Operand.Partition
import RatCalc.Operand.System
import RatCalc.Proofs.AcceptedCharacters
import RatCalc.Proofs.Agreement
import RatCalc.Proofs.BestApproximation
import RatCalc.Proofs.Blanks
import RatCalc.Proofs.BracketBase
import RatCalc.Proofs.BracketContents
import RatCalc.Proofs.CanonicalExpansion
import RatCalc.Proofs.CanonicalNumeral
import RatCalc.Proofs.CompactDecimal
import RatCalc.Proofs.ContinuedFractionText
import RatCalc.Proofs.ConvergentSides
import RatCalc.Proofs.Convergents
import RatCalc.Proofs.CutDecimal
import RatCalc.Proofs.DecimalExpr
import RatCalc.Proofs.DecimalLiteral
import RatCalc.Proofs.DecimalText
import RatCalc.Proofs.Digits
import RatCalc.Proofs.Division
import RatCalc.Proofs.Enclosed
import RatCalc.Proofs.EnclosedInterval
import RatCalc.Proofs.EnclosedLiteral
import RatCalc.Proofs.EnclosedOperand
import RatCalc.Proofs.Expansion
import RatCalc.Proofs.ExplicitInterval
import RatCalc.Proofs.FractionText
import RatCalc.Proofs.FractionValues
import RatCalc.Proofs.Grammar
import RatCalc.Proofs.IntervalArithmetic
import RatCalc.Proofs.IntervalPowers
import RatCalc.Proofs.IntervalSets
import RatCalc.Proofs.IntervalValues
import RatCalc.Proofs.Levels
import RatCalc.Proofs.LineAnswers
import RatCalc.Proofs.LoneLetters
import RatCalc.Proofs.LongDivision
import RatCalc.Proofs.Mantissa
import RatCalc.Proofs.MediantSides
import RatCalc.Proofs.Mediants
import RatCalc.Proofs.Multiples
import RatCalc.Proofs.NearestDecimal
import RatCalc.Proofs.NumberExpr
import RatCalc.Proofs.NumberForms
import RatCalc.Proofs.NumberText
import RatCalc.Proofs.NumeralCheck
import RatCalc.Proofs.OwnDigits
import RatCalc.Proofs.PartitionPoints
import RatCalc.Proofs.Period
import RatCalc.Proofs.PlainDecimal
import RatCalc.Proofs.PointFormulas
import RatCalc.Proofs.PositionalLiteral
import RatCalc.Proofs.Precedence
import RatCalc.Proofs.PrintedTolerance
import RatCalc.Proofs.Progress
import RatCalc.Proofs.Promotion
import RatCalc.Proofs.RatDigits
import RatCalc.Proofs.RationalLiteral
import RatCalc.Proofs.RationalOperand
import RatCalc.Proofs.Reader
import RatCalc.Proofs.ReducedFractions
import RatCalc.Proofs.Reported
import RatCalc.Proofs.RoundTrip
import RatCalc.Proofs.RunLength
import RatCalc.Proofs.Runs
import RatCalc.Proofs.Scientific
import RatCalc.Proofs.Segments
import RatCalc.Proofs.SessionState
import RatCalc.Proofs.ShownDecimal
import RatCalc.Proofs.ShownNumber
import RatCalc.Proofs.ShownPlaces
import RatCalc.Proofs.SignificantDigits
import RatCalc.Proofs.Slash
import RatCalc.Proofs.SpelledLiteral
import RatCalc.Proofs.Spelling
import RatCalc.Proofs.StandardNumeral
import RatCalc.Proofs.StoredVariable
import RatCalc.Proofs.StrayDigit
import RatCalc.Proofs.Suffixes
import RatCalc.Proofs.Takes
import RatCalc.Proofs.TameText
import RatCalc.Proofs.Tokens
import RatCalc.Proofs.Tolerance
import RatCalc.Proofs.Truncation
import RatCalc.Proofs.TwoModes
import RatCalc.Proofs.TwoSystems
import RatCalc.Proofs.UnaryMinus
import RatCalc.Proofs.UncertainDecimal
import RatCalc.Proofs.UnsignedForms
import RatCalc.Proofs.Widening
import RatCalc.Ratio
import RatCalc.Session
import RatCalc.Settings.Basic
import RatCalc.Settings.File
import RatCalc.Terminal
import RatCalc.Text.Alphanumeric
import RatCalc.Text.Basic
import RatCalc.Text.Blank
import RatCalc.Text.Case
import RatCalc.Text.Digit
import RatCalc.Text.Printable
import RatCalc.Text.Quoted
import RatCalc.Text.Wide
import RatCalc.Text.WordEnd
import RatCalc.Whole

import RatCalc.Expr.Reader
import RatCalc.Expr.Trace
import RatCalc.Settings.File
import RatCalc.Text.Quoted

/-!
# The calculator

* `Outcome`: a result with what was printed on the way to it.
* `Calculator.evaluate`: the value of an expression text under settings.
* `Calculator.calculate`: the text of the value, or a report that names the expression.
-/

namespace RatCalc

/-- A result, and what was printed before it was reached. -/
structure Outcome (α : Type) where
  printed : Text
  result : Except Failure α

/-- A failure with the expression that it comes from. -/
structure Report where
  failure : Failure
  equation : Text

namespace Calculator

/-- The line that is printed after a sum or a difference. -/
def stepLine (sign : Char) : Text :=
  "Currently at: ".toList ++ sign :: " in parse_sum\n".toList

/-- The line that is printed after a successful evaluation. -/
def resultLine (d : Dialect) (t : Text) (v : Value) : Text :=
  "Parsed ".toList ++ Text.quoted (d.display (d.prepare t)) ++ " -> ".toList ++ v.number.shown
    ++ ['\n']

/-- What is printed about an evaluation. -/
def report (d : Dialect) (t : Text) : Text :=
  let e := Expr.read d t
  (e.trace d).flatMap stepLine
    ++ match e.eval d with
      | .ok v => resultLine d t v
      | .error _ => []

/-- The value of an expression text under settings. -/
def evaluateUnder (s : Settings) (t : Text) : Outcome Value :=
  ⟨if s.debug then report s.dialect t else [], Expr.valueOf s.dialect t⟩

/-- The value of an expression text under the settings of a record. -/
def evaluate (r : Record) (t : Text) : Outcome Value :=
  match Settings.ofRecord r with
  | .ok s => evaluateUnder s t
  | .error f => ⟨[], .error f⟩

/-- The text of an expression's value after an equals sign. -/
def calculate (r : Record) (t : Text) : Text × Except Report Text :=
  match Settings.ofRecord r with
  | .error f => ([], .error ⟨f.toReported, t⟩)
  | .ok s =>
    let outcome := evaluateUnder s t
    (outcome.printed,
      match outcome.result with
      | .ok v => .ok ('=' :: ' ' :: Display.number s.format v.number)
      | .error f => .error ⟨f.toReported, t⟩)

/-- What is asked for before a single calculation. -/
def question : Text := "Enter the problem: \n".toList

/-- The calculation of the first line under the settings of a file: what is printed, and how it
ends. -/
def single (file : SettingsFile) (lines : List Text) : Text × Except Report Unit :=
  match lines with
  | [] => (question, .error ⟨.endOfInput, []⟩)
  | line :: _ =>
    let (printed, result) := calculate file.settings line
    match result with
    | .ok answer => (question ++ printed ++ answer ++ ['\n'], .ok ())
    | .error r => (question ++ printed, .error r)

end Calculator

end RatCalc

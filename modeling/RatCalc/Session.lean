import RatCalc.Calculator

/-!
# Sessions

A session answers lines. A line is a command, an assignment to a variable of one small letter, or an
expression, in which variables stand for their values.

* `Session`: settings, output mode, limit, variables, and whether the session goes on.
* `Session.step`: the answer to a line, and the session after it.
* `Session.substitute`: an expression with the values of its variables written out.
-/

namespace RatCalc

/-- The state of a session. -/
structure Session where
  settings : Settings
  mode : OutputMode
  limit : Nat
  /-- The variables, in alphabetical order. -/
  store : List (Char × Value)
  running : Bool

namespace Session

open Text

/-- The session at its start. -/
def start (s : Settings) : Session := ⟨s, s.mode, s.limit, [], true⟩

/-- The session at its start under the settings of a record. -/
def ofRecord (r : Record) : Except Failure Session := start <$> Settings.ofRecord r

/-- How results are shown at present. -/
def format (s : Session) : Format :=
  ⟨s.mode, s.limit, s.settings.maxPeriodDigits, s.settings.periodLimit⟩

/-- A value as it is shown at present. -/
def shown (s : Session) (v : Value) : Text := Display.number s.format v.number

/-! ## Variables -/

/-- The value of a variable. -/
def value? (s : Session) (name : Char) : Option Value := s.store.lookup name

/-- Variables with one of them set, in alphabetical order. -/
def insert (name : Char) (v : Value) : List (Char × Value) → List (Char × Value)
  | [] => [(name, v)]
  | (c, w) :: rest =>
    if name = c then (name, v) :: rest
    else if name < c then (name, v) :: (c, w) :: rest
    else (c, w) :: insert name v rest

/-- A natural number in digits of the input base. -/
def numeral (s : Session) (n : Nat) : Text :=
  match s.settings.system with
  | some system => system.natText n
  | none => Numeral.ofNat n

/-- An integer in digits of the input base. -/
def integerLiteral (s : Session) (n : Int) : Text :=
  Expansion.sign (decide (n < 0)) ++ s.numeral n.natAbs

/-- A rational number in digits of the input base. -/
def rationalLiteral (s : Session) (a : Rat) : Text :=
  s.integerLiteral a.num ++ (if a.den = 1 then [] else '/' :: s.numeral a.den)

/-- A text that reads back as the value in the input base. -/
def literal (s : Session) (v : Value) : Text :=
  match v.number with
  | .integer n => s.integerLiteral n
  | .rational a => s.rationalLiteral a
  | .interval i => s.rationalLiteral i.low ++ ':' :: s.rationalLiteral i.high

/-- Whether a character joins with a letter beside it, so that this is no variable. -/
def isWordChar (c : Char) : Bool :=
  ('A' ≤ c && c ≤ 'Z') || ('a' ≤ c && c ≤ 'z') || ('0' ≤ c && c ≤ '9') || c = '_'

/-- Whether a character can be the name of a variable. -/
def isName (c : Char) : Bool := 'a' ≤ c && c ≤ 'z'

/-- A text with its variables written out; `joined` tells whether the character before it joins with
a letter. -/
def substituteFrom (s : Session) : (joined : Bool) → Text → Text
  | _, [] => []
  | joined, c :: rest =>
    let next := substituteFrom s (isWordChar c) rest
    if isName c && !joined && !rest.head?.any isWordChar then
      match s.value? c with
      | some v => '(' :: s.literal v ++ ')' :: next
      | none => c :: next
    else c :: next

/-- An expression with the values of its variables written out, in parentheses. -/
def substitute (s : Session) (t : Text) : Text := substituteFrom s false t

/-- The value of an expression. -/
def evaluate (s : Session) (t : Text) : Outcome Value :=
  Calculator.evaluateUnder s.settings (s.substitute t)

/-! ## Answers -/

/-- The answer to a line that failed with a message. -/
def apology (message : Text) : Text :=
  if contains "Division by zero".toList message
      || contains "Denominator cannot be zero".toList message then
    "Error: Division by zero is undefined".toList
  else if contains "Factorial".toList message && contains "negative".toList message then
    "Error: Factorial is not defined for negative numbers".toList
  else if contains "Zero cannot be raised to the power of zero".toList message then
    "Error: 0^0 is undefined".toList
  else "Error: ".toList ++ message

/-- What the session understands. -/
def help : Text :=
  ("RatMath Terminal Calculator\n\nNumbers:\n"
    ++ "  42, -7            Integers\n"
    ++ "  3/4, 1..1/2       Fractions and mixed numbers (1..1/2 = 3/2)\n"
    ++ "  1.25, 0.#3        Decimals, repeating decimals (0.#3 = 1/3)\n"
    ++ "  0.12#45           Repeating part after #\n"
    ++ "  3.~7~15~1         Continued fraction\n"
    ++ "  0xff, 0b101       Base prefixed integers\n"
    ++ "  1/2:3/4           Interval\n"
    ++ "  1.23[56,67]       Uncertainty: range, [+-5] symmetric, [+5,-6] relative\n"
    ++ "  1.5E3, 2 E-1      Scientific notation\n"
    ++ "\nOperators:\n"
    ++ "  + - * /           Arithmetic\n"
    ++ "  ^                 Power \x7bx^n : x in interval\x7d\n"
    ++ "  **                Repeated interval multiplication\n"
    ++ "  ! !!              Factorial, double factorial\n"
    ++ "\nCommands:\n"
    ++ "  DECI | RAT | BOTH Output as decimal, fraction or both\n"
    ++ "  LIMIT [n]         Show or set the decimal display limit\n"
    ++ "  x = expression    Store a value in a single letter variable\n"
    ++ "  VARS              List stored variables\n"
    ++ "  HELP              This text\n"
    ++ "  EXIT              Quit").toList

/-- The list of the variables. -/
def listing (s : Session) : Text :=
  if s.store.isEmpty then "No variables or functions defined".toList
  else
    "Variables:".toList ++ s.store.flatMap fun entry =>
      '\n' :: ' ' :: ' ' :: entry.1 :: " = ".toList ++ s.shown entry.2

/-! ## Lines -/

/-- What a line asks for. -/
inductive Command where
  | nothing
  | help
  | mode (m : OutputMode)
  | limit (argument : Text)
  | listing
  | exit
  | assign (name : Char) (expression : Text)
  | evaluate (expression : Text)
  deriving DecidableEq, Repr

/-- Name and expression of an assignment. The expression is on one line. -/
def assignment? (line : Text) : Option (Char × Text) :=
  match line with
  | [] => none
  | c :: rest =>
    match trimStart rest with
    | '=' :: rest =>
      let e := trimStart rest
      if isName c && !e.isEmpty && !e.elem '\n' then some (c, e) else none
    | _ => none

/-- What a line asks for. Command words may be written in small or capital letters. -/
def Command.ofLine (line : Text) : Command :=
  let line := trim line
  let word := String.ofList (commandCase line)
  if line.isEmpty then nothing
  else if word = "HELP" then help
  else if word = "DECI" then mode .decimal
  else if word = "RAT" then mode .fraction
  else if word = "BOTH" then mode .both
  else
    match after? "LIMIT".toList (commandCase line) with
    | some argument => limit (trim argument)
    | none =>
      if word = "VARS" then listing
      else if word = "EXIT" || word = "QUIT" || word = "BYE" then exit
      else
        match assignment? line with
        | some (name, e) => assign name e
        | none => evaluate line

/-- The answer to a change of the output mode. -/
def modeAnswer : OutputMode → Text
  | .decimal => "Output mode set to decimal".toList
  | .fraction => "Output mode set to rational".toList
  | .both => "Output mode set to both decimal and rational".toList

/-- The answer to a limit that is none. -/
def limitApology : Text := "Error: LIMIT must be a positive integer".toList

/-- Shows or sets the limit. -/
def setLimit (s : Session) (argument : Text) : Session × Except Failure Text :=
  if argument.isEmpty then
    (s, .ok ("Current decimal display limit: ".toList ++ Numeral.ofNat s.limit ++ " digits".toList))
  else if !Literal.isDigitsLike argument then (s, .ok limitApology)
  else
    match Literal.wholeOf argument with
    | .error f => (s, .error f)
    | .ok n =>
      if n < 1 then (s, .ok limitApology)
      else
        ({ s with limit := n.toNat },
          .ok ("Decimal display limit set to ".toList ++ Numeral.ofInt n ++ " digits".toList))

/-- The answer to an evaluation: a failure with a message is answered by it. -/
def answer (r : Except Failure Text) : Except Failure Text :=
  match r with
  | .ok t => .ok t
  | .error f =>
    match f.report? with
    | some (_, message) => .ok (apology message.toList)
    | none => .error f

/-- What a command does: the session after it, what is printed on the way, and the answer, if there
is one. -/
def run (s : Session) : Command → Session × Outcome (Option Text)
  | .nothing => (s, ⟨[], .ok none⟩)
  | .help => (s, ⟨[], .ok (some help)⟩)
  | .mode m => ({ s with mode := m }, ⟨[], .ok (some (modeAnswer m))⟩)
  | .limit argument =>
    let (s, r) := s.setLimit argument
    (s, ⟨[], r.map some⟩)
  | .listing => (s, ⟨[], .ok (some s.listing)⟩)
  | .exit => ({ s with running := false }, ⟨[], .ok (some "Goodbye!".toList)⟩)
  | .assign name e =>
    let outcome := s.evaluate e
    match outcome.result with
    | .ok v =>
      ({ s with store := insert name v s.store },
        ⟨outcome.printed, .ok (some (name :: " = ".toList ++ s.shown v))⟩)
    | .error f => (s, ⟨outcome.printed, (answer (.error f)).map some⟩)
  | .evaluate e =>
    let outcome := s.evaluate e
    (s, ⟨outcome.printed, (answer (outcome.result.map s.shown)).map some⟩)

/-- The answer to a line, and the session after it. -/
def step (s : Session) (line : Text) : Session × Outcome (Option Text) := s.run (.ofLine line)

end Session

end RatCalc

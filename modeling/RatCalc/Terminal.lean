import RatCalc.Session

/-!
# The terminal

* `Terminal.opening`: what is printed before the first line is read.
* `Terminal.reply`: what is printed after a line.
* `Terminal.transcript`: all that is printed for a given input, and how the session ends.
-/

namespace RatCalc.Terminal

/-- What tells which settings were found. -/
def loaded (file : SettingsFile) : Text :=
  "Config loaded: ".toList ++ file.all.printed ++ ['\n']

/-- What greets the reader. -/
def banner : Text := "RatMath Terminal Calculator\nType HELP for help, EXIT to quit\n".toList

/-- What asks for a line. -/
def prompt : Text := "> ".toList

/-- What is printed when the input ends. -/
def farewell : Text := "\nGoodbye!\n".toList

/-- What is printed at the start, and the session. -/
def opening (file : SettingsFile) : Text × Except Failure Session :=
  match Session.ofRecord file.settings with
  | .ok s => (loaded file ++ banner, .ok s)
  | .error f => (loaded file, .error f)

/-- What is printed after a line, and the session after it. -/
def reply (s : Session) (line : Text) : Text × Except Failure Session :=
  let (s, outcome) := s.step line
  match outcome.result with
  | .ok (some answer) => (outcome.printed ++ answer ++ ['\n'], .ok s)
  | .ok none => (outcome.printed, .ok s)
  | .error f => (outcome.printed, .error f)

/-- What is printed from the first prompt on. -/
def conversation (s : Session) : List Text → Text × Except Failure Unit
  | [] => if s.running then (prompt ++ farewell, .ok ()) else ([], .ok ())
  | line :: rest =>
    if s.running then
      match reply s line with
      | (printed, .ok s) =>
        let (later, ending) := conversation s rest
        (prompt ++ printed ++ later, ending)
      | (printed, .error f) => (prompt ++ printed, .error f)
    else ([], .ok ())

/-- All that is printed for the lines of an input. -/
def transcript (file : SettingsFile) (lines : List Text) : Text × Except Failure Unit :=
  match opening file with
  | (printed, .ok s) =>
    let (later, ending) := conversation s lines
    (printed ++ later, ending)
  | (printed, .error f) => (printed, .error f)

end RatCalc.Terminal

import RatCalc.Terminal

/-!
# The command line

`main` runs the terminal on standard input, under the settings in `config.json` if there is such a
file in the current folder.
-/

namespace RatCalc.CommandLine

/-- The settings file of the current folder. -/
def settingsFile : IO SettingsFile := do
  try
    let t ← IO.FS.readFile "config.json"
    return some t.toList
  catch _ =>
    return none

/-- Prints a text at once. -/
def put (t : Text) : IO Unit := do
  let out ← IO.getStdout
  out.putStr (String.ofList t)
  out.flush

/-- Reports a failure and ends with it. -/
def fail (f : Failure) : IO UInt32 := do
  match f.report? with
  | some (code, message) => IO.eprintln (code ++ " " ++ message)
  | none => IO.eprintln "unexpected failure"
  return 1

/-- Answers lines until the session or the input ends. -/
partial def converse (s : Session) : IO UInt32 := do
  if !s.running then return 0
  put Terminal.prompt
  let line ← (← IO.getStdin).getLine
  if line.isEmpty then
    put Terminal.farewell
    return 0
  let (printed, next) := Terminal.reply s (Text.body line.toList)
  put printed
  match next with
  | .ok s => converse s
  | .error f => fail f

end RatCalc.CommandLine

open RatCalc in
/-- Runs the terminal. -/
def main : IO UInt32 := do
  let (printed, start) := Terminal.opening (← CommandLine.settingsFile)
  CommandLine.put printed
  match start with
  | .ok s => CommandLine.converse s
  | .error f => CommandLine.fail f

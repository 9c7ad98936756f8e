import RatCalc.Text.Basic

/-!
# The installation

* `Installation.missing`: the names of the required files that are not there.
* `Installation.complaint`: what is printed about them.
-/

namespace RatCalc.Installation

/-- The required files: folder and name. -/
def required : List (String × String) := [
  ("RatMath/", "UI.py"),
  ("RatMath/", "Console.py"),
  ("RatMath/", "MathEngine.py"),
  ("RatMath/", "config_manager.py"),
  ("RatMath/", "error.py"),
  ("", "config.json"),
  ("", "ui_strings.json")]

/-- The names of the required files that are not among the present ones. -/
def missing (present : List String) : List String :=
  (required.filter fun file => !present.contains (file.1 ++ file.2)).map (·.2)

/-- What is printed about missing files; nothing if there are none. -/
def complaint (missing : List String) : Text :=
  if missing.isEmpty then []
  else
    "Error: The following files are missing or in the wrong location:\n".toList
      ++ missing.flatMap fun name => '-' :: ' ' :: name.toList ++ ['\n']

end RatCalc.Installation

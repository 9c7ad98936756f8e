import RatCalc.Datum.Reader
import RatCalc.Datum.Writer
import RatCalc.Settings.Basic

/-!
# The settings file

* `SettingsFile`: the text of the file, if there is one.
* `SettingsFile.all`, `SettingsFile.field`: what it holds. A missing or malformed file holds an
  empty record.
* `SettingsFile.settings`: the stored fields over the defaults.
* `SettingsFile.describe`: what the fields mean.
-/

namespace RatCalc

/-- The text of the settings file, if there is one. -/
abbrev SettingsFile := Option Text

namespace SettingsFile

/-- The file that the calculator comes with. -/
def initial : SettingsFile := some (Datum.write (.record Settings.defaults))

/-- The file that holds a datum. -/
def ofDatum (d : Datum) : SettingsFile := some (Datum.write d)

/-- What the file holds, if it can be read. -/
def contents? (file : SettingsFile) : Option Datum := file.bind Datum.read?

/-- What the file holds. -/
def all (file : SettingsFile) : Datum := file.contents?.getD (.record [])

/-- A field of a record, or zero if it is missing; anything but a record has no fields, and lists and
records are no keys. -/
def fieldOf (d key : Datum) : Except Failure Datum :=
  match d, key with
  | .record fields, .text k => .ok ((Record.get? fields k).getD (.int 0))
  | .record _, .list _ | .record _, .record _ => .error .operand
  | .record _, _ => .ok (.int 0)
  | _, _ => .error .operand

/-- Whether a key stands for everything. -/
def isEverything : Datum → Bool
  | .text k => k == "all"
  | _ => false

/-- A field of the file, or all of it; a file that cannot be read gives an empty record instead. -/
def field (file : SettingsFile) (key : Datum) : Except Failure Datum :=
  match file.contents? with
  | some d => if isEverything key then .ok d else fieldOf d key
  | none => .ok (.record [])

/-- The default settings with the stored ones over them, if these are a record. -/
def settings (file : SettingsFile) : Record :=
  match file.all with
  | .record fields => Record.update Settings.defaults fields
  | _ => Settings.defaults

/-! ## Descriptions -/

/-- What the fields mean. -/
def descriptions : Record := [
  ("output_mode", .text "Output format: DECI (decimal), RAT (fraction) or BOTH"),
  ("decimal_limit", .text "Number of decimal digits shown before truncating with '...'"),
  ("type_aware",
    .text "Keep integers and fractions exact instead of turning every literal into an interval"),
  ("max_period_check", .text "Largest repeating period that is searched for"),
  ("max_period_digits", .text "Maximum number of repeating digits that are written out"),
  ("input_base", .text "Numeral base used for reading numbers (2 - 62)"),
  ("darkmode", .text "Dark appearance"),
  ("debug", .text "Print parser debug output to the console")]

/-- The description of a field, or zero if there is none; all of them if that is asked for. -/
def describe (key : Datum) : Except Failure Datum :=
  if isEverything key then .ok (.record descriptions) else fieldOf (.record descriptions) key

end SettingsFile

end RatCalc

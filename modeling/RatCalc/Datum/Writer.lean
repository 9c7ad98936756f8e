import RatCalc.Datum.Basic

/-!
# Writing plain data

* `Datum.write`: JSON over several lines, four more blanks for each level, ASCII only.
-/

namespace RatCalc.Datum

open Text

/-- One character inside a JSON string. -/
def escaped (c : Char) : Text :=
  if c = '\x22' || c = '\\' then ['\\', c]
  else if c = '\n' then ['\\', 'n']
  else if c = '\r' then ['\\', 'r']
  else if c = '\t' then ['\\', 't']
  else if c = '\x08' then ['\\', 'b']
  else if c = '\x0c' then ['\\', 'f']
  else if 32 ≤ c.toNat && c.toNat < 127 then [c]
  else if c.toNat < 0x10000 then '\\' :: 'u' :: hex 4 c.toNat
  else
    let offset := c.toNat - 0x10000
    '\\' :: 'u' :: hex 4 (0xD800 + offset / 0x400) ++ '\\' :: 'u' :: hex 4 (0xDC00 + offset % 0x400)

/-- One code point inside a JSON string. -/
def escapedPoint : CodePoint → Text
  | .char c => escaped c
  | .surrogate k => '\\' :: 'u' :: hex 4 (0xD800 + k.val)

/-- A JSON string. -/
def writtenText (s : WideText) : Text := ['\x22'] ++ s.points.flatMap escapedPoint ++ ['\x22']

/-- The number of a double. -/
def writtenReal : Binary64 → Text
  | .undefined => "NaN".toList
  | .infinite negative => if negative then "-Infinity".toList else "Infinity".toList
  | x => x.text

/-- A new line at a level of nesting. -/
def newLine (level : Nat) : Text := '\n' :: List.replicate (4 * level) ' '

mutual

/-- A datum whose lines after the first stand at the given level. -/
def written (level : Nat) : Datum → Text
  | null => "null".toList
  | truth b => if b then "true".toList else "false".toList
  | int n => Numeral.ofInt n
  | real x => writtenReal x
  | text s => writtenText s
  | list [] => ['[', ']']
  | list (item :: rest) =>
    '[' :: join [','] (writtenItems (level + 1) (item :: rest)) ++ newLine level ++ [']']
  | record [] => ['\x7b', '\x7d']
  | record (field :: rest) =>
    '\x7b' :: join [','] (writtenFields (level + 1) (field :: rest)) ++ newLine level ++ ['\x7d']

/-- The items of a list, each on a line of its own. -/
def writtenItems (level : Nat) : List Datum → List Text
  | [] => []
  | item :: rest => (newLine level ++ written level item) :: writtenItems level rest

/-- The fields of a record, each on a line of its own. -/
def writtenFields (level : Nat) : List (WideText × Datum) → List Text
  | [] => []
  | (key, value) :: rest =>
    (newLine level ++ writtenText key ++ ':' :: ' ' :: written level value)
      :: writtenFields level rest

end

/-- The text of a datum. -/
def write (d : Datum) : Text := written 0 d

end RatCalc.Datum

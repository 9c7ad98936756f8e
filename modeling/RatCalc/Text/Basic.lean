/-!
# Texts as lists of characters

* `Text`: a text, read and written one character at a time.
* `Text.split`, `Text.splitOnce`: cutting a text at separators.
* `Text.body`: the text without one final line break.
* `Text.contains`: occurrence of one text inside another.
-/

namespace RatCalc

/-- A text, as the list of its characters. -/
abbrev Text := List Char

namespace Text

/-- The parts between the separators. There is always at least one part. -/
def split (isSeparator : Char → Bool) : Text → List Text
  | [] => [[]]
  | c :: rest =>
    if isSeparator c then [] :: split isSeparator rest
    else
      match split isSeparator rest with
      | [] => [[c]]
      | part :: parts => (c :: part) :: parts

/-- What stands before and after the first separator, if there is one. -/
def splitOnce (isSeparator : Char → Bool) (t : Text) : Option (Text × Text) :=
  match t.dropWhile (fun c => !isSeparator c) with
  | [] => none
  | _ :: after => some (t.takeWhile (fun c => !isSeparator c), after)

/-- The text without one final line break: a whole-line pattern may be followed by one. -/
def body (t : Text) : Text :=
  if t.getLast? = some '\n' then t.dropLast else t

/-- Whether `needle` occurs in the text. -/
def contains (needle : Text) : Text → Bool
  | [] => needle.isEmpty
  | c :: rest => needle.isPrefixOf (c :: rest) || contains needle rest

/-- What follows `start`, if the text begins with it. -/
def after? : (start t : Text) → Option Text
  | [], t => some t
  | _ :: _, [] => none
  | a :: start, b :: t => if a = b then after? start t else none

/-- The texts in a row, with `separator` between neighbours. -/
def join (separator : Text) : List Text → Text
  | [] => []
  | [t] => t
  | t :: u :: rest => t ++ separator ++ join separator (u :: rest)

end Text

end RatCalc

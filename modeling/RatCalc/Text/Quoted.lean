import RatCalc.Text.Printable

/-!
# Quoted texts

* `hex`: a code point in a fixed number of hexadecimal digits.
* `quoted`: a text in quotes on one line. Single quotes are preferred, double quotes are taken for
  a text with single quotes only; backslashes, the quote itself, controls and unprintable
  characters are escaped.
-/

namespace RatCalc.Text

/-- The last `width` hexadecimal digits of a number, in small letters. -/
def hex : (width n : Nat) → Text
  | 0, _ => []
  | width + 1, n => hex width (n / 16) ++ [Nat.digitChar (n % 16)]

/-- One character as it stands between quotes. -/
def quotedChar (quote c : Char) : Text :=
  if c = '\\' || c = quote then ['\\', c]
  else if c = '\t' then ['\\', 't']
  else if c = '\n' then ['\\', 'n']
  else if c = '\r' then ['\\', 'r']
  else if isPrintable c then [c]
  else if c.toNat < 0x100 then '\\' :: 'x' :: hex 2 c.toNat
  else if c.toNat < 0x10000 then '\\' :: 'u' :: hex 4 c.toNat
  else '\\' :: 'U' :: hex 8 c.toNat

/-- The quote that a text is put in. -/
def quoteFor (t : Text) : Char :=
  if t.elem '\x27' && !t.elem '\x22' then '\x22' else '\x27'

/-- The text in quotes. -/
def quoted (t : Text) : Text :=
  [quoteFor t] ++ t.flatMap (quotedChar (quoteFor t)) ++ [quoteFor t]

end RatCalc.Text

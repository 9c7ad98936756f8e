import RatCalc.Text.Quoted

/-!
# Texts with lone surrogates

A character beyond the first 65536 code points can be written as a pair of surrogates. Escapes in a
settings file may write one half of such a pair alone; it is a code point, but no character.

* `CodePoint`: a character, or a surrogate that stands alone.
* `WideText`: a text of code points. A `Text` is one without surrogates.
* `WideText.toText`: the text as far as characters go.
* `WideText.quoted`: the text in quotes on one line, with surrogates escaped.
-/

namespace RatCalc

/-- A code point of a text. -/
inductive CodePoint where
  | char (c : Char)
  /-- The surrogate `0xD800 + k`. -/
  | surrogate (k : Fin 0x800)
  deriving DecidableEq, Repr

namespace CodePoint

/-- The code point of a number. -/
def ofNat (n : Nat) : CodePoint :=
  if h : 0xD800 ≤ n ∧ n < 0xE000 then surrogate ⟨n - 0xD800, by omega⟩ else char (Char.ofNat n)

/-- The number of a code point. -/
def toNat : CodePoint → Nat
  | char c => c.toNat
  | surrogate k => 0xD800 + k.val

/-- The character, where a surrogate counts as the replacement character. -/
def toChar : CodePoint → Char
  | char c => c
  | surrogate _ => '\ufffd'

/-- The code point as it stands between quotes. -/
def quoted (quote : Char) : CodePoint → Text
  | char c => Text.quotedChar quote c
  | surrogate k => '\\' :: 'u' :: Text.hex 4 (0xD800 + k.val)

theorem toNat_ofNat {n : Nat} (h : n < 0x110000) : (ofNat n).toNat = n := by
  unfold ofNat
  split
  · simp only [toNat]
    omega
  · have hv : n.isValidChar := by
      simp only [Nat.isValidChar]
      omega
    rw [toNat, Char.ofNat, dif_pos hv]
    rfl

end CodePoint

/-- A text of code points. -/
structure WideText where
  points : List CodePoint
  deriving DecidableEq, Repr

namespace WideText

/-- A text of characters. -/
def ofText (t : Text) : WideText := ⟨t.map .char⟩

/-- A text of characters. -/
def ofString (s : String) : WideText := ofText s.toList

instance : Coe String WideText := ⟨ofString⟩

/-- Whether there is nothing in the text. -/
def isEmpty (w : WideText) : Bool := w.points.isEmpty

/-- The characters of the text, with the replacement character for every surrogate. -/
def toText (w : WideText) : Text := w.points.map CodePoint.toChar

/-- The text in quotes. -/
def quoted (w : WideText) : Text :=
  let quote := Text.quoteFor w.toText
  [quote] ++ w.points.flatMap (CodePoint.quoted quote) ++ [quote]

@[simp] theorem toText_ofText (t : Text) : (ofText t).toText = t := by
  simp [ofText, toText, CodePoint.toChar, Function.comp_def]

theorem quoted_ofText (t : Text) : (ofText t).quoted = Text.quoted t := by
  simp only [quoted, toText_ofText, Text.quoted]
  simp [ofText, List.flatMap_map, CodePoint.quoted]

end WideText

end RatCalc

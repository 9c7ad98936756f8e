import RatCalc.NumeralSystem.Basic

/-!
# Standard numeral systems

* `ofChars`: a system whose digits are single characters.
* `ofBase`: the first digits of 0-9, a-z, A-Z; `standard` is the same with the base checked.
* `binary`, `octal`, `decimal`, `hexadecimal`, `base36`, `base60`, `base62`, `roman`.
* `Pattern`, `ofPattern`: systems of digits or letters only.
* `withoutCase`: a system whose digits are small letters.
-/

namespace RatCalc.NumeralSystem

open Text

theorem singleton_injective {a b : Char} (h : String.singleton a = String.singleton b) : a = b := by
  have := congrArg String.toList h
  simpa using this

theorem nodup_singletons {chars : List Char} (h : chars.Nodup) :
    (chars.map String.singleton).Nodup := by
  induction chars with
  | nil => exact List.nodup_nil
  | cons c rest ih =>
    rw [List.nodup_cons] at h
    rw [List.map_cons, List.nodup_cons]
    refine ⟨fun hm => h.1 ?_, ih h.2⟩
    obtain ⟨d, hd, e⟩ := List.mem_map.1 hm
    exact singleton_injective e ▸ hd

/-- The characters of the symbols that expressions are written with. -/
def reservedChars : List Char := ['+', '-', '*', '/', '^', '!', '(', ')', '[', ']', ':', '.', '#', '~']

theorem unreserved_singletons {chars : List Char} (h : ∀ c ∈ chars, c ∉ reservedChars) :
    ∀ d ∈ chars.map String.singleton, d ∉ reserved := by
  intro d hd hr
  obtain ⟨c, hc, rfl⟩ := List.mem_map.1 hd
  have : reserved = reservedChars.map String.singleton := by decide
  rw [this] at hr
  obtain ⟨r, hr, e⟩ := List.mem_map.1 hr
  exact h c hc (singleton_injective e ▸ hr)

theorem unreserved_of_all {chars : List Char}
    (h : (chars.all fun c => !reservedChars.elem c) = true) : ∀ c ∈ chars, c ∉ reservedChars := by
  intro c hc hr
  have hb := List.all_eq_true.1 h c hc
  rw [List.elem_eq_true_of_mem hr] at hb
  exact absurd hb (by decide)

/-- The system whose digits are the given characters. -/
def ofChars (chars : List Char) (name : String) (h₁ : 2 ≤ chars.length) (h₂ : chars.Nodup)
    (h₃ : ∀ c ∈ chars, c ∉ reservedChars) : NumeralSystem :=
  ⟨chars.map String.singleton, name, by simpa using h₁, nodup_singletons h₂,
    unreserved_singletons h₃⟩

/-- The digits of the standard systems. -/
def alphabet : List Char :=
  ['0', '1', '2', '3', '4', '5', '6', '7', '8', '9', 'a', 'b', 'c', 'd', 'e', 'f', 'g', 'h', 'i',
    'j', 'k', 'l', 'm', 'n', 'o', 'p', 'q', 'r', 's', 't', 'u', 'v', 'w', 'x', 'y', 'z', 'A', 'B',
    'C', 'D', 'E', 'F', 'G', 'H', 'I', 'J', 'K', 'L', 'M', 'N', 'O', 'P', 'Q', 'R', 'S', 'T', 'U',
    'V', 'W', 'X', 'Y', 'Z']

theorem nodup_alphabet : alphabet.Nodup := by decide

theorem unreserved_alphabet : ∀ c ∈ alphabet, c ∉ reservedChars :=
  unreserved_of_all (by decide)

theorem two_le_length_take {base : Nat} (h : 2 ≤ base) : 2 ≤ (alphabet.take base).length := by
  rw [List.length_take, show alphabet.length = 62 from rfl]
  omega

/-- The system of the first `base` standard digits, of which there are 62. -/
def ofBase (base : Nat) (h : 2 ≤ base) (name : String) : NumeralSystem :=
  ofChars (alphabet.take base) name (two_le_length_take h)
    (nodup_alphabet.sublist (List.take_sublist _ _))
    (fun c hc => unreserved_alphabet c (List.mem_of_mem_take hc))

theorem base_ofBase {base : Nat} (h : 2 ≤ base) (h₆₂ : base ≤ 62) (name : String) :
    (ofBase base h name).base = base := by
  show ((alphabet.take base).map String.singleton).length = base
  rw [List.length_map, List.length_take, show alphabet.length = 62 from rfl]
  omega

/-- The standard system of a base from 2 to 62. -/
def standard (base : Int) (name : Option String) : Except Failure NumeralSystem :=
  if h₁ : base < 2 then .error (.base .baseTooSmall)
  else if 62 < base then .error (.base .baseTooLarge)
  else .ok (ofBase base.toNat (by omega) (nameOr name ("Base " ++ toString base)))

def binary : NumeralSystem := ofBase 2 (by decide) "Binary"
def octal : NumeralSystem := ofBase 8 (by decide) "Octal"
def decimal : NumeralSystem := ofBase 10 (by decide) "Decimal"
def hexadecimal : NumeralSystem := ofBase 16 (by decide) "Hexadecimal"
def base36 : NumeralSystem := ofBase 36 (by decide) "Base 36"
def base60 : NumeralSystem := ofBase 60 (by decide) "Base 60 (Sexagesimal)"
def base62 : NumeralSystem := ofBase 62 (by decide) "Base 62"

/-- The letters of Roman numerals as place-value digits. -/
def roman : NumeralSystem :=
  ofChars ['I', 'V', 'X', 'L', 'C', 'D', 'M'] "Roman Numerals" (by decide) (by decide)
    (unreserved_of_all (by decide))

/-- The first `size` characters of a row; a negative size counts from the end. -/
def cut (chars : List Char) (size : Int) : List String :=
  (if 0 ≤ size then chars.take size.toNat else chars.take (chars.length - size.natAbs)).map
    String.singleton

/-- The patterns: rows of digits that a system can take its first digits from. -/
inductive Pattern where
  | alphanumeric
  | digitsOnly
  | lettersOnly
  | uppercaseOnly
  deriving DecidableEq, Repr

namespace Pattern

/-- The pattern of a name, in whatever case. -/
def ofName (t : Text) : Except Failure Pattern :=
  let name := String.ofList (lower t)
  if name = "alphanumeric" then .ok alphanumeric
  else if name = "digits-only" then .ok digitsOnly
  else if name = "letters-only" then .ok lettersOnly
  else if name = "uppercase-only" then .ok uppercaseOnly
  else .error (.base (.unknownPattern name))

/-- How reports call a pattern. -/
def title : Pattern → String
  | alphanumeric => "Alphanumeric"
  | digitsOnly => "Digits-only"
  | lettersOnly => "Letters-only"
  | uppercaseOnly => "Uppercase-only"

/-- The digits that a pattern has. -/
def chars : Pattern → List Char
  | alphanumeric => alphabet
  | digitsOnly => alphabet.take 10
  | lettersOnly => alphabet.drop 10
  | uppercaseOnly => alphabet.drop 36

/-- How many digits a pattern has. -/
def limit (p : Pattern) : Nat := p.chars.length

/-- What the name of a system says of its pattern. -/
def note (p : Pattern) (size : Int) : String :=
  match p with
  | alphanumeric => ""
  | digitsOnly => " (digits only)"
  | lettersOnly => if size ≤ 26 then " (lowercase letters)" else " (mixed case letters)"
  | uppercaseOnly => " (uppercase letters)"

end Pattern

/-- What is told of a size beyond the digits of a pattern. -/
def tooLarge (p : Pattern) (size : String) : Failure :=
  .base (.patternTooLarge p.title p.limit size)

/-- The system of the first digits of a pattern; a negative size leaves out the last ones. -/
def ofPattern (p : Pattern) (size : Int) (name : Option String) : Except Failure NumeralSystem :=
  if p.limit < size then .error (tooLarge p (toString size))
  else if p = .alphanumeric then standard size name
  else ofDigits (cut p.chars size) (nameOr name ("Base " ++ toString size ++ p.note size))

/-- The digits in small letters, without repetitions. -/
def lowered (s : NumeralSystem) : List String :=
  s.digits.foldl (fun found d =>
    let d := String.ofList (lower d.toList)
    if found.contains d then found else found ++ [d]) []

/-- The system in which capital and small letters are the same digit. -/
def withoutCase (s : NumeralSystem) : Except Failure NumeralSystem :=
  ofDigits s.lowered (some (s.name ++ " (case-insensitive)"))

end RatCalc.NumeralSystem

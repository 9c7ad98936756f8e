import RatCalc.Binary64
import RatCalc.Text.Wide

/-!
# Plain data

* `Datum`: what a settings file can hold and what may be handed in where a number is expected.
* `Record`: fields in the order in which their keys first came.
* `Datum.shown`, `Datum.printed`: a datum on one line, as it appears in reports, and as it is printed.
-/

namespace RatCalc

/-- Plain data. -/
inductive Datum where
  | null
  | truth (b : Bool)
  | int (n : Int)
  | real (x : Binary64)
  | text (s : WideText)
  | list (items : List Datum)
  | record (fields : List (WideText × Datum))
  deriving Repr, Inhabited

/-- Fields by key. -/
abbrev Record := List (WideText × Datum)

namespace Record

/-- The value of a key. -/
def get? (fields : Record) (key : WideText) : Option Datum := fields.lookup key

/-- Sets a key: in its old place if it is there, at the end otherwise. -/
def set : Record → WideText → Datum → Record
  | [], key, value => [(key, value)]
  | (k, v) :: rest, key, value => if k = key then (k, value) :: rest else (k, v) :: set rest key value

/-- Sets all fields of `changes`, in order. -/
def update (fields changes : Record) : Record :=
  changes.foldl (fun r f => set r f.1 f.2) fields

theorem get?_set_self (r : Record) (key : WideText) (value : Datum) :
    get? (set r key value) key = some value := by
  induction r with
  | nil => simp [set, get?]
  | cons f rest ih =>
    obtain ⟨k, v⟩ := f
    by_cases h : k = key
    · simp [set, get?, h]
    · have h' : (key == k) = false := beq_false_of_ne (Ne.symm h)
      rw [set, if_neg h]
      change List.lookup key ((k, v) :: set rest key value) = some value
      rw [List.lookup_cons, h']
      exact ih

end Record

namespace Datum

mutual

/-- The datum on one line: texts in quotes, truth values and the empty value with a capital. -/
def shown : Datum → Text
  | null => "None".toList
  | truth b => if b then "True".toList else "False".toList
  | int n => Numeral.ofInt n
  | real x => x.text
  | text s => s.quoted
  | list items => '[' :: Text.join [',', ' '] (shownItems items) ++ [']']
  | record fields => '\x7b' :: Text.join [',', ' '] (shownFields fields) ++ ['\x7d']

/-- The items of a list, each on one line. -/
def shownItems : List Datum → List Text
  | [] => []
  | item :: rest => shown item :: shownItems rest

/-- The fields of a record, each on one line. -/
def shownFields : List (WideText × Datum) → List Text
  | [] => []
  | (key, value) :: rest => (key.quoted ++ ':' :: ' ' :: shown value) :: shownFields rest

end

/-- The datum as it is printed: a text as it is, anything else on one line. -/
def printed : Datum → Text
  | text s => s.toText
  | d => d.shown

end Datum

end RatCalc

import RatCalc.Datum.Basic
import RatCalc.Display
import RatCalc.Expr.Basic

/-!
# Settings

* `Settings`: what the calculator is set to, within the bounds it can work with.
* `Settings.defaults`: the fields that hold where nothing else is said.
* `Settings.ofRecord`: the settings of a record, whose missing fields have their defaults.
-/

namespace RatCalc

/-- What the calculator is set to. -/
structure Settings where
  mode : OutputMode
  /-- How many digits after the point are shown. -/
  limit : Nat
  /-- Whether values stay integers and rational numbers. -/
  exact : Bool
  periodLimit : Nat
  maxPeriodDigits : Nat
  inputBase : Nat
  dark : Bool
  debug : Bool
  one_le_limit : 1 ≤ limit
  one_le_periodLimit : 1 ≤ periodLimit
  one_le_maxPeriodDigits : 1 ≤ maxPeriodDigits
  two_le_inputBase : 2 ≤ inputBase
  inputBase_le : inputBase ≤ 62

namespace Settings

/-- The fields of the default settings. -/
def defaults : Record := [
  ("output_mode", .text "BOTH"),
  ("decimal_limit", .int 20),
  ("type_aware", .truth true),
  ("max_period_check", .int 10000000),
  ("max_period_digits", .int 1000),
  ("input_base", .int 10),
  ("darkmode", .truth false),
  ("debug", .truth false)]

/-- A record with the defaults for its missing fields. -/
def completed (r : Record) : Record := Record.update defaults r

/-! ## Fields -/

/-- The output mode. -/
def modeOf (r : Record) : Except Failure OutputMode :=
  match r.get? "output_mode" with
  | some (.text s) =>
    match OutputMode.ofName? (String.ofList s.toText) with
    | some m => .ok m
    | none => .error (.setting .outputMode)
  | _ => .error (.setting .outputMode)

/-- A field that is a positive integer. -/
def positive (r : Record) (key : String) : Except Failure { n : Nat // 1 ≤ n } :=
  match r.get? key with
  | some (.int n) =>
    if h : 1 ≤ n then .ok ⟨n.toNat, by omega⟩ else .error (.setting (.positive key))
  | _ => .error (.setting (.positive key))

/-- The input base. -/
def baseOf (r : Record) : Except Failure { n : Nat // 2 ≤ n ∧ n ≤ 62 } :=
  match r.get? "input_base" with
  | some (.int n) =>
    if h : 2 ≤ n ∧ n ≤ 62 then .ok ⟨n.toNat, by omega⟩ else .error (.setting .inputBase)
  | _ => .error (.setting .inputBase)

/-- A field that is a truth value. -/
def truth (r : Record) (key : String) : Except Failure Bool :=
  match r.get? key with
  | some (.truth b) => .ok b
  | _ => .error (.setting (.truthValue key))

/-- The settings of a record without missing fields. -/
def ofCompleted (r : Record) : Except Failure Settings := do
  let mode ← modeOf r
  let limit ← positive r "decimal_limit"
  let periodLimit ← positive r "max_period_check"
  let maxPeriodDigits ← positive r "max_period_digits"
  let base ← baseOf r
  let exact ← truth r "type_aware"
  let dark ← truth r "darkmode"
  let debug ← truth r "debug"
  return ⟨mode, limit.1, exact, periodLimit.1, maxPeriodDigits.1, base.1, dark, debug, limit.2,
    periodLimit.2, maxPeriodDigits.2, base.2.1, base.2.2⟩

/-- The settings of a record. -/
def ofRecord (r : Record) : Except Failure Settings := ofCompleted (completed r)

/-! ## What the settings are used for -/

/-- The numeral system of the input base, or nothing for the decimal one. -/
def system (s : Settings) : Option NumeralSystem :=
  if s.inputBase = 10 then none
  else some (.ofBase s.inputBase s.two_le_inputBase ("Base " ++ toString s.inputBase))

/-- How expressions are read and evaluated. -/
def dialect (s : Settings) : Dialect := ⟨s.exact, s.system, LetterTable.initial⟩

/-- How results are shown. -/
def format (s : Settings) : Format := ⟨s.mode, s.limit, s.maxPeriodDigits, s.periodLimit⟩

end Settings

end RatCalc

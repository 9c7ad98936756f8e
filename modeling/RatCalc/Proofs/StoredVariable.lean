import RatCalc.Proofs.IntervalValues
import RatCalc.Proofs.NumberText
import RatCalc.Proofs.RationalOperand
import RatCalc.Proofs.ShownNumber
import RatCalc.Session

/-!
# Stored variables

* `Number.Alike`: numbers of equal value that every format shows alike.
* `exists_value_literal`: what is written out for a value reads back as one alike.
* `result_step_name`: a name is answered with its value as it is shown.
* `NoAssignment`, `run_eq_assigned`: only an assignment is answered with a name, an equals sign and a
  text.
* **`variable_stands_for_value`**: a value that is written out compares equal to itself, and a
  variable is shown as it was when it was set.
-/

namespace RatCalc

open Text Expansion

/-! ## Numbers that are shown alike -/

namespace Number

/-- Two numbers are equal in value, and every format shows them alike. -/
def Alike (x y : Number) : Prop := x.same y = true ∧ ∀ f, Display.number f x = Display.number f y

theorem alike_refl (x : Number) : x.Alike x := by
  refine ⟨?_, fun _ => rfl⟩
  cases x with
  | integer n => exact (same_eq_true_iff (x := integer n) rfl rfl).2 rfl
  | rational a => exact (same_eq_true_iff (x := rational a) rfl rfl).2 rfl
  | interval i => exact beq_self_eq_true i

theorem number_of_toRat? {x : Number} {a : Rat} (h : x.toRat? = some a) (f : Format) :
    Display.number f x = Display.number f (rational a).simplest := by
  rw [← simplest_of_toRat? h]
  cases x with
  | integer n => rfl
  | rational b =>
    rw [simplest, simplest.simplestRat]
    split_ifs with hb
    · exact Display.number_of_den_one f hb
    · rfl
  | interval i => cases h

theorem alike_simplest {x : Number} {a : Rat} (h : x.toRat? = some a) :
    (rational a).simplest.Alike x :=
  ⟨(same_eq_true_iff (toRat?_simplest a) h).2 rfl, fun f => (number_of_toRat? h f).symm⟩

end Number

namespace Session

variable {s : Session} {v : Value} {name : Char} {e t : Text}

/-! ## Values written out -/

theorem isStandard_dialect (s : Settings) : s.dialect.IsStandard := by
  intro system h
  change s.system = some system at h
  rw [Settings.system] at h
  split_ifs at h
  cases h
  exact ⟨_, _, _, rfl⟩

theorem rationalLiteral_eq (s : Session) (a : Rat) :
    s.rationalLiteral a = s.settings.dialect.rationalText a := List.append_assoc _ _ _

theorem literal_of_toRat? (s : Session) {a : Rat} (h : v.number.toRat? = some a) :
    s.literal v = s.settings.dialect.rationalText a := by
  rw [← rationalLiteral_eq]
  obtain ⟨x, keepForm⟩ := v
  cases x with
  | integer n =>
    cases Option.some.inj h
    rw [rationalLiteral, Rat.num_intCast, if_pos (Rat.den_intCast n), List.append_nil]
    rfl
  | rational b =>
    cases Option.some.inj h
    rfl
  | interval i => cases h

theorem literal_interval (s : Session) (i : Interval) (keepForm : Bool) :
    s.literal ⟨.interval i, keepForm⟩ =
      s.settings.dialect.rationalText i.low ++ ':' :: s.settings.dialect.rationalText i.high := by
  rw [← rationalLiteral_eq, ← rationalLiteral_eq]
  rfl

/-- What is written out for a value are digits, and what stands between them. -/
theorem mem_literal {c : Char} (h : c ∈ s.literal v) :
    s.settings.dialect.isDigit c = true ∨ c ∈ ['-', '/', ':'] := by
  have hd := isStandard_dialect s.settings
  have hrational : ∀ {a : Rat}, c ∈ s.settings.dialect.rationalText a →
      s.settings.dialect.isDigit c = true ∨ c ∈ ['-', '/', ':'] := fun h =>
    (Dialect.mem_rationalText hd h).imp_right (List.mem_append_left [':'])
  cases ha : v.number.toRat? with
  | some a =>
    rw [literal_of_toRat? s ha] at h
    exact hrational h
  | none =>
    obtain ⟨x, keepForm⟩ := v
    cases x with
    | integer n | rational a => cases ha
    | interval i =>
      rw [literal_interval, List.mem_append, List.mem_cons] at h
      rcases h with h | rfl | h
      · exact hrational h
      · exact .inr (by decide)
      · exact hrational h

/-- In parentheses the text of a number has the value of the number. -/
theorem exists_value_rationalText {d : Dialect} (hd : d.IsStandard) (hexact : d.exact = true)
    (a : Rat) : ∃ w, Expr.valueOf d ('(' :: (d.rationalText a ++ [')'])) = .ok w ∧
      w.number = (Number.rational a).simplest := by
  refine ⟨_, Expr.valueOf_parens (Dialect.valueOf_rationalText hd hexact a), ?_⟩
  rw [Dialect.simplify, if_pos hexact]
  exact Number.simplest_simplest a

theorem exists_value_intervalText {d : Dialect} (hd : d.IsStandard) (i : Interval) :
    ∃ w, Expr.valueOf d ('(' :: (d.rationalText i.low ++ ':' :: d.rationalText i.high ++ [')'])) =
      .ok w ∧ w.number = .interval i := by
  refine ⟨_, Expr.valueOf_parens (Dialect.valueOf_intervalText hd i), ?_⟩
  rw [Dialect.simplify]
  split_ifs <;> rfl

/-- **What is written out for a value reads back**, as a value that is shown alike. -/
theorem exists_value_literal (hv : s.settings.exact = false → v.number.level = 2) :
    ∃ w, Expr.valueOf s.settings.dialect ('(' :: (s.literal v ++ [')'])) = .ok w ∧
      w.number.Alike v.number := by
  have hd := isStandard_dialect s.settings
  cases h : v.number.toRat? with
  | some a =>
    have hexact : s.settings.dialect.exact = true := by
      by_contra hne
      obtain ⟨i, hi⟩ := Number.exists_of_level_two (hv (Bool.eq_false_of_not_eq_true hne))
      rw [hi] at h
      cases h
    obtain ⟨w, hw, hnumber⟩ := exists_value_rationalText hd hexact a
    refine ⟨w, ?_, hnumber ▸ Number.alike_simplest h⟩
    rw [literal_of_toRat? s h, hw]
  | none =>
    obtain ⟨x, keepForm⟩ := v
    cases x with
    | integer n | rational a => cases h
    | interval i =>
      obtain ⟨w, hw, hnumber⟩ := exists_value_intervalText hd i
      refine ⟨w, ?_, hnumber ▸ Number.alike_refl _⟩
      rw [literal_interval, hw]

/-- So does every value of an expression. -/
theorem exists_value_of_evaluate (h : (s.evaluate e).result = .ok v) :
    ∃ w, Expr.valueOf s.settings.dialect ('(' :: (s.literal v ++ [')'])) = .ok w ∧
      w.number.Alike v.number :=
  exists_value_literal fun hexact => Expr.level_valueOf hexact h

/-! ## Names -/

theorem lookup_insert (name : Char) (v : Value) (store : List (Char × Value)) :
    (insert name v store).lookup name = some v := by
  induction store with
  | nil => exact List.lookup_cons_self
  | cons entry rest ih =>
    obtain ⟨c, w⟩ := entry
    rw [insert]
    split_ifs with h
    · exact List.lookup_cons_self
    · exact List.lookup_cons_self
    · rw [List.lookup_cons, beq_false_of_ne h]
      exact ih

theorem substitute_name (hname : isName name = true) (hv : s.value? name = some v) :
    s.substitute [name] = '(' :: (s.literal v ++ [')']) := by
  have hvariable : (isName name && !false && !([] : Text).head?.any isWordChar) = true := by
    rw [hname]
    rfl
  rw [substitute, substituteFrom, if_pos hvariable, hv]
  rfl

theorem exists_of_isName {c : Char} (h : isName c = true) :
    ∃ n : Fin 26, c = Char.ofNat (97 + n) := by
  obtain ⟨ha, hz⟩ := (Bool.and_eq_true _ _ ▸ h : _ ∧ _)
  have ha : 97 ≤ c.toNat := of_decide_eq_true ha
  have hz : c.toNat ≤ 122 := of_decide_eq_true hz
  refine ⟨⟨c.toNat - 97, by omega⟩, ?_⟩
  rw [show 97 + (c.toNat - 97) = c.toNat by omega, Char.ofNat_toNat]

theorem ofLine_letter : ∀ n : Fin 26,
    Command.ofLine [Char.ofNat (97 + n)] = .evaluate [Char.ofNat (97 + n)] := by decide

/-- A line that is a name is no command word. -/
theorem ofLine_name (hname : isName name = true) : Command.ofLine [name] = .evaluate [name] := by
  obtain ⟨n, rfl⟩ := exists_of_isName hname
  exact ofLine_letter n

/-- **A name is answered with its value**, as it is shown. -/
theorem result_step_name (hname : isName name = true) (hv : s.value? name = some v)
    (hlevel : s.settings.exact = false → v.number.level = 2) :
    (s.step [name]).2.result = .ok (some (s.shown v)) := by
  obtain ⟨w, hw, halike⟩ := exists_value_literal hlevel
  have hresult : (s.evaluate [name]).result = .ok w := by
    rw [← hw, ← substitute_name hname hv]
    rfl
  have hshown : s.shown w = s.shown v := halike.2 s.format
  rw [step, ofLine_name hname, run]
  simp only
  rw [hresult, ← hshown]
  rfl

/-! ## Assignments -/

/-- A text that begins with a name. -/
def BeginsWithName (t : Text) : Bool := t.head?.any isName

/-- A text that is no answer to an assignment: no name begins it, or it has no equals sign. -/
def NoAssignment (t : Text) : Prop := BeginsWithName t = false ∨ '=' ∉ t

theorem NoAssignment.ne (h : NoAssignment t) (hname : isName name = true) (u : Text) :
    t ≠ name :: " = ".toList ++ u := by
  rintro rfl
  rcases h with h | h
  · exact Bool.false_ne_true (h.symm.trans hname)
  · exact h (List.mem_cons_of_mem _ (List.mem_append_left _ (by decide)))

theorem beginsWithName_append (h : t.isEmpty = false) (u : Text) :
    BeginsWithName (t ++ u) = BeginsWithName t := by
  cases t with
  | nil => cases h
  | cons c t => rfl

theorem noAssignment_help : NoAssignment help := by
  left
  unfold help
  simp only [String.toList_append, List.append_assoc]
  -- the first part alone is evaluated, the whole text would take long
  rw [beginsWithName_append (by decide)]
  rfl

theorem noAssignment_modeAnswer (m : OutputMode) : NoAssignment (modeAnswer m) := by
  cases m <;> exact .inl rfl

theorem noAssignment_listing (s : Session) : NoAssignment s.listing := by
  rw [listing]
  split_ifs <;> exact .inl rfl

theorem noAssignment_setLimit {argument : Text} (h : (s.setLimit argument).2 = .ok t) :
    NoAssignment t := by
  left
  rw [setLimit] at h
  split_ifs at h
  · cases h
    rfl
  · cases h
    rfl
  · split at h
    · cases h
    · split_ifs at h <;> cases h <;> rfl

theorem noAssignment_apology (message : Text) : NoAssignment (apology message) := by
  left
  rw [apology]
  split_ifs <;> rfl

/-- A failure is not answered like an assignment. -/
theorem noAssignment_error {f : Failure} (h : answer (.error f) = .ok t) : NoAssignment t := by
  rw [answer] at h
  split at h
  · cases h
    exact noAssignment_apology _
  · cases h

/-- Nor is a value that is shown, as no equals sign is in it. -/
theorem noAssignment_shown (s : Session) (v : Value) : NoAssignment (s.shown v) := by
  refine .inr fun h => ?_
  rcases Display.shows_number s.format v.number '=' h with h | h
  · cases h
  · exact absurd h (by decide)

/-- **Only an assignment is answered** with a name, an equals sign and a text. -/
theorem run_eq_assigned {c : Command} (hname : isName name = true)
    (h : (s.run c).2.result = .ok (some (name :: " = ".toList ++ t))) :
    ∃ e v, (s.evaluate e).result = .ok v ∧
      (s.run c).1 = { s with store := insert name v s.store } ∧ t = s.shown v := by
  have hne : ∀ {u}, NoAssignment u → some u ≠ some (name :: " = ".toList ++ t) := fun hu h =>
    hu.ne hname t (Option.some.inj h)
  cases c with
  | nothing => cases h
  | help =>
    rw [run, Except.ok.injEq] at h
    exact absurd h (hne noAssignment_help)
  | mode m =>
    rw [run, Except.ok.injEq] at h
    exact absurd h (hne (noAssignment_modeAnswer m))
  | limit argument =>
    obtain ⟨u, hu, h⟩ := Number.exists_of_map_eq_ok h
    exact absurd h (hne (noAssignment_setLimit hu))
  | listing =>
    rw [run, Except.ok.injEq] at h
    exact absurd h (hne (noAssignment_listing s))
  | exit =>
    rw [run, Except.ok.injEq] at h
    exact absurd h (hne (.inl rfl))
  | assign name' e =>
    rw [run] at h ⊢
    cases hr : (s.evaluate e).result with
    | ok v =>
      simp only [hr] at h ⊢
      obtain ⟨rfl, ht⟩ := List.cons.inj (Option.some.inj (Except.ok.inj h))
      exact ⟨e, v, hr, rfl, (List.append_cancel_left ht).symm⟩
    | error f =>
      simp only [hr] at h
      obtain ⟨u, hu, h⟩ := Number.exists_of_map_eq_ok h
      exact absurd h (hne (noAssignment_error hu))
  | evaluate e =>
    rw [run] at h
    obtain ⟨u, hu, h⟩ := Number.exists_of_map_eq_ok h
    cases hr : (s.evaluate e).result with
    | ok v =>
      rw [hr] at hu
      cases hu
      exact absurd h (hne (noAssignment_shown s v))
    | error f =>
      rw [hr] at hu
      exact absurd h (hne (noAssignment_error hu))

/-- **A variable stands for its value.** Written out in parentheses, a value that the session
evaluated compares equal to itself; and a name that was set is answered with what was shown when it
was set. -/
theorem variable_stands_for_value {r : Record} (hs : Settings.ofRecord r = .ok s.settings) :
    (∀ e v, (s.evaluate e).result = .ok v →
      ∃ w, (Calculator.evaluate r ('(' :: (s.literal v ++ [')']))).result = .ok w ∧
        w.number.same v.number = true) ∧
    ∀ line name t, isName name = true →
      (s.step line).2.result = .ok (some (name :: " = ".toList ++ t)) →
      ((s.step line).1.step [name]).2.result = .ok (some t) := by
  constructor
  · intro e v he
    obtain ⟨w, hw, halike⟩ := exists_value_of_evaluate he
    refine ⟨w, ?_, halike.1⟩
    rw [Calculator.evaluate, hs]
    exact hw
  · intro line name t hname h
    obtain ⟨e, v, he, hrun, rfl⟩ := run_eq_assigned hname h
    have hstep : (s.step line).1 = { s with store := insert name v s.store } := hrun
    rw [hstep]
    exact result_step_name hname (lookup_insert name v s.store) fun hexact =>
      Expr.level_valueOf hexact he

/-- The session at its start with the default settings, but hexadecimal input. -/
def hexadecimal : Session :=
  (Session.ofRecord [("input_base", .int 16)]).toOption.get (by decide +kernel)

/-- A negative fraction in hexadecimal digits. -/
theorem minus_eleven_twentySevenths :
    Session.ofRecord [("input_base", .int 16)] = .ok hexadecimal ∧
      (∃ v w, (hexadecimal.evaluate "10/1b-1".toList).result = .ok v ∧
        hexadecimal.literal v = "-b/1b".toList ∧
        (Calculator.evaluate [("input_base", .int 16)] "(-b/1b)".toList).result = .ok w ∧
        w.number.same v.number = true) ∧
      isName 'x' = true ∧
      (hexadecimal.step "x = 10/1b-1".toList).2.result =
        .ok (some "x = -0.#407 \x7bperiod: 3\x7d (-11/27)".toList) ∧
      ((hexadecimal.step "x = 10/1b-1".toList).1.step ['x']).2.result =
        .ok (some "-0.#407 \x7bperiod: 3\x7d (-11/27)".toList) := by
  have hs : Settings.ofRecord [("input_base", .int 16)] = .ok hexadecimal.settings := rfl
  have hv : (hexadecimal.evaluate "10/1b-1".toList).result =
      .ok (.plain (.rational (mkRat (-11) 27))) := by decide +kernel
  have hliteral : hexadecimal.literal (.plain (.rational (mkRat (-11) 27))) = "-b/1b".toList := by
    with_unfolding_all decide
  have hassigned : (hexadecimal.step "x = 10/1b-1".toList).2.result =
      .ok (some ('x' :: " = ".toList ++ "-0.#407 \x7bperiod: 3\x7d (-11/27)".toList)) := by
    decide +kernel
  obtain ⟨hvalue, hrecalled⟩ := variable_stands_for_value hs
  obtain ⟨w, hw, hsame⟩ := hvalue _ _ hv
  rw [hliteral] at hw
  exact ⟨rfl, ⟨_, w, hv, hliteral, hw, hsame⟩, rfl, hassigned, hrecalled _ _ _ rfl hassigned⟩

end Session

end RatCalc

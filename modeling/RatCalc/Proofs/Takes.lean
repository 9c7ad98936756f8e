import Mathlib.Tactic.SplitIfs
import RatCalc.Expr.Reader
import RatCalc.NumeralSystem.Standard
import RatCalc.Proofs.Digits

/-!
# What a reader takes from a text

* `Closed`: after every opening bracket there is a closing one.
* `Takes t r`: something without a bracket stands before `r` in `t`; `Takes.refl`, `Takes.trans`.
* `isDigit_of_reserved`, `marker_eq`: digits are no symbols, and the mark of an exponent is one of
  two.
* **`Takes.leaves`**: where a closed text is left, the whole text is closed.
-/

namespace RatCalc

open Text

/-- A computation of two steps succeeds if both do. -/
theorem bind_eq_ok {α β : Type} {x : Except Failure α} {f : α → Except Failure β} {b : β} :
    (x >>= f) = .ok b ↔ ∃ a, x = .ok a ∧ f a = .ok b := by
  cases x with
  | error e =>
    refine iff_of_false (fun h => nomatch h) ?_
    rintro ⟨_, h, _⟩
    cases h
  | ok a =>
    refine ⟨fun h => ⟨a, rfl, h⟩, ?_⟩
    rintro ⟨_, h, hb⟩
    cases h
    exact hb

theorem bind_of_ok {α β : Type} {x : Except Failure α} {f : α → Except Failure β} {a : α}
    (h : x = .ok a) : (x >>= f) = f a := by rw [h]; rfl

namespace Text

/-! ## Closed texts -/

/-- After every opening bracket there is a closing one. -/
def Closed (t : Text) : Prop := ∀ u v, t = u ++ '[' :: v → ']' ∈ v

theorem closed_of_not_mem {t : Text} (h : '[' ∉ t) : Closed t := by
  rintro u v rfl
  exact absurd (List.mem_append_right u List.mem_cons_self) h

theorem closed_nil : Closed [] := closed_of_not_mem List.not_mem_nil

theorem Closed.append {s t : Text} (hs : Closed s) (ht : Closed t) : Closed (s ++ t) := by
  intro u v h
  rcases List.append_eq_append_iff.1 h with ⟨w, rfl, hw⟩ | ⟨w, rfl, hw⟩
  · exact ht w v hw
  · cases w with
    | nil => exact ht [] v hw.symm
    | cons c w =>
      rw [List.cons_append, List.cons.injEq] at hw
      obtain ⟨rfl, rfl⟩ := hw
      exact List.mem_append_left t (hs u w rfl)

theorem Closed.of_append {s t : Text} (h : Closed (s ++ t)) : Closed t := by
  rintro u v rfl
  exact h (s ++ u) v (List.append_assoc _ _ _).symm

/-! ## What is taken -/

/-- Something without an opening bracket stands before `r` in `t`. -/
def Takes (t r : Text) : Prop := ∃ u, '[' ∉ u ∧ t = u ++ r

theorem Takes.refl (t : Text) : Takes t t := ⟨[], List.not_mem_nil, rfl⟩

theorem Takes.trans {t u r : Text} (h : Takes t u) (h' : Takes u r) : Takes t r := by
  obtain ⟨a, ha, rfl⟩ := h
  obtain ⟨b, hb, rfl⟩ := h'
  exact ⟨a ++ b, fun hm => (List.mem_append.1 hm).elim ha hb, (List.append_assoc a b r).symm⟩

theorem Takes.of_append {u : Text} (h : '[' ∉ u) (r : Text) : Takes (u ++ r) r := ⟨u, h, rfl⟩

theorem Takes.cons {c : Char} (h : c ≠ '[') (t : Text) : Takes (c :: t) t :=
  .of_append (u := [c]) (by simpa using h.symm) t

theorem Takes.dropWhile {p : Char → Bool} (h : p '[' = false) (t : Text) :
    Takes t (t.dropWhile p) := by
  refine ⟨t.takeWhile p, fun hm => ?_, List.takeWhile_append_dropWhile.symm⟩
  rw [List.all_eq_true.1 List.all_takeWhile _ hm] at h
  cases h

/-- Something without an opening bracket, and not nothing, stands before `r` in `t`. -/
def Consumes (t r : Text) : Prop := Takes t r ∧ r.length < t.length

theorem Consumes.takes {t r : Text} (h : Consumes t r) : Takes t r := h.1

theorem Takes.length_le {t r : Text} (h : Takes t r) : r.length ≤ t.length := by
  obtain ⟨u, -, rfl⟩ := h
  rw [List.length_append]
  omega

theorem Takes.trans_consumes {t u r : Text} (h : Takes t u) (h' : Consumes u r) : Consumes t r :=
  ⟨h.trans h'.1, Nat.lt_of_lt_of_le h'.2 h.length_le⟩

theorem Consumes.trans_takes {t u r : Text} (h : Consumes t u) (h' : Takes u r) : Consumes t r :=
  ⟨h.1.trans h', Nat.lt_of_le_of_lt h'.length_le h.2⟩

theorem Consumes.cons {c : Char} (h : c ≠ '[') (t : Text) : Consumes (c :: t) t :=
  ⟨.cons h t, by rw [List.length_cons]; omega⟩

theorem Consumes.dropWhile {p : Char → Bool} (h : p '[' = false) {t : Text}
    (ht : t.takeWhile p ≠ []) : Consumes t (t.dropWhile p) := by
  refine ⟨.dropWhile h t, ?_⟩
  have hl := congrArg List.length (List.takeWhile_append_dropWhile (p := p) (l := t))
  have := List.length_pos_iff.2 ht
  rw [List.length_append] at hl
  omega

/-- Where all is taken there is no opening bracket. -/
theorem Takes.not_mem {t : Text} (h : Takes t []) : '[' ∉ t := by
  obtain ⟨u, hu, rfl⟩ := h
  rwa [List.append_nil]

/-- A text that is no longer than another one, which is closed where it is. -/
structure Leaves (t r : Text) : Prop where
  length_le : r.length ≤ t.length
  closed : Closed r → Closed t

theorem Leaves.trans {t u r : Text} (h : Leaves t u) (h' : Leaves u r) : Leaves t r :=
  ⟨Nat.le_trans h'.length_le h.length_le, fun hr => h.closed (h'.closed hr)⟩

theorem Takes.leaves {t r : Text} (h : Takes t r) : Leaves t r := by
  refine ⟨h.length_le, fun hr => ?_⟩
  obtain ⟨u, hu, rfl⟩ := h
  exact (closed_of_not_mem hu).append hr

/-! ## A minus sign -/

/-- Whether a minus sign begins a text, and the text without it. -/
def minus (t : Text) : Bool × Text :=
  match t with
  | '-' :: rest => (true, rest)
  | t => (false, t)

theorem minus_of_ne {t : Text} (h : ∀ u, t ≠ '-' :: u) : minus t = (false, t) := by
  rw [minus]
  exact h

theorem minus_cases (t : Text) :
    (∃ u, t = '-' :: u ∧ minus t = (true, u)) ∨ (∀ u, t ≠ '-' :: u) ∧ minus t = (false, t) := by
  by_cases h : ∃ u, t = '-' :: u
  · obtain ⟨u, rfl⟩ := h
    exact .inl ⟨u, rfl, rfl⟩
  · rw [not_exists] at h
    exact .inr ⟨h, minus_of_ne h⟩

theorem takes_minus (t : Text) : Takes t (minus t).2 := by
  rcases minus_cases t with ⟨u, rfl, h⟩ | ⟨-, h⟩
  · rw [h]
    exact .cons (by decide) u
  · rw [h]
    exact .refl t

theorem minus_append_cons {c : Char} (hc : c ≠ '-') (t w : Text) :
    minus (t ++ c :: w) = ((minus t).1, (minus t).2 ++ c :: w) := by
  rcases minus_cases t with ⟨u, rfl, h⟩ | ⟨hno, h⟩
  · rfl
  · rw [h, minus_of_ne]
    intro u hu
    cases t with
    | nil => exact hc (List.cons.inj hu).1
    | cons a t => exact hno t (by rw [(List.cons.inj hu).1])

/-! ## Texts before a character -/

theorem head_of_dropWhile {p : Char → Bool} {c : Char} {u v : Text}
    (h : v.dropWhile p = c :: u) : p c = false := by
  have := List.head?_dropWhile_not p v
  rw [h] at this
  simpa using this

/-- A row of characters of one kind ends where another kind follows. -/
theorem span_append {p : Char → Bool} {w rest : Text} (hw : ∀ c ∈ w, p c = true)
    (hr : ∀ c u, rest = c :: u → p c = false) :
    (w ++ rest).takeWhile p = w ∧ (w ++ rest).dropWhile p = rest := by
  rw [List.takeWhile_append_of_pos hw, List.dropWhile_append_of_pos hw]
  cases rest with
  | nil => exact ⟨List.append_nil w, rfl⟩
  | cons c u =>
    have := hr c u rfl
    rw [List.takeWhile_cons_of_neg (by simp [this]), List.dropWhile_cons_of_neg (by simp [this])]
    exact ⟨List.append_nil w, rfl⟩

section

variable {p : Char → Bool} {c : Char}

theorem takeWhile_append_cons (hp : p c = false) (t w : Text) :
    (t ++ c :: w).takeWhile p = t.takeWhile p := by
  induction t with
  | nil => rw [List.nil_append, List.takeWhile_cons_of_neg (by simp [hp])]; rfl
  | cons a t ih =>
    rw [List.cons_append]
    by_cases ha : p a
    · rw [List.takeWhile_cons_of_pos ha, List.takeWhile_cons_of_pos ha, ih]
    · rw [List.takeWhile_cons_of_neg ha, List.takeWhile_cons_of_neg ha]

theorem dropWhile_append_cons (hp : p c = false) (t w : Text) :
    (t ++ c :: w).dropWhile p = t.dropWhile p ++ c :: w := by
  induction t with
  | nil => rw [List.nil_append, List.dropWhile_cons_of_neg (by simp [hp])]; rfl
  | cons a t ih =>
    rw [List.cons_append]
    by_cases ha : p a
    · rw [List.dropWhile_cons_of_pos ha, List.dropWhile_cons_of_pos ha, ih]
    · rw [List.dropWhile_cons_of_neg ha, List.dropWhile_cons_of_neg ha, List.cons_append]

theorem isPrefixOf_append_cons {s : Text} (hs : c ∉ s) (t w : Text) :
    s.isPrefixOf (t ++ c :: w) = s.isPrefixOf t := by
  induction s generalizing t with
  | nil => simp
  | cons a s ih =>
    rw [List.mem_cons, not_or] at hs
    cases t with
    | nil => simp [List.isPrefixOf, Ne.symm hs.1]
    | cons b t =>
      rw [List.cons_append, List.isPrefixOf_cons_cons, List.isPrefixOf_cons_cons, ih hs.2]

theorem after?_append_cons {s : Text} (hs : c ∉ s) (t w : Text) :
    after? s (t ++ c :: w) = (after? s t).map (· ++ c :: w) := by
  induction s generalizing t with
  | nil => rfl
  | cons a s ih =>
    rw [List.mem_cons, not_or] at hs
    cases t with
    | nil =>
      change (if a = c then after? s w else none) = none
      rw [if_neg (Ne.symm hs.1)]
    | cons b t =>
      rw [List.cons_append, after?, after?]
      split_ifs
      · exact ih hs.2 t
      · rfl

theorem eq_append_of_after? {s t r : Text} (h : after? s t = some r) : t = s ++ r := by
  induction s generalizing t with
  | nil => exact Option.some.inj h
  | cons a s ih =>
    cases t with
    | nil => cases h
    | cons b t =>
      rw [after?] at h
      split_ifs at h with hab
      rw [hab, ih h, List.cons_append]

end

end Text

/-- Symbols of expressions are no digits of a system. -/
theorem NumeralSystem.isDigit_of_reserved (s : NumeralSystem) {c : Char}
    (h : c ∈ NumeralSystem.reservedChars) : s.isDigit c = false := by
  rw [NumeralSystem.isDigit, ← Bool.not_eq_true, List.contains_iff_mem]
  intro hm
  refine s.unreserved _ hm ?_
  exact (forall_of_all (by decide) : ∀ c ∈ NumeralSystem.reservedChars,
    String.singleton c ∈ NumeralSystem.reserved) c h

namespace Dialect

variable (d : Dialect)

/-- Symbols of expressions are no digits. -/
theorem isDigit_of_reserved {c : Char} (h : c ∈ NumeralSystem.reservedChars) :
    d.isDigit c = false := by
  rw [isDigit]
  split
  · exact NumeralSystem.isDigit_of_reserved _ h
  · exact forall_of_all (P := fun c => isPlainDigit c = false) (by decide) c h

theorem marker_eq : d.marker = ['E'] ∨ d.marker = ['_', '^'] := by
  rw [marker]
  split
  · rw [NumeralSystem.expMarker]
    split_ifs
    · exact .inr rfl
    · exact .inl rfl
  · exact .inl rfl

variable {d} in
theorem marker_of_none (hs : d.system = none) : d.marker = ['E'] := by rw [marker, hs]

theorem not_mem_marker {c : Char} (h : c ≠ 'E') (h' : c ≠ '_') (h'' : c ≠ '^') :
    c ∉ d.marker := by
  rcases d.marker_eq with hm | hm <;> rw [hm] <;> simp [h, h', h'']

theorem marker_ne_nil : d.marker ≠ [] := by
  rcases d.marker_eq with hm | hm <;> rw [hm] <;> exact List.cons_ne_nil _ _

end Dialect

end RatCalc

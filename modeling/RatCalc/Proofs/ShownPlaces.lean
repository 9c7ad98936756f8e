import RatCalc.Proofs.ShownDecimal
import RatCalc.Proofs.Truncation

/-!
# How many digits are shown

The limit of a format bounds the digits after the point of every decimal that does not end. A
decimal that ends is shown with all of its digits.

* `printedPlaces`: the digits that are printed after the point.
* `shownDecimal`: the decimal of a number or of an endpoint, without the ending of one that ends.
* `shownDecimal_of_terminates`, `shownDecimal_of_not_terminates`, `printedPlaces_of_not_terminates`:
  what is shown of the two kinds of decimals.
* **`limit_respected_iff`**: the decimals for which the limit is respected.
-/

namespace RatCalc.Display

open Expansion Ratio RunLength Text

/-! ## The digits after the point -/

/-- How many digits are printed after the point, those of the counts in groups included. -/
def printedPlaces (t : Text) : Nat := (t.dropWhile (· != '.')).countP isPlainDigit

theorem printedPlaces_dots (t : Text) : printedPlaces (t ++ dots) = printedPlaces t := by
  have hdrop : (t ++ dots).dropWhile (· != '.') = t.dropWhile (· != '.') ++ dots :=
    dropWhile_append_cons rfl t ['.', '.']
  rw [printedPlaces, hdrop, List.countP_append, show dots.countP isPlainDigit = 0 from rfl,
    Nat.add_zero, printedPlaces]

theorem printedPlaces_withPoint {w : Text} (hw : '.' ∉ w) (x : Text) :
    printedPlaces (withPoint w x) = x.countP isPlainDigit := by
  have hno : ∀ c ∈ w, (c != '.') = true := fun c hc => by simpa using fun h : c = '.' => hw (h ▸ hc)
  rw [printedPlaces, withPoint, List.dropWhile_append_of_pos hno]
  cases x with
  | nil => rfl
  | cons c x =>
    rw [List.isEmpty_cons, if_neg (by decide), List.dropWhile_cons_of_neg (by decide),
      List.countP_cons_of_neg (by decide)]

/-- The point and the digits after it are among the characters besides the mark of the period. -/
theorem printedPlaces_le (t : Text) : printedPlaces t ≤ t.countP (· != '#') - 1 := by
  rw [printedPlaces]
  rcases hd : t.dropWhile (· != '.') with _ | ⟨c, u⟩
  · exact Nat.zero_le _
  · have hc : c = '.' := by
      have h := List.head?_dropWhile_not (· != '.') t
      rw [hd] at h
      simpa using h
    have hsub : (c :: u).countP (· != '#') ≤ t.countP (· != '#') :=
      hd ▸ (List.dropWhile_sublist _).countP_le
    have hdigits : u.countP isPlainDigit ≤ u.countP (· != '#') :=
      List.countP_mono_left fun c _ hc => by simpa using ne_of_plain hc (by decide)
    rw [hc, List.countP_cons_of_pos (by decide)] at hsub
    rw [hc, List.countP_cons_of_neg (by decide)]
    omega

variable {u x : Text} {limit : Int}

theorem printedPlaces_le_of_length (hlimit : 0 ≤ limit) (h : u.length ≤ limit + 1) :
    printedPlaces u ≤ limit := by
  have hp := printedPlaces_le u
  have hl := List.countP_le_length (p := (· != '#')) (l := u)
  omega

theorem printedPlaces_period_le (hlimit : 0 ≤ limit) (h : u.length + x.length ≤ limit + 1) :
    printedPlaces (u ++ '#' :: x) ≤ limit := by
  have hp := printedPlaces_le (u ++ '#' :: x)
  rw [List.countP_append, List.countP_cons_of_neg (by decide)] at hp
  have hu := List.countP_le_length (p := (· != '#')) (l := u)
  have hx := List.countP_le_length (p := (· != '#')) (l := x)
  omega

/-! ## The decimals that are shown -/

/-- The decimal that is shown of a number or of an endpoint, without the ending of one that ends. -/
def shownDecimal (f : Format) (a : Rat) : Text := cutEndpoint f (expansion f a).1

variable {f : Format} {a : Rat}

/-- A number is shown as an endpoint is, with the ending of a decimal that ends. -/
theorem decimal_eq_shownDecimal (f : Format) (a : Rat) :
    decimal f a =
      shownDecimal f a ++ if isTerminating (expansion f a).1 then ['#', '0'] else [] := by
  rw [decimal, shownDecimal, cut, cutEndpoint]
  split_ifs with h
  · obtain ⟨u, hu⟩ := List.isSuffixOf_iff_suffix.1 h
    rw [← hu, List.length_append, List.length_cons, List.length_singleton, Nat.add_sub_cancel,
      List.take_left]
  · exact (List.append_nil _).symm

/-- **A decimal that ends is shown with all of its digits**, whatever the limit is. -/
theorem shownDecimal_of_terminates (f : Format) (ht : Terminates a) :
    shownDecimal f a = withPoint (head a) (grouped true 4 (digits a (preperiod a.den))) := by
  have hd := decimal_of_terminates f ht
  rw [decimal_eq_shownDecimal, expansion] at hd
  by_cases h1 : a.den = 1
  · have hno : ¬ isTerminating (head a) = true := fun h =>
      no_period_head a ((List.isSuffixOf_iff_suffix.1 h).subset List.mem_cons_self)
    rw [repeating_of_den_one h1, if_neg hno, List.append_nil] at hd
    rw [hd, h1, preperiod_one]
    exact (List.append_nil _).symm
  · have hne : grouped true 4 (digits a (preperiod a.den)) ≠ [] :=
      grouped_ne_nil true (all_digits a _) (digits_preperiod_ne_nil (preperiod_ne_zero ht h1))
    have hw : (repeatingDecimal a true f.periodLimit (some f.maxPeriodDigits)).1 =
        head a ++ '.' :: grouped true 4 (digits a (preperiod a.den)) ++ ['#', '0'] := by
      rw [repeating_of_terminates ht h1, written, List.append_assoc, List.cons_append]
      rfl
    rw [hw, if_pos ((isTerminating_append_iff (by decide)).2 rfl)] at hd
    rw [List.append_cancel_right hd, withPoint, if_neg (by simpa using hne)]

theorem shownDecimal_eq_decimal (f : Format) (ht : ¬ Terminates a) :
    shownDecimal f a = decimal f a := by
  rw [decimal_eq_shownDecimal, isTerminating_expansion f ht]
  exact (List.append_nil _).symm

/-- A decimal that does not end is shown in full, or what stands before the dots is its start. -/
theorem shownDecimal_of_not_terminates (hlimit : 0 ≤ f.limit) (ht : ¬ Terminates a) :
    (¬ Shortened a f.periodLimit (some f.maxPeriodDigits) ∧
        shownDecimal f a = (expansion f a).1) ∨
      ∃ core, shownDecimal f a = core ++ dots ∧ core <+: (expansion f a).1 := by
  rw [shownDecimal_eq_decimal f ht]
  obtain ⟨k, mark, htext, ⟨hs, -, -, hd⟩ | ⟨-, hd⟩ | ⟨x, hx, -, hd⟩⟩ := shown_cases hlimit ht
  · exact .inl ⟨hs, hd⟩
  · refine .inr ⟨_, hd, htext ▸ ?_⟩
    exact (List.take_prefix _ _).trans (List.prefix_append _ _)
  · refine .inr ⟨_, hd, htext ▸ ?_⟩
    rw [List.prefix_append_right_inj, List.cons_prefix_cons]
    exact ⟨rfl, hx.trans (List.prefix_append _ _)⟩

/-- **The limit bounds the digits** of a decimal that does not end. -/
theorem printedPlaces_of_not_terminates (hlimit : 0 ≤ f.limit) (ht : ¬ Terminates a) :
    printedPlaces (shownDecimal f a) ≤ f.limit := by
  rw [shownDecimal_eq_decimal f ht]
  obtain ⟨k, mark, htext, ⟨-, rfl, hl, hd⟩ | ⟨-, hd⟩ | ⟨x, -, hl, hd⟩⟩ := shown_cases hlimit ht
  · rw [hd, htext, List.append_nil]
    exact printedPlaces_period_le hlimit hl
  · rw [hd, printedPlaces_dots]
    refine printedPlaces_le_of_length hlimit ?_
    rw [List.length_take]
    omega
  · rw [hd, printedPlaces_dots]
    exact printedPlaces_period_le hlimit hl

/-- **The decimals for which the limit is respected.** They are those that do not end, of which no
more digits are printed after the point and which are marked with dots where something is left out,
and those that end, if they are short enough as they are: none of their digits is left out. -/
theorem limit_respected_iff (f : Format) (hlimit : 0 ≤ f.limit) :
    (∀ a, number { f with mode := .decimal } (.rational a) =
      shownDecimal f a ++ (if isTerminating (expansion f a).1 then ['#', '0'] else []) ++
        periodSuffix (expansion f a).2) ∧
    (∀ i, number { f with mode := .decimal } (.interval i) =
      joinEndpoints (shownDecimal f i.low, (expansion f i.low).2)
        (shownDecimal f i.high, (expansion f i.high).2)) ∧
    ∀ a,
      (Terminates a → shownDecimal f a =
        withPoint (head a) (grouped true 4 (digits a (preperiod a.den)))) ∧
      (¬ Terminates a →
        (¬ Shortened a f.periodLimit (some f.maxPeriodDigits) ∧
          shownDecimal f a = (expansion f a).1) ∨
        ∃ core, shownDecimal f a = core ++ dots ∧ core <+: (expansion f a).1) ∧
      (printedPlaces (shownDecimal f a) ≤ f.limit ↔ (Terminates a →
        (grouped true 4 (digits a (preperiod a.den))).countP isPlainDigit ≤ f.limit)) := by
  refine ⟨fun a => ?_, fun i => rfl, fun a => ⟨shownDecimal_of_terminates f,
    shownDecimal_of_not_terminates hlimit, ?_⟩⟩
  · rw [← decimal_eq_shownDecimal]
    rfl
  · by_cases ht : Terminates a
    · rw [shownDecimal_of_terminates f ht, printedPlaces_withPoint (no_point_head a),
        imp_iff_right ht]
    · exact iff_of_true (printedPlaces_of_not_terminates hlimit ht) fun h => absurd h ht

/-- All three digits of `1/8` are shown where the limit is one. Of `1/7` fewer are, with dots. -/
theorem one_eighth_and_one_seventh :
    (number ⟨.decimal, 1, 20, 100⟩ (.rational (mkRat 1 8)) = "0.125#0".toList ∧
      ¬ (printedPlaces (shownDecimal ⟨.decimal, 1, 20, 100⟩ (mkRat 1 8)) : Int) ≤ 1) ∧
    (shownDecimal ⟨.decimal, 5, 20, 100⟩ (mkRat 1 7) = "0.#1428".toList ++ dots ∧
      (printedPlaces (shownDecimal ⟨.decimal, 5, 20, 100⟩ (mkRat 1 7)) : Int) ≤ 5) := by
  have hends : Terminates (mkRat 1 8) := HasPlaces.terminates (k := 3) (by decide)
  have hgoes : ¬ Terminates (mkRat 1 7) := by
    rw [terminates_iff]
    with_unfolding_all decide
  obtain ⟨hnumber, -, hshown⟩ := limit_respected_iff ⟨.decimal, 1, 20, 100⟩ (by decide)
  obtain ⟨-, -, hseventh⟩ := limit_respected_iff ⟨.decimal, 5, 20, 100⟩ (by decide)
  refine ⟨⟨(hnumber _).trans (by with_unfolding_all decide), fun h => ?_⟩,
    by with_unfolding_all decide, (hseventh _).2.2.2 fun h => absurd h hgoes⟩
  exact absurd ((hshown _).2.2.1 h hends) (by with_unfolding_all decide)

end RatCalc.Display

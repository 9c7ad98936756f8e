import RatCalc.Proofs.Enclosed

/-!
# Literals before a closing parenthesis or a colon

* `fixedPart?_close`, `repeating?_close`, `pointed?_close`: decimals; `local_pointedIn`: decimals of
  other systems.
* `Progressive`: a reader that is `Local` and takes something; `progressive_fraction`: integers,
  fractions and mixed numbers.
* **`progressive_endpoint`**: single numbers with their signs.
-/

namespace RatCalc

open Text

namespace Dialect

variable (d : Dialect) {z : Char} (hz : z ∈ closers)

/-! ## Decimals -/

include hz in
theorem fixedPart?_close (t w : Text) :
    fixedPart? (t ++ z :: w) = behind (z :: w) (fixedPart? t) := by
  rw [fixedPart?.eq_def, fixedPart?.eq_def, takeWhile_append_cons (isDecimal_close hz),
    dropWhile_append_cons (isDecimal_close hz)]
  generalize t.takeWhile isDecimal = a
  generalize t.dropWhile isDecimal = v
  have hr : ∀ v, digitRuns 0 (v ++ z :: w) = _ := fun v => digitRuns_close hz (Nat.zero_le _) w
  have hpoint : z ≠ '.' := (ne_of_closer hz (by decide)).symm
  rcases a with _ | ⟨a, as⟩
  · rcases v with _ | ⟨c, v⟩
    · simp [hpoint, behind]
    · by_cases h : c = '.'
      · subst h
        simp only [List.cons_append, hr]
        split_ifs <;> rfl
      · simp [h, behind]
  · rcases v with _ | ⟨c, v⟩
    · have := hr []
      simp only [List.nil_append] at this ⊢
      simp [hpoint, this, behind]
    · by_cases h : c = '.'
      · subst h
        simp only [List.cons_append, hr]
        rfl
      · have := hr (c :: v)
        simp only [List.cons_append] at this ⊢
        simp [h, this, behind]

/-- What follows the part before a period: after the point, or after digits without one. -/
theorem fixedPart?_cases {t x r : Text} (h : fixedPart? t = some (x, r)) :
    (∃ u, t.dropWhile isDecimal = '.' :: u ∧ r = (digitRuns 0 u).2) ∨
      t.takeWhile isDecimal ≠ [] ∧ (∀ u, t.dropWhile isDecimal ≠ '.' :: u) ∧
        r = (digitRuns 0 (t.dropWhile isDecimal)).2 := by
  rw [fixedPart?.eq_def] at h
  split at h
  · rename_i u _ hu
    split_ifs at h
    exact .inl ⟨u, hu, (Prod.mk.inj (Option.some.inj h)).2.symm⟩
  · cases h
  · rename_i u hu _
    exact .inl ⟨u, hu, (Prod.mk.inj (Option.some.inj h)).2.symm⟩
  · rename_i hne hno _
    exact .inr ⟨hne, fun u hu => hno u hu, (Prod.mk.inj (Option.some.inj h)).2.symm⟩

theorem consumes_fixedPart? {t x r : Text} (h : fixedPart? t = some (x, r)) : Consumes t r := by
  have hrow : ∀ v, Takes v (digitRuns 0 v).2 := fun v => takes_digitRuns (by simp)
  have hdrop : Takes t (t.dropWhile isDecimal) := .dropWhile isDecimal_bracket t
  rcases fixedPart?_cases h with ⟨u, hu, rfl⟩ | ⟨hne, -, rfl⟩
  · rw [hu] at hdrop
    exact hdrop.trans_consumes ((Consumes.cons (by decide) u).trans_takes (hrow u))
  · exact (Consumes.dropWhile isDecimal_bracket hne).trans_takes (hrow _)

include hz in
theorem repeating?_close (t w : Text) :
    repeating? (t ++ z :: w) = behind (z :: w) (repeating? t) := by
  rw [repeating?, repeating?, fixedPart?_close hz]
  cases fixedPart? t with
  | none => rfl
  | some x =>
    obtain ⟨x, v⟩ := x
    rcases v with _ | ⟨c, v⟩
    · have hne : z ≠ '#' := (ne_of_closer hz (by decide)).symm
      simp [hne, behind]
    · by_cases h : c = '#'
      · subst h
        simp only [behind, Option.map_some, List.cons_append, digitRuns_close hz (Nat.zero_le _) w]
      · simp [h, behind]

theorem consumes_repeating? {t x r : Text} (h : repeating? t = some (x, r)) : Consumes t r := by
  rw [repeating?] at h
  split at h
  · rename_i u hf
    cases h
    exact (consumes_fixedPart? hf).trans_takes
      ((Takes.cons (by decide) u).trans (takes_digitRuns (by simp)))
  · cases h

include hz in
theorem pointed?_close (t w : Text) : pointed? (t ++ z :: w) = behind (z :: w) (pointed? t) := by
  rw [pointed?, pointed?, takeWhile_append_cons (isDecimal_close hz),
    dropWhile_append_cons (isDecimal_close hz)]
  rcases t.dropWhile isDecimal with _ | ⟨c, v⟩
  · have hne : z ≠ '.' := (ne_of_closer hz (by decide)).symm
    simp [hne, behind]
  · by_cases h : c = '.'
    · subst h
      simp only [List.cons_append, takeWhile_append_cons (isDecimal_close hz),
        dropWhile_append_cons (isDecimal_close hz)]
      split_ifs <;> rfl
    · simp [h, behind]

theorem consumes_pointed? {t x r : Text} (h : pointed? t = some (x, r)) : Consumes t r := by
  have hdrop : Takes t (t.dropWhile isDecimal) := .dropWhile isDecimal_bracket t
  rw [pointed?] at h
  split at h
  · rename_i u hu
    simp only at h
    split_ifs at h
    cases h
    rw [hu] at hdrop
    exact hdrop.trans_consumes
      ((Consumes.cons (by decide) u).trans_takes (.dropWhile isDecimal_bracket u))
  · cases h

/-! ## Integers after a letter -/

include hz in
theorem lettered?_close (t w : Text) :
    d.lettered? (t ++ z :: w) = behind (z :: w) (d.lettered? t) := by
  rw [lettered?.eq_def, lettered?.eq_def]
  cases d.system with
  | some s => rfl
  | none =>
    rcases t with _ | ⟨a, _ | ⟨c, u⟩⟩
    · have hne : z ≠ '0' := (ne_of_closer hz (by decide)).symm
      simp [hne, behind]
    · by_cases h : a = '0'
      · subst h
        have hletter : LetterTable.isLetter z = false :=
          forall_of_all (P := fun z => LetterTable.isLetter z = false) (by decide) z hz
        simp [hletter, behind]
      · simp [h, behind]
    · by_cases h : a = '0'
      · subst h
        simp only [List.cons_append]
        split_ifs
        · cases d.letters.system? [c] with
          | none => rfl
          | some s =>
            have hc : s.isDigit z = false := s.isDigit_of_reserved
              (forall_of_all (P := (· ∈ NumeralSystem.reservedChars)) (by decide) z hz)
            simp only [Option.bind_some, takeWhile_append_cons hc, dropWhile_append_cons hc]
            cases s.natValue (u.takeWhile s.isDigit) with
            | error f => rfl
            | ok n =>
              simp only
              split_ifs <;> rfl
        · rfl
      · simp [h, behind]

theorem consumes_lettered? {t r : Text} {a : Rat} (h : d.lettered? t = some (a, r)) :
    Consumes t r := by
  rw [lettered?.eq_def] at h
  split at h
  · rename_i c u _
    split_ifs at h with hc
    obtain ⟨s, -, h⟩ := Option.bind_eq_some_iff.1 h
    simp only at h
    split at h
    · split_ifs at h
      cases h
      have hl : c ≠ '[' := by
        rintro rfl
        exact absurd hc (by decide)
      exact (Consumes.cons (by decide) _).trans_takes ((Takes.cons hl u).trans
        (.dropWhile (s.isDigit_of_reserved (by decide)) u))
    · cases h
  · cases h

/-! ## Decimals of other systems -/

/-- The digits of a period after `#`, if it follows. -/
def periodIn (t : Text) : Except Failure (Option Text × Text) :=
  match t with
  | '#' :: rest => do
    let (period, rest) ← d.digits rest
    if period.isEmpty then
      .error (.literal (.repeatingDecimal (LiteralFault.message .repeatDigits)))
    else pure (some period, rest)
  | rest => pure (none, rest)

include hz in
theorem local_periodIn : Local z d.periodIn := by
  intro t x r h
  rw [periodIn.eq_def] at h
  split at h
  · rename_i u
    obtain ⟨⟨period, rest⟩, hp, h⟩ := bind_eq_ok.1 h
    obtain ⟨ht, hc⟩ := d.local_digits hz hp
    simp only at h
    split_ifs at h with hne
    cases h
    refine ⟨(Takes.cons (by decide) u).trans ht, fun w => ?_⟩
    rw [List.cons_append, periodIn, bind_of_ok (hc w)]
    simp only
    rw [if_neg hne]
    rfl
  · rename_i hno
    cases h
    refine ⟨.refl _, fun w => ?_⟩
    rw [periodIn]
    · rfl
    · exact append_ne_cons (ne_of_closer hz (by decide)) hno w

/-- The value of a decimal by its digits, if there are any. -/
def pointedValue (s : NumeralSystem) (whole fraction : Text) (period : Option Text) :
    Except Failure Rat :=
  if whole.isEmpty && fraction.isEmpty then .error (.literal .decimalFormat)
  else do
    let ab ← s.natValue (whole ++ fraction)
    match period with
    | none => Ratio.ofInts ab (Nat.pow s.base fraction.length : Nat)
    | some period => do
      let abc ← s.natValue (whole ++ fraction ++ period)
      Literal.repeatingFraction ab abc fraction.length period.length s.base

theorem pointedIn_point {s : NumeralSystem} {t whole rest : Text}
    (hw : d.digits t = .ok (whole, '.' :: rest)) (h₁ : ∀ u, rest ≠ '.' :: u)
    (h₂ : ∀ u, rest ≠ '~' :: u) :
    d.pointedIn s t = (do
      let (fraction, rest) ← d.digits rest
      let (period, rest) ← d.periodIn rest
      let a ← pointedValue s whole fraction period
      return some (a, rest)) := by
  rw [pointedIn, bind_of_ok hw]
  simp only
  refine congrArg _ (funext fun x => ?_)
  obtain ⟨fraction, u⟩ := x
  simp only
  rw [periodIn.eq_def]
  split
  · simp only [bind_assoc]
    refine congrArg _ (funext fun x => ?_)
    by_cases hx : x.1.isEmpty
    · rw [if_pos hx, if_pos hx]
      rfl
    · simp only [if_neg hx, pure_bind, pointedValue]
      split_ifs
      · rfl
      · simp only [bind_assoc]
  · simp only [pure_bind, pointedValue]
    split_ifs
    · rfl
    · simp only [bind_assoc]

include hz in
theorem local_pointedIn {s : NumeralSystem} {t : Text} {x : Option (Rat × Text)}
    (h : d.pointedIn s t = .ok x) :
    (∀ a r, x = some (a, r) → Consumes t r) ∧
      ∀ w, d.pointedIn s (t ++ z :: w) = .ok (behind (z :: w) x) := by
  have h' := h
  rw [pointedIn] at h
  obtain ⟨⟨whole, rest⟩, hw, h⟩ := bind_eq_ok.1 h
  obtain ⟨hwt, hwc⟩ := d.local_digits hz hw
  simp only at h
  split at h
  · cases h
    refine ⟨fun _ _ hx => (nomatch hx), fun w => ?_⟩
    rw [pointedIn, bind_of_ok (hwc w)]
    rfl
  · cases h
    refine ⟨fun _ _ hx => (nomatch hx), fun w => ?_⟩
    rw [pointedIn, bind_of_ok (hwc w)]
    rfl
  · rename_i rest h₁ h₂
    rw [d.pointedIn_point hw h₁ h₂] at h'
    obtain ⟨⟨fraction, u⟩, hf, h'⟩ := bind_eq_ok.1 h'
    obtain ⟨⟨period, v⟩, hp, h'⟩ := bind_eq_ok.1 h'
    obtain ⟨a, ha, h'⟩ := bind_eq_ok.1 h'
    cases h'
    obtain ⟨hft, hfc⟩ := d.local_digits hz hf
    obtain ⟨hpt, hpc⟩ := d.local_periodIn hz hp
    refine ⟨fun _ _ hx => ?_, fun w => ?_⟩
    · cases hx
      exact hwt.trans_consumes ((Consumes.cons (by decide) rest).trans_takes (hft.trans hpt))
    · have hwc' : d.digits (t ++ z :: w) = .ok (whole, '.' :: (rest ++ z :: w)) := hwc w
      rw [d.pointedIn_point hwc', bind_of_ok (hfc w)]
      · simp only
        rw [bind_of_ok (hpc w)]
        simp only
        rw [bind_of_ok ha]
        rfl
      · exact append_ne_cons (ne_of_closer hz (by decide)) h₁ w
      · exact append_ne_cons (ne_of_closer hz (by decide)) h₂ w
  · rename_i h₁ h₂ h₃
    cases h
    refine ⟨fun _ _ hx => (nomatch hx), fun w => ?_⟩
    rw [pointedIn, bind_of_ok (hwc w)]
    simp only
    split
    · rfl
    · rfl
    · rename_i heq
      exact absurd heq (append_ne_cons (ne_of_closer hz (by decide)) h₃ w _)
    · rfl

/-! ## Fractions -/

include hz in
theorem local_denominator (mixed : Bool) : Local z (d.denominator mixed) := by
  intro t n r h
  rw [denominator] at h
  obtain ⟨⟨ds, rest⟩, hd, h⟩ := bind_eq_ok.1 h
  obtain ⟨ht, hc⟩ := d.local_digits hz hd
  simp only at h
  split_ifs at h with hne hm
  obtain ⟨k, hk, h⟩ := bind_eq_ok.1 h
  split_ifs at h with h0
  cases h
  refine ⟨ht, fun w => ?_⟩
  rw [denominator, bind_of_ok (hc w)]
  simp only
  rw [if_neg hne, isPrefixOf_append_cons (d.close_not_mem_marker hz), if_neg hm, bind_of_ok hk,
    if_neg h0]
  rfl

include hz in
theorem slash?_close (t w : Text) : slash? (t ++ z :: w) = (slash? t).map (· ++ z :: w) := by
  rcases t with _ | ⟨c, _ | ⟨c', t⟩⟩
  · have hne : z ≠ '/' := (ne_of_closer hz (by decide)).symm
    simp [slash?, hne]
  · by_cases h : c = '/'
    · subst h
      have hmark : z ≠ divisionMark := (ne_of_closer hz (by decide)).symm
      rw [List.cons_append, List.nil_append, slash?]
      · rw [if_neg hmark]
        rfl
      · exact (ne_of_closer hz (by decide)).symm
    · simp [slash?, h]
  · by_cases h : c = '/'
    · subst h
      by_cases h' : c' = '('
      · subst h'
        rfl
      · simp only [List.cons_append, slash?]
        split_ifs <;> rfl
    · simp [slash?, h]

theorem takes_slash? {t r : Text} (h : slash? t = some r) : Takes t r := by
  rw [slash?.eq_def] at h
  split at h
  · cases h
  · split_ifs at h
    cases h
    exact .cons (by decide) _
  · cases h
    exact .cons (by decide) _
  · cases h

theorem slash?_of_ne {t : Text} (h : ∀ u, t ≠ '/' :: u) : slash? t = none := by
  rw [slash?.eq_def]
  split
  · rfl
  · exact absurd rfl (h _)
  · exact absurd rfl (h _)
  · rfl

/-- A mixed number behind its whole part and the dots. -/
def mixedFrom (whole : Nat) (t : Text) : Except Failure (Endpoint × Text) := do
  let (ds, rest) ← d.digits t
  if ds.isEmpty then .error (.literal .mixedNumerator)
  else
    let n ← d.value ds
    match slash? rest with
    | none => .error (.literal .mixedDenominator)
    | some rest =>
      let (den, rest) ← d.denominator true rest
      return (⟨mkRat (whole * den + n) den, false⟩, rest)

/-- An integer or a fraction behind its numerator. -/
def quotientFrom (whole : Nat) (t : Text) : Except Failure (Endpoint × Text) :=
  match slash? t with
  | none => return (⟨whole, false⟩, t)
  | some rest => do
    let (den, rest) ← d.denominator false rest
    return (⟨mkRat whole den, den == 1⟩, rest)

theorem fraction_eq (t : Text) :
    d.fraction t = (do
      let (ds, rest) ← d.digits t
      if ds.isEmpty then
        .error (.literal (.unexpectedToken (String.ofList (d.display (t.take 1)))))
      else
        let whole ← d.value ds
        match rest with
        | '.' :: '.' :: rest => d.mixedFrom whole rest
        | rest => d.quotientFrom whole rest) := rfl

include hz in
theorem local_mixedFrom (whole : Nat) : Local z (d.mixedFrom whole) := by
  intro t e r h
  rw [mixedFrom] at h
  obtain ⟨⟨ds, u⟩, hd, h⟩ := bind_eq_ok.1 h
  obtain ⟨ht, hc⟩ := d.local_digits hz hd
  simp only at h
  split_ifs at h with hne
  obtain ⟨n, hn, h⟩ := bind_eq_ok.1 h
  cases hs : slash? u with
  | none =>
    rw [hs] at h
    cases h
  | some v =>
    rw [hs] at h
    obtain ⟨⟨den, v'⟩, hden, h⟩ := bind_eq_ok.1 h
    obtain ⟨hdt, hdc⟩ := d.local_denominator hz true hden
    cases h
    refine ⟨ht.trans ((takes_slash? hs).trans hdt), fun w => ?_⟩
    rw [mixedFrom, bind_of_ok (hc w)]
    simp only
    rw [if_neg hne, bind_of_ok hn, slash?_close hz, hs]
    simp only [Option.map_some]
    rw [bind_of_ok (hdc w)]
    rfl

include hz in
theorem local_quotientFrom (whole : Nat) : Local z (d.quotientFrom whole) := by
  intro t e r h
  rw [quotientFrom] at h
  cases hs : slash? t with
  | none =>
    rw [hs] at h
    cases h
    refine ⟨.refl _, fun w => ?_⟩
    rw [quotientFrom, slash?_close hz, hs]
    rfl
  | some v =>
    rw [hs] at h
    obtain ⟨⟨den, v'⟩, hden, h⟩ := bind_eq_ok.1 h
    obtain ⟨hdt, hdc⟩ := d.local_denominator hz false hden
    cases h
    refine ⟨(takes_slash? hs).trans hdt, fun w => ?_⟩
    rw [quotientFrom, slash?_close hz, hs]
    simp only [Option.map_some]
    rw [bind_of_ok (hdc w)]
    rfl

/-- A reader takes something of each text, but no bracket, and a character behind the text is left
to what follows. -/
def Progressive {α : Type} (z : Char) (f : Text → Except Failure (α × Text)) : Prop :=
  ∀ ⦃t a r⦄, f t = .ok (a, r) → Consumes t r ∧ ∀ w, f (t ++ z :: w) = .ok (a, r ++ z :: w)

theorem consumes_digits {t ds r : Text} (h : d.digits t = .ok (ds, r)) (hne : ds ≠ []) :
    Consumes t r := by
  have hds := d.digits_eq t h
  rw [Prod.mk.injEq] at hds
  rw [hds.2]
  exact .dropWhile d.isDigit_bracket (hds.1 ▸ hne)

include hz in
theorem progressive_fraction : Progressive z d.fraction := by
  intro t e r h
  rw [fraction_eq] at h
  obtain ⟨⟨ds, rest⟩, hd, h⟩ := bind_eq_ok.1 h
  obtain ⟨-, hdc⟩ := d.local_digits hz hd
  simp only at h
  split_ifs at h with hne
  have hdt := d.consumes_digits hd fun h0 => hne (List.isEmpty_iff.2 h0)
  obtain ⟨whole, hw, h⟩ := bind_eq_ok.1 h
  split at h
  · obtain ⟨hmt, hmc⟩ := d.local_mixedFrom hz whole h
    refine ⟨hdt.trans_takes ((Takes.cons (by decide) _).trans
      ((Takes.cons (by decide) _).trans hmt)), fun w => ?_⟩
    rw [fraction_eq, bind_of_ok (hdc w)]
    simp only
    rw [if_neg hne, bind_of_ok hw]
    exact hmc w
  · rename_i hno
    obtain ⟨hqt, hqc⟩ := d.local_quotientFrom hz whole h
    refine ⟨hdt.trans_takes hqt, fun w => ?_⟩
    rw [fraction_eq, bind_of_ok (hdc w)]
    simp only
    rw [if_neg hne, bind_of_ok hw]
    split
    · rename_i heq
      exact absurd heq (append_ne_cons_cons (ne_of_closer hz (by decide))
        (ne_of_closer hz (by decide)) hno w _)
    · exact hqc w

/-! ## Single numbers -/

include hz in
theorem progressive_unsigned : Progressive z d.unsigned := by
  intro t e r h
  have hempty : ∀ w, ¬ (t ++ z :: w).isEmpty = true := fun w => by simp
  rw [unsigned] at h
  split_ifs at h
  split at h
  · rename_i s hs
    obtain ⟨x, hx, h⟩ := bind_eq_ok.1 h
    obtain ⟨ht, hc⟩ := d.local_pointedIn hz hx
    cases x with
    | none =>
      obtain ⟨hft, hfc⟩ := d.progressive_fraction hz h
      refine ⟨hft, fun w => ?_⟩
      rw [unsigned, if_neg (hempty w), hs]
      simp only
      rw [bind_of_ok (hc w)]
      exact hfc w
    | some x =>
      cases h
      refine ⟨ht _ _ rfl, fun w => ?_⟩
      rw [unsigned, if_neg (hempty w), hs]
      simp only
      rw [bind_of_ok (hc w)]
      rfl
  · rename_i hs
    have hgoal : ∀ w, d.unsigned (t ++ z :: w) = _ := fun w => by
      rw [unsigned, if_neg (hempty w), hs]
    simp only [d.lettered?_close hz, repeating?_close hz, pointed?_close hz] at hgoal
    split at h
    · rename_i hl
      cases h
      refine ⟨d.consumes_lettered? hl, fun w => ?_⟩
      rw [hgoal, hl]
      rfl
    · rename_i hl hr
      obtain ⟨a, ha, h⟩ := bind_eq_ok.1 h
      cases h
      refine ⟨consumes_repeating? hr, fun w => ?_⟩
      rw [hgoal, hl, hr]
      simp only [behind, Option.map_none, Option.map_some]
      rw [bind_of_ok ha]
      rfl
    · rename_i hl hr hp
      obtain ⟨a, ha, h⟩ := bind_eq_ok.1 h
      cases h
      refine ⟨consumes_pointed? hp, fun w => ?_⟩
      rw [hgoal, hl, hr, hp]
      simp only [behind, Option.map_none, Option.map_some]
      rw [bind_of_ok ha]
      rfl
    · rename_i hl hr hp
      obtain ⟨hft, hfc⟩ := d.progressive_fraction hz h
      refine ⟨hft, fun w => ?_⟩
      rw [hgoal, hl, hr, hp]
      exact hfc w

/-- A number that is no continued fraction, with an optional minus sign. -/
def signed (t : Text) : Except Failure (Endpoint × Text) :=
  match t with
  | '-' :: rest => do
    let (e, rest) ← d.unsigned rest
    return (⟨-e.value, e.kept⟩, rest)
  | t => d.unsigned t

theorem endpoint_eq (t : Text) :
    d.endpoint t = match d.system, continuedFraction? t with
      | none, some (literal, rest) => do
        return (⟨← Literal.continuedFraction literal, false⟩, rest)
      | _, _ => d.signed t := rfl

theorem endpoint_of_no_fraction {t : Text} (h : d.system = none → continuedFraction? t = none) :
    d.endpoint t = d.signed t := by
  rw [endpoint_eq]
  split
  · rename_i hs hf
    cases (h hs).symm.trans hf
  · rfl

include hz in
theorem progressive_signed : Progressive z d.signed := by
  intro t e r h
  rw [signed.eq_def] at h
  split at h
  · rename_i rest
    obtain ⟨⟨e', u⟩, he, h⟩ := bind_eq_ok.1 h
    obtain ⟨ht, hc⟩ := d.progressive_unsigned hz he
    cases h
    refine ⟨(Takes.cons (by decide) rest).trans_consumes ht, fun w => ?_⟩
    rw [List.cons_append, signed, bind_of_ok (hc w)]
    rfl
  · rename_i hno
    obtain ⟨ht, hc⟩ := d.progressive_unsigned hz h
    refine ⟨ht, fun w => ?_⟩
    rw [signed]
    · exact hc w
    · exact append_ne_cons (ne_of_closer hz (by decide)) hno w

include hz in
theorem progressive_endpoint : Progressive z d.endpoint := by
  intro t e r h
  rw [endpoint_eq] at h
  split at h
  · rename_i literal rest hs hf
    obtain ⟨a, ha, h⟩ := bind_eq_ok.1 h
    cases h
    refine ⟨consumes_continuedFraction? hf, fun w => ?_⟩
    rw [endpoint_eq, hs, continuedFraction?_close hz, hf]
    simp only [behind, Option.map_some]
    rw [bind_of_ok ha]
    rfl
  · rename_i hno
    obtain ⟨ht, hc⟩ := d.progressive_signed hz h
    refine ⟨ht, fun w => ?_⟩
    rw [endpoint_eq, continuedFraction?_close hz]
    split
    · rename_i hs hf
      obtain ⟨⟨literal, u⟩, hf, -⟩ := Option.map_eq_some_iff.1 hf
      exact absurd hf (hno literal u hs)
    · exact hc w

end Dialect

end RatCalc

import RatCalc.Proofs.SpelledLiteral

/-!
# Expressions in the digits of two dialects

* `Agree`: expressions with the same outcome in two dialects; `SameReading`: readings that stop with
  the same outcome, or go on from the same tokens.
* `same_suffixed`, `same_literal`, `same_signedLiteral?`: operands and what follows them.
* `Lockstep`, **`lockstep`**: with fuel enough for a row of tokens the two readers go on alike.
* **`valueOf_write`**: the digits that numbers are written in do not change what an expression is
  worth.
-/

namespace RatCalc

open Text Dialect

namespace Reading

/-! ## Expressions and readings -/

/-- Expressions with the same outcome in two dialects. -/
def Agree (d d' : Dialect) (e e' : Expr) : Prop := e.eval d = e'.eval d'

/-- Two readings that stop with the same outcome, or that go on from the same tokens. -/
inductive SameReading (d d' : Dialect) (ts : List Token) : Reading → Reading → Prop where
  | stop {e e' : Expr} (h : Agree d d' e e') : SameReading d d' ts ⟨e, none⟩ ⟨e', none⟩
  | more {e e' : Expr} {us : List Token} (h : Agree d d' e e') (hs : us <:+ ts) :
      SameReading d d' ts ⟨e, some (d.spell us)⟩ ⟨e', some (d'.spell us)⟩

variable {d d' : Dialect} {ts us : List Token} {a a' b b' e e' : Expr} {x x' : Reading}

namespace Agree

theorem literal (v : Value) : Agree d d' (.literal v) (.literal v) := rfl

theorem fault (f : Failure) : Agree d d' (.fault f) (.fault f) := rfl

/-- Operations on the outcomes of two expressions. -/
theorem bind (h : Agree d d' e e') (f : Value → Except Failure Value) :
    (e.eval d >>= f) = e'.eval d' >>= f :=
  congrArg (· >>= f) h

/-- Operations on the outcomes of two pairs of expressions. -/
theorem bind₂ (ha : Agree d d' a a') (hb : Agree d d' b b')
    (f : Value → Value → Except Failure Value) :
    (do f (← a.eval d) (← b.eval d)) = (do f (← a'.eval d') (← b'.eval d')) :=
  (ha.bind _).trans (bind_congr fun x => hb.bind (f x))

theorem halted (h : Agree d d' e e') (f : Failure) : Agree d d' (.halted e f) (.halted e' f) :=
  h.bind _

theorem add (ha : Agree d d' a a') (hb : Agree d d' b b') : Agree d d' (.add a b) (.add a' b') :=
  ha.bind₂ hb _

theorem sub (ha : Agree d d' a a') (hb : Agree d d' b b') : Agree d d' (.sub a b) (.sub a' b') :=
  ha.bind₂ hb _

theorem mul (ha : Agree d d' a a') (hb : Agree d d' b b') : Agree d d' (.mul a b) (.mul a' b') :=
  ha.bind₂ hb _

theorem div (ha : Agree d d' a a') (hb : Agree d d' b b') : Agree d d' (.div a b) (.div a' b') :=
  ha.bind₂ hb _

theorem factorial (h : Agree d d' e e') (double : Bool) :
    Agree d d' (.factorial double e) (.factorial double e') :=
  h.bind _

theorem pow (h : Agree d d' e e') (k : Int) : Agree d d' (.pow e k) (.pow e' k) :=
  h.bind _

theorem productPow (h : Agree d d' e e') (k : Int) :
    Agree d d' (.productPow e k) (.productPow e' k) :=
  h.bind _

theorem neg (he : d.exact = d'.exact) (h : Agree d d' e e') : Agree d d' (.neg e) (.neg e') := by
  have hneg : d.negate = d'.negate := by
    funext v
    rw [negate, negate, he]
  rw [Agree, Expr.eval, Expr.eval, h, hneg]

theorem simplified (he : d.exact = d'.exact) (h : Agree d d' e e') :
    Agree d d' (.simplified e) (.simplified e') := by
  have hsimplify : d.simplify = d'.simplify := by
    funext v
    rw [simplify, simplify, he]
  rw [Agree, Expr.eval, Expr.eval, h, hsimplify]

end Agree

namespace SameReading

theorem of_suffix (h : SameReading d d' us x x') (hs : us <:+ ts) : SameReading d d' ts x x' := by
  cases h with
  | stop h => exact .stop h
  | more h hus => exact .more h (hus.trans hs)

theorem andThen {wrap wrap' : Expr → Expr} {next next' : Expr → Text → Reading}
    (h : SameReading d d' ts x x')
    (hw : ∀ e e', Agree d d' e e' → Agree d d' (wrap e) (wrap' e'))
    (hn : ∀ e e' us, Agree d d' e e' → us <:+ ts →
      SameReading d d' us (next e (d.spell us)) (next' e' (d'.spell us))) :
    SameReading d d' ts (x.andThen wrap next) (x'.andThen wrap' next') := by
  cases h with
  | stop h => exact .stop (hw _ _ h)
  | more h hus => exact (hn _ _ _ (hw _ _ h) hus).of_suffix hus

theorem andThen_id {next next' : Expr → Text → Reading} (h : SameReading d d' ts x x')
    (hn : ∀ e e' us, Agree d d' e e' → us <:+ ts →
      SameReading d d' us (next e (d.spell us)) (next' e' (d'.spell us))) :
    SameReading d d' ts (x.andThen id next) (x'.andThen id next') :=
  h.andThen (fun _ _ h => h) hn

end SameReading

/-! ## What follows an operand -/

theorem factorialSuffix_of_ne {t : Text} (h : ∀ u, t ≠ '!' :: u) (e : Expr) :
    factorialSuffix e t = ⟨e, some t⟩ := by
  rw [factorialSuffix.eq_def]
  split
  · exact absurd rfl (h _)
  · exact absurd rfl (h _)
  · rfl

theorem factorialSuffix_single {t : Text} (h : ∀ u, t ≠ '!' :: u) (e : Expr) :
    factorialSuffix e ('!' :: t) = ⟨.factorial false e, some t⟩ := by
  rw [factorialSuffix]
  exact h

theorem powerSuffix_of_ne {t : Text} (hcaret : ∀ u, t ≠ '^' :: u)
    (htimes : ∀ u, t ≠ '*' :: '*' :: u) (e : Expr) : powerSuffix d e t = ⟨e, some t⟩ := by
  rw [powerSuffix.eq_def]
  split
  · exact absurd rfl (htimes _)
  · exact absurd rfl (hcaret _)
  · rfl

/-- Whether a number or the point of one comes first. -/
def startsNumber : List Token → Bool
  | .numeral _ :: _ => true
  | .symbol .dots :: _ => true
  | _ => false

theorem signsNumber_spell (hd : d.IsStandard) (ts : List Token) :
    SignsNumber d (d.spell ts) ↔ startsNumber ts = true := by
  rcases ts with _ | ⟨n | s | _, us⟩
  · rfl
  · obtain ⟨c, u, hn, hc⟩ := exists_numeral_eq_cons hd n (d.spell us)
    rw [SignsNumber, spell_numeral, hn, List.head?_cons, Option.any_some, hc]
    rfl
  · obtain ⟨u, hu⟩ := s.text_eq
    rw [SignsNumber, spell_symbol, hu, List.cons_append, List.head?_cons, Option.any_some,
      d.isDigit_of_reserved s.char_mem_reservedChars]
    cases s <;> simp [Symbol.char, startsNumber]
  · rw [SignsNumber, spell_gap, List.head?_cons, Option.any_some, isDigit_of_breaks hd (by decide)]
    simp [startsNumber, divisionMark]

section

variable (hd : d.IsStandard) (hd' : d'.IsStandard)

include hd hd'

theorem same_factorialSuffix (h : Agree d d' e e') (ts : List Token) :
    SameReading d d' ts (factorialSuffix e (d.spell ts)) (factorialSuffix e' (d'.spell ts)) := by
  by_cases hbang : ∃ us, ts = .symbol .bang :: us
  · obtain ⟨us, rfl⟩ := hbang
    by_cases hsecond : ∃ vs, us = .symbol .bang :: vs
    · obtain ⟨vs, rfl⟩ := hsecond
      exact .more (h.factorial true) ((List.suffix_cons _ vs).trans (List.suffix_cons _ _))
    · have hne := not_exists.1 hsecond
      change SameReading d d' _ (factorialSuffix e ('!' :: d.spell us))
        (factorialSuffix e' ('!' :: d'.spell us))
      rw [factorialSuffix_single (spell_ne_cons hd (s := .bang) hne),
        factorialSuffix_single (spell_ne_cons hd' (s := .bang) hne)]
      exact .more (h.factorial false) (List.suffix_cons _ us)
  · have hne := not_exists.1 hbang
    rw [factorialSuffix_of_ne (spell_ne_cons hd (s := .bang) hne),
      factorialSuffix_of_ne (spell_ne_cons hd' (s := .bang) hne)]
    exact .more h (List.suffix_refl ts)

theorem same_raised (hs : Separated ts) {wrap wrap' : Int → Expr} (h : Agree d d' e e')
    (hw : ∀ k, Agree d d' (wrap k) (wrap' k)) :
    SameReading d d' ts (raised d e wrap (d.spell ts)) (raised d' e' wrap' (d'.spell ts)) := by
  rw [raised, raised]
  rcases (same_exponent hd hd' hs).elim with ⟨f, hf, hf'⟩ | ⟨k, us, hus, hk, hk'⟩
  · rw [hf, hf']
    exact .stop (h.halted f)
  · rw [hk, hk']
    exact .more (hw k) hus

theorem same_powerSuffix (hs : Separated ts) (h : Agree d d' e e') :
    SameReading d d' ts (powerSuffix d e (d.spell ts)) (powerSuffix d' e' (d'.spell ts)) := by
  rcases start_cases (.symbol .caret) (.symbol .times) ts with ⟨us, rfl⟩ | ⟨us, rfl⟩ |
    ⟨hcaret, htimes⟩
  · exact (same_raised hd hd' hs.tail h h.pow).of_suffix (List.suffix_cons _ us)
  · by_cases hsecond : ∃ vs, us = .symbol .times :: vs
    · obtain ⟨vs, rfl⟩ := hsecond
      exact (same_raised hd hd' hs.tail.tail h h.productPow).of_suffix
        ((List.suffix_cons _ vs).trans (List.suffix_cons _ _))
    · have hne : ∀ {d : Dialect}, d.IsStandard → ∀ u, '*' :: d.spell us ≠ '*' :: '*' :: u :=
        fun hd u hu => spell_ne_cons hd (s := .times) (not_exists.1 hsecond) u (List.cons.inj hu).2
      change SameReading d d' _ (powerSuffix d e ('*' :: d.spell us))
        (powerSuffix d' e' ('*' :: d'.spell us))
      rw [powerSuffix_of_ne (by simp) (hne hd), powerSuffix_of_ne (by simp) (hne hd')]
      exact .more h (List.suffix_refl (.symbol .times :: us))
  · have hcaret : ∀ {d : Dialect}, d.IsStandard → ∀ u, d.spell ts ≠ '^' :: u := fun hd =>
      spell_ne_cons hd (s := .caret) hcaret
    have htimes : ∀ {d : Dialect}, d.IsStandard → ∀ u, d.spell ts ≠ '*' :: '*' :: u := fun hd u =>
      spell_ne_cons hd (s := .times) htimes ('*' :: u)
    rw [powerSuffix_of_ne (hcaret hd) (htimes hd), powerSuffix_of_ne (hcaret hd') (htimes hd')]
    exact .more h (List.suffix_refl ts)

theorem same_suffixed (hs : Separated ts) (h : Agree d d' e e') :
    SameReading d d' ts (suffixed d e (d.spell ts)) (suffixed d' e' (d'.spell ts)) := by
  rw [suffixed_of_after? (after?_marker_spell hd ts),
    suffixed_of_after? (after?_marker_spell hd' ts)]
  refine (same_factorialSuffix hd hd' h ts).andThen_id fun a a' us ha hus => ?_
  exact same_powerSuffix hd hd' (hs.suffix hus) ha

variable (he : d.exact = d'.exact)

include he

theorem same_literal (hs : Separated ts) :
    SameReading d d' ts (literal d (d.spell ts)) (literal d' (d'.spell ts)) := by
  rw [literal, literal]
  rcases (same_interval hd hd' he hs).elim with ⟨f, hf, hf'⟩ | ⟨v, us, hus, hv, hv'⟩
  · rw [hf, hf']
    exact .stop (.fault f)
  · rw [hv, hv']
    exact (same_suffixed hd hd' (hs.suffix hus) (.literal v.1)).of_suffix hus

/-- Both dialects take a minus sign for that of the first number of an interval, or neither. -/
theorem same_signedLiteral? (hs : Separated (.symbol .minus :: ts)) :
    (signedLiteral? d ('-' :: d.spell ts) = none ∧ signedLiteral? d' ('-' :: d'.spell ts) = none) ∨
      ∃ x x', signedLiteral? d ('-' :: d.spell ts) = some x ∧
        signedLiteral? d' ('-' :: d'.spell ts) = some x' ∧
        SameReading d d' (.symbol .minus :: ts) x x' := by
  have hf : ¬ SignsFraction d (d.spell ts) :=
    not_signsFraction_iff.2 (continuedFraction?_spell hd hs)
  have hf' : ¬ SignsFraction d' (d'.spell ts) :=
    not_signsFraction_iff.2 (continuedFraction?_spell hd' hs)
  by_cases hn : startsNumber ts = true
  · rw [signedLiteral?_of_number hf ((signsNumber_spell hd ts).2 hn),
      signedLiteral?_of_number hf' ((signsNumber_spell hd' ts).2 hn)]
    have hinterval : Same d d' _ (d.interval ('-' :: d.spell ts))
        (d'.interval ('-' :: d'.spell ts)) := same_interval hd hd' he hs
    rcases hinterval.elim with ⟨f, hf, hf'⟩ | ⟨⟨v, written⟩, us, hus, hv, hv'⟩
    · rw [hf, hf']
      exact .inr ⟨_, _, rfl, rfl, .stop (.fault f)⟩
    · rw [hv, hv']
      cases written with
      | false => exact .inl ⟨rfl, rfl⟩
      | true =>
        have hread := same_suffixed hd hd' (hs.suffix hus) (.literal v)
        exact .inr ⟨_, _, rfl, rfl, hread.of_suffix hus⟩
  · exact .inl ⟨signedLiteral?_of_other hf (mt (signsNumber_spell hd ts).1 hn),
      signedLiteral?_of_other hf' (mt (signsNumber_spell hd' ts).1 hn)⟩

end

/-! ## The two readers -/

/-- With fuel enough for a row of tokens the readers of two dialects go on alike. Their fuel is
counted apart, because a number may be longer in the digits of one of them. -/
structure Lockstep (d d' : Dialect) (n n' : Nat) : Prop where
  sum : ∀ {ts}, Separated ts → 3 * ts.length + 3 ≤ min n n' →
    SameReading d d' ts (Reading.sum d n (d.spell ts)) (Reading.sum d' n' (d'.spell ts))
  sumFrom : ∀ {ts a a'}, Separated ts → Agree d d' a a' → 3 * ts.length ≤ min n n' →
    SameReading d d' ts (Reading.sumFrom d n a (d.spell ts))
      (Reading.sumFrom d' n' a' (d'.spell ts))
  term : ∀ {ts}, Separated ts → 3 * ts.length + 2 ≤ min n n' →
    SameReading d d' ts (Reading.term d n (d.spell ts)) (Reading.term d' n' (d'.spell ts))
  termFrom : ∀ {ts a a'}, Separated ts → Agree d d' a a' → 3 * ts.length ≤ min n n' →
    SameReading d d' ts (Reading.termFrom d n a (d.spell ts))
      (Reading.termFrom d' n' a' (d'.spell ts))
  factor : ∀ {ts}, Separated ts → 3 * ts.length + 1 ≤ min n n' →
    SameReading d d' ts (Reading.factor d n (d.spell ts)) (Reading.factor d' n' (d'.spell ts))

/-- No exponent stands as an operator in a spelled text. -/
theorem afterMarker?_spell (hd : d.IsStandard) (ts : List Token) :
    afterMarker? d (d.spell ts) = none := by
  have hmark : spacedMark ∉ d.spell ts := by
    intro h
    rcases mem_spell hd h with h | h
    · exact absurd (mem_alphabet_of_isDigit hd h) (by decide)
    · exact absurd h (by decide)
  have hafter := after?_marker_spell hd ts
  revert hmark hafter
  generalize d.spell ts = t
  intro hmark hafter
  cases t with
  | nil => rfl
  | cons c u =>
    rw [afterMarker?, if_neg, hafter]
    rintro rfl
    exact hmark List.mem_cons_self

/-- What follows a slash without the blanks after it. -/
def afterGap : List Token → List Token
  | .gap :: ts => ts
  | ts => ts

theorem afterGap_suffix (ts : List Token) : afterGap ts <:+ ts := by
  rw [afterGap.eq_def]
  split
  · exact List.suffix_cons _ _
  · exact List.suffix_refl ts

theorem afterSlash_spell (hd : d.IsStandard) (ts : List Token) :
    afterSlash (d.spell ts) = d.spell (afterGap ts) := by
  rcases ts with _ | ⟨n | s | _, us⟩
  · rfl
  · obtain ⟨c, u, hn, hc⟩ := exists_numeral_eq_cons hd n (d.spell us)
    rw [afterGap, spell_numeral, hn, afterSlash, if_neg]
    · rintro rfl
      rw [isDigit_of_breaks hd (by decide)] at hc
      cases hc
    · intro u h
      cases (List.cons.inj h).1
  · cases s <;> rfl
  · rfl

variable {n n' : Nat}

section

variable (ih : Lockstep d d' n n') {wrap wrap' : Expr → Expr}
  (hw : ∀ b b', Agree d d' b b' → Agree d d' (wrap b) (wrap' b'))

include ih hw

/-- A term, and the terms after it. -/
theorem Lockstep.terms (hs : Separated ts) (hn : 3 * ts.length + 2 ≤ min n n') :
    SameReading d d' ts
      ((Reading.term d n (d.spell ts)).andThen wrap (Reading.sumFrom d n))
      ((Reading.term d' n' (d'.spell ts)).andThen wrap' (Reading.sumFrom d' n')) := by
  refine (ih.term hs hn).andThen hw fun b b' us hb hus => ?_
  have := hus.length_le
  exact ih.sumFrom (hs.suffix hus) hb (by omega)

/-- A factor, and the factors after it. -/
theorem Lockstep.factors (hs : Separated ts) (hn : 3 * ts.length + 1 ≤ min n n') :
    SameReading d d' ts
      ((Reading.factor d n (d.spell ts)).andThen wrap (Reading.termFrom d n))
      ((Reading.factor d' n' (d'.spell ts)).andThen wrap' (Reading.termFrom d' n')) := by
  refine (ih.factor hs hn).andThen hw fun b b' us hb hus => ?_
  have := hus.length_le
  exact ih.termFrom (hs.suffix hus) hb (by omega)

end

theorem Lockstep.sum_succ (ih : Lockstep d d' n n') (hs : Separated ts)
    (hn : 3 * ts.length + 3 ≤ min (n + 1) (n' + 1)) :
    SameReading d d' ts (Reading.sum d (n + 1) (d.spell ts))
      (Reading.sum d' (n' + 1) (d'.spell ts)) := by
  rw [Reading.sum, Reading.sum]
  exact ih.terms (fun _ _ hb => hb) hs (by omega)

theorem Lockstep.term_succ (ih : Lockstep d d' n n') (hs : Separated ts)
    (hn : 3 * ts.length + 2 ≤ min (n + 1) (n' + 1)) :
    SameReading d d' ts (Reading.term d (n + 1) (d.spell ts))
      (Reading.term d' (n' + 1) (d'.spell ts)) := by
  rw [Reading.term, Reading.term]
  exact ih.factors (fun _ _ hb => hb) hs (by omega)

section

variable (hd : d.IsStandard) (hd' : d'.IsStandard)

include hd hd'

/-- Where no plus or minus follows, a sum ends in both dialects. -/
theorem same_sumEnd (he : d.exact = d'.exact) (n n' : Nat) (ha : Agree d d' a a')
    (hplus : ∀ us, ts ≠ .symbol .plus :: us) (hminus : ∀ us, ts ≠ .symbol .minus :: us) :
    SameReading d d' ts (Reading.sumFrom d n a (d.spell ts))
      (Reading.sumFrom d' n' a' (d'.spell ts)) := by
  rw [sumFrom_end n (spell_ne_cons hd (s := .plus) hplus) (spell_ne_cons hd (s := .minus) hminus),
    sumFrom_end n' (spell_ne_cons hd' (s := .plus) hplus)
      (spell_ne_cons hd' (s := .minus) hminus)]
  exact .more (ha.simplified he) (List.suffix_refl ts)

/-- Where no operator follows, a term ends in both dialects. -/
theorem same_termEnd (n n' : Nat) (ha : Agree d d' a a')
    (htimes : ∀ us, ts ≠ .symbol .times :: us) (hslash : ∀ us, ts ≠ .symbol .slash :: us) :
    SameReading d d' ts (Reading.termFrom d n a (d.spell ts))
      (Reading.termFrom d' n' a' (d'.spell ts)) := by
  rw [termFrom_end n (spell_ne_cons hd (s := .times) htimes)
      (spell_ne_cons hd (s := .slash) hslash) (afterMarker?_spell hd ts),
    termFrom_end n' (spell_ne_cons hd' (s := .times) htimes)
      (spell_ne_cons hd' (s := .slash) hslash) (afterMarker?_spell hd' ts)]
  exact .more ha (List.suffix_refl ts)

/-- After a sum in parentheses the closing one comes in both dialects, or in neither. -/
theorem same_close (hs : Separated ts) (ha : Agree d d' a a') :
    SameReading d d' ts
      (match d.spell ts with
        | ')' :: rest => suffixed d a rest
        | _ => ⟨.halted a (.literal .unclosedParenthesis), none⟩)
      (match d'.spell ts with
        | ')' :: rest => suffixed d' a' rest
        | _ => ⟨.halted a' (.literal .unclosedParenthesis), none⟩) := by
  by_cases h : ∃ us, ts = .symbol .closing :: us
  · obtain ⟨us, rfl⟩ := h
    exact (same_suffixed hd hd' hs.tail ha).of_suffix (List.suffix_cons _ us)
  · have h := not_exists.1 h
    split
    · exact absurd (by assumption) (spell_ne_cons hd (s := .closing) h _)
    split
    · exact absurd (by assumption) (spell_ne_cons hd' (s := .closing) h _)
    · exact .stop (ha.halted _)

variable (he : d.exact = d'.exact)

include he

/-- Without fuel nothing but the end of a text is read. -/
theorem lockstep_of_min_eq_zero (h : min n n' = 0) : Lockstep d d' n n' where
  sum _ hn := absurd hn (by omega)
  term _ hn := absurd hn (by omega)
  factor _ hn := absurd hn (by omega)
  sumFrom {ts a a'} _ ha hn := by
    obtain rfl : ts = [] := List.length_eq_zero_iff.1 (by omega)
    exact same_sumEnd hd hd' he n n' ha (fun _ h => nomatch h) fun _ h => nomatch h
  termFrom {ts a a'} _ ha hn := by
    obtain rfl : ts = [] := List.length_eq_zero_iff.1 (by omega)
    exact same_termEnd hd hd' n n' ha (fun _ h => nomatch h) fun _ h => nomatch h

variable (ih : Lockstep d d' n n')

include ih

theorem Lockstep.sumFrom_succ (hs : Separated ts) (ha : Agree d d' a a')
    (hn : 3 * ts.length ≤ min (n + 1) (n' + 1)) :
    SameReading d d' ts (Reading.sumFrom d (n + 1) a (d.spell ts))
      (Reading.sumFrom d' (n' + 1) a' (d'.spell ts)) := by
  rcases start_cases (.symbol .plus) (.symbol .minus) ts with ⟨us, rfl⟩ | ⟨us, rfl⟩ |
    ⟨hplus, hminus⟩
  · rw [List.length_cons] at hn
    change SameReading d d' _ (Reading.sumFrom d (n + 1) a ('+' :: d.spell us))
      (Reading.sumFrom d' (n' + 1) a' ('+' :: d'.spell us))
    rw [Reading.sumFrom, Reading.sumFrom]
    exact (ih.terms (fun _ _ hb => ha.add hb) hs.tail (by omega)).of_suffix (List.suffix_cons _ us)
  · rw [List.length_cons] at hn
    change SameReading d d' _ (Reading.sumFrom d (n + 1) a ('-' :: d.spell us))
      (Reading.sumFrom d' (n' + 1) a' ('-' :: d'.spell us))
    rw [Reading.sumFrom, Reading.sumFrom]
    exact (ih.terms (fun _ _ hb => ha.sub hb) hs.tail (by omega)).of_suffix (List.suffix_cons _ us)
  · exact same_sumEnd hd hd' he _ _ ha hplus hminus

theorem Lockstep.termFrom_succ (hs : Separated ts) (ha : Agree d d' a a')
    (hn : 3 * ts.length ≤ min (n + 1) (n' + 1)) :
    SameReading d d' ts (Reading.termFrom d (n + 1) a (d.spell ts))
      (Reading.termFrom d' (n' + 1) a' (d'.spell ts)) := by
  rcases start_cases (.symbol .times) (.symbol .slash) ts with ⟨us, rfl⟩ | ⟨us, rfl⟩ |
    ⟨htimes, hslash⟩
  · rw [List.length_cons] at hn
    change SameReading d d' _ (Reading.termFrom d (n + 1) a ('*' :: d.spell us))
      (Reading.termFrom d' (n' + 1) a' ('*' :: d'.spell us))
    rw [Reading.termFrom, Reading.termFrom]
    exact (ih.factors (fun _ _ hb => (ha.mul hb).simplified he) hs.tail (by omega)).of_suffix
      (List.suffix_cons _ us)
  · rw [List.length_cons] at hn
    change SameReading d d' _ (Reading.termFrom d (n + 1) a ('/' :: d.spell us))
      (Reading.termFrom d' (n' + 1) a' ('/' :: d'.spell us))
    rw [Reading.termFrom, Reading.termFrom, afterSlash_spell hd, afterSlash_spell hd']
    have hgap := afterGap_suffix us
    have hlength := hgap.length_le
    exact (ih.factors (fun _ _ hb => (ha.div hb).simplified he) (hs.tail.suffix hgap)
      (by omega)).of_suffix (hgap.trans (List.suffix_cons _ us))
  · exact same_termEnd hd hd' _ _ ha htimes hslash

theorem Lockstep.factor_succ (hs : Separated ts) (hn : 3 * ts.length + 1 ≤ min (n + 1) (n' + 1)) :
    SameReading d d' ts (Reading.factor d (n + 1) (d.spell ts))
      (Reading.factor d' (n' + 1) (d'.spell ts)) := by
  rcases start_cases (.symbol .opening) (.symbol .minus) ts with ⟨us, rfl⟩ | ⟨us, rfl⟩ |
    ⟨hopening, hminus⟩
  · rw [List.length_cons] at hn
    change SameReading d d' _ (Reading.factor d (n + 1) ('(' :: d.spell us))
      (Reading.factor d' (n' + 1) ('(' :: d'.spell us))
    rw [factor_open, factor_open]
    refine SameReading.of_suffix ((ih.sum hs.tail (by omega)).andThen_id fun a a' vs ha hvs => ?_)
      (List.suffix_cons _ us)
    exact same_close hd hd' (hs.tail.suffix hvs) ha
  · rw [List.length_cons] at hn
    have hbracket : ∀ {d : Dialect}, d.IsStandard → Literal.bracket? ('-' :: d.spell us) = none :=
      fun hd => bracket?_spell hd (.symbol .minus :: us)
    change SameReading d d' _ (Reading.factor d (n + 1) ('-' :: d.spell us))
      (Reading.factor d' (n' + 1) ('-' :: d'.spell us))
    rw [factor_minus (hbracket hd), factor_minus (hbracket hd')]
    rcases same_signedLiteral? hd hd' he hs with ⟨h, h'⟩ | ⟨x, x', h, h', hx⟩
    · rw [h, h']
      refine SameReading.of_suffix ((ih.factor hs.tail (by omega)).andThen
        (fun b b' hb => hb.neg he) fun b b' vs hb _ => ?_) (List.suffix_cons _ us)
      exact .more hb (List.suffix_refl vs)
    · rw [h, h']
      exact hx
  · by_cases hne : ts = []
    · subst hne
      exact .stop (.fault _)
    · rw [factor_literal (spell_ne_nil hd hne) (spell_ne_cons hd (s := .opening) hopening)
          (spell_ne_cons hd (s := .minus) hminus) (bracket?_spell hd ts),
        factor_literal (spell_ne_nil hd' hne) (spell_ne_cons hd' (s := .opening) hopening)
          (spell_ne_cons hd' (s := .minus) hminus) (bracket?_spell hd' ts)]
      exact same_literal hd hd' he hs

end

/-- **The readers of two dialects go on alike** from every row of tokens. -/
theorem lockstep (hd : d.IsStandard) (hd' : d'.IsStandard) (he : d.exact = d'.exact) (n n' : Nat) :
    Lockstep d d' n n' := by
  -- each reader takes one unit of fuel in every step, so both counts go down together
  induction n generalizing n' with
  | zero => exact lockstep_of_min_eq_zero hd hd' he (Nat.zero_min n')
  | succ n ih =>
    cases n' with
    | zero => exact lockstep_of_min_eq_zero hd hd' he (Nat.min_zero _)
    | succ n' =>
      have ih := ih n'
      exact {
        sum := ih.sum_succ
        sumFrom := ih.sumFrom_succ hd hd' he
        term := ih.term_succ
        termFrom := ih.termFrom_succ hd hd' he
        factor := ih.factor_succ hd hd' he }

end Reading

/-! ## Values -/

namespace Expr

variable {d d' : Dialect}

open Reading

/-- **The digits that numbers are written in do not change what an expression is worth.** Where it
fails it fails alike, except that a report of what is left unread shows that in the digits. -/
theorem valueOf_write (hd : d.IsStandard) (hd' : d'.IsStandard) (he : d.exact = d'.exact)
    {ps : List Piece} (hs : Separated (tokens ps)) :
    valueOf d (d.write ps) = valueOf d' (d'.write ps) ∨
      ∃ us, us ≠ [] ∧ us <:+ tokens ps ∧
        valueOf d (d.write ps) =
          .error (.literal (.trailingToken (String.ofList (d.display (d.spell us))))) ∧
        valueOf d' (d'.write ps) =
          .error (.literal (.trailingToken (String.ofList (d'.display (d'.spell us))))) := by
  rw [valueOf, valueOf, read, read, prepare_write hd, prepare_write hd']
  revert hs
  generalize tokens ps = ts
  intro hs
  by_cases hne : ts = []
  · subst hne
    exact .inl rfl
  have hlength := length_le_spell hd ts
  have hlength' := length_le_spell hd' ts
  rw [ofPrepared, ofPrepared, if_neg fun h => spell_ne_nil hd hne (List.isEmpty_iff.1 h),
    if_neg fun h => spell_ne_nil hd' hne (List.isEmpty_iff.1 h)]
  have hsum := (lockstep hd hd' he (3 * (d.spell ts).length + 3)
    (3 * (d'.spell ts).length + 3)).sum hs (by omega)
  revert hsum
  generalize sum d _ (d.spell ts) = x
  generalize sum d' _ (d'.spell ts) = x'
  intro hsum
  cases hsum with
  | stop h => exact .inl h
  | @more e e' us h hus =>
    by_cases hend : us = []
    · subst hend
      exact .inl h
    -- what is left is reported only where what was read has a value
    · obtain ⟨c, u, hc⟩ := List.exists_cons_of_ne_nil (spell_ne_nil hd hend)
      obtain ⟨c', u', hc'⟩ := List.exists_cons_of_ne_nil (spell_ne_nil hd' hend)
      rw [hc, hc']
      simp only
      rw [eval, eval, ← show e.eval d = e'.eval d' from h]
      cases e.eval d with
      | error f => exact .inl rfl
      | ok v => exact .inr ⟨us, hend, hus, by rw [hc]; rfl, by rw [hc']; rfl⟩

/-- A sum of an integer and a mixed number in hexadecimal digits. -/
theorem write_hexadecimal :
    IsStandard ⟨true, some .hexadecimal, .initial⟩ ∧ IsStandard ⟨true, none, .initial⟩ ∧
      Separated (tokens [.numeral 255, .blank ' ' (by decide), .symbol .plus, .numeral 1,
        .symbol .dots, .numeral 3, .symbol .slash, .numeral 10]) ∧
      valueOf ⟨true, some .hexadecimal, .initial⟩ "ff +1..3/a".toList =
        .ok (.plain (.rational (2563 / 10))) := by
  have hd : IsStandard ⟨true, some .hexadecimal, .initial⟩ := fun s hs =>
    ⟨16, by decide, _, (Option.some.inj hs).symm⟩
  have hd' : IsStandard ⟨true, none, .initial⟩ := fun s hs => nomatch hs
  have hs : Separated (tokens [.numeral 255, .blank ' ' (by decide), .symbol .plus, .numeral 1,
      .symbol .dots, .numeral 3, .symbol .slash, .numeral 10]) := by decide
  have hvalue : valueOf ⟨true, none, .initial⟩ "255 +1..3/10".toList =
      .ok (.plain (.rational (2563 / 10))) := by decide +kernel
  have hwrite : Dialect.write ⟨true, some .hexadecimal, .initial⟩ [.numeral 255,
      .blank ' ' (by decide), .symbol .plus, .numeral 1, .symbol .dots, .numeral 3, .symbol .slash,
      .numeral 10] = "ff +1..3/a".toList := by with_unfolding_all decide
  have hwrite' : Dialect.write ⟨true, none, .initial⟩ [.numeral 255,
      .blank ' ' (by decide), .symbol .plus, .numeral 1, .symbol .dots, .numeral 3, .symbol .slash,
      .numeral 10] = "255 +1..3/10".toList := by decide
  have h := valueOf_write hd hd' rfl hs
  rw [hwrite, hwrite', hvalue] at h
  rcases h with h | ⟨us, -, -, -, h⟩
  · exact ⟨hd, hd', hs, h⟩
  · cases h

end Expr

end RatCalc

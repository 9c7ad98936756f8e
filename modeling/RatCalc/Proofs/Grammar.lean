import RatCalc.Proofs.EnclosedOperand

/-!
# The grammar of expressions

* `Part`: what can be read at a place; `Reads d part t e r`: the part at the start of `t` says `e`,
  and `r` follows it.
* `Reads.leaves`: where a part leaves a closed text its text is closed; operands take something.
* **`Reads.close`**: a part is read the same before a closing parenthesis.
* `Reads.of_plus` to `Reads.of_literal`: what a reading of a text comes from.
-/

namespace RatCalc

open Text Reading

/-- What can be read at a place: the later terms of a sum and the later factors of a term come after
the expression that was read before. -/
inductive Part where
  | sum
  | sumFrom (a : Expr)
  | term
  | termFrom (a : Expr)
  | factor

/-- The part at the start of a text says an expression, and a text follows it. -/
inductive Reads (d : Dialect) : Part → Text → Expr → Text → Prop where
  | sum {t u r a e} : Reads d .term t a u → Reads d (.sumFrom a) u e r → Reads d .sum t e r
  | plus {t u r a b e} : Reads d .term t b u → Reads d (.sumFrom (.add a b)) u e r →
      Reads d (.sumFrom a) ('+' :: t) e r
  | minus {t u r a b e} : Reads d .term t b u → Reads d (.sumFrom (.sub a b)) u e r →
      Reads d (.sumFrom a) ('-' :: t) e r
  | sumEnd {t a} : (∀ u, t ≠ '+' :: u) → (∀ u, t ≠ '-' :: u) →
      Reads d (.sumFrom a) t (.simplified a) t
  | term {t u r a e} : Reads d .factor t a u → Reads d (.termFrom a) u e r → Reads d .term t e r
  | times {t u r a b e} : Reads d .factor t b u →
      Reads d (.termFrom (.simplified (.mul a b))) u e r → Reads d (.termFrom a) ('*' :: t) e r
  | divided {t u r a b e} : Reads d .factor (afterSlash t) b u →
      Reads d (.termFrom (.simplified (.div a b))) u e r → Reads d (.termFrom a) ('/' :: t) e r
  | scaled {t v u r a b e} : (∀ u, t ≠ '*' :: u) → (∀ u, t ≠ '/' :: u) →
      afterMarker? d t = some v → Reads d .factor v b u →
      Reads d (.termFrom (.simplified (.scaleBy a b))) u e r → Reads d (.termFrom a) t e r
  | termEnd {t a} : (∀ u, t ≠ '*' :: u) → (∀ u, t ≠ '/' :: u) → afterMarker? d t = none →
      Reads d (.termFrom a) t a t
  | group {t u r a e} : Reads d .sum t a (')' :: u) → suffixed d a u = ⟨e, some r⟩ →
      Reads d .factor ('(' :: t) e r
  | bracketed {t u r base contents e} : (∀ u, t ≠ '(' :: u) →
      Literal.bracket? t = some (base, contents, u) → bracket d base contents u = ⟨e, some r⟩ →
      Reads d .factor t e r
  | signed {t r e} : Literal.bracket? ('-' :: t) = none →
      signedLiteral? d ('-' :: t) = some ⟨e, some r⟩ → Reads d .factor ('-' :: t) e r
  | negated {t r a} : Literal.bracket? ('-' :: t) = none → signedLiteral? d ('-' :: t) = none →
      Reads d .factor t a r → Reads d .factor ('-' :: t) (.neg a) r
  | literal {t r e} : (∀ u, t ≠ '(' :: u) → (∀ u, t ≠ '-' :: u) → Literal.bracket? t = none →
      literal d t = ⟨e, some r⟩ → Reads d .factor t e r

/-- The parts that take something of their texts. -/
def Part.IsOperand : Part → Prop
  | sum | term | factor => True
  | sumFrom _ | termFrom _ => False

namespace Reads

variable {d : Dialect} {part : Part} {t r : Text} {e : Expr}

theorem leaves (h : Reads d part t e r) :
    Leaves t r ∧ (part.IsOperand → r.length < t.length) := by
  induction h with
  | sum _ _ ih₁ ih₂ =>
    exact ⟨ih₁.1.trans ih₂.1, fun _ => Nat.lt_of_le_of_lt ih₂.1.length_le (ih₁.2 trivial)⟩
  | plus _ _ ih₁ ih₂ =>
    exact ⟨(Takes.cons (by decide) _).leaves.trans (ih₁.1.trans ih₂.1), fun h => h.elim⟩
  | minus _ _ ih₁ ih₂ =>
    exact ⟨(Takes.cons (by decide) _).leaves.trans (ih₁.1.trans ih₂.1), fun h => h.elim⟩
  | sumEnd => exact ⟨(Takes.refl _).leaves, fun h => h.elim⟩
  | term _ _ ih₁ ih₂ =>
    exact ⟨ih₁.1.trans ih₂.1, fun _ => Nat.lt_of_le_of_lt ih₂.1.length_le (ih₁.2 trivial)⟩
  | times _ _ ih₁ ih₂ =>
    exact ⟨(Takes.cons (by decide) _).leaves.trans (ih₁.1.trans ih₂.1), fun h => h.elim⟩
  | @divided t _ _ _ _ _ _ _ ih₁ ih₂ =>
    have hs : Takes ('/' :: t) (afterSlash t) :=
      (Takes.cons (by decide) t).trans (takes_afterSlash t)
    exact ⟨hs.leaves.trans (ih₁.1.trans ih₂.1), fun h => h.elim⟩
  | termEnd => exact ⟨(Takes.refl _).leaves, fun h => h.elim⟩
  | scaled _ _ hm _ _ ih₁ ih₂ =>
    have hmt := (consumes_afterMarker? d hm).takes
    exact ⟨hmt.leaves.trans (ih₁.1.trans ih₂.1), fun h => h.elim⟩
  | @group _ u _ _ _ _ hs ih =>
    have hst : Takes (')' :: u) _ := (Takes.cons (by decide) u).trans (keeps_suffixed d _ hs).1
    have hr := ih.1.trans hst.leaves
    exact ⟨(Takes.cons (by decide) _).leaves.trans hr, fun _ => Nat.lt_succ_of_le hr.length_le⟩
  | bracketed _ hb hs =>
    obtain ⟨hbl, hlt⟩ := leaves_bracket? hb
    have hst := (keeps_bracket d _ _ hs).1
    exact ⟨hbl.trans hst.leaves, fun _ => Nat.lt_of_le_of_lt hst.length_le hlt⟩
  | signed _ hs =>
    have hst := (keeps_signedLiteral? d hs).1
    exact ⟨hst.takes.leaves, fun _ => hst.2⟩
  | negated _ _ _ ih =>
    exact ⟨(Takes.cons (by decide) _).leaves.trans ih.1, fun _ => Nat.lt_succ_of_lt (ih.2 trivial)⟩
  | literal _ _ _ hl =>
    have hlt := consumes_literal d hl
    exact ⟨hlt.takes.leaves, fun _ => hlt.2⟩

/-- **A part is read the same before a closing parenthesis**, if what follows it is closed. -/
theorem close (h : Reads d part t e r) (hr : Closed r) (w : Text) :
    Reads d part (t ++ ')' :: w) e (r ++ ')' :: w) := by
  have hne : ∀ {t : Text} {c : Char}, c ≠ ')' → (∀ u, t ≠ c :: u) →
      ∀ u, t ++ ')' :: w ≠ c :: u := fun hc hno => append_ne_cons hc hno w
  induction h with
  | sum _ h₂ ih₁ ih₂ => exact .sum (ih₁ (h₂.leaves.1.closed hr)) (ih₂ hr)
  | plus _ h₂ ih₁ ih₂ => exact .plus (ih₁ (h₂.leaves.1.closed hr)) (ih₂ hr)
  | minus _ h₂ ih₁ ih₂ => exact .minus (ih₁ (h₂.leaves.1.closed hr)) (ih₂ hr)
  | sumEnd h₁ h₂ => exact .sumEnd (hne (by decide) h₁) (hne (by decide) h₂)
  | term _ h₂ ih₁ ih₂ => exact .term (ih₁ (h₂.leaves.1.closed hr)) (ih₂ hr)
  | times _ h₂ ih₁ ih₂ => exact .times (ih₁ (h₂.leaves.1.closed hr)) (ih₂ hr)
  | divided _ h₂ ih₁ ih₂ =>
    refine .divided ?_ (ih₂ hr)
    have := ih₁ (h₂.leaves.1.closed hr)
    rwa [← afterSlash_close] at this
  | scaled h₁ h₁' hm _ h₂ ih₁ ih₂ =>
    refine .scaled (hne (by decide) h₁) (hne (by decide) h₁') ?_
      (ih₁ (h₂.leaves.1.closed hr)) (ih₂ hr)
    rw [afterMarker?_close, hm]
    rfl
  | termEnd h₁ h₂ hm =>
    refine .termEnd (hne (by decide) h₁) (hne (by decide) h₂) ?_
    rw [afterMarker?_close, hm]
    rfl
  | group _ hs ih =>
    obtain ⟨hst, hsc⟩ := keeps_suffixed d _ hs
    have hu := ((Takes.cons (c := ')') (by decide) _).trans hst).leaves.closed hr
    exact .group (ih hu) (hsc w)
  | bracketed h₁ hb hs =>
    obtain ⟨hst, hsc⟩ := keeps_bracket d _ _ hs
    have ht := ((leaves_bracket? hb).1.trans hst.leaves).closed hr
    refine .bracketed (hne (by decide) h₁) ?_ (hsc w)
    rw [bracket?_close ht, hb]
    rfl
  | signed hb hs =>
    obtain ⟨hst, hsc⟩ := keeps_signedLiteral? d hs
    have ht := hst.takes.leaves.closed hr
    refine .signed ?_ (hsc w)
    have := bracket?_close ht w
    rwa [hb] at this
  | negated hb hs h ih =>
    have ht := ((Takes.cons (c := '-') (by decide) _).leaves.trans h.leaves.1).closed hr
    refine .negated ?_ (signedLiteral?_none_close d hs w) (ih hr)
    have := bracket?_close ht w
    rwa [hb] at this
  | literal h₁ h₂ hb hl =>
    have ht := (consumes_literal d hl).takes.leaves.closed hr
    refine .literal (hne (by decide) h₁) (hne (by decide) h₂) ?_ ((keeps_literal d hl).2 w)
    rw [bracket?_close ht, hb]
    rfl

/-! ## Reading backwards -/

section

variable {a : Expr}

theorem of_plus (h : Reads d (.sumFrom a) ('+' :: t) e r) :
    ∃ b u, Reads d .term t b u ∧ Reads d (.sumFrom (.add a b)) u e r := by
  generalize ht : '+' :: t = v at h
  cases h with
  | plus hb he =>
    cases ht
    exact ⟨_, _, hb, he⟩
  | minus => exact absurd (List.cons.inj ht).1 (by decide)
  | sumEnd hno => exact absurd ht.symm (hno _)

theorem of_sumMinus (h : Reads d (.sumFrom a) ('-' :: t) e r) :
    ∃ b u, Reads d .term t b u ∧ Reads d (.sumFrom (.sub a b)) u e r := by
  generalize ht : '-' :: t = v at h
  cases h with
  | plus => exact absurd (List.cons.inj ht).1 (by decide)
  | minus hb he =>
    cases ht
    exact ⟨_, _, hb, he⟩
  | sumEnd _ hno => exact absurd ht.symm (hno _)

theorem of_sumEnd (hp : ∀ u, t ≠ '+' :: u) (hm : ∀ u, t ≠ '-' :: u)
    (h : Reads d (.sumFrom a) t e r) : e = .simplified a ∧ r = t := by
  cases h with
  | plus => exact absurd rfl (hp _)
  | minus => exact absurd rfl (hm _)
  | sumEnd => exact ⟨rfl, rfl⟩

theorem of_times (h : Reads d (.termFrom a) ('*' :: t) e r) :
    ∃ b u, Reads d .factor t b u ∧ Reads d (.termFrom (.simplified (.mul a b))) u e r := by
  generalize ht : '*' :: t = v at h
  cases h with
  | times hb he =>
    cases ht
    exact ⟨_, _, hb, he⟩
  | divided => exact absurd (List.cons.inj ht).1 (by decide)
  | scaled hno => exact absurd ht.symm (hno _)
  | termEnd hno => exact absurd ht.symm (hno _)

theorem of_divided (h : Reads d (.termFrom a) ('/' :: t) e r) :
    ∃ b u, Reads d .factor (afterSlash t) b u ∧
      Reads d (.termFrom (.simplified (.div a b))) u e r := by
  generalize ht : '/' :: t = v at h
  cases h with
  | times => exact absurd (List.cons.inj ht).1 (by decide)
  | divided hb he =>
    cases ht
    exact ⟨_, _, hb, he⟩
  | scaled _ hno => exact absurd ht.symm (hno _)
  | termEnd _ hno => exact absurd ht.symm (hno _)

theorem of_scaled {v : Text} (ht : ∀ u, t ≠ '*' :: u) (ho : ∀ u, t ≠ '/' :: u)
    (hm : afterMarker? d t = some v) (h : Reads d (.termFrom a) t e r) :
    ∃ b u, Reads d .factor v b u ∧ Reads d (.termFrom (.simplified (.scaleBy a b))) u e r := by
  cases h with
  | times => exact absurd rfl (ht _)
  | divided => exact absurd rfl (ho _)
  | scaled _ _ hm' hb he =>
    cases hm.symm.trans hm'
    exact ⟨_, _, hb, he⟩
  | termEnd _ _ hm' => cases hm.symm.trans hm'

theorem of_termEnd (ht : ∀ u, t ≠ '*' :: u) (ho : ∀ u, t ≠ '/' :: u)
    (hm : afterMarker? d t = none) (h : Reads d (.termFrom a) t e r) : e = a ∧ r = t := by
  cases h with
  | times => exact absurd rfl (ht _)
  | divided => exact absurd rfl (ho _)
  | scaled _ _ hm' => cases hm.symm.trans hm'
  | termEnd => exact ⟨rfl, rfl⟩

end

theorem of_open (h : Reads d .factor ('(' :: t) e r) :
    ∃ a u, Reads d .sum t a (')' :: u) ∧ suffixed d a u = ⟨e, some r⟩ := by
  generalize ht : '(' :: t = v at h
  cases h with
  | group ha hs =>
    cases ht
    exact ⟨_, _, ha, hs⟩
  | bracketed ho => exact absurd ht.symm (ho _)
  | signed => exact absurd (List.cons.inj ht).1 (by decide)
  | negated => exact absurd (List.cons.inj ht).1 (by decide)
  | literal ho => exact absurd ht.symm (ho _)

theorem of_bracket {base contents u : Text} (ho : ∀ u, t ≠ '(' :: u)
    (hb : Literal.bracket? t = some (base, contents, u)) (h : Reads d .factor t e r) :
    bracket d base contents u = ⟨e, some r⟩ := by
  cases h with
  | group => exact absurd rfl (ho _)
  | bracketed _ hb' hs =>
    cases hb.symm.trans hb'
    exact hs
  | signed hb' => cases hb.symm.trans hb'
  | negated hb' => cases hb.symm.trans hb'
  | literal _ _ hb' => cases hb.symm.trans hb'

theorem of_minus (hb : Literal.bracket? ('-' :: t) = none) (h : Reads d .factor ('-' :: t) e r) :
    signedLiteral? d ('-' :: t) = some ⟨e, some r⟩ ∨
      signedLiteral? d ('-' :: t) = none ∧ ∃ a, e = .neg a ∧ Reads d .factor t a r := by
  generalize ht : '-' :: t = v at h
  cases h with
  | group => exact absurd (List.cons.inj ht).1 (by decide)
  | bracketed _ hb' =>
    rw [← ht, hb] at hb'
    cases hb'
  | signed _ hs => exact .inl hs
  | negated _ hs ha =>
    cases ht
    exact .inr ⟨hs, _, rfl, ha⟩
  | literal _ hm => exact absurd ht.symm (hm _)

theorem of_literal (ho : ∀ u, t ≠ '(' :: u) (hm : ∀ u, t ≠ '-' :: u)
    (hb : Literal.bracket? t = none) (h : Reads d .factor t e r) :
    Reading.literal d t = ⟨e, some r⟩ := by
  cases h with
  | group => exact absurd rfl (ho _)
  | bracketed _ hb' => cases hb.symm.trans hb'
  | signed => exact absurd rfl (hm _)
  | negated => exact absurd rfl (hm _)
  | literal _ _ _ hl => exact hl

end Reads

end RatCalc

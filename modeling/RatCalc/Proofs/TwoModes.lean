import RatCalc.Proofs.PlainDecimal
import RatCalc.Proofs.Widening

/-!
# Exact values and intervals

A text is read with exact values, and with every number an interval.

* `Cut`: what nothing is read from but an exponent, which leaves it stuck.
* `Wider`: two readings of a text with wider literals in the second, unless that one is stuck.
* `interval_wider`, `parallel_suffixed`, `signedLiteral?_wider`: literals with what follows them.
* `Reads.wider`: the two readings of a part of a text.
* **`valueOf_within`**: the exact value of a text lies in the interval.
-/

namespace RatCalc

open Text Reading

/-! ## Texts that are stuck -/

namespace Text.Stuck

variable {t : Text}

theorem ne_cons (h : Stuck t) {c : Char} (hc : isDecimal c = false) (h₁ : c ≠ ':')
    (h₂ : c ≠ '\x7b') (u : Text) : t ≠ c :: u := by
  obtain ⟨a, v, rfl, ha⟩ := h
  intro heq
  rw [(List.cons.inj heq).1, hc] at ha
  rcases ha with ha | ha | ha
  · exact h₁ ha
  · exact h₂ ha
  · cases ha

theorem after?_marker (h : Stuck t) (d : Dialect) : after? d.marker t = none := by
  obtain ⟨c, u, rfl, hc⟩ := id h
  refine d.after?_marker_cons (d.not_mem_marker ?_ ?_ ?_) u
  all_goals
    rintro rfl
    exact h.ne_cons (by decide) (by decide) (by decide) u rfl

theorem colon (u : Text) : Stuck (':' :: u) := ⟨':', u, rfl, .inl rfl⟩

theorem append (h : Stuck t) (u : Text) : Stuck (t ++ u) := by
  obtain ⟨c, v, rfl, hc⟩ := h
  exact ⟨c, v ++ u, rfl, hc⟩

variable {d : Dialect} {r : Text} {a e : Expr}

theorem factorial_power (h : Stuck t) (a : Expr) :
    (factorialSuffix a t).andThen id (fun e t => powerSuffix d e t) = ⟨a, some t⟩ := by
  have hne : ∀ {c : Char}, c ∈ ['!', '*', '^'] → ∀ u, t ≠ c :: u := fun hc =>
    h.ne_cons
      ((forall_of_all (by decide) : ∀ c ∈ ['!', '*', '^'], isDecimal c = false) _ hc)
      ((forall_of_all (by decide) : ∀ c ∈ ['!', '*', '^'], c ≠ ':') _ hc)
      ((forall_of_all (by decide) : ∀ c ∈ ['!', '*', '^'], c ≠ '\x7b') _ hc)
  have hf : factorialSuffix a t = ⟨a, some t⟩ := by
    rw [factorialSuffix]
    · exact fun u => hne (by decide) _
    · exact fun u => hne (by decide) _
  rw [hf]
  simp only [andThen, id]
  rw [powerSuffix]
  · exact fun u => hne (by decide) _
  · exact fun u => hne (by decide) _

/-- Nothing does something to an operand. -/
theorem suffixed (h : Stuck t) (a : Expr) : suffixed d a t = ⟨a, some t⟩ := by
  rw [suffixed_of_after? (h.after?_marker d), h.factorial_power]

theorem afterMarker? (h : Stuck t) : afterMarker? d t = none := by
  obtain ⟨c, u, rfl, -⟩ := id h
  have hc : c ≠ Dialect.spacedMark := by
    rintro rfl
    exact h.ne_cons (by decide) (by decide) (by decide) u rfl
  rw [Reading.afterMarker?, if_neg hc, h.after?_marker d]

/-- A sum ends. -/
theorem sumFrom (h : Stuck t) (hr : Reads d (.sumFrom a) t e r) : Stuck r := by
  cases hr with
  | plus => exact absurd rfl (h.ne_cons (by decide) (by decide) (by decide) _)
  | minus => exact absurd rfl (h.ne_cons (by decide) (by decide) (by decide) _)
  | sumEnd => exact h

/-- A term ends. -/
theorem termFrom (h : Stuck t) (hr : Reads d (.termFrom a) t e r) : Stuck r := by
  cases hr with
  | times => exact absurd rfl (h.ne_cons (by decide) (by decide) (by decide) _)
  | divided => exact absurd rfl (h.ne_cons (by decide) (by decide) (by decide) _)
  | scaled _ _ hm => cases h.afterMarker?.symm.trans hm
  | termEnd => exact h

end Text.Stuck

/-! ## What follows an operand -/

namespace Reading

variable {d : Dialect} {t r₁ r₂ : Text} {a b e₁ e₂ : Expr}

/-- Two readers that go on with an operand and with a wider one leave the same text. -/
def Parallel (f g : Expr → Text → Reading) : Prop :=
  ∀ ⦃a b t e₁ r₁ e₂ r₂⦄, Expr.Widens a b → f a t = ⟨e₁, some r₁⟩ → g b t = ⟨e₂, some r₂⟩ →
    r₁ = r₂ ∧ e₁.Widens e₂

theorem Parallel.andThen {f g f' g' : Expr → Text → Reading} (h : Parallel f g)
    (h' : Parallel f' g') :
    Parallel (fun a t => (f a t).andThen id f') fun a t => (g a t).andThen id g' := by
  intro a b t e₁ r₁ e₂ r₂ hab h₁ h₂
  obtain ⟨a', u, ha, h₁⟩ := andThen_eq_some.1 h₁
  obtain ⟨b', v, hb, h₂⟩ := andThen_eq_some.1 h₂
  obtain ⟨rfl, hab'⟩ := h hab ha hb
  exact h' hab' h₁ h₂

theorem raised_wider {wrap wrap' : Int → Expr} (hw : ∀ k, (wrap k).Widens (wrap' k))
    (h₁ : raised d a wrap t = ⟨e₁, some r₁⟩) (h₂ : raised d b wrap' t = ⟨e₂, some r₂⟩) :
    r₁ = r₂ ∧ e₁.Widens e₂ := by
  rw [raised] at h₁ h₂
  cases hk : d.exponent t with
  | error f =>
    rw [hk] at h₁
    cases h₁
  | ok x =>
    rw [hk] at h₁ h₂
    cases h₁
    cases h₂
    exact ⟨rfl, hw _⟩

theorem parallel_exponentSuffix (d : Dialect) :
    Parallel (exponentSuffix d) (exponentSuffix d) := by
  intro a b t e₁ r₁ e₂ r₂ hab h₁ h₂
  rw [exponentSuffix] at h₁ h₂
  split_ifs at h₁ h₂ with hf
  · exact raised_wider (fun k => .simplified (.scale k hab)) h₁ h₂
  · cases h₁
    cases h₂
    exact ⟨rfl, hab⟩

theorem parallel_factorialSuffix : Parallel factorialSuffix factorialSuffix := by
  intro a b t e₁ r₁ e₂ r₂ hab h₁ h₂
  rw [factorialSuffix.eq_def] at h₁
  split at h₁
  · cases h₁
    cases h₂
    exact ⟨rfl, .factorial true hab⟩
  · rename_i hno
    cases h₁
    rw [factorialSuffix] at h₂
    · cases h₂
      exact ⟨rfl, .factorial false hab⟩
    · exact hno
  · rename_i hno hno'
    cases h₁
    rw [factorialSuffix] at h₂
    · cases h₂
      exact ⟨rfl, hab⟩
    · exact hno
    · exact hno'

theorem parallel_powerSuffix (d : Dialect) : Parallel (powerSuffix d) (powerSuffix d) := by
  intro a b t e₁ r₁ e₂ r₂ hab h₁ h₂
  rw [powerSuffix.eq_def] at h₁
  split at h₁
  · exact raised_wider (fun k => .productPow k hab) h₁ h₂
  · exact raised_wider (fun k => .pow k hab) h₁ h₂
  · rename_i hno hno'
    cases h₁
    rw [powerSuffix] at h₂
    · cases h₂
      exact ⟨rfl, hab⟩
    · exact hno
    · exact hno'

theorem parallel_suffixed (d : Dialect) : Parallel (suffixed d) (suffixed d) :=
  (parallel_exponentSuffix d).andThen (parallel_factorialSuffix.andThen (parallel_powerSuffix d))

end Reading

/-! ## Literals -/

/-- A text from which nothing is read but an exponent, which leaves it stuck. -/
def Cut (d : Dialect) (t : Text) : Prop := ∀ ⦃a e r⦄, suffixed d a t = ⟨e, some r⟩ → Stuck r

/-- Of two readings the second is stuck, or both leave the same text and the second says a wider
expression. -/
def Wider (e₁ : Expr) (r₁ : Text) (e₂ : Expr) (r₂ : Text) : Prop :=
  Stuck r₂ ∨ r₁ = r₂ ∧ e₁.Widens e₂

theorem Text.Stuck.cut {d : Dialect} {t : Text} (h : Stuck t) : Cut d t := fun a e r hr => by
  rw [h.suffixed] at hr
  cases hr
  exact h

/-- Nothing goes on behind an exponent that a colon follows. -/
theorem suffixed_of_exponent {d : Dialect} {t u : Text} {k : Int}
    (hf : d.exponentFollows t = true)
    (hk : d.exponent (t.drop d.marker.length) = .ok (k, ':' :: u)) (a : Expr) :
    suffixed d a t = ⟨.simplified (.scale a k), some (':' :: u)⟩ := by
  have hexp : exponentSuffix d a t = ⟨.simplified (.scale a k), some (':' :: u)⟩ := by
    rw [exponentSuffix, if_pos hf, raised, hk]
  rw [suffixed, hexp]
  exact (Stuck.colon u).factorial_power (d := d) (.simplified (.scale a k))

theorem cut_of_exponent {d : Dialect} {t u : Text} {k : Int} (hf : d.exponentFollows t = true)
    (hk : d.exponent (t.drop d.marker.length) = .ok (k, ':' :: u)) : Cut d t := by
  intro a e r hr
  cases (suffixed_of_exponent hf hk a).symm.trans hr
  exact .colon u

namespace Dialect

variable {d : Dialect} {t r r₁ r₂ : Text} {a : Endpoint} {beforeColon : Bool}

/-- A number keeps its exponent, or takes it; before a colon only where the colon comes. -/
theorem scaledEndpoint_cases (h : d.scaledEndpoint beforeColon t = .ok (a, r)) :
    d.endpoint t = .ok (a, r) ∨
      ∃ e u k, d.endpoint t = .ok (e, u) ∧ d.exponentFollows u = true ∧
        d.exponent (u.drop d.marker.length) = .ok (k, r) ∧
        (beforeColon = true → ∃ v, r = ':' :: v) ∧
        a = ⟨Ratio.shift d.radix e.value k, false⟩ := by
  rw [scaledEndpoint] at h
  obtain ⟨⟨e, u⟩, he, h⟩ := bind_eq_ok.1 h
  simp only at h
  split_ifs at h with hf
  · obtain ⟨⟨k, after⟩, hk, h⟩ := bind_eq_ok.1 h
    simp only at h
    split_ifs at h with hb
    · cases h
      exact .inl he
    · cases h
      refine .inr ⟨e, u, k, he, hf, hk, fun hc => ?_, rfl⟩
      rw [hc, Bool.true_and, bne_iff_ne, ne_eq, not_not] at hb
      cases r with
      | nil => cases hb
      | cons c v => exact ⟨v, by rw [Option.some.inj hb]⟩
  · cases h
    exact .inl he

theorem single_toInterval (d : Dialect) (a : Endpoint) :
    (d.single a).number.toInterval = .point a.value := by
  rw [single, Endpoint.shown]
  split_ifs with hexact hden
  · rw [Bool.and_eq_true, decide_eq_true_eq] at hden
    exact congrArg Interval.point (Number.coe_num hden.1)
  · rfl
  · rfl

/-- The two readings of a literal: they are alike, or the second takes a plain decimal and cuts the
text there. -/
theorem interval_wider {x₁ x₂ : Value × Bool} (h₁ : (d.mode true).interval t = .ok (x₁, r₁))
    (h₂ : (d.mode false).interval t = .ok (x₂, r₂)) :
    (r₁ = r₂ ∧ x₁.2 = x₂.2 ∧ x₁.1.number.Within x₂.1.number) ∨
      ∃ negative literal places, d.plain? t = some (negative, literal, places, r₂) ∧
        x₂.2 = false ∧ Cut d r₂ := by
  rcases interval_cases h₂ with ⟨negative, literal, places, rest, y, -, hp, hy, rfl⟩ |
    ⟨-, a, u, b, ha, hb, rfl⟩ | ⟨-, a, ha, hcolon, rfl⟩
  · cases uncertain_rest (d := d) hp hy
    refine or_iff_not_imp_right.2 fun hcut => ?_
    have hcut : ¬ Cut d r₂ := fun h => hcut ⟨_, _, _, hp, rfl, h⟩
    -- the exact reading takes the number up to the same place, unless the text is cut there
    have hexact : ∀ {a r}, d.scaledEndpoint true t = .ok (a, r) →
        r = r₂ ∧ a.value ∈ y.toInterval := fun {a r} ha => by
      rcases scaledEndpoint_cases ha with he | ⟨e, u, k, he, hf, hk, hc, -⟩
      · exact (uncertain_mem hp hy he).resolve_left fun h => hcut h.cut
      · obtain ⟨hu, -⟩ := (uncertain_mem hp hy he).resolve_left fun h => hcut h.cut
        obtain ⟨v, rfl⟩ := hc rfl
        rw [hu] at hf hk
        exact absurd (cut_of_exponent hf hk) hcut
    rcases interval_cases h₁ with ⟨_, _, _, _, _, hno, -⟩ | ⟨-, a, u, b, ha, -, -⟩ |
      ⟨-, a, ha, hcolon, rfl⟩
    · cases hno
    · obtain ⟨rfl, -⟩ := hexact ha
      exact absurd (Stuck.colon u).cut hcut
    · obtain ⟨rfl, hmem⟩ := hexact ha
      refine ⟨rfl, rfl, ?_⟩
      rw [Number.Within, single_toInterval]
      exact Interval.point_subset_iff.2 hmem
  · rcases interval_cases h₁ with ⟨_, _, _, _, _, hno, -⟩ | ⟨-, a', u', b', ha', hb', rfl⟩ |
      ⟨-, a', ha', hcolon, -⟩
    · cases hno
    · cases ha.symm.trans ha'
      cases hb.symm.trans hb'
      exact .inl ⟨rfl, rfl, Interval.subset_refl _⟩
    · cases ha.symm.trans ha'
      exact absurd rfl (hcolon u)
  · rcases interval_cases h₁ with ⟨_, _, _, _, _, hno, -⟩ | ⟨-, a', u', b', ha', -, -⟩ |
      ⟨-, a', ha', -, rfl⟩
    · cases hno
    · cases ha.symm.trans ha'
      exact absurd rfl (hcolon u')
    · cases ha.symm.trans ha'
      refine .inl ⟨rfl, rfl, ?_⟩
      rw [Number.Within, single_toInterval, single_toInterval]
      exact Interval.subset_refl _

theorem plain?_minus (d : Dialect) {t : Text} (h : ∀ u, t ≠ '-' :: u) :
    d.plain? ('-' :: t) = (d.plain? t).map fun x => (true, x.2) := by
  have hm : minus ('-' :: t) = (true, t) := rfl
  rw [plain?_eq, plain?_eq, hm, minus_of_ne h]
  simp only
  split
  · split_ifs <;> rfl
  · rfl

end Dialect

namespace Reading

variable {d : Dialect} {t r r₁ r₂ : Text} {e e₁ e₂ : Expr}

theorem literal_wider (h₁ : literal (d.mode true) t = ⟨e₁, some r₁⟩)
    (h₂ : literal (d.mode false) t = ⟨e₂, some r₂⟩) : Wider e₁ r₁ e₂ r₂ := by
  rw [literal] at h₁ h₂
  split at h₁
  · rename_i hi₁
    split at h₂
    · rename_i hi₂
      rcases Dialect.interval_wider hi₁ hi₂ with ⟨rfl, -, hw⟩ | ⟨_, _, _, -, -, hcut⟩
      · exact .inr (parallel_suffixed d (.literal hw) h₁ h₂)
      · exact .inl (hcut h₂)
    · cases h₂
  · cases h₁

theorem bracket_wider {base contents : Text}
    (h₁ : bracket (d.mode true) base contents t = ⟨e₁, some r₁⟩)
    (h₂ : bracket (d.mode false) base contents t = ⟨e₂, some r₂⟩) : r₁ = r₂ ∧ e₁.Widens e₂ := by
  change bracket d base contents t = _ at h₁ h₂
  rw [bracket] at h₁ h₂
  split_ifs at h₁ h₂
  · cases h₁
  split at h₁
  · rename_i i hi
    rw [hi] at h₂
    exact parallel_suffixed d (.simplified (.literal (Interval.subset_refl _))) h₁ h₂
  · cases h₁

/-- Whether a minus sign begins a continued fraction. -/
def SignsFraction (d : Dialect) (t : Text) : Prop :=
  (d.system.isNone && (Dialect.continuedFraction? ('-' :: t)).isSome) = true

/-- Whether a digit or a point stands behind a minus sign. -/
def SignsNumber (d : Dialect) (t : Text) : Prop :=
  (t.head?.any fun c => d.isDigit c || c = '.') = true

theorem signedLiteral?_of_fraction (hf : SignsFraction d t) :
    signedLiteral? d ('-' :: t) = some (literal d ('-' :: t)) :=
  if_pos hf

theorem signedLiteral?_of_number (hf : ¬ SignsFraction d t) (hn : SignsNumber d t) :
    signedLiteral? d ('-' :: t) = match d.interval ('-' :: t) with
      | .ok ((v, true), rest) => some (suffixed d (.literal v) rest)
      | .ok ((_, false), _) => none
      | .error f => some (stop f) :=
  (if_neg hf).trans (if_pos hn)

theorem signedLiteral?_of_other (hf : ¬ SignsFraction d t) (hn : ¬ SignsNumber d t) :
    signedLiteral? d ('-' :: t) = none :=
  (if_neg hf).trans (if_neg hn)

/-- What a minus sign begins is a continued fraction, or the interval of two numbers. -/
theorem signed_cases (h : signedLiteral? d ('-' :: t) = some ⟨e, some r⟩) :
    (SignsFraction d t ∧ literal d ('-' :: t) = ⟨e, some r⟩) ∨
      (¬ SignsFraction d t ∧ SignsNumber d t ∧ ∃ v u, d.interval ('-' :: t) = .ok ((v, true), u) ∧
        suffixed d (.literal v) u = ⟨e, some r⟩) := by
  by_cases hf : SignsFraction d t
  · rw [signedLiteral?_of_fraction hf] at h
    exact .inl ⟨hf, Option.some.inj h⟩
  by_cases hn : SignsNumber d t
  · rw [signedLiteral?_of_number hf hn] at h
    split at h
    · exact .inr ⟨hf, hn, _, _, by assumption, Option.some.inj h⟩
    · cases h
    · cases h
  · rw [signedLiteral?_of_other hf hn] at h
    cases h

/-- What a minus sign negates is no continued fraction, and no interval of two numbers. -/
theorem negated_cases (h : signedLiteral? d ('-' :: t) = none) :
    ¬ SignsFraction d t ∧
      (SignsNumber d t → ∃ v u, d.interval ('-' :: t) = .ok ((v, false), u)) := by
  have hf : ¬ SignsFraction d t := fun hf => by
    rw [signedLiteral?_of_fraction hf] at h
    cases h
  refine ⟨hf, fun hn => ?_⟩
  rw [signedLiteral?_of_number hf hn] at h
  split at h
  · cases h
  · exact ⟨_, _, by assumption⟩
  · cases h

theorem signedLiteral?_wider (h₁ : signedLiteral? (d.mode true) ('-' :: t) = some ⟨e₁, some r₁⟩)
    (h₂ : signedLiteral? (d.mode false) ('-' :: t) = some ⟨e₂, some r₂⟩) :
    Wider e₁ r₁ e₂ r₂ := by
  rcases signed_cases h₂ with ⟨hf, h₂⟩ | ⟨hf, -, v₂, u₂, hi₂, h₂⟩
  · rcases signed_cases h₁ with ⟨-, h₁⟩ | ⟨hf', -⟩
    · exact literal_wider h₁ h₂
    · exact absurd hf hf'
  · rcases signed_cases h₁ with ⟨hf', -⟩ | ⟨-, -, v₁, u₁, hi₁, h₁⟩
    · exact absurd hf' hf
    · rcases Dialect.interval_wider hi₁ hi₂ with ⟨rfl, -, hw⟩ | ⟨_, _, _, -, hpair, -⟩
      · exact .inr (parallel_suffixed d (.literal hw) h₁ h₂)
      · cases hpair

/-- What is negated with exact values is negated with intervals. -/
theorem not_signed_of_negated (h₁ : signedLiteral? (d.mode true) ('-' :: t) = none) :
    signedLiteral? (d.mode false) ('-' :: t) ≠ some ⟨e₂, some r₂⟩ := by
  intro h₂
  obtain ⟨hf, hsingle⟩ := negated_cases h₁
  rcases signed_cases h₂ with ⟨hf', -⟩ | ⟨-, hn, v₂, u₂, hi₂, -⟩
  · exact hf hf'
  · obtain ⟨v₁, u₁, hi₁⟩ := hsingle hn
    rcases Dialect.interval_wider hi₁ hi₂ with ⟨-, hpair, -⟩ | ⟨_, _, _, -, hpair, -⟩
    · cases hpair
    · cases hpair

/-- A plain decimal before a cut leaves the text stuck. -/
theorem stuck_of_plain {negative : Bool} {literal u : Text} {places : Nat}
    (hp : d.plain? t = some (negative, literal, places, u)) (hcut : Cut d u)
    (h : Reading.literal (d.mode false) t = ⟨e, some r⟩) : Stuck r := by
  rw [Reading.literal] at h
  split at h
  · rename_i hi
    rcases Dialect.interval_cases hi with ⟨_, _, _, rest, y, -, hp', hy, -⟩ |
      ⟨hcert, -⟩ | ⟨hcert, -⟩
    · cases hp.symm.trans hp'
      cases Dialect.uncertain_rest (d := d) hp hy
      exact hcut h
    · exact hcert.absurd rfl hp
    · exact hcert.absurd rfl hp
  · cases h

end Reading

/-! ## Parts of texts -/

/-- The parts that come after an expression that was read, and after a wider one. -/
inductive Part.Widens : Part → Part → Prop where
  | sum : Widens .sum .sum
  | sumFrom {a b : Expr} : a.Widens b → Widens (.sumFrom a) (.sumFrom b)
  | term : Widens .term .term
  | termFrom {a b : Expr} : a.Widens b → Widens (.termFrom a) (.termFrom b)
  | factor : Widens .factor .factor

namespace Reads

variable {d : Dialect} {t r r₁ r₂ : Text} {e e₁ e₂ : Expr}

theorem bracket?_of_minus (hm : ∀ u, t ≠ '-' :: u) (hb : Literal.bracket? ('-' :: t) = none) :
    Literal.bracket? t = none := by
  have hs : Text.minus ('-' :: t) = (true, t) := rfl
  rw [bracket?_eq, hs, Option.map_eq_none_iff] at hb
  rw [bracket?_eq, minus_of_ne hm, hb]
  rfl

/-- Where a minus sign begins an interval with exact values, and something else with intervals, the
second reading is stuck. -/
theorem stuck_of_signed (hb : Literal.bracket? ('-' :: t) = none)
    (h₁ : signedLiteral? (d.mode true) ('-' :: t) = some ⟨e₁, some r₁⟩)
    (h₂ : signedLiteral? (d.mode false) ('-' :: t) = none)
    (h : Reads (d.mode false) .factor t e r) : Stuck r := by
  obtain ⟨hf, hsingle⟩ := negated_cases h₂
  rcases signed_cases h₁ with ⟨hf', -⟩ | ⟨-, hn, v₁, u₁, hi₁, -⟩
  · exact absurd hf' hf
  · have hno : ∀ {c : Char}, c ≠ '.' → d.isDigit c = false → ∀ u, t ≠ c :: u := by
      rintro c hp hc u rfl
      have hn : (d.isDigit c || decide (c = '.')) = true := hn
      rw [hc, Bool.false_or, decide_eq_true_eq] at hn
      exact hp hn
    have hm : ∀ u, t ≠ '-' :: u := hno (by decide) (d.isDigit_of_reserved (by decide))
    have ho : ∀ u, t ≠ '(' :: u := hno (by decide) (d.isDigit_of_reserved (by decide))
    obtain ⟨v₂, u₂, hi₂⟩ := hsingle hn
    rcases Dialect.interval_wider hi₁ hi₂ with ⟨-, hpair, -⟩ | ⟨_, _, _, hp, -, hcut⟩
    · cases hpair
    · rw [d.plain?_minus hm] at hp
      obtain ⟨⟨_, _, _, _⟩, hp, heq⟩ := Option.map_eq_some_iff.1 hp
      cases heq
      exact stuck_of_plain hp hcut (h.of_literal ho hm (bracket?_of_minus hm hb))

/-- **The two readings of a part of a text.** -/
theorem wider {p q : Part} (hpq : p.Widens q) (h₁ : Reads (d.mode true) p t e₁ r₁)
    (h₂ : Reads (d.mode false) q t e₂ r₂) : Wider e₁ r₁ e₂ r₂ := by
  induction h₂ generalizing p e₁ r₁ with
  | sum _ hs iht ihs =>
    cases hpq
    cases h₁ with
    | sum h₁t h₁s =>
      rcases iht .term h₁t with hu | ⟨rfl, ha⟩
      · exact .inl (hu.sumFrom hs)
      · exact ihs (.sumFrom ha) h₁s
  | plus _ hs iht ihs =>
    cases hpq with
    | sumFrom ha =>
      obtain ⟨b, u, h₁t, h₁s⟩ := h₁.of_plus
      rcases iht .term h₁t with hu | ⟨rfl, hb⟩
      · exact .inl (hu.sumFrom hs)
      · exact ihs (.sumFrom (.add ha hb)) h₁s
  | minus _ hs iht ihs =>
    cases hpq with
    | sumFrom ha =>
      obtain ⟨b, u, h₁t, h₁s⟩ := h₁.of_sumMinus
      rcases iht .term h₁t with hu | ⟨rfl, hb⟩
      · exact .inl (hu.sumFrom hs)
      · exact ihs (.sumFrom (.sub ha hb)) h₁s
  | sumEnd hp hm =>
    cases hpq with
    | sumFrom ha =>
      obtain ⟨rfl, rfl⟩ := h₁.of_sumEnd hp hm
      exact .inr ⟨rfl, .simplified ha⟩
  | term _ hs iht ihs =>
    cases hpq
    cases h₁ with
    | term h₁t h₁s =>
      rcases iht .factor h₁t with hu | ⟨rfl, ha⟩
      · exact .inl (hu.termFrom hs)
      · exact ihs (.termFrom ha) h₁s
  | times _ hs iht ihs =>
    cases hpq with
    | termFrom ha =>
      obtain ⟨b, u, h₁t, h₁s⟩ := h₁.of_times
      rcases iht .factor h₁t with hu | ⟨rfl, hb⟩
      · exact .inl (hu.termFrom hs)
      · exact ihs (.termFrom (.simplified (.mul ha hb))) h₁s
  | divided _ hs iht ihs =>
    cases hpq with
    | termFrom ha =>
      obtain ⟨b, u, h₁t, h₁s⟩ := h₁.of_divided
      rcases iht .factor h₁t with hu | ⟨rfl, hb⟩
      · exact .inl (hu.termFrom hs)
      · exact ihs (.termFrom (.simplified (.div ha hb))) h₁s
  | scaled ht ho hm _ hs iht ihs =>
    cases hpq with
    | termFrom ha =>
      obtain ⟨b, u, h₁t, h₁s⟩ := of_scaled (d := d.mode true) ht ho hm h₁
      rcases iht .factor h₁t with hu | ⟨rfl, hb⟩
      · exact .inl (hu.termFrom hs)
      · exact ihs (.termFrom (.simplified (.scaleBy ha hb))) h₁s
  | termEnd ht ho hm =>
    cases hpq with
    | termFrom ha =>
      obtain ⟨rfl, rfl⟩ := of_termEnd (d := d.mode true) ht ho hm h₁
      exact .inr ⟨rfl, ha⟩
  | group _ hs ih =>
    cases hpq
    obtain ⟨a, u, h₁s, hs₁⟩ := h₁.of_open
    rcases ih .sum h₁s with hu | ⟨hu, ha⟩
    · exact absurd rfl (hu.ne_cons (by decide) (by decide) (by decide) _)
    · cases hu
      exact .inr (parallel_suffixed d ha hs₁ hs)
  | bracketed ho hb hs =>
    cases hpq
    exact .inr (bracket_wider (h₁.of_bracket ho hb) hs)
  | signed hb hs =>
    cases hpq
    rcases h₁.of_minus hb with hs₁ | ⟨hs₁, -⟩
    · exact signedLiteral?_wider hs₁ hs
    · exact absurd hs (not_signed_of_negated hs₁)
  | negated hb hs ha ih =>
    cases hpq
    rcases h₁.of_minus hb with hs₁ | ⟨-, a, rfl, h₁f⟩
    · exact .inl (stuck_of_signed hb hs₁ hs ha)
    · exact (ih .factor h₁f).imp_right fun ⟨hr, ha⟩ => ⟨hr, .neg ha⟩
  | literal ho hm hb hl =>
    cases hpq
    exact literal_wider (h₁.of_literal ho hm hb) hl

end Reads

/-- **The exact value of a text lies in the interval** that it has where every number is one. -/
theorem Expr.valueOf_within (d : Dialect) (t : Text) {v w : Value}
    (hv : valueOf (d.mode true) t = .ok v) (hw : valueOf (d.mode false) t = .ok w) :
    v.number.toInterval ⊆ w.number.toInterval := by
  obtain ⟨e₁, h₁, hv⟩ := valueOf_eq_ok_iff.1 hv
  obtain ⟨e₂, h₂, hw⟩ := valueOf_eq_ok_iff.1 hw
  rcases h₁.wider .sum h₂ with ⟨_, _, hr, -⟩ | ⟨-, he⟩
  · cases hr
  · exact he.eval hv hw

theorem Expr.difference_within :
    valueOf (Dialect.mode ⟨true, none, .initial⟩ true) ['1', '.', '5', '-', '0', '.', '5'] =
        .ok (.plain (.integer 1)) ∧
      valueOf (Dialect.mode ⟨true, none, .initial⟩ false) ['1', '.', '5', '-', '0', '.', '5'] =
        .ok (.plain (.interval (.hull (mkRat 9 10) (mkRat 11 10)))) ∧
      Interval.point 1 ⊆ Interval.hull (mkRat 9 10) (mkRat 11 10) := by
  have hv : valueOf (Dialect.mode ⟨true, none, .initial⟩ true) ['1', '.', '5', '-', '0', '.', '5'] =
      .ok (.plain (.integer 1)) := by with_unfolding_all decide
  have hw : valueOf (Dialect.mode ⟨true, none, .initial⟩ false)
      ['1', '.', '5', '-', '0', '.', '5'] =
        .ok (.plain (.interval (.hull (mkRat 9 10) (mkRat 11 10)))) := by with_unfolding_all decide
  exact ⟨hv, hw, valueOf_within ⟨true, none, .initial⟩ _ hv hw⟩

end RatCalc

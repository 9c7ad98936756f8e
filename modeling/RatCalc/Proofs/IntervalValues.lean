import RatCalc.Proofs.Levels
import RatCalc.Proofs.TwoModes

/-!
# Values where every number is an interval

* `Expr.GivesIntervals`: an expression has no value that is a single number.
* `GivesIntervals.operation` to `GivesIntervals.productPow`: every operation keeps that.
* `level_interval`, `suffixed_givesIntervals`: literals, and what follows an operand.
* **`Reads.givesIntervals`**: whatever is read gives intervals, if what was read before does.
* **`Expr.level_valueOf`**: the value of a text is an interval.
-/

namespace RatCalc

open Text Reading

/-! ## Operations -/

namespace Number

variable {x z : Number}

theorem exists_of_level_two (h : x.level = 2) : ∃ i, x = interval i := by
  cases x with
  | interval i => exact ⟨i, rfl⟩
  | integer n | rational a => cases h

theorem level_mul_two (hx : x.level = 2) (y : Number) : (x.mul y).level = 2 := by
  rw [mul, level_combine, hx, Nat.max_eq_left y.level_le_two]

theorem level_onNumbers_two {o : Operation} (hx : x.level = 2) {y : Number}
    (h : o.onNumbers x y = .ok z) : z.level = 2 := by
  obtain ⟨i, rfl⟩ := exists_of_level_two hx
  rw [Operand.level_onNumbers h]
  cases o <;> exact Nat.max_eq_left y.level_le_two

theorem level_pow_two (hx : x.level = 2) {k : Int} (h : x.pow k = .ok z) : z.level = 2 := by
  rw [level_pow h, hx]
  exact ite_self _

theorem level_factorial_two (hx : x.level = 2) {double : Bool} (h : x.factorial double = .ok z) :
    z.level = 2 := by
  obtain ⟨i, rfl⟩ := exists_of_level_two hx
  rw [factorial] at h
  split_ifs at h
  obtain ⟨n, -, rfl⟩ := exists_of_map_eq_ok h
  rfl

end Number

namespace Dialect

variable {d : Dialect} {x : Number}

theorem level_scale_two (d : Dialect) (hx : x.level = 2) (k : Int) : (d.scale x k).level = 2 := by
  rw [scale]
  split
  · exact Number.level_mul_two hx _
  · rw [Number.level_shift, hx]
    exact ite_self _

theorem negate_of_intervals (hd : d.exact = false) (v : Value) :
    d.negate v = .plain ((Number.interval (.point (-1))).mul v.number) := by
  rw [negate, hd]

end Dialect

/-! ## Expressions -/

namespace Expr

/-- An expression has no value that is a single number. -/
def GivesIntervals (d : Dialect) (e : Expr) : Prop :=
  ∀ v, e.eval d = .ok v → v.number.level = 2

namespace GivesIntervals

variable {d : Dialect} {a e : Expr}

theorem literal {v : Value} (h : v.number.level = 2) : (Expr.literal v).GivesIntervals d := by
  intro w hw
  cases hw
  exact h

/-- An expression that evaluates another one first gives intervals, if it makes intervals of
those. -/
theorem operation {f : Value → Except Failure Value} (ha : a.GivesIntervals d)
    (he : e.eval d = (do f (← a.eval d)))
    (hf : ∀ v w, v.number.level = 2 → f v = .ok w → w.number.level = 2) : e.GivesIntervals d := by
  intro w hw
  rw [he] at hw
  obtain ⟨v, hv, hw⟩ := bind_eq_ok.1 hw
  exact hf v w (ha v hv) hw

/-- So does an operation of two expressions, the first of which gives intervals. -/
theorem operator (o : Operation) (ha : a.GivesIntervals d) (b : Expr)
    (he : e.eval d = (do
      let x ← a.eval d
      let y ← b.eval d
      return .plain (← o.onNumbers x.number y.number))) : e.GivesIntervals d := by
  refine ha.operation he fun v w hv hw => ?_
  obtain ⟨y, -, hw⟩ := bind_eq_ok.1 hw
  obtain ⟨z, hz, hw⟩ := bind_eq_ok.1 hw
  cases hw
  exact Number.level_onNumbers_two hv hz

theorem add (ha : a.GivesIntervals d) (b : Expr) : (Expr.add a b).GivesIntervals d :=
  operator .add ha b (by rw [eval]; rfl)

theorem sub (ha : a.GivesIntervals d) (b : Expr) : (Expr.sub a b).GivesIntervals d :=
  operator .sub ha b (by rw [eval]; rfl)

theorem mul (ha : a.GivesIntervals d) (b : Expr) : (Expr.mul a b).GivesIntervals d :=
  operator .mul ha b (by rw [eval]; rfl)

theorem div (ha : a.GivesIntervals d) (b : Expr) : (Expr.div a b).GivesIntervals d :=
  operator .div ha b (by rw [eval]; rfl)

theorem scaleBy (ha : a.GivesIntervals d) (b : Expr) : (Expr.scaleBy a b).GivesIntervals d := by
  refine ha.operation (by rw [eval]) fun v w hv hw => ?_
  obtain ⟨y, -, hw⟩ := bind_eq_ok.1 hw
  split at hw
  · cases hw
    exact d.level_scale_two hv _
  · cases hw

theorem scale (ha : a.GivesIntervals d) (k : Int) : (Expr.scale a k).GivesIntervals d := by
  refine ha.operation (by rw [eval]) fun v w hv hw => ?_
  cases hw
  exact d.level_scale_two hv k

theorem neg (hd : d.exact = false) (a : Expr) : (Expr.neg a).GivesIntervals d := by
  intro w hw
  rw [eval] at hw
  obtain ⟨v, -, hw⟩ := bind_eq_ok.1 hw
  cases hw
  rw [Dialect.negate_of_intervals hd]
  exact Number.level_mul_two (x := .interval (.point (-1))) rfl v.number

theorem factorial (ha : a.GivesIntervals d) (double : Bool) :
    (Expr.factorial double a).GivesIntervals d := by
  refine ha.operation (by rw [eval]) fun v w hv hw => ?_
  obtain ⟨z, hz, hw⟩ := bind_eq_ok.1 hw
  cases hw
  exact Number.level_factorial_two hv hz

theorem pow (ha : a.GivesIntervals d) (k : Int) : (Expr.pow a k).GivesIntervals d := by
  refine ha.operation (by rw [eval]) fun v w hv hw => ?_
  obtain ⟨z, hz, hw⟩ := bind_eq_ok.1 hw
  cases hw
  exact Number.level_pow_two hv hz

theorem productPow (a : Expr) (k : Int) : (Expr.productPow a k).GivesIntervals d := by
  intro w hw
  rw [eval] at hw
  obtain ⟨v, -, hw⟩ := bind_eq_ok.1 hw
  obtain ⟨z, hz, hw⟩ := bind_eq_ok.1 hw
  cases hw
  obtain ⟨i, -, rfl⟩ := Number.exists_of_map_eq_ok hz
  rfl

theorem simplified (hd : d.exact = false) (ha : a.GivesIntervals d) :
    (Expr.simplified a).GivesIntervals d := by
  refine ha.operation (by rw [eval]) fun v w hv hw => ?_
  cases hw
  rwa [Dialect.simplify, hd]

end GivesIntervals

end Expr

/-! ## Literals, and what follows an operand -/

section

variable {d : Dialect} {a e : Expr} {t r : Text}

theorem level_uncertain {negative : Bool} {literal rest : Text} {places : Nat} {y : Number}
    (hp : d.plain? t = some (negative, literal, places, rest))
    (h : d.uncertain t negative literal places rest = .ok (y, r)) : y.level = 2 := by
  obtain ⟨w, f, hplain, rfl, -⟩ := Dialect.exists_plainDecimal hp
  cases hs : d.system with
  | none =>
    rw [hplain.uncertain_of_none hs] at h
    cases h
    rfl
  | some s =>
    rw [Dialect.uncertain, hs] at h
    obtain ⟨x, -, h⟩ := bind_eq_ok.1 h
    cases h
    rfl

theorem level_interval (hd : d.exact = false) {x : Value × Bool} (h : d.interval t = .ok (x, r)) :
    x.1.number.level = 2 := by
  rcases Dialect.interval_cases h with ⟨_, _, _, _, y, -, hp, hy, rfl⟩ | ⟨-, b, u, c, -, -, rfl⟩ |
    ⟨-, b, -, -, rfl⟩
  · exact level_uncertain hp hy
  · rfl
  · rw [Dialect.single, hd]
    rfl

theorem raised_givesIntervals {wrap : Int → Expr} (hw : ∀ k, (wrap k).GivesIntervals d)
    (h : raised d a wrap t = ⟨e, some r⟩) : e.GivesIntervals d := by
  rw [raised] at h
  split at h
  · cases h
    exact hw _
  · cases h

theorem exponentSuffix_givesIntervals (hd : d.exact = false) (ha : a.GivesIntervals d)
    (h : exponentSuffix d a t = ⟨e, some r⟩) : e.GivesIntervals d := by
  rw [exponentSuffix] at h
  split_ifs at h
  · exact raised_givesIntervals (fun k => (ha.scale k).simplified hd) h
  · cases h
    exact ha

theorem factorialSuffix_givesIntervals (ha : a.GivesIntervals d)
    (h : factorialSuffix a t = ⟨e, some r⟩) : e.GivesIntervals d := by
  rw [factorialSuffix.eq_def] at h
  split at h
  · cases h
    exact ha.factorial true
  · cases h
    exact ha.factorial false
  · cases h
    exact ha

theorem powerSuffix_givesIntervals (ha : a.GivesIntervals d)
    (h : powerSuffix d a t = ⟨e, some r⟩) : e.GivesIntervals d := by
  rw [powerSuffix.eq_def] at h
  split at h
  · exact raised_givesIntervals (.productPow a) h
  · exact raised_givesIntervals ha.pow h
  · cases h
    exact ha

theorem suffixed_givesIntervals (hd : d.exact = false) (ha : a.GivesIntervals d)
    (h : suffixed d a t = ⟨e, some r⟩) : e.GivesIntervals d := by
  obtain ⟨b, u, hb, h⟩ := andThen_eq_some.1 h
  obtain ⟨c, v, hc, h⟩ := andThen_eq_some.1 h
  have hb := exponentSuffix_givesIntervals hd ha hb
  have hc := factorialSuffix_givesIntervals hb hc
  exact powerSuffix_givesIntervals hc h

theorem literal_givesIntervals (hd : d.exact = false) (h : literal d t = ⟨e, some r⟩) :
    e.GivesIntervals d := by
  rw [literal] at h
  split at h
  · rename_i hi
    exact suffixed_givesIntervals hd (.literal (level_interval hd hi)) h
  · cases h

theorem bracket_givesIntervals (hd : d.exact = false) {base contents : Text}
    (h : bracket d base contents t = ⟨e, some r⟩) : e.GivesIntervals d := by
  rw [bracket] at h
  split_ifs at h
  · cases h
  split at h
  · exact suffixed_givesIntervals hd (.simplified hd (.literal rfl)) h
  · cases h

theorem signed_givesIntervals (hd : d.exact = false)
    (h : signedLiteral? d ('-' :: t) = some ⟨e, some r⟩) : e.GivesIntervals d := by
  rcases signed_cases h with ⟨-, hl⟩ | ⟨-, -, v, u, hi, hs⟩
  · exact literal_givesIntervals hd hl
  · exact suffixed_givesIntervals hd (.literal (level_interval hd hi)) hs

end

/-! ## Parts of texts -/

/-- What was read before a part gives intervals. -/
def Part.FollowsIntervals (d : Dialect) : Part → Prop
  | sumFrom a | termFrom a => a.GivesIntervals d
  | sum | term | factor => True

/-- **Whatever is read gives intervals**, if what was read before does. -/
theorem Reads.givesIntervals {d : Dialect} (hd : d.exact = false) {part : Part} {t r : Text}
    {e : Expr} (h : Reads d part t e r) (hp : part.FollowsIntervals d) : e.GivesIntervals d := by
  induction h with
  | sum _ _ ih₁ ih₂ => exact ih₂ (ih₁ trivial)
  | plus _ _ _ ih₂ => exact ih₂ (hp.add _)
  | minus _ _ _ ih₂ => exact ih₂ (hp.sub _)
  | sumEnd => exact hp.simplified hd
  | term _ _ ih₁ ih₂ => exact ih₂ (ih₁ trivial)
  | times _ _ _ ih₂ => exact ih₂ ((hp.mul _).simplified hd)
  | divided _ _ _ ih₂ => exact ih₂ ((hp.div _).simplified hd)
  | scaled _ _ _ _ _ _ ih₂ => exact ih₂ ((hp.scaleBy _).simplified hd)
  | termEnd => exact hp
  | group _ hs ih => exact suffixed_givesIntervals hd (ih trivial) hs
  | bracketed _ _ hs => exact bracket_givesIntervals hd hs
  | signed _ hs => exact signed_givesIntervals hd hs
  | negated => exact .neg hd _
  | literal _ _ _ hl => exact literal_givesIntervals hd hl

/-- **The value of a text is an interval** where every number is one. -/
theorem Expr.level_valueOf {d : Dialect} (hd : d.exact = false) {t : Text} {v : Value}
    (h : valueOf d t = .ok v) : v.number.level = 2 := by
  obtain ⟨e, he, hv⟩ := valueOf_eq_ok_iff.1 h
  exact he.givesIntervals hd trivial v hv

end RatCalc

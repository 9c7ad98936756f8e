import RatCalc.Operand.Arithmetic
import RatCalc.Proofs.Widening

/-!
# Operators and levels

The operators find the kind of their result from the kinds of both operands; the operations on levels
first bring both operands to the higher level.

* `Number.addLevelled_eq` to `Number.divLevelled_eq`: both are the same operations.
* `Number.level_combine`, `Number.level_div`, `Number.level_pow`, `Number.level_shift`: the level of
  a result.
* `Number.pow_eq_ok_iff`: a number has the powers of its interval.
* **`Operand.levels_agree`**: operands of the tower.
-/

namespace RatCalc

open RatCalc.Interval

/-- The four operations of two operands. -/
inductive Operation where
  | add
  | sub
  | mul
  | div
  deriving DecidableEq, Repr

namespace Operation

/-- The operation as an operator. -/
def operator : Operation → Operand → Operand → Except Failure Operand
  | add => Operand.add
  | sub => Operand.sub
  | mul => Operand.mul
  | div => Operand.div

/-- The operation that first brings both operands to the higher of their levels. -/
def levelled : Operation → Operand → Operand → Except Failure Operand
  | add => Operand.levelled fun x y => .ok (x.addLevelled y)
  | sub => Operand.levelled fun x y => .ok (x.subLevelled y)
  | mul => Operand.levelled fun x y => .ok (x.mulLevelled y)
  | div => Operand.levelled Number.divLevelled

/-- The operation of numbers. -/
def onNumbers : Operation → Number → Number → Except Failure Number
  | add => fun x y => .ok (x.add y)
  | sub => fun x y => .ok (x.sub y)
  | mul => fun x y => .ok (x.mul y)
  | div => Number.div

/-- The operation of intervals. -/
def onIntervals : Operation → Interval → Interval → Except Failure Interval
  | add => fun i j => .ok (i.add j)
  | sub => fun i j => .ok (i.sub j)
  | mul => fun i j => .ok (i.mul j)
  | div => Interval.div

/-- The level of a result: the higher one of the operands, but a quotient of integers is an integer
only if the divisor divides the dividend. -/
def resultLevel : Operation → Number → Number → Nat
  | div, .integer a, .integer b => if b ∣ a then 0 else 1
  | _, x, y => max x.level y.level

end Operation

namespace Number

variable {x y z : Number} {k : Int}

/-! ## Both operands at one level -/

theorem combine_atCommonLevel {f : Int → Int → Int} {g : Rat → Rat → Rat}
    {h : Interval → Interval → Interval} (x y : Number) :
    combine f g h (atCommonLevel x y).1 (atCommonLevel x y).2 = combine f g h x y := by
  cases x <;> cases y <;> rfl

theorem addLevelled_eq (x y : Number) : x.addLevelled y = x.add y := combine_atCommonLevel x y

theorem subLevelled_eq (x y : Number) : x.subLevelled y = x.sub y := combine_atCommonLevel x y

theorem mulLevelled_eq (x y : Number) : x.mulLevelled y = x.mul y := combine_atCommonLevel x y

theorem divLevelled_eq (x y : Number) : x.divLevelled y = x.div y := by
  cases x <;> cases y <;> rfl

/-! ## The level of a result -/

theorem level_le_two (x : Number) : x.level ≤ 2 := by cases x <;> simp only [level] <;> omega

theorem level_combine {f : Int → Int → Int} {g : Rat → Rat → Rat}
    {h : Interval → Interval → Interval} (x y : Number) :
    (combine f g h x y).level = max x.level y.level := by
  cases x <;> cases y <;> rfl

theorem level_neg (x : Number) : x.neg.level = x.level := by cases x <;> rfl

theorem level_divIntegers {a b : Int} (h : divIntegers a b = .ok z) :
    z.level = if b ∣ a then 0 else 1 := by
  rw [divIntegers] at h
  split_ifs at h with hb hm
  · cases h
    rw [if_pos (Int.dvd_of_emod_eq_zero hm)]
    rfl
  · cases h
    rw [if_neg fun hd => hm (Int.emod_eq_zero_of_dvd hd)]
    rfl

/-- The level of a quotient. -/
theorem level_div (h : x.div y = .ok z) : z.level = Operation.div.resultLevel x y := by
  cases x with
  | integer a =>
    cases y with
    | integer b => exact level_divIntegers h
    | rational b | interval j =>
      obtain ⟨r, -, rfl⟩ := exists_of_map_eq_ok h
      rfl
  | rational a | interval i =>
    cases y <;>
    · obtain ⟨r, -, rfl⟩ := exists_of_map_eq_ok h
      rfl

/-- The level of a power: that of the base, but at least that of rational numbers if the exponent is
negative. -/
theorem level_pow (h : x.pow k = .ok z) :
    z.level = if k < 0 then max 1 x.level else x.level := by
  cases x with
  | integer n =>
    rw [pow, powInteger] at h
    split_ifs at h with hk hn hneg hn
    · cases h
      rw [hk]
      rfl
    · cases h
      rw [if_pos hneg]
      rfl
    · cases h
      rw [if_neg hneg]
      rfl
  | rational a =>
    obtain ⟨r, -, rfl⟩ := exists_of_map_eq_ok h
    exact (ite_self _).symm
  | interval i =>
    obtain ⟨r, -, rfl⟩ := exists_of_map_eq_ok h
    exact (ite_self _).symm

theorem level_shift (x : Number) (k : Int) :
    (x.shift k).level = if k < 0 then max 1 x.level else x.level := by
  cases x with
  | integer n =>
    rw [shift]
    split_ifs with hk hneg hneg
    · omega
    · rfl
    · rfl
    · omega
  | rational a => exact (ite_self _).symm
  | interval i => exact (ite_self _).symm

/-! ## The same operation on intervals -/

theorem toInterval_neg (x : Number) : x.neg.toInterval = x.toInterval.neg := by
  cases x with
  | integer n =>
    refine Eq.trans (congrArg point ?_) (hull_refl _).symm
    exact Int.cast_neg n
  | rational a => exact (hull_refl _).symm
  | interval i => rfl

/-- A number has no power only if its interval has none. -/
theorem exists_pow_of_interval (h : ∃ r, x.toInterval.pow k = .ok r) : ∃ z, x.pow k = .ok z := by
  obtain ⟨h0, hneg⟩ := exists_pow_iff.1 h
  cases x with
  | integer n =>
    have hn0 : k = 0 → n ≠ 0 := fun hk hn => h0 hk (by rw [hn]; exact ⟨rfl, rfl⟩)
    have hnneg : k < 0 → n ≠ 0 := fun hk hn => hneg hk (by rw [hn]; exact (point 0).low_mem)
    rw [pow, powInteger]
    split_ifs with hk hn hk' hn
    · exact absurd hn (hn0 hk)
    · exact ⟨_, rfl⟩
    · exact absurd hn (hnneg hk')
    · exact ⟨_, rfl⟩
    · exact ⟨_, rfl⟩
  | rational a =>
    rw [pow, Ratio.pow]
    split_ifs with ha ha
    · exact absurd ⟨ha.1, ha.1⟩ (h0 ha.2)
    · exact absurd (mem_point.2 ha.1.symm) (hneg ha.2)
    · exact ⟨_, rfl⟩
  | interval i =>
    obtain ⟨r, hr⟩ := h
    exact ⟨interval r, congrArg (Except.map interval) hr⟩

/-- **A number has the powers of its interval.** -/
theorem pow_eq_ok_iff {r : Interval} :
    x.toInterval.pow k = .ok r ↔ ∃ z, x.pow k = .ok z ∧ z.toInterval = r := by
  constructor
  · intro h
    obtain ⟨z, hz⟩ := exists_pow_of_interval ⟨r, h⟩
    exact ⟨z, hz, Except.ok.inj ((toInterval_pow hz).symm.trans h)⟩
  · rintro ⟨z, hz, rfl⟩
    exact toInterval_pow hz

end Number
namespace Operand

/-! ## Operands of the tower -/

variable {v w : Value} {x y z : Operand}

/-- What takes part in arithmetic is a plain integer or belongs to the tower. -/
theorem number?_eq_some {a : Number} (h : x.number? = some a) :
    (∃ n, x = whole n ∧ a = .integer n) ∨ ∃ v, x = value v ∧ a = v.number := by
  cases x with
  | datum d =>
    cases d with
    | int n =>
      cases h
      exact .inl ⟨n, rfl, rfl⟩
    | null | truth b | real r | text t | list l | record r => cases h
  | value v =>
    cases h
    exact .inr ⟨v, rfl, rfl⟩
  | list l | fraction f | fractions f | system s => cases h

theorem mul_numbers {a b : Number} (hx : x.number? = some a) (hy : y.number? = some b) :
    mul x y = .ok (number (a.mul b)) := by
  obtain ⟨m, rfl, rfl⟩ | ⟨⟨a, _⟩, rfl, rfl⟩ := number?_eq_some hx
  · obtain ⟨n, rfl, rfl⟩ | ⟨⟨b, _⟩, rfl, rfl⟩ := number?_eq_some hy
    · rfl
    · cases b <;> rfl
  · obtain ⟨n, rfl, rfl⟩ | ⟨⟨b, _⟩, rfl, rfl⟩ := number?_eq_some hy
    · cases a <;> rfl
    · cases a <;> cases b <;> rfl

theorem onFractions_numbers {f : Fraction → Fraction → Except Failure Fraction}
    {g : Number → Number → Except Failure Number} {a b : Number} (hx : x.number? = some a)
    (hy : y.number? = some b) : onFractions f g x y = (g a b).map number := by
  obtain ⟨m, rfl, rfl⟩ | ⟨v, rfl, rfl⟩ := number?_eq_some hx <;>
  · rw [onFractions, onNumbers, hx, hy]
    rintro _ h
    cases h

/-- The operators on operands that take part in arithmetic. -/
theorem operator_numbers (o : Operation) {a b : Number} (hx : x.number? = some a)
    (hy : y.number? = some b) : o.operator x y = (o.onNumbers a b).map number := by
  cases o with
  | add | sub | div => exact onFractions_numbers hx hy
  | mul => exact mul_numbers hx hy

theorem operator_values (o : Operation) (v w : Value) :
    o.operator (value v) (value w) = (o.onNumbers v.number w.number).map number :=
  operator_numbers o rfl rfl

theorem levelled_values (o : Operation) (v w : Value) :
    o.levelled (value v) (value w) = (o.onNumbers v.number w.number).map number := by
  cases o with
  | add => exact congrArg (fun n => Except.ok (number n)) (Number.addLevelled_eq _ _)
  | sub => exact congrArg (fun n => Except.ok (number n)) (Number.subLevelled_eq _ _)
  | mul => exact congrArg (fun n => Except.ok (number n)) (Number.mulLevelled_eq _ _)
  | div => exact congrArg (Except.map number) (Number.divLevelled_eq _ _)

theorem level_onNumbers {o : Operation} {a b c : Number} (h : o.onNumbers a b = .ok c) :
    c.level = o.resultLevel a b := by
  cases o with
  | add | sub | mul =>
    cases h
    exact Number.level_combine a b
  | div => exact Number.level_div h

theorem toInterval_onNumbers (o : Operation) (a b : Number) :
    (o.onNumbers a b).map Number.toInterval = o.onIntervals a.toInterval b.toInterval := by
  cases o with
  | add => exact congrArg Except.ok (Number.toInterval_add a b)
  | sub => exact congrArg Except.ok (Number.toInterval_sub a b)
  | mul => exact congrArg Except.ok (Number.toInterval_mul a b)
  | div => exact Number.toInterval_div a b

theorem onNumbers_intervals (o : Operation) (i j : Interval) :
    o.onNumbers (.interval i) (.interval j) = (o.onIntervals i j).map .interval := by
  cases o <;> rfl

theorem levelNumber?_two : (whole 2).levelNumber? = some 2 := by decide

theorem promote_value (v : Value) : (value v).promote (whole 2) = .ok (value (raised v 2)) := by
  rw [promote, levelNumber?_two]
  exact if_neg (Nat.not_lt.2 v.number.level_le_two)

theorem raised_number (v : Value) : (raised v 2).number = .interval v.number.toInterval := by
  obtain ⟨a, _⟩ := v
  cases a <;> rfl

/-- What becomes of a result that is brought to the level of intervals. -/
theorem promote_number (a : Number) :
    (number a).promote (whole 2) = .ok (interval a.toInterval) := by
  rw [number, promote_value]
  cases a <;> rfl

theorem promote_result (r : Except Failure Number) :
    (r.map number >>= fun z => z.promote (whole 2)) = (r.map Number.toInterval).map interval := by
  cases r with
  | error f => rfl
  | ok a => exact promote_number a

/-- An operand of the tower as an interval. -/
structure Promoted (v p : Value) : Prop where
  promote : (value v).promote (whole 2) = .ok (value p)
  number : p.number = .interval v.number.toInterval

theorem exists_promoted (v : Value) : ∃ p, Promoted v p :=
  ⟨raised v 2, promote_value v, raised_number v⟩

/-- What an operator and the operation on levels have in common on two operands of the tower. -/
structure OperatorLevels (o : Operation) (v w : Value) : Prop where
  /-- Both give the same number, or fail for the same reason. -/
  same : o.levelled (value v) (value w) = o.operator (value v) (value w)
  level : ∀ z, o.operator (value v) (value w) = .ok z →
    z.level = .ok (o.resultLevel v.number w.number)
  /-- The operation of the intervals gives the interval of the result, or fails for the same
  reason. -/
  promoted : ∀ p q, Promoted v p → Promoted w q → o.operator (value p) (value q) =
    (o.operator (value v) (value w) >>= fun z => z.promote (whole 2))

/-- The same of the operations of one operand; the exponent is any operand. -/
structure PowerLevels (v : Value) (k : Operand) : Prop where
  same_neg : (value v).negLevelled = (value v).neg
  level_neg : ∀ z, (value v).neg = .ok z → z.level = (value v).level
  level_pow : ∀ n z, k.exponent = .ok n → (value v).pow k = .ok z →
    z.level = .ok (if n < 0 then max 1 v.number.level else v.number.level)
  level_shift : ∀ n z, k.exponent = .ok n → (value v).shift k = .ok z →
    z.level = .ok (if n < 0 then max 1 v.number.level else v.number.level)
  promoted_neg : ∀ p, Promoted v p →
    (value p).neg = ((value v).neg >>= fun z => z.promote (whole 2))
  promoted_pow : ∀ p, Promoted v p → ∀ z,
    (value p).pow k = .ok z ↔ ((value v).pow k >>= fun z => z.promote (whole 2)) = .ok z
  promoted_shift : ∀ p, Promoted v p →
    (value p).shift k = ((value v).shift k >>= fun z => z.promote (whole 2))

theorem operatorLevels (o : Operation) (v w : Value) : OperatorLevels o v w where
  same := (levelled_values o v w).trans (operator_values o v w).symm
  level z hz := by
    rw [operator_values] at hz
    obtain ⟨c, hc, rfl⟩ := Number.exists_of_map_eq_ok hz
    exact congrArg Except.ok (level_onNumbers hc)
  promoted p q hp hq := by
    rw [operator_values, operator_values, promote_result, toInterval_onNumbers, hp.number,
      hq.number, onNumbers_intervals]
    cases o.onIntervals v.number.toInterval w.number.toInterval <;> rfl

/-! ### One operand and an exponent -/

variable {k : Operand} {n : Int}

theorem pow_value (hk : k.exponent = .ok n) : (value v).pow k = (v.number.pow n).map number := by
  rw [pow, hk]
  change (v.number.pow n >>= fun a => .ok (number a)) = _
  cases v.number.pow n <;> rfl

theorem shift_value (hk : k.exponent = .ok n) :
    (value v).shift k = .ok (number (v.number.shift n)) := by
  rw [shift, hk]
  rfl

theorem map_eq_ok_iff {α β : Type} {e : Except Failure α} {f : α → β} {b : β} :
    e.map f = .ok b ↔ ∃ a, e = .ok a ∧ f a = b := by
  refine ⟨Number.exists_of_map_eq_ok, ?_⟩
  rintro ⟨a, rfl, rfl⟩
  rfl

theorem pow_promoted {p : Value} (hp : Promoted v p) (hk : k.exponent = .ok n) (z : Operand) :
    (value p).pow k = .ok z ↔ ((value v).pow k >>= fun z => z.promote (whole 2)) = .ok z := by
  rw [pow_value hk, pow_value hk, promote_result, hp.number, Number.pow, map_eq_ok_iff,
    map_eq_ok_iff]
  constructor
  · rintro ⟨_, hi, rfl⟩
    obtain ⟨r, hr, rfl⟩ := map_eq_ok_iff.1 hi
    exact ⟨r, map_eq_ok_iff.2 (Number.pow_eq_ok_iff.1 hr), rfl⟩
  · rintro ⟨r, hr, rfl⟩
    exact ⟨.interval r, map_eq_ok_iff.2 ⟨r, Number.pow_eq_ok_iff.2 (map_eq_ok_iff.1 hr), rfl⟩, rfl⟩

theorem powerLevels (v : Value) (k : Operand) : PowerLevels v k where
  same_neg := rfl
  level_neg z hz := by
    cases hz
    exact congrArg Except.ok v.number.level_neg
  level_pow n z hk hz := by
    rw [pow_value hk] at hz
    obtain ⟨c, hc, rfl⟩ := Number.exists_of_map_eq_ok hz
    exact congrArg Except.ok (Number.level_pow hc)
  level_shift n z hk hz := by
    rw [shift_value hk] at hz
    cases hz
    exact congrArg Except.ok (v.number.level_shift n)
  promoted_neg p hp := by
    refine Eq.trans ?_ (promote_number v.number.neg).symm
    rw [neg, hp.number, Number.toInterval_neg]
    rfl
  promoted_pow p hp z := by
    cases hk : k.exponent with
    | error f =>
      rw [pow, pow, hk]
      rfl
    | ok n => exact pow_promoted hp hk z
  promoted_shift p hp := by
    cases hk : k.exponent with
    | error f =>
      rw [shift, shift, hk]
      rfl
    | ok n =>
      rw [shift_value hk, shift_value hk, hp.number]
      refine Eq.trans ?_ (promote_number (v.number.shift n)).symm
      rw [Number.toInterval_shift]
      rfl

/-- **Operators and levels agree**, and promotion to intervals goes through every operation. An
integer leaves its level by a quotient that does not come out even, and by a negative exponent. -/
theorem levels_agree (v w : Value) (k : Operand) :
    (∃ p, Promoted v p) ∧ (∀ o, OperatorLevels o v w) ∧ PowerLevels v k :=
  ⟨exists_promoted v, fun o => operatorLevels o v w, powerLevels v k⟩

/-- A negative exponent makes a rational number of an integer, also where the result is whole. -/
theorem one_as_tenth_of_ten :
    (integer 10).shift (whole (-1)) = .ok (rational 1) ∧
      (integer 1).pow (whole (-1)) = .ok (rational 1) ∧
      (rational 1).level = .ok 1 ∧ (integer 10).level = .ok 0 ∧ (integer 1).level = .ok 0 := by
  have hshift : (Number.integer 10).shift (-1) = .rational 1 := by with_unfolding_all decide
  have hpow : (Number.integer 1).pow (-1) = .ok (.rational 1) := by decide
  refine ⟨?_, ?_, rfl, rfl, rfl⟩
  · exact (shift_value rfl).trans (congrArg (fun a => Except.ok (number a)) hshift)
  · exact (pow_value rfl).trans (congrArg (Except.map number) hpow)

end Operand

end RatCalc

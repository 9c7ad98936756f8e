import Mathlib.Data.List.DropRight
import RatCalc.Proofs.Blanks
import RatCalc.Proofs.Digits
import RatCalc.Proofs.Promotion
import RatCalc.Proofs.Reader

/-!
# Rows of operands in parentheses

* `Operator`, `Power`, `Parens`: what a row `(a)^k*(b)-(c)` is made of; `Row.text` is its text.
* `Row.value`: the value of a row: powers first, then `*` and `/`, then `+` and `-`, each from the
  left.
* `Means`: an expression has the value of a computation, as an interval, or fails as it does.
* `exists_reads_operand`, `exists_reads_termFrom`, `exists_reads_sumFrom`: a row is read as an
  expression that means its value.
* **`valueOf_text`**: the text of a row has the value of the row.
-/

namespace RatCalc

open Text Reading

/-- An operator between two operands. -/
inductive Operator where
  | plus
  | minus
  | times
  | slash
  deriving DecidableEq

namespace Operator

/-- How the operator is written. -/
def char : Operator → Char
  | plus => '+'
  | minus => '-'
  | times => '*'
  | slash => '/'

/-- Whether the operator binds tighter than the others. -/
def isTight : Operator → Bool
  | plus | minus => false
  | times | slash => true

/-- The operation on numbers. -/
def apply : Operator → Number → Number → Except Failure Number
  | plus, x, y => .ok (x.add y)
  | minus, x, y => .ok (x.sub y)
  | times, x, y => .ok (x.mul y)
  | slash, x, y => x.div y

end Operator

/-- A power: of the number, or as a product of numbers of its interval. -/
structure Power where
  ofProduct : Bool
  negative : Bool
  digits : Text

namespace Power

/-- How the power is written. -/
def text (p : Power) : Text :=
  (if p.ofProduct then ['*', '*'] else ['^']) ++ (Expansion.sign p.negative ++ p.digits)

/-- The power of a number. -/
def raise (d : Dialect) (p : Power) (x : Number) : Except Failure Number := do
  let k := Literal.signed p.negative (← d.value p.digits)
  if p.ofProduct then x.productPow k else x.pow k

end Power

/-- A text in parentheses, with a power or without. -/
structure Parens where
  inner : Text
  power : Option Power

namespace Parens

/-- How the operand is written. -/
def text (o : Parens) : Text :=
  '(' :: (o.inner ++ ')' :: (match o.power with
    | some p => p.text
    | none => []))

/-- The value of the text in parentheses, raised to the power. -/
def value (d : Dialect) (o : Parens) : Except Failure Number := do
  let v ← Expr.valueOf d o.inner
  match o.power with
  | some p => p.raise d v.number
  | none => return v.number

/-- The text in parentheses has a value, and the exponent has digits, and digits only. -/
structure Accepted (d : Dialect) (o : Parens) : Prop where
  inner : ∃ v, Expr.valueOf d o.inner = .ok v
  power : ∀ p ∈ o.power, p.digits ≠ [] ∧ ∀ c ∈ p.digits, d.isDigit c = true

end Parens

namespace Row

/-- The operators and operands after the first operand, as they are written. -/
def rest (l : List (Operator × Parens)) : Text := l.flatMap fun x => x.1.char :: x.2.text

/-- A row as it is written. -/
def text (o : Parens) (l : List (Operator × Parens)) : Text := o.text ++ rest l

/-- A number with the operands that tight operators join to it. -/
def product (d : Dialect) (x : Number) (l : List (Operator × Parens)) : Except Failure Number :=
  (l.takeWhile (·.1.isTight)).foldlM (fun x y => do y.1.apply x (← y.2.value d)) x

/-- A number with the terms that loose operators join to it. -/
def sum (d : Dialect) (x : Number) : List (Operator × Parens) → Except Failure Number
  | [] => return x
  | (op, o) :: l => do
    let y ← product d (← o.value d) l
    sum d (← op.apply x y) (l.dropWhile (·.1.isTight))
termination_by l => l.length
decreasing_by
  have := (List.dropWhile_suffix (p := fun x => x.1.isTight) (l := l)).length_le
  simp only [List.length_cons]
  omega

/-- The value of a row. -/
def value (d : Dialect) (o : Parens) (l : List (Operator × Parens)) : Except Failure Number := do
  let x ← product d (← o.value d) l
  sum d x (l.dropWhile (·.1.isTight))

end Row

/-- The digits are the decimal ones, or those of a standard system. -/
def Dialect.IsStandard (d : Dialect) : Prop :=
  ∀ s ∈ d.system, ∃ base h name, s = .ofBase base h name

/-! ## Meaning -/

/-- An expression has the value of a computation as an interval, or fails as it does. -/
def Means (d : Dialect) (e : Expr) (x : Except Failure Number) : Prop :=
  (e.eval d).map (·.number.toInterval) = x.map Number.toInterval

variable {d : Dialect}

theorem means_iff {e : Expr} {x : Except Failure Number} : Means d e x ↔
    (∃ v y, e.eval d = .ok v ∧ x = .ok y ∧ v.number.toInterval = y.toInterval) ∨
      ∃ f, e.eval d = .error f ∧ x = .error f := by
  rw [Means]
  cases e.eval d <;> cases x <;> simp [Except.map, eq_comm]

theorem means_of_number {e : Expr} {x : Except Failure Number}
    (h : (e.eval d).map (·.number) = x) : Means d e x := by
  rw [Means, ← h]
  cases e.eval d <;> rfl

theorem Means.simplified {e : Expr} {x : Except Failure Number} (h : Means d e x) :
    Means d (.simplified e) x := by
  rcases means_iff.1 h with ⟨v, y, hv, rfl, hy⟩ | ⟨f, hf, rfl⟩
  · refine means_iff.2 (.inl ⟨d.simplify v, y, ?_, rfl, ?_⟩)
    · rw [Expr.eval, hv]
      rfl
    · rw [d.toInterval_simplify, hy]
  · refine means_iff.2 (.inr ⟨f, ?_, rfl⟩)
    rw [Expr.eval, hf]
    rfl

/-- What two operands mean settles what an operation on their values means. -/
theorem Means.operation {a b e : Expr} {x y : Except Failure Number}
    {f : Number → Number → Except Failure Number} (ha : Means d a x) (hb : Means d b y)
    (he : e.eval d = (do
      let v ← a.eval d
      let w ← b.eval d
      return .plain (← f v.number w.number)))
    (hf : ∀ v v' w w' : Number, v.toInterval = v'.toInterval → w.toInterval = w'.toInterval →
      (f v w).map Number.toInterval = (f v' w').map Number.toInterval) :
    Means d e (do f (← x) (← y)) := by
  rcases means_iff.1 ha with ⟨v, v', hv, rfl, hvv⟩ | ⟨g, hg, rfl⟩
  · rcases means_iff.1 hb with ⟨w, w', hw, rfl, hww⟩ | ⟨g, hg, rfl⟩
    · have h := hf _ _ _ _ hvv hww
      rw [Means, he, hv, hw]
      refine Eq.trans ?_ h
      change ((f v.number w.number) >>= fun z => .ok (Value.plain z)).map _ = _
      cases f v.number w.number <;> rfl
    · rw [Means, he, hv, hg]
      rfl
  · rw [Means, he, hg]
    rfl

theorem Means.add {a b : Expr} {x y : Except Failure Number} (ha : Means d a x)
    (hb : Means d b y) : Means d (.add a b) (do Operator.plus.apply (← x) (← y)) := by
  refine ha.operation hb (f := fun v w => .ok (v.add w)) (by rw [Expr.eval]; rfl) ?_
  intro v v' w w' hv hw
  refine congrArg Except.ok ?_
  rw [Number.toInterval_add, Number.toInterval_add, hv, hw]

theorem Means.sub {a b : Expr} {x y : Except Failure Number} (ha : Means d a x)
    (hb : Means d b y) : Means d (.sub a b) (do Operator.minus.apply (← x) (← y)) := by
  refine ha.operation hb (f := fun v w => .ok (v.sub w)) (by rw [Expr.eval]; rfl) ?_
  intro v v' w w' hv hw
  refine congrArg Except.ok ?_
  rw [Number.toInterval_sub, Number.toInterval_sub, hv, hw]

theorem Means.mul {a b : Expr} {x y : Except Failure Number} (ha : Means d a x)
    (hb : Means d b y) : Means d (.mul a b) (do Operator.times.apply (← x) (← y)) := by
  refine ha.operation hb (f := fun v w => .ok (v.mul w)) (by rw [Expr.eval]; rfl) ?_
  intro v v' w w' hv hw
  refine congrArg Except.ok ?_
  rw [Number.toInterval_mul, Number.toInterval_mul, hv, hw]

theorem Means.div {a b : Expr} {x y : Except Failure Number} (ha : Means d a x)
    (hb : Means d b y) : Means d (.div a b) (do Operator.slash.apply (← x) (← y)) := by
  refine ha.operation hb (f := Number.div) (by rw [Expr.eval]) ?_
  intro v v' w w' hv hw
  rw [Number.toInterval_div, Number.toInterval_div, hv, hw]

/-! ## Operands -/

/-- What may follow an operand: nothing, or an operator and another operand. -/
def Follows (t : Text) : Prop := t = [] ∨ ∃ op : Operator, ∃ u, t = op.char :: '(' :: u

theorem char_mem_reservedChars (op : Operator) : op.char ∈ NumeralSystem.reservedChars := by
  cases op <;> decide

theorem char_not_mem_marker (d : Dialect) (op : Operator) : op.char ∉ d.marker := by
  cases op <;> exact d.not_mem_marker (by decide) (by decide) (by decide)

/-- Nothing of what follows belongs to the operand. -/
theorem suffixed_of_follows (e : Expr) {t : Text} (h : Follows t) :
    suffixed d e t = ⟨e, some t⟩ := by
  rcases h with rfl | ⟨op, u, rfl⟩
  · rw [suffixed_of_after? d.after?_marker_nil]
    rfl
  · rw [suffixed_of_after? (d.after?_marker_cons (char_not_mem_marker d op) _)]
    cases op <;> rfl

/-- A row of digits ends where the text does, or before a character of another kind. -/
theorem digits_append_of_not_alphanumeric {ds t : Text} (hds : ∀ c ∈ ds, d.isDigit c = true)
    (h : ∀ c u, t = c :: u → d.isDigit c = false ∧ isAlphanumeric c = false) :
    d.digits (ds ++ t) = .ok (ds, t) := by
  have hd := span_append hds fun c u hc => (h c u hc).1
  rw [Dialect.digits, hd.1, hd.2]
  cases d.system with
  | none => cases t <;> rfl
  | some s =>
    cases t with
    | nil => rfl
    | cons c u =>
      simp only
      rw [(h c u rfl).2, Bool.false_and]
      rfl

/-- A row of digits ends where the text does, or before a symbol. -/
theorem digits_append_of_reserved {ds t : Text} (hds : ∀ c ∈ ds, d.isDigit c = true)
    (h : ∀ c u, t = c :: u → c ∈ NumeralSystem.reservedChars) : d.digits (ds ++ t) = .ok (ds, t) :=
  digits_append_of_not_alphanumeric hds fun c u hc => ⟨d.isDigit_of_reserved (h c u hc),
    isAlphanumeric_of_isMark (forall_of_all (P := IsMark) (by decide) c (h c u hc))⟩

theorem Follows.reserved {t : Text} (h : Follows t) (c : Char) (u : Text) (hc : t = c :: u) :
    c ∈ NumeralSystem.reservedChars := by
  rcases h with rfl | ⟨op, v, rfl⟩
  · cases hc
  · rw [← (List.cons.inj hc).1]
    exact char_mem_reservedChars op

/-- The digits of a standard system are the first ones of the alphabet. -/
theorem mem_take_of_isDigit {base : Nat} {h : 2 ≤ base} {name : String} {c : Char}
    (hc : (NumeralSystem.ofBase base h name).isDigit c = true) :
    c ∈ NumeralSystem.alphabet.take base := by
  obtain ⟨a, ha, hac⟩ := List.mem_map.1 (List.contains_iff_mem.1 hc)
  rwa [← NumeralSystem.singleton_injective hac]

/-- The digits of a standard system are letters and plain digits. -/
theorem mem_alphabet_of_isDigit (hd : d.IsStandard) {c : Char} (hc : d.isDigit c = true) :
    c ∈ NumeralSystem.alphabet := by
  rw [Dialect.isDigit] at hc
  cases hs : d.system with
  | none =>
    rw [hs] at hc
    obtain ⟨n, hn, rfl⟩ := isPlainDigit_iff.1 hc
    exact (by decide : ∀ n < 10, Nat.digitChar n ∈ NumeralSystem.alphabet) n hn
  | some s =>
    obtain ⟨base, h, name, rfl⟩ := hd s hs
    rw [hs] at hc
    exact List.mem_of_mem_take (mem_take_of_isDigit hc)

theorem isBlank_of_isDigit (hd : d.IsStandard) {c : Char} (hc : d.isDigit c = true) :
    isBlank c = false :=
  forall_of_all (P := fun c => isBlank c = false) (by decide) c
    (mem_alphabet_of_isDigit hd hc)

/-- Digits have a value. -/
theorem exists_value {ds : Text} (hds : ∀ c ∈ ds, d.isDigit c = true) :
    ∃ n, d.value ds = .ok n := by
  rw [Dialect.value]
  cases hs : d.system with
  | none => exact ⟨_, rfl⟩
  | some s =>
    have hds' : ∀ c ∈ ds, s.isDigit c = true := fun c hc => by
      have := hds c hc
      rw [Dialect.isDigit, hs] at this
      exact this
    have hfold : ∀ (t : Text) (v : Nat), (∀ c ∈ t, s.isDigit c = true) →
        ∃ n, t.foldlM (fun v c => (s.charValue c).map (v * s.base + ·)) v = .ok n := by
      intro t
      induction t with
      | nil => exact fun v _ => ⟨v, rfl⟩
      | cons c t ih =>
        intro v ht
        have hm : String.singleton c ∈ s.digits := List.contains_iff_mem.1 (ht c List.mem_cons_self)
        have hany : s.digits.any (· == String.singleton c) = true :=
          List.any_eq_true.2 ⟨_, hm, beq_self_eq_true _⟩
        obtain ⟨i, hi⟩ := Option.isSome_iff_exists.1 (List.findIdx?_isSome.trans hany)
        rw [List.foldlM_cons, NumeralSystem.charValue, NumeralSystem.digitValue, hi]
        exact ih _ fun a ha => ht a (List.mem_cons_of_mem c ha)
    exact hfold ds 0 hds'

theorem exponent_of_digits {p : Power} (hne : p.digits ≠ [])
    (hds : ∀ c ∈ p.digits, d.isDigit c = true) {n : Nat} (hn : d.value p.digits = .ok n) {t : Text}
    (h : ∀ c u, t = c :: u → c ∈ NumeralSystem.reservedChars) :
    d.exponent (Expansion.sign p.negative ++ p.digits ++ t) =
      .ok (Literal.signed p.negative n, t) := by
  have hm : minus (Expansion.sign p.negative ++ p.digits ++ t) = (p.negative, p.digits ++ t) := by
    cases p.negative with
    | true => rfl
    | false =>
      refine minus_of_ne fun u hu => ?_
      cases hp : p.digits with
      | nil => exact hne hp
      | cons c ds =>
        have hc := hds c (hp ▸ List.mem_cons_self)
        rw [hp] at hu
        rw [(List.cons.inj hu).1, d.isDigit_of_reserved (by decide)] at hc
        cases hc
  rw [d.exponent_eq, hm, bind_of_ok (digits_append_of_reserved hds h)]
  simp only
  rw [if_neg (by rwa [List.isEmpty_iff]), bind_of_ok hn]
  rfl

theorem powerSuffix_text (e : Expr) {p : Power} (hne : p.digits ≠ [])
    (hds : ∀ c ∈ p.digits, d.isDigit c = true) {n : Nat} (hn : d.value p.digits = .ok n) {t : Text}
    (h : ∀ c u, t = c :: u → c ∈ NumeralSystem.reservedChars) :
    powerSuffix d e (p.text ++ t) =
      ⟨if p.ofProduct then .productPow e (Literal.signed p.negative n)
        else .pow e (Literal.signed p.negative n), some t⟩ := by
  have hexp := exponent_of_digits hne hds hn h
  rw [Power.text, List.append_assoc]
  cases p.ofProduct with
  | true =>
    change raised d e (.productPow e) (Expansion.sign p.negative ++ p.digits ++ t) = _
    rw [raised, hexp]
    rfl
  | false =>
    change raised d e (.pow e) (Expansion.sign p.negative ++ p.digits ++ t) = _
    rw [raised, hexp]
    rfl

/-- A power is read behind the expression that is raised to it. -/
theorem suffixed_power (e : Expr) {p : Power} (hne : p.digits ≠ [])
    (hds : ∀ c ∈ p.digits, d.isDigit c = true) {n : Nat} (hn : d.value p.digits = .ok n) {t : Text}
    (h : Follows t) :
    suffixed d e (p.text ++ t) =
      ⟨if p.ofProduct then .productPow e (Literal.signed p.negative n)
        else .pow e (Literal.signed p.negative n), some t⟩ := by
  -- the mark of an exponent may hold the sign of a power, but does not begin with it
  have hmarker : after? d.marker (p.text ++ t) = none := by
    rw [Power.text, List.append_assoc]
    cases p.ofProduct with
    | true => exact d.after?_marker_cons (char_not_mem_marker d .times) _
    | false => rcases d.marker_eq with hm | hm <;> rw [hm] <;> rfl
  have hfactorial : factorialSuffix e (p.text ++ t) = ⟨e, some (p.text ++ t)⟩ := by
    rw [Power.text, List.append_assoc]
    cases p.ofProduct <;> rfl
  rw [suffixed_of_after? hmarker, hfactorial, ← powerSuffix_text e hne hds hn h.reserved]
  rfl

/-- An operand without the blanks of its text. -/
def Parens.prepared (d : Dialect) (o : Parens) : Parens := { o with inner := d.prepare o.inner }

/-- **An operand is read as an expression that means its value.** -/
theorem exists_reads_operand {o : Parens} (ho : o.Accepted d) {t : Text} (h : Follows t) :
    ∃ e, Reads d .factor ((o.prepared d).text ++ t) e t ∧ Means d e (o.value d) := by
  obtain ⟨v, hv⟩ := ho.inner
  obtain ⟨a, ha, hav⟩ := Expr.valueOf_eq_ok_iff.1 hv
  cases hp : o.power with
  | none =>
    refine ⟨a, ?_, means_of_number ?_⟩
    · have hr := ha.close closed_nil t
      simp only [Parens.text, Parens.prepared, hp, List.cons_append, List.append_assoc,
        List.nil_append]
      exact .group hr (suffixed_of_follows a h)
    · rw [Parens.value, hv, hav, hp]
      rfl
  | some p =>
    obtain ⟨hne, hds⟩ := ho.power p hp
    obtain ⟨n, hn⟩ := exists_value hds
    refine ⟨if p.ofProduct then .productPow a (Literal.signed p.negative n)
      else .pow a (Literal.signed p.negative n), ?_, means_of_number ?_⟩
    · have hr := ha.close closed_nil (p.text ++ t)
      simp only [Parens.text, Parens.prepared, hp, List.cons_append, List.append_assoc]
      exact .group hr (suffixed_power a hne hds hn h)
    · rw [Parens.value, hv, hp, bind_of_ok rfl]
      simp only [Power.raise]
      rw [bind_of_ok hn]
      split_ifs
      · rw [Expr.eval, hav, bind_of_ok rfl]
        cases v.number.productPow (Literal.signed p.negative n) <;> rfl
      · rw [Expr.eval, hav, bind_of_ok rfl]
        cases v.number.pow (Literal.signed p.negative n) <;> rfl

/-! ## Rows -/

namespace Row

/-- A row without the blanks of its texts. -/
def prepared (d : Dialect) (l : List (Operator × Parens)) : List (Operator × Parens) :=
  l.map fun x => (x.1, x.2.prepared d)

theorem rest_prepared_cons (op : Operator) (o : Parens) (l : List (Operator × Parens)) :
    rest (prepared d ((op, o) :: l)) =
      op.char :: ((o.prepared d).text ++ rest (prepared d l)) := rfl

theorem follows_rest (l : List (Operator × Parens)) : Follows (rest l) := by
  cases l with
  | nil => exact .inl rfl
  | cons x l => exact .inr ⟨x.1, _, rfl⟩

/-- A computation of the number that stands first goes on with what follows. -/
theorem product_cons {op : Operator} (hop : op.isTight = true) (o : Parens)
    (l : List (Operator × Parens)) (x : Except Failure Number) :
    (x >>= fun x => product d x ((op, o) :: l)) =
      ((do op.apply (← x) (← o.value d)) >>= fun x => product d x l) := by
  have hp : ∀ x, product d x ((op, o) :: l) =
      (do op.apply x (← o.value d)) >>= fun x => product d x l := fun x => by
    rw [product, List.takeWhile_cons_of_pos (p := fun x : Operator × Parens => x.1.isTight)
      (a := (op, o)) hop, List.foldlM_cons]
    rfl
  simp only [hp, bind_assoc]

theorem product_nil (x : Except Failure Number) : (x >>= fun x => product d x []) = x := by
  cases x <;> rfl

theorem product_cons_of_loose {op : Operator} (hop : op.isTight = false) (o : Parens)
    (l : List (Operator × Parens)) (x : Except Failure Number) :
    (x >>= fun x => product d x ((op, o) :: l)) = x := by
  have hp : ∀ x, product d x ((op, o) :: l) = .ok x := fun x => by
    rw [product, List.takeWhile_cons_of_neg (p := fun x : Operator × Parens => x.1.isTight)
      (a := (op, o)) (by simp [hop])]
    rfl
  cases x with
  | error f => rfl
  | ok x => exact hp x

/-- A term ends before a loose operator. -/
theorem reads_termFrom_loose {op : Operator} (hop : op.isTight = false) (a : Expr) (t : Text) :
    Reads d (.termFrom a) (op.char :: t) a (op.char :: t) := by
  have hm : afterMarker? d (op.char :: t) = none := by
    rw [afterMarker?, d.after?_marker_cons (char_not_mem_marker d op)]
    cases op <;> rfl
  refine .termEnd ?_ ?_ hm
  all_goals
    intro u hu
    have := (List.cons.inj hu).1
    cases op with
    | plus => exact absurd this (by decide)
    | minus => exact absurd this (by decide)
    | times => cases hop
    | slash => cases hop

/-- **The operands that tight operators join are read** as an expression that means their value. -/
theorem exists_reads_termFrom {l : List (Operator × Parens)}
    (hl : ∀ x ∈ l, x.2.Accepted d) {a : Expr} {x : Except Failure Number} (ha : Means d a x) :
    ∃ e, Reads d (.termFrom a) (rest (prepared d l)) e
        (rest (prepared d (l.dropWhile (·.1.isTight)))) ∧
      Means d e (x >>= fun x => product d x l) := by
  induction l generalizing a x with
  | nil =>
    refine ⟨a, .termEnd (fun u hu => (nomatch hu)) (fun u hu => (nomatch hu)) rfl, ?_⟩
    rwa [product_nil]
  | cons y l ih =>
    obtain ⟨op, o⟩ := y
    have hl' : ∀ x ∈ l, x.2.Accepted d := fun x hx => hl x (List.mem_cons_of_mem _ hx)
    obtain ⟨b, hb, hbv⟩ := exists_reads_operand (hl (op, o) List.mem_cons_self)
      (follows_rest (prepared d l))
    have loose : op.isTight = false → ∃ e, Reads d (.termFrom a) (rest (prepared d ((op, o) :: l)))
        e (rest (prepared d (((op, o) :: l).dropWhile (·.1.isTight)))) ∧
          Means d e (x >>= fun x => product d x ((op, o) :: l)) := fun hop => by
      refine ⟨a, ?_, by rwa [product_cons_of_loose hop]⟩
      rw [List.dropWhile_cons_of_neg (p := fun x : Operator × Parens => x.1.isTight)
        (a := (op, o)) (by simp [hop])]
      exact reads_termFrom_loose hop a _
    cases op with
    | times =>
      obtain ⟨e, he, hev⟩ := ih hl' (ha.mul hbv).simplified
      refine ⟨e, ?_, by rwa [product_cons rfl]⟩
      rw [List.dropWhile_cons_of_pos rfl]
      exact .times hb he
    | slash =>
      obtain ⟨e, he, hev⟩ := ih hl' (ha.div hbv).simplified
      refine ⟨e, ?_, by rwa [product_cons rfl]⟩
      rw [List.dropWhile_cons_of_pos rfl]
      exact .divided hb he
    | plus => exact loose rfl
    | minus => exact loose rfl

/-- An operand and the operands that tight operators join to it are read as a term. -/
theorem exists_reads_term {o : Parens} (ho : o.Accepted d) {l : List (Operator × Parens)}
    (hl : ∀ x ∈ l, x.2.Accepted d) :
    ∃ e, Reads d .term ((o.prepared d).text ++ rest (prepared d l)) e
        (rest (prepared d (l.dropWhile (·.1.isTight)))) ∧
      Means d e (do product d (← o.value d) l) := by
  obtain ⟨a, ha, hav⟩ := exists_reads_operand ho (follows_rest (prepared d l))
  obtain ⟨e, he, hev⟩ := exists_reads_termFrom hl hav
  exact ⟨e, .term ha he, hev⟩

/-- No tight operator stands first. -/
def StartsLoose (l : List (Operator × Parens)) : Prop := l.dropWhile (·.1.isTight) = l

theorem startsLoose_dropWhile (l : List (Operator × Parens)) :
    StartsLoose (l.dropWhile (·.1.isTight)) := by
  rw [StartsLoose, List.dropWhile_idempotent]

theorem not_startsLoose {op : Operator} (hop : op.isTight = true) (o : Parens)
    (l : List (Operator × Parens)) : ¬ StartsLoose ((op, o) :: l) := by
  intro h
  rw [StartsLoose, List.dropWhile_cons_of_pos (p := fun x : Operator × Parens => x.1.isTight)
    (a := (op, o)) hop] at h
  have hle := (List.dropWhile_suffix (p := fun x : Operator × Parens => x.1.isTight)
    (l := l)).length_le
  rw [h, List.length_cons] at hle
  omega

/-- **The terms that loose operators join are read** as an expression that means their value. -/
theorem exists_reads_sumFrom {l : List (Operator × Parens)} (hl : ∀ x ∈ l, x.2.Accepted d)
    (hloose : StartsLoose l) {a : Expr} {x : Except Failure Number} (ha : Means d a x) :
    ∃ e, Reads d (.sumFrom a) (rest (prepared d l)) e [] ∧
      Means d e (x >>= fun x => sum d x l) := by
  match l with
  | [] =>
    refine ⟨.simplified a, .sumEnd (fun u hu => (nomatch hu)) (fun u hu => (nomatch hu)), ?_⟩
    have : (x >>= fun x => sum d x []) = x := by
      simp only [sum]
      exact bind_pure x
    rw [this]
    exact ha.simplified
  | (op, o) :: l =>
    have hl' : ∀ x ∈ l, x.2.Accepted d := fun x hx => hl x (List.mem_cons_of_mem _ hx)
    have hdrop : ∀ x ∈ l.dropWhile (·.1.isTight), x.2.Accepted d := fun x hx =>
      hl' x ((List.dropWhile_suffix _).subset hx)
    have hlen := (List.dropWhile_suffix (p := fun x : Operator × Parens => x.1.isTight)
      (l := l)).length_le
    obtain ⟨b, hb, hbv⟩ := exists_reads_term (hl (op, o) List.mem_cons_self) hl'
    have hsum : (x >>= fun x => sum d x ((op, o) :: l)) =
        ((do op.apply (← x) (← (do product d (← o.value d) l))) >>= fun x =>
          sum d x (l.dropWhile (·.1.isTight))) := by
      simp only [sum, bind_assoc]
    rw [hsum]
    cases op with
    | plus =>
      obtain ⟨e, he, hev⟩ := exists_reads_sumFrom hdrop (startsLoose_dropWhile l) (ha.add hbv)
      exact ⟨e, .plus hb he, hev⟩
    | minus =>
      obtain ⟨e, he, hev⟩ := exists_reads_sumFrom hdrop (startsLoose_dropWhile l) (ha.sub hbv)
      exact ⟨e, .minus hb he, hev⟩
    | times => exact absurd hloose (not_startsLoose rfl o l)
    | slash => exact absurd hloose (not_startsLoose rfl o l)
termination_by l.length
decreasing_by all_goals simp only [List.length_cons]; omega

/-- A row is read as an expression that means its value. -/
theorem exists_reads_sum {o : Parens} (ho : o.Accepted d) {l : List (Operator × Parens)}
    (hl : ∀ x ∈ l, x.2.Accepted d) :
    ∃ e, Reads d .sum ((o.prepared d).text ++ rest (prepared d l)) e [] ∧
      Means d e (value d o l) := by
  obtain ⟨a, ha, hav⟩ := exists_reads_term ho hl
  obtain ⟨e, he, hev⟩ := exists_reads_sumFrom
    (fun x hx => hl x ((List.dropWhile_suffix _).subset hx)) (startsLoose_dropWhile l) hav
  refine ⟨e, .sum ha he, ?_⟩
  simpa only [value, bind_assoc] using hev

/-! ## Blanks -/

/-- The text of an operand keeps its blanks within the parentheses. -/
theorem prepare_operand (hd : d.IsStandard) {o : Parens} (ho : o.Accepted d) :
    d.prepare o.text = (o.prepared d).text := by
  simp only [Parens.text, Parens.prepared]
  rw [d.prepare_parens]
  congr 3
  cases hp : o.power with
  | none => rfl
  | some p =>
    apply d.prepare_of_no_blank
    intro c hc
    have hc : c ∈ p.text := hc
    simp only [Power.text, List.mem_append] at hc
    rcases hc with hc | hc | hc
    · split_ifs at hc
      · exact (forall_of_all (by decide) : ∀ c ∈ ['*', '*'], isBlank c = false) c hc
      · exact (forall_of_all (by decide) : ∀ c ∈ ['^'], isBlank c = false) c hc
    · cases hn : p.negative with
      | false =>
        rw [hn] at hc
        cases hc
      | true =>
        rw [hn] at hc
        exact (forall_of_all (by decide) : ∀ c ∈ ['-'], isBlank c = false) c hc
    · exact isBlank_of_isDigit hd ((ho.power p hp).2 c hc)

theorem prepare_text (hd : d.IsStandard) {o : Parens} (ho : o.Accepted d)
    {l : List (Operator × Parens)} (hl : ∀ x ∈ l, x.2.Accepted d) :
    d.prepare (text o l) = (o.prepared d).text ++ rest (prepared d l) := by
  induction l generalizing o with
  | nil =>
    rw [text, rest, List.flatMap_nil, List.append_nil, prepare_operand hd ho]
    exact (List.append_nil _).symm
  | cons x l ih =>
    obtain ⟨op, o'⟩ := x
    have hblank : isBlank op.char = false := by cases op <;> decide
    have hop : ∀ u, d.prepare (op.char :: '(' :: u) = op.char :: d.prepare ('(' :: u) := fun u => by
      cases op with
      | slash => exact d.prepare_slash (by decide) u
      | _ => exact d.prepare_cons (by decide) (by decide) _
    have hsplit : text o ((op, o') :: l) = o.text ++ op.char :: text o' l := by
      rw [text, rest, List.flatMap_cons]
      rfl
    rw [hsplit, d.prepare_append_cons hblank (char_not_mem_marker d op), prepare_operand hd ho]
    have := ih (hl (op, o') List.mem_cons_self) fun x hx => hl x (List.mem_cons_of_mem _ hx)
    rw [rest_prepared_cons, ← this]
    exact congrArg _ (hop _)

/-! ## The value of a row -/

/-- **The text of a row has the value of the row**, as an interval, or fails as it does. -/
theorem valueOf_text (hd : d.IsStandard) (o : Parens) (l : List (Operator × Parens))
    (h : ∀ x ∈ o :: l.map Prod.snd, x.Accepted d) :
    (Expr.valueOf d (text o l)).map (·.number.toInterval) =
      (value d o l).map Number.toInterval := by
  have ho := h o List.mem_cons_self
  have hl : ∀ x ∈ l, x.2.Accepted d := fun x hx =>
    h x.2 (List.mem_cons_of_mem _ (List.mem_map_of_mem hx))
  obtain ⟨e, he, hev⟩ := exists_reads_sum ho hl
  rw [← prepare_text hd ho hl] at he
  rw [Expr.valueOf, Expr.read_of_reads he]
  exact hev

theorem value_hexadecimal :
    Dialect.IsStandard ⟨true, some .hexadecimal, .initial⟩ ∧
      (∀ x ∈ [Parens.mk ['a'] none, ⟨['f'], none⟩, ⟨['1', '0'], some ⟨false, true, ['1']⟩⟩],
        x.Accepted ⟨true, some .hexadecimal, .initial⟩) ∧
      (value ⟨true, some .hexadecimal, .initial⟩ ⟨['a'], none⟩ [(.plus, ⟨['f'], none⟩),
        (.times, ⟨['1', '0'], some ⟨false, true, ['1']⟩⟩)]).map Number.toInterval =
          .ok (.point (mkRat 175 16)) := by
  have hd : Dialect.IsStandard ⟨true, some .hexadecimal, .initial⟩ := by
    intro s hs
    exact ⟨16, by decide, _, (Option.some.inj hs).symm⟩
  have haccepted : ∀ x ∈ [Parens.mk ['a'] none, ⟨['f'], none⟩,
      ⟨['1', '0'], some ⟨false, true, ['1']⟩⟩],
        x.Accepted ⟨true, some .hexadecimal, .initial⟩ := by
    simp only [List.mem_cons, List.not_mem_nil, or_false, forall_eq_or_imp, forall_eq]
    refine ⟨⟨⟨.plain (.integer 10), rfl⟩, fun p hp => nomatch hp⟩,
      ⟨⟨.plain (.integer 15), rfl⟩, fun p hp => nomatch hp⟩,
      ⟨⟨.plain (.integer 16), rfl⟩, fun p hp => ?_⟩⟩
    rw [← Option.some.inj hp]
    exact ⟨by decide, forall_of_all (by decide)⟩
  exact ⟨hd, haccepted, (valueOf_text hd ⟨['a'], none⟩ [(.plus, ⟨['f'], none⟩),
    (.times, ⟨['1', '0'], some ⟨false, true, ['1']⟩⟩)] haccepted).symm.trans (by decide +kernel)⟩

end Row

end RatCalc

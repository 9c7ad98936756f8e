import Mathlib.Algebra.Order.Field.Basic
import Mathlib.Algebra.Order.Ring.Rat
import Mathlib.Data.Int.ConditionallyCompleteOrder
import Mathlib.Data.Rat.Lemmas
import Mathlib.Order.Interval.Set.Basic
import Mathlib.Order.Nat
import Mathlib.Tactic.Linarith
import RatCalc.Interval.Points

/-!
# Multiples of unit fractions in an interval

* `Interval.multiples`: the multiples of `1 / d` in an interval.
* `multiples_eq`: their numerators are the integers from one bound to another.
* `firstMultiple?_of_nonempty`, `firstMultiple?_of_empty`: one step of the search for the least
  multiple.
* `firstMultipleFrom_eq`, **`firstMultipleFrom_of_nonempty`**: the search as a whole.
* **`multiples_nonempty`**: a unit fraction below the width has a multiple in the interval.
* **`firstOfPower_least`**: the search ends with the first power that has a multiple in the
  interval.
-/

namespace RatCalc

/-- The first value of a function, if it is among those that are looked at. -/
theorem findSome?_range_of_least {α : Type} {f : Nat → Option α} {k : Nat}
    (hk : IsLeast {k | (f k).isSome} k) (n : Nat) :
    (List.range n).findSome? f = if k < n then f k else none := by
  induction n with
  | zero => rfl
  | succ n ih =>
    rw [List.range_succ, List.findSome?_append, ih, List.findSome?_singleton]
    rcases lt_trichotomy k n with h | rfl | h
    · obtain ⟨a, ha⟩ := Option.isSome_iff_exists.1 hk.1
      rw [if_pos h, if_pos (by omega), ha, Option.some_or]
    · rw [if_neg (by omega), if_pos (by omega), Option.none_or]
    · have hnone : f n = none := Option.not_isSome_iff_eq_none.1 fun hn =>
        absurd (hk.2 hn) (by omega)
      rw [if_neg (by omega), if_neg (by omega), hnone, Option.none_or]

namespace Interval

/-- The multiples of `1 / d` in the interval. -/
def multiples (i : Interval) (d : Nat) : Set Rat := {a | a ∈ i ∧ ∃ n : Int, a * d = n}

variable {i : Interval} {a : Rat} {n : Int} {base d k : Nat}

/-! ## Numerators -/

theorem mkRat_mem_iff (hd : d ≠ 0) :
    mkRat n d ∈ i ↔ (i.low * d).ceil ≤ n ∧ n ≤ (i.high * d).floor := by
  have hpos : (0 : Rat) < d := by exact_mod_cast Nat.pos_of_ne_zero hd
  rw [mem_def, Rat.mkRat_eq_div, le_div_iff₀ hpos, div_le_iff₀ hpos, Rat.ceil_le_iff,
    Rat.le_floor_iff]

/-- **The numerators of the multiples** are the integers between two bounds. -/
theorem multiples_eq (i : Interval) (hd : d ≠ 0) :
    i.multiples d = (fun n : Int => mkRat n d) '' Set.Icc (i.low * d).ceil (i.high * d).floor := by
  have hne : (d : Rat) ≠ 0 := by exact_mod_cast hd
  ext a
  constructor
  · rintro ⟨ha, n, hn⟩
    have heq : mkRat n d = a := by rw [Rat.mkRat_eq_div, ← hn, mul_div_cancel_right₀ _ hne]
    exact ⟨n, (mkRat_mem_iff hd).1 (heq ▸ ha), heq⟩
  · rintro ⟨n, hn, rfl⟩
    refine ⟨(mkRat_mem_iff hd).2 hn, n, ?_⟩
    simp only [Rat.mkRat_eq_div]
    exact div_mul_cancel₀ _ hne

theorem multiples_nonempty_iff (hd : d ≠ 0) :
    (i.multiples d).Nonempty ↔ (i.low * d).ceil ≤ (i.high * d).floor := by
  rw [multiples_eq i hd, Set.image_nonempty, Set.nonempty_Icc]

theorem mkRat_mono (d : Nat) : Monotone fun n : Int => mkRat n d := by
  intro m n h
  simp only [Rat.mkRat_eq_div]
  exact div_le_div_of_nonneg_right (by exact_mod_cast h) d.cast_nonneg

theorem mkRat_strictMono (hd : d ≠ 0) : StrictMono fun n : Int => mkRat n d := by
  intro m n h
  have hpos : (0 : Rat) < d := by exact_mod_cast Nat.pos_of_ne_zero hd
  simp only [Rat.mkRat_eq_div]
  exact div_lt_div_of_pos_right (by exact_mod_cast h) hpos

/-! ## The search -/

theorem firstMultiple?_of_nonempty (hd : d ≠ 0) (h : (i.multiples d).Nonempty) :
    ∃ a, i.firstMultiple? d = some a ∧ IsLeast (i.multiples d) a := by
  have hle := (multiples_nonempty_iff hd).1 h
  refine ⟨mkRat (i.low * d).ceil d, if_pos hle, ?_⟩
  rw [multiples_eq i hd]
  exact (mkRat_mono d).map_isLeast (isLeast_Icc hle)

theorem firstMultiple?_of_empty (hd : d ≠ 0) (h : ¬ (i.multiples d).Nonempty) :
    i.firstMultiple? d = none := if_neg (mt (multiples_nonempty_iff hd).2 h)

theorem isSome_firstMultiple?_iff (hd : d ≠ 0) :
    (i.firstMultiple? d).isSome ↔ (i.multiples d).Nonempty := by
  by_cases h : (i.multiples d).Nonempty
  · obtain ⟨a, ha, -⟩ := firstMultiple?_of_nonempty hd h
    simp [ha, h]
  · simp [firstMultiple?_of_empty hd h, h]

/-- The search goes through the powers of the base, one after the other. -/
theorem firstMultipleFrom_eq (i : Interval) (base tries s : Nat) :
    i.firstMultipleFrom base tries (base ^ s) =
      (List.range tries).findSome? fun k => i.firstMultiple? (base ^ (s + k)) := by
  induction tries generalizing s with
  | zero => rfl
  | succ tries ih =>
    have hshift : (fun k => i.firstMultiple? (base ^ (s + k))) ∘ Nat.succ =
        fun k => i.firstMultiple? (base ^ (s + 1 + k)) := by
      funext k
      exact congrArg (fun m => i.firstMultiple? (base ^ m)) (by omega)
    rw [List.range_succ_eq_map, List.findSome?_cons, List.findSome?_map, hshift, ← ih, pow_succ,
      firstMultipleFrom, Nat.add_zero]
    cases i.firstMultiple? (base ^ s) <;> rfl

theorem firstMultipleFrom_one (i : Interval) (base tries : Nat) :
    i.firstMultipleFrom base tries 1 =
      (List.range tries).findSome? fun k => i.firstMultiple? (base ^ k) := by
  simpa only [pow_zero, Nat.zero_add] using i.firstMultipleFrom_eq base tries 0

/-- **The search ends with the first power that has a multiple**: no try after it is made, and with
fewer tries nothing is found. -/
theorem firstMultipleFrom_of_nonempty {m : Nat} (hbase : base ≠ 0)
    (hm : (i.multiples (base ^ m)).Nonempty) :
    ∃ k ≤ m, IsLeast {k | (i.multiples (base ^ k)).Nonempty} k ∧
      ∃ a, IsLeast (i.multiples (base ^ k)) a ∧
        ∀ tries, i.firstMultipleFrom base tries 1 = if k < tries then some a else none := by
  classical
  obtain ⟨k, hk⟩ : ∃ k, IsLeast {k | (i.multiples (base ^ k)).Nonempty} k :=
    ⟨_, Nat.isLeast_find ⟨m, hm⟩⟩
  obtain ⟨a, ha, hleast⟩ := firstMultiple?_of_nonempty (pow_ne_zero k hbase) hk.1
  have hsome : IsLeast {k | (i.firstMultiple? (base ^ k)).isSome} k := by
    simpa only [isSome_firstMultiple?_iff (pow_ne_zero _ hbase)] using hk
  refine ⟨k, hk.2 hm, hk, a, hleast, fun tries => ?_⟩
  rw [firstMultipleFrom_one, findSome?_range_of_least hsome, ha]

theorem firstMultipleFrom_of_empty (hbase : base ≠ 0) {tries : Nat}
    (h : ∀ k < tries, ¬ (i.multiples (base ^ k)).Nonempty) :
    i.firstMultipleFrom base tries 1 = none := by
  rw [firstMultipleFrom_one, List.findSome?_eq_none_iff]
  exact fun k hk => firstMultiple?_of_empty (pow_ne_zero k hbase) (h k (List.mem_range.1 hk))

/-! ## How far it goes -/

/-- **A unit fraction that is at most the width** has a multiple in the interval: the first integer
from one endpoint on is before the other. -/
theorem multiples_nonempty (hd : d ≠ 0) (h : 1 ≤ i.width * d) : (i.multiples d).Nonempty := by
  rw [multiples_nonempty_iff hd, Rat.le_floor_iff]
  have hceil := Rat.ceil_lt (x := i.low * d)
  rw [width, sub_mul] at h
  linarith

/-- The number of tries is enough for a unit fraction below the width. -/
theorem one_le_width_mul (hbase : 2 ≤ base) (h : i.low < i.high) :
    1 ≤ i.width * (base ^ (Nat.log2 i.width.den + 1) : Nat) := by
  have hnum : 0 < i.width.num := Rat.num_pos.2 (sub_pos.2 h)
  have hden : i.width.den ≤ base ^ (Nat.log2 i.width.den + 1) :=
    Nat.lt_log2_self.le.trans (Nat.pow_le_pow_left hbase _)
  have hpos : (0 : Rat) < i.width.den := by exact_mod_cast i.width.den_pos
  have hwidth : 1 / i.width.den ≤ i.width := by
    conv_rhs => rw [← Rat.num_div_den i.width]
    exact div_le_div_of_nonneg_right (by exact_mod_cast hnum) hpos.le
  calc (1 : Rat) = 1 / i.width.den * i.width.den := by rw [div_mul_cancel₀ _ hpos.ne']
    _ ≤ i.width * (base ^ (Nat.log2 i.width.den + 1) : Nat) :=
      mul_le_mul hwidth (by exact_mod_cast hden) hpos.le (sub_nonneg.2 h.le)

/-- The only number of a point is a multiple or there is none. -/
theorem mem_multiples_of_point (h : i.low = i.high) :
    a ∈ i.multiples d ↔ a = i.low ∧ ∃ n : Int, i.low * d = n := by
  have hmem : a ∈ i ↔ a = i.low := by
    rw [mem_def, ← h, le_antisymm_iff, and_comm]
  constructor
  · rintro ⟨ha, hn⟩
    rw [hmem] at ha
    exact ⟨ha, ha ▸ hn⟩
  · rintro ⟨rfl, hn⟩
    exact ⟨hmem.2 rfl, hn⟩

theorem firstOfPower_eq (i : Interval) (hbase : 2 ≤ base) :
    i.firstOfPower base = .ok (i.firstMultipleFrom base i.powersTried 1) :=
  if_neg (by omega)

/-- **The least multiple of the first power that has one.** In an interval of more than one number
the search ends: the first power of the base that has a multiple in the interval is reached, and its
least multiple is the result. A single number is the result if one of the first fifty powers has it
as a multiple. -/
theorem firstOfPower_least (i : Interval) (hbase : 2 ≤ base) :
    (i.low < i.high → ∃ k a, IsLeast {k | (i.multiples (base ^ k)).Nonempty} k ∧
      IsLeast (i.multiples (base ^ k)) a ∧ i.firstOfPower base = .ok (some a) ∧
      ∀ tries, i.firstMultipleFrom base tries 1 = if k < tries then some a else none) ∧
    (i.low = i.high →
      ((∃ k ≤ 50, ∃ n : Int, i.low * (base ^ k : Nat) = n) →
        i.firstOfPower base = .ok (some i.low)) ∧
      ((∀ k ≤ 50, ∀ n : Int, i.low * (base ^ k : Nat) ≠ n) → i.firstOfPower base = .ok none)) := by
  have hbase0 : base ≠ 0 := by omega
  constructor
  · intro h
    have hlast := multiples_nonempty (pow_ne_zero _ hbase0) (one_le_width_mul hbase h)
    obtain ⟨k, hle, hk, a, ha, htries⟩ := firstMultipleFrom_of_nonempty hbase0 hlast
    have htried : i.powersTried = Nat.log2 i.width.den + 2 :=
      if_neg (ne_true_of_eq_false (beq_eq_false_iff_ne.2 h.ne))
    refine ⟨k, a, hk, ha, ?_, htries⟩
    rw [firstOfPower_eq i hbase, htries, htried, if_pos (by omega)]
  · intro h
    have htried : i.powersTried = 51 := if_pos (beq_iff_eq.2 h)
    rw [firstOfPower_eq i hbase, htried]
    constructor
    · rintro ⟨m, hm, hn⟩
      have hpoint : (i.multiples (base ^ m)).Nonempty :=
        ⟨_, (mem_multiples_of_point h).2 ⟨rfl, hn⟩⟩
      obtain ⟨k, hkm, -, a, ha, htries⟩ := firstMultipleFrom_of_nonempty hbase0 hpoint
      rw [htries, if_pos (by omega), ((mem_multiples_of_point h).1 ha.1).1]
    · intro hn
      refine congrArg Except.ok (firstMultipleFrom_of_empty hbase0 fun k hk => ?_)
      rintro ⟨a, ha⟩
      obtain ⟨-, n, hkn⟩ := (mem_multiples_of_point h).1 ha
      exact hn k (by omega) n hkn

/-- No half, but a quarter; a point that is no decimal. -/
theorem quarter_between_thirds_and_fifths :
    let i := hull (-1 / 3) (-1 / 5)
    (i.low < i.high ∧ i.firstOfPower 2 = .ok (some (-1 / 4)) ∧
      ∃ k, IsLeast {k | (i.multiples (2 ^ k)).Nonempty} k ∧
        IsLeast (i.multiples (2 ^ k)) (-1 / 4)) ∧
    (hull (1 / 3) (1 / 3)).firstOfPower 3 = .ok (some (1 / 3)) := by
  intro i
  have hlt : i.low < i.high := by with_unfolding_all decide
  have hfound : i.firstOfPower 2 = .ok (some (-1 / 4)) := by with_unfolding_all decide
  obtain ⟨k, a, hk, ha, hok, -⟩ := (firstOfPower_least i (le_refl 2)).1 hlt
  have heq : a = -1 / 4 := Option.some.inj (Except.ok.inj (hok.symm.trans hfound))
  have hthird := ((firstOfPower_least (hull (1 / 3) (1 / 3)) (show 2 ≤ 3 by decide)).2
    (by with_unfolding_all decide)).1 ⟨1, by decide, 1, by with_unfolding_all decide⟩
  have hlow : (hull (1 / 3) (1 / 3)).low = 1 / 3 := by with_unfolding_all decide
  rw [hlow] at hthird
  exact ⟨⟨hlt, hfound, k, hk, heq ▸ ha⟩, hthird⟩

end Interval

end RatCalc

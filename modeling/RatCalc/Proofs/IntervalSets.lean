import RatCalc.Interval.Sets
import RatCalc.Proofs.IntervalArithmetic

/-!
# Intersection and union are those of the sets

* `numbers`: the numbers of an interval that may not exist; two such are equal if their numbers are.
* `overlaps_iff`, `overlaps_eq_false_iff`: intervals have a common number, or a gap between them.
* `numbers_intersection`, `union_eq_some_iff`: what each operation gives, as a set.
* **`setOperations`**: all comparisons and operations are those of the sets of numbers, and they
  obey the laws of sets.
-/

namespace RatCalc.Interval

variable {i j k p q u : Interval} {o o' : Option Interval} {x : Rat}

/-! ## Sets of numbers -/

theorem toSet_injective : Function.Injective toSet := fun _ _ h =>
  subset_antisymm h.subset h.superset

/-- The numbers of an interval, and none if there is no interval. -/
def numbers : Option Interval → Set Rat
  | none => ∅
  | some i => i.toSet

@[simp] theorem numbers_none : numbers none = ∅ := rfl

@[simp] theorem numbers_some (i : Interval) : numbers (some i) = i.toSet := rfl

theorem toSet_nonempty (i : Interval) : i.toSet.Nonempty := ⟨i.low, i.low_mem⟩

/-- Intervals have numbers, so that none of them is mistaken for a missing one. -/
theorem numbers_injective : Function.Injective numbers := by
  intro o o' h
  cases o with
  | none =>
    cases o' with
    | none => rfl
    | some j => exact absurd h.symm j.toSet_nonempty.ne_empty
  | some i =>
    cases o' with
    | none => exact absurd h i.toSet_nonempty.ne_empty
    | some j => exact congrArg some (toSet_injective h)

/-! ## Comparisons -/

theorem overlaps_eq_true_iff : i.overlaps j = true ↔ j.low ≤ i.high ∧ i.low ≤ j.high := by
  rw [overlaps, Bool.not_eq_true', Bool.or_eq_false_iff, decide_eq_false_iff_not,
    decide_eq_false_iff_not, not_lt, not_lt]

theorem overlaps_comm (i j : Interval) : i.overlaps j = j.overlaps i := by
  rw [Bool.eq_iff_iff, overlaps_eq_true_iff, overlaps_eq_true_iff, and_comm]

/-- The greater of the lower endpoints is in both, if any number is. -/
theorem overlaps_iff : i.overlaps j = true ↔ ∃ x, x ∈ i ∧ x ∈ j := by
  rw [overlaps_eq_true_iff]
  constructor
  · rintro ⟨h, h'⟩
    exact ⟨max i.low j.low, ⟨le_max_left _ _, max_le i.low_le_high h⟩,
      le_max_right _ _, max_le h' j.low_le_high⟩
  · rintro ⟨x, hi, hj⟩
    exact ⟨hj.1.trans hi.2, hi.1.trans hj.2⟩

/-- Between intervals without a common number there is a number of neither. -/
theorem overlaps_eq_false_iff :
    i.overlaps j = false ↔ ∃ x, i.high < x ∧ x < j.low ∨ j.high < x ∧ x < i.low := by
  rw [← Bool.not_eq_true, overlaps_eq_true_iff, not_and_or, not_le, not_le, exists_or]
  refine or_congr ⟨exists_between, ?_⟩ ⟨exists_between, ?_⟩
  · rintro ⟨x, h, h'⟩
    exact h.trans h'
  · rintro ⟨x, h, h'⟩
    exact h.trans h'

theorem contains_iff : i.contains j = true ↔ ∀ x, x ∈ j → x ∈ i := by
  rw [contains, Bool.and_eq_true, decide_eq_true_eq, decide_eq_true_eq]
  exact subset_iff.symm

/-! ## Intersections -/

theorem numbers_intersection (i j : Interval) :
    numbers (i.intersection j) = i.toSet ∩ j.toSet := by
  rw [intersection]
  split_ifs with h
  · obtain ⟨hji, hij⟩ := overlaps_eq_true_iff.1 h
    have hle : max i.low j.low ≤ min i.high j.high :=
      max_le (le_min i.low_le_high hij) (le_min hji j.low_le_high)
    rw [greater_eq_max, lesser_eq_min, hull_of_le hle]
    ext x
    exact (and_congr max_le_iff le_min_iff).trans and_and_and_comm
  · refine (Set.eq_empty_of_forall_notMem fun x hx => h ?_).symm
    exact overlaps_iff.2 ⟨x, hx⟩

theorem numbers_bind_intersection (o : Option Interval) (k : Interval) :
    numbers (o.bind (·.intersection k)) = numbers o ∩ k.toSet := by
  cases o with
  | none => exact (Set.empty_inter _).symm
  | some i => exact numbers_intersection i k

theorem intersection_comm (i j : Interval) : i.intersection j = j.intersection i := by
  apply numbers_injective
  rw [numbers_intersection, numbers_intersection, Set.inter_comm]

theorem intersection_assoc (i j k : Interval) :
    (i.intersection j).bind (·.intersection k) = (j.intersection k).bind i.intersection := by
  have hcomm : i.intersection = (·.intersection i) := funext fun p => intersection_comm i p
  apply numbers_injective
  rw [numbers_bind_intersection, numbers_intersection, hcomm, numbers_bind_intersection,
    numbers_intersection, Set.inter_assoc, Set.inter_comm]

/-! ## Unions -/

/-- The intervals have an endpoint in common at which one ends and the other begins. -/
def Touching (i j : Interval) : Prop := i.high = j.low ∨ j.high = i.low

/-- Intervals contain their endpoints, so touching intervals have a number in common. -/
theorem Touching.overlaps (h : Touching i j) : i.overlaps j = true := by
  rw [overlaps_iff]
  rcases h with h | h
  · exact ⟨i.high, i.high_mem, h ▸ j.low_mem⟩
  · exact ⟨j.high, h ▸ i.low_mem, j.high_mem⟩

/-- The hull of two intervals has no other numbers than theirs, as there is no gap. -/
theorem union_of_overlaps (h : i.overlaps j = true) :
    ∃ u, i.union j = some u ∧ u.toSet = i.toSet ∪ j.toSet := by
  obtain ⟨hji, hij⟩ := overlaps_eq_true_iff.1 h
  have hle : min i.low j.low ≤ max i.high j.high :=
    (min_le_left _ _).trans (i.low_le_high.trans (le_max_left _ _))
  refine ⟨⟨min i.low j.low, max i.high j.high, hle⟩, ?_, ?_⟩
  · rw [union, if_pos h, lesser_eq_min, greater_eq_max, hull_of_le hle]
  · ext x
    refine (and_congr min_le_iff le_max_iff).trans ⟨?_, ?_⟩
    · rintro ⟨hlow | hlow, hhigh | hhigh⟩
      · exact .inl ⟨hlow, hhigh⟩
      · rcases le_total x i.high with hx | hx
        · exact .inl ⟨hlow, hx⟩
        · exact .inr ⟨hji.trans hx, hhigh⟩
      · rcases le_total x j.high with hx | hx
        · exact .inr ⟨hlow, hx⟩
        · exact .inl ⟨hij.trans hx, hhigh⟩
      · exact .inr ⟨hlow, hhigh⟩
    · rintro (⟨hlow, hhigh⟩ | ⟨hlow, hhigh⟩)
      · exact ⟨.inl hlow, .inl hhigh⟩
      · exact ⟨.inr hlow, .inr hhigh⟩

theorem union_eq_none_iff : i.union j = none ↔ i.overlaps j = false := by
  rw [union]
  split_ifs with h
  · exact ⟨fun h' => (by cases h'), fun h' => by rw [h] at h'; cases h'⟩
  · exact ⟨fun _ => Bool.eq_false_iff.2 h, fun _ => rfl⟩

theorem union_eq_some_iff :
    i.union j = some u ↔ i.overlaps j = true ∧ u.toSet = i.toSet ∪ j.toSet := by
  cases h : i.overlaps j with
  | false => simp [union_eq_none_iff.2 h]
  | true =>
    obtain ⟨v, hv, hset⟩ := union_of_overlaps h
    rw [hv, Option.some.injEq, eq_self, true_and, ← hset, toSet_injective.eq_iff, eq_comm]

theorem union_comm (i j : Interval) : i.union j = j.union i := by
  ext u
  rw [union_eq_some_iff, union_eq_some_iff, overlaps_comm, Set.union_comm]

/-- If the interval in the middle meets both others, all may be joined in either order. -/
theorem union_assoc (hp : i.union j = some p) (hq : j.union k = some q) :
    ∃ u, p.union k = some u ∧ i.union q = some u := by
  obtain ⟨hij, hp⟩ := union_eq_some_iff.1 hp
  obtain ⟨hjk, hq⟩ := union_eq_some_iff.1 hq
  have hpk : p.overlaps k = true := by
    obtain ⟨x, hj, hk⟩ := overlaps_iff.1 hjk
    exact overlaps_iff.2 ⟨x, hp.superset (.inr hj), hk⟩
  have hiq : i.overlaps q = true := by
    obtain ⟨x, hi, hj⟩ := overlaps_iff.1 hij
    exact overlaps_iff.2 ⟨x, hi, hq.superset (.inl hj)⟩
  obtain ⟨u, hu, hset⟩ := union_of_overlaps hpk
  refine ⟨u, hu, union_eq_some_iff.2 ⟨hiq, ?_⟩⟩
  rw [hset, hp, hq, Set.union_assoc]

/-! ## Absorption -/

theorem intersection_union (h : i.union j = some u) : i.intersection u = some i := by
  apply numbers_injective
  rw [numbers_intersection, (union_eq_some_iff.1 h).2]
  exact Set.inter_eq_left.2 Set.subset_union_left

theorem union_intersection (h : i.intersection j = some p) : i.union p = some i := by
  have hset : p.toSet = i.toSet ∩ j.toSet := by rw [← numbers_intersection, h, numbers_some]
  refine union_eq_some_iff.2 ⟨?_, ?_⟩
  · exact overlaps_iff.2 ⟨p.low, (hset.subset p.low_mem).1, p.low_mem⟩
  · rw [hset]
    exact (Set.union_eq_left.2 Set.inter_subset_left).symm

/-! ## Sets -/

/-- The operations on intervals are those on their sets of numbers. -/
structure SetOperations (i j k : Interval) : Prop where
  overlaps : i.overlaps j = true ↔ ∃ x, x ∈ i ∧ x ∈ j
  contains : i.contains j = true ↔ ∀ x, x ∈ j → x ∈ i
  intersection_none : i.intersection j = none ↔ ¬∃ x, x ∈ i ∧ x ∈ j
  intersection_some : ∀ p, i.intersection j = some p → ∀ x, x ∈ p ↔ x ∈ i ∧ x ∈ j
  union_none : i.union j = none ↔ ¬(∃ x, x ∈ i ∧ x ∈ j) ∧ ¬Touching i j
  /-- Where there is no union, some number in a gap keeps the intervals apart. -/
  union_gap : i.union j = none ↔ ∃ x, i.high < x ∧ x < j.low ∨ j.high < x ∧ x < i.low
  union_some : ∀ u, i.union j = some u → ∀ x, x ∈ u ↔ x ∈ i ∨ x ∈ j
  intersection_comm : i.intersection j = j.intersection i
  union_comm : i.union j = j.union i
  intersection_assoc :
    (i.intersection j).bind (·.intersection k) = (j.intersection k).bind i.intersection
  union_assoc : ∀ p q, i.union j = some p → j.union k = some q →
    ∃ u, p.union k = some u ∧ i.union q = some u
  intersection_union : ∀ u, i.union j = some u → i.intersection u = some i
  union_intersection : ∀ p, i.intersection j = some p → i.union p = some i

/-- **Intervals are sets of numbers.** Two intervals overlap if a number is in both, one contains
another if all numbers of the other are in it, and intersection and union have the numbers of both
and of either. There is no intersection exactly if no number is in both, and no union exactly if a
gap lies between; both operations are commutative and associative, and each absorbs the other. -/
theorem setOperations (i j k : Interval) : SetOperations i j k where
  overlaps := overlaps_iff
  contains := contains_iff
  intersection_none := by
    rw [← numbers_injective.eq_iff, numbers_intersection, numbers_none,
      ← Set.not_nonempty_iff_eq_empty]
    rfl
  intersection_some p h x := by
    have hset : p.toSet = i.toSet ∩ j.toSet := by rw [← numbers_intersection, h, numbers_some]
    exact Set.ext_iff.1 hset x
  union_none := by
    rw [union_eq_none_iff, ← overlaps_iff, Bool.not_eq_true]
    exact ⟨fun h => ⟨h, fun ht => by rw [ht.overlaps] at h; cases h⟩, And.left⟩
  union_gap := union_eq_none_iff.trans overlaps_eq_false_iff
  union_some u h := Set.ext_iff.1 (union_eq_some_iff.1 h).2
  intersection_comm := intersection_comm i j
  union_comm := union_comm i j
  intersection_assoc := intersection_assoc i j k
  union_assoc _ _ := union_assoc
  intersection_union _ := intersection_union
  union_intersection _ := union_intersection

end RatCalc.Interval

import RatCalc.Proofs.Mediants

/-!
# Splitting at given points

Points of one value are one boundary. Which of their written forms it has depends on the order in
which they come: the lower endpoint, the points as they are given, and then the upper endpoint.

* `sorted_sortByValue`, `perm_sortByValue`, **`firstWith_sortByValue`**: the points in order, with
  the first one of each value still in front of the others.
* **`pieces_spec`**: the pieces are linked and none is a single number; their boundaries are the
  first fractions of the values.
* `exists_boundary`, `toRat_last`: all values occur, the greatest one as that of the last boundary.
* **`partitionAt_boundaries`**: the boundaries of an interval that is split at points.
-/

namespace RatCalc.FractionInterval

variable {a b start : Fraction} {i : FractionInterval} {points : List Fraction}
  {ps : List FractionInterval} {v : Rat}

/-! ## Sorting -/

/-- Fractions in the order of their values. -/
def Sorted (points : List Fraction) : Prop := points.Pairwise fun a b => a.toRat ≤ b.toRat

/-- The first of the fractions with a value. -/
def firstWith (v : Rat) (points : List Fraction) : Option Fraction :=
  points.find? fun a => decide (a.toRat = v)

theorem Sorted.head_le (h : Sorted (b :: points)) : ∀ a ∈ b :: points, b.toRat ≤ a.toRat :=
  List.forall_mem_cons.2 ⟨le_refl _, (List.pairwise_cons.1 h).1⟩

theorem Sorted.tail (h : Sorted (b :: points)) : Sorted points := (List.pairwise_cons.1 h).2

theorem perm_insertByValue (a : Fraction) (points : List Fraction) :
    (insertByValue a points).Perm (a :: points) := by
  induction points with
  | nil => exact .refl _
  | cons b rest ih =>
    rw [insertByValue]
    split_ifs with h
    · exact (ih.cons b).trans (.swap a b rest)
    · exact .refl _

theorem sorted_insertByValue (h : Sorted points) : Sorted (insertByValue a points) := by
  induction points with
  | nil => exact List.pairwise_singleton _ a
  | cons b rest ih =>
    rw [insertByValue]
    split_ifs with hba
    · refine List.pairwise_cons.2 ⟨fun c hc => ?_, ih h.tail⟩
      rcases List.mem_cons.1 ((perm_insertByValue a rest).mem_iff.1 hc) with rfl | hc
      · exact hba
      · exact h.head_le c (List.mem_cons_of_mem b hc)
    · have hab : a.toRat ≤ b.toRat := (not_le.1 hba).le
      exact List.pairwise_cons.2 ⟨fun c hc => hab.trans (h.head_le c hc), h⟩

theorem firstWith_cons :
    firstWith v (a :: points) = if a.toRat = v then some a else firstWith v points := by
  rw [firstWith, List.find?_cons]
  split_ifs with h <;> simp [firstWith, h]

theorem firstWith_append (v : Rat) (points later : List Fraction) :
    firstWith v (points ++ later) = (firstWith v points).or (firstWith v later) :=
  List.find?_append

theorem firstWith_eq_none (h : ∀ a ∈ points, a.toRat ≠ v) : firstWith v points = none :=
  List.find?_eq_none.2 fun a ha => by simpa using h a ha

theorem mem_of_firstWith (h : firstWith v points = some a) : a ∈ points ∧ a.toRat = v :=
  ⟨List.mem_of_find?_eq_some h, by simpa using List.find?_some h⟩

theorem exists_firstWith (h : a ∈ points) : ∃ b, firstWith a.toRat points = some b := by
  rw [← Option.isSome_iff_exists, firstWith, List.find?_isSome]
  exact ⟨a, h, by simp⟩

/-- A fraction is put behind those of the same value. -/
theorem firstWith_insertByValue (h : Sorted points) :
    firstWith v (insertByValue a points) = firstWith v (points ++ [a]) := by
  induction points with
  | nil => rfl
  | cons b rest ih =>
    rw [insertByValue]
    split_ifs with hba
    · rw [List.cons_append, firstWith_cons, firstWith_cons, ih h.tail]
    · rw [firstWith_cons, firstWith_append]
      split_ifs with hav
      · -- all others have greater values
        have hnone : firstWith v (b :: rest) = none := by
          refine firstWith_eq_none fun c hc => ?_
          rw [← hav]
          exact ((not_le.1 hba).trans_le (h.head_le c hc)).ne'
        rw [hnone, firstWith_cons, if_pos hav, Option.none_or]
      · have hnone : firstWith v [a] = none := firstWith_eq_none (by simpa using hav)
        rw [hnone, Option.or_none]

theorem sortByValue_append (points : List Fraction) (a : Fraction) :
    sortByValue (points ++ [a]) = insertByValue a (sortByValue points) := by
  rw [sortByValue, List.foldl_append]
  rfl

theorem sorted_sortByValue (points : List Fraction) : Sorted (sortByValue points) := by
  induction points using List.reverseRecOn with
  | nil => exact List.Pairwise.nil
  | append_singleton points a ih =>
    rw [sortByValue_append]
    exact sorted_insertByValue ih

theorem perm_sortByValue (points : List Fraction) : (sortByValue points).Perm points := by
  induction points using List.reverseRecOn with
  | nil => exact .refl _
  | append_singleton points a ih =>
    rw [sortByValue_append]
    exact (perm_insertByValue a _).trans
      ((ih.cons a).trans (List.perm_append_singleton a points).symm)

/-- **Fractions of one value keep their order.** -/
theorem firstWith_sortByValue (v : Rat) (points : List Fraction) :
    firstWith v (sortByValue points) = firstWith v points := by
  induction points using List.reverseRecOn with
  | nil => rfl
  | append_singleton points a ih =>
    rw [sortByValue_append, firstWith_insertByValue (sorted_sortByValue points),
      firstWith_append, ih, firstWith_append]

/-! ## Pieces between neighbours -/

/-- The first fractions of values greater than that of the start are the next one and the first
fractions of values greater than that of the next one. -/
theorem eq_or_first_iff (h : Sorted (b :: points)) (hless : start.toRat < b.toRat) :
    a = b ∨ (a.toRat ≠ b.toRat ∧ firstWith a.toRat points = some a) ↔
      a.toRat ≠ start.toRat ∧ firstWith a.toRat (b :: points) = some a := by
  rw [firstWith_cons]
  split_ifs with hba
  · constructor
    · rintro (rfl | ⟨hne, -⟩)
      · exact ⟨hless.ne', rfl⟩
      · exact absurd hba.symm hne
    · rintro ⟨-, hab⟩
      exact .inl (Option.some.inj hab).symm
  · constructor
    · rintro (rfl | ⟨-, hfirst⟩)
      · exact absurd rfl hba
      · have hle := h.head_le a (List.mem_cons_of_mem b (mem_of_firstWith hfirst).1)
        exact ⟨(hless.trans_le hle).ne', hfirst⟩
    · rintro ⟨-, hfirst⟩
      exact .inr ⟨Ne.symm hba, hfirst⟩

/-- **The pieces** lead from the start through the first fraction of each greater value. -/
theorem pieces_spec (h : Sorted (start :: points)) :
    (∃ last, Linked start (pieces start points) last) ∧
    (∀ p ∈ pieces start points, p.low.toRat < p.high.toRat) ∧
    ∀ a, a ∈ (pieces start points).map high ↔
      a.toRat ≠ start.toRat ∧ firstWith a.toRat points = some a := by
  induction points generalizing start with
  | nil => exact ⟨⟨start, rfl⟩, by simp [pieces], by simp [pieces, firstWith]⟩
  | cons b rest ih =>
    have hsorted : Sorted (b :: rest) := h.tail
    obtain ⟨hstart, hrest⟩ := List.forall_mem_cons.1 (List.pairwise_cons.1 h).1
    rw [pieces]
    split_ifs with heq
    · -- a fraction of the same value is passed over
      obtain ⟨hlinked, hlt, hmem⟩ := ih (List.pairwise_cons.2 ⟨hrest, hsorted.tail⟩)
      refine ⟨hlinked, hlt, fun a => ?_⟩
      rw [hmem a, firstWith_cons]
      refine and_congr_right fun hne => ?_
      rw [if_neg fun hba => hne (hba.symm.trans heq)]
    · obtain ⟨⟨last, hlinked⟩, hlt, hmem⟩ := ih hsorted
      have hless : start.toRat < b.toRat := lt_of_le_of_ne hstart (Ne.symm heq)
      rw [hull_of_le hless.le]
      refine ⟨⟨last, rfl, hlinked⟩, ?_, fun a => ?_⟩
      · rw [List.forall_mem_cons]
        exact ⟨hless, hlt⟩
      · rw [List.map_cons, List.mem_cons, hmem a]
        exact eq_or_first_iff hsorted hless

/-! ## The last boundary -/

theorem Linked.le_last (h : Linked a ps b) :
    a.toRat ≤ b.toRat ∧ ∀ p ∈ ps, p.high.toRat ≤ b.toRat := by
  induction ps generalizing a with
  | nil =>
    obtain rfl := linked_nil.1 h
    exact ⟨le_refl _, by simp⟩
  | cons p rest ih =>
    obtain ⟨rfl, h⟩ := h
    obtain ⟨hle, hall⟩ := ih h
    exact ⟨p.low_le_high.trans hle, List.forall_mem_cons.2 ⟨hle, hall⟩⟩

theorem Linked.lt_last (h : Linked a ps b) (hps : ∀ p ∈ ps, p.low.toRat < p.high.toRat)
    (hne : ps ≠ []) : a.toRat < b.toRat := by
  cases ps with
  | nil => exact absurd rfl hne
  | cons p rest =>
    obtain ⟨rfl, h⟩ := h
    exact (hps p List.mem_cons_self).trans_le h.le_last.1

theorem Linked.last_mem (h : Linked a ps b) : b ∈ a :: ps.map high := by
  induction ps generalizing a with
  | nil =>
    obtain rfl := linked_nil.1 h
    exact List.mem_singleton_self a
  | cons p rest ih => exact List.mem_cons_of_mem a (ih h.2)

/-- Every value that is given is that of a boundary. -/
theorem exists_boundary (h : Sorted (start :: points)) (ha : a ∈ points) :
    ∃ b ∈ start :: (pieces start points).map high, b.toRat = a.toRat := by
  by_cases heq : a.toRat = start.toRat
  · exact ⟨start, List.mem_cons_self, heq.symm⟩
  · obtain ⟨b, hb⟩ := exists_firstWith ha
    have hba := (mem_of_firstWith hb).2
    refine ⟨b, List.mem_cons_of_mem _ (((pieces_spec h).2.2 b).2 ⟨?_, ?_⟩), hba⟩
    · rwa [hba]
    · rwa [hba]

/-- The last boundary has the greatest value. -/
theorem toRat_last {last : Fraction} (h : Sorted (start :: (points ++ [b])))
    (hlast : Linked start (pieces start (points ++ [b])) last) : last.toRat = b.toRat := by
  have hsorted : Sorted (start :: points ++ [b]) := h
  have hle : ∀ a ∈ start :: points, a.toRat ≤ b.toRat := fun a ha =>
    (List.pairwise_append.1 hsorted).2.2 a ha b (List.mem_singleton_self b)
  apply le_antisymm
  · rcases List.mem_cons.1 hlast.last_mem with rfl | hmem
    · exact hle _ List.mem_cons_self
    · have hfirst := mem_of_firstWith (((pieces_spec h).2.2 last).1 hmem).2
      rcases List.mem_append.1 hfirst.1 with hpoint | hb
      · exact hle _ (List.mem_cons_of_mem _ hpoint)
      · rw [List.mem_singleton.1 hb]
  · obtain ⟨c, hc, hcb⟩ := exists_boundary h (List.mem_append_right _ (List.mem_singleton_self b))
    rw [← hcb]
    rcases List.mem_cons.1 hc with rfl | hc
    · exact hlast.le_last.1
    · obtain ⟨p, hp, rfl⟩ := List.mem_map.1 hc
      exact hlast.le_last.2 p hp

/-! ## An interval split at points -/

theorem any_outside_iff (i : FractionInterval) (points : List Fraction) :
    ((sortByValue points).any fun a => a.toRat < i.low.toRat || i.high.toRat < a.toRat) ↔
      ∃ a ∈ points, a.toRat ∉ i.toInterval := by
  simp only [List.any_eq_true, Bool.or_eq_true, decide_eq_true_eq,
    (perm_sortByValue points).mem_iff, Interval.mem_def, toInterval, not_and_or, not_le]

theorem sorted_boundaries (h : ∀ a ∈ points, a.toRat ∈ i.toInterval) :
    Sorted (i.low :: (sortByValue points ++ [i.high])) := by
  have hinside : ∀ a ∈ sortByValue points, a.toRat ∈ i.toInterval := fun a ha =>
    h a ((perm_sortByValue points).mem_iff.1 ha)
  refine List.pairwise_cons.2 ⟨fun a ha => ?_, List.pairwise_append.2
    ⟨sorted_sortByValue points, List.pairwise_singleton _ _, fun a ha b hb => ?_⟩⟩
  · rcases List.mem_append.1 ha with ha | ha
    · exact (hinside a ha).1
    · rw [List.mem_singleton.1 ha]
      exact i.low_le_high
  · rw [List.mem_singleton.1 hb]
    exact (hinside a ha).2

/-- **Where an interval is split.** Points outside are refused. With all points inside, the pieces
lead from the lower endpoint, as it is written, through boundaries that increase and have all values
that are given; after the lower endpoint, a boundary is the first fraction of its value among the
points and the upper endpoint behind them. So an interval of one number has no pieces, and another
one ends in the first point that has the value of the upper endpoint, if there is one, and only
else in the upper endpoint as it is written. -/
theorem partitionAt_boundaries (i : FractionInterval) (points : List Fraction) :
    ((∃ a ∈ points, a.toRat ∉ i.toInterval) →
      i.partitionAt points = .error (.calculation .partitionOutside)) ∧
    ((∀ a ∈ points, a.toRat ∈ i.toInterval) →
      ∃ ps last, i.partitionAt points = .ok ps ∧ Linked i.low ps last ∧
        ((i.low :: ps.map high).map Fraction.toRat).Pairwise (· < ·) ∧
        (∀ a ∈ points, ∃ b ∈ i.low :: ps.map high, b.toRat = a.toRat) ∧
        (∀ a, a ∈ ps.map high ↔ a.toRat ≠ i.low.toRat ∧
          firstWith a.toRat (points ++ [i.high]) = some a) ∧
        (ps = [] ↔ i.low.toRat = i.high.toRat) ∧
        (i.low.toRat ≠ i.high.toRat → last = (firstWith i.high.toRat points).getD i.high)) := by
  refine ⟨fun h => if_pos ((any_outside_iff i points).2 h), fun h => ?_⟩
  have hsorted := sorted_boundaries h
  have hoff : ¬ ∃ a ∈ points, a.toRat ∉ i.toInterval := fun ⟨a, ha, hout⟩ => hout (h a ha)
  obtain ⟨⟨last, hlinked⟩, hlt, hmem⟩ := pieces_spec hsorted
  have hfirst (v : Rat) : firstWith v (sortByValue points ++ [i.high]) =
      firstWith v (points ++ [i.high]) := by
    rw [firstWith_append, firstWith_sortByValue, firstWith_append]
  have hlast : last.toRat = i.high.toRat := toRat_last hsorted hlinked
  refine ⟨_, last, if_neg (mt (any_outside_iff i points).1 hoff), hlinked, hlinked.pairwise hlt,
    fun a ha => ?_, fun a => ?_, ?_, fun hne => ?_⟩
  · exact exists_boundary hsorted
      (List.mem_append_left _ ((perm_sortByValue points).mem_iff.2 ha))
  · rw [hmem a, hfirst]
  · constructor
    · intro hnil
      rw [hnil] at hlinked
      rw [← hlast, linked_nil.1 hlinked]
    · intro heq
      by_contra hne
      exact (hlinked.lt_last hlt hne).ne (heq.trans hlast.symm)
  · have hmem_last : last ∈ (pieces i.low (sortByValue points ++ [i.high])).map high := by
      refine (List.mem_cons.1 hlinked.last_mem).resolve_left fun heq => hne ?_
      rw [← hlast, heq]
    have hfound := ((hmem last).1 hmem_last).2
    rw [hfirst, hlast, firstWith_append, firstWith_cons, if_pos rfl, Option.or_some] at hfound
    exact (Option.some.inj hfound).symm

/-- A point written as `2/2` is kept in the place of the endpoint `1/1`, a point outside is refused,
and between `1/2` and `2/4` there is no piece. -/
theorem two_halves_for_one :
    let one : Fraction := ⟨1, 1, by decide⟩
    let twoHalves : Fraction := ⟨2, 2, by decide⟩
    let i := hull ⟨0, 1, by decide⟩ one
    let j := hull ⟨1, 2, by decide⟩ ⟨2, 4, by decide⟩
    (i.high = one ∧ (∀ a ∈ [twoHalves], a.toRat ∈ i.toInterval) ∧
      ∃ ps, i.partitionAt [twoHalves] = .ok ps ∧ ps ≠ [] ∧ Linked i.low ps twoHalves) ∧
    ((∃ a ∈ [twoHalves], a.toRat ∉ j.toInterval) ∧
      j.partitionAt [twoHalves] = .error (.calculation .partitionOutside)) ∧
    j.low.toRat = j.high.toRat ∧ j.partitionAt [] = .ok [] := by
  intro one twoHalves i j
  have hinside : ∀ a ∈ [twoHalves], a.toRat ∈ i.toInterval := by decide
  have houtside : ∃ a ∈ [twoHalves], a.toRat ∉ j.toInterval := by decide
  have hmore : i.low.toRat ≠ i.high.toRat := by decide
  have hpoint : j.low.toRat = j.high.toRat := by decide
  obtain ⟨ps, last, hok, hlinked, -, -, -, hnil, hlast⟩ :=
    (partitionAt_boundaries i [twoHalves]).2 hinside
  obtain ⟨qs, -, hqs, -, -, -, -, hempty, -⟩ := (partitionAt_boundaries j []).2 (by simp)
  have hfirst : (firstWith i.high.toRat [twoHalves]).getD i.high = twoHalves := by decide
  rw [hlast hmore, hfirst] at hlinked
  rw [hempty.2 hpoint] at hqs
  exact ⟨⟨by decide, hinside, ps, hok, mt hnil.1 hmore, hlinked⟩,
    ⟨houtside, (partitionAt_boundaries j [twoHalves]).1 houtside⟩, hpoint, hqs⟩

end RatCalc.FractionInterval

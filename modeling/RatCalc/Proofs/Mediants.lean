import Mathlib.Data.List.Chain
import Mathlib.RingTheory.Coprime.Lemmas
import RatCalc.Fraction.Interval
import RatCalc.Proofs.RationalOperand

/-!
# Pieces that follow each other, and splitting at mediants

* `FractionInterval.Linked`: pieces that lead from one fraction to another, each starting with the
  fraction, as it is written, that the one before ends with.
* `determinant`, `Neighbours`: positive denominators and a determinant; **`mediantSplit_spec`**:
  splitting at the mediant keeps both.
* `Refinement`: what each round of splitting keeps, with `splitAll_spec` for one round and
  `splitTimes_spec` for all.
* **`partitionWithMediants_refines`**: `2 ^ n` pieces of the same determinant lead from one endpoint
  to the other.
-/

namespace RatCalc

namespace Fraction

variable {a b : Fraction}

theorem toRat_le_toRat_iff (ha : 0 < a.den) (hb : 0 < b.den) :
    a.toRat ≤ b.toRat ↔ a.num * b.den ≤ b.num * a.den := Rat.divInt_le_divInt ha hb

theorem toRat_lt_toRat_iff (ha : 0 < a.den) (hb : 0 < b.den) :
    a.toRat < b.toRat ↔ a.num * b.den < b.num * a.den := by
  rw [← not_le, toRat_le_toRat_iff hb ha, not_le]

/-- A fraction in lowest terms is its own reduced form. -/
theorem reduce_eq_self (ha : 0 < a.den) (h : Int.gcd a.num a.den = 1) : a.reduce = a := by
  have hparts := Ratio.parts_of_coprime ha h
  obtain ⟨n, d, hd⟩ := a
  simpa [reduce, ofRat, toRat, Ratio.parts] using hparts

end Fraction

namespace FractionInterval

variable {a b c : Fraction} {i p : FractionInterval} {ps qs : List FractionInterval} {δ : Int}

theorem hull_of_le (h : a.toRat ≤ b.toRat) : hull a b = ⟨a, b, h⟩ := dif_pos h

/-! ## Linked pieces -/

/-- Pieces that lead from one fraction to another. Each starts with the fraction, as it is written,
that the piece before ends with. -/
def Linked : Fraction → List FractionInterval → Fraction → Prop
  | a, [], b => a = b
  | a, p :: rest, b => p.low = a ∧ Linked p.high rest b

@[simp] theorem linked_nil : Linked a [] b ↔ a = b := Iff.rfl

@[simp] theorem linked_cons : Linked a (p :: ps) b ↔ p.low = a ∧ Linked p.high ps b := Iff.rfl

theorem Linked.append (h : Linked a ps b) (h' : Linked b qs c) : Linked a (ps ++ qs) c := by
  induction ps generalizing a with
  | nil =>
    obtain rfl := linked_nil.1 h
    exact h'
  | cons p rest ih => exact ⟨h.1, ih h.2⟩

/-- The boundaries increase if each piece has more than one number. -/
theorem Linked.pairwise (h : Linked a ps b) (hps : ∀ p ∈ ps, p.low.toRat < p.high.toRat) :
    ((a :: ps.map high).map Fraction.toRat).Pairwise (· < ·) := by
  rw [← List.isChain_iff_pairwise]
  induction ps generalizing a with
  | nil => exact List.isChain_singleton _
  | cons p rest ih =>
    rw [List.forall_mem_cons] at hps
    obtain ⟨rfl, h⟩ := h
    exact List.isChain_cons_cons.2 ⟨hps.1, ih h hps.2⟩

/-! ## One split -/

/-- The difference of the endpoints, times both denominators. -/
def determinant (i : FractionInterval) : Int :=
  i.high.num * i.low.den - i.low.num * i.high.den

/-- Endpoints with positive denominators and a determinant. -/
structure Neighbours (δ : Int) (i : FractionInterval) : Prop where
  low_pos : 0 < i.low.den
  high_pos : 0 < i.high.den
  determinant_eq : i.determinant = δ

/-- **The mediant lies between the endpoints**, so that nothing is exchanged, and both pieces have
the determinant of the interval. -/
theorem mediantSplit_spec (h : Neighbours δ i) :
    ∃ p q, i.mediantSplit = .ok [p, q] ∧ Linked i.low [p, q] i.high ∧
      Neighbours δ p ∧ Neighbours δ q := by
  obtain ⟨hlow, hhigh, hdet⟩ := h
  have hpos : 0 < i.low.den + i.high.den := by omega
  let m : Fraction := ⟨i.low.num + i.high.num, i.low.den + i.high.den, hpos.ne'⟩
  have hm : Fraction.mediant i.low i.high = .ok m := dif_neg hpos.ne'
  have hle := (Fraction.toRat_le_toRat_iff hlow hhigh).1 i.low_le_high
  have hbelow : i.low.toRat ≤ m.toRat := by
    rw [Fraction.toRat_le_toRat_iff hlow hpos]
    simp only [m]
    linarith
  have habove : m.toRat ≤ i.high.toRat := by
    rw [Fraction.toRat_le_toRat_iff hpos hhigh]
    simp only [m]
    linarith
  refine ⟨⟨i.low, m, hbelow⟩, ⟨m, i.high, habove⟩, ?_, ⟨rfl, rfl, rfl⟩, ⟨hlow, hpos, ?_⟩,
    ⟨hpos, hhigh, ?_⟩⟩
  · rw [mediantSplit, hm, ← hull_of_le hbelow, ← hull_of_le habove]
    rfl
  · rw [← hdet]
    simp only [determinant, m]
    ring
  · rw [← hdet]
    simp only [determinant, m]
    ring

/-! ## Rounds of splitting -/

/-- Pieces of one determinant that lead from one fraction to another. -/
structure Refinement (δ : Int) (a : Fraction) (ps : List FractionInterval) (b : Fraction) :
    Prop where
  linked : Linked a ps b
  neighbours : ∀ p ∈ ps, Neighbours δ p

/-- One round makes two pieces of each. -/
theorem splitAll_spec (h : Refinement δ a ps b) :
    ∃ qs, splitAll ps = .ok qs ∧ qs.length = 2 * ps.length ∧ Refinement δ a qs b := by
  obtain ⟨hlinked, hps⟩ := h
  induction ps generalizing a with
  | nil => exact ⟨[], rfl, rfl, hlinked, hps⟩
  | cons i rest ih =>
    rw [List.forall_mem_cons] at hps
    obtain ⟨rfl, hlinked⟩ := hlinked
    obtain ⟨p, q, hsplit, hpair, hp, hq⟩ := mediantSplit_spec hps.1
    obtain ⟨qs, hqs, hlength, hrest, hall⟩ := ih hlinked hps.2
    refine ⟨[p, q] ++ qs, ?_, ?_, hpair.append hrest, ?_⟩
    · rw [splitAll, hsplit, hqs]
      rfl
    · rw [List.length_append, hlength, List.length_cons, List.length_cons, List.length_cons,
        List.length_nil]
      omega
    · rw [List.cons_append, List.cons_append, List.nil_append, List.forall_mem_cons,
        List.forall_mem_cons]
      exact ⟨hp, hq, hall⟩

theorem splitTimes_spec (n : Nat) (h : Refinement δ a ps b) :
    ∃ qs, splitTimes n ps = .ok qs ∧ qs.length = 2 ^ n * ps.length ∧ Refinement δ a qs b := by
  induction n generalizing ps with
  | zero => exact ⟨ps, rfl, by rw [pow_zero, one_mul], h⟩
  | succ n ih =>
    obtain ⟨rs, hrs, hdouble, hround⟩ := splitAll_spec h
    obtain ⟨qs, hqs, hlength, hall⟩ := ih hround
    refine ⟨qs, ?_, ?_, hall⟩
    · rw [splitTimes, hrs]
      exact hqs
    · rw [hlength, hdouble, pow_succ, mul_assoc]

/-! ## Neighbouring fractions -/

theorem Neighbours.lt (h : Neighbours 1 i) : i.low.toRat < i.high.toRat := by
  have hdet := h.determinant_eq
  rw [determinant] at hdet
  rw [Fraction.toRat_lt_toRat_iff h.low_pos h.high_pos]
  omega

/-- Fractions of determinant one are in lowest terms. -/
theorem Neighbours.reduce_eq (h : Neighbours 1 i) :
    i.low.reduce = i.low ∧ i.high.reduce = i.high := by
  have hdet := h.determinant_eq
  rw [determinant] at hdet
  constructor
  · refine Fraction.reduce_eq_self h.low_pos (Int.isCoprime_iff_gcd_eq_one.1 ?_)
    exact ⟨-i.high.den, i.high.num, by linarith⟩
  · refine Fraction.reduce_eq_self h.high_pos (Int.isCoprime_iff_gcd_eq_one.1 ?_)
    exact ⟨i.low.den, -i.low.num, by linarith⟩

/-- **Splitting at mediants refines an interval.** With positive denominators, `n` rounds of
splitting give `2 ^ n` pieces that lead from the lower endpoint to the upper one, as they are
written, all of the determinant of the interval. If that is one, all boundaries are in lowest terms
and increase. -/
theorem partitionWithMediants_refines (hlow : 0 < i.low.den) (hhigh : 0 < i.high.den) (n : Nat) :
    ∃ ps, i.partitionWithMediants n = .ok ps ∧ ps.length = 2 ^ n ∧ Linked i.low ps i.high ∧
      (∀ p ∈ ps, p.determinant = i.determinant) ∧
      (i.determinant = 1 → (∀ a ∈ i.low :: ps.map high, a.reduce = a) ∧
        ((i.low :: ps.map high).map Fraction.toRat).Pairwise (· < ·)) := by
  have hself : Neighbours i.determinant i := ⟨hlow, hhigh, rfl⟩
  have hstart : Refinement i.determinant i.low [i] i.high := ⟨⟨rfl, rfl⟩, by simpa using hself⟩
  obtain ⟨ps, hok, hlength, hlinked, hps⟩ := splitTimes_spec n hstart
  refine ⟨ps, ?_, by simpa using hlength, hlinked, fun p hp => (hps p hp).determinant_eq, ?_⟩
  · rw [partitionWithMediants, if_neg (by omega), Int.toNat_natCast, hok]
  · intro hone
    rw [hone] at hself hps
    refine ⟨?_, hlinked.pairwise fun p hp => (hps p hp).lt⟩
    rw [List.forall_mem_cons, List.forall_mem_map]
    exact ⟨hself.reduce_eq.1, fun p hp => (hps p hp).reduce_eq.2⟩

/-- Two rounds between two fractions of determinant one below zero. -/
theorem quarters_of_minus_half :
    let i := ofInterval (.hull 0 (-1 / 2))
    0 < i.low.den ∧ 0 < i.high.den ∧ i.determinant = 1 ∧
      ∃ ps, i.partitionWithMediants (2 : Nat) = .ok ps ∧ ps.length = 2 ^ 2 ∧
        Linked i.low ps i.high ∧
        ps.map (fun p => (p.high.num, p.high.den)) = [(-2, 5), (-1, 3), (-1, 4), (0, 1)] ∧
        ((i.low :: ps.map high).map Fraction.toRat).Pairwise (· < ·) := by
  intro i
  have hlow : 0 < i.low.den := by with_unfolding_all decide
  have hhigh : 0 < i.high.den := by with_unfolding_all decide
  have hone : i.determinant = 1 := by with_unfolding_all decide
  obtain ⟨ps, hok, hlength, hlinked, -, hpairwise⟩ := partitionWithMediants_refines hlow hhigh 2
  have hrun : (i.partitionWithMediants (2 : Nat)).map (·.map fun p => (p.high.num, p.high.den)) =
      .ok [(-2, 5), (-1, 3), (-1, 4), (0, 1)] := by with_unfolding_all decide
  rw [hok] at hrun
  exact ⟨hlow, hhigh, hone, ps, hok, hlength, hlinked, Except.ok.inj hrun, (hpairwise hone).2⟩

end FractionInterval

end RatCalc

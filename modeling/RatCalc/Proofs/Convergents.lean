import Mathlib.Data.Int.GCD
import Mathlib.Data.Rat.Lemmas
import Mathlib.Tactic.Linarith
import Mathlib.Tactic.Ring
import RatCalc.ContinuedFraction

/-!
# The fraction of a continued fraction

* `fold`: the fraction that terms stand for, worked out from the last term to the first, and
  `last_convergentsFrom`: the last convergent, worked out from the first term to the last, is that
  fraction.
* `Canonical`: later terms are positive and the last of several is at least two.
* **`canonical_termsOf`**, **`fold_termsOf`**: the terms of a quotient are canonical and stand for
  it; **`gcd_fold`**: they do so in lowest terms.
* **`termsOf_fold`**: no other canonical terms stand for the same fraction.
-/

namespace RatCalc.ContinuedFraction

/-- The fraction that terms stand for, from the last one on. No terms stand for `1 / 0`. -/
def fold : List Int → Pair
  | [] => (1, 0)
  | a :: rest => (a * (fold rest).1 + (fold rest).2, (fold rest).1)

@[simp] theorem fold_nil : fold [] = (1, 0) := rfl

@[simp] theorem fold_cons (a : Int) (rest : List Int) :
    fold (a :: rest) = (a * (fold rest).1 + (fold rest).2, (fold rest).1) := rfl

/-- The terms of a quotient in the form that they have for one fraction only. -/
structure Canonical (terms : List Int) : Prop where
  nonempty : terms ≠ []
  later : ∀ a ∈ terms.tail, 1 ≤ a
  last : 1 < terms.length → ∀ a ∈ terms.getLast?, 2 ≤ a

/-! ## Two ways through the terms -/

/-- The last convergent is the fraction of the terms, put in the place of the two convergents that
come before. -/
theorem last_convergentsFrom (terms : List Int) (p q : Pair) :
    (convergentsFrom p q terms).getLast?.getD p =
      ((fold terms).1 * p.1 + (fold terms).2 * q.1,
        (fold terms).1 * p.2 + (fold terms).2 * q.2) := by
  induction terms generalizing p q with
  | nil => simp [convergentsFrom]
  | cons a rest ih =>
    simp only [convergentsFrom, List.getLast?_cons, Option.getD_some, ih, fold_cons]
    ext <;> simp only <;> ring

theorem last_convergents (terms : List Int) :
    (convergents terms).getLast?.getD (1, 0) = fold terms := by
  rw [convergents, last_convergentsFrom]
  simp

/-! ## Canonical terms -/

theorem canonical_singleton (a : Int) : Canonical [a] :=
  ⟨by simp, by simp, by simp⟩

theorem canonical_cons_iff {a b : Int} {rest : List Int} :
    Canonical (a :: b :: rest) ↔ 1 ≤ b ∧ (rest = [] → 2 ≤ b) ∧ Canonical (b :: rest) := by
  constructor
  · rintro ⟨-, later, last⟩
    refine ⟨later b (by simp), ?_, by simp, fun c hc => later c (by simp_all), fun h c hc => ?_⟩
    · rintro rfl
      exact last (by simp) b (by simp)
    · exact last (by simp) c (by rwa [List.getLast?_cons_cons])
  · rintro ⟨hb, hlast, hcan⟩
    refine ⟨by simp, fun c hc => ?_, fun _ c hc => ?_⟩
    · rcases List.mem_cons.mp hc with rfl | hc
      · exact hb
      · exact hcan.later c hc
    · cases rest with
      | nil =>
        obtain rfl : b = c := by simpa using hc
        exact hlast rfl
      | cons d rest => exact hcan.last (by simp) c (by rwa [List.getLast?_cons_cons] at hc)

/-- What stands behind the first term is greater than one. -/
theorem fold_tail {a b : Int} {rest : List Int} (h : Canonical (a :: b :: rest)) :
    0 < (fold (b :: rest)).2 ∧ (fold (b :: rest)).2 < (fold (b :: rest)).1 := by
  induction rest generalizing a b with
  | nil =>
    have := (canonical_cons_iff.1 h).2.1 rfl
    simp
    omega
  | cons c rest ih =>
    obtain ⟨hb, -, h⟩ := canonical_cons_iff.1 h
    obtain ⟨h₁, h₂⟩ := ih h
    rw [fold_cons]
    refine ⟨by omega, ?_⟩
    show (fold (c :: rest)).1 < b * (fold (c :: rest)).1 + (fold (c :: rest)).2
    nlinarith

/-- What is left of canonical terms behind one of them is greater than one, or nothing. -/
theorem fold_left {terms : List Int} (h : ∃ a, Canonical (a :: terms)) :
    0 ≤ (fold terms).2 ∧ (fold terms).2 < (fold terms).1 := by
  obtain ⟨a, h⟩ := h
  cases terms with
  | nil => simp
  | cons b rest => exact ⟨(fold_tail h).1.le, (fold_tail h).2⟩

theorem fold_den_pos {terms : List Int} (h : Canonical terms) : 0 < (fold terms).2 := by
  match terms, h with
  | [a], _ => simp
  | a :: b :: rest, h =>
    have := fold_tail h
    show 0 < (fold (b :: rest)).1
    omega

/-- The fraction is in lowest terms. -/
theorem gcd_fold (terms : List Int) : Int.gcd (fold terms).1 (fold terms).2 = 1 := by
  induction terms with
  | nil => rfl
  | cons a rest ih =>
    rw [fold_cons, Int.gcd_mul_right_add_left, Int.gcd_comm]
    exact ih

theorem evaluate_of_canonical {terms : List Int} (h : Canonical terms) :
    evaluate terms = .ok (fold terms) := by
  match terms, h with
  | a :: rest, h =>
    have hpos : rest.any (· ≤ 0) = false := by
      rw [List.any_eq_false]
      intro b hb
      have := h.later b hb
      simp
      omega
    rw [evaluate, hpos, if_neg (by simp), last_convergents]

/-! ## The terms of a quotient -/

theorem termsOf_zero (n : Int) : termsOf n 0 = [] := by
  unfold termsOf
  rfl

theorem termsOf_of_pos (n : Int) {d : Nat} (h : 0 < d) :
    termsOf n d = n / d :: termsOf d (n % d).toNat := by
  cases d with
  | zero => omega
  | succ d =>
    rw [termsOf]

theorem termsOf_ne_nil (n : Int) {d : Nat} (h : 0 < d) : termsOf n d ≠ [] := by
  rw [termsOf_of_pos n h]
  simp

/-- The remainder of a division as a natural number. -/
theorem toNat_emod (n : Int) {d : Nat} (h : 0 < d) :
    ((n % d).toNat : Int) = n % d ∧ (n % d).toNat < d := by
  have h₁ := Int.emod_nonneg n (show (d : Int) ≠ 0 by omega)
  have h₂ := Int.emod_lt_of_pos n (show (0 : Int) < d by omega)
  omega

theorem canonical_termsOf (n : Int) {d : Nat} (h : 0 < d) : Canonical (termsOf n d) := by
  induction d using Nat.strongRecOn generalizing n with
  | ind d ih =>
    obtain ⟨hr, hlt⟩ := toNat_emod n h
    generalize (n % d).toNat = r at hr hlt
    rw [termsOf_of_pos n h, ← hr, Int.toNat_natCast]
    rcases Nat.eq_zero_or_pos r with rfl | hpos
    · rw [termsOf_zero]
      exact canonical_singleton _
    · have hcan := ih r hlt d hpos
      rw [termsOf_of_pos d hpos] at hcan ⊢
      have hone : (1 : Int) ≤ d / r := by
        rw [Int.le_ediv_iff_mul_le (by omega)]
        omega
      refine canonical_cons_iff.2 ⟨hone, fun hnil => ?_, hcan⟩
      -- the last division leaves no remainder, and its divisor is smaller than the dividend
      have hzero : ((d : Int) % r).toNat = 0 := by
        by_contra hne
        exact termsOf_ne_nil r (Nat.pos_of_ne_zero hne) hnil
      have hdiv := Int.mul_ediv_add_emod (d : Int) r
      have := toNat_emod (d : Int) hpos
      by_contra hsmall
      have : (d : Int) / r = 1 := by omega
      rw [this] at hdiv
      omega

/-- The terms of a quotient stand for it, reduced to lowest terms. -/
theorem fold_termsOf (n : Int) {d : Nat} (h : 0 < d) :
    (fold (termsOf n d)).1 * Int.gcd n d = n ∧ (fold (termsOf n d)).2 * Int.gcd n d = d := by
  induction d using Nat.strongRecOn generalizing n with
  | ind d ih =>
    obtain ⟨hr, hlt⟩ := toNat_emod n h
    have hdiv := Int.mul_ediv_add_emod n d
    have hgcd : Int.gcd n d = Int.gcd d (n % d) := by
      rw [Int.gcd_comm (d : Int), Int.gcd_emod]
    generalize (n % d).toNat = r at hr hlt
    rw [termsOf_of_pos n h, hgcd, ← hr, Int.toNat_natCast]
    rcases Nat.eq_zero_or_pos r with rfl | hpos
    · have hself : (Int.gcd d (0 : Nat) : Int) = d := by simp
      rw [termsOf_zero, hself]
      refine ⟨?_, by simp⟩
      rw [← hr] at hdiv
      simpa [mul_comm] using hdiv
    · obtain ⟨h₁, h₂⟩ := ih r hlt d hpos
      rw [fold_cons]
      refine ⟨?_, h₁⟩
      calc (n / d * (fold (termsOf d r)).1 + (fold (termsOf d r)).2) * (Int.gcd d r : Int)
          = n / d * ((fold (termsOf d r)).1 * Int.gcd d r)
              + (fold (termsOf d r)).2 * Int.gcd d r := by ring
        _ = n := by rw [h₁, h₂, hr]; linarith

/-- Canonical terms are those of their fraction. -/
theorem termsOf_fold {terms : List Int} (h : Canonical terms) :
    termsOf (fold terms).1 (fold terms).2.toNat = terms := by
  induction terms with
  | nil => exact absurd rfl h.nonempty
  | cons a rest ih =>
    cases rest with
    | nil =>
      rw [termsOf_of_pos _ (by simp)]
      simp [termsOf_zero]
    | cons b rest =>
      obtain ⟨h₁, h₂⟩ := fold_tail h
      have ih := ih (canonical_cons_iff.1 h).2.2
      rw [fold_cons a]
      generalize fold (b :: rest) = f at ih h₁ h₂
      have hdiv : (a * f.1 + f.2) / f.1 = a := by
        rw [Int.add_comm, Int.add_mul_ediv_right _ _ (by omega), Int.ediv_eq_zero_of_lt] <;> omega
      have hmod : (a * f.1 + f.2) % f.1 = f.2 := by
        rw [Int.add_comm, Int.add_mul_emod_self_right, Int.emod_eq_of_lt] <;> omega
      rw [termsOf_of_pos _ (by omega)]
      rw [Int.toNat_of_nonneg (by omega), hdiv, hmod, ih]

/-! ## Quotients of integers -/

/-- A quotient reduced to lowest terms with a positive denominator. -/
theorem fold_termsOf_eq (n : Int) {d : Nat} (h : 0 < d) :
    fold (termsOf n d) = ((Rat.divInt n d).num, ((Rat.divInt n d).den : Int)) := by
  obtain ⟨h₁, h₂⟩ := fold_termsOf n h
  have hpos := fold_den_pos (canonical_termsOf n h)
  have hgcd := gcd_fold (termsOf n d)
  generalize fold (termsOf n d) = f at *
  have hne : (Int.gcd n d : Int) ≠ 0 := by
    have := Int.gcd_pos_of_ne_zero_right n (show (d : Int) ≠ 0 by omega)
    omega
  generalize (Int.gcd n d : Int) = g at h₁ h₂ hne
  rw [← h₁, ← h₂, Rat.divInt_mul_right hne]
  obtain ⟨p, q⟩ := f
  lift q to Nat using hpos.le
  have hq : q ≠ 0 := by
    rintro rfl
    exact absurd hpos (by simp)
  have hmk : (⟨p, q, hq, hgcd⟩ : Rat) = Rat.divInt p q := Rat.mk_eq_divInt
  rw [← hmk]

/-- The terms of a rational number stand for it as it is kept. -/
theorem fold_termsOf_num_den (a : Rat) : fold (termsOf a.num a.den) = (a.num, (a.den : Int)) := by
  rw [fold_termsOf_eq _ a.den_pos, Rat.num_divInt_den]

/-- **The terms of a quotient.** They are canonical, and their fraction is the quotient in lowest
terms with a positive denominator. -/
theorem terms_eq_ok {n d : Int} (h : d ≠ 0) :
    ∃ ts, terms n d = .ok ts ∧ Canonical ts ∧
      evaluate ts = .ok ((Rat.divInt n d).num, ((Rat.divInt n d).den : Int)) := by
  have hpos : 0 < d.natAbs := Int.natAbs_pos.mpr h
  rcases lt_or_gt_of_ne h with hneg | hneg
  · have hd : ((d.natAbs : Nat) : Int) = -d := by omega
    refine ⟨termsOf (-n) d.natAbs, by simp [terms, h, hneg], canonical_termsOf _ hpos, ?_⟩
    rw [evaluate_of_canonical (canonical_termsOf _ hpos), fold_termsOf_eq _ hpos, hd,
      Rat.divInt_neg, Int.neg_neg]
  · have hd : ((d.natAbs : Nat) : Int) = d := by omega
    refine ⟨termsOf n d.natAbs, by simp [terms, h, hneg.le.not_gt], canonical_termsOf _ hpos, ?_⟩
    rw [evaluate_of_canonical (canonical_termsOf _ hpos), fold_termsOf_eq _ hpos, hd]

/-- **The terms of a fraction of canonical terms** are these terms. -/
theorem terms_fold {ts : List Int} (h : Canonical ts) : terms (fold ts).1 (fold ts).2 = .ok ts := by
  have hpos := fold_den_pos h
  have htoNat : (fold ts).2.natAbs = (fold ts).2.toNat := by omega
  rw [terms, if_neg (by omega), if_neg (by omega), htoNat, termsOf_fold h]

end RatCalc.ContinuedFraction

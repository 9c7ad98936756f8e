import RatCalc.Proofs.Enclosed

/-!
# Digits in run-length notation

* `flat`: what runs stand for; `flat_runs`: the runs of a text stand for it.
* `expand_append`: a text without an opening brace is left alone; `expand_of_no_close`: so is one
  without a closing brace.
* `expand_eq_of_append`: what is written out before any text.
* **`expand_writeRuns`**: written runs of digits are written out again; **`expand_compress`** for
  the digits of a text, **`expand_grouped`** for those of a decimal text.
* `Balanced`, `exists_of_writeRun_group`: texts that open as many groups as they close.
* `Stands`, **`stands_writeRuns`**: a prefix of written runs stands for a prefix of the digits,
  unless it breaks off in a group; **`stands_grouped`** for the digits of a decimal text.
* **`digitRuns_grouped`**: an expression reads them as one row.
-/

namespace RatCalc

namespace RunLength

open Text

/-- What runs stand for. -/
def flat (rs : List (Char × Nat)) : Text := rs.flatMap fun r => List.replicate r.2 r.1

/-- Runs as they are written. -/
def writeRuns (threshold : Nat) (rs : List (Char × Nat)) : Text := rs.flatMap (writeRun threshold)

theorem flat_cons (r : Char × Nat) (rs : List (Char × Nat)) :
    flat (r :: rs) = List.replicate r.2 r.1 ++ flat rs := by rw [flat, List.flatMap_cons]; rfl

theorem writeRuns_cons (threshold : Nat) (r : Char × Nat) (rs : List (Char × Nat)) :
    writeRuns threshold (r :: rs) = writeRun threshold r ++ writeRuns threshold rs := by
  rw [writeRuns, List.flatMap_cons]; rfl

theorem flat_runs (t : Text) : flat (runs t) = t := by
  induction t with
  | nil => rfl
  | cons c t ih =>
    rw [runs]
    cases hr : runs t with
    | nil =>
      rw [hr] at ih
      rw [← ih]
      rfl
    | cons r rs =>
      obtain ⟨d, k⟩ := r
      rw [hr, flat_cons] at ih
      simp only
      split_ifs with hc
      · rw [flat_cons, List.replicate_succ, List.cons_append, hc, ih]
      · rw [flat_cons, flat_cons, ih]
        rfl

theorem forall_runs {P : Char → Prop} {t : Text} (h : ∀ c ∈ t, P c) : ∀ r ∈ runs t, P r.1 := by
  induction t with
  | nil => intro r hr; cases hr
  | cons c t ih =>
    intro r hr
    have ih := ih fun d hd => h d (List.mem_cons_of_mem _ hd)
    have hc := h c List.mem_cons_self
    rw [runs] at hr
    split at hr
    · rw [List.mem_singleton.1 hr]
      exact hc
    · rename_i d k more heq
      rw [heq] at ih
      split_ifs at hr
      · rcases List.mem_cons.1 hr with rfl | hr
        · exact ih (d, k) List.mem_cons_self
        · exact ih r (List.mem_cons_of_mem _ hr)
      · rcases List.mem_cons.1 hr with rfl | hr
        · exact hc
        · exact ih r hr

/-! ## Writing groups out -/

theorem expand_cons {c : Char} (h : c ≠ '\x7b') (t : Text) : expand (c :: t) = c :: expand t := by
  rw [expand, if_neg h]

/-- A text without an opening brace is left alone. -/
theorem expand_append {u : Text} (h : '\x7b' ∉ u) (w : Text) : expand (u ++ w) = u ++ expand w := by
  induction u with
  | nil => rfl
  | cons c u ih =>
    rw [List.mem_cons, not_or] at h
    rw [List.cons_append, expand_cons (Ne.symm h.1), ih h.2, List.cons_append]

/-- What is written out before any text is written out alone. -/
theorem expand_eq_of_append {x t : Text} (h : ∀ w, expand (x ++ w) = t ++ expand w) :
    expand x = t := by
  have h := h []
  rwa [expand, List.append_nil, List.append_nil] at h

theorem expand_of_no_open {u : Text} (h : '\x7b' ∉ u) : expand u = u :=
  expand_eq_of_append (expand_append h)

theorem count?_of_no_close {u : Text} (h : '\x7d' ∉ u) : count? u = none := by
  have hd : '\x7d' ∉ u.dropWhile isDecimal := fun hm => h ((List.dropWhile_suffix _).subset hm)
  rw [count?]
  split
  · rename_i rest heq
    rw [heq] at hd
    exact absurd List.mem_cons_self hd
  · rfl

theorem group?_of_no_close {u : Text} (h : '\x7d' ∉ u) : group? u = none := by
  induction u with
  | nil => rfl
  | cons c u ih =>
    rw [List.mem_cons, not_or] at h
    unfold group?
    rw [ih h.2]
    split
    · rfl
    · split
      · rw [count?_of_no_close fun hm => h.2 (List.mem_cons_of_mem _ hm)]
        rfl
      · rfl

/-- A text without a closing brace is left alone. -/
theorem expand_of_no_close {u : Text} (h : '\x7d' ∉ u) : expand u = u := by
  induction u with
  | nil => rw [expand]
  | cons c u ih =>
    rw [List.mem_cons, not_or] at h
    by_cases hc : c = '\x7b'
    · rw [expand, if_pos hc]
      split
      · rename_i heq
        rw [group?_of_no_close h.2] at heq
        cases heq
      · rw [ih h.2]
    · rw [expand_cons hc, ih h.2]

theorem count?_digits {es : Text} (hne : es ≠ []) (hes : ∀ c ∈ es, isDecimal c = true) (u : Text) :
    count? (es ++ '\x7d' :: u) = some (Numeral.value es, u) := by
  rw [count?, List.dropWhile_append_of_pos hes, List.dropWhile_cons_of_neg (by decide),
    List.takeWhile_append_of_pos hes, List.takeWhile_cons_of_neg (by decide), List.append_nil]
  simp only
  rw [if_neg fun h => hne (List.isEmpty_iff.1 h)]

section

variable {ds es : Text} (hds : ds ≠ [] ∧ ∀ c ∈ ds, isDecimal c = true)
  (hes : es ≠ [] ∧ ∀ c ∈ es, isDecimal c = true)

include hds hes

theorem group?_digits (u : Text) :
    group? (ds ++ '~' :: (es ++ '\x7d' :: u)) = some (ds, Numeral.value es, u) := by
  obtain ⟨hne, hds⟩ := hds
  induction ds with
  | nil => exact absurd rfl hne
  | cons c ds ih =>
    rw [List.forall_mem_cons] at hds
    rw [List.cons_append, group?.eq_def]
    simp only
    rw [if_neg (ne_of_isDecimal hds.1 (by decide))]
    cases ds with
    | nil =>
      simp only [List.nil_append]
      rw [count?_digits hes.1 hes.2]
    | cons a ds =>
      have ha : a ≠ '~' := ne_of_isDecimal (hds.2 a List.mem_cons_self) (by decide)
      have ih := ih (List.cons_ne_nil a ds) hds.2
      simp only [List.cons_append] at ih ⊢
      split
      · rename_i heq
        exact absurd (List.cons.inj heq).1 ha
      · rw [ih]
        rfl

/-- A group of digits is written out. -/
theorem expand_digits (u : Text) :
    expand ('\x7b' :: (ds ++ '~' :: (es ++ '\x7d' :: u))) =
      (List.replicate (Numeral.value es) ds).flatten ++ expand u := by
  have hg := group?_digits hds hes u
  rw [expand, if_pos rfl]
  split
  · rename_i heq
    rw [hg, Option.some.injEq, Prod.mk.injEq, Prod.mk.injEq] at heq
    obtain ⟨rfl, rfl, rfl⟩ := heq
    rfl
  · rename_i heq
    rw [hg] at heq
    cases heq

end

theorem digits_singleton {c : Char} (h : isDecimal c = true) :
    [c] ≠ [] ∧ ∀ a ∈ [c], isDecimal a = true :=
  ⟨List.cons_ne_nil c [], List.forall_mem_singleton.2 h⟩

theorem digits_ofNat (k : Nat) :
    Numeral.ofNat k ≠ [] ∧ ∀ c ∈ Numeral.ofNat k, isDecimal c = true :=
  ⟨Numeral.ofNat_ne_nil k, List.all_eq_true.1 (Numeral.all_isDecimal_ofNat k)⟩

theorem expand_group {c : Char} (h : isDecimal c = true) (k : Nat) (w : Text) :
    expand ('\x7b' :: c :: '~' :: (Numeral.ofNat k ++ '\x7d' :: w)) =
      List.replicate k c ++ expand w := by
  have hk := expand_digits (digits_singleton h) (digits_ofNat k) w
  rwa [Numeral.value_ofNat, List.flatten_replicate_singleton] at hk

/-- A written run of digits is written out as the run. -/
theorem expand_writeRun (threshold : Nat) {r : Char × Nat} (h : isDecimal r.1 = true)
    (w : Text) : expand (writeRun threshold r ++ w) = List.replicate r.2 r.1 ++ expand w := by
  rw [writeRun]
  split_ifs
  · rw [List.cons_append, List.cons_append, List.cons_append, List.append_assoc]
    exact expand_group h r.2 w
  · apply expand_append
    intro hm
    exact absurd (List.eq_of_mem_replicate hm).symm (ne_of_isDecimal h (by decide))

/-- **Written runs of digits are written out as the runs.** -/
theorem expand_writeRuns (threshold : Nat) {rs : List (Char × Nat)}
    (h : ∀ r ∈ rs, isDecimal r.1 = true) (w : Text) :
    expand (writeRuns threshold rs ++ w) = flat rs ++ expand w := by
  induction rs with
  | nil => rfl
  | cons r rs ih =>
    rw [writeRuns_cons, flat_cons, List.append_assoc, expand_writeRun _ (h r List.mem_cons_self),
      ih fun s hs => h s (List.mem_cons_of_mem _ hs), List.append_assoc]

/-- **The digits of a text with groups are written out as they were.** -/
theorem expand_compress (threshold : Nat) {t : Text} (h : ∀ c ∈ t, isDecimal c = true) (w : Text) :
    expand (compress threshold t ++ w) = t ++ expand w := by
  have hw := expand_writeRuns threshold (forall_runs h) w
  rwa [flat_runs] at hw

/-! ## Characters of written runs -/

theorem mem_writeRun {threshold : Nat} {r : Char × Nat} (h : isPlainDigit r.1 = true) {c : Char}
    (hc : c ∈ writeRun threshold r) :
    isPlainDigit c = true ∨ c = '\x7b' ∨ c = '~' ∨ c = '\x7d' := by
  rw [writeRun] at hc
  split_ifs at hc
  · simp only [List.mem_cons, List.mem_append, List.not_mem_nil, or_false] at hc
    rcases hc with rfl | rfl | rfl | hc | rfl
    · exact .inr (.inl rfl)
    · exact .inl h
    · exact .inr (.inr (.inl rfl))
    · exact .inl (Numeral.all_isPlainDigit_ofNat _ c hc)
    · exact .inr (.inr (.inr rfl))
  · rw [List.eq_of_mem_replicate hc]
    exact .inl h

theorem mem_writeRuns {threshold : Nat} {rs : List (Char × Nat)}
    (h : ∀ r ∈ rs, isPlainDigit r.1 = true) {c : Char} (hc : c ∈ writeRuns threshold rs) :
    isPlainDigit c = true ∨ c = '\x7b' ∨ c = '~' ∨ c = '\x7d' := by
  obtain ⟨r, hr, hcr⟩ := List.mem_flatMap.1 hc
  exact mem_writeRun (h r hr) hcr

/-! ## Prefixes of written runs -/

/-- As many groups are opened as are closed. -/
def Balanced (t : Text) : Prop := t.count '\x7b' = t.count '\x7d'

instance (t : Text) : Decidable (Balanced t) := inferInstanceAs (Decidable (_ = _))

theorem balanced_of_not_mem {t : Text} (h : '\x7b' ∉ t) (h' : '\x7d' ∉ t) : Balanced t := by
  rw [Balanced, List.count_eq_zero_of_not_mem h, List.count_eq_zero_of_not_mem h']

theorem Balanced.append_iff {t : Text} (h : Balanced t) (u : Text) :
    Balanced (t ++ u) ↔ Balanced u := by
  rw [Balanced] at h
  rw [Balanced, Balanced, List.count_append, List.count_append, h]
  omega

theorem balanced_of_isDecimal {t : Text} (h : ∀ c ∈ t, isDecimal c = true) : Balanced t :=
  balanced_of_not_mem (not_mem_of_isDecimal h (by decide)) (not_mem_of_isDecimal h (by decide))

/-- What is opened and not closed is not balanced. -/
theorem not_balanced_open {t : Text} (h : '\x7d' ∉ t) : ¬ Balanced ('\x7b' :: t) := by
  have hc : '\x7d' ∉ '\x7b' :: t := by
    rw [List.mem_cons, not_or]
    exact ⟨by decide, h⟩
  rw [Balanced, List.count_cons_self, List.count_eq_zero_of_not_mem hc]
  omega

/-- A run that is written as a group is opened first and closed last. -/
theorem exists_of_writeRun_group {threshold : Nat} {r : Char × Nat} (h : isDecimal r.1 = true)
    (hr : threshold ≤ r.2) :
    ∃ g, writeRun threshold r = ('\x7b' :: g) ++ ['\x7d'] ∧ '\x7b' ∉ g ∧ '\x7d' ∉ g := by
  have hn : ∀ c ∈ Numeral.ofNat r.2, isDecimal c = true := (digits_ofNat r.2).2
  have hnot : ∀ {s : Char}, isDecimal s = false → s ≠ '~' →
      s ∉ r.1 :: '~' :: Numeral.ofNat r.2 := by
    intro s hs hsep
    rw [List.mem_cons, List.mem_cons, not_or, not_or]
    exact ⟨(ne_of_isDecimal h hs).symm, hsep, not_mem_of_isDecimal hn hs⟩
  exact ⟨r.1 :: '~' :: Numeral.ofNat r.2, if_pos hr, hnot (by decide) (by decide),
    hnot (by decide) (by decide)⟩

theorem balanced_writeRun (threshold : Nat) {r : Char × Nat} (h : isDecimal r.1 = true) :
    Balanced (writeRun threshold r) := by
  by_cases hr : threshold ≤ r.2
  · obtain ⟨g, hg, ho, hc⟩ := exists_of_writeRun_group h hr
    simp [hg, Balanced, List.count_eq_zero_of_not_mem ho, List.count_eq_zero_of_not_mem hc]
  · rw [writeRun, if_neg hr]
    exact balanced_of_isDecimal fun c hc => List.eq_of_mem_replicate hc ▸ h

theorem balanced_writeRuns (threshold : Nat) {rs : List (Char × Nat)}
    (h : ∀ r ∈ rs, isDecimal r.1 = true) : Balanced (writeRuns threshold rs) := by
  induction rs with
  | nil => rfl
  | cons r rs ih =>
    rw [writeRuns_cons, (balanced_writeRun _ (h r List.mem_cons_self)).append_iff]
    exact ih fun s hs => h s (List.mem_cons_of_mem _ hs)

theorem prefix_append_cases {x t u : Text} (h : x <+: t ++ u) :
    x <+: t ∨ ∃ y, y <+: u ∧ x = t ++ y := by
  rcases List.prefix_or_prefix_of_prefix h (List.prefix_append t u) with hx | hx
  · exact .inl hx
  · obtain ⟨y, rfl⟩ := hx
    exact .inr ⟨y, (List.prefix_append_right_inj t).1 h, rfl⟩

/-- What a prefix of a written text stands for: a prefix of the text, unless a group is broken off,
and then its brace stays. -/
structure Stands (x t : Text) : Prop where
  whole : Balanced x → expand x <+: t
  broken : ¬ Balanced x → '\x7b' ∈ expand x

theorem stands_writeRun (threshold : Nat) {r : Char × Nat} (h : isDecimal r.1 = true) {x : Text}
    (hx : x <+: writeRun threshold r) : Stands x (List.replicate r.2 r.1) := by
  by_cases hr : threshold ≤ r.2
  · obtain ⟨g, hg, -, hclose⟩ := exists_of_writeRun_group h hr
    rw [hg, List.prefix_concat_iff, ← hg, List.prefix_cons_iff] at hx
    rcases hx with rfl | rfl | ⟨y, rfl, hy⟩
    · have he := expand_eq_of_append (expand_writeRun threshold h)
      exact ⟨fun _ => he ▸ List.prefix_refl _, fun hn => absurd (balanced_writeRun _ h) hn⟩
    · exact ⟨fun _ => by rw [expand]; exact List.nil_prefix, fun hn => absurd rfl hn⟩
    · have hclosed : '\x7d' ∉ y := fun hm => hclose (hy.subset hm)
      refine ⟨fun hb => absurd hb (not_balanced_open hclosed), fun _ => ?_⟩
      rw [expand_of_no_close (by simpa using hclosed)]
      exact List.mem_cons_self
  · rw [writeRun, if_neg hr] at hx
    have hp : ∀ c ∈ x, isDecimal c = true := fun c hc => List.eq_of_mem_replicate (hx.subset hc) ▸ h
    refine ⟨fun _ => ?_, fun hn => absurd (balanced_of_isDecimal hp) hn⟩
    rwa [expand_of_no_open (not_mem_of_isDecimal hp (by decide))]

/-- **A prefix of written runs** stands for a prefix of what the runs stand for, unless it breaks
off in a group. -/
theorem stands_writeRuns (threshold : Nat) {rs : List (Char × Nat)}
    (h : ∀ r ∈ rs, isDecimal r.1 = true) {x : Text} (hx : x <+: writeRuns threshold rs) :
    Stands x (flat rs) := by
  induction rs generalizing x with
  | nil =>
    rw [List.prefix_nil.1 hx]
    exact ⟨fun _ => by rw [expand]; exact List.nil_prefix, fun hn => absurd rfl hn⟩
  | cons r rs ih =>
    have hr := h r List.mem_cons_self
    rw [writeRuns_cons] at hx
    rw [flat_cons]
    rcases prefix_append_cases hx with hx | ⟨y, hy, rfl⟩
    · have hs := stands_writeRun threshold hr hx
      exact ⟨fun hb => (hs.whole hb).trans (List.prefix_append _ _), hs.broken⟩
    · have hs := ih (fun s hs => h s (List.mem_cons_of_mem _ hs)) hy
      refine ⟨?_, ?_⟩
      all_goals rw [(balanced_writeRun threshold hr).append_iff, expand_writeRun threshold hr]
      · exact fun hb => (List.prefix_append_right_inj _).2 (hs.whole hb)
      · exact fun hn => List.mem_append_right _ (hs.broken hn)

end RunLength

open RunLength Text

/-! ## The digits of a decimal text -/

namespace Expansion

/-- Digits are written as runs, in groups or as they are. -/
theorem grouped_eq (useGroups : Bool) (threshold : Nat) {t : Text}
    (h : ∀ c ∈ t, isPlainDigit c = true) :
    ∃ threshold' rs, grouped useGroups threshold t = writeRuns threshold' rs ∧ flat rs = t ∧
      ∀ r ∈ rs, isPlainDigit r.1 = true := by
  cases useGroups with
  | true => exact ⟨threshold, runs t, rfl, flat_runs t, forall_runs h⟩
  | false =>
    refine ⟨2, t.map (·, 1), ?_, ?_, ?_⟩
    · rw [writeRuns, List.flatMap_map, grouped]
      exact (List.flatMap_singleton' t).symm
    · rw [flat, List.flatMap_map]
      exact List.flatMap_singleton' t
    · intro r hr
      obtain ⟨c, hc, rfl⟩ := List.mem_map.1 hr
      exact h c hc

/-- **The digits of a decimal text are written out as they were.** -/
theorem expand_grouped (useGroups : Bool) (threshold : Nat) {t : Text}
    (h : ∀ c ∈ t, isPlainDigit c = true) (w : Text) :
    expand (grouped useGroups threshold t ++ w) = t ++ expand w := by
  obtain ⟨threshold', rs, hg, rfl, hp⟩ := grouped_eq useGroups threshold h
  rw [hg, expand_writeRuns threshold' fun r hr => isDecimal_of_plain (hp r hr)]

theorem balanced_grouped (useGroups : Bool) (threshold : Nat) {t : Text}
    (h : ∀ c ∈ t, isPlainDigit c = true) : Balanced (grouped useGroups threshold t) := by
  obtain ⟨threshold', rs, hg, rfl, hp⟩ := grouped_eq useGroups threshold h
  rw [hg]
  exact balanced_writeRuns threshold' fun r hr => isDecimal_of_plain (hp r hr)

/-- **A prefix of the digits of a decimal text** stands for a prefix of the digits, unless it breaks
off in a group. -/
theorem stands_grouped (useGroups : Bool) (threshold : Nat) {t : Text}
    (h : ∀ c ∈ t, isPlainDigit c = true) {x : Text} (hx : x <+: grouped useGroups threshold t) :
    Stands x t := by
  obtain ⟨threshold', rs, hg, rfl, hp⟩ := grouped_eq useGroups threshold h
  rw [hg] at hx
  exact stands_writeRuns threshold' (fun r hr => isDecimal_of_plain (hp r hr)) hx

theorem mem_grouped {useGroups : Bool} {threshold : Nat} {t : Text}
    (h : ∀ c ∈ t, isPlainDigit c = true) {c : Char} (hc : c ∈ grouped useGroups threshold t) :
    isPlainDigit c = true ∨ c = '\x7b' ∨ c = '~' ∨ c = '\x7d' := by
  obtain ⟨threshold', rs, hg, rfl, hp⟩ := grouped_eq useGroups threshold h
  rw [hg] at hc
  exact mem_writeRuns hp hc

/-- Digits of a decimal text hold no characters but digits and those of groups. -/
theorem not_mem_grouped {useGroups : Bool} {threshold : Nat} {t : Text}
    (h : ∀ c ∈ t, isPlainDigit c = true) {s : Char} (hs : isPlainDigit s = false)
    (hb : s ∉ ['\x7b', '~', '\x7d']) : s ∉ grouped useGroups threshold t := by
  intro hm
  rcases mem_grouped h hm with h | h
  · exact ne_of_plain h hs rfl
  · exact hb (by simpa using h)

end Expansion

/-! ## Reading them -/

namespace Dialect

theorem digitRuns_skip (u w : Text) :
    digitRuns u.length (u ++ w) = (u ++ (digitRuns 0 w).1, (digitRuns 0 w).2) := by
  induction u with
  | nil => rfl
  | cons c u ih => rw [List.length_cons, List.cons_append, digitRuns, ih]; rfl

theorem digitRuns_decimal {c : Char} (h : isDecimal c = true) (t : Text) :
    digitRuns 0 (c :: t) = (c :: (digitRuns 0 t).1, (digitRuns 0 t).2) := by
  rw [digitRuns, if_pos h]

theorem digitRuns_append {u : Text} (h : ∀ c ∈ u, isDecimal c = true) (w : Text) :
    digitRuns 0 (u ++ w) = (u ++ (digitRuns 0 w).1, (digitRuns 0 w).2) := by
  induction u with
  | nil => rfl
  | cons c u ih =>
    rw [List.cons_append, digitRuns_decimal (h c List.mem_cons_self),
      ih fun d hd => h d (List.mem_cons_of_mem _ hd)]
    rfl

/-- A group of digits is read with what follows it. -/
theorem digitRuns_digits {ds es : Text} (hds : ds ≠ [] ∧ ∀ c ∈ ds, isDecimal c = true)
    (hes : es ≠ [] ∧ ∀ c ∈ es, isDecimal c = true) (w : Text) :
    digitRuns 0 ('\x7b' :: (ds ++ '~' :: (es ++ '\x7d' :: w))) =
      ('\x7b' :: (ds ++ '~' :: (es ++ '\x7d' :: (digitRuns 0 w).1)), (digitRuns 0 w).2) := by
  have hs := digitRuns_skip (ds ++ '~' :: (es ++ ['\x7d'])) w
  have hl : (ds ++ '~' :: (es ++ ['\x7d'])).length = ds.length + es.length + 2 := by
    simp only [List.length_append, List.length_cons, List.length_nil]
    omega
  rw [hl] at hs
  simp only [List.append_assoc, List.cons_append, List.nil_append] at hs
  rw [digitRuns, if_neg (by decide), groupLength_of hds hes]
  simp only [hs]

theorem digitRuns_writeRun (threshold : Nat) {r : Char × Nat} (h : isDecimal r.1 = true)
    (w : Text) :
    digitRuns 0 (writeRun threshold r ++ w) =
      (writeRun threshold r ++ (digitRuns 0 w).1, (digitRuns 0 w).2) := by
  rw [writeRun]
  split_ifs
  · have hg := digitRuns_digits (digits_singleton h) (digits_ofNat r.2) w
    simp only [List.cons_append, List.append_assoc, List.nil_append] at hg ⊢
    exact hg
  · apply digitRuns_append
    intro c hc
    rw [List.eq_of_mem_replicate hc]
    exact h

theorem digitRuns_writeRuns (threshold : Nat) {rs : List (Char × Nat)}
    (h : ∀ r ∈ rs, isDecimal r.1 = true) (w : Text) :
    digitRuns 0 (writeRuns threshold rs ++ w) =
      (writeRuns threshold rs ++ (digitRuns 0 w).1, (digitRuns 0 w).2) := by
  induction rs with
  | nil => rfl
  | cons r rs ih =>
    rw [writeRuns_cons, List.append_assoc, digitRuns_writeRun _ (h r List.mem_cons_self),
      ih fun s hs => h s (List.mem_cons_of_mem _ hs), List.append_assoc]

/-- **The digits of a decimal text are read as one row.** -/
theorem digitRuns_grouped (useGroups : Bool) (threshold : Nat) {t : Text}
    (h : ∀ c ∈ t, isPlainDigit c = true) (w : Text) :
    digitRuns 0 (Expansion.grouped useGroups threshold t ++ w) =
      (Expansion.grouped useGroups threshold t ++ (digitRuns 0 w).1, (digitRuns 0 w).2) := by
  obtain ⟨threshold', rs, hg, rfl, hp⟩ := Expansion.grouped_eq useGroups threshold h
  rw [hg, digitRuns_writeRuns threshold' fun r hr => isDecimal_of_plain (hp r hr)]

end Dialect

end RatCalc

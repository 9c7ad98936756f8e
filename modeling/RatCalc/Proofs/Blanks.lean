import RatCalc.Proofs.Takes

/-!
# Texts without their blanks

* **`prepare_of_no_blank`**: a text without blanks is read as it is.
* **`prepare_append_cons`**: a character that is no blank and not in the mark of an exponent keeps
  what stands before it apart from what comes after.
* `prepare_cons`, `prepare_parens`: such a character at the start of a text, and parentheses.
* `prepare_margins`: blanks around a text do not matter; `mem_of_mem_prepare`, `mem_prepare`: only
  marks are new, and only blanks and the marks of exponents go.
-/

namespace RatCalc.Dialect

open Text

variable (d : Dialect)

theorem markExponents_of_no_blank {marker t : Text} (h : ∀ c ∈ t, isBlank c = false) :
    markExponents marker 0 t = t := by
  induction t with
  | nil => rfl
  | cons c t ih =>
    rw [markExponents, h c List.mem_cons_self, Bool.false_and,
      ih fun a ha => h a (List.mem_cons_of_mem _ ha)]
    rfl

theorem withoutBlanks_of_no_blank {t : Text} (h : ∀ c ∈ t, isBlank c = false) :
    withoutBlanks t = t := by
  induction t with
  | nil => rfl
  | cons c t ih =>
    have hh : t.head?.any isBlank = false := by
      cases t with
      | nil => rfl
      | cons a t => exact h a (List.mem_cons_of_mem _ List.mem_cons_self)
    rw [withoutBlanks, h c List.mem_cons_self, hh, Bool.and_false,
      ih fun a ha => h a (List.mem_cons_of_mem _ ha)]
    rfl

/-- **A text without blanks is read as it is.** -/
theorem prepare_of_no_blank {t : Text} (h : ∀ c ∈ t, isBlank c = false) : d.prepare t = t := by
  rw [prepare, markExponents_of_no_blank h, withoutBlanks_of_no_blank h]

section

variable {c : Char} (hc : isBlank c = false)

include hc

theorem head?_any_isBlank (t u : Text) :
    (t ++ c :: u).head?.any isBlank = t.head?.any isBlank := by
  cases t with
  | nil => exact hc
  | cons => rfl

theorem markExponents_cons (marker u : Text) :
    markExponents marker 0 (c :: u) = c :: markExponents marker 0 u := by
  rw [markExponents, hc, Bool.false_and]
  rfl

theorem markExponents_append_cons {marker : Text} (hm : c ∉ marker) (u : Text) {t : Text}
    {skip : Nat} (hs : skip ≤ t.length) :
    markExponents marker skip (t ++ c :: u) =
      markExponents marker skip t ++ c :: markExponents marker 0 u := by
  induction t generalizing skip with
  | nil =>
    cases Nat.le_zero.1 hs
    exact markExponents_cons hc marker u
  | cons a t ih =>
    cases skip with
    | succ skip => exact ih (Nat.le_of_succ_le_succ hs)
    | zero =>
      rw [List.cons_append, markExponents, markExponents, dropWhile_append_cons hc,
        isPrefixOf_append_cons hm, head?_any_isBlank hc]
      split_ifs with h h'
      · exact ih (Nat.zero_le _)
      · have hd : t.dropWhile isBlank = t := by
          cases t with
          | nil => rfl
          | cons b t => exact List.dropWhile_cons_of_neg h'
        have hl : marker.length ≤ t.length := by
          rw [Bool.and_eq_true, hd, List.isPrefixOf_iff_prefix] at h
          exact h.2.length_le
        rw [ih hl]
        rfl
      · rw [ih (Nat.zero_le _)]
        rfl

theorem withoutBlanks_append_cons (t u : Text) :
    withoutBlanks (t ++ c :: u) = withoutBlanks t ++ withoutBlanks (c :: u) := by
  induction t with
  | nil => rfl
  | cons a t ih =>
    rw [List.cons_append, withoutBlanks, withoutBlanks, head?_any_isBlank hc, ih]
    split_ifs <;> rfl

/-- **Such a character keeps what stands before it apart** from what comes after. -/
theorem prepare_append_cons (hm : c ∉ d.marker) (t u : Text) :
    d.prepare (t ++ c :: u) = d.prepare t ++ d.prepare (c :: u) := by
  rw [prepare, markExponents_append_cons hc hm u (Nat.zero_le _), withoutBlanks_append_cons hc,
    prepare, prepare, markExponents_cons hc]

theorem prepare_cons (hslash : c ≠ '/') (u : Text) : d.prepare (c :: u) = c :: d.prepare u := by
  rw [prepare, markExponents_cons hc, withoutBlanks, hc, decide_eq_false hslash, Bool.false_and]
  rfl

end

/-- A slash before a character that is no blank stays as it is. -/
theorem prepare_slash {c : Char} (hc : isBlank c = false) (u : Text) :
    d.prepare ('/' :: c :: u) = '/' :: d.prepare (c :: u) := by
  rw [prepare, markExponents_cons (by decide), prepare, markExponents_cons hc, withoutBlanks]
  simp [hc, show isBlank '/' = false by decide]

/-- Blanks in parentheses stay in them. -/
theorem prepare_parens (t u : Text) :
    d.prepare ('(' :: (t ++ ')' :: u)) = '(' :: (d.prepare t ++ ')' :: d.prepare u) := by
  have hm : ')' ∉ d.marker := d.not_mem_marker (by decide) (by decide) (by decide)
  rw [d.prepare_cons (by decide) (by decide), d.prepare_append_cons (by decide) hm,
    d.prepare_cons (by decide) (by decide)]

theorem markExponents_of_blank {marker t : Text} (hm : marker ≠ [])
    (h : ∀ c ∈ t, isBlank c = true) : markExponents marker 0 t = t := by
  induction t with
  | nil => rfl
  | cons c t ih =>
    rw [List.forall_mem_cons] at h
    have hno : marker.isPrefixOf (t.dropWhile isBlank) = false := by
      have hnil : t.dropWhile isBlank = [] := by
        rw [← List.append_nil t, List.dropWhile_append_of_pos h.2, List.dropWhile_nil]
      cases marker with
      | nil => exact absurd rfl hm
      | cons a m => rw [hnil]; rfl
    rw [markExponents, hno, Bool.and_false, ih h.2]
    rfl

theorem prepare_of_blank {t : Text} (h : ∀ c ∈ t, isBlank c = true) : d.prepare t = [] := by
  rw [prepare, markExponents_of_blank d.marker_ne_nil h]
  induction t with
  | nil => rfl
  | cons c t ih =>
    rw [List.forall_mem_cons] at h
    rw [withoutBlanks, if_pos h.1, ih h.2]

/-- **Blanks around a text do not matter.** Behind a slash they do. -/
theorem prepare_margins {l u r : Text} (hl : ∀ c ∈ l, isBlank c = true)
    (hu : ∀ c ∈ u, isBlank c = false ∧ c ∉ d.marker) (hr : ∀ c ∈ r, isBlank c = true)
    (hlast : r = [] ∨ ∀ v, u ≠ v ++ ['/']) : d.prepare (l ++ u ++ r) = u := by
  have hstart : d.prepare (l ++ u ++ r) = d.prepare (u ++ r) := by
    cases u with
    | nil =>
      rw [List.append_nil, List.nil_append, d.prepare_of_blank hr]
      exact d.prepare_of_blank fun c hc => (List.mem_append.1 hc).elim (hl c) (hr c)
    | cons c u =>
      obtain ⟨hc, hm⟩ := hu c List.mem_cons_self
      rw [List.append_assoc, List.cons_append, d.prepare_append_cons hc hm, d.prepare_of_blank hl]
      rfl
  rw [hstart]
  rcases List.eq_nil_or_concat u with rfl | ⟨v, c, rfl⟩
  · exact d.prepare_of_blank hr
  · rw [List.concat_eq_append] at hu hlast ⊢
    obtain ⟨hc, hm⟩ := hu c (List.mem_append_right v List.mem_cons_self)
    have hv : ∀ a ∈ v ++ [c], isBlank a = false := fun a ha => (hu a ha).1
    rcases hlast with rfl | hslash
    · rw [List.append_nil, d.prepare_of_no_blank hv]
    · have hne : c ≠ '/' := fun h => hslash v (h ▸ rfl)
      rw [List.append_assoc, List.singleton_append, d.prepare_append_cons hc hm,
        d.prepare_cons hc hne, d.prepare_of_blank hr,
        d.prepare_of_no_blank fun a ha => hv a (List.mem_append_left _ ha)]

/-! ## Characters -/

theorem mem_of_mem_markExponents {marker t : Text} {skip : Nat} {c : Char}
    (h : c ∈ markExponents marker skip t) : c = spacedMark ∨ c ∈ t := by
  induction t generalizing skip with
  | nil => cases skip <;> cases h
  | cons a t ih =>
    have step : ∀ {k}, c ∈ markExponents marker k t → c = spacedMark ∨ c ∈ a :: t := fun h =>
      (ih h).imp_right (List.mem_cons_of_mem a)
    cases skip with
    | succ skip => exact step h
    | zero =>
      rw [markExponents] at h
      split_ifs at h
      · exact step h
      · exact (List.mem_cons.1 h).elim .inl step
      · exact (List.mem_cons.1 h).elim (fun h => .inr (h ▸ List.mem_cons_self)) step

theorem mem_of_mem_withoutBlanks {t : Text} {c : Char} (h : c ∈ withoutBlanks t) :
    c = divisionMark ∨ c ∈ t := by
  induction t with
  | nil => cases h
  | cons a t ih =>
    have step : c ∈ withoutBlanks t → c = divisionMark ∨ c ∈ a :: t := fun h =>
      (ih h).imp_right (List.mem_cons_of_mem a)
    rw [withoutBlanks] at h
    split_ifs at h with _ ha
    · exact step h
    · rw [Bool.and_eq_true, decide_eq_true_eq] at ha
      rw [List.mem_cons, List.mem_cons] at h
      rcases h with rfl | rfl | h
      · exact .inr (ha.1 ▸ List.mem_cons_self)
      · exact .inl rfl
      · exact step h
    · exact (List.mem_cons.1 h).elim (fun h => .inr (h ▸ List.mem_cons_self)) step

/-- Taking the blanks out brings in no characters but marks. -/
theorem mem_of_mem_prepare {t : Text} {c : Char} (h : c ∈ d.prepare t) (hs : c ≠ spacedMark)
    (hd : c ≠ divisionMark) : c ∈ t :=
  (mem_of_mem_markExponents ((mem_of_mem_withoutBlanks h).resolve_left hd)).resolve_left hs

theorem mem_markExponents {marker t : Text} {skip : Nat} {c : Char}
    (hskip : ∀ a ∈ t.take skip, a ∈ marker) (h : c ∈ t) :
    c ∈ markExponents marker skip t ∨ isBlank c = true ∨ c ∈ marker := by
  induction t generalizing skip with
  | nil => cases h
  | cons a t ih =>
    cases skip with
    | succ skip =>
      rw [List.take_succ_cons, List.forall_mem_cons] at hskip
      exact (List.mem_cons.1 h).elim (fun h => .inr (.inr (h ▸ hskip.1))) (ih hskip.2)
    | zero =>
      rw [markExponents]
      split_ifs with hmark hblank
      · rw [Bool.and_eq_true] at hmark
        exact (List.mem_cons.1 h).elim (fun h => .inr (.inl (h ▸ hmark.1))) (ih (by simp))
      · rw [Bool.and_eq_true] at hmark
        have hdrop : t.dropWhile isBlank = t := by
          cases t with
          | nil => rfl
          | cons b t => exact List.dropWhile_cons_of_neg hblank
        rw [hdrop, List.isPrefixOf_iff_prefix] at hmark
        obtain ⟨u, rfl⟩ := hmark.2
        exact (List.mem_cons.1 h).elim (fun h => .inr (.inl (h ▸ hmark.1))) fun h =>
          (ih (by simp) h).imp_left (List.mem_cons_of_mem _)
      · exact (List.mem_cons.1 h).elim (fun h => .inl (h ▸ List.mem_cons_self)) fun h =>
          (ih (by simp) h).imp_left (List.mem_cons_of_mem _)

theorem mem_withoutBlanks {t : Text} {c : Char} (hc : isBlank c = false) (h : c ∈ t) :
    c ∈ withoutBlanks t := by
  induction t with
  | nil => cases h
  | cons a t ih =>
    rw [withoutBlanks]
    rcases List.mem_cons.1 h with rfl | h
    · rw [hc, if_neg Bool.false_ne_true]
      split_ifs with hslash
      · rw [Bool.and_eq_true, decide_eq_true_eq] at hslash
        exact hslash.1 ▸ List.mem_cons_self
      · exact List.mem_cons_self
    · split_ifs
      · exact ih h
      · exact List.mem_cons_of_mem _ (List.mem_cons_of_mem _ (ih h))
      · exact List.mem_cons_of_mem _ (ih h)

/-- Only blanks are taken out, and what follows them as the mark of an exponent. -/
theorem mem_prepare {t : Text} {c : Char} (hc : isBlank c = false) (h : c ∈ t) :
    c ∈ d.prepare t ∨ c ∈ d.marker := by
  have hskip : ∀ a ∈ t.take 0, a ∈ d.marker := by simp
  rcases mem_markExponents hskip h with h | h | h
  · exact .inl (mem_withoutBlanks hc h)
  · rw [hc] at h
    cases h
  · exact .inr h

end RatCalc.Dialect

import RatCalc.Operand.Expansion
import RatCalc.Proofs.DecimalText

/-!
# Runs of equal characters

A text of digits is written with its long runs as groups, and the groups are written out again.

* `HasRun`, `BeginsWithRun`: equal characters in a row; **`compress_cases`**: where the first group
  of a text stands.
* `isChain_runs`: neighbouring runs are of different characters.
* `rest_of_writeRun`, **`not_balanced_of_run`**: long runs of digits stand in groups only.
* `Operand.compress_eq`, `expand_eq`: the two directions for operands.
* **`runLength_lossless`**: digits are written out as they were, also in a decimal text.
-/

namespace RatCalc

open Text

namespace RunLength

variable {k n : Nat} {c : Char} {t : Text} {r : Char × Nat} {rs : List (Char × Nat)}

/-! ## Equal characters in a row -/

/-- A text with `k` equal characters in a row. -/
def HasRun (k : Nat) (t : Text) : Prop := ∃ u c v, t = u ++ (List.replicate k c ++ v)

/-- A text that begins with `k` equal characters. -/
def BeginsWithRun (k : Nat) (t : Text) : Prop := ∃ c v, t = List.replicate k c ++ v

/-- The runs of a text with one more character. -/
theorem runs_cons (c : Char) (t : Text) :
    (∃ n rs, runs t = (c, n) :: rs ∧ runs (c :: t) = (c, n + 1) :: rs) ∨
      ((∀ n rs, runs t ≠ (c, n) :: rs) ∧ runs (c :: t) = (c, 1) :: runs t) := by
  rw [runs]
  cases h : runs t with
  | nil => exact .inr ⟨fun _ _ => (List.cons_ne_nil _ _).symm, rfl⟩
  | cons r rs =>
    obtain ⟨d, n⟩ := r
    by_cases hc : c = d
    · subst hc
      exact .inl ⟨n, rs, rfl, if_pos rfl⟩
    · refine .inr ⟨fun m rs' heq => hc ?_, if_neg hc⟩
      cases heq
      rfl

theorem pos_of_mem_runs (h : r ∈ runs t) : 0 < r.2 := by
  induction t with
  | nil => cases h
  | cons c t ih =>
    rcases runs_cons c t with ⟨n, rs, ht, hct⟩ | ⟨-, hct⟩
    · rw [hct] at h
      rw [ht] at ih
      rcases List.mem_cons.1 h with rfl | h
      · exact Nat.succ_pos n
      · exact ih (List.mem_cons_of_mem _ h)
    · rw [hct] at h
      rcases List.mem_cons.1 h with rfl | h
      · exact Nat.one_pos
      · exact ih h

/-- As many equal characters as a text begins with are in its first run. -/
theorem replicate_prefix_iff :
    List.replicate k c <+: t ↔ k = 0 ∨ ∃ n rs, runs t = (c, n) :: rs ∧ k ≤ n := by
  induction t generalizing k with
  | nil =>
    rw [List.prefix_nil, List.replicate_eq_nil_iff]
    exact (or_iff_left fun ⟨_, _, h, _⟩ => nomatch h).symm
  | cons a t ih =>
    cases k with
    | zero => exact iff_of_true (List.nil_prefix) (.inl rfl)
    | succ k =>
      rw [List.replicate_succ, List.cons_prefix_cons, ih]
      rcases runs_cons a t with ⟨n, rs, ht, hat⟩ | ⟨hno, hat⟩
      · rw [hat]
        constructor
        · rintro ⟨rfl, rfl | ⟨m, rs', heq, hle⟩⟩
          · exact .inr ⟨_, _, rfl, Nat.succ_le_succ (Nat.zero_le n)⟩
          · cases ht.symm.trans heq
            exact .inr ⟨_, _, rfl, Nat.succ_le_succ hle⟩
        · rintro (h | ⟨m, rs', heq, hle⟩)
          · cases h
          · cases heq
            exact ⟨rfl, .inr ⟨n, rs, ht, Nat.le_of_succ_le_succ hle⟩⟩
      · rw [hat]
        constructor
        · rintro ⟨rfl, rfl | ⟨m, rs', heq, -⟩⟩
          · exact .inr ⟨_, _, rfl, Nat.le_refl 1⟩
          · exact absurd heq (hno m rs')
        · rintro (h | ⟨m, rs', heq, hle⟩)
          · cases h
          · cases heq
            exact ⟨rfl, .inl (Nat.le_zero.1 (Nat.le_of_succ_le_succ hle))⟩

theorem beginsWithRun_iff (hk : 0 < k) :
    BeginsWithRun k t ↔ ∃ r rs, runs t = r :: rs ∧ k ≤ r.2 := by
  constructor
  · rintro ⟨c, v, rfl⟩
    obtain h | ⟨n, rs, h, hle⟩ := replicate_prefix_iff.1 (List.prefix_append (List.replicate k c) v)
    · omega
    · exact ⟨_, _, h, hle⟩
  · rintro ⟨⟨c, n⟩, rs, h, hle⟩
    obtain ⟨v, hv⟩ := replicate_prefix_iff.2 (.inr ⟨n, rs, h, hle⟩)
    exact ⟨c, v, hv.symm⟩

theorem hasRun_cons (a : Char) (t : Text) :
    HasRun k (a :: t) ↔ BeginsWithRun k (a :: t) ∨ HasRun k t := by
  constructor
  · rintro ⟨_ | ⟨b, u⟩, c, v, h⟩
    · exact .inl ⟨c, v, h⟩
    · exact .inr ⟨u, c, v, (List.cons.inj h).2⟩
  · rintro (⟨c, v, h⟩ | ⟨u, c, v, h⟩)
    · exact ⟨[], c, v, h⟩
    · exact ⟨a :: u, c, v, congrArg (a :: ·) h⟩

/-- Equal characters in a row are all in one run. -/
theorem hasRun_iff (hk : 0 < k) : HasRun k t ↔ ∃ r ∈ runs t, k ≤ r.2 := by
  induction t with
  | nil =>
    refine iff_of_false ?_ fun ⟨r, hr, _⟩ => nomatch hr
    rintro ⟨u, c, v, h⟩
    have hnil := (List.append_eq_nil_iff.1 (List.append_eq_nil_iff.1 h.symm).2).1
    exact hk.ne' ((List.replicate_eq_nil_iff c).1 hnil)
  | cons a t ih =>
    rw [hasRun_cons, beginsWithRun_iff hk, ih]
    rcases runs_cons a t with ⟨n, rs, ht, hat⟩ | ⟨-, hat⟩
    · rw [hat, ht]
      constructor
      · rintro (⟨r, rs', heq, hle⟩ | ⟨r, hr, hle⟩)
        · cases heq
          exact ⟨_, List.mem_cons_self, hle⟩
        · rcases List.mem_cons.1 hr with rfl | hr
          · exact ⟨_, List.mem_cons_self, Nat.le_succ_of_le hle⟩
          · exact ⟨r, List.mem_cons_of_mem _ hr, hle⟩
      · rintro ⟨r, hr, hle⟩
        rcases List.mem_cons.1 hr with rfl | hr
        · exact .inl ⟨_, _, rfl, hle⟩
        · exact .inr ⟨r, List.mem_cons_of_mem _ hr, hle⟩
    · rw [hat]
      constructor
      · rintro (⟨r, rs', heq, hle⟩ | ⟨r, hr, hle⟩)
        · cases heq
          exact ⟨_, List.mem_cons_self, hle⟩
        · exact ⟨r, List.mem_cons_of_mem _ hr, hle⟩
      · rintro ⟨r, hr, hle⟩
        rcases List.mem_cons.1 hr with rfl | hr
        · exact .inl ⟨_, _, rfl, hle⟩
        · exact .inr ⟨r, hr, hle⟩

/-! ## The first group -/

theorem writeRuns_of_short (h : ∀ r ∈ rs, r.2 < k) (rs' : List (Char × Nat)) :
    writeRuns k (rs ++ rs') = flat rs ++ writeRuns k rs' := by
  induction rs with
  | nil => rfl
  | cons r rs ih =>
    obtain ⟨hr, hrs⟩ := List.forall_mem_cons.1 h
    rw [List.cons_append, writeRuns_cons, writeRun, if_neg (Nat.not_le.2 hr), ih hrs, flat_cons,
      List.append_assoc]

/-- The first run that is written as a group. -/
theorem exists_first_long (k : Nat) (rs : List (Char × Nat)) :
    (∀ r ∈ rs, r.2 < k) ∨
      ∃ pre r post, rs = pre ++ r :: post ∧ (∀ s ∈ pre, s.2 < k) ∧ k ≤ r.2 := by
  induction rs with
  | nil => exact .inl fun _ h => nomatch h
  | cons r rs ih =>
    by_cases hr : r.2 < k
    · rcases ih with h | ⟨pre, s, post, rfl, hpre, hs⟩
      · exact .inl (List.forall_mem_cons.2 ⟨hr, h⟩)
      · exact .inr ⟨r :: pre, s, post, rfl, List.forall_mem_cons.2 ⟨hr, hpre⟩, hs⟩
    · exact .inr ⟨[], r, rs, rfl, fun _ h => (nomatch h), Nat.not_lt.1 hr⟩

/-- **The first group of a text** is missing, or it stands at its start, or behind other
characters. -/
theorem compress_cases (hk : 0 < k) (t : Text) :
    (¬ HasRun k t ∧ compress k t = t) ∨
      (BeginsWithRun k t ∧ ∃ v, compress k t = '\x7b' :: v) ∨
      (HasRun k t ∧ ¬ BeginsWithRun k t ∧
        ∃ u w v, u ≠ [] ∧ t = u ++ w ∧ compress k t = u ++ '\x7b' :: v) := by
  have hflat := flat_runs t
  rcases exists_first_long k (runs t) with hshort | ⟨pre, r, post, hruns, hpre, hr⟩
  · refine .inl ⟨fun h => ?_, ?_⟩
    · obtain ⟨r, hr, hle⟩ := (hasRun_iff hk).1 h
      exact absurd (hshort r hr) (Nat.not_lt.2 hle)
    · have h := writeRuns_of_short hshort []
      rw [List.append_nil, hflat] at h
      exact h.trans (List.append_nil t)
  · obtain ⟨v, hv⟩ : ∃ v, compress k t = flat pre ++ '\x7b' :: v := by
      have := writeRuns_of_short hpre (r :: post)
      rw [← hruns, writeRuns_cons, writeRun, if_pos hr] at this
      exact ⟨_, this⟩
    cases pre with
    | nil => exact .inr (.inl ⟨(beginsWithRun_iff hk).2 ⟨r, post, hruns, hr⟩, v, hv⟩)
    | cons s pre =>
      refine .inr (.inr ⟨(hasRun_iff hk).2 ⟨r, ?_, hr⟩, fun h => ?_, flat (s :: pre),
        flat (r :: post), v, fun h => ?_, ?_, hv⟩)
      · rw [hruns]
        exact List.mem_append_right _ List.mem_cons_self
      · obtain ⟨s', rs, heq, hle⟩ := (beginsWithRun_iff hk).1 h
        cases hruns.symm.trans heq
        exact absurd (hpre s List.mem_cons_self) (Nat.not_lt.2 hle)
      · have hs : 0 < s.2 := pos_of_mem_runs (t := t) (hruns ▸ List.mem_cons_self)
        rw [flat_cons] at h
        exact hs.ne' ((List.replicate_eq_nil_iff s.1).1 (List.append_eq_nil_iff.1 h).1)
      · rw [← hflat, hruns, flat, List.flatMap_append]
        rfl

/-! ## Long runs -/

/-- Neighbouring runs are of different characters. -/
theorem isChain_runs (t : Text) : (runs t).IsChain fun r s => r.1 ≠ s.1 := by
  induction t with
  | nil => exact .nil
  | cons c t ih =>
    rcases runs_cons c t with ⟨n, rs, ht, hct⟩ | ⟨hno, hct⟩
    · rw [ht] at ih
      rw [hct]
      cases rs with
      | nil => exact .singleton _
      | cons s rs => exact List.isChain_cons_cons.2 (List.isChain_cons_cons.1 ih)
    · rw [hct]
      cases hr : runs t with
      | nil => exact .singleton _
      | cons s rs =>
        rw [hr] at ih
        refine List.isChain_cons_cons.2 ⟨?_, ih⟩
        rintro rfl
        exact hno s.2 rs hr

/-- A digit at the start of written runs is that of the first run. -/
theorem exists_of_writeRuns_cons {w : Text} (hpos : ∀ r ∈ rs, 0 < r.2) (hc : isDecimal c = true)
    (h : writeRuns k rs = c :: w) : ∃ n rs', rs = (c, n) :: rs' := by
  cases rs with
  | nil => cases h
  | cons r rs =>
    rw [writeRuns_cons, writeRun] at h
    split_ifs at h
    · exact absurd (List.cons.inj h).1.symm (ne_of_isDecimal hc (by decide))
    · obtain ⟨n, hn⟩ := Nat.exists_eq_succ_of_ne_zero (hpos r List.mem_cons_self).ne'
      rw [hn, List.replicate_succ] at h
      exact ⟨r.2, rs, by rw [← (List.cons.inj h).1]⟩

/-- What is left of a short run is not continued by the runs behind it. -/
theorem not_prefix_writeRuns {j : Nat} (hpos : ∀ r ∈ rs, 0 < r.2)
    (hchain : (r :: rs).IsChain fun r s => r.1 ≠ s.1) (hc : isDecimal c = true) (hj : 0 < j)
    (hjk : j < k) : ¬ List.replicate k c <+: List.replicate j r.1 ++ writeRuns k rs := by
  rintro ⟨v, hv⟩
  obtain ⟨i, rfl⟩ := Nat.exists_eq_add_of_lt hjk
  rw [Nat.add_assoc, List.replicate_add, List.append_assoc] at hv
  obtain ⟨hfirst, hrest⟩ := List.append_inj hv (by simp)
  rw [List.replicate_succ, List.cons_append] at hrest
  have hcr : c = r.1 := ((List.replicate_inj).1 hfirst).2.resolve_left hj.ne'
  obtain ⟨n, rs', rfl⟩ := exists_of_writeRuns_cons hpos hc hrest.symm
  exact (List.isChain_cons_cons.1 hchain).1 hcr.symm

/-- What is left of a written run behind a balanced part of it: the whole group, or the rest of a
short run. -/
theorem rest_of_writeRun (hr : isDecimal r.1 = true) {u x : Text} (h : writeRun k r = u ++ x)
    (hx : x ≠ []) (hu : Balanced u) :
    (∃ y, x = '\x7b' :: y) ∨ (x.length < k ∧ x = List.replicate x.length r.1) := by
  by_cases hlong : k ≤ r.2
  · obtain ⟨g, hg, -, hclose⟩ := exists_of_writeRun_group hr hlong
    have hprefix : u <+: '\x7b' :: g ++ ['\x7d'] := ⟨x, h.symm.trans hg⟩
    rw [List.prefix_concat_iff, List.prefix_cons_iff] at hprefix
    rcases hprefix with rfl | rfl | ⟨y, rfl, hy⟩
    · exact absurd (List.self_eq_append_right.1 (hg.symm.trans h)) hx
    · exact .inl ⟨_, h.symm.trans hg⟩
    · exact absurd hu (not_balanced_open fun hm => hclose (hy.subset hm))
  · rw [writeRun, if_neg hlong] at h
    obtain ⟨hlength, -, hrest⟩ := List.append_eq_replicate_iff.1 h.symm
    exact .inr ⟨by omega, hrest⟩

/-- **A long run of digits stands in a group**: what is before it is open. -/
theorem not_balanced_of_run (hk : 0 < k) (hc : isDecimal c = true)
    (hrs : ∀ r ∈ rs, isDecimal r.1 = true) (hpos : ∀ r ∈ rs, 0 < r.2)
    (hchain : rs.IsChain fun r s => r.1 ≠ s.1) {u v : Text}
    (h : writeRuns k rs = u ++ (List.replicate k c ++ v)) : ¬ Balanced u := by
  obtain ⟨i, rfl⟩ := Nat.exists_eq_succ_of_ne_zero hk.ne'
  induction rs generalizing u with
  | nil => simp [writeRuns, List.replicate_succ] at h
  | cons r rs ih =>
    obtain ⟨hr, hrs⟩ := List.forall_mem_cons.1 hrs
    obtain ⟨-, hpos⟩ := List.forall_mem_cons.1 hpos
    have ih := fun {u} => ih hrs hpos hchain.tail (u := u)
    rw [writeRuns_cons, List.append_eq_append_iff] at h
    rcases h with ⟨u, rfl, hu⟩ | ⟨x, hx, hrest⟩
    · rw [(balanced_writeRun _ hr).append_iff]
      exact ih hu
    intro hu
    by_cases hnil : x = []
    · -- the run begins where a group or a short run ends
      rw [hnil] at hrest
      exact absurd rfl (ih (u := []) hrest.symm)
    rcases rest_of_writeRun hr hx hnil hu with ⟨y, rfl⟩ | ⟨hlt, hshort⟩
    · rw [List.replicate_succ] at hrest
      exact absurd (List.cons.inj hrest).1 (ne_of_isDecimal hc (by decide))
    · rw [hshort] at hrest
      exact absurd ⟨v, hrest⟩
        (not_prefix_writeRuns hpos hchain hc (List.length_pos_iff.2 hnil) hlt)

end RunLength

open RunLength Expansion

/-! ## Operands -/

namespace Operand

theorem text_injective {s t : Text} (h : text s = text t) : s = t := by
  have h := congrArg (fun x => x.text?.getD []) h
  simpa [text, text?] using h

theorem compress_eq (t : Text) (k : Nat) :
    compress (text t) (whole k) = .ok (text (RunLength.compress k t)) := by
  cases t with
  | nil => rfl
  | cons c t =>
    have hchars : (text (c :: t)).characters? = some (c :: t) := by
      simp [text, characters?, text?]
    rw [compress, hchars, size?_whole]
    simp only [Rat.ceil_intCast, Int.toNat_natCast]
    rfl

theorem expand_eq (t : Text) : expand (text t) = .ok (text (RunLength.expand t)) := by
  cases t with
  | nil =>
    rw [RunLength.expand]
    rfl
  | cons c t =>
    have htext : (text (c :: t)).text? = some (c :: t) := by
      simp [text, text?]
    rw [expand, htext]
    rfl

/-- **Run-length notation loses nothing.** Digits that are written with their long runs as groups
are written out as they were, alone and as the parts of a decimal text. No long run of digits is
left outside of the groups. -/
theorem runLength_lossless {s : Text} (hs : ∀ c ∈ s, isDecimal c = true) {k : Nat} (hk : 1 ≤ k) :
    ∃ x, compress (text s) (whole k) = .ok (text x) ∧ expand (text x) = .ok (text s) ∧
      (∀ head s' mark : Text, '\x7b' ∉ head → (∀ c ∈ s', isDecimal c = true) → '\x7b' ∉ mark →
        ∀ k' : Nat, ∃ x', compress (text s') (whole k') = .ok (text x') ∧
          expand (text (written head x x' mark)) = .ok (text (written head s s' mark))) ∧
      ∀ u c v, isDecimal c = true → x = u ++ (List.replicate k c ++ v) → ¬ Balanced u := by
  refine ⟨_, compress_eq s k, ?_, fun head s' mark hhead hs' hmark k' => ?_, fun u c v hc hx => ?_⟩
  · rw [expand_eq, expand_eq_of_append (expand_compress k hs)]
  · refine ⟨_, compress_eq s' k', ?_⟩
    rw [expand_eq, expand_eq_of_append
      (Ratio.expand_written hhead (expand_compress k hs) (expand_compress k' hs') hmark)]
  · exact not_balanced_of_run hk hc (forall_runs hs) (fun _ => pos_of_mem_runs) (isChain_runs s) hx

/-- `1000000002` with its eight zeros as a group, alone and in `-12.1000000002#333333`. -/
theorem eight_zeros :
    (∀ c ∈ "1000000002".toList, isDecimal c = true) ∧
      compress (text "1000000002".toList) (whole 6) = .ok (text "1\x7b0~8\x7d2".toList) ∧
      expand (text "1\x7b0~8\x7d2".toList) = .ok (text "1000000002".toList) ∧
      ('\x7b' ∉ "-12".toList ∧ (∀ c ∈ "333333".toList, isDecimal c = true)) ∧
      expand (text "-12.1\x7b0~8\x7d2#\x7b3~6\x7d".toList) =
        .ok (text "-12.1000000002#333333".toList) ∧
      ∀ u c v, isDecimal c = true →
        "1\x7b0~8\x7d2".toList = u ++ (List.replicate 6 c ++ v) → ¬ Balanced u := by
  have hs : ∀ c ∈ "1000000002".toList, isDecimal c = true := forall_of_all (by decide)
  have hs' : ∀ c ∈ "333333".toList, isDecimal c = true := forall_of_all (by decide)
  obtain ⟨x, hx, hexpand, hwritten, hruns⟩ := runLength_lossless hs (k := 6) (by decide)
  obtain ⟨x', hx', hexpand'⟩ :=
    hwritten "-12".toList "333333".toList [] (by decide) hs' (by decide) 6
  cases text_injective (Except.ok.inj (hx.symm.trans (compress_eq _ 6)))
  cases text_injective (Except.ok.inj (hx'.symm.trans (compress_eq _ 6)))
  exact ⟨hs, hx, hexpand, ⟨by decide, hs'⟩, hexpand', hruns⟩

end Operand

end RatCalc

import RatCalc.Proofs.BracketBase
import RatCalc.Proofs.StrayDigit

/-!
# Characters of brackets

* `RunLength.DroppedIn`: the characters of groups without copies; `mem_expand`: all others are left
  when groups are written out, apart from what groups are written with.
* `Literal.inDecimal_of_singleDecimal`, `inDecimal_of_unbracketed`: the characters of decimals.
* `Accounted`: texts of such characters, and of what offsets and endpoints are put together with;
  `accounted_of_offsetOf`, **`accounted_of_bracketed`**: what an accepted bracket holds.
-/

namespace RatCalc

open Text

namespace Text

variable {p : Char → Bool} {t u v : Text}

/-- A text with two parts has one separator. -/
theorem exists_of_split_eq_pair (h : split p t = [u, v]) : ∃ s, p s = true ∧ t = u ++ s :: v := by
  rcases split_cases p t with hno | ⟨a, s, b, rfl, hs⟩
  · rw [split_of_none hno] at h
    cases h
  · obtain ⟨⟨-, rfl⟩, -, rfl⟩ := (split_eq_pair_iff hs).1 h
    exact ⟨s, hs, rfl⟩

theorem body_of_no_blank (h : ∀ c ∈ t, isBlank c = false) : body t = t :=
  body_of_no_break fun hm => by
    have := h _ hm
    exact absurd this (by decide)

end Text

namespace RunLength

open Numeral

variable {c : Char} {t u b : Text} {k : Nat}

/-- The character stands in a group without copies. -/
def DroppedIn (c : Char) (t : Text) : Prop :=
  ∃ b ds : Text, c ∈ b ∧ isNumeral ds = true ∧ Numeral.value ds = 0 ∧
    '\x7b' :: (b ++ '~' :: (ds ++ ['\x7d'])) <:+: t

theorem DroppedIn.mono (h : DroppedIn c t) (ht : t <:+: u) : DroppedIn c u := by
  obtain ⟨b, ds, hc, hds, hv, hg⟩ := h
  exact ⟨b, ds, hc, hds, hv, hg.trans ht⟩

theorem exists_of_count? (h : count? t = some (k, u)) :
    ∃ ds, isNumeral ds = true ∧ k = Numeral.value ds ∧ t = ds ++ '\x7d' :: u := by
  have ht := List.takeWhile_append_dropWhile (p := isDecimal) (l := t)
  rw [count?] at h
  split at h
  · rename_i rest hdrop
    split_ifs at h with hempty
    cases h
    refine ⟨_, ?_, rfl, ?_⟩
    · rw [isNumeral, Bool.eq_false_of_not_eq_true hempty, List.all_takeWhile]
      rfl
    · rw [← hdrop, ht]
  · cases h

theorem exists_of_group? (h : group? t = some (b, k, u)) :
    ∃ ds, isNumeral ds = true ∧ k = Numeral.value ds ∧ t = b ++ '~' :: (ds ++ '\x7d' :: u) := by
  induction t generalizing b k u with
  | nil => cases h
  | cons a rest ih =>
    -- a group that begins later has one character more in its body
    have later : ∀ {b' u' : Text} {k' : Nat},
        (group? rest).map (fun x => (a :: x.1, x.2.1, x.2.2)) = some (b', k', u') →
          ∃ ds, isNumeral ds = true ∧ k' = Numeral.value ds ∧
            a :: rest = b' ++ '~' :: (ds ++ '\x7d' :: u') := by
      intro b' u' k' h
      obtain ⟨⟨x, j, y⟩, hg, he⟩ := Option.map_eq_some_iff.1 h
      obtain ⟨ds, hds, hk, hrest⟩ := ih hg
      cases he
      exact ⟨ds, hds, hk, congrArg (a :: ·) hrest⟩
    rw [group?.eq_def] at h
    simp only at h
    split_ifs at h
    split at h
    · rename_i after
      split at h
      · rename_i j y hcount
        cases h
        obtain ⟨ds, hds, hk, hafter⟩ := exists_of_count? hcount
        exact ⟨ds, hds, hk, by rw [hafter]; rfl⟩
      · exact later h
    · exact later h

/-- **What is left when groups are written out**: all but what groups are written with, and what
stands in groups without copies. -/
theorem mem_expand (h : c ∈ t) : c ∈ expand t ∨ InDecimal c ∨ DroppedIn c t := by
  induction t using expand.induct with
  | case1 => cases h
  | case2 rest b k tail hg hlen ih =>
    obtain ⟨ds, hds, rfl, rfl⟩ := exists_of_group? hg
    have hexpand : expand ('\x7b' :: (b ++ '~' :: (ds ++ '\x7d' :: tail))) =
        (List.replicate (Numeral.value ds) b).flatten ++ expand tail := by
      rw [expand, if_pos rfl]
      split
      · rename_i heq
        cases heq.symm.trans hg
        rfl
      · rename_i heq
        cases heq.symm.trans hg
    rw [hexpand]
    have htail : c ∈ tail → c ∈ (List.replicate (Numeral.value ds) b).flatten ++ expand tail ∨
        InDecimal c ∨ DroppedIn c ('\x7b' :: (b ++ '~' :: (ds ++ '\x7d' :: tail))) := fun hc =>
      (ih hc).imp (List.mem_append_right _) (Or.imp_right fun hd => hd.mono
        ⟨'\x7b' :: (b ++ '~' :: (ds ++ ['\x7d'])), [], by simp⟩)
    rcases List.mem_cons.1 h with rfl | h
    · exact .inr (.inl (.inr (by decide)))
    · rcases List.mem_append.1 h with hb | h
      · by_cases hk : Numeral.value ds = 0
        · exact .inr (.inr ⟨b, ds, hb, hds, hk, [], tail, by simp⟩)
        · refine .inl (List.mem_append_left _ (List.mem_flatten.2 ⟨b, ?_, hb⟩))
          exact List.mem_replicate.2 ⟨hk, rfl⟩
      · rcases List.mem_cons.1 h with rfl | h
        · exact .inr (.inl (.inr (by decide)))
        · rcases List.mem_append.1 h with hd | h
          · exact .inr (.inl (.inl ((Literal.isNumeral_iff.1 hds).2 c hd)))
          · rcases List.mem_cons.1 h with rfl | h
            · exact .inr (.inl (.inr (by decide)))
            · exact htail h
  | case3 rest hg ih =>
    have hexpand : expand ('\x7b' :: rest) = '\x7b' :: expand rest := by
      rw [expand, if_pos rfl]
      split
      · rename_i heq
        cases heq.symm.trans hg
      · rfl
    rw [hexpand]
    rcases List.mem_cons.1 h with rfl | h
    · exact .inl List.mem_cons_self
    · exact (ih h).imp (List.mem_cons_of_mem _)
        (Or.imp_right fun hd => hd.mono (List.suffix_cons _ _).isInfix)
  | case4 a rest ha ih =>
    rw [expand_cons ha]
    rcases List.mem_cons.1 h with rfl | h
    · exact .inl List.mem_cons_self
    · exact (ih h).imp (List.mem_cons_of_mem _)
        (Or.imp_right fun hd => hd.mono (List.suffix_cons _ _).isInfix)

end RunLength

namespace Literal

open Numeral RunLength

/-! ## Decimals -/

variable {t u whole fraction : Text} {negative : Bool} {x : Number} {n : Int}

/-- A row of digits that is read is one of digits with place values. -/
theorem isDecimal_of_wholeOf (hd : ∀ c ∈ t, isDigitLike c = true) (h : wholeOf t = .ok n) :
    ∀ c ∈ t, isDecimal c = true := by
  intro c hc
  by_contra hno
  have hlone : isLone c = true := by
    rw [isLone, hd c hc, Bool.eq_false_of_not_eq_true hno]
    rfl
  obtain ⟨quoted, herror⟩ := wholeOf_of_isLone hd ⟨c, hc, hlone⟩
  cases h.symm.trans herror

theorem isDigitLike_of_isDigitsLike (h : isDigitsLike t = true) :
    ∀ c ∈ t, isDigitLike c = true := by
  rw [isDigitsLike, Bool.and_eq_true] at h
  exact List.all_eq_true.1 h.2

/-- What stands around the point of a decimal. -/
theorem mem_splitPoint (h : splitPoint t = .ok (whole, fraction)) :
    (∀ c ∈ t, c = '.' ∨ c ∈ whole ∨ c ∈ fraction) ∧ fraction ⊆ t ∧
      (whole ⊆ t ∨ whole = ['0']) := by
  have hwhole : ∀ part : Text, part ⊆ t →
      part ⊆ (if part.isEmpty then ['0'] else part) ∧
        ((if part.isEmpty then ['0'] else part) ⊆ t ∨
          (if part.isEmpty then ['0'] else part) = ['0']) := by
    intro part hpart
    split_ifs with hempty
    · rw [List.isEmpty_iff.1 hempty]
      exact ⟨List.nil_subset _, .inr rfl⟩
    · exact ⟨List.Subset.refl _, .inl hpart⟩
  rw [splitPoint.eq_def] at h
  split at h
  · rename_i part heq
    obtain ⟨-, rfl⟩ := split_eq_singleton_iff.1 heq
    obtain ⟨hmem, hsubset⟩ := hwhole t (List.Subset.refl t)
    cases h
    exact ⟨fun c hc => .inr (.inl (hmem hc)), List.nil_subset _, hsubset⟩
  · rename_i part part' heq
    obtain ⟨s, hs, rfl⟩ := exists_of_split_eq_pair heq
    obtain ⟨hmem, hsubset⟩ := hwhole part (List.subset_append_left _ _)
    cases h
    refine ⟨fun c hc => ?_, ?_, hsubset⟩
    · rcases List.mem_append.1 hc with hc | hc
      · exact .inr (.inl (hmem hc))
      · exact (List.mem_cons.1 hc).imp (fun h => h.trans (beq_iff_eq.1 hs)) .inr
    · exact List.subset_append_of_subset_right _ (List.subset_cons_self _ _)
  · cases h

theorem inDecimal_of_parts (hmem : ∀ c ∈ t, c = '.' ∨ c ∈ whole ∨ c ∈ fraction)
    (hw : ∀ c ∈ whole, isDecimal c = true) (hf : ∀ c ∈ fraction, isDecimal c = true) :
    ∀ c ∈ t, InDecimal c := by
  intro c hc
  rcases hmem c hc with rfl | h | h
  · exact .inr (by decide)
  · exact .inl (hw c h)
  · exact .inl (hf c h)

section

variable (hblank : ∀ c ∈ t, isBlank c = false)

include hblank

theorem isDecimal_of_isDigits_of_no_blank (h : isDigits t = true) : ∀ c ∈ t, isDecimal c = true := by
  rw [isDigits, body_of_no_blank hblank] at h
  exact List.all_eq_true.1 h

theorem inDecimal_of_plainDecimal (h : plainDecimal t negative = .ok x) : ∀ c ∈ t, InDecimal c := by
  rw [plainDecimal] at h
  obtain ⟨⟨whole, fraction⟩, hsplit, h⟩ := bind_eq_ok.1 h
  obtain ⟨hmem, hfraction, -⟩ := mem_splitPoint hsplit
  simp only at h
  split at h
  · cases h
  · rename_i hdigits
    rw [Bool.or_eq_true, not_or, Bool.not_eq_true', Bool.not_eq_true', Bool.not_eq_false,
      Bool.not_eq_false] at hdigits
    have hw := isDigitLike_of_isDigitsLike hdigits.1
    have hf := isDecimal_of_isDigits_of_no_blank (fun c hc => hblank c (hfraction hc)) hdigits.2
    refine inDecimal_of_parts hmem ?_ hf
    split at h
    · obtain ⟨n, hn, -⟩ := bind_eq_ok.1 h
      exact isDecimal_of_wholeOf hw hn
    · obtain ⟨n, hn, -⟩ := bind_eq_ok.1 h
      have hall := isDecimal_of_wholeOf
        (forall_append hw fun c hc => isDigitLike_of_isDecimal (hf c hc)) hn
      exact fun c hc => hall c (List.mem_append_left _ hc)

theorem inDecimal_of_periodicDecimal (h : periodicDecimal t negative = .ok x) :
    ∀ c ∈ t, InDecimal c := by
  rw [periodicDecimal.eq_def] at h
  split at h
  · rename_i fixed period heq
    obtain ⟨s, hs, rfl⟩ := exists_of_split_eq_pair heq
    split at h
    · cases h
    · rename_i hperiod
      rw [Bool.not_eq_true', Bool.not_eq_false] at hperiod
      obtain ⟨⟨whole, fraction⟩, hsplit, h⟩ := bind_eq_ok.1 h
      obtain ⟨hmem, hfraction, hwhole⟩ := mem_splitPoint hsplit
      simp only at h
      split at h
      · cases h
      · rename_i hdigits
        rw [Bool.or_eq_true, not_or, Bool.not_eq_true', Bool.not_eq_true', Bool.not_eq_false,
          Bool.not_eq_false] at hdigits
        have hfixed : ∀ c ∈ fixed, isBlank c = false := fun c hc =>
          hblank c (List.mem_append_left _ hc)
        have hf := isDecimal_of_isDigits_of_no_blank (fun c hc => hfixed c (hfraction hc)) hdigits.2
        have hw : ∀ c ∈ whole, isDecimal c = true := by
          refine isDecimal_of_isDigits_of_no_blank ?_ hdigits.1
          rcases hwhole with hsubset | rfl
          · exact fun c hc => hfixed c (hsubset hc)
          · exact forall_of_all (by decide)
        obtain ⟨n, -, h⟩ := bind_eq_ok.1 h
        have hp : ∀ c ∈ period, isDecimal c = true := by
          by_cases hzero : period = ['0']
          · rw [hzero]
            exact forall_of_all (by decide)
          · rw [if_neg hzero] at h
            obtain ⟨m, hm, -⟩ := bind_eq_ok.1 h
            have hall := isDecimal_of_wholeOf (forall_append (fun c hc =>
              isDigitLike_of_isDecimal (forall_append hw hf c hc))
                (isDigitLike_of_isDigitsLike hperiod)) hm
            exact fun c hc => hall c (List.mem_append_right _ hc)
        refine inDecimal_append (inDecimal_of_parts hmem hw hf) (inDecimal_cons ?_ fun c hc =>
          .inl (hp c hc))
        rw [beq_iff_eq.1 hs]
        decide
  · cases h

theorem inDecimal_of_singleDecimal (h : singleDecimal t = .ok x) : ∀ c ∈ t, InDecimal c := by
  have hrest : ∀ c ∈ (minus t).2, isBlank c = false := fun c hc => hblank c (minus_subset t hc)
  have hchars : ∀ c ∈ (minus t).2, InDecimal c := by
    change (if (minus t).2.elem '#' then periodicDecimal (minus t).2 (minus t).1
      else plainDecimal (minus t).2 (minus t).1) = _ at h
    split_ifs at h
    · exact inDecimal_of_periodicDecimal hrest h
    · exact inDecimal_of_plainDecimal hrest h
  rw [← sign_append_minus t]
  refine inDecimal_append (fun c hc => .inr ?_) hchars
  rw [Ratio.mem_sign hc]
  decide

/-- A decimal that stands for one number has no characters but those of decimals when its groups are
written out. -/
theorem inDecimal_of_unbracketed {a : Rat} (h : unbracketed t = .ok x) (hx : x.toRat? = some a) :
    ∀ c ∈ expand t, InDecimal c := by
  rw [unbracketed, prepared, trim_of_no_blank hblank] at h
  obtain ⟨u, hu, h⟩ := bind_eq_ok.1 h
  split_ifs at hu
  cases hu
  split_ifs at h
  · -- two of them with a colon between them stand for an interval
    cases hp : pairOf (fun part => do singleDecimal (← prepared part)) (expand t) with
    | error f =>
      rw [hp] at h
      cases h
    | ok i =>
      rw [hp] at h
      cases h
      cases hx
  · exact inDecimal_of_singleDecimal (fun c hc => hblank c (expand_subset t hc)) h

end

/-! ## Offsets -/

/-- The characters of brackets: those of decimals, and those between them. -/
def InBracket (c : Char) : Prop := InDecimal c ∨ c ∈ ['+', ',', ':', 'E']

/-- A text of such characters and of what stands in groups without copies. -/
def Accounted (t : Text) : Prop := ∀ c ∈ t, InBracket c ∨ DroppedIn c t

theorem accounted_of_inDecimal (h : ∀ c ∈ t, InDecimal c) : Accounted t := fun c hc =>
  .inl (.inl (h c hc))

theorem Accounted.append (ht : Accounted t) (hu : Accounted u) : Accounted (t ++ u) := by
  intro c hc
  rcases List.mem_append.1 hc with hc | hc
  · exact (ht c hc).imp_right fun h => h.mono (List.prefix_append t u).isInfix
  · exact (hu c hc).imp_right fun h => h.mono (List.suffix_append t u).isInfix

theorem Accounted.cons {c : Char} (hc : InBracket c) (ht : Accounted t) : Accounted (c :: t) :=
  Accounted.append (t := [c]) (List.forall_mem_singleton.2 (.inl hc)) ht

theorem inDecimal_of_isNumeral (h : isNumeral t = true) : ∀ c ∈ t, InDecimal c := fun c hc =>
  .inl ((isNumeral_iff.1 h).2 c hc)

section

variable (hblank : ∀ c ∈ t, isBlank c = false)

include hblank

theorem inDecimal_of_isPlainNumber (h : isPlainNumber t = true) : ∀ c ∈ t, InDecimal c := by
  have hchars : ∀ c ∈ (minus t).2, InDecimal c := by
    rw [isPlainNumber_eq, body_of_no_blank hblank] at h
    split at h
    · exact inDecimal_of_isNumeral h
    · rename_i whole fraction hsplit
      obtain ⟨s, hs, ht⟩ := exists_of_splitOnce hsplit
      rw [Bool.or_eq_true, Bool.and_eq_true, Bool.and_eq_true, List.all_eq_true,
        List.isEmpty_iff] at h
      rw [ht, beq_iff_eq.1 hs]
      rcases h with ⟨hw, hf⟩ | ⟨rfl, hf⟩
      · exact inDecimal_append (inDecimal_of_isNumeral hw)
          (inDecimal_cons (by decide) fun c hc => .inl (hf c hc))
      · exact inDecimal_cons (by decide) (inDecimal_of_isNumeral hf)
  rw [← sign_append_minus t]
  refine inDecimal_append (fun c hc => .inr ?_) hchars
  rw [Ratio.mem_sign hc]
  decide

theorem inDecimal_of_isExponent (h : isExponent t = true) : ∀ c ∈ t, InDecimal c := by
  rw [isExponent, body_of_no_blank hblank] at h
  split at h
  · exact inDecimal_cons (by decide) (inDecimal_of_isNumeral h)
  · exact inDecimal_of_isNumeral h

theorem inDecimal_of_isRangeValue (h : isRangeValue t = true) : ∀ c ∈ t, InDecimal c := by
  rw [isRangeValue, body_of_no_blank hblank] at h
  split at h
  · exact inDecimal_of_isNumeral h
  · rename_i whole fraction hsplit
    obtain ⟨s, hs, rfl⟩ := exists_of_splitOnce hsplit
    rw [Bool.and_eq_true] at h
    refine inDecimal_append (inDecimal_of_isNumeral h.1) (inDecimal_cons ?_
      (inDecimal_of_isNumeral h.2))
    rw [beq_iff_eq.1 hs]
    decide

variable {a : Rat} {k : Int}

theorem accounted_of_offsetAt (h : offsetAt unbracketed t k = .ok a) : Accounted t := by
  rw [offsetAt] at h
  split_ifs at h with hperiod hplain
  · obtain ⟨x, hx, h⟩ := bind_eq_ok.1 h
    split at h
    · rename_i b hb
      have hchars := inDecimal_of_unbracketed hblank hx hb
      intro c hc
      rcases mem_expand hc with hc | hc | hc
      · exact .inl (.inl (hchars c hc))
      · exact .inl (.inl hc)
      · exact .inr hc
    · cases h
  · exact accounted_of_inDecimal (inDecimal_of_isPlainNumber hblank hplain)

/-- **An offset that is read** is a decimal, with a power of ten or not. -/
theorem accounted_of_offsetOf (h : offsetOf unbracketed t = .ok a) : Accounted t := by
  cases hsplit : splitOnce (· == 'E') t with
  | none =>
    rw [offsetOf_of_none hsplit] at h
    exact accounted_of_offsetAt hblank h
  | some parts =>
    obtain ⟨mantissa, exponent⟩ := parts
    rw [offsetOf_of_some hsplit] at h
    obtain ⟨s, hs, rfl⟩ := exists_of_splitOnce hsplit
    rw [List.forall_mem_append, List.forall_mem_cons] at hblank
    split_ifs at h with hexponent
    obtain ⟨k, -, h⟩ := bind_eq_ok.1 h
    refine (accounted_of_offsetAt hblank.1 h).append (.cons (.inr ?_)
      (accounted_of_inDecimal (inDecimal_of_isExponent hblank.2.2 hexponent)))
    rw [beq_iff_eq.1 hs]
    decide

theorem accounted_of_include {found found' : Offsets} (h : found.include t = .ok found') :
    Accounted t := by
  have hoffset : ∀ {s : Char} {rest : Text} {f : Rat → Offsets}, t = s :: rest → InBracket s →
      (offsetOf unbracketed rest).map f = .ok found' → Accounted t := by
    rintro s rest f rfl hs h
    cases ho : offsetOf unbracketed rest with
    | error f =>
      rw [ho] at h
      cases h
    | ok a => exact (accounted_of_offsetOf (List.forall_mem_cons.1 hblank).2 ho).cons hs
  rw [Offsets.include.eq_def] at h
  split at h
  · split_ifs at h
    exact hoffset rfl (.inr (by decide)) h
  · split_ifs at h
    exact hoffset rfl (.inl (.inr (by decide))) h
  · cases h

end

/-! ## Brackets -/

section

variable {base contents : Text} (hblank : ∀ c ∈ contents, isBlank c = false) {i : Interval}

include hblank

theorem accounted_of_rangeBracket {places : Nat} {integerBase : Bool}
    (h : rangeBracket base contents places integerBase = .ok i) : Accounted contents := by
  rw [rangeBracket] at h
  split at h
  · cases h
  · split at h
    · rename_i lower upper hsplit
      obtain ⟨s, hs, rfl⟩ := exists_of_split_eq_pair hsplit
      rw [List.forall_mem_append, List.forall_mem_cons] at hblank
      simp only [trim_of_no_blank hblank.1, trim_of_no_blank hblank.2.2] at h
      split at h
      · cases h
      · rename_i hvalues
        rw [Bool.or_eq_true, not_or, Bool.not_eq_true', Bool.not_eq_true', Bool.not_eq_false,
          Bool.not_eq_false] at hvalues
        refine (accounted_of_inDecimal (inDecimal_of_isRangeValue hblank.1 hvalues.1)).append
          (.cons (.inr ?_) (accounted_of_inDecimal
            (inDecimal_of_isRangeValue hblank.2.2 hvalues.2)))
        rw [Bool.or_eq_true, decide_eq_true_eq, decide_eq_true_eq] at hs
        rcases hs with rfl | rfl <;> decide
    · cases h

theorem accounted_of_symmetricBracket {a : Rat} {places : Nat} (hs : isSymmetric contents = true)
    (h : symmetricBracket a contents places = .ok i) : Accounted contents := by
  obtain ⟨s, s', rest, rfl, hs, hs'⟩ : ∃ s s' rest, contents = s :: s' :: rest ∧
      InBracket s ∧ InBracket s' := by
    rw [isSymmetric.eq_def] at hs
    split at hs
    · exact ⟨_, _, _, rfl, .inr (by decide), .inl (.inr (by decide))⟩
    · exact ⟨_, _, _, rfl, .inl (.inr (by decide)), .inr (by decide)⟩
    · cases hs
  rw [symmetricBracket] at h
  split at h
  · cases h
  · obtain ⟨offset, ho, -⟩ := bind_eq_ok.1 h
    rw [List.forall_mem_cons, List.forall_mem_cons] at hblank
    exact ((accounted_of_offsetOf hblank.2.2 ho).cons hs').cons hs

theorem accounted_of_offsetsBracket {a : Rat} {places : Nat}
    (h : offsetsBracket a contents places = .ok i) : Accounted contents := by
  rw [offsetsBracket] at h
  split at h
  · rename_i first second hsplit
    obtain ⟨s, hs, rfl⟩ := exists_of_split_eq_pair hsplit
    rw [List.forall_mem_append, List.forall_mem_cons] at hblank
    rw [trim_of_no_blank hblank.1, trim_of_no_blank hblank.2.2] at h
    obtain ⟨found, hfirst, h⟩ := bind_eq_ok.1 h
    obtain ⟨found', hsecond, -⟩ := bind_eq_ok.1 h
    refine (accounted_of_include hblank.1 hfirst).append (.cons (.inr ?_)
      (accounted_of_include hblank.2.2 hsecond))
    rw [beq_iff_eq.1 hs]
    decide
  · cases h

variable {b : Base}

theorem accounted_of_pointEndpoint {x : Number} {a : Rat}
    (h : pointEndpoint unbracketed b.text contents = .ok x) (hx : endpoint x = .ok a) :
    Accounted contents := by
  have hopen : '\x7b' ∉ b.text := Base.not_mem_text (by decide) (by decide)
  have hall : ∀ c ∈ b.text ++ contents, isBlank c = false :=
    forall_append Base.isBlank_of_mem_text hblank
  rw [pointEndpoint] at h
  split_ifs at h with hperiod hdigits
  · obtain ⟨a, ha⟩ : ∃ a, x.toRat? = some a := by
      cases x with
      | integer | rational => exact ⟨_, rfl⟩
      | interval => cases hx
    have hchars := inDecimal_of_unbracketed hall h ha
    rw [expand_append hopen] at hchars
    intro c hc
    rcases mem_expand hc with hc | hc | hc
    · exact .inl (.inl (hchars c (List.mem_append_right _ hc)))
    · exact .inl (.inl hc)
    · exact .inr hc
  · have hlike := isDigitLike_of_isDigitsLike hdigits
    cases hr : rational (b.text ++ contents) with
    | error f =>
      rw [hr] at h
      cases h
    | ok a =>
      obtain ⟨r, hu, -⟩ := rational_eq_ok_iff.1 hr
      have hcore : core (b.text ++ contents) = b.text ++ contents := by
        rw [core, trim_of_no_blank hall, expand_append hopen,
          expand_of_no_open (not_mem_of_isDigitLike hlike (by decide)), body_of_no_blank hall]
      rw [hcore] at hu
      refine accounted_of_inDecimal fun c hc => ?_
      have hne : ∀ s, isDigitLike s = false → c ≠ s := fun s hs hcs => by
        rw [← hcs, hlike c hc] at hs
        cases hs
      refine (hu.mem c ((mem_sign_iff (hne _ (by decide)) (hne _ (by decide))).1
        (List.mem_append_right _ hc))).imp_right fun hs => ?_
      exact absurd rfl (hne c (forall_of_all (P := fun s => isDigitLike s = false) (by decide) c hs))

theorem accounted_of_pointBracket (h : pointBracket unbracketed b.text contents = .ok i) :
    Accounted contents := by
  rw [pointBracket] at h
  split at h
  · cases h
  · rename_i lower upper hsplit
    obtain ⟨s, hs, rfl⟩ := exists_of_split_eq_pair hsplit
    rw [List.forall_mem_append, List.forall_mem_cons] at hblank
    rw [trim_of_no_blank hblank.1, trim_of_no_blank hblank.2.2] at h
    obtain ⟨x, hx, h⟩ := bind_eq_ok.1 h
    obtain ⟨y, hy, h⟩ := bind_eq_ok.1 h
    obtain ⟨lo, hlo, h⟩ := bind_eq_ok.1 h
    obtain ⟨hi, hhi, -⟩ := bind_eq_ok.1 h
    refine (accounted_of_pointEndpoint hblank.1 hx hlo).append (.cons (.inr ?_)
      (accounted_of_pointEndpoint hblank.2.2 hy hhi))
    rw [beq_iff_eq.1 hs]
    decide
  · cases h

/-- **What an accepted bracket holds**: decimals, what stands between them, and what stands in groups
without copies. -/
theorem accounted_of_bracketed {integerBase : Bool}
    (h : bracketed b.text contents integerBase = .ok i) : Accounted contents := by
  rw [bracketed] at h
  split at h
  · exact accounted_of_pointBracket hblank h
  · split at h
    · cases h
    · obtain ⟨a, -, h⟩ := bind_eq_ok.1 h
      simp only at h
      split at h
      · exact accounted_of_rangeBracket hblank h
      · split at h
        · rename_i hs
          exact accounted_of_symmetricBracket hblank hs h
        · exact accounted_of_offsetsBracket hblank h

end

end Literal

end RatCalc

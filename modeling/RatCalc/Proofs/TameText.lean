import RatCalc.Proofs.DecimalLiteral
import RatCalc.Proofs.EnclosedOperand
import RatCalc.Proofs.Reported

/-!
# Texts whose digits have place values

Some characters are digits without a place value, such as superscripts. Where a text has none of
them and no blanks, all that is wrong with it as a literal is a fault.

* `Text.isLone`, `Text.Tame`: such digits, and the texts without them; `split_subset`,
  `RunLength.expand_subset`, `trim_subset`: parts of a tame text are tame.
* `Literal.reported_singleDecimal`, `reportsTame_unbracketed`, `reportsTame_offsetOf`: decimals and
  offsets of tame texts.
* **`Literal.reported_bracketed`**: tame brackets; `Dialect.reported_interval`: numbers without
  them.
-/

namespace RatCalc

namespace Text

/-- A digit without a place value, such as a superscript or a circled digit. -/
def isLone (c : Char) : Bool := isDigitLike c && !isDecimal c

/-- A text without blanks in which every digit has a place value. -/
def Tame (t : Text) : Prop := ∀ c ∈ t, isBlank c = false ∧ isLone c = false

variable {t u : Text}

theorem Tame.subset (ht : Tame t) (h : u ⊆ t) : Tame u := fun c hc => ht c (h hc)

theorem Tame.append (ht : Tame t) (hu : Tame u) : Tame (t ++ u) := fun c hc =>
  (List.mem_append.1 hc).elim (ht c) (hu c)

theorem isLone_of_isDecimal {c : Char} (h : isDecimal c = true) : isLone c = false := by
  rw [isLone, h, Bool.not_true, Bool.and_false]

/-- The characters of signed decimals with a period. -/
def InDecimal (c : Char) : Prop := isDecimal c = true ∨ c ∈ ['-', '.', '#', '\x7b', '~', '\x7d']

theorem tame_of_inDecimal (h : ∀ c ∈ t, InDecimal c) : Tame t := by
  intro c hc
  rcases h c hc with hd | hs
  · exact ⟨isBlank_of_isDecimal hd, isLone_of_isDecimal hd⟩
  · exact forall_of_all (P := fun c => isBlank c = false ∧ isLone c = false) (by decide) c hs

theorem inDecimal_takeWhile (t : Text) : ∀ c ∈ t.takeWhile isDecimal, InDecimal c := fun c hc =>
  .inl (List.all_eq_true.1 List.all_takeWhile c hc)

theorem inDecimal_append (ht : ∀ c ∈ t, InDecimal c) (hu : ∀ c ∈ u, InDecimal c) :
    ∀ c ∈ t ++ u, InDecimal c := fun c hc => (List.mem_append.1 hc).elim (ht c) (hu c)

theorem inDecimal_cons {s : Char} (hs : s ∈ ['-', '.', '#', '\x7b', '~', '\x7d'])
    (ht : ∀ c ∈ t, InDecimal c) : ∀ c ∈ s :: t, InDecimal c :=
  List.forall_mem_cons.2 ⟨.inr hs, ht⟩

/-- Digits of a tame text have a place value. -/
theorem Tame.isDecimal (ht : Tame t) (h : ∀ c ∈ t, isDigitLike c = true) :
    ∀ c ∈ t, isDecimal c = true := by
  intro c hc
  have hlone := (ht c hc).2
  rw [isLone, h c hc, Bool.true_and, Bool.not_eq_false'] at hlone
  exact hlone

theorem Tame.not_mem {c : Char} (ht : Tame t) (hc : isBlank c = true) : c ∉ t := fun hm => by
  rw [(ht c hm).1] at hc
  cases hc

/-! ## Parts of texts -/

theorem trim_subset (t : Text) : trim t ⊆ t := by
  intro c hc
  rw [trim, List.mem_reverse] at hc
  have hc := (List.dropWhile_sublist _).subset hc
  exact (List.dropWhile_sublist _).subset (List.mem_reverse.1 hc)

theorem minus_subset (t : Text) : (minus t).2 ⊆ t := by
  rcases minus_cases t with ⟨u, rfl, h⟩ | ⟨-, h⟩ <;> rw [h]
  · exact List.subset_cons_self _ _
  · exact List.Subset.refl _

theorem minus_snd (t : Text) : (minus t).2 = match t with
    | '-' :: rest => rest
    | t => t := by
  rcases minus_cases t with ⟨u, rfl, -⟩ | ⟨hno, h⟩
  · rfl
  · rw [h]
    split
    · exact absurd rfl (hno _)
    · rfl

theorem split_subset {p : Char → Bool} {part : Text} (h : part ∈ split p t) : part ⊆ t := by
  induction t generalizing part with
  | nil => rw [List.mem_singleton.1 h]; exact List.nil_subset _
  | cons c t ih =>
    rw [split] at h
    split_ifs at h
    · rcases List.mem_cons.1 h with rfl | h
      · exact List.nil_subset _
      · exact List.subset_cons_of_subset c (ih h)
    · cases hs : split p t with
      | nil =>
        rw [hs] at h
        rw [List.mem_singleton.1 h]
        exact List.cons_subset_cons c (List.nil_subset t)
      | cons first parts =>
        rw [hs] at h ih
        rcases List.mem_cons.1 h with rfl | h
        · exact List.cons_subset_cons c (ih List.mem_cons_self)
        · exact List.subset_cons_of_subset c (ih (List.mem_cons_of_mem _ h))

theorem splitOnce_of_none {p : Char → Bool} (h : ∀ c ∈ t, p c = false) :
    splitOnce p t = none := by
  have hdrop : t.dropWhile (fun c => !p c) = [] := by
    have hspan : (t ++ []).dropWhile (fun c => !p c) = [] :=
      (span_append (fun c hc => by rw [h c hc]; rfl) (by rintro c u ⟨⟩)).2
    rwa [List.append_nil] at hspan
  rw [splitOnce, hdrop]

theorem splitOnce_append {p : Char → Bool} {c : Char} (hu : ∀ c ∈ u, p c = false)
    (hc : p c = true) (w : Text) : splitOnce p (u ++ c :: w) = some (u, w) := by
  have hends : ∀ a v, c :: w = a :: v → (!p a) = false := fun a v h => by
    rw [← (List.cons.inj h).1, hc]
    rfl
  obtain ⟨htake, hdrop⟩ := span_append (fun c h => by rw [hu c h]; rfl) hends
  rw [splitOnce, hdrop]
  simp only [htake]

theorem exists_of_splitOnce {p : Char → Bool} {before after : Text}
    (h : splitOnce p t = some (before, after)) : ∃ s, p s = true ∧ t = before ++ s :: after := by
  have ht := List.takeWhile_append_dropWhile (p := fun c => !p c) (l := t)
  rw [splitOnce] at h
  split at h
  · cases h
  · rename_i s after hdrop
    cases h
    refine ⟨s, ?_, ?_⟩
    · simpa using head_of_dropWhile hdrop
    · rw [← hdrop, ht]

theorem splitOnce_subset {p : Char → Bool} {before after : Text}
    (h : splitOnce p t = some (before, after)) : before ⊆ t ∧ after ⊆ t := by
  obtain ⟨s, -, rfl⟩ := exists_of_splitOnce h
  exact ⟨List.subset_append_left _ _,
    List.subset_append_of_subset_right _ (List.subset_cons_self s after)⟩

end Text

open Text

namespace RunLength

variable {t body tail : Text} {k : Nat}

theorem group?_subset (h : group? t = some (body, k, tail)) : body ⊆ t ∧ tail ⊆ t := by
  induction t generalizing body k tail with
  | nil => cases h
  | cons c rest ih =>
    have step : ∀ {b u : Text} {j : Nat},
        (group? rest).map (fun x => (c :: x.1, x.2.1, x.2.2)) = some (b, j, u) →
          b ⊆ c :: rest ∧ u ⊆ c :: rest := by
      intro b u j h
      obtain ⟨⟨b', j', u'⟩, hg, he⟩ := Option.map_eq_some_iff.1 h
      obtain ⟨hb, hu⟩ := ih hg
      cases he
      exact ⟨List.cons_subset_cons c hb, List.subset_cons_of_subset c hu⟩
    rw [group?.eq_def] at h
    simp only at h
    split_ifs at h
    split at h
    · rename_i after
      split at h
      · rename_i j u hcount
        cases h
        refine ⟨List.cons_subset_cons c (List.nil_subset _), fun a ha => ?_⟩
        rw [count?] at hcount
        split at hcount
        · rename_i rest hdrop
          split_ifs at hcount
          cases hcount
          have hmem := (List.dropWhile_sublist _).subset (hdrop ▸ List.mem_cons_of_mem _ ha)
          exact List.mem_cons_of_mem _ (List.mem_cons_of_mem _ hmem)
        · cases hcount
      · exact step h
    · exact step h

/-- Writing groups out brings in no characters. -/
theorem expand_subset (t : Text) : expand t ⊆ t := by
  induction t using expand.induct with
  | case1 =>
    rw [expand]
    exact List.nil_subset _
  | case2 rest body k tail hg hlen ih =>
    obtain ⟨hbody, htail⟩ := group?_subset hg
    rw [expand, if_pos rfl]
    split
    · rename_i heq
      cases heq.symm.trans hg
      intro c hc
      rcases List.mem_append.1 hc with hc | hc
      · obtain ⟨u, hu, hc⟩ := List.mem_flatten.1 hc
        rw [List.eq_of_mem_replicate hu] at hc
        exact List.mem_cons_of_mem _ (hbody hc)
      · exact List.mem_cons_of_mem _ (htail (ih hc))
    · rename_i heq
      cases heq.symm.trans hg
  | case3 rest hg ih =>
    rw [expand, if_pos rfl]
    split
    · rename_i heq
      cases heq.symm.trans hg
    · exact List.cons_subset_cons _ ih
  | case4 c rest hc ih =>
    rw [expand_cons hc]
    exact List.cons_subset_cons c ih

end RunLength

/-! ## Decimals of tame texts -/

namespace Literal

variable {t u whole fraction : Text}

theorem reported_wholeOf (hne : t ≠ []) (h : ∀ c ∈ t, isDecimal c = true) :
    Reported (wholeOf t) := by
  rw [wholeOf, Numeral.readInt?_of_isDecimal hne h]
  exact reported_ok _

theorem isDecimal_of_isDigitsLike (ht : Tame t) (h : isDigitsLike t = true) :
    t ≠ [] ∧ ∀ c ∈ t, isDecimal c = true := by
  rw [isDigitsLike, Bool.and_eq_true, Bool.not_eq_true', List.isEmpty_eq_false_iff] at h
  exact ⟨h.1, ht.isDecimal (List.all_eq_true.1 h.2)⟩

theorem isDecimal_of_isDigits (ht : Tame t) (h : isDigits t = true) :
    ∀ c ∈ t, isDecimal c = true := by
  rw [isDigits, body_of_no_break (ht.not_mem (by decide))] at h
  exact List.all_eq_true.1 h

theorem reported_splitPoint (t : Text) : Reported (splitPoint t) := by
  unfold splitPoint
  split
  · exact reported_ok _
  · exact reported_ok _
  · exact reported_error trivial

/-- The parts of a decimal: a missing whole part is zero. -/
theorem tame_of_splitPoint (ht : Tame t) (h : splitPoint t = .ok (whole, fraction)) :
    whole ≠ [] ∧ Tame whole ∧ Tame fraction := by
  have hzero : Tame ['0'] := tame_of_inDecimal fun c hc => .inl (by
    rw [List.mem_singleton.1 hc]
    decide)
  have hwhole : ∀ part, Tame part → (if part.isEmpty then ['0'] else part) ≠ [] ∧
      Tame (if part.isEmpty then ['0'] else part) := by
    intro part hpart
    split_ifs with hempty
    · exact ⟨List.cons_ne_nil _ _, hzero⟩
    · exact ⟨fun h => hempty (List.isEmpty_iff.2 h), hpart⟩
  have hpart : ∀ part ∈ split (· == '.') t, Tame part := fun _ h => ht.subset (split_subset h)
  unfold splitPoint at h
  split at h
  · rename_i part heq
    cases h
    obtain ⟨hne, htame⟩ := hwhole part (hpart part (by rw [heq]; simp))
    exact ⟨hne, htame, List.forall_mem_nil _⟩
  · rename_i part part' heq
    cases h
    obtain ⟨hne, htame⟩ := hwhole part (hpart part (by rw [heq]; simp))
    exact ⟨hne, htame, hpart _ (by rw [heq]; simp)⟩
  · cases h

theorem forall_append {P : Char → Prop} (ht : ∀ c ∈ t, P c) (hu : ∀ c ∈ u, P c) :
    ∀ c ∈ t ++ u, P c := fun c hc => (List.mem_append.1 hc).elim (ht c) (hu c)

theorem reported_plainDecimal (ht : Tame t) (negative : Bool) :
    Reported (plainDecimal t negative) := by
  rw [plainDecimal]
  refine (reported_splitPoint t).bind fun parts hparts => ?_
  obtain ⟨whole, fraction⟩ := parts
  obtain ⟨hne, hwhole, hfraction⟩ := tame_of_splitPoint ht hparts
  refine .ite (fun _ => reported_error trivial) fun hdigits => ?_
  rw [Bool.or_eq_true, not_or, Bool.not_eq_true', Bool.not_eq_true', Bool.not_eq_false,
    Bool.not_eq_false] at hdigits
  have hw := (isDecimal_of_isDigitsLike hwhole hdigits.1).2
  have hf := isDecimal_of_isDigits hfraction hdigits.2
  refine .ite (fun _ => ?_) fun _ => ?_
  · exact (reported_wholeOf hne hw).bind fun _ _ => reported_ok _
  · exact (reported_wholeOf (List.append_ne_nil_of_left_ne_nil hne _) (forall_append hw hf)).bind
      fun _ _ => reported_ok _

theorem reported_periodicDecimal (ht : Tame t) (negative : Bool) :
    Reported (periodicDecimal t negative) := by
  unfold periodicDecimal
  split
  · rename_i fixed period heq
    have hpart : ∀ part ∈ split (· == '#') t, Tame part := fun _ h => ht.subset (split_subset h)
    have hfixed : Tame fixed := hpart _ (by rw [heq]; simp)
    have hperiod : Tame period := hpart _ (by rw [heq]; simp)
    refine .ite (fun _ => reported_error trivial) fun hp => ?_
    rw [Bool.not_eq_true', Bool.not_eq_false] at hp
    obtain ⟨-, hp⟩ := isDecimal_of_isDigitsLike hperiod hp
    refine (reported_splitPoint fixed).bind fun parts hparts => ?_
    obtain ⟨whole, fraction⟩ := parts
    obtain ⟨hne, hwhole, hfraction⟩ := tame_of_splitPoint hfixed hparts
    refine .ite (fun _ => reported_error trivial) fun hdigits => ?_
    rw [Bool.or_eq_true, not_or, Bool.not_eq_true', Bool.not_eq_true', Bool.not_eq_false,
      Bool.not_eq_false] at hdigits
    have hne := List.append_ne_nil_of_left_ne_nil hne fraction
    have hab := forall_append (isDecimal_of_isDigits hwhole hdigits.1)
      (isDecimal_of_isDigits hfraction hdigits.2)
    refine (reported_wholeOf hne hab).bind fun _ _ => ?_
    refine .ite (fun _ => ?_) fun _ => ?_
    · exact (Ratio.reported_ofInts _ _).bind fun _ _ => reported_ok _
    · have habc := reported_wholeOf (List.append_ne_nil_of_left_ne_nil hne period)
        (forall_append hab hp)
      exact habc.bind fun _ _ =>
        (reported_repeatingFraction _ _ _ _ _).bind fun _ _ => reported_ok _
  · exact reported_error trivial

theorem reported_singleDecimal (ht : Tame t) : Reported (singleDecimal t) := by
  have hrest : Tame (minus t).2 := ht.subset (minus_subset t)
  change Reported (if (minus t).2.elem '#' then periodicDecimal (minus t).2 (minus t).1
    else plainDecimal (minus t).2 (minus t).1)
  exact .ite (fun _ => reported_periodicDecimal hrest _) fun _ => reported_plainDecimal hrest _

theorem reported_prepared (t : Text) : Reported (prepared t) :=
  .ite (fun _ => reported_error trivial) fun _ => reported_ok _

theorem tame_of_prepared (ht : Tame t) (h : prepared t = .ok u) : Tame u := by
  rw [prepared] at h
  split_ifs at h
  cases h
  exact (ht.subset (trim_subset t)).subset (RunLength.expand_subset _)

/-- A reader whose failures on tame texts are faults. -/
def ReportsTame {α : Type} (read : Text → Except Failure α) : Prop :=
  ∀ t, Tame t → Reported (read t)

theorem ReportsTame.prepared {α : Type} {read : Text → Except Failure α} (h : ReportsTame read) :
    ReportsTame (fun t => do read (← prepared t)) := fun t ht =>
  (reported_prepared t).bind fun u hu => h u (tame_of_prepared ht hu)

theorem reportsTame_pairOf {read : Text → Except Failure Number} (hread : ReportsTame read) :
    ReportsTame (pairOf read) := by
  intro t ht
  unfold pairOf
  split
  · rename_i first second heq
    have hpart : ∀ part ∈ split (· == ':') t, Tame (trim part) := fun part h =>
      (ht.subset (split_subset h)).subset (trim_subset part)
    refine (hread _ (hpart first (by rw [heq]; simp))).bind fun _ _ => ?_
    refine (hread _ (hpart second (by rw [heq]; simp))).bind fun _ _ => ?_
    split
    · exact reported_ok _
    · exact reported_error trivial
  · exact reported_error trivial

theorem reportsTame_unbracketed : ReportsTame unbracketed := by
  have hsingle : ReportsTame (fun t => do singleDecimal (← Literal.prepared t)) :=
    ReportsTame.prepared fun _ => reported_singleDecimal
  exact ReportsTame.prepared fun t ht => .ite (fun _ => (reportsTame_pairOf hsingle t ht).map _)
    fun _ => reported_singleDecimal ht

/-! ## Brackets with tame contents -/

theorem reported_wholeOf_of_isExponent (ht : Tame t) (h : isExponent t = true) :
    Reported (wholeOf t) := by
  have hdigits : ∀ {ds : Text}, Numeral.isNumeral ds = true →
      Numeral.readNat? ds = some (Numeral.value ds) := fun h => by rw [Numeral.readNat?, if_pos h]
  rw [isExponent, body_of_no_break (ht.not_mem (by decide))] at h
  rw [wholeOf, Numeral.readInt?, trim_of_no_blank fun c hc => (ht c hc).1]
  rcases minus_cases t with ⟨u, rfl, -⟩ | ⟨hminus, -⟩
  · simp only at h ⊢
    rw [hdigits h]
    exact reported_ok _
  · have hnumeral : Numeral.isNumeral t = true := by
      split at h
      · exact absurd rfl (hminus _)
      · exact h
    have hplus : ∀ u, t ≠ '+' :: u := by
      rintro u rfl
      rw [Numeral.isNumeral, List.all_cons, show isDecimal '+' = false by decide] at hnumeral
      simp at hnumeral
    split
    · exact reported_ok _
    · rename_i heq
      split at heq
      · exact absurd rfl (hminus _)
      · exact absurd rfl (hplus _)
      · rw [hdigits hnumeral] at heq
        cases heq

theorem isPlainNumber_eq (t : Text) : isPlainNumber t =
    match splitOnce (· == '.') (minus (body t)).2 with
    | none => Numeral.isNumeral (minus (body t)).2
    | some (whole, fraction) =>
      (Numeral.isNumeral whole && fraction.all isDecimal) ||
        (whole.isEmpty && Numeral.isNumeral fraction) := by
  rw [minus_snd]
  rfl

/-- An offset with its power of ten. -/
def offsetAt (read : Text → Except Failure Number) (t : Text) (exponent : Int) :
    Except Failure Rat := do
  if t.elem '#' then
    match (← read t).toRat? with
    | some a => return Ratio.shift 10 a exponent
    | none => .error (.uncertainty .offsetInterval)
  else if isPlainNumber t then return Ratio.shift 10 (← rational t) exponent
  else .error (.uncertainty .symmetricOffset)

theorem offsetOf_of_none {read : Text → Except Failure Number}
    (h : splitOnce (· == 'E') t = none) : offsetOf read t = offsetAt read t 0 := by
  rw [offsetOf, h]
  rfl

theorem offsetOf_of_some {read : Text → Except Failure Number} {mantissa exponent : Text}
    (h : splitOnce (· == 'E') t = some (mantissa, exponent)) :
    offsetOf read t = if isExponent exponent then
      wholeOf exponent >>= offsetAt read mantissa
    else .error (.uncertainty .exponent) := by
  rw [offsetOf, h]
  simp only
  split_ifs
  · cases wholeOf exponent <;> rfl
  · rfl

section

variable {read : Text → Except Failure Number} (hread : ReportsTame read)

include hread

theorem reported_offsetAt (ht : Tame t) (k : Int) : Reported (offsetAt read t k) := by
  refine .ite (fun _ => (hread t ht).bind fun x _ => ?_) fun _ => .ite (fun _ => ?_) fun _ => ?_
  · split
    · exact reported_ok _
    · exact reported_error trivial
  · exact (reported_rational t).bind fun _ _ => reported_ok _
  · exact reported_error trivial

theorem reportsTame_offsetOf : ReportsTame (offsetOf read) := by
  intro t ht
  cases hsplit : splitOnce (· == 'E') t with
  | none =>
    rw [offsetOf_of_none hsplit]
    exact reported_offsetAt hread ht 0
  | some parts =>
    obtain ⟨mantissa, exponent⟩ := parts
    obtain ⟨hm, he⟩ := splitOnce_subset hsplit
    rw [offsetOf_of_some hsplit]
    split_ifs with hexp
    · exact (reported_wholeOf_of_isExponent (ht.subset he) hexp).bind
        fun k _ => reported_offsetAt hread (ht.subset hm) k
    · exact reported_error trivial

end

theorem reported_include (found : Offsets) (ht : Tame t) : Reported (found.include t) := by
  have hoffset : ∀ {rest : Text}, rest ⊆ t → Reported (offsetOf unbracketed rest) := fun h =>
    reportsTame_offsetOf reportsTame_unbracketed _ (ht.subset h)
  unfold Offsets.include
  split
  · exact .ite (fun _ => reported_error trivial) fun _ => .ite (fun _ => reported_error trivial)
      fun _ => (hoffset (List.subset_cons_self _ _)).map _
  · exact .ite (fun _ => reported_error trivial) fun _ => .ite (fun _ => reported_error trivial)
      fun _ => (hoffset (List.subset_cons_self _ _)).map _
  · exact reported_error trivial

/-- The parts of the contents of a bracket are tame if the contents are. -/
theorem tame_trim_of_mem_split {p : Char → Bool} {part : Text} (ht : Tame t)
    (h : part ∈ split p t) : Tame (trim part) :=
  (ht.subset (split_subset h)).subset (trim_subset part)

variable {contents base : Text}

theorem reported_offsetsBracket (a : Rat) (hc : Tame contents) (places : Nat) :
    Reported (offsetsBracket a contents places) := by
  unfold offsetsBracket
  split
  · rename_i first second heq
    have hfirst : Tame (trim first) := tame_trim_of_mem_split hc (by rw [heq]; simp)
    have hsecond : Tame (trim second) := tame_trim_of_mem_split hc (by rw [heq]; simp)
    refine (reported_include _ hfirst).bind fun found _ => ?_
    refine (reported_include _ hsecond).bind fun found _ => ?_
    split
    · exact reported_ok _
    · exact reported_error trivial
  · exact reported_error trivial

theorem reported_symmetricBracket (a : Rat) (hc : Tame contents) (places : Nat) :
    Reported (symmetricBracket a contents places) := by
  have hrest : Tame (contents.drop 2) := hc.subset (List.drop_subset 2 contents)
  unfold symmetricBracket
  split
  · exact reported_error trivial
  · exact (reportsTame_offsetOf reportsTame_unbracketed _ hrest).bind fun _ _ => reported_ok _

theorem reported_rangeBracket (base contents : Text) (places : Nat) (integerBase : Bool) :
    Reported (rangeBracket base contents places integerBase) := by
  unfold rangeBracket
  refine .ite (fun _ => reported_error trivial) fun _ => ?_
  split
  · refine .ite (fun _ => reported_error trivial) fun _ =>
      .ite (fun _ => reported_error trivial) fun _ => ?_
    exact (reported_rational _).bind fun _ _ => (reported_rational _).bind fun _ _ => reported_ok _
  · exact reported_error trivial

theorem reported_pointBracket (hb : Tame base) (hc : Tame contents) :
    Reported (pointBracket unbracketed base contents) := by
  have hpoint : ∀ t, Tame t → Reported (pointEndpoint unbracketed base t) := fun t ht =>
    .ite (fun _ => reportsTame_unbracketed _ (hb.append ht)) fun _ =>
      .ite (fun _ => (reported_rational _).map _) fun _ => reported_error trivial
  have hendpoint : ∀ x, Reported (endpoint x) := fun x => by
    cases x with
    | integer | rational => exact reported_ok _
    | interval => exact reported_error trivial
  unfold pointBracket
  split
  · exact reported_error trivial
  · rename_i lower upper heq
    refine (hpoint _ (tame_trim_of_mem_split hc (by rw [heq]; simp))).bind fun x _ => ?_
    refine (hpoint _ (tame_trim_of_mem_split hc (by rw [heq]; simp))).bind fun y _ => ?_
    exact (hendpoint x).bind fun _ _ => (hendpoint y).bind fun _ _ => reported_ok _
  · exact reported_error trivial

theorem reported_bracketed (hb : Tame base) (hc : Tame contents) (integerBase : Bool) :
    Reported (bracketed base contents integerBase) := by
  unfold bracketed
  refine .ite (fun _ => reported_pointBracket hb hc) fun _ =>
    .ite (fun _ => reported_error trivial) fun _ => (reported_rational base).bind fun a _ => ?_
  exact .ite (fun _ => reported_rangeBracket _ _ _ _) fun _ =>
    .ite (fun _ => reported_symmetricBracket a hc _) fun _ => reported_offsetsBracket a hc _

/-- A bracket literal: a tame base, and contents between brackets. -/
theorem exists_of_bracket? {r : Text} (h : bracket? t = some (base, contents, r)) :
    Tame base ∧ ∃ w, '[' ∉ w ∧ t = w ++ '[' :: (contents ++ ']' :: r) ∧ ']' ∉ contents := by
  rw [Reading.bracket?_eq] at h
  obtain ⟨⟨x, u⟩, hx, h⟩ := Option.map_eq_some_iff.1 h
  cases h
  obtain ⟨w, hw, ht⟩ := (takes_minus t).trans (Reading.takes_bracketBase _)
  refine ⟨?_, w, hw, ?_⟩
  · refine tame_of_inDecimal (inDecimal_append (fun c hc => .inr ?_) ?_)
    · rw [Ratio.mem_sign hc]
      decide
    · rw [Reading.bracketBase]
      split
      · exact inDecimal_append (inDecimal_takeWhile _)
          (inDecimal_cons (by decide) (inDecimal_takeWhile _))
      · exact inDecimal_takeWhile _
  · rw [Reading.bracketContents?.eq_def] at hx
    split at hx
    · rename_i v hv
      split at hx
      · rename_i after hafter
        split_ifs at hx
        cases hx
        rw [← hafter, List.takeWhile_append_dropWhile, ← hv]
        refine ⟨ht, fun hm => ?_⟩
        have := List.all_eq_true.1 List.all_takeWhile _ hm
        simp at this
      · cases hx
    · cases hx

theorem reportsTame_uncertainty (integerBase : Bool) :
    ReportsTame (uncertainty · integerBase) := by
  intro t ht
  change Reported (uncertainty t integerBase)
  unfold uncertainty
  rw [body_of_no_break (ht.not_mem (by decide))]
  split
  · rename_i base contents hb
    obtain ⟨hbase, w, -, heq, -⟩ := exists_of_bracket? hb
    refine reported_bracketed hbase (ht.subset fun c hc => ?_) integerBase
    rw [heq]
    exact List.mem_append_right w (List.mem_cons_of_mem _ (List.mem_append_left _ hc))
  · exact reported_error trivial

theorem reportsTame_decimal : ReportsTame decimal :=
  ReportsTame.prepared fun t ht => .ite
    (fun _ => (reportsTame_uncertainty false t ht).map _) fun _ => .ite
      (fun _ => (reportsTame_pairOf reportsTame_unbracketed t ht).map _)
      fun _ => reported_singleDecimal ht

end Literal

/-! ## Numbers without brackets -/

namespace Dialect

variable {t : Text}

theorem inDecimal_digitRuns {skip : Nat} (h : ∀ c ∈ t.take skip, InDecimal c) :
    ∀ c ∈ (digitRuns skip t).1, InDecimal c := by
  induction t generalizing skip with
  | nil => cases skip <;> exact List.forall_mem_nil _
  | cons c t ih =>
    cases skip with
    | succ skip =>
      rw [List.take_succ_cons, List.forall_mem_cons] at h
      rw [digitRuns]
      exact List.forall_mem_cons.2 ⟨h.1, ih h.2⟩
    | zero =>
      rw [digitRuns]
      split_ifs with hc
      · exact List.forall_mem_cons.2 ⟨.inl hc, ih (by simp)⟩
      · cases hg : groupLength (c :: t) with
        | zero => exact List.forall_mem_nil _
        | succ k =>
          obtain ⟨ds, es, r, heq, hds, hes⟩ := exists_group (t := c :: t) (by omega)
          have hl := groupLength_of hds hes r
          rw [← heq, hg] at hl
          obtain ⟨rfl, rfl⟩ := List.cons.inj heq
          refine inDecimal_cons (by decide) (ih fun a ha => ?_)
          have ht : (ds ++ '~' :: (es ++ '\x7d' :: r)) = (ds ++ '~' :: (es ++ ['\x7d'])) ++ r := by
            simp
          rw [ht, List.take_append_of_le_length (by simp; omega)] at ha
          have hgroup := inDecimal_append (fun c hc => .inl (hds.2 c hc))
            (inDecimal_cons (s := '~') (by decide) (inDecimal_append (fun c hc => .inl (hes.2 c hc))
              (inDecimal_cons (s := '\x7d') (by decide) (List.forall_mem_nil _))))
          exact hgroup a (List.mem_of_mem_take ha)

theorem inDecimal_repeating? {literal r : Text} (h : repeating? t = some (literal, r)) :
    ∀ c ∈ literal, InDecimal c := by
  have hruns : ∀ u, ∀ c ∈ (digitRuns 0 u).1, InDecimal c := fun u =>
    inDecimal_digitRuns fun c hc => by simp at hc
  have hfixed : ∀ {x u : Text}, fixedPart? t = some (x, u) → ∀ c ∈ x, InDecimal c := by
    intro x u hx
    rw [fixedPart?.eq_def] at hx
    split at hx
    · split_ifs at hx
      cases hx
      exact inDecimal_cons (by decide) (hruns _)
    · cases hx
    · cases hx
      exact inDecimal_append (inDecimal_takeWhile t) (inDecimal_cons (by decide) (hruns _))
    · cases hx
      exact inDecimal_append (inDecimal_takeWhile t) (hruns _)
  rw [repeating?] at h
  split at h
  · rename_i hf
    cases h
    exact inDecimal_append (hfixed hf) (inDecimal_cons (by decide) (hruns _))
  · cases h

theorem inDecimal_plain? {d : Dialect} (hs : d.system = none) {negative : Bool} {literal r : Text}
    {places : Nat} (h : d.plain? t = some (negative, literal, places, r)) :
    ∀ c ∈ literal, InDecimal c := by
  have hrow : ∀ u : Text, ∀ c ∈ u.takeWhile d.isDigit, InDecimal c := by
    intro u c hc
    have hdigit := List.all_eq_true.1 List.all_takeWhile c hc
    rw [isDigit, hs] at hdigit
    exact .inl (isDecimal_of_plain hdigit)
  rw [plain?_eq] at h
  split at h
  · split_ifs at h
    cases h
    exact inDecimal_append (hrow _) (inDecimal_cons (by decide) (hrow _))
  · cases h

theorem reported_repeatingValue (ht : Tame t) : Reported (repeatingValue t) := by
  unfold repeatingValue
  split
  · split
    · exact reported_ok _
    · exact reported_error trivial
  · rename_i f hf
    split
    · exact reported_error trivial
    · exact reported_error (Literal.reportsTame_decimal t ht f hf)

variable (d : Dialect) (t : Text)

theorem reported_unsigned : Reported (d.unsigned t) := by
  unfold unsigned
  refine .ite (fun _ => reported_error trivial) fun _ => ?_
  split
  · refine (d.reported_pointedIn t _).bind fun x _ => ?_
    cases x with
    | some y => exact reported_ok _
    | none => exact d.reported_fraction t
  · split
    · exact reported_ok _
    · rename_i hr
      exact (reported_repeatingValue (tame_of_inDecimal (inDecimal_repeating? hr))).bind
        fun _ _ => reported_ok _
    · exact (Literal.reported_rational _).bind fun _ _ => reported_ok _
    · exact d.reported_fraction t

theorem reported_endpoint : Reported (d.endpoint t) := by
  rw [endpoint_eq]
  split
  · exact (Literal.reported_continuedFraction _).bind fun _ _ => reported_ok _
  · rw [signed.eq_def]
    split
    · exact (d.reported_unsigned _).bind fun _ _ => reported_ok _
    · exact d.reported_unsigned _

theorem reported_scaledEndpoint (beforeColon : Bool) :
    Reported (d.scaledEndpoint beforeColon t) := by
  unfold scaledEndpoint
  refine (d.reported_endpoint t).bind fun _ _ => .ite (fun _ => ?_) fun _ => reported_ok _
  exact (d.reported_exponent _).bind fun _ _ => .ite (fun _ => reported_ok _) fun _ => reported_ok _

/-- **What is wrong with numbers without brackets is a fault.** -/
theorem reported_interval : Reported (d.interval t) := by
  unfold interval
  split
  · rename_i negative literal places rest _ hp
    have huncertain : Reported (d.uncertain t negative literal places rest) := by
      unfold uncertain
      split
      · rename_i hs
        have hliteral := tame_of_inDecimal (inDecimal_plain? hs hp)
        exact (Literal.reported_plainDecimal hliteral negative).bind fun _ _ => reported_ok _
      · exact (d.reported_endpoint t).bind fun _ _ => reported_ok _
    exact huncertain.bind fun _ _ => reported_ok _
  · refine (d.reported_scaledEndpoint t true).bind fun _ _ => ?_
    dsimp only
    split
    · exact (d.reported_scaledEndpoint _ false).bind fun _ _ => reported_ok _
    · exact .ite (fun _ => reported_ok _) fun _ => .ite (fun _ => reported_ok _) fun _ =>
        reported_ok _

end Dialect

end RatCalc

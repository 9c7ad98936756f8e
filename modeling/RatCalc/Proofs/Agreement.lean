import RatCalc.Proofs.Blanks
import RatCalc.Proofs.FractionText
import RatCalc.Proofs.NumberForms
import RatCalc.Proofs.PlainDecimal
import RatCalc.Proofs.Promotion

/-!
# Literals and expressions agree

A text may be read as a literal, with its groups written out, or as an expression, which knows
groups in decimals with a period only.

* `Literal.Unsigned.digit_of_slash`: in the text of a number only an integer stands before a slash.
* `exists_prepare`: without blanks the text of a literal is what the literal says, or some of it
  before a brace.
* `Cut`: characters of a number, then nothing or a brace; `exists_cut`: so the text of a literal is
  read in an expression; `exists_number_of_valueOf`: such a text with a value has a number in front.
* **`value_agrees`**: a text that is both is worth the same both ways, unless a period in a group
  has blanks.
* **`fraction_texts`**: the texts of numbers and intervals read back, and the readers agree.
-/

namespace RatCalc

open Text

/-! ## Texts of numbers -/

namespace Literal

open Numeral

variable {t s u w : Text} {b c : Rat}

theorem Unsigned.start (h : Unsigned u b) :
    ∃ c v, u = c :: v ∧ (isDecimal c = true ∨ c = '.') := by
  have hrow : ∀ {w : Text}, isNumeral w = true → ∀ v, ∃ c x, w ++ v = c :: x ∧
      (isDecimal c = true ∨ c = '.') := fun {w} hw v => by
    obtain ⟨hne, hd⟩ := isNumeral_iff.1 hw
    cases w with
    | nil => exact absurd rfl hne
    | cons c w => exact ⟨c, w ++ v, rfl, .inl (hd c List.mem_cons_self)⟩
  cases h with
  | whole hw => simpa using hrow hw []
  | quotient hw => exact hrow hw _
  | mixed hw => exact hrow hw _
  | @decimal w f hw =>
    cases w with
    | nil => exact ⟨'.', f, rfl, .inr rfl⟩
    | cons c w => exact ⟨c, w ++ '.' :: f, rfl, .inl (hw c List.mem_cons_self)⟩

/-- A text says one number at most. -/
theorem Unsigned.unique (h : Unsigned u b) (h' : Unsigned u c) : b = c :=
  Except.ok.inj ((rational_of_unsigned h false).symm.trans (rational_of_unsigned h' false))

/-- A row of digits does not end in a slash. -/
theorem not_slash_of_numeral (hw : isNumeral w = true) (x v : Text) : x ++ w ≠ v ++ ['/'] := by
  intro h
  obtain ⟨hne, hd⟩ := isNumeral_iff.1 hw
  obtain ⟨y, a, rfl⟩ := (List.eq_nil_or_concat w).resolve_left hne
  rw [List.concat_eq_append, ← List.append_assoc] at h
  have hslash : a = '/' := List.singleton_inj.1 (List.append_inj' h rfl).2
  exact ne_of_isDecimal (hd a (by simp)) (by decide) hslash

theorem Unsigned.not_slash (h : Unsigned u b) (v : Text) : u ≠ v ++ ['/'] := by
  cases h with
  | whole hw => exact not_slash_of_numeral hw [] v
  | @quotient w d _ hd => simpa using not_slash_of_numeral hd (w ++ ['/']) v
  | @mixed w n d _ _ hd => simpa using not_slash_of_numeral hd (w ++ '.' :: '.' :: (n ++ ['/'])) v
  | decimal hw hf => exact fun h => slash_not_mem hw hf (by rw [h]; simp)

/-- Two points do not stand in the text of a number that has no slash. -/
theorem Unsigned.not_dots (h : Unsigned u b) (hslash : '/' ∉ u) (x y : Text) :
    u ≠ x ++ '.' :: '.' :: y := by
  intro hu
  have hpoint : isDecimal '.' = false := by decide
  cases h with
  | whole hw => exact not_mem_of_isDecimal (isNumeral_iff.1 hw).2 hpoint (by rw [hu]; simp)
  | quotient | mixed => exact hslash (by simp)
  | decimal hw hf =>
    obtain ⟨-, -, rfl⟩ := (List.append_cons_inj_of_notMem (not_mem_of_isDecimal hw hpoint)
      (not_mem_of_isDecimal hf hpoint)).1 hu
    exact not_mem_of_isDecimal hf hpoint List.mem_cons_self

/-- In the text of a number only an integer stands before a slash, and a digit behind it. -/
theorem Unsigned.digit_of_slash (h : Unsigned (s ++ '/' :: w) b) (hs : Unsigned s c) :
    isNumeral s = true ∧ isNumeral w = true := by
  have hno : ∀ {x : Text}, isNumeral x = true → '/' ∉ x := fun hx =>
    not_mem_of_isDecimal (isNumeral_iff.1 hx).2 (by decide)
  generalize hu : s ++ '/' :: w = u at h
  cases h with
  | whole hw => exact absurd (hu ▸ by simp) (hno hw)
  | quotient hw hd =>
    obtain ⟨rfl, -, rfl⟩ := (List.append_cons_inj_of_notMem (hno hw) (hno hd)).1 hu.symm
    exact ⟨hw, hd⟩
  | @mixed w₀ n d hw hn hd =>
    have hfront : '/' ∉ w₀ ++ '.' :: '.' :: n := by
      simp only [List.mem_append, List.mem_cons, not_or]
      exact ⟨hno hw, by decide, by decide, hno hn⟩
    have hu' : (w₀ ++ '.' :: '.' :: n) ++ '/' :: d = s ++ '/' :: w := by simp [hu]
    obtain ⟨rfl, -, rfl⟩ := (List.append_cons_inj_of_notMem hfront (hno hd)).1 hu'
    exact absurd rfl (hs.not_dots hfront _ _)
  | decimal hw hf => exact absurd (by rw [← hu]; simp) (slash_not_mem hw hf)

/-! ## Literals -/

variable {q : Text}

theorem sign_cases (t : Text) :
    (∃ u, t = '-' :: u ∧ sign t = (true, u)) ∨ (∃ u, t = '+' :: u ∧ sign t = (false, u)) ∨
      (∀ u, t ≠ '-' :: u) ∧ (∀ u, t ≠ '+' :: u) ∧ sign t = (false, t) := by
  by_cases hm : ∃ u, t = '-' :: u
  · obtain ⟨u, rfl⟩ := hm
    exact .inl ⟨u, rfl, rfl⟩
  · by_cases hp : ∃ u, t = '+' :: u
    · obtain ⟨u, rfl⟩ := hp
      exact .inr (.inl ⟨u, rfl, rfl⟩)
    · rw [not_exists] at hm hp
      exact .inr (.inr ⟨hm, hp, sign_of_ne hm hp⟩)

/-- The characters of a literal that is left when groups are written out. -/
theorem mem_of_unsigned (h : Unsigned (sign t).2 b) :
    ∀ c ∈ t, isDecimal c = true ∨ c ∈ ['-', '+', '.', '/'] := by
  intro c hc
  by_cases hm : c = '-'
  · exact .inr (by simp [hm])
  · by_cases hp : c = '+'
    · exact .inr (by simp [hp])
    · refine (h.mem c ((mem_sign_iff hm hp).1 hc)).imp_right fun h => ?_
      exact List.mem_cons_of_mem _ (List.mem_cons_of_mem _ h)

theorem not_slash_of_unsigned (h : Unsigned (sign t).2 b) (v : Text) : t ≠ v ++ ['/'] := by
  intro ht
  have hsign : ∀ (a : Char) (u : Text), a ≠ '/' → t = a :: u → ∃ v', u = v' ++ ['/'] := by
    intro a u ha hu
    rw [ht] at hu
    cases v with
    | nil => exact absurd (List.cons.inj hu).1.symm ha
    | cons c v => exact ⟨v, (List.cons.inj hu).2.symm⟩
  rcases sign_cases t with ⟨u, hu, hs⟩ | ⟨u, hu, hs⟩ | ⟨-, -, hs⟩
  all_goals rw [hs] at h
  · obtain ⟨v', hv'⟩ := hsign _ u (by decide) hu
    exact h.not_slash v' hv'
  · obtain ⟨v', hv'⟩ := hsign _ u (by decide) hu
    exact h.not_slash v' hv'
  · exact h.not_slash v ht

end Literal

/-! ## Margins -/

namespace Text

theorem exists_margins (t : Text) : ∃ l r, t = l ++ trim t ++ r ∧
    (∀ c ∈ l, isBlank c = true) ∧ ∀ c ∈ r, isBlank c = true := by
  have hstart := List.takeWhile_append_dropWhile (p := isBlank) (l := t)
  have hend := List.takeWhile_append_dropWhile (p := isBlank) (l := (t.dropWhile isBlank).reverse)
  refine ⟨t.takeWhile isBlank, ((t.dropWhile isBlank).reverse.takeWhile isBlank).reverse, ?_,
    List.all_eq_true.1 List.all_takeWhile, fun c hc => ?_⟩
  · rw [trim, trimStart, trimStart, List.append_assoc, ← List.reverse_append, hend,
      List.reverse_reverse, hstart]
  · exact List.all_eq_true.1 List.all_takeWhile c (List.mem_reverse.1 hc)

theorem isBlank_of_trim {t u : Text} {c : Char} (h : trim t = u ++ [c]) : isBlank c = false := by
  rw [trim, List.reverse_eq_iff, List.reverse_concat] at h
  exact head_of_dropWhile h

theorem body_trim (t : Text) : body (trim t) = trim t := by
  rw [body, if_neg]
  intro h
  obtain ⟨u, hu⟩ := List.getLast?_eq_some_iff.1 h
  exact absurd (isBlank_of_trim hu) (by decide)

/-- What begins a text still does without a final line break, unless the break ends it. -/
theorem prefix_body (p y : Text) : p <+: body (p ++ y) ∨ p = body (p ++ y) ++ ['\n'] := by
  rw [body]
  split_ifs with h
  · obtain ⟨u, hu⟩ := List.getLast?_eq_some_iff.1 h
    have hp : p <+: u ++ ['\n'] := hu ▸ List.prefix_append p y
    rw [hu, List.dropLast_concat]
    exact (List.prefix_concat_iff.1 hp).symm
  · exact .inl (List.prefix_append p y)

end Text

namespace Dialect

open Literal RunLength

variable {letters : LetterTable} {t p z u r : Text} {b : Rat}

/-! ## The text without blanks -/

/-- Nothing, or a text that begins with a brace. -/
def Opens (z : Text) : Prop := z = [] ∨ ∃ w, z = '\x7b' :: w

/-- No character of a literal is a blank or stands in the mark of an exponent. -/
theorem not_mem_marker_of_unsigned (d : Dialect) (h : Unsigned (sign t).2 b) :
    ∀ c ∈ t, isBlank c = false ∧ c ∉ d.marker := by
  intro c hc
  have hplain : isBlank c = false ∧ c ∉ ['E', '_', '^'] := by
    rcases mem_of_unsigned h c hc with hd | hm
    · refine ⟨isBlank_of_isDecimal hd, fun hm => ?_⟩
      exact ne_of_isDecimal hd (forall_of_all (P := (isDecimal · = false)) (by decide) c hm) rfl
    · exact forall_of_all (P := fun c => isBlank c = false ∧ c ∉ ['E', '_', '^']) (by decide) c hm
  simp only [List.mem_cons, List.not_mem_nil, or_false, not_or] at hplain
  exact ⟨hplain.1, d.not_mem_marker hplain.2.1 hplain.2.2.1 hplain.2.2.2⟩

/-- **Without blanks the text of a literal** is what the literal says, or some of it before a
brace. -/
theorem exists_prepare (d : Dialect) (h : Unsigned (sign (core t)).2 b) :
    ∃ p z, d.prepare t = p ++ z ∧ p <+: core t ∧ Opens z ∧ (z = [] → p = core t) := by
  have hchar := not_mem_marker_of_unsigned d h
  obtain ⟨l, r, ht, hl, hr⟩ := exists_margins t
  by_cases ho : '\x7b' ∈ trim t
  · obtain ⟨p, w, hp, hno⟩ := List.eq_append_cons_of_mem ho
    have hcore : core t = body (p ++ expand ('\x7b' :: w)) := by rw [core, hp, expand_append hno]
    have hopen : '\x7b' ∉ d.marker := d.not_mem_marker (by decide) (by decide) (by decide)
    have hrest : d.prepare t = d.prepare (l ++ p) ++ '\x7b' :: d.prepare (w ++ r) := by
      have ht' : t = l ++ p ++ '\x7b' :: (w ++ r) := by
        conv_lhs => rw [ht, hp]
        simp only [List.append_assoc, List.cons_append]
      rw [ht', d.prepare_append_cons (by decide) hopen, d.prepare_cons (by decide) (by decide)]
    have hz : Opens ('\x7b' :: d.prepare (w ++ r)) := .inr ⟨_, rfl⟩
    -- a line break before the brace is left out by both, if nothing comes of the groups
    rcases prefix_body p (expand ('\x7b' :: w)) with hb | hb
    all_goals rw [← hcore] at hb
    · refine ⟨p, _, ?_, hb, hz, fun h => absurd h (List.cons_ne_nil _ _)⟩
      have hm := d.prepare_margins hl (fun c hc => hchar c (hb.subset hc))
        (List.forall_mem_nil _) (.inl rfl)
      rw [List.append_nil] at hm
      rw [hrest, hm]
    · refine ⟨core t, _, ?_, List.prefix_refl _, hz, fun _ => rfl⟩
      rw [hrest, hb, ← List.append_assoc, d.prepare_margins hl hchar
        (List.forall_mem_singleton.2 (by decide)) (.inr (not_slash_of_unsigned h))]
  · have hcore : core t = trim t := by rw [core, expand_of_no_open ho, body_trim]
    refine ⟨core t, [], ?_, List.prefix_refl _, .inl rfl, fun _ => rfl⟩
    conv_lhs => rw [ht, ← hcore]
    rw [d.prepare_margins hl hchar hr (.inr (not_slash_of_unsigned h)), List.append_nil]

/-! ## Numbers before a brace -/

/-- Characters of a number, and perhaps a plus sign, before nothing or a brace. -/
structure Cut (p z : Text) : Prop where
  chars : ∀ c ∈ p, isDecimal c = true ∨ c ∈ ['+', '.', '/']
  opens : Opens z

namespace Cut

theorem mem_of_eq_cons (h : Cut p z) {c : Char} {v : Text} (heq : p ++ z = c :: v)
    (hc : c ≠ '\x7b') : ∃ p', p = c :: p' ∧ v = p' ++ z := by
  cases p with
  | nil =>
    rcases h.opens with rfl | ⟨w, rfl⟩
    · cases heq
    · exact absurd (List.cons.inj heq).1.symm hc
  | cons a p => exact ⟨p, by rw [(List.cons.inj heq).1], (List.cons.inj heq).2.symm⟩

/-- Other characters do not begin it. -/
theorem ne_cons (h : Cut p z) {c : Char} (hd : isDecimal c = false)
    (hc : c ∉ ['+', '.', '/', '\x7b']) (v : Text) : p ++ z ≠ c :: v := by
  intro heq
  obtain ⟨p', rfl, -⟩ := h.mem_of_eq_cons heq fun hb => hc (by rw [hb]; decide)
  rcases h.chars c List.mem_cons_self with hm | hm
  · rw [hd] at hm
    cases hm
  · exact hc (List.mem_append_left ['\x7b'] hm)

theorem suffix (h : Cut p z) {p' : Text} (hs : p' <:+ p) : Cut p' z :=
  ⟨fun c hc => h.chars c (hs.subset hc), h.opens⟩

theorem dropWhile (h : Cut p z) : (p ++ z).dropWhile isDecimal = p.dropWhile isDecimal ++ z := by
  rcases h.opens with rfl | ⟨w, rfl⟩
  · rw [List.append_nil, List.append_nil]
  · exact dropWhile_append_cons (by decide) p w

theorem bare (h : Cut p z) : Bare (p ++ z) where
  noMinus := h.ne_cons (by decide) (by decide)
  noBracket := by
    have hd := h.suffix (List.dropWhile_suffix isDecimal)
    rw [Reading.bracketBase, h.dropWhile]
    split
    · rename_i u hu
      obtain ⟨p', hp, rfl⟩ := hd.mem_of_eq_cons hu (by decide)
      have hp' : Cut p' z := hd.suffix (hp ▸ List.suffix_cons '.' p')
      refine bracketContents?_of_ne ?_
      simp only [hp'.dropWhile]
      exact (hp'.suffix (List.dropWhile_suffix _)).ne_cons (by decide) (by decide)
    · exact bracketContents?_of_ne (hd.ne_cons (by decide) (by decide))
  noFraction v hv := by
    have hd := h.suffix (List.dropWhile_suffix isDecimal)
    rw [h.dropWhile] at hv
    obtain ⟨p', hp, hv'⟩ := hd.mem_of_eq_cons hv (by decide)
    exact (hd.suffix (hp ▸ List.suffix_cons '.' p')).ne_cons (by decide) (by decide) v hv'.symm

theorem lettered?_eq_none (h : Cut p z) : (exactly letters).lettered? (p ++ z) = none := by
  rw [lettered?.eq_def]
  split
  · rename_i c u _ heq
    obtain ⟨p', rfl, hu⟩ := h.mem_of_eq_cons heq (by decide)
    have hp' := h.suffix (List.suffix_cons '0' p')
    split_ifs with hl
    · have hc : c ∉ ['+', '.', '/', '\x7b'] := fun hm => by
        rw [forall_of_all (P := (LetterTable.isLetter · = false)) (by decide) c hm] at hl
        cases hl
      exact absurd hu.symm (hp'.ne_cons (isDecimal_of_letter hl) hc u)
    · rfl
  · rfl

/-- What has no brace and begins it is a part of the characters before the brace. -/
theorem exists_of_append (h : Cut p z) {s r : Text} (heq : p ++ z = s ++ r) (hs : '\x7b' ∉ s) :
    ∃ r', p = s ++ r' ∧ r = r' ++ z := by
  rcases List.append_eq_append_iff.1 heq with ⟨v, rfl, hz⟩ | hr
  · cases v with
    | nil => exact ⟨[], by simp, hz.symm⟩
    | cons c v =>
      rcases h.opens with rfl | ⟨w, rfl⟩
      · cases hz
      · exact absurd ((List.cons.inj hz).1 ▸ by simp) hs
  · exact hr

end Cut

/-! ## Values of such texts -/

variable {v : Value} {x : Endpoint} {y s : Text} {c : Rat}

/-- A text of that kind with a value has a number in front. -/
theorem exists_number_of_valueOf (h : Cut p z) (hr : repeating? (p ++ z) = none) {negative : Bool}
    (ht : (exactly letters).prepare t = Expansion.sign negative ++ (p ++ z))
    (hv : Expr.valueOf (exactly letters) t = .ok v) :
    ∃ x s r, (exactly letters).unsigned (p ++ z) = .ok (x, r ++ z) ∧ p = s ++ r ∧
      Unsigned s x.value ∧ (Numeral.isNumeral s = true → slash? (r ++ z) = none) := by
  obtain ⟨e, he, -⟩ := Expr.valueOf_eq_ok_iff.1 hv
  rw [ht] at he
  cases hu : (exactly letters).unsigned (p ++ z) with
  | error f =>
    obtain ⟨hterm, -⟩ := he
    cases hterm with
    | term hfactor =>
      have hopen := h.ne_cons (c := '(') (by decide) (by decide)
      exact absurd hfactor (h.bare.not_reads_factor hopen hu negative _ _)
  | ok y =>
    obtain ⟨x, r⟩ := y
    obtain ⟨s, heq, hs, hslash⟩ := exists_of_unsigned h.lettered?_eq_none hr hu
    obtain ⟨r', hp, rfl⟩ := h.exists_of_append heq (hs.not_mem (by decide) (by decide))
    exact ⟨x, s, r', rfl, hp, hs, hslash⟩

/-- Nothing is done to a number that goes on in the text of a literal. -/
theorem endsNumber_of_unsigned (hu : Unsigned (s ++ (r ++ y)) b) (hs : Unsigned s c)
    (hslash : Numeral.isNumeral s = true → slash? (r ++ z) = none) (hz : Opens z) :
    EndsNumber (r ++ z) := by
  cases r with
  | nil =>
    rcases hz with rfl | ⟨w, rfl⟩
    · exact endsNumber_nil
    · exact endsNumber_cons (by decide) w
  | cons a r =>
    refine endsNumber_cons ?_ _
    by_cases ha : a = '/'
    · subst ha
      -- a digit, nothing or a brace comes after the slash, so a denominator would be read
      obtain ⟨hn, hw⟩ := hu.digit_of_slash hs
      have hnone := hslash hn
      cases r with
      | nil => rcases hz with rfl | ⟨w, rfl⟩ <;> cases hnone
      | cons d r =>
        have hd := (isNumeral_iff.1 hw).2 d List.mem_cons_self
        rw [List.cons_append, List.cons_append, slash?,
          if_neg (ne_of_isDecimal hd (by decide))] at hnone
        · cases hnone
        · exact ne_of_isDecimal hd (by decide)
    · rcases hu.mem a (by simp) with hd | hm
      · exact fun hm => ne_of_isDecimal hd
          (forall_of_all (P := (isDecimal · = false)) (by decide) a hm) rfl
      · have hp : a = '.' := by simpa [ha] using hm
        rw [hp]
        decide

theorem toRat?_shown (x : Endpoint) : x.shown.number.toRat? = some x.value := by
  rw [Endpoint.shown]
  split_ifs with h
  · rw [Bool.and_eq_true, decide_eq_true_eq] at h
    exact congrArg some (Rat.coe_int_num_of_den_eq_one h.1)
  · rfl

/-! ## Agreement -/

/-- What begins a literal is its sign and something of its number, unless it is short or begins
with a plus sign. -/
theorem exists_sign_append (p y : Text) : ∃ negative p', p = Expansion.sign negative ++ p' ∧
    (sign (p ++ y) = (negative, p' ++ y) ∨ p' = [] ∨
      ∃ v, p' = '+' :: v ∧ (sign (p ++ y)).2 = v ++ y) := by
  cases p with
  | nil => exact ⟨false, [], rfl, .inr (.inl rfl)⟩
  | cons a p =>
    by_cases hm : a = '-'
    · exact ⟨true, p, by rw [hm]; rfl, .inl (by rw [hm]; rfl)⟩
    · refine ⟨false, a :: p, rfl, ?_⟩
      by_cases hp : a = '+'
      · exact .inr (.inr ⟨p, by rw [hp], by rw [hp]; rfl⟩)
      · exact .inl (sign_of_ne (fun u hu => hm (List.cons.inj hu).1)
          fun u hu => hp (List.cons.inj hu).1)

/-- Without blanks the text of a literal has a sign and something of the number that the literal
says, before nothing or a brace. -/
theorem exists_cut (d : Dialect) (h : Unsigned (sign (core t)).2 b) :
    ∃ negative p z y, d.prepare t = Expansion.sign negative ++ (p ++ z) ∧ Cut p z ∧
      (z = [] → y = []) ∧
      (sign (core t) = (negative, p ++ y) ∨ p = [] ∨ ∃ v, p = '+' :: v) := by
  obtain ⟨p, z, hprep, ⟨y, hy⟩, hz, hall⟩ := exists_prepare d h
  obtain ⟨negative, p, rfl, hsign⟩ := exists_sign_append p y
  have hrest : z = [] → y = [] := fun h => by simpa [← hy] using hall h
  rw [List.append_assoc] at hprep
  rw [hy] at hsign
  have hnumber : ∀ {u : Text}, (sign (core t)).2 = u ++ y → ∀ c ∈ u,
      isDecimal c = true ∨ c ∈ ['+', '.', '/'] := fun hu c hc => by
    rw [hu] at h
    exact (h.mem c (List.mem_append_left y hc)).imp_right (List.mem_cons_of_mem _)
  rcases hsign with hs | rfl | ⟨v, rfl, hs⟩
  · exact ⟨negative, p, z, y, hprep, ⟨hnumber (congrArg Prod.snd hs), hz⟩, hrest, .inl hs⟩
  · exact ⟨negative, [], z, y, hprep, ⟨List.forall_mem_nil _, hz⟩, hrest, .inr (.inl rfl)⟩
  · refine ⟨negative, _, z, y, hprep, ⟨?_, hz⟩, hrest, .inr (.inr ⟨v, rfl⟩)⟩
    exact List.forall_mem_cons.2 ⟨.inr List.mem_cons_self, hnumber hs⟩

/-- A literal has no period where it is read as an expression, unless a period in a group has
blanks. -/
theorem repeating?_eq_none (h : Unsigned (sign (core t)).2 b) {negative : Bool}
    (hu : (exactly letters).prepare t = Expansion.sign negative ++ u)
    (hperiod : '#' ∉ t ∨ ∀ c ∈ t, isBlank c = false) : repeating? u = none := by
  by_contra hr
  have hm := period_of_repeating? (Option.isSome_iff_ne_none.2 hr)
  rcases hperiod with hno | hblank
  · have hmem : '#' ∈ (exactly letters).prepare t := by
      rw [hu]
      exact List.mem_append_right _ (expand_subset u hm)
    exact hno ((exactly letters).mem_of_mem_prepare hmem (by decide) (by decide))
  · have hcore : '#' ∈ core t := by
      rw [prepare_of_no_blank _ hblank] at hu
      rw [core, ← mem_body (by decide), trim_of_no_blank hblank, hu, expand_append]
      · exact List.mem_append_right _ hm
      · cases negative <;> decide
    exact absurd (mem_of_unsigned h _ hcore) (by decide)

/-- **A text that is a literal and an expression is worth the same both ways**, unless a period in a
group has blanks. -/
theorem value_agrees {a : Rat} (ha : rational t = .ok a)
    (hv : Expr.valueOf (exactly letters) t = .ok v)
    (hperiod : '#' ∉ t ∨ ∀ c ∈ t, isBlank c = false) : v.number.toRat? = some a := by
  obtain ⟨b, hb, rfl⟩ := rational_eq_ok_iff.1 ha
  obtain ⟨negative, p, z, y, hprep, hcut, hrest, hsign⟩ := exists_cut (exactly letters) hb
  obtain ⟨x, s, r, hu, rfl, hs, hslash⟩ :=
    exists_number_of_valueOf hcut (repeating?_eq_none hb hprep hperiod) hprep hv
  obtain ⟨c, s, rfl, hstart⟩ := hs.start
  have hcore : sign (core t) = (negative, c :: s ++ (r ++ y)) := by
    rcases hsign with hsign | hnil | ⟨v, hv⟩
    · rwa [List.append_assoc] at hsign
    · cases hnil
    · rw [(List.cons.inj hv).1] at hstart
      exact absurd hstart (by decide)
  rw [hcore] at hb ⊢
  have hnumber : SaysNumber letters (c :: s ++ r ++ z) x (r ++ z) :=
    ⟨⟨⟨c, _, rfl, hstart⟩, hcut.bare.noBracket, hcut.bare.noFraction⟩, hu⟩
  obtain ⟨e, he, hev⟩ := hnumber.reads_sum (endsNumber_of_unsigned hb hs hslash hcut.opens) negative
  rw [← hprep] at he
  cases hleft : r ++ z with
  | cons a w =>
    rw [hleft] at he
    cases (Expr.valueOf_of_reads_rest he hev).symm.trans hv
  | nil =>
    -- all is read, so the number is the whole literal
    obtain ⟨rfl, hz⟩ := List.append_eq_nil_iff.1 hleft
    rw [hleft] at he
    rw [hrest hz, List.append_nil, List.append_nil] at hb
    cases (Expr.valueOf_eq_ok_iff.2 ⟨e, he, hev⟩).symm.trans hv
    rw [toRat?_shown, Endpoint.signed, hb.unique hs]

/-- **The texts of numbers and intervals read back**, as literals and as expressions, and a text
that is a literal and an expression is worth the same both ways, unless it has a period and
blanks. -/
theorem fraction_texts (letters : LetterTable) :
    (∀ (a : Rat) (t : Text), t = Ratio.text a ∨ t = Ratio.mixedText a →
      Literal.rational t = .ok a ∧
        Expr.valueOf (exactly letters) t = .ok (.plain (Number.rational a).simplest)) ∧
    (∀ (exact : Bool) (i : Interval) (t : Text), t = i.text ∨ t = i.mixedText →
      Literal.interval t = .ok i ∧
        Expr.valueOf ⟨exact, none, letters⟩ t = .ok (.kept (.interval i))) ∧
    ∀ (t : Text) (a : Rat) (v : Value), Literal.rational t = .ok a →
      Expr.valueOf (exactly letters) t = .ok v → '#' ∉ t ∨ (∀ c ∈ t, isBlank c = false) →
        v.number.toRat? = some a := by
  refine ⟨?_, ?_, ?_⟩
  · intro a t ht
    exact Ratio.reads_back letters a ht
  · intro exact i t ht
    exact i.reads_back letters exact ht
  · intro t a v ha hv hperiod
    exact value_agrees ha hv hperiod

/-- With blanks and a period in a group the readers go apart: the literal has a group that is
written out no times, the expression a row of digits and a group of them. -/
theorem period_in_group :
    Literal.rational (Ratio.mixedText (mkRat (-7) 3)) = .ok (mkRat (-7) 3) ∧
      Literal.interval (Interval.point (mkRat 1 2)).text = .ok (.point (mkRat 1 2)) ∧
      (∃ v, Expr.valueOf (exactly .initial) " 1..2/4 ".toList = .ok v ∧
        v.number.toRat? = some (mkRat 3 2)) ∧
      Literal.rational "1.\x7b3~2 \x7d#4\x7b5~0\x7d".toList = .ok 1 ∧
      Expr.valueOf (exactly .initial) "1.\x7b3~2 \x7d#4\x7b5~0\x7d".toList =
        .ok (.plain (.rational (mkRat 1201 900))) := by
  obtain ⟨hback, hinterval, hagree⟩ := fraction_texts .initial
  have hv : Expr.valueOf (exactly .initial) " 1..2/4 ".toList =
      .ok (.plain (.rational (mkRat 3 2))) := by decide
  refine ⟨(hback _ _ (.inr rfl)).1, (hinterval true _ _ (.inl rfl)).1, ⟨_, hv, ?_⟩,
    by with_unfolding_all decide, by with_unfolding_all decide⟩
  exact hagree _ _ _ (by with_unfolding_all decide) hv (.inl (by decide))

end Dialect

end RatCalc

import RatCalc.Proofs.Blanks
import RatCalc.Proofs.TwoModes

/-!
# Two numbers with a colon between them

* `IsEndpoint`: the text of a single number, with its sign and its exponent.
* `endpoint_begins`, `bracket?_colon`: it begins neither a parenthesis nor a bracket literal.
* `scaledEndpoint_colon`: before a colon it is the same number.
* `unread?`: what stands before the colon and is not read where every number is an interval.
* `OwnsSign`: a minus sign belongs to the first number, not to the whole interval.
* `exists_reads_pair`, `exists_reads_cut`: the two ways in which the text is read.
* **`valueOf_pair`**: with exact values and with intervals the text has the same value, or something
  is left unread.
-/

namespace RatCalc

open Text Reading

namespace Dialect

variable {d : Dialect} {t r : Text} {x : Endpoint}

/-- A text without blanks that is a single number in one of its forms, an integer, a fraction, a
mixed number, a decimal with or without a period, or a continued fraction, with its sign and its
exponent. -/
structure IsEndpoint (d : Dialect) (t : Text) (x : Endpoint) : Prop where
  read : d.scaledEndpoint false t = .ok (x, [])
  noBlank : ∀ c ∈ t, isBlank c = false

example : ∀ t ∈ ["12", "-3/4", "1..2/3", "-2.5", "0.1#6", "-1.~2~3", "-1.5E2", "3E-1"],
    ((Dialect.mk true none .initial).scaledEndpoint false t.toList).map (·.2) = .ok [] := by
  with_unfolding_all decide

/-! ## Where a number begins -/

/-- A text that begins with a digit or a point. -/
def Begins (d : Dialect) (t : Text) : Prop :=
  ∃ c u, t = c :: u ∧ (isDecimal c = true ∨ d.isDigit c = true ∨ c = '.')

theorem Begins.ne_cons (h : d.Begins t) {c : Char} (hc : c ∈ ['(', '-']) (u : Text) :
    t ≠ c :: u := by
  obtain ⟨a, v, rfl, ha⟩ := h
  intro heq
  rw [(List.cons.inj heq).1] at ha
  rcases ha with ha | ha | ha
  · rw [forall_of_all (P := fun c => isDecimal c = false) (by decide) c hc] at ha
    cases ha
  · rw [d.isDigit_of_reserved
      (forall_of_all (P := (· ∈ NumeralSystem.reservedChars)) (by decide) c hc)] at ha
    cases ha
  · exact forall_of_all (P := (· ≠ '.')) (by decide) c hc ha

/-- A row of characters of one kind, or a point behind it, begins with one of them. -/
theorem exists_start {p : Char → Bool}
    (h : t.takeWhile p ≠ [] ∨ ∃ u, t.dropWhile p = '.' :: u) :
    ∃ c u, t = c :: u ∧ (p c = true ∨ c = '.') := by
  cases t with
  | nil =>
    rcases h with h | ⟨u, h⟩
    · exact absurd rfl h
    · cases h
  | cons c u =>
    by_cases hc : p c = true
    · exact ⟨c, u, rfl, .inl hc⟩
    · rw [List.takeWhile_cons_of_neg hc, List.dropWhile_cons_of_neg hc] at h
      rcases h with h | ⟨v, h⟩
      · exact absurd rfl h
      · exact ⟨c, u, rfl, .inr (List.cons.inj h).1⟩

theorem begins_of_isDecimal
    (h : t.takeWhile isDecimal ≠ [] ∨ ∃ u, t.dropWhile isDecimal = '.' :: u) : d.Begins t := by
  obtain ⟨c, u, ht, hc⟩ := exists_start h
  exact ⟨c, u, ht, hc.imp_right .inr⟩

theorem begins_of_isDigit
    (h : t.takeWhile d.isDigit ≠ [] ∨ ∃ u, t.dropWhile d.isDigit = '.' :: u) : d.Begins t := by
  obtain ⟨c, u, ht, hc⟩ := exists_start h
  exact ⟨c, u, ht, .inr hc⟩

theorem fraction_begins (h : d.fraction t = .ok (x, r)) : d.Begins t := by
  rw [fraction_eq] at h
  obtain ⟨⟨ds, u⟩, hd, h⟩ := bind_eq_ok.1 h
  cases d.digits_eq t hd
  simp only at h
  split_ifs at h with hne
  exact begins_of_isDigit (.inl fun h0 => hne (List.isEmpty_iff.2 h0))

theorem pointedIn_begins {s : NumeralSystem} {y : Rat × Text}
    (h : d.pointedIn s t = .ok (some y)) : d.Begins t := by
  rw [pointedIn] at h
  obtain ⟨⟨ds, u⟩, hd, h⟩ := bind_eq_ok.1 h
  obtain ⟨-, hu⟩ := Prod.mk.inj (d.digits_eq t hd)
  simp only at h
  split at h
  · cases h
  · cases h
  · exact begins_of_isDigit (.inr ⟨_, hu.symm⟩)
  · cases h

theorem unsigned_begins (h : d.unsigned t = .ok (x, r)) : d.Begins t := by
  rw [unsigned] at h
  split_ifs at h
  split at h
  · obtain ⟨y, hy, h⟩ := bind_eq_ok.1 h
    cases y with
    | none => exact fraction_begins h
    | some y => exact pointedIn_begins hy
  · split at h
    · rename_i hl
      rw [lettered?.eq_def] at hl
      split at hl
      · exact ⟨'0', _, rfl, .inl (by decide)⟩
      · cases hl
    · rename_i hr
      rw [repeating?] at hr
      split at hr
      · rename_i hf
        rcases fixedPart?_cases hf with ⟨u, hu, -⟩ | ⟨hne, -⟩
        · exact begins_of_isDecimal (.inr ⟨u, hu⟩)
        · exact begins_of_isDecimal (.inl hne)
      · cases hr
    · rename_i hp
      rw [pointed?] at hp
      split at hp
      · exact begins_of_isDecimal (.inr ⟨_, by assumption⟩)
      · cases hp
    · exact fraction_begins h

/-- Behind its sign a number begins with a digit or a point. -/
theorem endpoint_begins (h : d.endpoint t = .ok (x, r)) : d.Begins (minus t).2 := by
  rw [endpoint_eq] at h
  split at h
  · rename_i hf
    rw [continuedFraction?_eq] at hf
    split at hf
    · exact begins_of_isDecimal (.inr ⟨_, by assumption⟩)
    · cases hf
  · rw [signed_eq] at h
    obtain ⟨y, hy, -⟩ := Number.exists_of_map_eq_ok h
    exact unsigned_begins hy

theorem bracket?_colon (h : '[' ∉ t) (u : Text) : Literal.bracket? (t ++ ':' :: u) = none := by
  rw [bracket?_eq, minus_append_cons (by decide)]
  simp only [bracketBase_close colon_mem_closers]
  rw [bracketContents?_of_ne, Option.map_none]
  refine append_ne_cons (by decide) (fun v hv => h ?_) u
  obtain ⟨w, -, ht⟩ := (takes_minus t).trans (takes_bracketBase _)
  rw [ht, hv]
  exact List.mem_append_right w List.mem_cons_self

/-! ## Numbers before a colon -/

theorem endpoint_of_scaledEndpoint {beforeColon : Bool}
    (h : d.scaledEndpoint beforeColon t = .ok (x, r)) : ∃ y u, d.endpoint t = .ok (y, u) := by
  rcases scaledEndpoint_cases h with he | ⟨y, u, -, he, -⟩
  · exact ⟨x, r, he⟩
  · exact ⟨y, u, he⟩

theorem ne_minus_of_scaledEndpoint {beforeColon : Bool}
    (h : d.scaledEndpoint beforeColon ('-' :: t) = .ok (x, r)) (u : Text) : t ≠ '-' :: u := by
  obtain ⟨y, v, he⟩ := endpoint_of_scaledEndpoint h
  exact (endpoint_begins he).ne_cons (by decide) u

/-- Before a colon a number with its exponent is the same one. -/
theorem scaledEndpoint_colon (h : d.scaledEndpoint false t = .ok (x, [])) (u : Text) :
    d.scaledEndpoint true (t ++ ':' :: u) = .ok (x, ':' :: u) := by
  have hcolon : d.exponentFollows (':' :: u) = false :=
    (d.exponentFollows_close colon_mem_closers [] u).trans d.exponentFollows_nil
  rcases scaledEndpoint_cases h with he | ⟨e, v, k, he, hf, hk, -, rfl⟩
  · exact d.scaledEndpoint_of_not_follows ((d.progressive_endpoint colon_mem_closers he).2 u)
      hcolon true
  · rw [scaledEndpoint, bind_of_ok ((d.progressive_endpoint colon_mem_closers he).2 u)]
    simp only
    rw [d.exponentFollows_close colon_mem_closers, if_pos hf]
    obtain ⟨v, rfl⟩ := d.exists_of_exponentFollows hf
    rw [List.drop_left] at hk
    rw [List.append_assoc, List.drop_left,
      bind_of_ok ((d.local_exponent colon_mem_closers hk).2 u)]
    rfl

theorem continuedFraction?_minus (h : ∀ u, t ≠ '-' :: u) :
    continuedFraction? ('-' :: t) = (continuedFraction? t).map fun x => ('-' :: x.1, x.2) := by
  have hm : minus ('-' :: t) = (true, t) := rfl
  rw [continuedFraction?_eq, continuedFraction?_eq, hm, minus_of_ne h]
  simp only
  split
  · split_ifs <;> rfl
  · rfl

theorem not_signsFraction_iff :
    ¬ SignsFraction d t ↔ (d.system = none → continuedFraction? ('-' :: t) = none) := by
  rw [SignsFraction, Bool.and_eq_true, Option.isNone_iff_eq_none, not_and, Bool.not_eq_true,
    Option.isSome_eq_false_iff, Option.isNone_iff_eq_none]

/-- A number that a minus sign negates is a number without it. -/
theorem endpoint_of_minus (h : d.endpoint ('-' :: t) = .ok (x, r)) (hf : ¬ SignsFraction d t) :
    ∃ y, d.endpoint t = .ok (y, r) := by
  have hm : minus ('-' :: t) = (true, t) := rfl
  have hb : ∀ u, t ≠ '-' :: u := fun u => (endpoint_begins h).ne_cons (by decide) u
  have hf := not_signsFraction_iff.1 hf
  have hnone : d.system = none → continuedFraction? t = none := fun hs => by
    have := hf hs
    rwa [continuedFraction?_minus hb, Option.map_eq_none_iff] at this
  rw [endpoint_of_no_fraction d hf, signed_eq, hm] at h
  obtain ⟨y, hy, hyr⟩ := Number.exists_of_map_eq_ok h
  cases hyr
  refine ⟨y.1.signed false, ?_⟩
  rw [endpoint_of_no_fraction d hnone, signed_eq, minus_of_ne hb]
  simp only
  rw [hy]
  rfl

theorem scaledEndpoint_of_minus (h : d.scaledEndpoint false ('-' :: t) = .ok (x, r))
    (hf : ¬ SignsFraction d t) : ∃ y, d.scaledEndpoint false t = .ok (y, r) := by
  rw [scaledEndpoint] at h
  obtain ⟨⟨e, u⟩, he, h⟩ := bind_eq_ok.1 h
  obtain ⟨y, hy⟩ := endpoint_of_minus he hf
  rw [scaledEndpoint, bind_of_ok hy]
  simp only [Bool.false_and, Bool.false_eq_true, if_false] at h ⊢
  split_ifs at h ⊢
  · obtain ⟨⟨k, v⟩, hk, h⟩ := bind_eq_ok.1 h
    cases h
    rw [bind_of_ok hk]
    exact ⟨_, rfl⟩
  · cases h
    exact ⟨y, rfl⟩

/-! ## Plain decimals before a colon -/

/-- What stands before a colon and is not read where every number is an interval: what follows a
plain decimal at the start of the text, unless it is an exponent. -/
def unread? (d : Dialect) (t : Text) : Option Text :=
  match d.plain? t with
  | some (_, _, _, c :: rest) => some (if d.exponentFollows (c :: rest) then [] else c :: rest)
  | _ => none

theorem plain?_colon (t u : Text) : d.plain? (t ++ ':' :: u) =
    (d.plain? t).bind fun x =>
      if x.2.2.2.isEmpty then none else some (x.1, x.2.1, x.2.2.1, x.2.2.2 ++ ':' :: u) := by
  have hc := d.isDigit_close colon_mem_closers
  rw [plain?_eq, plain?_eq, minus_append_cons (by decide)]
  simp only [dropWhile_append_cons hc, takeWhile_append_cons hc]
  rcases (minus t).2.dropWhile d.isDigit with _ | ⟨c, v⟩
  · rfl
  · by_cases h : c = '.'
    · subst h
      simp only [List.cons_append, takeWhile_append_cons hc, dropWhile_append_cons hc]
      generalize (v.takeWhile d.isDigit).isEmpty = empty
      cases v.dropWhile d.isDigit with
      | nil => cases empty <;> rfl
      | cons a w =>
        have hhead : ((a :: w) ++ ':' :: u).head? = (a :: w).head? := rfl
        rw [hhead]
        generalize (a :: w).head?.any _ = ends
        cases empty <;> cases ends <;> rfl
    · simp [h]

theorem plain?_colon_of_none (h : d.unread? t = none) (u : Text) :
    d.plain? (t ++ ':' :: u) = none := by
  rw [plain?_colon]
  rw [unread?] at h
  split at h
  · cases h
  · rename_i hno
    rcases hp : d.plain? t with _ | ⟨negative, literal, places, _ | ⟨c, rest⟩⟩
    · rfl
    · rfl
    · exact absurd hp (hno _ _ _ _ _)

theorem exists_plain_of_unread {p : Text} (h : d.unread? t = some p) :
    ∃ negative literal places c rest, d.plain? t = some (negative, literal, places, c :: rest) ∧
      p = if d.exponentFollows (c :: rest) then [] else c :: rest := by
  rw [unread?] at h
  split at h
  · exact ⟨_, _, _, _, _, by assumption, (Option.some.inj h).symm⟩
  · cases h

theorem unread?_minus (h : ∀ u, t ≠ '-' :: u) : d.unread? ('-' :: t) = d.unread? t := by
  rw [unread?, unread?, plain?_minus d h]
  rcases d.plain? t with _ | ⟨negative, literal, places, _ | ⟨c, rest⟩⟩ <;> rfl

section

variable {negative : Bool} {literal rest : Text} {places : Nat}

/-- A plain decimal is no continued fraction. -/
theorem continuedFraction?_of_plain (h : d.plain? t = some (negative, literal, places, rest))
    (hs : d.system = none) : continuedFraction? t = none := by
  obtain ⟨w, f, hp, -, -⟩ := exists_plainDecimal h
  obtain ⟨hw, hf⟩ := hp.isPlainDigit hs
  rw [continuedFraction?_eq, hp.sign]
  simp only
  rw [(span_point (by decide) (fun c hc => isDecimal_of_plain (hw c hc)) _).2]
  split
  · rename_i heq
    obtain ⟨c, u, hcons, hc⟩ := Literal.exists_cons_of_plain hp.nonempty hf rest
    rw [hcons] at heq
    exact absurd (List.cons.inj (List.cons.inj heq).2).1 (ne_of_plain hc (by decide))
  · rfl

/-- A plain decimal that is a number has its interval. -/
theorem exists_uncertain (h : d.plain? t = some (negative, literal, places, rest))
    (he : d.endpoint t = .ok (x, r)) :
    ∃ y, d.uncertain t negative literal places rest = .ok (y, rest) := by
  obtain ⟨w, f, hp, rfl, rfl⟩ := exists_plainDecimal h
  cases hs : d.system with
  | none => exact ⟨_, hp.uncertain_of_none hs f.length⟩
  | some s =>
    rw [hp.rest_of_system hs he] at he
    rw [uncertain, hs]
    simp only
    rw [bind_of_ok he]
    exact ⟨_, rfl⟩

/-- What follows a plain decimal in the text of a number is stuck, or it is the exponent. -/
theorem stuck_or_exponent (h : d.plain? t = some (negative, literal, places, rest))
    (ht : d.scaledEndpoint false t = .ok (x, [])) (hne : rest ≠ []) :
    Stuck rest ∨ d.exponentFollows rest = true ∧
      ∃ k, d.exponent (rest.drop d.marker.length) = .ok (k, []) := by
  obtain ⟨e, u, he⟩ := endpoint_of_scaledEndpoint ht
  obtain ⟨y, hy⟩ := exists_uncertain h he
  rcases scaledEndpoint_cases ht with he | ⟨e, u, k, he, hf, hk, -⟩
  · exact (uncertain_mem h hy he).imp_right fun hr => absurd hr.1.symm hne
  · refine (uncertain_mem h hy he).imp_right fun hr => ?_
    rw [hr.1] at hf hk
    exact ⟨hf, k, hk⟩

end

end Dialect

/-! ## The two readings -/

/-- The interval of two numbers, as it was written out. -/
def Endpoint.pair (x y : Endpoint) : Value := .kept (.interval (.hull x.value y.value))

/-- A factor is a sum where a text ends or is stuck. -/
theorem Reads.sum_of_factor {d : Dialect} {t r : Text} {e : Expr} (h : Reads d .factor t e r)
    (hr : r = [] ∨ Stuck r) : Reads d .sum t (.simplified e) r := by
  have hne : ∀ {c : Char}, isDecimal c = false → c ≠ ':' → c ≠ '\x7b' → ∀ u, r ≠ c :: u := by
    intro c h₁ h₂ h₃ u
    rcases hr with rfl | hr
    · exact fun h => nomatch h
    · exact hr.ne_cons h₁ h₂ h₃ u
  have hm : afterMarker? d r = none := by
    rcases hr with rfl | hr
    · rfl
    · exact hr.afterMarker?
  exact .sum (.term h (.termEnd (hne (by decide) (by decide) (by decide))
    (hne (by decide) (by decide) (by decide)) hm))
    (.sumEnd (hne (by decide) (by decide) (by decide)) (hne (by decide) (by decide) (by decide)))

namespace Dialect

variable {d : Dialect} {a t u b r : Text} {x y : Endpoint} {e : Expr}

theorem suffixed_nil (d : Dialect) (e : Expr) : suffixed d e [] = ⟨e, some []⟩ := by
  rw [suffixed_of_after? d.after?_marker_nil]
  rfl

theorem not_mem_of_scaledEndpoint (ha : d.scaledEndpoint false a = .ok (x, [])) : '[' ∉ a :=
  (d.progressive_scaledEndpoint false ha).1.takes.not_mem

theorem signsFraction_colon (t u : Text) : SignsFraction d (t ++ ':' :: u) ↔ SignsFraction d t := by
  have h := continuedFraction?_close colon_mem_closers ('-' :: t) u
  rw [SignsFraction, SignsFraction, ← List.cons_append, h, behind, Option.isSome_map]

theorem signsNumber_colon (t u : Text) : SignsNumber d (t ++ ':' :: u) ↔ SignsNumber d t := by
  have hcolon : (d.isDigit ':' || decide (':' = '.')) = false := by
    rw [d.isDigit_close colon_mem_closers]
    rfl
  rw [SignsNumber, SignsNumber, any_head?_close hcolon]

/-- A minus sign at the start of a text belongs to the number that it begins. -/
def OwnsSign (d : Dialect) (t : Text) : Prop :=
  ∀ u, t = '-' :: u → SignsFraction d u ∨ SignsNumber d u

/-- A single number with its sign, up to where its text is stuck, is read as a factor. -/
theorem exists_reads_signed {v w : Value} (ho : ∀ u, t ≠ '(' :: u) (hm : ∀ u, t ≠ '-' :: u)
    (hb : ∀ negative, Literal.bracket? (Expansion.sign negative ++ t) = none)
    (hf : ¬ SignsFraction d t) (hr : r = [] ∨ Stuck r) (hv : d.interval t = .ok ((v, false), r))
    (hw : d.interval ('-' :: t) = .ok ((w, false), r)) (negative : Bool) :
    ∃ e, Reads d .factor (Expansion.sign negative ++ t) e r ∧
      e.eval d = .ok (if negative then d.negate v else v) := by
  have hsuffixed : suffixed d (.literal v) r = ⟨.literal v, some r⟩ := by
    rcases hr with rfl | hr
    · exact suffixed_nil d _
    · exact hr.suffixed _
  have hbare : Reads d .factor t (.literal v) r := by
    refine .literal ho hm (hb false) ?_
    rw [Reading.literal, hv]
    exact hsuffixed
  cases negative with
  | false => exact ⟨_, hbare, rfl⟩
  | true =>
    have hsigned : signedLiteral? d ('-' :: t) = none := by
      by_cases hn : SignsNumber d t
      · rw [signedLiteral?_of_number hf hn, hw]
      · exact signedLiteral?_of_other hf hn
    exact ⟨_, .negated (hb true) hsigned hbare, rfl⟩

/-- Without a sign what is read as a literal is read as a factor. -/
theorem factor_of_literal (ha : d.scaledEndpoint false a = .ok (x, []))
    (hm : ∀ u, a ≠ '-' :: u) (hl : Reading.literal d (a ++ ':' :: u) = ⟨e, some r⟩) :
    Reads d .factor (a ++ ':' :: u) e r := by
  obtain ⟨y, v, he⟩ := endpoint_of_scaledEndpoint ha
  have hb := endpoint_begins he
  rw [minus_of_ne hm] at hb
  exact .literal (append_ne_cons (by decide) (hb.ne_cons (by decide)) u)
    (append_ne_cons (by decide) hm u) (bracket?_colon (not_mem_of_scaledEndpoint ha) u) hl

theorem Certain.of_minus (ht : ∀ u, t ≠ '-' :: u) (h : d.Certain ('-' :: t)) : d.Certain t :=
  h.imp_right fun hp => by rwa [plain?_minus d ht, Option.map_eq_none_iff] at hp

theorem interval_pair_colon (ha : d.scaledEndpoint false a = .ok (x, []))
    (hb : d.scaledEndpoint false b = .ok (y, [])) (hcert : d.Certain (a ++ ':' :: b)) :
    d.interval (a ++ ':' :: b) = .ok ((x.pair y, true), []) :=
  interval_pair hcert (scaledEndpoint_colon ha b) hb

theorem literal_pair (ha : d.scaledEndpoint false a = .ok (x, []))
    (hb : d.scaledEndpoint false b = .ok (y, [])) (hcert : d.Certain (a ++ ':' :: b)) :
    Reading.literal d (a ++ ':' :: b) = ⟨.literal (x.pair y), some []⟩ := by
  rw [Reading.literal, interval_pair_colon ha hb hcert]
  exact suffixed_nil d _

/-- In both modes two numbers are read as their interval, or as its opposite, unless a plain decimal
is read before the colon. -/
theorem exists_reads_pair (ha : d.scaledEndpoint false a = .ok (x, []))
    (hb : d.scaledEndpoint false b = .ok (y, [])) :
    ∃ (e : Expr) (v : Value), (∀ m, e.eval (d.mode m) = .ok v) ∧ (d.OwnsSign a → v = x.pair y) ∧
      ∀ m, (d.mode m).Certain (a ++ ':' :: b) → Reads (d.mode m) .factor (a ++ ':' :: b) e [] := by
  rcases minus_cases a with ⟨t, rfl, -⟩ | ⟨hm, -⟩
  · have hno := bracket?_colon (not_mem_of_scaledEndpoint ha) b
    simp only [List.cons_append] at hno ⊢
    by_cases hf : SignsFraction d t
    · refine ⟨.literal (x.pair y), _, fun _ => rfl, fun _ => rfl, fun m hcert => .signed hno ?_⟩
      rw [signedLiteral?_of_fraction (d := d.mode m) ((signsFraction_colon t b).2 hf)]
      exact congrArg some (literal_pair (d := d.mode m) ha hb hcert)
    have hf' := mt (signsFraction_colon t b).1 hf
    by_cases hn : SignsNumber d t
    · refine ⟨.literal (x.pair y), _, fun _ => rfl, fun _ => rfl, fun m hcert => .signed hno ?_⟩
      have hi := interval_pair_colon (d := d.mode m) ha hb hcert
      rw [List.cons_append] at hi
      rw [signedLiteral?_of_number (d := d.mode m) hf' ((signsNumber_colon t b).2 hn), hi]
      exact congrArg some (suffixed_nil (d.mode m) _)
    -- the digit behind the minus sign is not one of those that begin a signed interval
    · obtain ⟨x', hx'⟩ := scaledEndpoint_of_minus ha hf
      have ht := ne_minus_of_scaledEndpoint ha
      refine ⟨.neg (.literal (x'.pair y)),
        .plain ((Number.interval (.point (-1))).mul (x'.pair y).number),
        fun m => by cases m <;> rfl,
        fun h => absurd (h t rfl) (not_or.2 ⟨hf, hn⟩), fun m hcert => .negated hno ?_
        (factor_of_literal (d := d.mode m) hx' ht (literal_pair (d := d.mode m) hx' hb
          (hcert.of_minus (append_ne_cons (by decide) ht b))))⟩
      exact signedLiteral?_of_other (d := d.mode m) hf' (mt (signsNumber_colon t b).1 hn)
  · exact ⟨.literal (x.pair y), _, fun _ => rfl, fun _ => rfl, fun m hcert =>
      factor_of_literal (d := d.mode m) ha hm (literal_pair (d := d.mode m) ha hb hcert)⟩

section

variable {negative : Bool} {literal rest p : Text} {places : Nat} {c : Char}

theorem interval_cut (ha : d.scaledEndpoint false a = .ok (x, []))
    (hp : d.plain? a = some (negative, literal, places, c :: rest)) (u : Text) :
    ∃ y, (d.mode false).interval (a ++ ':' :: u) =
      .ok ((.plain y, false), c :: rest ++ ':' :: u) := by
  obtain ⟨z, v, he⟩ := endpoint_of_scaledEndpoint ha
  obtain ⟨y, hy⟩ := exists_uncertain hp he
  refine ⟨y, interval_uncertain (d := d.mode false) rfl ?_
    ((d.progressive_uncertain colon_mem_closers hp hy).2 u)⟩
  refine (plain?_colon (d := d) a u).trans ?_
  rw [hp]
  rfl

/-- What follows a plain decimal before a colon is left, or it is an exponent. -/
theorem suffixed_cut (ha : d.scaledEndpoint false a = .ok (x, []))
    (hp : d.plain? a = some (negative, literal, places, c :: rest)) (v : Value) (u : Text) :
    ∃ e w, e.eval (d.mode false) = .ok w ∧ suffixed (d.mode false) (.literal v)
      (c :: rest ++ ':' :: u) =
        ⟨e, some ((if d.exponentFollows (c :: rest) then [] else c :: rest) ++ ':' :: u)⟩ := by
  rcases stuck_or_exponent hp ha (List.cons_ne_nil c rest) with hs | ⟨hf, k, hk⟩
  · refine ⟨.literal v, v, rfl, ?_⟩
    rw [(hs.append (':' :: u)).suffixed, exponentFollows_of_after? (hs.after?_marker d)]
    rfl
  · refine ⟨.simplified (.scale (.literal v) k), _, rfl, ?_⟩
    rw [if_pos hf]
    refine suffixed_of_exponent (d := d.mode false)
      ((d.exponentFollows_close colon_mem_closers _ u).trans hf) ?_ _
    obtain ⟨w, hw⟩ := d.exists_of_exponentFollows hf
    rw [hw, List.drop_left] at hk
    rw [hw, List.append_assoc]
    change d.exponent ((d.marker ++ (w ++ ':' :: u)).drop d.marker.length) = _
    rw [List.drop_left]
    exact (d.local_exponent colon_mem_closers hk).2 u

theorem literal_cut (ha : d.scaledEndpoint false a = .ok (x, []))
    (hp : d.unread? a = some p) (u : Text) :
    ∃ e v, e.eval (d.mode false) = .ok v ∧
      Reading.literal (d.mode false) (a ++ ':' :: u) = ⟨e, some (p ++ ':' :: u)⟩ := by
  obtain ⟨negative, literal, places, c, rest, hplain, rfl⟩ := exists_plain_of_unread hp
  obtain ⟨y, hy⟩ := interval_cut ha hplain u
  obtain ⟨e, v, he, hs⟩ := suffixed_cut ha hplain (.plain y) u
  refine ⟨e, v, he, ?_⟩
  rw [Reading.literal, hy]
  exact hs

theorem stuck_of_unread (ha : d.scaledEndpoint false a = .ok (x, [])) (hp : d.unread? a = some p)
    (u : Text) : Stuck (p ++ ':' :: u) := by
  obtain ⟨negative, literal, places, c, rest, hplain, rfl⟩ := exists_plain_of_unread hp
  rcases stuck_or_exponent hplain ha (List.cons_ne_nil c rest) with hs | ⟨hf, -⟩
  · rw [exponentFollows_of_after? (hs.after?_marker d)]
    exact hs.append _
  · rw [if_pos hf]
    exact .colon u

/-- With intervals a plain decimal that something follows is read before the colon comes. -/
theorem exists_reads_cut (ha : d.scaledEndpoint false a = .ok (x, []))
    (hp : d.unread? a = some p) (u : Text) :
    ∃ e v, e.eval (d.mode false) = .ok v ∧
      Reads (d.mode false) .factor (a ++ ':' :: u) e (p ++ ':' :: u) := by
  rcases minus_cases a with ⟨t, rfl, -⟩ | ⟨hm, -⟩
  · obtain ⟨negative, literal, places, c, rest, hplain, -⟩ := exists_plain_of_unread hp
    have hf : ¬ SignsFraction d t := not_signsFraction_iff.2 (continuedFraction?_of_plain hplain)
    obtain ⟨x', hx'⟩ := scaledEndpoint_of_minus ha hf
    have ht := ne_minus_of_scaledEndpoint ha
    rw [unread?_minus ht] at hp
    obtain ⟨e, w, he, hl⟩ := literal_cut hx' hp u
    obtain ⟨y, hy⟩ := interval_cut ha hplain u
    have hf : ¬ SignsFraction d (t ++ ':' :: u) := fun h => hf ((signsFraction_colon t u).1 h)
    have hsigned : signedLiteral? (d.mode false) ('-' :: (t ++ ':' :: u)) = none := by
      by_cases hn : SignsNumber d (t ++ ':' :: u)
      · rw [List.cons_append] at hy
        rw [signedLiteral?_of_number (d := d.mode false) hf hn, hy]
      · exact signedLiteral?_of_other (d := d.mode false) hf hn
    have hno := bracket?_colon (not_mem_of_scaledEndpoint ha) u
    refine ⟨.neg e, (d.mode false).negate w, ?_,
      .negated hno hsigned (factor_of_literal (d := d.mode false) hx' ht hl)⟩
    rw [Expr.eval, bind_of_ok he]
    rfl
  · obtain ⟨e, v, he, hl⟩ := literal_cut ha hp u
    exact ⟨e, v, he, factor_of_literal (d := d.mode false) ha hm hl⟩

end

end Dialect

/-! ## The two values -/

theorem Value.demote_eq_self {v : Value} {i : Interval} (h : v.demote.number = .interval i) :
    v.demote = v := by
  obtain ⟨n, keepForm⟩ := v
  cases keepForm with
  | true => rfl
  | false =>
    have hn : n.simplest = n := by
      change n.simplest = .interval i at h
      cases n with
      | interval j =>
        rw [Number.simplest] at h ⊢
        split_ifs at h ⊢ with hj
        · rw [Number.simplest.simplestRat] at h
          split_ifs at h
        · rfl
      | integer n => cases h
      | rational a =>
        rw [Number.simplest, Number.simplest.simplestRat] at h
        split_ifs at h
    exact congrArg (Value.mk · false) hn

namespace Expr

variable {d : Dialect} {a b : Text} {x y : Endpoint}

/-- **The interval of two numbers is the same with exact values and with intervals**, unless the
first one begins with a plain decimal that something follows, such as an exponent. With intervals
the decimal is then read for itself, and what is left before the colon is refused with it. With
exact values there always is a value; it is the interval of the two numbers, if a minus sign before
them belongs to the first one alone. -/
theorem valueOf_pair (ha : d.IsEndpoint a x) (hb : d.IsEndpoint b y) :
    ∃ v, valueOf (d.mode true) (a ++ ':' :: b) = .ok v ∧ (d.OwnsSign a → v = x.pair y) ∧
      ∀ i, v.number = .interval i →
        valueOf (d.mode false) (a ++ ':' :: b) = match d.unread? a with
          | none => .ok v
          | some p =>
            .error (.literal (.trailingToken (String.ofList (d.display (p ++ ':' :: b))))) := by
  have hprep : ∀ m, (d.mode m).prepare (a ++ ':' :: b) = a ++ ':' :: b := fun m =>
    Dialect.prepare_of_no_blank _ fun c hc => by
      rcases List.mem_append.1 hc with hc | hc
      · exact ha.noBlank c hc
      · rcases List.mem_cons.1 hc with rfl | hc
        · decide
        · exact hb.noBlank c hc
  obtain ⟨e, w, hw, hpair, hread⟩ := Dialect.exists_reads_pair ha.read hb.read
  have hvalue : ∀ m, (d.mode m).Certain (a ++ ':' :: b) →
      valueOf (d.mode m) (a ++ ':' :: b) = .ok ((d.mode m).simplify w) := fun m hcert => by
    have h := (hread m hcert).sum_of_factor (.inl rfl)
    rw [← hprep m] at h
    rw [valueOf, read_of_reads h, eval, hw]
    rfl
  refine ⟨w.demote, hvalue true (.inl rfl), fun hs => ?_, fun i hi => ?_⟩
  · rw [hpair hs]
    rfl
  rw [Value.demote_eq_self hi]
  cases hp : d.unread? a with
  | none => exact hvalue false (.inr (Dialect.plain?_colon_of_none (d := d) hp b))
  | some p =>
    obtain ⟨e, w, he, hread⟩ := Dialect.exists_reads_cut ha.read hp b
    have hstuck : Stuck (p ++ ':' :: b) := Dialect.stuck_of_unread ha.read hp b
    have h := hread.sum_of_factor (.inr hstuck)
    rw [← hprep false] at h
    simp only
    obtain ⟨c, u, hc, -⟩ := hstuck
    rw [hc] at h ⊢
    refine valueOf_of_reads_rest h (v := w) ?_
    rw [eval, bind_of_ok he]
    rfl

/-- An exponent before the colon belongs to an integer, but not to a plain decimal. -/
theorem exponent_before_colon :
    valueOf (Dialect.mode ⟨true, none, .initial⟩ true) ['1', 'E', '1', ':', '2'] =
        .ok (.kept (.interval (.hull 10 2))) ∧
      valueOf (Dialect.mode ⟨true, none, .initial⟩ false) ['1', 'E', '1', ':', '2'] =
        .ok (.kept (.interval (.hull 10 2))) ∧
      valueOf (Dialect.mode ⟨true, none, .initial⟩ true) ['1', '.', '5', 'E', '2', ':', '3'] =
        .ok (.kept (.interval (.hull 150 3))) ∧
      valueOf (Dialect.mode ⟨true, none, .initial⟩ false) ['1', '.', '5', 'E', '2', ':', '3'] =
        .error (.literal (.trailingToken ":3")) := by
  have h₁ : Dialect.IsEndpoint ⟨true, none, .initial⟩ ['1', 'E', '1'] ⟨10, false⟩ :=
    ⟨by with_unfolding_all decide, forall_of_all (by decide)⟩
  have h₂ : Dialect.IsEndpoint ⟨true, none, .initial⟩ ['2'] ⟨2, false⟩ :=
    ⟨by decide, forall_of_all (by decide)⟩
  have h₃ : Dialect.IsEndpoint ⟨true, none, .initial⟩ ['1', '.', '5', 'E', '2'] ⟨150, false⟩ :=
    ⟨by with_unfolding_all decide, forall_of_all (by decide)⟩
  have h₄ : Dialect.IsEndpoint ⟨true, none, .initial⟩ ['3'] ⟨3, false⟩ :=
    ⟨by decide, forall_of_all (by decide)⟩
  obtain ⟨v, hv, hpair, hsame⟩ := valueOf_pair h₁ h₂
  obtain ⟨w, hw, hpair', hsame'⟩ := valueOf_pair h₃ h₄
  cases hpair fun _ h => nomatch h
  cases hpair' fun _ h => nomatch h
  exact ⟨hv, (hsame _ rfl).trans (by decide), hw, (hsame' _ rfl).trans (by decide)⟩

end Expr

end RatCalc

import RatCalc.Proofs.EnclosedLiteral

/-!
# Intervals before a closing parenthesis

* `progressive_scaledEndpoint`: numbers with their exponents.
* `Dialect.Certain`: a text whose last place is not uncertain; `interval_pair`, `interval_single`,
  `interval_error` and `interval_cases` say what is read from it.
* **`progressive_interval`**: the literals of expressions.
-/

namespace RatCalc

open Text

/-- The number that an endpoint says in an exact expression; an explicit denominator of one is
kept. -/
def Endpoint.shown (x : Endpoint) : Value :=
  if x.value.den = 1 && !x.kept then .plain (.integer x.value.num) else ⟨.rational x.value, x.kept⟩

namespace Dialect

variable (d : Dialect)

/-! ## Exponents -/

theorem after?_marker_nil : after? d.marker [] = none := by
  rcases d.marker_eq with hm | hm <;> rw [hm] <;> rfl

theorem after?_marker_cons {c : Char} (hc : c ∉ d.marker) (t : Text) :
    after? d.marker (c :: t) = none := by
  have h := after?_append_cons hc [] t
  rwa [List.nil_append, after?_marker_nil] at h

theorem exponentFollows_of_after? {d : Dialect} {t : Text} (h : after? d.marker t = none) :
    d.exponentFollows t = false := by
  rw [exponentFollows, h]

theorem exists_of_exponentFollows {t : Text} (h : d.exponentFollows t = true) :
    ∃ u, t = d.marker ++ u := by
  cases hm : after? d.marker t with
  | none => exact absurd h (by rw [exponentFollows_of_after? hm]; exact Bool.false_ne_true)
  | some u => exact ⟨u, eq_append_of_after? hm⟩

theorem exponentFollows_nil : d.exponentFollows [] = false :=
  exponentFollows_of_after? d.after?_marker_nil

/-- Without an exponent behind it an endpoint is not scaled. -/
theorem scaledEndpoint_of_not_follows {t u : Text} {x : Endpoint} (hx : d.endpoint t = .ok (x, u))
    (hu : d.exponentFollows u = false) (beforeColon : Bool) :
    d.scaledEndpoint beforeColon t = .ok (x, u) := by
  rw [scaledEndpoint, bind_of_ok hx]
  simp only
  rw [hu]
  rfl

theorem takes_marker (u : Text) : Takes (d.marker ++ u) u := .of_append d.bracket_not_mem_marker u

theorem progressive_scaledEndpoint (beforeColon : Bool) :
    Progressive ')' (d.scaledEndpoint beforeColon) := by
  intro t e r h
  rw [scaledEndpoint] at h
  obtain ⟨⟨e', rest⟩, he, h⟩ := bind_eq_ok.1 h
  obtain ⟨ht, hc⟩ := d.progressive_endpoint parenthesis_mem_closers he
  simp only at h
  split_ifs at h with hf
  · obtain ⟨u, rfl⟩ := d.exists_of_exponentFollows hf
    rw [List.drop_left] at h
    obtain ⟨⟨k, after⟩, hk, h⟩ := bind_eq_ok.1 h
    obtain ⟨hkt, hkc⟩ := d.local_exponent parenthesis_mem_closers hk
    have hgoal : ∀ w, d.scaledEndpoint beforeColon (t ++ ')' :: w) =
        if beforeColon && after.head? != some ':' then
          .ok (e', d.marker ++ u ++ ')' :: w)
        else .ok (⟨Ratio.shift d.radix e'.value k, false⟩, after ++ ')' :: w) := fun w => by
      rw [scaledEndpoint, bind_of_ok (hc w)]
      simp only
      rw [d.exponentFollows_close parenthesis_mem_closers, if_pos hf, List.append_assoc,
        List.drop_left, bind_of_ok (hkc w)]
      simp only [head?_ne_close (show ':' ≠ ')' by decide)]
      rfl
    simp only at h
    split_ifs at h with hcolon
    · cases h
      exact ⟨ht, fun w => by rw [hgoal, if_pos hcolon]⟩
    · cases h
      exact ⟨ht.trans_takes ((d.takes_marker u).trans hkt), fun w => by rw [hgoal, if_neg hcolon]⟩
  · cases h
    refine ⟨ht, fun w => d.scaledEndpoint_of_not_follows (hc w) ?_ beforeColon⟩
    rw [d.exponentFollows_close parenthesis_mem_closers, Bool.eq_false_of_not_eq_true hf]

/-! ## Uncertain decimals -/

theorem plain?_eq (t : Text) :
    d.plain? t =
      match (minus t).2.dropWhile d.isDigit with
      | '.' :: u =>
        if (u.takeWhile d.isDigit).isEmpty ||
            (u.dropWhile d.isDigit).head?.any (['#', ':', '~', '[', '.'].contains ·) then none
        else some ((minus t).1, (minus t).2.takeWhile d.isDigit ++ '.' :: u.takeWhile d.isDigit,
          (u.takeWhile d.isDigit).length, u.dropWhile d.isDigit)
      | _ => none := rfl

theorem plain?_close (t w : Text) : d.plain? (t ++ ')' :: w) =
    (d.plain? t).map fun x => (x.1, x.2.1, x.2.2.1, x.2.2.2 ++ ')' :: w) := by
  have hc := d.isDigit_close parenthesis_mem_closers
  rw [plain?_eq, plain?_eq, minus_append_cons (by decide)]
  simp only [dropWhile_append_cons hc, takeWhile_append_cons hc]
  rcases (minus t).2.dropWhile d.isDigit with _ | ⟨c, v⟩
  · rfl
  · by_cases h : c = '.'
    · subst h
      simp only [List.cons_append, takeWhile_append_cons hc, dropWhile_append_cons hc]
      rw [any_head?_close (by decide)]
      split_ifs <;> rfl
    · simp [h]

theorem consumes_plain? {t literal r : Text} {negative : Bool} {places : Nat}
    (h : d.plain? t = some (negative, literal, places, r)) : Consumes t r := by
  have hdrop := (takes_minus t).trans (.dropWhile d.isDigit_bracket (minus t).2)
  rw [plain?_eq] at h
  split at h
  · rename_i u hu
    split_ifs at h
    cases h
    rw [hu] at hdrop
    exact hdrop.trans_consumes
      ((Consumes.cons (by decide) u).trans_takes (.dropWhile d.isDigit_bracket u))
  · cases h

theorem progressive_uncertain {z : Char} (hz : z ∈ closers) {t literal rest r : Text}
    {negative : Bool} {places : Nat} {x : Number}
    (hp : d.plain? t = some (negative, literal, places, rest))
    (h : d.uncertain t negative literal places rest = .ok (x, r)) :
    Consumes t r ∧ ∀ w, d.uncertain (t ++ z :: w) negative literal places (rest ++ z :: w) =
      .ok (x, r ++ z :: w) := by
  rw [uncertain.eq_def] at h
  split at h
  · rename_i hs
    obtain ⟨y, hy, h⟩ := bind_eq_ok.1 h
    cases h
    refine ⟨d.consumes_plain? hp, fun w => ?_⟩
    rw [uncertain, hs]
    simp only
    rw [hy]
    rfl
  · rename_i s hs
    obtain ⟨⟨e, v⟩, he, h⟩ := bind_eq_ok.1 h
    obtain ⟨ht, hc⟩ := d.progressive_endpoint hz he
    cases h
    refine ⟨ht, fun w => ?_⟩
    rw [uncertain, hs]
    simp only
    rw [bind_of_ok (hc w)]
    rfl

/-! ## Intervals -/

/-- The value of a number that no colon follows. -/
def single (a : Endpoint) : Value :=
  if d.exact then a.shown else .plain (.interval (.point a.value))

/-- A text that is not read as a decimal whose last place is uncertain. -/
def Certain (t : Text) : Prop := d.exact = true ∨ d.plain? t = none

section

variable {d} {t r u : Text} {a b : Endpoint}

theorem Certain.absurd {p : Prop} (h : d.Certain t) {y : Bool × Text × Nat × Text}
    (hexact : d.exact = false) (hp : d.plain? t = some y) : p := by
  rcases h with h | h
  · rw [hexact] at h
    cases h
  · rw [hp] at h
    cases h

theorem Certain.close (h : d.Certain t) (w : Text) : d.Certain (t ++ ')' :: w) :=
  h.imp_right fun hp => by rw [plain?_close, hp, Option.map_none]

theorem interval_uncertain {literal rest : Text} {negative : Bool} {places : Nat} {x : Number}
    (hexact : d.exact = false) (hp : d.plain? t = some (negative, literal, places, rest))
    (hx : d.uncertain t negative literal places rest = .ok (x, r)) :
    d.interval t = .ok ((.plain x, false), r) := by
  rw [interval, hexact, hp]
  simp only
  rw [bind_of_ok hx]
  rfl

/-- Without an uncertain decimal there is a number, and a second one where a colon follows. -/
theorem interval_eq (hcert : d.Certain t) :
    d.interval t = (do
      let (a, rest) ← d.scaledEndpoint true t
      match rest with
      | ':' :: rest =>
        let (b, rest) ← d.scaledEndpoint false rest
        return ((.kept (.interval (.hull a.value b.value)), true), rest)
      | rest => return ((d.single a, false), rest)) := by
  rw [interval]
  split
  · rename_i hexact hp
    exact hcert.absurd hexact hp
  · congr 1
    funext ⟨a, rest⟩
    simp only [single, Endpoint.shown]
    cases d.exact with
    | false => rfl
    | true =>
      simp only [Bool.not_true, Bool.false_eq_true, if_false, if_true]
      split_ifs <;> rfl

theorem interval_pair (hcert : d.Certain t) (ha : d.scaledEndpoint true t = .ok (a, ':' :: u))
    (hb : d.scaledEndpoint false u = .ok (b, r)) :
    d.interval t = .ok ((.kept (.interval (.hull a.value b.value)), true), r) := by
  rw [interval_eq hcert, bind_of_ok ha]
  simp only
  rw [bind_of_ok hb]
  rfl

theorem interval_single (hcert : d.Certain t) (ha : d.scaledEndpoint true t = .ok (a, r))
    (hcolon : ∀ u, r ≠ ':' :: u) : d.interval t = .ok ((d.single a, false), r) := by
  rw [interval_eq hcert, bind_of_ok ha]
  simp only
  rfl

theorem interval_error {f : Failure} (hcert : d.Certain t)
    (hf : d.scaledEndpoint true t = .error f) : d.interval t = .error f := by
  rw [interval_eq hcert, hf]
  rfl

/-- What is read from a text is an uncertain decimal, two numbers, or one. -/
theorem interval_cases {x : Value × Bool} (h : d.interval t = .ok (x, r)) :
    (∃ negative literal places rest y, d.exact = false ∧
        d.plain? t = some (negative, literal, places, rest) ∧
        d.uncertain t negative literal places rest = .ok (y, r) ∧ x = (.plain y, false)) ∨
      (d.Certain t ∧ ∃ a u b, d.scaledEndpoint true t = .ok (a, ':' :: u) ∧
        d.scaledEndpoint false u = .ok (b, r) ∧
        x = (.kept (.interval (.hull a.value b.value)), true)) ∨
      (d.Certain t ∧ ∃ a, d.scaledEndpoint true t = .ok (a, r) ∧ (∀ u, r ≠ ':' :: u) ∧
        x = (d.single a, false)) := by
  by_cases hcert : d.Certain t
  · rw [interval_eq hcert] at h
    obtain ⟨⟨a, rest⟩, ha, h⟩ := bind_eq_ok.1 h
    simp only at h
    split at h
    · rename_i u
      obtain ⟨⟨b, v⟩, hb, h⟩ := bind_eq_ok.1 h
      cases h
      exact .inr (.inl ⟨hcert, a, u, b, ha, hb, rfl⟩)
    · rename_i hcolon
      cases h
      exact .inr (.inr ⟨hcert, a, ha, hcolon, rfl⟩)
  · rw [Certain, not_or, Bool.not_eq_true] at hcert
    obtain ⟨hexact, hp⟩ := hcert
    obtain ⟨⟨negative, literal, places, rest⟩, hp⟩ := Option.ne_none_iff_exists'.1 hp
    rw [interval, hexact, hp] at h
    obtain ⟨⟨y, u⟩, hy, h⟩ := bind_eq_ok.1 h
    cases h
    exact .inl ⟨negative, literal, places, rest, y, hexact, hp, hy, rfl⟩

end

theorem progressive_interval : Progressive ')' d.interval := by
  intro t x r h
  rcases interval_cases h with ⟨negative, literal, places, rest, y, hexact, hp, hy, rfl⟩ |
    ⟨hcert, a, u, b, ha, hb, rfl⟩ | ⟨hcert, a, ha, hcolon, rfl⟩
  · obtain ⟨ht, hc⟩ := d.progressive_uncertain parenthesis_mem_closers hp hy
    refine ⟨ht, fun w => interval_uncertain hexact ?_ (hc w)⟩
    rw [plain?_close, hp]
    rfl
  · obtain ⟨hat, hac⟩ := d.progressive_scaledEndpoint true ha
    obtain ⟨hbt, hbc⟩ := d.progressive_scaledEndpoint false hb
    exact ⟨hat.trans_takes ((Takes.cons (by decide) u).trans hbt.takes),
      fun w => interval_pair (hcert.close w) (hac w) (hbc w)⟩
  · obtain ⟨hat, hac⟩ := d.progressive_scaledEndpoint true ha
    exact ⟨hat, fun w => interval_single (hcert.close w) (hac w)
      (append_ne_cons (by decide) hcolon w)⟩

end Dialect

end RatCalc

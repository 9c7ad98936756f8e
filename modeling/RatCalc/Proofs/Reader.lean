import RatCalc.Proofs.Grammar

/-!
# The reader and the grammar

* `Part.run`, `Part.fuel`: the reader of a part, and the fuel that it needs.
* `Reads.run_eq`, `reads_of_run`, **`reads_iff`**: with enough fuel the reader finds exactly what
  the grammar derives; `Sound` is what one part hands on to the next.
* **`failsIfStopped_run`**: where reading stops the expression has no value.
* `Expr.read_of_reads`, **`Expr.valueOf_eq_ok_iff`**: the texts that have a value.
-/

namespace RatCalc

open Text Reading

/-! ## The reader -/

namespace Part

/-- The reader of a part. -/
@[simp]
def run (d : Dialect) (part : Part) (fuel : Nat) (t : Text) : Reading :=
  match part with
  | sum => Reading.sum d fuel t
  | sumFrom a => Reading.sumFrom d fuel a t
  | term => Reading.term d fuel t
  | termFrom a => Reading.termFrom d fuel a t
  | factor => Reading.factor d fuel t

/-- The fuel with which a part of a text is read to its end. -/
@[simp]
def fuel (part : Part) (t : Text) : Nat :=
  match part with
  | sum => 3 * t.length + 3
  | term => 3 * t.length + 2
  | factor => 3 * t.length + 1
  | sumFrom _ | termFrom _ => 3 * t.length

end Part

section

variable {d : Dialect}

theorem suffixed_of_after? {e : Expr} {t : Text} (h : after? d.marker t = none) :
    suffixed d e t = (factorialSuffix e t).andThen id fun e t => powerSuffix d e t := by
  rw [suffixed, exponentSuffix, Dialect.exponentFollows_of_after? h]
  rfl

theorem factor_open (n : Nat) (t : Text) :
    factor d (n + 1) ('(' :: t) = (sum d n t).andThen id fun e rest =>
      match rest with
      | ')' :: rest => suffixed d e rest
      | _ => ⟨.halted e (.literal .unclosedParenthesis), none⟩ := by
  unfold factor
  rfl

/-- A factor that does not begin with a parenthesis. -/
theorem factor_cons (n : Nat) {c : Char} (ho : c ≠ '(') (t : Text) :
    factor d (n + 1) (c :: t) =
      match Literal.bracket? (c :: t) with
      | some (base, contents, rest) => bracket d base contents rest
      | none =>
        if c = '-' then
          match signedLiteral? d (c :: t) with
          | some r => r
          | none => (factor d n t).andThen .neg fun e rest => ⟨e, some rest⟩
        else literal d (c :: t) :=
  factor.eq_4 d n c t ho

theorem factor_bracket {n : Nat} {t base contents u : Text} (ho : ∀ u, t ≠ '(' :: u)
    (hb : Literal.bracket? t = some (base, contents, u)) :
    factor d (n + 1) t = bracket d base contents u := by
  cases t with
  | nil => cases hb
  | cons c t => rw [factor_cons n fun h => ho t (by rw [h]), hb]

theorem factor_minus {n : Nat} {t : Text} (hb : Literal.bracket? ('-' :: t) = none) :
    factor d (n + 1) ('-' :: t) =
      match signedLiteral? d ('-' :: t) with
      | some r => r
      | none => (factor d n t).andThen .neg fun e rest => ⟨e, some rest⟩ := by
  rw [factor_cons n (by decide), hb]
  rfl

theorem factor_literal {n : Nat} {t : Text} (hne : t ≠ []) (ho : ∀ u, t ≠ '(' :: u)
    (hm : ∀ u, t ≠ '-' :: u) (hb : Literal.bracket? t = none) :
    factor d (n + 1) t = literal d t := by
  cases t with
  | nil => exact absurd rfl hne
  | cons c t =>
    rw [factor_cons n fun h => ho t (by rw [h]), hb]
    simp only
    rw [if_neg fun h => hm t (by rw [h])]

theorem factor_nil (n : Nat) : factor d n [] = stop (.literal .unexpectedEnd) := by
  cases n <;> rfl

theorem sumFrom_end (n : Nat) {t : Text} {a : Expr} (h₁ : ∀ u, t ≠ '+' :: u)
    (h₂ : ∀ u, t ≠ '-' :: u) : sumFrom d n a t = ⟨.simplified a, some t⟩ := by
  rw [sumFrom]
  · exact fun _ u _ => h₁ u
  · exact fun _ u _ => h₂ u

theorem termFrom_marker (n : Nat) {t u : Text} {a : Expr} (h₁ : ∀ u, t ≠ '*' :: u)
    (h₂ : ∀ u, t ≠ '/' :: u) (hm : afterMarker? d t = some u) :
    termFrom d (n + 1) a t =
      (factor d n u).andThen (fun b => .simplified (.scaleBy a b)) (termFrom d n) := by
  rw [termFrom, hm]
  · exact h₁
  · exact h₂

theorem termFrom_end (n : Nat) {t : Text} {a : Expr} (h₁ : ∀ u, t ≠ '*' :: u)
    (h₂ : ∀ u, t ≠ '/' :: u) (hm : afterMarker? d t = none) :
    termFrom d n a t = ⟨a, some t⟩ := by
  cases n with
  | zero => rw [termFrom]
  | succ n =>
    rw [termFrom, hm]
    · exact h₁
    · exact h₂

/-- A list begins with one of two elements, or with none of them. -/
theorem start_cases {α : Type} (c c' : α) (t : List α) :
    (∃ u, t = c :: u) ∨ (∃ u, t = c' :: u) ∨ ((∀ u, t ≠ c :: u) ∧ ∀ u, t ≠ c' :: u) := by
  by_cases h : ∃ u, t = c :: u
  · exact .inl h
  · by_cases h' : ∃ u, t = c' :: u
    · exact .inr (.inl h')
    · exact .inr (.inr ⟨not_exists.1 h, not_exists.1 h'⟩)

/-- What a factor begins with: a parenthesis, a literal with a bracket, a minus sign, nothing, or a
literal. -/
theorem factor_cases (t : Text) :
    (∃ u, t = '(' :: u) ∨
      ((∀ u, t ≠ '(' :: u) ∧ ∃ base contents u, Literal.bracket? t = some (base, contents, u)) ∨
      (∃ u, t = '-' :: u ∧ Literal.bracket? t = none) ∨ t = [] ∨
      (t ≠ [] ∧ (∀ u, t ≠ '(' :: u) ∧ (∀ u, t ≠ '-' :: u) ∧ Literal.bracket? t = none) := by
  by_cases ho : ∃ u, t = '(' :: u
  · exact .inl ho
  · have ho := not_exists.1 ho
    cases hb : Literal.bracket? t with
    | some x => exact .inr (.inl ⟨ho, x.1, x.2.1, x.2.2, rfl⟩)
    | none =>
      by_cases hm : ∃ u, t = '-' :: u
      · obtain ⟨u, hu⟩ := hm
        exact .inr (.inr (.inl ⟨u, hu, rfl⟩))
      · by_cases hne : t = []
        · exact .inr (.inr (.inr (.inl hne)))
        · exact .inr (.inr (.inr (.inr ⟨hne, ho, not_exists.1 hm, rfl⟩)))

/-- **With enough fuel the reader finds what the grammar derives.** -/
theorem Reads.run_eq {part : Part} {t r : Text} {e : Expr} (h : Reads d part t e r) :
    ∀ n, part.fuel t ≤ n → part.run d n t = ⟨e, some r⟩ := by
  induction h with
  | sum h₁ _ ih₁ ih₂ =>
    intro n hn
    have hl := h₁.leaves.2 trivial
    obtain ⟨m, rfl⟩ : ∃ m, n = m + 1 := ⟨n - 1, by simp only [Part.fuel] at hn; omega⟩
    simp only [Part.fuel, Part.run] at *
    rw [Reading.sum]
    exact andThen_eq_some.2 ⟨_, _, ih₁ m (by omega), ih₂ m (by omega)⟩
  | plus h₁ _ ih₁ ih₂ =>
    intro n hn
    have hl := h₁.leaves.2 trivial
    simp only [Part.fuel, Part.run, List.length_cons] at *
    obtain ⟨m, rfl⟩ : ∃ m, n = m + 1 := ⟨n - 1, by omega⟩
    rw [Reading.sumFrom]
    exact andThen_eq_some.2 ⟨_, _, ih₁ m (by omega), ih₂ m (by omega)⟩
  | minus h₁ _ ih₁ ih₂ =>
    intro n hn
    have hl := h₁.leaves.2 trivial
    simp only [Part.fuel, Part.run, List.length_cons] at *
    obtain ⟨m, rfl⟩ : ∃ m, n = m + 1 := ⟨n - 1, by omega⟩
    rw [Reading.sumFrom]
    exact andThen_eq_some.2 ⟨_, _, ih₁ m (by omega), ih₂ m (by omega)⟩
  | @sumEnd t a h₁ h₂ => exact fun n _ => sumFrom_end n h₁ h₂
  | term h₁ _ ih₁ ih₂ =>
    intro n hn
    have hl := h₁.leaves.2 trivial
    obtain ⟨m, rfl⟩ : ∃ m, n = m + 1 := ⟨n - 1, by simp only [Part.fuel] at hn; omega⟩
    simp only [Part.fuel, Part.run] at *
    rw [Reading.term]
    exact andThen_eq_some.2 ⟨_, _, ih₁ m (by omega), ih₂ m (by omega)⟩
  | times h₁ _ ih₁ ih₂ =>
    intro n hn
    have hl := h₁.leaves.2 trivial
    simp only [Part.fuel, Part.run, List.length_cons] at *
    obtain ⟨m, rfl⟩ : ∃ m, n = m + 1 := ⟨n - 1, by omega⟩
    rw [Reading.termFrom]
    exact andThen_eq_some.2 ⟨_, _, ih₁ m (by omega), ih₂ m (by omega)⟩
  | @divided t _ _ _ _ _ h₁ _ ih₁ ih₂ =>
    intro n hn
    have hl := h₁.leaves.2 trivial
    have hs := (takes_afterSlash t).length_le
    simp only [Part.fuel, Part.run, List.length_cons] at *
    obtain ⟨m, rfl⟩ : ∃ m, n = m + 1 := ⟨n - 1, by omega⟩
    rw [Reading.termFrom]
    exact andThen_eq_some.2 ⟨_, _, ih₁ m (by omega), ih₂ m (by omega)⟩
  | scaled h₁ h₁' hm h₂ _ ih₁ ih₂ =>
    intro n hn
    have hl := h₂.leaves.2 trivial
    have hs := (consumes_afterMarker? d hm).2
    simp only [Part.fuel, Part.run] at *
    obtain ⟨m, rfl⟩ : ∃ m, n = m + 1 := ⟨n - 1, by omega⟩
    rw [termFrom_marker m h₁ h₁' hm]
    exact andThen_eq_some.2 ⟨_, _, ih₁ m (by omega), ih₂ m (by omega)⟩
  | termEnd h₁ h₂ hm => exact fun n _ => termFrom_end n h₁ h₂ hm
  | group _ hs ih =>
    intro n hn
    simp only [Part.fuel, Part.run, List.length_cons] at *
    obtain ⟨m, rfl⟩ : ∃ m, n = m + 1 := ⟨n - 1, by omega⟩
    rw [factor_open]
    exact andThen_eq_some.2 ⟨_, _, ih m (by omega), hs⟩
  | bracketed h₁ hb hs =>
    intro n hn
    obtain ⟨m, rfl⟩ : ∃ m, n = m + 1 := ⟨n - 1, by simp only [Part.fuel] at hn; omega⟩
    exact (factor_bracket h₁ hb).trans hs
  | signed hb hs =>
    intro n hn
    obtain ⟨m, rfl⟩ : ∃ m, n = m + 1 := ⟨n - 1, by simp only [Part.fuel] at hn; omega⟩
    exact (factor_minus hb).trans (by rw [hs])
  | negated hb hs h ih =>
    intro n hn
    simp only [Part.fuel, Part.run, List.length_cons] at *
    obtain ⟨m, rfl⟩ : ∃ m, n = m + 1 := ⟨n - 1, by omega⟩
    rw [factor_minus hb, hs]
    exact andThen_eq_some.2 ⟨_, _, ih m (by omega), rfl⟩
  | literal h₁ h₂ hb hl =>
    intro n hn
    obtain ⟨m, rfl⟩ : ∃ m, n = m + 1 := ⟨n - 1, by simp only [Part.fuel] at hn; omega⟩
    have hne := List.length_pos_iff.1 (Nat.lt_of_le_of_lt (Nat.zero_le _) (consumes_literal d hl).2)
    exact (factor_literal hne h₁ h₂ hb).trans hl

/-! ## What the reader finds -/

/-- What is found with so much fuel, the grammar derives. -/
def Sound (d : Dialect) (n : Nat) : Prop :=
  ∀ ⦃p : Part⦄ ⦃t r : Text⦄ ⦃e : Expr⦄, p.fuel t ≤ n → p.run d n t = ⟨e, some r⟩ → Reads d p t e r

theorem sound_zero : Sound d 0 := by
  intro p t r e hn h
  have ht : p.fuel t = 3 * t.length := by
    cases p <;> simp only [Part.fuel] at hn ⊢ <;> omega
  cases List.length_eq_zero_iff.1 (show t.length = 0 by omega)
  cases p with
  | sum => cases hn
  | term => cases hn
  | factor => cases hn
  | sumFrom a =>
    cases h
    exact .sumEnd (fun u hu => (nomatch hu)) (fun u hu => (nomatch hu))
  | termFrom a =>
    cases h
    exact .termEnd (fun u hu => (nomatch hu)) (fun u hu => (nomatch hu)) rfl

namespace Sound

variable {n : Nat} {t r : Text} {a e : Expr}

/-- An operand, and what comes after it. -/
theorem operand (hs : Sound d n) {p : Part} (hp : p.IsOperand) {w : Expr → Expr} (q : Expr → Part)
    (ht : p.fuel t ≤ n) (hq : ∀ a u, u.length < t.length → (q a).fuel u ≤ n)
    (h : (p.run d n t).andThen w (fun a u => (q a).run d n u) = ⟨e, some r⟩) :
    ∃ b u, Reads d p t b u ∧ Reads d (q (w b)) u e r := by
  obtain ⟨b, u, hb, he⟩ := andThen_eq_some.1 h
  have hread := hs ht hb
  exact ⟨b, u, hread, hs (hq _ u (hread.leaves.2 hp)) he⟩

theorem sum (hs : Sound d n) (hn : Part.sum.fuel t ≤ n + 1)
    (h : Reading.sum d (n + 1) t = ⟨e, some r⟩) : Reads d .sum t e r := by
  simp only [Part.fuel] at hn
  rw [Reading.sum] at h
  obtain ⟨b, u, hb, he⟩ := hs.operand (p := .term) trivial .sumFrom
    (by simp only [Part.fuel]; omega) (fun _ u hu => by simp only [Part.fuel]; omega) h
  exact .sum hb he

theorem term (hs : Sound d n) (hn : Part.term.fuel t ≤ n + 1)
    (h : Reading.term d (n + 1) t = ⟨e, some r⟩) : Reads d .term t e r := by
  simp only [Part.fuel] at hn
  rw [Reading.term] at h
  obtain ⟨b, u, hb, he⟩ := hs.operand (p := .factor) trivial .termFrom
    (by simp only [Part.fuel]; omega) (fun _ u hu => by simp only [Part.fuel]; omega) h
  exact .term hb he

theorem sumFrom (hs : Sound d n) (hn : (Part.sumFrom a).fuel t ≤ n + 1)
    (h : Reading.sumFrom d (n + 1) a t = ⟨e, some r⟩) : Reads d (.sumFrom a) t e r := by
  simp only [Part.fuel] at hn
  -- the text after an operator has room for a term, and for the operators after it
  have hterm : ∀ {u : Text} {w : Expr → Expr}, u.length < t.length →
      (Part.term.run d n u).andThen w (Reading.sumFrom d n) = ⟨e, some r⟩ →
        ∃ b v, Reads d .term u b v ∧ Reads d (.sumFrom (w b)) v e r := fun hu h =>
    hs.operand (p := .term) trivial .sumFrom (by simp only [Part.fuel]; omega)
      (fun _ v hv => by simp only [Part.fuel]; omega) h
  rcases start_cases '+' '-' t with ⟨u, rfl⟩ | ⟨u, rfl⟩ | ⟨hp, hm⟩
  · rw [Reading.sumFrom] at h
    obtain ⟨b, v, hb, he⟩ := hterm (Nat.lt_succ_self _) h
    exact .plus hb he
  · rw [Reading.sumFrom] at h
    obtain ⟨b, v, hb, he⟩ := hterm (Nat.lt_succ_self _) h
    exact .minus hb he
  · rw [sumFrom_end _ hp hm] at h
    cases h
    exact .sumEnd hp hm

theorem termFrom (hs : Sound d n) (hn : (Part.termFrom a).fuel t ≤ n + 1)
    (h : Reading.termFrom d (n + 1) a t = ⟨e, some r⟩) : Reads d (.termFrom a) t e r := by
  simp only [Part.fuel] at hn
  have hfactor : ∀ {u : Text} {w : Expr → Expr}, u.length < t.length →
      (Part.factor.run d n u).andThen w (Reading.termFrom d n) = ⟨e, some r⟩ →
        ∃ b v, Reads d .factor u b v ∧ Reads d (.termFrom (w b)) v e r := fun hu h =>
    hs.operand (p := .factor) trivial .termFrom (by simp only [Part.fuel]; omega)
      (fun _ v hv => by simp only [Part.fuel]; omega) h
  rcases start_cases '*' '/' t with ⟨u, rfl⟩ | ⟨u, rfl⟩ | ⟨ht, ho⟩
  · rw [Reading.termFrom] at h
    obtain ⟨b, v, hb, he⟩ := hfactor (Nat.lt_succ_self _) h
    exact .times hb he
  · rw [Reading.termFrom] at h
    obtain ⟨b, v, hb, he⟩ := hfactor (Nat.lt_succ_of_le (takes_afterSlash u).length_le) h
    exact .divided hb he
  · cases hm : afterMarker? d t with
    | none =>
      rw [termFrom_end _ ht ho hm] at h
      cases h
      exact .termEnd ht ho hm
    | some u =>
      rw [termFrom_marker _ ht ho hm] at h
      obtain ⟨b, v, hb, he⟩ := hfactor (consumes_afterMarker? d hm).2 h
      exact .scaled ht ho hm hb he

theorem factor (hs : Sound d n) (hn : Part.factor.fuel t ≤ n + 1)
    (h : Reading.factor d (n + 1) t = ⟨e, some r⟩) : Reads d .factor t e r := by
  simp only [Part.fuel] at hn
  rcases factor_cases t with ⟨u, rfl⟩ | ⟨ho, base, contents, u, hb⟩ | ⟨u, rfl, hb⟩ | rfl |
    ⟨hne, ho, hm, hb⟩
  · rw [List.length_cons] at hn
    rw [factor_open] at h
    obtain ⟨a, v, ha, he⟩ := andThen_eq_some.1 h
    split at he
    · exact .group (hs (p := .sum) (by simp only [Part.fuel]; omega) ha) he
    · cases he
  · rw [factor_bracket ho hb] at h
    exact .bracketed ho hb h
  · rw [List.length_cons] at hn
    rw [factor_minus hb] at h
    cases hl : signedLiteral? d ('-' :: u) with
    | some x =>
      rw [hl] at h
      exact .signed hb (h ▸ hl)
    | none =>
      rw [hl] at h
      obtain ⟨a, v, ha, he⟩ := andThen_eq_some.1 h
      cases he
      exact .negated hb hl (hs (p := .factor) (by simp only [Part.fuel]; omega) ha)
  · rw [factor_nil] at h
    cases h
  · rw [factor_literal hne ho hm hb] at h
    exact .literal ho hm hb h

end Sound

/-- **What the reader finds with enough fuel, the grammar derives.** -/
theorem reads_of_run (n : Nat) : Sound d n := by
  induction n with
  | zero => exact sound_zero
  | succ n ih =>
    intro p t r e hn h
    cases p with
    | sum => exact ih.sum hn h
    | sumFrom a => exact ih.sumFrom hn h
    | term => exact ih.term hn h
    | termFrom a => exact ih.termFrom hn h
    | factor => exact ih.factor hn h

theorem reads_iff {part : Part} {t r : Text} {e : Expr} {n : Nat} (hn : part.fuel t ≤ n) :
    part.run d n t = ⟨e, some r⟩ ↔ Reads d part t e r :=
  ⟨reads_of_run n hn, fun h => h.run_eq n hn⟩

/-! ## Texts that cannot be read -/

/-- Where reading stopped, the expression has no value. -/
def FailsIfStopped (d : Dialect) (x : Reading) : Prop :=
  x.rest = none → ∃ f, x.expr.eval d = .error f

theorem failsIfStopped_of_some {e : Expr} {t : Text} : FailsIfStopped d ⟨e, some t⟩ :=
  fun h => (nomatch h)

theorem failsIfStopped_stop (f : Failure) : FailsIfStopped d (stop f) := fun _ => ⟨f, rfl⟩

theorem bind_error {α β : Type} {x : Except Failure α} {f : α → Except Failure β}
    (h : ∃ e, x = .error e) : ∃ e, (x >>= f) = .error e := by
  obtain ⟨e, rfl⟩ := h
  exact ⟨e, rfl⟩

theorem eval_halted (a : Expr) (f : Failure) : ∃ g, (Expr.halted a f).eval d = .error g := by
  rw [Expr.eval]
  cases a.eval d with
  | error g => exact ⟨g, rfl⟩
  | ok v => exact ⟨f, rfl⟩

theorem FailsIfStopped.andThen {x : Reading} {wrap : Expr → Expr} {next : Expr → Text → Reading}
    (hx : FailsIfStopped d x)
    (hw : ∀ a, (∃ f, a.eval d = .error f) → ∃ f, (wrap a).eval d = .error f)
    (hn : ∀ a u, x = ⟨a, some u⟩ → FailsIfStopped d (next (wrap a) u)) :
    FailsIfStopped d (x.andThen wrap next) := by
  obtain ⟨a, u⟩ := x
  cases u with
  | none => exact fun _ => hw a (hx rfl)
  | some u => exact hn a u rfl

/-- A later operand without a value leaves the operation without one. -/
theorem second_error {x y : Except Failure Value} {f : Value → Value → Except Failure Value}
    (h : ∃ e, y = .error e) : ∃ e, (do let a ← x; let b ← y; f a b) = .error e := by
  cases x with
  | error g => exact ⟨g, rfl⟩
  | ok v => exact bind_error (x := y) h

theorem failsIfStopped_raised (e : Expr) (wrap : Int → Expr) (t : Text) :
    FailsIfStopped d (raised d e wrap t) := by
  rw [raised]
  split
  · exact failsIfStopped_of_some
  · exact fun _ => eval_halted e _

theorem failsIfStopped_suffixed (e : Expr) (t : Text) : FailsIfStopped d (suffixed d e t) := by
  rw [suffixed]
  refine .andThen ?_ (fun _ h => h) fun a u _ => .andThen ?_ (fun _ h => h) fun b v _ => ?_
  · rw [exponentSuffix]
    split_ifs
    · exact failsIfStopped_raised _ _ _
    · exact failsIfStopped_of_some
  · rw [factorialSuffix.eq_def]
    split <;> exact failsIfStopped_of_some
  · rw [powerSuffix.eq_def]
    split
    · exact failsIfStopped_raised _ _ _
    · exact failsIfStopped_raised _ _ _
    · exact failsIfStopped_of_some

theorem failsIfStopped_literal (t : Text) : FailsIfStopped d (literal d t) := by
  rw [literal]
  split
  · exact failsIfStopped_suffixed _ _
  · exact failsIfStopped_stop _

theorem failsIfStopped_signedLiteral? {t : Text} {x : Reading} (h : signedLiteral? d t = some x) :
    FailsIfStopped d x := by
  rw [signedLiteral?] at h
  split_ifs at h
  · exact Option.some.inj h ▸ failsIfStopped_literal t
  · split at h
    · exact Option.some.inj h ▸ failsIfStopped_suffixed _ _
    · cases h
    · exact Option.some.inj h ▸ failsIfStopped_stop _

theorem failsIfStopped_bracket (base contents t : Text) :
    FailsIfStopped d (bracket d base contents t) := by
  rw [bracket]
  split_ifs
  · exact failsIfStopped_stop _
  · split
    · exact failsIfStopped_suffixed _ _
    · exact failsIfStopped_stop _

theorem simplified_error {a : Expr} (h : ∃ f, a.eval d = .error f) :
    ∃ f, (Expr.simplified a).eval d = .error f :=
  bind_error h

section

variable {n : Nat} (ih : ∀ (p : Part) (t : Text), FailsIfStopped d (p.run d n t))

include ih

theorem failsIfStopped_sumFrom (a : Expr) (t : Text) :
    FailsIfStopped d (Reading.sumFrom d (n + 1) a t) := by
  rcases start_cases '+' '-' t with ⟨u, rfl⟩ | ⟨u, rfl⟩ | ⟨hp, hm⟩
  · rw [Reading.sumFrom]
    exact (ih .term u).andThen (fun _ => second_error) fun b v _ => ih (.sumFrom (.add a b)) v
  · rw [Reading.sumFrom]
    exact (ih .term u).andThen (fun _ => second_error) fun b v _ => ih (.sumFrom (.sub a b)) v
  · rw [sumFrom_end _ hp hm]
    exact failsIfStopped_of_some

theorem failsIfStopped_termFrom (a : Expr) (t : Text) :
    FailsIfStopped d (Reading.termFrom d (n + 1) a t) := by
  rcases start_cases '*' '/' t with ⟨u, rfl⟩ | ⟨u, rfl⟩ | ⟨ht, ho⟩
  · rw [Reading.termFrom]
    exact (ih .factor u).andThen (fun _ h => simplified_error (second_error h)) fun _ v _ =>
      ih (.termFrom _) v
  · rw [Reading.termFrom]
    exact (ih .factor _).andThen (fun _ h => simplified_error (second_error h)) fun _ v _ =>
      ih (.termFrom _) v
  · cases hm : afterMarker? d t with
    | none =>
      rw [termFrom_end _ ht ho hm]
      exact failsIfStopped_of_some
    | some u =>
      rw [termFrom_marker _ ht ho hm]
      exact (ih .factor u).andThen (fun _ h => simplified_error (second_error h)) fun _ v _ =>
        ih (.termFrom _) v

theorem failsIfStopped_factor (t : Text) : FailsIfStopped d (Reading.factor d (n + 1) t) := by
  rcases factor_cases t with ⟨u, rfl⟩ | ⟨ho, base, contents, u, hb⟩ | ⟨u, rfl, hb⟩ | rfl |
    ⟨hne, ho, hm, hb⟩
  · rw [factor_open]
    refine (ih .sum u).andThen (fun _ h => h) fun a v _ => ?_
    split
    · exact failsIfStopped_suffixed _ _
    · exact fun _ => eval_halted _ _
  · rw [factor_bracket ho hb]
    exact failsIfStopped_bracket _ _ _
  · rw [factor_minus hb]
    split
    · rename_i hs
      exact failsIfStopped_signedLiteral? hs
    · exact (ih .factor u).andThen (fun _ => bind_error) fun _ _ _ => failsIfStopped_of_some
  · rw [factor_nil]
    exact failsIfStopped_stop _
  · rw [factor_literal hne ho hm hb]
    exact failsIfStopped_literal _

end

/-- **Where reading stopped, the expression has no value.** -/
theorem failsIfStopped_run (n : Nat) : ∀ (p : Part) (t : Text), FailsIfStopped d (p.run d n t) := by
  induction n with
  | zero =>
    intro p t
    cases p with
    | sum => exact failsIfStopped_stop _
    | term => exact failsIfStopped_stop _
    | factor => exact failsIfStopped_stop _
    | sumFrom a =>
      simp only [Part.run]
      rw [Reading.sumFrom.eq_def]
      exact failsIfStopped_of_some
    | termFrom a => exact failsIfStopped_of_some
  | succ n ih =>
    intro p t
    cases p with
    | sum =>
      simp only [Part.run]
      rw [Reading.sum]
      exact (ih .term t).andThen (fun _ h => h) fun a u _ => ih (.sumFrom a) u
    | term =>
      simp only [Part.run]
      rw [Reading.term]
      exact (ih .factor t).andThen (fun _ h => h) fun a u _ => ih (.termFrom a) u
    | sumFrom a => exact failsIfStopped_sumFrom ih a t
    | termFrom a => exact failsIfStopped_termFrom ih a t
    | factor => exact failsIfStopped_factor ih t

end

/-! ## Values of texts -/

namespace Expr

variable {d : Dialect} {t : Text}

theorem ofPrepared_of_reads {u r : Text} {e : Expr} (h : Reads d .sum u e r) :
    ofPrepared d u = match r with
      | [] => e
      | rest => .halted e (.literal (.trailingToken (String.ofList (d.display rest)))) := by
  have hne : u ≠ [] := List.length_pos_iff.1 (Nat.zero_lt_of_lt (h.leaves.2 trivial))
  have hrun : sum d (3 * u.length + 3) u = ⟨e, some r⟩ := h.run_eq _ (Nat.le_refl _)
  rw [ofPrepared, if_neg fun h0 => hne (List.isEmpty_iff.1 h0), hrun]
  cases r <;> rfl

/-- A text that is read to its end says what was read. -/
theorem read_of_reads {e : Expr} (h : Reads d .sum (d.prepare t) e []) : read d t = e :=
  ofPrepared_of_reads h

/-- A text that is read up to some rest has no value, or says what comes before the rest first. -/
theorem read_of_reads_rest {e : Expr} {c : Char} {r : Text}
    (h : Reads d .sum (d.prepare t) e (c :: r)) :
    read d t = .halted e (.literal (.trailingToken (String.ofList (d.display (c :: r))))) :=
  ofPrepared_of_reads h

/-- A text that is read up to some rest has no value, if what is read has one. -/
theorem valueOf_of_reads_rest {e : Expr} {v : Value} {c : Char} {r : Text}
    (h : Reads d .sum (d.prepare t) e (c :: r)) (hv : e.eval d = .ok v) :
    valueOf d t = .error (.literal (.trailingToken (String.ofList (d.display (c :: r))))) := by
  rw [valueOf, read_of_reads_rest h, eval, hv]
  rfl

/-- A text that begins with something wrong has no value. -/
theorem valueOf_of_factor_stop {f : Failure} (hne : d.prepare t ≠ [])
    (h : ∀ n, factor d (n + 1) (d.prepare t) = stop f) : valueOf d t = .error f := by
  have hsum : sum d (3 * (d.prepare t).length + 3) (d.prepare t) = stop f := by
    rw [sum, term, h]
    rfl
  rw [valueOf, read, ofPrepared, if_neg fun h0 => hne (List.isEmpty_iff.1 h0), hsum]
  rfl

/-- **The texts that have a value** are read to their ends as expressions that have it. -/
theorem valueOf_eq_ok_iff {v : Value} :
    valueOf d t = .ok v ↔ ∃ e, Reads d .sum (d.prepare t) e [] ∧ e.eval d = .ok v := by
  constructor
  · intro h
    rw [valueOf, read, ofPrepared] at h
    split_ifs at h
    · cases h
    · split at h
      · rename_i e hrun
        exact ⟨e, reads_of_run _ (p := .sum) (Nat.le_refl _) hrun, h⟩
      · obtain ⟨f, hf⟩ := eval_halted (d := d) _ _
        rw [hf] at h
        cases h
      · rename_i e hrun
        obtain ⟨f, hf⟩ := failsIfStopped_run (d := d) _ .sum (d.prepare t)
          (congrArg Reading.rest hrun)
        have hf' : e.eval d = .error f := by
          rw [← hf]
          exact congrArg (fun x => x.expr.eval d) hrun.symm
        rw [hf'] at h
        cases h
  · rintro ⟨e, he, hv⟩
    rw [valueOf, read_of_reads he, hv]

end Expr

end RatCalc

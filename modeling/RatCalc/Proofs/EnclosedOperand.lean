import RatCalc.Proofs.EnclosedInterval

/-!
# Operands before a closing parenthesis

* `Keeps`: a reader of expressions takes no bracket, and leaves a closing parenthesis behind the
  text to what follows.
* `keeps_suffixed`: what may follow an operand.
* `bracket?_close`: brackets of a closed text.
* **`keeps_literal`**, `keeps_signedLiteral?`, `signedLiteral?_none_close`: literals with what follows them.
-/

namespace RatCalc

open Text

namespace Reading

/-- A reader of expressions takes no bracket, and a closing parenthesis behind the text is left to
what follows. -/
def Keeps (f : Text → Reading) : Prop :=
  ∀ ⦃t e r⦄, f t = ⟨e, some r⟩ → Takes t r ∧ ∀ w, f (t ++ ')' :: w) = ⟨e, some (r ++ ')' :: w)⟩

theorem andThen_eq_some {x : Reading} {wrap : Expr → Expr} {next : Expr → Text → Reading}
    {e : Expr} {r : Text} :
    x.andThen wrap next = ⟨e, some r⟩ ↔
      ∃ a u, x = ⟨a, some u⟩ ∧ next (wrap a) u = ⟨e, some r⟩ := by
  obtain ⟨a, u⟩ := x
  cases u with
  | none =>
    refine iff_of_false (fun h => (nomatch h)) ?_
    rintro ⟨b, v, h, -⟩
    cases h
  | some u =>
    refine ⟨fun h => ⟨a, u, rfl, h⟩, ?_⟩
    rintro ⟨b, v, h, hn⟩
    cases h
    exact hn

theorem Keeps.andThen {f : Text → Reading} {wrap : Expr → Expr} {next : Expr → Text → Reading}
    (hf : Keeps f) (hn : ∀ e, Keeps (next e)) : Keeps fun t => (f t).andThen wrap next := by
  intro t e r h
  obtain ⟨a, u, ha, hr⟩ := andThen_eq_some.1 h
  obtain ⟨hft, hfc⟩ := hf ha
  obtain ⟨hnt, hnc⟩ := hn _ hr
  exact ⟨hft.trans hnt, fun w => andThen_eq_some.2 ⟨a, u ++ ')' :: w, hfc w, hnc w⟩⟩

/-! ## What follows an operand -/

variable (d : Dialect)

theorem keeps_raised (e : Expr) (wrap : Int → Expr) : Keeps (raised d e wrap) := by
  intro t e' r h
  rw [raised] at h
  split at h
  · rename_i k u hk
    obtain ⟨ht, hc⟩ := d.local_exponent parenthesis_mem_closers hk
    cases h
    exact ⟨ht, fun w => by rw [raised, hc w]⟩
  · cases h

theorem keeps_exponentSuffix (e : Expr) : Keeps (exponentSuffix d e) := by
  intro t e' r h
  rw [exponentSuffix] at h
  split_ifs at h with hf
  · obtain ⟨u, rfl⟩ := d.exists_of_exponentFollows hf
    rw [List.drop_left] at h
    obtain ⟨ht, hc⟩ := keeps_raised d _ _ h
    refine ⟨(d.takes_marker u).trans ht, fun w => ?_⟩
    rw [exponentSuffix, d.exponentFollows_close parenthesis_mem_closers, if_pos hf,
      List.append_assoc, List.drop_left, hc w]
  · cases h
    refine ⟨.refl _, fun w => ?_⟩
    rw [exponentSuffix, d.exponentFollows_close parenthesis_mem_closers, if_neg hf]

theorem keeps_factorialSuffix (e : Expr) : Keeps (factorialSuffix e) := by
  intro t e' r h
  rw [factorialSuffix.eq_def] at h
  split at h
  · cases h
    exact ⟨(Takes.cons (by decide) _).trans (.cons (by decide) _), fun w => rfl⟩
  · rename_i u hno
    cases h
    refine ⟨.cons (by decide) _, fun w => ?_⟩
    rw [List.cons_append, factorialSuffix]
    intro v heq
    obtain ⟨r', hr', -⟩ := exists_of_append_eq_cons (by decide) heq
    exact hno r' (by rw [hr'])
  · rename_i hno
    cases h
    refine ⟨.refl _, fun w => ?_⟩
    rw [factorialSuffix]
    · exact append_ne_cons_cons (by decide) (by decide) (fun u => hno _) w
    · exact append_ne_cons (by decide) (fun u => hno _) w

theorem keeps_powerSuffix (e : Expr) : Keeps (powerSuffix d e) := by
  intro t e' r h
  rw [powerSuffix.eq_def] at h
  split at h
  · rename_i u
    obtain ⟨ht, hc⟩ := keeps_raised d _ _ h
    exact ⟨(Takes.cons (by decide) _).trans ((Takes.cons (by decide) _).trans ht), fun w => hc w⟩
  · obtain ⟨ht, hc⟩ := keeps_raised d _ _ h
    exact ⟨(Takes.cons (by decide) _).trans ht, fun w => hc w⟩
  · rename_i h₁ h₂
    cases h
    refine ⟨.refl _, fun w => ?_⟩
    rw [powerSuffix]
    · exact append_ne_cons_cons (by decide) (by decide) h₁ w
    · exact append_ne_cons (by decide) h₂ w

theorem keeps_suffixed (e : Expr) : Keeps (suffixed d e) :=
  (keeps_exponentSuffix d e).andThen fun e =>
    (keeps_factorialSuffix e).andThen fun e => keeps_powerSuffix d e

/-! ## Brackets -/

/-- The base of a bracket, and what follows it. -/
def bracketBase (t : Text) : Text × Text :=
  match t.dropWhile isDecimal with
  | '.' :: u => (t.takeWhile isDecimal ++ '.' :: u.takeWhile isDecimal, u.dropWhile isDecimal)
  | u => (t.takeWhile isDecimal, u)

/-- The contents of a bracket, and what follows it. -/
def bracketContents? (t : Text) : Option (Text × Text) :=
  match t with
  | '[' :: u =>
    match u.dropWhile (· != ']') with
    | ']' :: after =>
      if (u.takeWhile (· != ']')).isEmpty then none else some (u.takeWhile (· != ']'), after)
    | _ => none
  | _ => none

theorem bracket?_eq (t : Text) :
    Literal.bracket? t = (bracketContents? (bracketBase (minus t).2).2).map fun x =>
      (Expansion.sign (minus t).1 ++ (bracketBase (minus t).2).1, x.1, x.2) := by
  have hstep : ∀ (m u : Text), (match (bracketBase u).2 with
      | '[' :: v =>
        match v.dropWhile (· != ']') with
        | ']' :: after =>
          if (v.takeWhile (· != ']')).isEmpty then none
          else some (m ++ (bracketBase u).1, v.takeWhile (· != ']'), after)
        | _ => none
      | _ => none) =
      (bracketContents? (bracketBase u).2).map fun x => (m ++ (bracketBase u).1, x.1, x.2) := by
    intro m u
    rw [bracketContents?.eq_def]
    split
    · split
      · split_ifs <;> rfl
      · rfl
    · rfl
  rcases minus_cases t with ⟨u, rfl, h⟩ | ⟨hno, h⟩
  · rw [h, ← hstep]
    rfl
  · rw [h, ← hstep, Literal.bracket?]
    · rfl
    · exact hno

theorem takes_bracketBase (t : Text) : Takes t (bracketBase t).2 := by
  have hdrop : Takes t (t.dropWhile isDecimal) := .dropWhile isDecimal_bracket t
  rw [bracketBase]
  split
  · rename_i u hu
    rw [hu] at hdrop
    exact hdrop.trans ((Takes.cons (by decide) u).trans (.dropWhile (by decide) u))
  · exact hdrop

theorem bracketBase_close {z : Char} (hz : z ∈ closers) (t w : Text) :
    bracketBase (t ++ z :: w) = ((bracketBase t).1, (bracketBase t).2 ++ z :: w) := by
  have hc := isDecimal_close hz
  rw [bracketBase, bracketBase, dropWhile_append_cons hc, takeWhile_append_cons hc]
  rcases t.dropWhile isDecimal with _ | ⟨c, v⟩
  · have hne : z ≠ '.' := (ne_of_closer hz (by decide)).symm
    simp [hne]
  · by_cases h : c = '.'
    · subst h
      simp only [List.cons_append, dropWhile_append_cons hc, takeWhile_append_cons hc]
    · simp [h]

theorem closed_append_bracket (u : Text) : Closed (u ++ [']']) := by
  intro a v h
  rcases List.append_eq_append_iff.1 h with ⟨w, -, hw⟩ | ⟨w, -, hw⟩
  · cases w with
    | nil => cases hw
    | cons c w =>
      rw [List.cons_append, List.cons.injEq] at hw
      exact absurd hw.2 (by simp)
  · cases w with
    | nil => cases hw
    | cons c w =>
      rw [List.cons_append, List.cons.injEq] at hw
      rw [hw.2]
      exact List.mem_append_right w (List.mem_singleton.2 rfl)

theorem bracketContents?_append {u : Text} (hu : ']' ∉ u) (w : Text) :
    bracketContents? ('[' :: (u ++ ']' :: w)) = if u.isEmpty then none else some (u, w) := by
  have hp : ∀ c ∈ u, (c != ']') = true := fun c hc => by
    rw [bne_iff_ne]
    rintro rfl
    exact hu hc
  have hends : ∀ c v, ']' :: w = c :: v → (c != ']') = false := fun c v h => by
    rw [← (List.cons.inj h).1]
    rfl
  obtain ⟨htake, hdrop⟩ := span_append hp hends
  rw [bracketContents?, hdrop]
  simp only [htake]

theorem eq_of_bracketContents? {t x r : Text} (h : bracketContents? t = some (x, r)) :
    t = '[' :: (x ++ ']' :: r) := by
  rw [bracketContents?.eq_def] at h
  split at h
  · split at h
    · rename_i after hu
      split_ifs at h
      cases h
      rw [← hu, List.takeWhile_append_dropWhile]
    · cases h
  · cases h

theorem leaves_bracketContents? {t x r : Text} (h : bracketContents? t = some (x, r)) :
    Leaves t r ∧ r.length < t.length := by
  have heq : t = ('[' :: x) ++ [']'] ++ r := by
    rw [eq_of_bracketContents? h]
    simp
  have hlength : r.length < t.length := by
    rw [heq]
    simp only [List.length_append, List.length_cons, List.length_nil]
    omega
  refine ⟨⟨Nat.le_of_lt hlength, fun hr => ?_⟩, hlength⟩
  rw [heq]
  exact (closed_append_bracket _).append hr

theorem bracketContents?_close {t : Text} (ht : Closed t) (w : Text) :
    bracketContents? (t ++ ')' :: w) = Dialect.behind (')' :: w) (bracketContents? t) := by
  rcases t with _ | ⟨c, u⟩
  · rfl
  · by_cases h : c = '['
    · subst h
      obtain ⟨a, b, rfl, ha⟩ := List.eq_append_cons_of_mem (ht [] u rfl)
      rw [List.cons_append, List.append_assoc, List.cons_append, bracketContents?_append ha,
        bracketContents?_append ha]
      split_ifs <;> rfl
    · simp [bracketContents?, h, Dialect.behind]

theorem bracket?_close {t : Text} (ht : Closed t) (w : Text) :
    Literal.bracket? (t ++ ')' :: w) =
      (Literal.bracket? t).map fun x => (x.1, x.2.1, x.2.2 ++ ')' :: w) := by
  have hb : Closed (bracketBase (minus t).2).2 := by
    obtain ⟨u, -, hu⟩ := (takes_minus t).trans (takes_bracketBase _)
    rw [hu] at ht
    exact ht.of_append
  rw [bracket?_eq, bracket?_eq, minus_append_cons (by decide)]
  simp only [bracketBase_close parenthesis_mem_closers]
  rw [bracketContents?_close hb]
  cases bracketContents? (bracketBase (minus t).2).2 <;> rfl

theorem leaves_bracket? {t base contents r : Text}
    (h : Literal.bracket? t = some (base, contents, r)) : Leaves t r ∧ r.length < t.length := by
  rw [bracket?_eq] at h
  obtain ⟨⟨x, u⟩, hx, h⟩ := Option.map_eq_some_iff.1 h
  cases h
  have hbase := ((takes_minus t).trans (takes_bracketBase _)).leaves
  obtain ⟨hleaves, hlength⟩ := leaves_bracketContents? hx
  exact ⟨hbase.trans hleaves, Nat.lt_of_lt_of_le hlength hbase.length_le⟩

theorem keeps_bracket (base contents : Text) : Keeps (bracket d base contents) := by
  intro t e r h
  rw [bracket] at h
  split_ifs at h with hs
  · cases h
  split at h
  · rename_i i hi
    obtain ⟨ht, hc⟩ := keeps_suffixed d _ h
    refine ⟨ht, fun w => ?_⟩
    rw [bracket, if_neg hs, hi]
    exact hc w
  · cases h

/-! ## Literals -/

theorem consumes_literal {t : Text} {e : Expr} {r : Text} (h : literal d t = ⟨e, some r⟩) :
    Consumes t r := by
  rw [literal] at h
  split at h
  · rename_i hi
    exact (d.progressive_interval hi).1.trans_takes (keeps_suffixed d _ h).1
  · cases h

theorem keeps_literal : Keeps (literal d) := by
  intro t e r h
  refine ⟨(consumes_literal d h).takes, fun w => ?_⟩
  rw [literal] at h
  split at h
  · rename_i v b u hi
    rw [literal, (d.progressive_interval hi).2 w]
    exact (keeps_suffixed d _ h).2 w
  · cases h

/-- Whether a digit or a point stands behind the first character. -/
theorem drop_head?_close {p : Char → Bool} (hp : p ')' = false) {c : Char} (t w : Text) :
    ((c :: t ++ ')' :: w).drop 1).head?.any p = ((c :: t).drop 1).head?.any p :=
  any_head?_close hp t w

theorem isNumberStart_close : (d.isDigit ')' || decide (')' = '.')) = false := by
  rw [d.isDigit_close parenthesis_mem_closers]
  rfl

theorem isSome_continuedFraction?_close (t w : Text) :
    (Dialect.continuedFraction? (t ++ ')' :: w)).isSome =
      (Dialect.continuedFraction? t).isSome := by
  rw [Dialect.continuedFraction?_close parenthesis_mem_closers, Dialect.behind, Option.isSome_map]

theorem keeps_signedLiteral? {t : Text} {e : Expr} {r : Text}
    (h : signedLiteral? d ('-' :: t) = some ⟨e, some r⟩) :
    Consumes ('-' :: t) r ∧
      ∀ w, signedLiteral? d ('-' :: t ++ ')' :: w) = some ⟨e, some (r ++ ')' :: w)⟩ := by
  rw [signedLiteral?] at h
  split_ifs at h with h₁ h₂
  · have h := Option.some.inj h
    refine ⟨consumes_literal d h, fun w => ?_⟩
    rw [signedLiteral?, isSome_continuedFraction?_close, if_pos h₁, (keeps_literal d h).2 w]
  · split at h
    · rename_i hi
      have h := Option.some.inj h
      obtain ⟨hit, hic⟩ := d.progressive_interval hi
      obtain ⟨ht, hc⟩ := keeps_suffixed d _ h
      refine ⟨hit.trans_takes ht, fun w => ?_⟩
      rw [signedLiteral?, isSome_continuedFraction?_close, if_neg h₁,
        drop_head?_close (isNumberStart_close d), if_pos h₂, hic w]
      exact congrArg some (hc w)
    · cases h
    · cases h

theorem signedLiteral?_none_close {t : Text} (h : signedLiteral? d ('-' :: t) = none) (w : Text) :
    signedLiteral? d ('-' :: t ++ ')' :: w) = none := by
  rw [signedLiteral?] at h
  split_ifs at h with h₁ h₂
  · split at h
    · cases h
    · rename_i hi
      rw [signedLiteral?, isSome_continuedFraction?_close, if_neg h₁,
        drop_head?_close (isNumberStart_close d), if_pos h₂, (d.progressive_interval hi).2 w]
    · cases h
  · rw [signedLiteral?, isSome_continuedFraction?_close, if_neg h₁,
      drop_head?_close (isNumberStart_close d), if_neg h₂]

/-! ## Operators -/

theorem afterMarker?_close (t w : Text) :
    afterMarker? d (t ++ ')' :: w) = (afterMarker? d t).map (· ++ ')' :: w) := by
  have hm : after? d.marker (t ++ ')' :: w) = (after? d.marker t).map (· ++ ')' :: w) :=
    after?_append_cons (d.close_not_mem_marker parenthesis_mem_closers) t w
  rcases t with _ | ⟨c, t⟩
  · rw [d.after?_marker_nil] at hm
    exact hm
  · rw [List.cons_append, afterMarker?, afterMarker?, ← List.cons_append, hm]
    split_ifs <;> rfl

theorem consumes_afterMarker? {t r : Text} (h : afterMarker? d t = some r) : Consumes t r := by
  rw [afterMarker?.eq_def] at h
  split at h
  · cases h
  · split_ifs at h with hc
    · cases h
      refine .cons ?_ _
      rw [hc]
      decide
    · have heq := eq_append_of_after? h
      refine ⟨heq ▸ d.takes_marker r, ?_⟩
      have := List.length_pos_iff.2 d.marker_ne_nil
      rw [heq, List.length_append]
      omega

theorem afterSlash_close (t w : Text) : afterSlash (t ++ ')' :: w) = afterSlash t ++ ')' :: w := by
  rcases t with _ | ⟨c, t⟩
  · rfl
  · rw [List.cons_append, afterSlash, afterSlash]
    split_ifs <;> rfl

theorem takes_afterSlash (t : Text) : Takes t (afterSlash t) := by
  rw [afterSlash.eq_def]
  split
  · exact .refl []
  · split_ifs with hc
    · refine .cons ?_ _
      rw [hc]
      decide
    · exact .refl _

end Reading

end RatCalc

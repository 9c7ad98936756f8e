import RatCalc.Proofs.Reader

/-!
# Progress of the reader

* `Part.step`: what is done with a part of a text, by readers for the parts that it calls on;
  `run_succ`: the reader with more fuel by the reader with less.
* `Calls`: the calls that the reading of a part makes; `step_congr`: nothing else counts.
* `Progresses`: operands take something of their texts, and what follows is an end of the text;
  `progresses_step`, `progresses_run`: one layer of the reader keeps this, so the reader has it.
* `Calls.fuel_lt`, `Calls.suffix`: a call needs less fuel than its caller, and is further on in the
  text where a loop makes it.
* `Part.read`, `run_eq_read`: fuel never runs out; `eq_read`: the recursion without fuel has one
  solution.
* **`reader_terminates`**: the reader comes to an end, always further on, and a text has a value
  only where it is read to its end.
-/

namespace RatCalc

open Text Reading

/-! ## One layer of the reader -/

/-- What is done with a part of a text, if `f` reads the parts of texts that it calls on. -/
def Part.step (d : Dialect) (f : Part → Text → Reading) : Part → Text → Reading
  | sum, t => (f term t).andThen id fun a u => f (sumFrom a) u
  | sumFrom a, '+' :: t => (f term t).andThen (.add a) fun b u => f (sumFrom b) u
  | sumFrom a, '-' :: t => (f term t).andThen (.sub a) fun b u => f (sumFrom b) u
  | sumFrom a, t => ⟨.simplified a, some t⟩
  | term, t => (f factor t).andThen id fun a u => f (termFrom a) u
  | termFrom a, '*' :: t =>
    (f factor t).andThen (fun b => .simplified (.mul a b)) fun b u => f (termFrom b) u
  | termFrom a, '/' :: t =>
    (f factor (afterSlash t)).andThen (fun b => .simplified (.div a b)) fun b u => f (termFrom b) u
  | termFrom a, t =>
    match afterMarker? d t with
    | some t => (f factor t).andThen (fun b => .simplified (.scaleBy a b)) fun b u => f (termFrom b) u
    | none => ⟨a, some t⟩
  | factor, [] => stop (.literal .unexpectedEnd)
  | factor, '(' :: t =>
    (f sum t).andThen id fun a rest =>
      match rest with
      | ')' :: rest => suffixed d a rest
      | _ => ⟨.halted a (.literal .unclosedParenthesis), none⟩
  | factor, c :: t =>
    match Literal.bracket? (c :: t) with
    | some (base, contents, rest) => bracket d base contents rest
    | none =>
      if c = '-' then
        match signedLiteral? d (c :: t) with
        | some r => r
        | none => (f factor t).andThen .neg fun a rest => ⟨a, some rest⟩
      else literal d (c :: t)

/-- The reader with one more layer of fuel. -/
theorem run_succ {d : Dialect} (n : Nat) (p : Part) (t : Text) :
    p.run d (n + 1) t = p.step d (fun q u => q.run d n u) t := by
  cases p with
  | sum => rw [Part.run, Reading.sum]; rfl
  | term => rw [Part.run, Reading.term]; rfl
  | sumFrom a =>
    rw [Part.run]
    rcases start_cases '+' '-' t with ⟨u, rfl⟩ | ⟨u, rfl⟩ | ⟨hp, hm⟩
    · rw [Reading.sumFrom]; rfl
    · rw [Reading.sumFrom]; rfl
    · rw [sumFrom_end _ hp hm, Part.step]
      · exact hp
      · exact hm
  | termFrom a =>
    rw [Part.run]
    rcases start_cases '*' '/' t with ⟨u, rfl⟩ | ⟨u, rfl⟩ | ⟨ht, ho⟩
    · rw [Reading.termFrom]; rfl
    · rw [Reading.termFrom]; rfl
    · rw [Part.step, Reading.termFrom]
      · rfl
      all_goals assumption
  | factor =>
    cases t with
    | nil => rfl
    | cons c t =>
      rw [Part.run]
      by_cases hc : c = '('
      · subst hc
        rw [Reading.factor]
        rfl
      · rw [Reading.factor, Part.step]
        · rfl
        all_goals exact hc

/-- The calls that the reading of a part of a text makes, if `f` reads the parts: for an operand,
and for the operators after it. Those may come after any expression. -/
inductive Calls (d : Dialect) (f : Part → Text → Reading) : Part → Text → Part → Text → Prop where
  | sum {t} : Calls d f .sum t .term t
  | plus {a t} : Calls d f (.sumFrom a) ('+' :: t) .term t
  | minus {a t} : Calls d f (.sumFrom a) ('-' :: t) .term t
  | term {t} : Calls d f .term t .factor t
  | times {a t} : Calls d f (.termFrom a) ('*' :: t) .factor t
  | divided {a t} : Calls d f (.termFrom a) ('/' :: t) .factor (afterSlash t)
  | scaled {a t u} : afterMarker? d t = some u → Calls d f (.termFrom a) t .factor u
  | group {t} : Calls d f .factor ('(' :: t) .sum t
  | negated {t} : Calls d f .factor ('-' :: t) .factor t
  | terms {p t u r a b} : Calls d f p t .term u → f .term u = ⟨a, some r⟩ →
      Calls d f p t (.sumFrom b) r
  | factors {p t u r a b} : p ≠ .factor → Calls d f p t .factor u → f .factor u = ⟨a, some r⟩ →
      Calls d f p t (.termFrom b) r

section

variable {d : Dialect} {f g : Part → Text → Reading} {p q : Part} {t u r : Text} {e : Expr}
  {n m : Nat}

theorem andThen_congr {x y : Reading} {wrap : Expr → Expr} {next next' : Expr → Text → Reading}
    (h : x = y) (hnext : ∀ a u, y = ⟨a, some u⟩ → next (wrap a) u = next' (wrap a) u) :
    x.andThen wrap next = y.andThen wrap next' := by
  subst h
  obtain ⟨a, u⟩ := x
  cases u with
  | none => rfl
  | some u => exact hnext a u rfl

/-- An operand and the operators after it depend on the calls for them only. -/
theorem operand_congr {wrap : Expr → Expr} (loop : Expr → Part) (hp : g p t = f p t)
    (hloop : ∀ a b u, f p t = ⟨a, some u⟩ → g (loop b) u = f (loop b) u) :
    (g p t).andThen wrap (fun b u => g (loop b) u) =
      (f p t).andThen wrap (fun b u => f (loop b) u) :=
  andThen_congr hp fun a u h => hloop a _ u h

theorem step_congr_sumFrom {a : Expr}
    (h : ∀ q u, Calls d f (.sumFrom a) t q u → g q u = f q u) :
    (Part.sumFrom a).step d g t = (Part.sumFrom a).step d f t := by
  rcases start_cases '+' '-' t with ⟨u, rfl⟩ | ⟨u, rfl⟩ | ⟨hp, hm⟩
  · rw [Part.step, Part.step]
    exact operand_congr .sumFrom (h _ _ .plus) fun _ _ _ hv => h _ _ (.terms .plus hv)
  · rw [Part.step, Part.step]
    exact operand_congr .sumFrom (h _ _ .minus) fun _ _ _ hv => h _ _ (.terms .minus hv)
  · rw [Part.step, Part.step] <;> assumption

theorem step_congr_termFrom {a : Expr}
    (h : ∀ q u, Calls d f (.termFrom a) t q u → g q u = f q u) :
    (Part.termFrom a).step d g t = (Part.termFrom a).step d f t := by
  have hcall : ∀ {u : Text} {wrap : Expr → Expr}, Calls d f (.termFrom a) t .factor u →
      (g .factor u).andThen wrap (fun b v => g (.termFrom b) v) =
        (f .factor u).andThen wrap (fun b v => f (.termFrom b) v) := fun hu =>
    operand_congr .termFrom (h _ _ hu) fun _ _ _ hv => h _ _ (.factors nofun hu hv)
  rcases start_cases '*' '/' t with ⟨u, rfl⟩ | ⟨u, rfl⟩ | ⟨ht, ho⟩
  · rw [Part.step, Part.step]
    exact hcall .times
  · rw [Part.step, Part.step]
    exact hcall .divided
  · rw [Part.step, Part.step] <;> try assumption
    cases hu : afterMarker? d t with
    | none => rfl
    | some u => exact hcall (.scaled hu)

theorem step_congr_factor (h : ∀ q u, Calls d f .factor t q u → g q u = f q u) :
    Part.factor.step d g t = Part.factor.step d f t := by
  cases t with
  | nil => rfl
  | cons c t =>
    by_cases hc : c = '('
    · subst hc
      rw [Part.step, Part.step]
      exact andThen_congr (h _ _ .group) fun _ _ _ => rfl
    · rw [Part.step, Part.step] <;> try exact hc
      cases Literal.bracket? (c :: t) with
      | some x => rfl
      | none =>
        dsimp only
        split_ifs with hm
        · subst hm
          cases signedLiteral? d ('-' :: t) with
          | some x => rfl
          | none => exact andThen_congr (h _ _ .negated) fun _ _ _ => rfl
        · rfl

/-- **What is done with a part of a text depends on its calls only.** -/
theorem step_congr (h : ∀ q u, Calls d f p t q u → g q u = f q u) :
    p.step d g t = p.step d f t := by
  cases p with
  | sum =>
    rw [Part.step, Part.step]
    exact operand_congr .sumFrom (h _ _ .sum) fun _ _ _ hu => h _ _ (.terms .sum hu)
  | term =>
    rw [Part.step, Part.step]
    exact operand_congr .termFrom (h _ _ .term) fun _ _ _ hu => h _ _ (.factors nofun .term hu)
  | sumFrom a => exact step_congr_sumFrom h
  | termFrom a => exact step_congr_termFrom h
  | factor => exact step_congr_factor h

/-! ## Progress -/

/-- What follows a part is an end of its text, and a shorter one where the part is an operand. -/
def Progresses (f : Part → Text → Reading) : Prop :=
  ∀ ⦃p t e r⦄, f p t = ⟨e, some r⟩ → r <:+ t ∧ (p.IsOperand → r.length < t.length)

theorem suffix_of_takes (h : Takes t r) : r <:+ t := by
  obtain ⟨u, -, rfl⟩ := h
  exact List.suffix_append u r

theorem suffix_bracket? {base contents : Text}
    (h : Literal.bracket? t = some (base, contents, r)) : r <:+ t ∧ r.length < t.length := by
  refine ⟨?_, (leaves_bracket? h).2⟩
  rw [bracket?_eq] at h
  obtain ⟨⟨x, u⟩, hx, h⟩ := Option.map_eq_some_iff.1 h
  cases h
  refine List.IsSuffix.trans ?_ (suffix_of_takes ((takes_minus t).trans (takes_bracketBase _)))
  rw [eq_of_bracketContents? hx]
  exact ⟨'[' :: (x ++ [']']), by simp⟩

namespace Progresses

/-- An operand that begins in a text leaves a shorter one, whatever may come after it. -/
theorem operand (hf : Progresses f) (hp : p.IsOperand) {wrap : Expr → Expr}
    {next : Expr → Text → Reading} (hu : u <:+ t)
    (hnext : ∀ a v, next a v = ⟨e, some r⟩ → r <:+ v)
    (h : (f p u).andThen wrap next = ⟨e, some r⟩) : r <:+ t ∧ r.length < t.length := by
  obtain ⟨a, v, ha, he⟩ := andThen_eq_some.1 h
  obtain ⟨hv, hlt⟩ := hf ha
  have hr := hnext _ v he
  exact ⟨(hr.trans hv).trans hu, by have := hlt hp; have := hr.length_le; have := hu.length_le; omega⟩

theorem suffix (hf : Progresses f) (h : f p t = ⟨e, some r⟩) : r <:+ t := (hf h).1

theorem step_sumFrom (hf : Progresses f) {a : Expr}
    (h : (Part.sumFrom a).step d f t = ⟨e, some r⟩) : r <:+ t := by
  rcases start_cases '+' '-' t with ⟨u, rfl⟩ | ⟨u, rfl⟩ | ⟨hp, hm⟩
  · rw [Part.step] at h
    exact (hf.operand (p := .term) trivial (List.suffix_cons _ u) (fun _ _ => hf.suffix) h).1
  · rw [Part.step] at h
    exact (hf.operand (p := .term) trivial (List.suffix_cons _ u) (fun _ _ => hf.suffix) h).1
  · rw [Part.step] at h <;> try assumption
    cases h
    exact List.suffix_rfl

theorem step_termFrom (hf : Progresses f) {a : Expr}
    (h : (Part.termFrom a).step d f t = ⟨e, some r⟩) : r <:+ t := by
  rcases start_cases '*' '/' t with ⟨u, rfl⟩ | ⟨u, rfl⟩ | ⟨ht, ho⟩
  · rw [Part.step] at h
    exact (hf.operand (p := .factor) trivial (List.suffix_cons _ u) (fun _ _ => hf.suffix) h).1
  · have hu : afterSlash u <:+ '/' :: u :=
      (suffix_of_takes (takes_afterSlash u)).trans (List.suffix_cons _ u)
    rw [Part.step] at h
    exact (hf.operand (p := .factor) trivial hu (fun _ _ => hf.suffix) h).1
  · rw [Part.step] at h <;> try assumption
    cases hu : afterMarker? d t with
    | none =>
      rw [hu] at h
      cases h
      exact List.suffix_rfl
    | some u =>
      rw [hu] at h
      have hut : u <:+ t := suffix_of_takes (consumes_afterMarker? d hu).takes
      exact (hf.operand (p := .factor) trivial hut (fun _ _ => hf.suffix) h).1

theorem step_factor (hf : Progresses f) (h : Part.factor.step d f t = ⟨e, some r⟩) :
    r <:+ t ∧ r.length < t.length := by
  cases t with
  | nil => cases h
  | cons c t =>
    by_cases hc : c = '('
    · subst hc
      rw [Part.step] at h
      refine hf.operand (p := .sum) trivial (List.suffix_cons _ t) (fun a v hv => ?_) h
      split at hv
      · exact (suffix_of_takes (keeps_suffixed d _ hv).1).trans (List.suffix_cons _ _)
      · cases hv
    · rw [Part.step] at h <;> try exact hc
      cases hb : Literal.bracket? (c :: t) with
      | some x =>
        rw [hb] at h
        obtain ⟨hu, hlt⟩ := suffix_bracket? hb
        have hr := suffix_of_takes (keeps_bracket d _ _ h).1
        exact ⟨hr.trans hu, Nat.lt_of_le_of_lt hr.length_le hlt⟩
      | none =>
        rw [hb] at h
        dsimp only at h
        split_ifs at h with hm
        · subst hm
          cases hs : signedLiteral? d ('-' :: t) with
          | some x =>
            rw [hs] at h
            have hr := (keeps_signedLiteral? d (hs.trans (congrArg some h))).1
            exact ⟨suffix_of_takes hr.takes, hr.2⟩
          | none =>
            rw [hs] at h
            refine hf.operand (p := .factor) trivial (List.suffix_cons _ t) (fun a v hv => ?_) h
            cases hv
            exact List.suffix_rfl
        · have hr := consumes_literal d h
          exact ⟨suffix_of_takes hr.takes, hr.2⟩

end Progresses

/-- **What is done with a part of a text keeps progress.** -/
theorem progresses_step (hf : Progresses f) : Progresses fun p t => p.step d f t := by
  intro p t e r h
  cases p with
  | sum =>
    have hr := hf.operand (p := .term) trivial List.suffix_rfl (fun _ _ => hf.suffix) h
    exact ⟨hr.1, fun _ => hr.2⟩
  | term =>
    have hr := hf.operand (p := .factor) trivial List.suffix_rfl (fun _ _ => hf.suffix) h
    exact ⟨hr.1, fun _ => hr.2⟩
  | sumFrom a => exact ⟨hf.step_sumFrom h, fun hp => hp.elim⟩
  | termFrom a => exact ⟨hf.step_termFrom h, fun hp => hp.elim⟩
  | factor => exact ⟨(hf.step_factor h).1, fun _ => (hf.step_factor h).2⟩

/-- **The reader progresses**, whatever fuel it has. -/
theorem progresses_run (n : Nat) : Progresses fun p t => p.run d n t := by
  induction n with
  | zero =>
    intro p t e r h
    cases p with
    | sum => cases h
    | term => cases h
    | factor => cases h
    | sumFrom a =>
      simp only [Part.run] at h
      rw [Reading.sumFrom.eq_def] at h
      cases h
      exact ⟨List.suffix_rfl, fun hp => hp.elim⟩
    | termFrom a =>
      cases h
      exact ⟨List.suffix_rfl, fun hp => hp.elim⟩
  | succ n ih =>
    intro p t e r h
    exact progresses_step ih ((run_succ n p t).symm.trans h)

/-! ## Calls -/

namespace Calls

/-- **A call is further on in the text** than its caller, or as far and for an operand. -/
theorem suffix (hf : Progresses f) (h : Calls d f p t q u) :
    u <:+ t ∧ (¬ p.IsOperand → u.length < t.length) := by
  induction h with
  | sum => exact ⟨List.suffix_rfl, fun hp => absurd trivial hp⟩
  | term => exact ⟨List.suffix_rfl, fun hp => absurd trivial hp⟩
  | plus | minus | times | group | negated =>
    exact ⟨List.suffix_cons _ _, fun _ => Nat.lt_succ_self _⟩
  | @divided _ t =>
    have hu := suffix_of_takes (takes_afterSlash t)
    exact ⟨hu.trans (List.suffix_cons _ t), fun _ => Nat.lt_succ_of_le hu.length_le⟩
  | scaled hu =>
    have hu := consumes_afterMarker? d hu
    exact ⟨suffix_of_takes hu.takes, fun _ => hu.2⟩
  | terms _ hr ih =>
    obtain ⟨hr, hlt⟩ := hf hr
    exact ⟨hr.trans ih.1, fun hp => (hlt trivial).trans (ih.2 hp)⟩
  | factors _ _ hr ih =>
    obtain ⟨hr, hlt⟩ := hf hr
    exact ⟨hr.trans ih.1, fun hp => (hlt trivial).trans (ih.2 hp)⟩

/-- **A call needs less fuel than its caller.** -/
theorem fuel_lt (hf : Progresses f) (h : Calls d f p t q u) : q.fuel u < p.fuel t := by
  induction h with
  | sum | term | plus | minus | times | group | negated =>
    simp only [Part.fuel, List.length_cons]
    omega
  | @divided _ t =>
    have := (takes_afterSlash t).length_le
    simp only [Part.fuel, List.length_cons]
    omega
  | scaled hu =>
    have := (consumes_afterMarker? d hu).2
    simp only [Part.fuel]
    omega
  | terms _ hr ih =>
    have := (hf hr).2 trivial
    simp only [Part.fuel] at ih ⊢
    omega
  | factors _ _ hr ih =>
    have := (hf hr).2 trivial
    simp only [Part.fuel] at ih ⊢
    omega

end Calls

/-! ## The recursion without fuel -/

/-- The reader of a part with the fuel that it needs. -/
def Part.read (d : Dialect) (p : Part) (t : Text) : Reading := p.run d (p.fuel t) t

/-- Where no fuel is needed the text is empty, and the operators end with it. -/
theorem run_of_fuel_zero (h : p.fuel t = 0) (n : Nat) : p.run d n t = p.run d 0 t := by
  have ht : t = [] := by
    refine List.eq_nil_of_length_eq_zero ?_
    cases p <;> simp only [Part.fuel] at h <;> omega
  subst ht
  have hno : ∀ (c : Char) (u : Text), [] ≠ c :: u := fun c u => (List.cons_ne_nil c u).symm
  cases p with
  | sum => cases h
  | term => cases h
  | factor => cases h
  | sumFrom a =>
    have hend : ∀ m, sumFrom d m a [] = ⟨.simplified a, some []⟩ := fun m =>
      sumFrom_end m (hno _) (hno _)
    exact (hend n).trans (hend 0).symm
  | termFrom a => exact termFrom_end n (hno _) (hno _) rfl

/-- **Fuel never runs out**: more of it than a part needs changes nothing. -/
theorem run_eq_read (h : p.fuel t ≤ n) : p.run d n t = p.read d t := by
  induction hk : p.fuel t using Nat.strongRecOn generalizing p t n with
  | ind k ih =>
    subst hk
    rw [Part.read]
    cases hm : p.fuel t with
    | zero => exact run_of_fuel_zero hm n
    | succ m =>
      obtain ⟨l, rfl⟩ : ∃ l, n = l + 1 := ⟨n - 1, by omega⟩
      rw [run_succ, run_succ]
      -- a call needs less fuel than there is on both sides
      refine step_congr fun q u hcall => ?_
      have hlt := hcall.fuel_lt (progresses_run m)
      rw [ih _ hlt (by omega) rfl, ih _ hlt (by omega) rfl]

theorem progresses_read : Progresses (Part.read d) := fun p t _ _ h => progresses_run (p.fuel t) h

/-- **The reader is a recursion without fuel.** -/
theorem read_eq_step (p : Part) (t : Text) : p.read d t = p.step d (Part.read d) t := by
  rw [← run_eq_read (Nat.le_succ (p.fuel t)), run_succ]
  refine (step_congr fun q u hcall => ?_).symm
  exact (run_eq_read (Nat.le_of_lt (hcall.fuel_lt (progresses_run _)))).symm

/-- Calls come to an end. -/
theorem wellFounded_calls :
    WellFounded fun y x : Part × Text => Calls d (Part.read d) x.1 x.2 y.1 y.2 :=
  Subrelation.wf (fun h => h.fuel_lt progresses_read)
    (InvImage.wf (fun x : Part × Text => x.1.fuel x.2) Nat.lt_wfRel.wf)

/-- **The recursion without fuel has no other solution.** -/
theorem eq_read (hf : ∀ p t, f p t = p.step d f t) (p : Part) (t : Text) : f p t = p.read d t := by
  suffices h : ∀ x : Part × Text, f x.1 x.2 = x.1.read d x.2 from h (p, t)
  intro x
  induction x using (wellFounded_calls (d := d)).induction with
  | h x ih =>
    rw [hf, read_eq_step]
    exact step_congr fun q u hcall => ih (q, u) hcall

end

/-! ## Progress of the reader -/

/-- **The reader comes to an end and always goes on in the text.** Its fuel never runs out; it is
the only solution of the recursion without fuel, in which no chain of calls is endless. An operand
that is read leaves an end of its text shorter than the text; every call of the loops over terms and
factors, and so every turn of them, begins further on in the text. A text has a value exactly where
it is read to its end as an expression that has it. -/
theorem reader_terminates (d : Dialect) :
    (∀ (p : Part) t n, p.fuel t ≤ n → p.run d n t = p.read d t) ∧
    (∀ f : Part → Text → Reading, (∀ p t, f p t = p.step d f t) ↔ ∀ p t, f p t = p.read d t) ∧
    (WellFounded fun y x : Part × Text => Calls d (Part.read d) x.1 x.2 y.1 y.2) ∧
    (∀ (p : Part) t e r, p.read d t = ⟨e, some r⟩ →
      r <:+ t ∧ (p.IsOperand → r.length < t.length)) ∧
    (∀ p t q u, Calls d (Part.read d) p t q u →
      u <:+ t ∧ (¬ p.IsOperand → u.length < t.length)) ∧
    ∀ t v, Expr.valueOf d t = .ok v ↔
      ∃ e, Part.sum.read d (d.prepare t) = ⟨e, some []⟩ ∧ e.eval d = .ok v := by
  refine ⟨fun p t n => run_eq_read, fun f => ⟨eq_read, fun hf p t => ?_⟩, wellFounded_calls,
    fun p t e r => (progresses_read ·), fun p t q u => Calls.suffix progresses_read, fun t v => ?_⟩
  · obtain rfl : f = Part.read d := funext fun p => funext fun t => hf p t
    exact read_eq_step p t
  · rw [Expr.valueOf_eq_ok_iff]
    exact exists_congr fun e => and_congr_left fun _ => (reads_iff (Nat.le_refl _)).symm

end RatCalc

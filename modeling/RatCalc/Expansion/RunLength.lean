import RatCalc.Numeral

/-!
# Run-length notation

The group `{d~k}` stands for `k` copies of `d`.

* `runs`: a text as runs of equal characters.
* `compress`: writes the runs of at least `threshold` characters as groups.
* `expand`: writes all groups out. A group begins at a brace and takes the shortest body, on one
  line, that a count follows; a brace without such a body stays as it is.
-/

namespace RatCalc.RunLength

open Text

/-- The runs of equal characters, with their lengths. -/
def runs : Text → List (Char × Nat)
  | [] => []
  | c :: rest =>
    match runs rest with
    | [] => [(c, 1)]
    | (d, k) :: more => if c = d then (d, k + 1) :: more else (c, 1) :: (d, k) :: more

/-- A run as it is written. -/
def writeRun (threshold : Nat) (run : Char × Nat) : Text :=
  if threshold ≤ run.2 then
    '\x7b' :: run.1 :: '~' :: (Numeral.ofNat run.2 ++ ['\x7d'])
  else List.replicate run.2 run.1

/-- The text with its long runs written as groups. -/
def compress (threshold : Nat) (t : Text) : Text := (runs t).flatMap (writeRun threshold)

/-- A count and the closing brace at the start of a text, and what follows. -/
def count? (t : Text) : Option (Nat × Text) :=
  match t.dropWhile isDecimal with
  | '\x7d' :: rest =>
    if (t.takeWhile isDecimal).isEmpty then none
    else some (Numeral.value (t.takeWhile isDecimal), rest)
  | _ => none

/-- Body, count and rest of the group whose opening brace stands before the text. -/
def group? : Text → Option (Text × Nat × Text)
  | [] => none
  | c :: rest =>
    if c = '\n' then none
    else
      match rest with
      | '~' :: after =>
        match count? after with
        | some (k, tail) => some ([c], k, tail)
        | none => (group? rest).map fun (body, k, tail) => (c :: body, k, tail)
      | _ => (group? rest).map fun (body, k, tail) => (c :: body, k, tail)

theorem length_of_count? {t tail : Text} {k : Nat} (h : count? t = some (k, tail)) :
    tail.length < t.length := by
  unfold count? at h
  have hle : (t.dropWhile isDecimal).length ≤ t.length := (List.dropWhile_suffix _).length_le
  split at h
  · rename_i rest heq
    split at h
    · simp at h
    · simp only [Option.some.injEq, Prod.mk.injEq] at h
      rw [heq, List.length_cons] at hle
      rw [← h.2]
      omega
  · simp at h

theorem length_of_group? {t body tail : Text} {k : Nat} (h : group? t = some (body, k, tail)) :
    tail.length < t.length := by
  induction t generalizing body k tail with
  | nil => simp [group?] at h
  | cons c rest ih =>
    unfold group? at h
    have step : ∀ {body' : Text} {k' : Nat} {tail' : Text},
        (group? rest).map (fun (b, k, u) => (c :: b, k, u)) = some (body', k', tail') →
          tail'.length < (c :: rest).length := by
      intro body' k' tail' h'
      obtain ⟨⟨b, j, u⟩, hg, he⟩ := Option.map_eq_some_iff.1 h'
      simp only [Prod.mk.injEq] at he
      have := ih hg
      simp only [List.length_cons, ← he.2.2]
      omega
    split at h
    · simp at h
    · split at h
      · split at h
        · rename_i after j u hc
          simp only [Option.some.injEq, Prod.mk.injEq] at h
          have := length_of_count? hc
          simp only [List.length_cons, ← h.2.2]
          omega
        · exact step h
      · exact step h

/-- The text with all groups written out. -/
def expand (t : Text) : Text :=
  match t with
  | [] => []
  | c :: rest =>
    if c = '\x7b' then
      match h : group? rest with
      | some (body, k, tail) =>
        have := length_of_group? h
        (List.replicate k body).flatten ++ expand tail
      | none => c :: expand rest
    else c :: expand rest
termination_by t.length
decreasing_by
  all_goals simp only [List.length_cons]; omega

end RatCalc.RunLength

import Mathlib.Data.List.TakeWhile
import RatCalc.Proofs.ShownDecimal

/-!
# Results as they are shown

* `Numeral.ofInt_eq`: an integer is written with its sign before the digits of its magnitude.
* **`number_of_den_one`**: a whole number is shown alike as an integer and as a rational number.
* `symbols`, `Shows`: texts of digits and of what stands between them.
* **`shows_number`**: every result is such a text, so that no equals sign is in it.
-/

namespace RatCalc

open Text Expansion

theorem Numeral.ofInt_eq (n : Int) : ofInt n = sign (decide (n < 0)) ++ ofNat n.natAbs := by
  cases n with
  | ofNat n => rfl
  | negSucc n =>
    rw [decide_eq_true (Int.negSucc_lt_zero n)]
    rfl

namespace Display

variable {a : Rat} {t u : Text} {c : Char} {limit : Int}

/-! ## Whole numbers -/

theorem head_of_den_one (h : a.den = 1) : Ratio.head a = Numeral.ofInt a.num := by
  rw [Ratio.head, Ratio.wholePart, h, Nat.div_one, Numeral.ofInt_eq]

theorem truncated_of_den_one (n : Int) (digits : Nat) : truncated n 1 digits = Numeral.ofInt n := by
  rw [truncated]
  split_ifs with h
  · rw [h]
    rfl
  · have hdigits : (longDivision (n.natAbs % 1) 1 digits).1 = [] := by
      rw [Nat.mod_one]
      cases digits <;> rfl
    rw [hdigits, Nat.div_one, Numeral.ofInt_eq]
    exact List.append_nil _

theorem cutDecimal_of_no_point (h : '.' ∉ t) (limit : Int) : cutDecimal t limit = t := by
  have hpoint : t.takeWhile (· != '.') = t :=
    List.takeWhile_eq_self_iff.2 fun c hc => bne_iff_ne.2 fun he => h (he ▸ hc)
  rw [cutDecimal, hpoint]
  simp

theorem not_mem_ofInt (n : Int) {s : Char} (hs : isPlainDigit s = false) (hm : s ≠ '-') :
    s ∉ Numeral.ofInt n := by
  rw [Numeral.ofInt_eq, List.mem_append, not_or]
  exact ⟨fun h => hm (Ratio.mem_sign h), not_mem_of_plain (Numeral.all_isPlainDigit_ofNat _) hs⟩

/-- **A whole number is shown alike** as an integer and as a rational number. -/
theorem number_of_den_one (f : Format) (h : a.den = 1) :
    number f (.rational a) = number f (.integer a.num) := by
  have htext : Ratio.text a = Numeral.ofInt a.num := if_pos h
  have hover : '/' ∉ Numeral.ofInt a.num := not_mem_ofInt _ (by decide) (by decide)
  rw [number, number, rational]
  split
  · rw [decimalWithPeriod, expansion, Ratio.repeating_of_den_one h]
    simp only
    rw [cut_of_no_period (Ratio.not_mem_head a (by decide) (by decide)), head_of_den_one h]
    exact List.append_nil _
  · exact htext
  · rw [htext, if_neg (by simpa using hover), Ratio.decimal, h, truncated_of_den_one,
      cutDecimal_of_no_point (not_mem_ofInt _ (by decide) (by decide))]

/-! ## Characters of results -/

/-- The characters of results besides digits. -/
def symbols : Text := "-/.#\x7b~\x7d(): ,>^[]dehgilopruw".toList

/-- A text of digits and symbols. -/
def Shows (t : Text) : Prop := ∀ c ∈ t, isPlainDigit c = true ∨ c ∈ symbols

theorem Shows.append (ht : Shows t) (hu : Shows u) : Shows (t ++ u) :=
  List.forall_mem_append.2 ⟨ht, hu⟩

theorem Shows.cons (hc : c ∈ symbols) (ht : Shows t) : Shows (c :: t) :=
  List.forall_mem_cons.2 ⟨.inr hc, ht⟩

theorem Shows.subset (ht : Shows t) (h : u ⊆ t) : Shows u := fun c hc => ht c (h hc)

theorem shows_of_all (h : t.all (fun c => decide (isPlainDigit c = true ∨ c ∈ symbols)) = true) :
    Shows t := forall_of_all h

theorem shows_of_digits (h : ∀ c ∈ t, isPlainDigit c = true) : Shows t := fun c hc => .inl (h c hc)

theorem shows_ofNat (n : Nat) : Shows (Numeral.ofNat n) :=
  shows_of_digits (Numeral.all_isPlainDigit_ofNat n)

theorem shows_sign (negative : Bool) : Shows (sign negative) := fun c hc => by
  rw [Ratio.mem_sign hc]
  exact .inr (by decide)

theorem shows_ofInt (n : Int) : Shows (Numeral.ofInt n) := by
  rw [Numeral.ofInt_eq]
  exact (shows_sign _).append (shows_ofNat _)

theorem shows_text (a : Rat) : Shows (Ratio.text a) := by
  rw [Ratio.text]
  split_ifs
  · exact shows_ofInt _
  · exact (shows_ofInt _).append (.cons (by decide) (shows_ofNat _))

theorem shows_expansion (f : Format) (a : Rat) : Shows (expansion f a).1 := fun c hc =>
  (Ratio.mem_repeatingDecimal a _ _ _ c hc).imp_right
    (forall_of_all (P := (· ∈ symbols)) (by decide) c)

theorem shows_decimal (a : Rat) (digits : Nat) : Shows (Ratio.decimal a digits) := by
  have hwhole : Shows (sign (decide (a.num < 0)) ++ Numeral.ofNat (a.num.natAbs / a.den)) :=
    (shows_sign _).append (shows_ofNat _)
  obtain ⟨k, -, hk, -⟩ := longDivision_spec (d := a.den) digits (a.num.natAbs % a.den)
  rw [Ratio.decimal, truncated, hk]
  split_ifs
  · exact shows_of_all rfl
  · simp only
    split_ifs
    · exact hwhole.append (shows_of_all rfl)
    · exact hwhole.append
        (.cons (by decide) (shows_of_digits (all_plainDigits (Nat.mod_lt _ a.den_pos) k)))

theorem upTo_subset (k : Int) (t : Text) : upTo k t ⊆ t := by
  rw [upTo]
  split_ifs <;> exact List.take_subset _ _

theorem shows_dots : Shows dots := shows_of_all (by decide)

theorem Shows.cutDecimal (ht : Shows t) (limit : Int) : Shows (cutDecimal t limit) := by
  rw [Display.cutDecimal]
  split_ifs
  · exact (ht.subset (upTo_subset _ t)).append shows_dots
  · exact ht

theorem Shows.cutPeriod (ht : Shows t) (h : cutPeriod t limit = some u) : Shows u := by
  have hbefore : Shows (t.takeWhile (· != '#')) := ht.subset (List.takeWhile_subset _)
  have hperiod : ∀ {v}, Shows v → Shows (t.takeWhile (· != '#') ++ '#' :: v) := fun hv =>
    hbefore.append (.cons (by decide) hv)
  rw [Display.cutPeriod] at h
  split_ifs at h <;> cases h
  · exact (hbefore.subset (upTo_subset _ _)).append shows_dots
  · exact hperiod shows_dots
  · exact hperiod (((ht.subset (List.drop_subset _ _)).subset (upTo_subset _ _)).append shows_dots)

theorem Shows.getD (ht : Shows t) (hu : Shows u) (limit : Int) :
    Shows ((Display.cutPeriod t limit).getD u) := by
  cases h : Display.cutPeriod t limit with
  | none => exact hu
  | some v => exact ht.cutPeriod h

theorem Shows.cutRepeating (ht : Shows t) (limit : Int) : Shows (cutRepeating t limit) := by
  have htake : ∀ k, Shows (t.take k) := fun k => ht.subset (List.take_subset k t)
  rw [Display.cutRepeating]
  split_ifs
  · exact ht
  · exact (htake _).cutDecimal limit
  · cases h : withoutDots? t with
    | none => exact ht.getD ht limit
    | some u =>
      rw [withoutDots?] at h
      split_ifs at h
      cases h
      exact (htake _).getD ((htake _).append shows_dots) limit

theorem Shows.cut (f : Format) (ht : Shows t) : Shows (cut f t) := by
  rw [Display.cut]
  split_ifs
  · exact ht
  · exact ht.cutRepeating _

theorem Shows.cutEndpoint (f : Format) (ht : Shows t) : Shows (cutEndpoint f t) := by
  rw [Display.cutEndpoint]
  split_ifs
  · exact ht.subset (List.take_subset _ t)
  · exact ht.cutRepeating _

theorem shows_periodSuffix (p : Option Nat) : Shows (periodSuffix p) := by
  rw [periodSuffix.eq_def]
  split
  · exact shows_of_all (by decide)
  · exact shows_of_all rfl
  · exact ((shows_of_all (by decide)).append (shows_ofNat _)).append (shows_of_all (by decide))

theorem shows_decimalWithPeriod (f : Format) (a : Rat) : Shows (decimalWithPeriod f a) :=
  ((shows_expansion f a).cut f).append (shows_periodSuffix _)

theorem Shows.withFraction (ht : Shows t) (hu : Shows u) : Shows (withFraction t u) := by
  rw [Display.withFraction, List.append_assoc]
  exact ht.append (.cons (by decide) (.cons (by decide) (hu.append (shows_of_all (by decide)))))

theorem shows_rational (f : Format) (a : Rat) : Shows (rational f a) := by
  rw [rational]
  split
  · exact shows_decimalWithPeriod f a
  · exact shows_text a
  · split_ifs
    · exact (shows_decimalWithPeriod f a).withFraction (shows_text a)
    · exact (shows_decimal a _).cutDecimal _

theorem shows_endpointPeriod (name : String) (hn : Shows name.toList) (p : Option Nat) :
    ∀ t ∈ endpointPeriod name p, Shows t := by
  rw [endpointPeriod.eq_def]
  split
  · exact List.forall_mem_singleton.2 (hn.append (shows_of_all (by decide)))
  · exact fun t ht => nomatch ht
  · exact List.forall_mem_singleton.2
      (hn.append (.cons (by decide) (.cons (by decide) (shows_ofNat _))))

theorem Shows.join {separator : Text} (hs : Shows separator) {l : List Text}
    (h : ∀ t ∈ l, Shows t) : Shows (Text.join separator l) := by
  match l with
  | [] => exact shows_of_all rfl
  | [t] => exact h t List.mem_cons_self
  | t :: u :: rest =>
    obtain ⟨ht, hrest⟩ := List.forall_mem_cons.1 h
    exact (ht.append hs).append (hs.join hrest)

theorem Shows.joinEndpoints (ht : Shows t) (hu : Shows u) (p q : Option Nat) :
    Shows (joinEndpoints (t, p) (u, q)) := by
  have hlow := shows_endpointPeriod "low" (shows_of_all (by decide)) p
  have hhigh := shows_endpointPeriod "high" (shows_of_all (by decide)) q
  have hcomma : Shows [',', ' '] := shows_of_all (by decide)
  have hperiods := hcomma.join (List.forall_mem_append.2 ⟨hlow, hhigh⟩)
  have hboth : Shows (t ++ ':' :: u) := ht.append (.cons (by decide) hu)
  rw [Display.joinEndpoints]
  split_ifs
  · exact hboth.append (shows_of_all rfl)
  · exact hboth.append
      (((shows_of_all (by decide)).append hperiods).append (shows_of_all (by decide)))

theorem shows_interval (f : Format) (i : Interval) : Shows (interval f i) := by
  have hdecimals : Shows (intervalDecimals f i) :=
    ((shows_expansion f i.low).cutEndpoint f).joinEndpoints ((shows_expansion f i.high).cutEndpoint f)
      _ _
  have htext : Shows i.text := (shows_text i.low).append (.cons (by decide) (shows_text i.high))
  rw [interval, intervalWith.eq_def]
  split
  · exact hdecimals
  · exact htext
  · split_ifs
    · exact hdecimals
    · exact hdecimals.withFraction htext

/-- **Every result is a text of digits and symbols.** -/
theorem shows_number (f : Format) (x : Number) : Shows (number f x) := by
  cases x with
  | integer n => exact shows_ofInt n
  | rational a => exact shows_rational f a
  | interval i => exact shows_interval f i

end Display

end RatCalc

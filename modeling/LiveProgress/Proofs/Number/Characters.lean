import LiveProgress.Number.Text
import LiveProgress.Proofs.Number.Order

/-!
# Characters of number text

A finite number is written in digits, with at most a point, the mark of an exponent and signs among
them, and without a sign in front unless it is negative.
-/

namespace LiveProgress.Number

/-- The characters of which the text of a finite number is made. -/
def IsFigure (c : Char) : Prop := c.isDigit = true ∨ c ∈ ['.', 'e', '+', '-']

/-- Whether there are only digits. -/
def AllDigits (l : List Char) : Prop := ∀ c ∈ l, c.isDigit = true

theorem allDigits_toDigits (n : Nat) : AllDigits (Nat.toDigits 10 n) :=
  fun _ h => Nat.isDigit_of_mem_toDigits (by decide) (by decide) h

theorem allDigits_zeros (n : Nat) : AllDigits (List.replicate n '0') := by
  intro c hc
  rw [List.eq_of_mem_replicate hc]
  rfl

theorem AllDigits.append {l l' : List Char} (h : AllDigits l) (h' : AllDigits l') :
    AllDigits (l ++ l') :=
  fun c hc => (List.mem_append.mp hc).elim (h c) (h' c)

theorem AllDigits.subset {l l' : List Char} (h : AllDigits l') (hsub : l ⊆ l') : AllDigits l :=
  fun c hc => h c (hsub hc)

/-- Digits, with a point among them if some of them are behind it. -/
def pointed (whole fraction : List Char) : List Char :=
  if fraction.isEmpty then whole else whole ++ '.' :: fraction

/-- Digits with a point, and digits of an exponent behind a mark. -/
inductive IsDecimalText : List Char → Prop
  | positional {whole fraction : List Char} : AllDigits whole → AllDigits fraction →
      IsDecimalText (pointed whole fraction)
  | scientific {whole fraction exponent : List Char} {sign : Char} : AllDigits whole →
      AllDigits fraction → AllDigits exponent → sign ∈ ['+', '-'] →
      IsDecimalText (pointed whole fraction ++ 'e' :: sign :: exponent)

theorem Decimal.isDecimalText (d : Decimal) : IsDecimalText d.text.toList := by
  unfold Decimal.text
  dsimp only
  have hdigits : AllDigits ((Nat.toDigits 10 d.digits).reverse.dropWhile (· == '0')).reverse := by
    refine (allDigits_toDigits d.digits).subset fun c hc => ?_
    exact List.mem_reverse.mp ((List.dropWhile_suffix _).subset (List.mem_reverse.mp hc))
  generalize ((Nat.toDigits 10 d.digits).reverse.dropWhile (· == '0')).reverse = digits at hdigits
  split
  · generalize ((Nat.toDigits 10 d.digits).length : Int) + d.exponent - 1 = e
    have hexponent := allDigits_toDigits e.natAbs
    have htake := hdigits.subset (List.take_subset 1 digits)
    have hdrop := hdigits.subset (List.drop_subset 1 digits)
    rw [String.toList_append, String.toList_append, Nat.toString_eq_ofList_toDigits,
      String.toList_ofList, String.toList_ofList, List.append_assoc]
    by_cases hneg : e < 0
    · rw [if_pos hneg]
      exact .scientific htake hdrop hexponent (List.mem_cons_of_mem '+' List.mem_cons_self)
    · rw [if_neg hneg]
      exact .scientific htake hdrop hexponent List.mem_cons_self
  · split
    · rw [String.toList_ofList]
      exact .positional (allDigits_zeros 1) ((allDigits_zeros _).append hdigits)
    · rw [String.toList_ofList]
      exact .positional ((hdigits.subset (List.take_subset _ _)).append (allDigits_zeros _))
        (hdigits.subset (List.drop_subset _ _))

theorem isFigure_of_mem_pointed {whole fraction : List Char} (hw : AllDigits whole)
    (hf : AllDigits fraction) {c : Char} (h : c ∈ pointed whole fraction) : IsFigure c := by
  unfold pointed at h
  split at h
  · exact .inl (hw c h)
  · rcases List.mem_append.mp h with h | h
    · exact .inl (hw c h)
    · rcases List.mem_cons.mp h with rfl | h
      · exact .inr (by decide)
      · exact .inl (hf c h)

theorem IsDecimalText.isFigure {l : List Char} (hl : IsDecimalText l) {c : Char} (h : c ∈ l) :
    IsFigure c := by
  cases hl with
  | positional hw hf => exact isFigure_of_mem_pointed hw hf h
  | scientific hw hf he hs =>
    rcases List.mem_append.mp h with h | h
    · exact isFigure_of_mem_pointed hw hf h
    · rcases List.mem_cons.mp h with rfl | h
      · exact .inr (by decide)
      · rcases List.mem_cons.mp h with rfl | h
        · exact .inr (List.mem_cons_of_mem _ (List.mem_cons_of_mem _ hs))
        · exact .inl (he c h)

/-- The characters of a finite number. -/
theorem isFigure_of_mem_text {x : Number} (hfinite : x.isFinite = true) {c : Char}
    (h : c ∈ x.text.toList) : IsFigure c := by
  cases x with
  | undefined => exact absurd hfinite Bool.false_ne_true
  | infinite s => exact absurd hfinite Bool.false_ne_true
  | finite q hr =>
    simp only [text] at h
    split at h
    · rw [List.mem_singleton.mp h]
      exact .inl rfl
    · rw [String.toList_append] at h
      rcases List.mem_append.mp h with hsign | hdecimal
      · split at hsign
        · rw [List.mem_singleton.mp hsign]
          exact .inr (by decide)
        · exact absurd hsign List.not_mem_nil
      · exact (Decimal.isDecimalText _).isFigure hdecimal

/-! ### Signs in front -/

theorem head?_append_ne {c : Char} {l l' : List Char} (h : l.head? ≠ some c)
    (h' : l'.head? ≠ some c) : (l ++ l').head? ≠ some c := by
  cases l with
  | nil => exact h'
  | cons => exact h

theorem AllDigits.head?_ne {l : List Char} (h : AllDigits l) : l.head? ≠ some '-' := by
  intro hhead
  exact absurd (h '-' (List.mem_of_mem_head? hhead)) (by decide)

theorem head?_pointed_ne {whole fraction : List Char} (hw : AllDigits whole) :
    (pointed whole fraction).head? ≠ some '-' := by
  unfold pointed
  split
  · exact hw.head?_ne
  · exact head?_append_ne hw.head?_ne (by simp)

theorem IsDecimalText.head?_ne {l : List Char} (hl : IsDecimalText l) : l.head? ≠ some '-' := by
  cases hl with
  | positional hw _ => exact head?_pointed_ne hw
  | scientific hw _ _ _ => exact head?_append_ne (head?_pointed_ne hw) (by simp)

/-- There is a sign in front of negative numbers alone. -/
theorem head?_text_ne {x : Number} (h : ¬ x < 0) : x.text.toList.head? ≠ some '-' := by
  cases x with
  | undefined => decide
  | infinite s =>
    cases s with
    | false => decide
    | true =>
      rw [zero_eq_finite] at h
      exact absurd (infinite_lt_finite.mpr rfl) h
  | finite q hr =>
    have hq : ¬ q < 0 := fun hlt => h (finite_lt_zero.mpr hlt)
    simp only [text, if_neg hq]
    split
    · decide
    · rw [String.toList_append]
      exact head?_append_ne (by simp) (Decimal.isDecimalText _).head?_ne

end LiveProgress.Number

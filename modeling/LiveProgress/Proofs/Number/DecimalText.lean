import LiveProgress.Number.Reading
import LiveProgress.Proofs.Number.Characters
import LiveProgress.Proofs.Number.Decimal

/-!
# Decimals read off their text

Digits with a point among them are read as the exact value they stand for. So the text of the number
nearest to a short decimal is read as the decimal, although the number is another one.
-/

namespace LiveProgress.Number

variable {d : Decimal}

theorem digitsValue_append_zeros (digits : List Char) (k : Nat) :
    digitsValue (digits ++ List.replicate k '0') = digitsValue digits * 10 ^ k := by
  have hfold : digitsValue (digits ++ List.replicate k '0') =
      Nat.ofDigitChars 10 (digits ++ List.replicate k '0') 0 := rfl
  rw [hfold, Nat.ofDigitChars_append, Nat.ofDigitChars_replicate_zero, Nat.mul_comm]
  rfl

section

variable {whole fraction rest : List Char}

/-- Digits with a point are read up to what is neither. -/
theorem takeDecimal?_pointed (hwhole : AllDigits whole) (hne : whole ≠ [])
    (hfraction : AllDigits fraction) (hdigit : ∀ c ∈ rest.head?, c.isDigit = false)
    (hpoint : rest.head? ≠ some '.') :
    takeDecimal? (pointed whole fraction ++ rest) =
      some ((digitsValue (whole ++ fraction) : Rat) / 10 ^ fraction.length, rest) := by
  have hempty : whole.isEmpty = false := List.isEmpty_eq_false_iff.mpr hne
  cases fraction with
  | nil =>
    have htext : pointed whole [] ++ rest = whole ++ rest := rfl
    simp only [takeDecimal?, htext, Text.takeWhile_append_of_head hwhole hdigit,
      Text.dropWhile_append_of_head hwhole hdigit, hempty, Bool.false_eq_true, if_false]
    split
    · exact absurd rfl hpoint
    · rfl
  | cons c fraction =>
    have htext : pointed whole (c :: fraction) ++ rest =
        whole ++ '.' :: (c :: fraction ++ rest) := by
      simp [pointed]
    have hstop : ∀ d ∈ ('.' :: (c :: fraction ++ rest)).head?, d.isDigit = false := by
      intro d hd
      rw [← Option.some.inj hd]
      rfl
    simp only [takeDecimal?, htext, Text.takeWhile_append_of_head hwhole hstop,
      Text.dropWhile_append_of_head hwhole hstop, Text.takeWhile_append_of_head hfraction hdigit,
      Text.dropWhile_append_of_head hfraction hdigit, hempty]
    rfl

end

/-- How a positive decimal that has places in front of its point is written: with its own digits, or
with zeros up to the point. -/
theorem Decimal.exists_pointed {k : Nat} (hk : k < 21)
    (hplaces : ((Nat.toDigits 10 d.digits).length : Int) + d.exponent = k + 1) :
    ∃ whole fraction, d.text.toList = pointed whole fraction ∧ AllDigits whole ∧
      AllDigits fraction ∧ whole.length = k + 1 ∧
      (fraction = [] ∨ whole.length + fraction.length ≤ (Nat.toDigits 10 d.digits).length) ∧
      (digitsValue (whole ++ fraction) : Rat) / 10 ^ fraction.length = d.toRat := by
  obtain ⟨z, hz⟩ := exists_zeros (Nat.toDigits 10 d.digits)
  have hall := allDigits_toDigits d.digits
  have hvalue : digitsValue (Nat.toDigits 10 d.digits) = d.digits := Nat.ofDigitChars_ten_toDigits
  simp only [Decimal.text, layout, hplaces]
  rw [if_neg (by omega), if_neg (by omega), show ((k : Int) + 1).toNat = k + 1 by omega]
  generalize ((Nat.toDigits 10 d.digits).reverse.dropWhile (· == '0')).reverse = digits at hz ⊢
  have hlength := congrArg List.length hz
  rw [List.length_append, List.length_replicate] at hlength
  have hdigits : AllDigits digits := by
    rw [hz] at hall
    exact hall.subset (List.subset_append_left _ _)
  have hrat : d.toRat = digitsValue digits * 10 ^ ((z : Int) + d.exponent) := by
    rw [hz, digitsValue_append_zeros] at hvalue
    rw [toRat, ← hvalue, ten_zpow_add, zpow_natCast]
    push_cast
    ring
  rcases Nat.lt_or_ge (k + 1) digits.length with hlong | hshort
  · refine ⟨digits.take (k + 1), digits.drop (k + 1), ?_, hdigits.subset (List.take_subset _ _),
      hdigits.subset (List.drop_subset _ _), List.length_take_of_le hlong.le, .inr ?_, ?_⟩
    · rw [String.toList_ofList, Nat.sub_eq_zero_of_le hlong.le, List.replicate_zero, List.append_nil]
      rfl
    · rw [← List.length_append, List.take_append_drop, hlength]
      exact Nat.le_add_right _ _
    · have hexponent : (z : Int) + d.exponent = -((digits.length - (k + 1) : Nat) : Int) := by omega
      rw [List.take_append_drop, List.length_drop, hrat, hexponent, zpow_neg, zpow_natCast,
        div_eq_mul_inv]
  · refine ⟨digits ++ List.replicate (k + 1 - digits.length) '0', [], ?_,
      hdigits.append (allDigits_zeros _), fun _ h => absurd h List.not_mem_nil, ?_, .inl rfl, ?_⟩
    · rw [String.toList_ofList, List.take_of_length_le hshort, List.drop_eq_nil_of_le hshort]
      rfl
    · rw [List.length_append, List.length_replicate]
      omega
    · have hexponent : (z : Int) + d.exponent = ((k + 1 - digits.length : Nat) : Int) := by omega
      rw [List.append_nil, digitsValue_append_zeros, hrat, hexponent, zpow_natCast, List.length_nil,
        pow_zero, div_one]
      push_cast
      rfl

/-- The number nearest to a short decimal is written so that the decimal can be read off its text,
with no more digits and at most a point. -/
theorem Decimal.IsShort.text_rounded {i k : Nat} (h : d.IsShort i) (hk : (i : Int) + d.exponent = k) :
    (∀ rest : List Char, (∀ c ∈ rest.head?, c.isDigit = false) → rest.head? ≠ some '.' →
      takeDecimal? ((ofRat d.toRat).text.toList ++ rest) = some (d.toRat, rest)) ∧
      (k ≤ i → (ofRat d.toRat).text.length ≤ i + 2) := by
  have hbelow := h.below
  have hone := h.one_le_toRat
  have hle : d.toRat ≤ (10 ^ 15 : Nat) := by
    calc d.toRat ≤ 10 ^ (i + d.exponent + 1) := h.bounds.2.le
      _ ≤ 10 ^ ((15 : Nat) : Int) := zpow_le_zpow_right₀ (by norm_num) (by omega)
      _ = (10 ^ 15 : Nat) := by rw [zpow_natCast]; push_cast; rfl
  obtain ⟨hr, hvalue, -⟩ := ofRat_of_abs_le (a := d.toRat)
    (representable_natCast (n := 10 ^ 15) (by decide))
    (by rw [abs_of_nonneg (by linarith)]; exact hle.trans (le_abs_self _))
  have hpos : 0 < rounded d.toRat := h.rounded_pos
  have htext : (ofRat d.toRat).text = (shortest (rounded d.toRat)).text := by
    rw [hvalue, Number.text, if_neg hpos.ne', if_neg hpos.not_gt, Rat.abs_of_nonneg hpos.le,
      String.empty_append]
  obtain ⟨hsame, hexponent⟩ := h.toRat_shortest hvalue
  generalize shortest (rounded d.toRat) = s at *
  have hplaces : ((Nat.toDigits 10 s.digits).length : Int) + s.exponent = k + 1 := by
    rw [length_digits_add_exponent (by rw [hsame]; linarith), hsame,
      floorLog10_eq h.bounds.1 h.bounds.2, hk]
  obtain ⟨whole, fraction, hpointed, hwhole, hfraction, hlength, hcount, hread⟩ :=
    exists_pointed (by omega) hplaces
  rw [htext]
  constructor
  · intro rest hdigit hpoint
    have hne : whole ≠ [] := List.length_pos_iff.mp (by omega)
    rw [hpointed, takeDecimal?_pointed hwhole hne hfraction hdigit hpoint, hread, hsame]
  · intro hki
    rw [← String.length_toList, hpointed, pointed]
    rcases hcount with rfl | hcount
    · simp only [List.isEmpty_nil, if_true, hlength]
      omega
    · split
      · omega
      · simp
        omega

end LiveProgress.Number

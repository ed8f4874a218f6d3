import LiveProgress.Number.Reading
import LiveProgress.Proofs.Number.Whole

/-!
# Integers

An integer is rounded to an integer, unless it is beyond the greatest number. So an integer in
decimal reads as an integer exactly if the number nearest to it is finite, and then as that number.
-/

namespace LiveProgress.Number

/-! ### Rounding -/

/-- An integer is rounded to an integer, if to a finite number at all. -/
theorem isInteger_ofInt (z : Int) : (ofInt z).isInteger = (ofInt z).isFinite := by
  obtain ⟨k, hk⟩ := exists_intCast_rounded z
  have hvalue : ofInt z = ofRat z := rfl
  rcases ofRat_finite_or z with ⟨hr, hfinite⟩ | ⟨_, hinfinite⟩
  · rw [hvalue, hfinite]
    simp [isInteger, isFinite, hk]
  · rw [hvalue, hinfinite]
    rfl

/-- Integers of more than 1024 bits are beyond the greatest number. -/
theorem isFinite_ofInt_of_log2 {z : Int} (h : 1024 ≤ z.natAbs.log2) :
    (ofInt z).isFinite = false := by
  have hz : z.natAbs ≠ 0 := by
    intro hzero
    rw [hzero] at h
    exact absurd h (by decide)
  have hlarge : magnitudeBound ≤ |(z : Rat)| := by
    calc magnitudeBound ≤ 2 ^ (z.natAbs.log2 : Int) := two_zpow_le (by omega)
      _ = ((2 ^ z.natAbs.log2 : Nat) : Rat) := two_zpow_natCast _
      _ ≤ z.natAbs := by exact_mod_cast Nat.log2_self_le hz
      _ = |(z : Rat)| := by rw [Nat.cast_natAbs, Int.cast_abs]
  have hbound : rounded magnitudeBound = magnitudeBound := by
    have hpower := rounded_of_natAbs_lt (m := 1) (e := 1024) (by decide) (by decide)
    rwa [Int.cast_one, one_mul] at hpower
  have hbeyond : magnitudeBound ≤ |rounded z| := by
    rw [abs_rounded, ← hbound]
    exact rounded_mono hlarge
  have hvalue : ofInt z = ofRat z := rfl
  rw [hvalue, ofRat_eq_infinite hbeyond]
  rfl

/-! ### Notation -/

theorem le_log2_of_length_toDigits {n k : Nat} (hk : 0 < k)
    (h : k < (Nat.toDigits 10 n).length) : 3 * k ≤ n.log2 := by
  have hlarge : 10 ^ k ≤ n := by
    apply Nat.le_of_not_lt
    intro hlt
    have hlength := (Nat.length_toDigits_le_iff (by decide) hk).mpr hlt
    omega
  have hpow : 2 ^ (3 * k) ≤ 10 ^ k := by
    rw [Nat.pow_mul]
    exact Nat.pow_le_pow_left (by decide) k
  have hn : n ≠ 0 := Nat.ne_of_gt (Nat.lt_of_lt_of_le (Nat.pow_pos (by decide)) hlarge)
  exact (Nat.le_log2 hn).mpr (Nat.le_trans hpow hlarge)

theorem Sign.natAbs_apply (sign : Sign) (n : Nat) : (sign.apply n).natAbs = n := by
  unfold apply
  split
  · rw [Int.natAbs_neg, Int.natAbs_natCast]
  · exact Int.natAbs_natCast n

/-- Either an integer is what the decimal without a point and an exponent is rounded to, or the
guard finds that it is beyond the greatest number. -/
theorem ofDecimal_zero (sign : Sign) (n : Nat) :
    ofDecimal sign.isNegative n 0 = ofInt (sign.apply n) ∨
      (ofDecimal sign.isNegative n 0).isInteger = false ∧
        (ofInt (sign.apply n)).isFinite = false := by
  have habs := sign.natAbs_apply n
  simp only [ofDecimal, Int.add_zero]
  rcases Nat.eq_zero_or_pos n with hzero | hpos
  · rw [if_pos (Or.inl hzero), Int.natAbs_eq_zero.mp (habs.trans hzero)]
    exact .inl rfl
  · rw [if_neg (by omega)]
    split
    · rename_i hlength
      have hlog := le_log2_of_length_toDigits (n := n) (k := 400) (by decide) (by omega)
      rw [← habs] at hlog
      exact .inr ⟨rfl, isFinite_ofInt_of_log2 (Nat.le_trans (by decide) hlog)⟩
    · left
      rw [Rat.zpow_zero, Rat.mul_one, ofInt, Sign.apply]
      congr 1
      split
      · rw [Rat.intCast_neg, Rat.intCast_natCast]
      · rw [Rat.intCast_natCast]

theorem Numeral.digits_ne_nil (n : Numeral) : n.digits ≠ [] := by
  intro h
  exact Nat.toDigits_ne_nil (List.append_eq_nil_iff.mp h).2

theorem Numeral.isDigit_of_mem {n : Numeral} {c : Char} (h : c ∈ n.digits) : c.isDigit = true := by
  rcases List.mem_append.mp h with hzero | hdigit
  · rw [List.eq_of_mem_replicate hzero]
    rfl
  · exact Nat.isDigit_of_mem_toDigits (by decide) (by decide) hdigit

theorem Numeral.digitsValue_digits (n : Numeral) : digitsValue n.digits = n.value := by
  have hfold : digitsValue n.digits = Nat.ofDigitChars 10 n.digits 0 := rfl
  rw [hfold, digits, Nat.ofDigitChars_append, Nat.ofDigitChars_replicate_zero, Nat.mul_zero,
    Nat.ofDigitChars_ten_toDigits]

/-- The characters from `+` to `9`, among which are those of integers. -/
def IsNear (c : Char) : Prop := 43 ≤ c.toNat ∧ c.toNat ≤ 57

theorem isNear_of_isDigit {c : Char} (h : c.isDigit = true) : IsNear c := by
  simp only [Char.isDigit, Bool.and_eq_true, decide_eq_true_eq, UInt32.le_iff_toNat_le] at h
  exact ⟨Nat.le_trans (by decide) h.1, h.2⟩

theorem isNear_of_mem {sign : Sign} {n : Numeral} {c : Char} (h : c ∈ sign.spelling ++ n.digits) :
    IsNear c := by
  rcases List.mem_append.mp h with hsign | hdigit
  · cases sign with
    | none => exact absurd hsign List.not_mem_nil
    | plus =>
      rw [List.mem_singleton.mp hsign]
      exact ⟨by decide, by decide⟩
    | minus =>
      rw [List.mem_singleton.mp hsign]
      exact ⟨by decide, by decide⟩
  · exact isNear_of_isDigit (Numeral.isDigit_of_mem hdigit)

theorem IsNear.toChar_ofChar {c : Char} (h : IsNear c) : (CodeUnit.ofChar c).toChar = c :=
  CodeUnit.toChar_ofChar (Nat.lt_of_le_of_lt h.2 (by decide))

theorem IsNear.isBlank {c : Char} (h : IsNear c) : isBlank (CodeUnit.ofChar c) = false := by
  have hunit : (CodeUnit.ofChar c).toNat = c.toNat :=
    CodeUnit.toNat_ofChar (Nat.lt_of_le_of_lt h.2 (by decide))
  obtain ⟨hlow, hhigh⟩ := h
  simp [Number.isBlank, hunit]
  omega

theorem IsNear.markedBase? {c : Char} (h : IsNear c) : markedBase? (CodeUnit.ofChar c) = none := by
  unfold Number.markedBase?
  rw [h.toChar_ofChar]
  obtain ⟨_, hhigh⟩ := h
  split
  all_goals first | rfl | exact absurd hhigh (by decide)

theorem dropWhile_isBlank {s : Text} (h : ∀ u ∈ s, isBlank u = false) : s.dropWhile isBlank = s := by
  cases s with
  | nil => rfl
  | cons u s =>
    apply List.dropWhile_cons_of_neg
    rw [h u List.mem_cons_self]
    exact Bool.false_ne_true

/-- Such characters are neither trimmed nor taken for the mark of a base. -/
theorem ofText_eq_signed {s : List Char} (hne : s ≠ []) (h : ∀ c ∈ s, IsNear c) :
    ofText (s.map CodeUnit.ofChar) = (signed? (s.map CodeUnit.ofChar)).getD .undefined := by
  have hblank : ∀ u ∈ s.map CodeUnit.ofChar, isBlank u = false := by
    intro u hu
    obtain ⟨c, hc, rfl⟩ := List.mem_map.mp hu
    exact (h c hc).isBlank
  have htrim : (((s.map CodeUnit.ofChar).dropWhile isBlank).reverse.dropWhile isBlank).reverse =
      s.map CodeUnit.ofChar := by
    rw [dropWhile_isBlank hblank, dropWhile_isBlank, List.reverse_reverse]
    intro u hu
    exact hblank u (List.mem_reverse.mp hu)
  simp only [ofText, htrim]
  match s, hne, h with
  | [c], _, _ => rfl
  | c :: d :: s, _, h =>
    have hmark := (h d (List.mem_cons_of_mem _ List.mem_cons_self)).markedBase?
    simp only [List.map_cons, hmark, ite_self]

theorem isDigit_ofChar {c : Char} (h : c.isDigit = true) : (CodeUnit.ofChar c).isDigit = true := by
  rw [CodeUnit.isDigit, (isNear_of_isDigit h).toChar_ofChar]
  exact h

/-- A run of digits is taken as a whole. -/
theorem takeDigits_append {digits : List Char} {rest : Text}
    (h : ∀ c ∈ digits, c.isDigit = true) (hrest : ∀ u ∈ rest.head?, u.isDigit = false) :
    takeDigits (digits.map CodeUnit.ofChar ++ rest) = (digits, rest) := by
  have hrun : ∀ u ∈ digits.map CodeUnit.ofChar, u.isDigit = true := by
    intro u hu
    obtain ⟨c, hc, rfl⟩ := List.mem_map.mp hu
    exact isDigit_ofChar (h c hc)
  have hchars : (digits.map CodeUnit.ofChar).map CodeUnit.toChar = digits :=
    CodeUnit.map_toChar_ofChar fun c hc =>
      Nat.lt_of_le_of_lt (isNear_of_isDigit (h c hc)).2 (by decide)
  rw [takeDigits, Text.takeWhile_append_of_head hrun hrest, Text.dropWhile_append_of_head hrun hrest,
    hchars]

theorem takeSign_spelling (sign : Sign) (n : Numeral) :
    takeSign ((sign.spelling ++ n.digits).map CodeUnit.ofChar) =
      (sign.isNegative, n.digits.map CodeUnit.ofChar) := by
  cases sign with
  | none =>
    obtain ⟨c, digits, hdigits⟩ := List.exists_cons_of_ne_nil n.digits_ne_nil
    have hdigit : c.isDigit = true := Numeral.isDigit_of_mem (hdigits ▸ List.mem_cons_self)
    have hplus : c ≠ '+' := by
      rintro rfl
      exact absurd hdigit (by decide)
    have hminus : c ≠ '-' := by
      rintro rfl
      exact absurd hdigit (by decide)
    rw [Sign.spelling, List.nil_append, hdigits, List.map_cons, takeSign,
      (isNear_of_isDigit hdigit).toChar_ofChar, if_neg hplus, takeMinus,
      (isNear_of_isDigit hdigit).toChar_ofChar, if_neg hminus]
    rfl
  | plus => rfl
  | minus => rfl

theorem signed?_spelling (sign : Sign) (n : Numeral) :
    signed? ((sign.spelling ++ n.digits).map CodeUnit.ofChar) =
      some (ofDecimal sign.isNegative n.value 0) := by
  have hword : n.digits.map CodeUnit.ofChar ≠ Text.ofString "Infinity" := by
    intro hword
    have hletter : CodeUnit.ofChar 'I' ∈ n.digits.map CodeUnit.ofChar := by
      rw [hword]
      decide
    obtain ⟨c, hc, heq⟩ := List.mem_map.mp hletter
    have hdigit := isDigit_ofChar (Numeral.isDigit_of_mem hc)
    rw [heq] at hdigit
    exact absurd hdigit (by decide)
  have hdigits : takeDigits (n.digits.map CodeUnit.ofChar ++ []) = (n.digits, []) :=
    takeDigits_append (fun _ => Numeral.isDigit_of_mem) nofun
  rw [List.append_nil] at hdigits
  rw [signed?, takeSign_spelling]
  simp only [if_neg hword, wholeDecimal?, hdigits, takeExponent?]
  simp [n.digits_ne_nil, ofParts, n.digitsValue_digits]

/-- An integer in decimal reads as an integer exactly if the number nearest to it is finite, and
then as that number. -/
theorem ofText_integer (sign : Sign) (n : Numeral) :
    let x := ofText ((sign.spelling ++ n.digits).map CodeUnit.ofChar)
    let value := ofInt (sign.apply n.value)
    x.isInteger = value.isFinite ∧ (value.isFinite = true → x = value) := by
  have hne : sign.spelling ++ n.digits ≠ [] := List.append_ne_nil_of_right_ne_nil _ n.digits_ne_nil
  rw [ofText_eq_signed hne fun _ => isNear_of_mem, signed?_spelling]
  simp only [Option.getD_some]
  rcases ofDecimal_zero sign n.value with hsame | ⟨hguarded, hlarge⟩
  · rw [hsame, isInteger_ofInt]
    exact ⟨rfl, fun _ => rfl⟩
  · rw [hguarded, hlarge]
    exact ⟨rfl, nofun⟩

end LiveProgress.Number

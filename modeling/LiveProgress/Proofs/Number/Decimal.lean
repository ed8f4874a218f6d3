import LiveProgress.Proofs.Number.Error
import LiveProgress.Proofs.Number.Whole

/-!
# Short decimals

Two decimals of at most fifteen digits in the same places are not rounded to the same number. So the
fewest digits that read back as the number nearest to such a decimal are those of the decimal.
-/

namespace LiveProgress.Number

variable {q : Rat} {m n count : Nat} {e : Int} {d : Decimal}

/-! ### Decimals that are told apart -/

/-- Rounding moves neither of two decimals by a half of their last digit. -/
theorem le_of_rounded_le (hm : m ≤ 10 ^ 15) (hn : n ≤ 10 ^ 15) (hmone : 1 ≤ m * (10 : Rat) ^ e)
    (hnone : 1 ≤ n * (10 : Rat) ^ e) (h : rounded (n * 10 ^ e) ≤ rounded (m * 10 ^ e)) : n ≤ m := by
  by_contra hless
  have hstep : (m : Rat) + 1 ≤ n := by exact_mod_cast Nat.lt_of_not_le hless
  have hmbound : (m : Rat) ≤ 1000000000000000 := by exact_mod_cast hm
  have hnbound : (n : Rat) ≤ 1000000000000000 := by exact_mod_cast hn
  have hscaled : (n * (1 - unitRoundoff)) * (10 : Rat) ^ e ≤ m * (1 + unitRoundoff) * 10 ^ e := by
    calc (n * (1 - unitRoundoff)) * (10 : Rat) ^ e = n * 10 ^ e * (1 - unitRoundoff) := by ring
      _ ≤ rounded (n * 10 ^ e) := mul_le_rounded (normal_of_one_le hnone)
      _ ≤ rounded (m * 10 ^ e) := h
      _ ≤ m * 10 ^ e * (1 + unitRoundoff) := rounded_le_mul (normal_of_one_le hmone)
      _ = m * (1 + unitRoundoff) * 10 ^ e := by ring
  have hdigits := le_of_mul_le_mul_right hscaled (ten_zpow_pos e)
  norm_num [unitRoundoff] at hdigits
  linarith

theorem eq_of_rounded_eq (hm : m ≤ 10 ^ 15) (hn : n ≤ 10 ^ 15) (hmone : 1 ≤ m * (10 : Rat) ^ e)
    (hnone : 1 ≤ n * (10 : Rat) ^ e) (h : rounded (m * 10 ^ e) = rounded (n * 10 ^ e)) : m = n :=
  le_antisymm (le_of_rounded_le hn hm hnone hmone h.le) (le_of_rounded_le hm hn hmone hnone h.ge)

/-! ### Decimals that are tried -/

theorem Decimal.rounded_of_readsAs (h : d.readsAs q = true) : rounded d.toRat = q := by
  unfold readsAs at h
  rcases ofRat_finite_or d.toRat with ⟨hr, hvalue⟩ | ⟨-, hvalue⟩
  · rw [hvalue] at h
    simpa using h
  · rw [hvalue] at h
    exact absurd h Bool.false_ne_true

theorem Decimal.readsAs_rounded {hr : Representable q} (h : ofRat d.toRat = finite q hr) :
    d.readsAs q = true := by
  rw [readsAs, h]
  exact beq_self_eq_true q

/-- A count of digits takes the places from the first one of the number on. -/
theorem Decimal.digits_of_ofCount? (hq : 0 < q) (hcount : 0 < count)
    (h : Decimal.ofCount? q count = some d) :
    10 ^ (count - 1) ≤ d.digits ∧ d.digits ≤ 10 ^ count := by
  obtain ⟨-, hdigits, -⟩ := of_ofCount?_eq_some h
  have hfloor_ge : ((10 ^ (count - 1) : Nat) : Int) ≤
      (q / 10 ^ (floorLog10 q + 1 - count)).floor :=
    Rat.le_floor_iff.mpr (by exact_mod_cast le_shifted hcount hq)
  have hfloor_lt : (q / 10 ^ (floorLog10 q + 1 - count)).floor < ((10 ^ count : Nat) : Int) :=
    Rat.floor_lt_iff.mpr (by exact_mod_cast shifted_lt hq count)
  generalize 10 ^ (count - 1) = least at hfloor_ge ⊢
  generalize 10 ^ count = greatest at hfloor_lt ⊢
  omega

/-- Where the first digit of a decimal is at least, by its count of digits. -/
theorem Decimal.le_toRat {i : Nat} (hge : 10 ^ i ≤ d.digits) :
    (10 : Rat) ^ (i + d.exponent) ≤ d.toRat := by
  have hlow : (10 : Rat) ^ (i : Int) ≤ d.digits := by
    rw [zpow_natCast]
    exact_mod_cast hge
  rw [ten_zpow_add]
  exact mul_le_mul_of_nonneg_right hlow (ten_zpow_pos d.exponent).le

/-- The powers of ten between which a decimal is, by its count of digits. -/
theorem Decimal.bounds_toRat {i : Nat} (hge : 10 ^ i ≤ d.digits) (hlt : d.digits < 10 ^ (i + 1)) :
    (10 : Rat) ^ (i + d.exponent) ≤ d.toRat ∧ d.toRat < 10 ^ (i + d.exponent + 1) := by
  have hhigh : (d.digits : Rat) < 10 ^ ((i : Int) + 1) := by
    rw [← Nat.cast_succ, zpow_natCast]
    exact_mod_cast hlt
  refine ⟨le_toRat hge, ?_⟩
  rw [show (i : Int) + d.exponent + 1 = (i + 1) + d.exponent by omega, ten_zpow_add]
  exact mul_lt_mul_of_pos_right hhigh (ten_zpow_pos d.exponent)

/-- Where the first digit of a positive decimal is. -/
theorem Decimal.length_digits_add_exponent (h : 0 < d.toRat) :
    ((Nat.toDigits 10 d.digits).length : Int) + d.exponent = floorLog10 d.toRat + 1 := by
  have hne : d.digits ≠ 0 := by
    intro hzero
    rw [toRat, hzero, Nat.cast_zero, zero_mul] at h
    exact lt_irrefl 0 h
  obtain ⟨i, hi⟩ := Nat.exists_eq_succ_of_ne_zero (Nat.length_toDigits_pos (b := 10)).ne'
  obtain ⟨hlow, hhigh⟩ := bounds_toRat (ten_pow_le_of_length hne hi) (lt_ten_pow_of_length hi)
  rw [floorLog10_eq hlow hhigh, hi]
  push_cast
  ring

/-- A power of ten up to 10¹⁵ is a number. -/
theorem rounded_ten_zpow {k : Int} (hnonneg : 0 ≤ k) (hle : k ≤ 15) :
    rounded (10 ^ k) = 10 ^ k := by
  obtain ⟨j, rfl⟩ := Int.eq_ofNat_of_zero_le hnonneg
  have hsmall : 10 ^ j < significandBound :=
    (Nat.pow_le_pow_right (by decide) (by omega : j ≤ 15)).trans_lt (by decide)
  rw [zpow_natCast]
  exact_mod_cast rounded_natCast hsmall

/-- A decimal of at most fifteen digits that is at least one and not beyond 10¹⁵. -/
structure Decimal.IsShort (d : Decimal) (i : Nat) : Prop where
  ge : 10 ^ i ≤ d.digits
  lt : d.digits < 10 ^ (i + 1)
  count_lt : i < 15
  one_le : 0 ≤ i + d.exponent
  below : i + d.exponent < 15

namespace Decimal.IsShort

variable {i : Nat}

theorem bounds (h : d.IsShort i) :
    (10 : Rat) ^ (i + d.exponent) ≤ d.toRat ∧ d.toRat < 10 ^ (i + d.exponent + 1) :=
  bounds_toRat h.ge h.lt

theorem one_le_toRat (h : d.IsShort i) : 1 ≤ d.toRat := by
  calc (1 : Rat) = 10 ^ (0 : Int) := (zpow_zero _).symm
    _ ≤ 10 ^ (i + d.exponent) := ten_zpow_le_iff.mpr h.one_le
    _ ≤ d.toRat := h.bounds.1

theorem rounded_pos (h : d.IsShort i) : 0 < rounded d.toRat := by
  have hone := h.one_le_toRat
  have hle := mul_le_rounded (normal_of_one_le hone)
  norm_num [unitRoundoff] at hle
  linarith

theorem digits_le (h : d.IsShort i) : d.digits ≤ 10 ^ 15 :=
  h.lt.le.trans (Nat.pow_le_pow_right (by decide) h.count_lt)

/-- The number nearest to a short decimal begins in the same place. -/
theorem floorLog10_rounded (h : d.IsShort i) :
    floorLog10 (rounded d.toRat) = i + d.exponent := by
  obtain ⟨hlow, hhigh⟩ := h.bounds
  have hbelow := h.below
  have hone := h.one_le
  apply floorLog10_eq
  · rw [← rounded_ten_zpow hone (by omega)]
    exact rounded_mono hlow
  · have hle : rounded d.toRat ≤ 10 ^ (i + d.exponent + 1) := by
      rw [← rounded_ten_zpow (k := i + d.exponent + 1) (by omega) (by omega)]
      exact rounded_mono hhigh.le
    apply lt_of_le_of_ne hle
    -- the power of ten is another decimal in the same places
    intro hsame
    have hpower : (10 : Rat) ^ (i + d.exponent + 1) = (10 ^ (i + 1) : Nat) * 10 ^ d.exponent := by
      rw [show (i : Int) + d.exponent + 1 = ((i + 1 : Nat) : Int) + d.exponent by push_cast; omega,
        ten_zpow_add, zpow_natCast]
      push_cast
      rfl
    have hcount := h.count_lt
    have hdigits : d.digits = 10 ^ (i + 1) := by
      apply eq_of_rounded_eq h.digits_le (Nat.pow_le_pow_right (by decide) hcount) h.one_le_toRat
      · rw [← hpower]
        exact h.one_le_toRat.trans hhigh.le
      · rw [← hpower, rounded_ten_zpow (by omega) (by omega)]
        exact hsame
    exact absurd h.lt (by omega)

/-- Rounding moves a short decimal by less than one of its last digit. -/
theorem shifted_bounds (h : d.IsShort i) :
    (d.digits : Rat) - 1 < rounded d.toRat / 10 ^ d.exponent ∧
      rounded d.toRat / 10 ^ d.exponent < d.digits + 1 := by
  have hpos := ten_zpow_pos d.exponent
  have hnormal := normal_of_one_le h.one_le_toRat
  have hbound : (d.digits : Rat) ≤ 1000000000000000 := by exact_mod_cast h.digits_le
  have hhalf : (d.digits : Rat) * unitRoundoff < 1 := by
    unfold unitRoundoff
    linarith
  constructor
  · rw [lt_div_iff₀ hpos]
    calc ((d.digits : Rat) - 1) * 10 ^ d.exponent
        < (d.digits * (1 - unitRoundoff)) * 10 ^ d.exponent :=
          mul_lt_mul_of_pos_right (by linarith) hpos
      _ = d.toRat * (1 - unitRoundoff) := by rw [toRat]; ring
      _ ≤ rounded d.toRat := mul_le_rounded hnormal
  · rw [div_lt_iff₀ hpos]
    calc rounded d.toRat ≤ d.toRat * (1 + unitRoundoff) := rounded_le_mul hnormal
      _ = (d.digits * (1 + unitRoundoff)) * 10 ^ d.exponent := by rw [toRat]; ring
      _ < ((d.digits : Rat) + 1) * 10 ^ d.exponent := mul_lt_mul_of_pos_right (by linarith) hpos

/-- With all of its digits the decimal itself is tried. -/
theorem isSome_ofCount? (h : d.IsShort i) {hr : Representable (rounded d.toRat)}
    (hvalue : ofRat d.toRat = finite (rounded d.toRat) hr) :
    (Decimal.ofCount? (rounded d.toRat) (i + 1)).isSome = true := by
  have hexponent : floorLog10 (rounded d.toRat) + 1 - (i + 1 : Nat) = d.exponent := by
    rw [h.floorLog10_rounded]
    omega
  obtain ⟨hlow, hhigh⟩ := h.shifted_bounds
  have hfloor_lt : (rounded d.toRat / 10 ^ d.exponent).floor < d.digits + 1 :=
    Rat.floor_lt_iff.mpr (by exact_mod_cast hhigh)
  have hfloor_ge : (d.digits : Int) - 1 ≤ (rounded d.toRat / 10 ^ d.exponent).floor :=
    Rat.le_floor_iff.mpr (by push_cast; exact hlow.le)
  have hdigits_pos : 0 < d.digits := Nat.lt_of_lt_of_le (Nat.pow_pos (by decide)) h.ge
  have hnear : d = ⟨(rounded d.toRat / 10 ^ d.exponent).floor.toNat, d.exponent⟩ ∨
      d = ⟨(rounded d.toRat / 10 ^ d.exponent).floor.toNat + 1, d.exponent⟩ := by
    rcases (by omega : d.digits = (rounded d.toRat / 10 ^ d.exponent).floor.toNat ∨
      d.digits = (rounded d.toRat / 10 ^ d.exponent).floor.toNat + 1) with hbelow | habove
    · exact .inl (by rw [← hbelow])
    · exact .inr (by rw [← habove])
  apply List.find?_isSome.mpr
  refine ⟨d, ?_, readsAs_rounded hvalue⟩
  simp only [hexponent]
  split
  · simpa using hnear
  · simpa using hnear.symm

/-- The fewest digits that read back as the number nearest to a short decimal are those of the
decimal. -/
theorem toRat_shortest (h : d.IsShort i) {hr : Representable (rounded d.toRat)}
    (hvalue : ofRat d.toRat = finite (rounded d.toRat) hr) :
    (shortest (rounded d.toRat)).toRat = d.toRat ∧
      d.exponent ≤ (shortest (rounded d.toRat)).exponent := by
  have hcount := h.count_lt
  obtain ⟨c, hcpos, hcle, hfound⟩ :=
    exists_ofCount?_shortest (Nat.succ_pos i) (by omega) (h.isSome_ofCount? hvalue)
  obtain ⟨hexponent, -, hread⟩ := of_ofCount?_eq_some hfound
  obtain ⟨hlow, hhigh⟩ := digits_of_ofCount? h.rounded_pos hcpos hfound
  generalize shortest (rounded d.toRat) = s at *
  rw [h.floorLog10_rounded] at hexponent
  obtain ⟨j, hj⟩ := Nat.exists_eq_add_of_le hcle
  -- its digits, filled up with zeros to the places of the decimal
  have hsplit : s.toRat = (s.digits * 10 ^ j : Nat) * 10 ^ d.exponent := by
    have hplaces : s.exponent = j + d.exponent := by omega
    rw [toRat, hplaces, ten_zpow_add, zpow_natCast]
    push_cast
    ring
  have hone : 1 ≤ s.toRat := by
    have hplace := h.one_le
    calc (1 : Rat) = 10 ^ (0 : Int) := (zpow_zero _).symm
      _ ≤ 10 ^ (((c - 1 : Nat) : Int) + s.exponent) := ten_zpow_le_iff.mpr (by omega)
      _ ≤ s.toRat := le_toRat hlow
  have hdigits : s.digits * 10 ^ j = d.digits := by
    apply eq_of_rounded_eq _ h.digits_le _ h.one_le_toRat
    · rw [← hsplit]
      exact rounded_of_readsAs hread
    · calc s.digits * 10 ^ j ≤ 10 ^ c * 10 ^ j := Nat.mul_le_mul_right _ hhigh
        _ = 10 ^ (i + 1) := by rw [← Nat.pow_add, ← hj]
        _ ≤ 10 ^ 15 := Nat.pow_le_pow_right (by decide) hcount
    · rw [← hsplit]
      exact hone
  refine ⟨?_, by omega⟩
  rw [hsplit, hdigits]
  rfl

end Decimal.IsShort

end LiveProgress.Number

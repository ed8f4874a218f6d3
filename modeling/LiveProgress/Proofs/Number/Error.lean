import LiveProgress.Proofs.Number.Order
import Mathlib.Data.Nat.Cast.Order.Field

/-!
# Rounding errors

What is rounded is moved by half of its last place at most, which is a part in 2⁵³ of it unless it
is among the least numbers. That is too little for a quotient of integers of 53 bits to reach the
next integer, so such integers are divided as if nothing was rounded.
-/

namespace LiveProgress.Number

variable {q : Rat} {n d : Nat}

/-- The part of a rational by which rounding moves it at most. -/
def unitRoundoff : Rat := 1 / 9007199254740992

theorem abs_rounded_sub_le (q : Rat) : |rounded q - q| ≤ 2 ^ lastPlace q / 2 := by
  have hplace := two_zpow_pos (lastPlace q)
  have hnear := isNearest_nearestEven (q / 2 ^ lastPlace q)
  have hlow := mul_le_mul_of_nonneg_right hnear.ge hplace.le
  have hhigh := mul_le_mul_of_nonneg_right hnear.le hplace.le
  rw [sub_mul, div_mul_cancel₀ q hplace.ne', ← rounded] at hlow
  rw [add_mul, div_mul_cancel₀ q hplace.ne', ← rounded] at hhigh
  apply abs_le.mpr
  constructor <;> linarith

/-- Only the least numbers are moved by a greater part of them. -/
theorem abs_rounded_sub_le_mul (h : 2 ^ (-1022 : Int) ≤ |q|) :
    |rounded q - q| ≤ unitRoundoff * |q| := by
  have hbits : (2 : Rat) ^ (lastPlace q + 52) ≤ |q| := by
    rcases (isLastPlace_lastPlace q).ge with hleast | hge
    · rw [hleast]
      exact h
    · exact hge
  rw [two_zpow_add] at hbits
  norm_num at hbits
  unfold unitRoundoff
  linarith [abs_rounded_sub_le q]

theorem rounded_le_mul (h : 2 ^ (-1022 : Int) ≤ q) : rounded q ≤ q * (1 + unitRoundoff) := by
  have hpos : 0 < q := (two_zpow_pos _).trans_le h
  have herror := abs_rounded_sub_le_mul (q := q) (by rwa [abs_of_pos hpos])
  rw [abs_of_pos hpos] at herror
  linarith [(abs_le.mp herror).2]

theorem mul_le_rounded (h : 2 ^ (-1022 : Int) ≤ q) : q * (1 - unitRoundoff) ≤ rounded q := by
  have hpos : 0 < q := (two_zpow_pos _).trans_le h
  have herror := abs_rounded_sub_le_mul (q := q) (by rwa [abs_of_pos hpos])
  rw [abs_of_pos hpos] at herror
  linarith [(abs_le.mp herror).1]

theorem normal_of_one_le (h : 1 ≤ q) : 2 ^ (-1022 : Int) ≤ q :=
  (two_zpow_le (b := 0) (by decide)).trans (by rwa [zpow_zero])

theorem rounded_natCast (h : n < significandBound) : rounded n = n :=
  rounded_of_representable (representable_natCast h)

theorem one_le_rounded (h : 1 ≤ q) : 1 ≤ rounded q := by
  have hone : rounded (1 : Nat) = (1 : Nat) := rounded_natCast (by decide)
  rw [Nat.cast_one] at hone
  rw [← hone]
  exact rounded_mono h

/-! ### Division of integers -/

theorem add_one_div_le (n : Nat) (hd : 0 < d) :
    ((n : Rat) + 1) / d ≤ ((n / d + 1 : Nat) : Rat) := by
  have hpos : (0 : Rat) < d := by exact_mod_cast hd
  have hlt : n + 1 ≤ (n / d + 1) * d := by
    have hnext := Nat.lt_div_mul_add (a := n) hd
    rw [Nat.add_mul, Nat.one_mul]
    exact hnext
  rw [div_le_iff₀ hpos]
  exact_mod_cast hlt

/-- The next integer is a part in the dividend away, which is more than rounding moves. -/
theorem rounded_div_lt (hn : n < significandBound) (hd : d < significandBound) (hpos : 0 < d) :
    rounded (n / d) < ((n / d + 1 : Nat) : Rat) := by
  have hdpos : (0 : Rat) < d := by exact_mod_cast hpos
  apply lt_of_lt_of_le _ (add_one_div_le n hpos)
  rcases Nat.eq_zero_or_pos n with rfl | hnpos
  · have hzero : rounded (0 : Nat) = (0 : Nat) := rounded_natCast hn
    rw [Nat.cast_zero] at hzero
    rw [Nat.cast_zero, zero_div, hzero, zero_add]
    exact one_div_pos.mpr hdpos
  · have hdle : (d : Rat) ≤ 2 ^ (53 : Int) := by
      rw [← significandBound_cast]
      exact_mod_cast hd.le
    have hnone : (1 : Rat) ≤ n := by exact_mod_cast hnpos
    have hnormal : (2 : Rat) ^ (-1022 : Int) ≤ n / d := by
      rw [le_div_iff₀ hdpos]
      calc (2 : Rat) ^ (-1022 : Int) * d ≤ 2 ^ (-1022 : Int) * 2 ^ (53 : Int) :=
            mul_le_mul_of_nonneg_left hdle (two_zpow_pos _).le
        _ = 2 ^ (-969 : Int) := (two_zpow_add _ _).symm
        _ ≤ 2 ^ (0 : Int) := two_zpow_le (by decide)
        _ ≤ n := by rwa [zpow_zero]
    have hsmall : (n : Rat) * unitRoundoff < 1 := by
      have hcast : (n : Rat) < 9007199254740992 := by exact_mod_cast hn
      unfold unitRoundoff
      linarith
    calc rounded (n / d) ≤ n / d * (1 + unitRoundoff) := rounded_le_mul hnormal
      _ = (n + n * unitRoundoff) / d := by ring
      _ < (n + 1) / d := div_lt_div_of_pos_right (by linarith) hdpos

theorem floor_rounded_div (hn : n < significandBound) (hd : d < significandBound) (hpos : 0 < d) :
    (rounded (n / d)).floor = (n / d : Nat) := by
  have hquotient : n / d < significandBound := (Nat.div_le_self n d).trans_lt hn
  have hge : ((n / d : Nat) : Rat) ≤ rounded (n / d) := by
    rw [← rounded_natCast hquotient]
    exact rounded_mono (Nat.cast_div_le)
  apply le_antisymm
  · apply Int.lt_add_one_iff.mp
    apply Rat.floor_lt_iff.mpr
    exact_mod_cast rounded_div_lt hn hd hpos
  · exact Rat.le_floor_iff.mpr (by exact_mod_cast hge)

theorem floor_ofNat_div_ofNat (hn : n < significandBound) (hd : d < significandBound)
    (hpos : 0 < d) : (ofNat n / ofNat d).floor = ofNat (n / d) := by
  have hdone : (1 : Rat) ≤ d := by exact_mod_cast hpos
  have hle : |(n : Rat) / d| ≤ |(n : Rat)| := by
    rw [abs_div, Nat.abs_cast, Nat.abs_cast]
    exact div_le_self (Nat.cast_nonneg n) hdone
  obtain ⟨hr, hvalue, -⟩ := ofRat_of_abs_le (representable_natCast hn) hle
  calc (ofNat n / ofNat d).floor = (ofRat (n / d)).floor := by
        rw [ofNat_eq_finite hn, ofNat_eq_finite hd, finite_div_finite (by linarith)]
    _ = ofRat (rounded (n / d)).floor := by rw [hvalue]; rfl
    _ = ofNat (n / d) := by rw [floor_rounded_div hn hd hpos, Int.cast_natCast]; rfl

theorem truncated_natCast_div (n : Nat) (hpos : 0 < d) : truncated (n / d) = (n / d : Nat) := by
  have hnonneg : (0 : Rat) ≤ n / d := div_nonneg (Nat.cast_nonneg n) (Nat.cast_nonneg d)
  rw [truncated, if_neg hnonneg.not_gt]
  apply le_antisymm
  · apply Int.lt_add_one_iff.mp
    apply Rat.floor_lt_iff.mpr
    have hnext := add_one_div_le n hpos
    have hdpos : (0 : Rat) < d := by exact_mod_cast hpos
    have hless : (n : Rat) / d < (n + 1) / d := div_lt_div_of_pos_right (by linarith) hdpos
    exact_mod_cast hless.trans_le hnext
  · exact Rat.le_floor_iff.mpr (by exact_mod_cast Nat.cast_div_le)

theorem ofNat_rem_ofNat (hn : n < significandBound) (hd : d < significandBound) (hpos : 0 < d) :
    ofNat n % ofNat d = ofNat (n % d) := by
  have hdne : (d : Rat) ≠ 0 := by exact_mod_cast hpos.ne'
  have hrest : (n : Rat) - d * ((n / d : Nat) : Int) = (n % d : Nat) := by
    have hsplit : (d : Rat) * (n / d : Nat) + (n % d : Nat) = n := by
      exact_mod_cast Nat.div_add_mod n d
    rw [Int.cast_natCast]
    linarith
  rw [ofNat_eq_finite hn, ofNat_eq_finite hd, finite_rem_finite hdne, truncated_natCast_div n hpos,
    hrest]
  rfl

end LiveProgress.Number

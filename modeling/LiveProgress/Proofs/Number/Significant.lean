import LiveProgress.Number.Text
import LiveProgress.Proofs.Number.Order

/-!
# Significant digits

The decimal exponent of a number, and how far rounding to a count of decimal digits goes: not
beyond the next power of ten.
-/

namespace LiveProgress.Number

variable {a b q : Rat} {k : Int} {count : Nat}

theorem ten_zpow_pos (k : Int) : (0 : Rat) < 10 ^ k := zpow_pos (by norm_num) k

theorem ten_zpow_add (k l : Int) : (10 : Rat) ^ (k + l) = 10 ^ k * 10 ^ l :=
  zpow_add₀ (by norm_num) k l

theorem ten_zpow_lt_iff {k l : Int} : (10 : Rat) ^ k < 10 ^ l ↔ k < l :=
  zpow_lt_zpow_iff_right₀ (by norm_num)

theorem ten_zpow_le_iff {k l : Int} : (10 : Rat) ^ k ≤ 10 ^ l ↔ k ≤ l :=
  zpow_le_zpow_iff_right₀ (by norm_num)

theorem ten_pow_le_of_length {n i : Nat} (hn : n ≠ 0)
    (h : (Nat.toDigits 10 n).length = i + 1) : 10 ^ i ≤ n := by
  by_contra hlt
  rcases Nat.eq_zero_or_pos i with rfl | hi
  · omega
  · have := (Nat.length_toDigits_le_iff (by decide) hi).mpr (Nat.lt_of_not_le hlt)
    omega

theorem lt_ten_pow_of_length {n i : Nat} (h : (Nat.toDigits 10 n).length = i + 1) :
    n < 10 ^ (i + 1) :=
  (Nat.length_toDigits_le_iff (by decide) (Nat.succ_pos i)).mp h.le

theorem floorLog10_spec (h : 0 < q) :
    (10 : Rat) ^ floorLog10 q ≤ q ∧ q < 10 ^ (floorLog10 q + 1) := by
  have hcount (n : Nat) : ∃ i, (Nat.toDigits 10 n).length = i + 1 :=
    Nat.exists_eq_succ_of_ne_zero Nat.length_toDigits_pos.ne'
  obtain ⟨i, hi⟩ := hcount q.num.natAbs
  obtain ⟨j, hj⟩ := hcount q.den
  have hge {n i : Nat} (hn : n ≠ 0) (h : (Nat.toDigits 10 n).length = i + 1) :
      (10 : Rat) ^ (i : Int) ≤ n := by
    rw [zpow_natCast]
    exact_mod_cast ten_pow_le_of_length hn h
  have hlt {n i : Nat} (h : (Nat.toDigits 10 n).length = i + 1) :
      (n : Rat) < 10 ^ ((i : Int) + 1) := by
    rw [← Nat.cast_succ, zpow_natCast]
    exact_mod_cast lt_ten_pow_of_length h
  have hnum : q.num.natAbs ≠ 0 := Int.natAbs_ne_zero.mpr (Rat.num_pos.mpr h).ne'
  have hexponent : ((Nat.toDigits 10 q.num.natAbs).length : Int) - (Nat.toDigits 10 q.den).length =
      i - j := by omega
  simp only [floorLog10, hexponent]
  exact exponent_spec (by norm_num) h (hge hnum hi) (hlt hi) (hge q.den_nz hj) (hlt hj)

theorem floorLog10_eq (hle : (10 : Rat) ^ k ≤ q) (hlt : q < 10 ^ (k + 1)) : floorLog10 q = k := by
  obtain ⟨hle', hlt'⟩ := floorLog10_spec ((ten_zpow_pos k).trans_le hle)
  have := ten_zpow_lt_iff.mp (hle.trans_lt hlt')
  have := ten_zpow_lt_iff.mp (hle'.trans_lt hlt)
  omega

theorem floorLog10_mono (h : 0 < a) (hab : a ≤ b) : floorLog10 a ≤ floorLog10 b := by
  have hge := (floorLog10_spec h).1
  have hlt := (floorLog10_spec (h.trans_le hab)).2
  have := ten_zpow_lt_iff.mp ((hge.trans hab).trans_lt hlt)
  omega

/-- With the point behind `count` digits, a positive rational is below the next power of ten. -/
theorem shifted_lt (h : 0 < q) (count : Nat) :
    q / 10 ^ (floorLog10 q + 1 - count) < ((10 ^ count : Nat) : Rat) := by
  rw [div_lt_iff₀ (ten_zpow_pos _), Nat.cast_pow, Nat.cast_ofNat, ← zpow_natCast, ← ten_zpow_add]
  exact (floorLog10_spec h).2.trans_le (ten_zpow_le_iff.mpr (by omega))

theorem le_shifted (hcount : 0 < count) (h : 0 < q) :
    ((10 ^ (count - 1) : Nat) : Rat) ≤ q / 10 ^ (floorLog10 q + 1 - count) := by
  rw [le_div_iff₀ (ten_zpow_pos _), Nat.cast_pow, Nat.cast_ofNat, ← zpow_natCast, ← ten_zpow_add]
  exact (ten_zpow_le_iff.mpr (by omega)).trans (floorLog10_spec h).1

/-! ### Rounding to digits -/

/-- Below a half an integer is not passed over. -/
theorem floor_add_half_le {t : Rat} {n : Int} (h : t < n + 1 / 2) :
    ((t + 1 / 2).floor : Rat) ≤ n := by
  have hfloor : (t + 1 / 2).floor < n + 1 := by
    apply Rat.floor_lt_iff.mpr
    push_cast
    linarith
  exact_mod_cast Int.lt_add_one_iff.mp hfloor

theorem add_one_le_floor_add_half {t : Rat} {n : Int} (h : n + 1 / 2 ≤ t) :
    (n + 1 : Rat) ≤ ((t + 1 / 2).floor : Rat) := by
  have hfloor : n + 1 ≤ (t + 1 / 2).floor := by
    apply Rat.le_floor_iff.mpr
    push_cast
    linarith
  exact_mod_cast hfloor

/-- A positive rational rounded to `count` decimal digits. -/
def significant (count : Nat) (q : Rat) : Rat :=
  (q / 10 ^ (floorLog10 q + 1 - count) + 1 / 2).floor * 10 ^ (floorLog10 q + 1 - count)

theorem floor_significant_nonneg (h : 0 ≤ q) (count : Nat) :
    0 ≤ (q / 10 ^ (floorLog10 q + 1 - count) + 1 / 2).floor := by
  have hquotient := div_nonneg h (ten_zpow_pos (floorLog10 q + 1 - count)).le
  exact Rat.le_floor_iff.mpr (by push_cast; linarith)

theorem significant_nonneg (h : 0 ≤ q) (count : Nat) : 0 ≤ significant count q :=
  mul_nonneg (by exact_mod_cast floor_significant_nonneg h count) (ten_zpow_pos _).le

theorem floor_significant_le (h : 0 < q) (count : Nat) :
    (q / 10 ^ (floorLog10 q + 1 - count) + 1 / 2).floor ≤ ((10 ^ count : Nat) : Int) := by
  have hlt := shifted_lt h count
  have hdigits := floor_add_half_le (n := (10 ^ count : Nat))
    (by rw [Int.cast_natCast]; linarith : q / 10 ^ (floorLog10 q + 1 - count) < _)
  exact_mod_cast hdigits

theorem le_floor_significant (hcount : 0 < count) (h : 0 < q) :
    ((10 ^ (count - 1) : Nat) : Int) ≤ (q / 10 ^ (floorLog10 q + 1 - count) + 1 / 2).floor := by
  apply Rat.le_floor_iff.mpr
  rw [Int.cast_natCast]
  linarith [le_shifted hcount h]

/-- Rounding to decimal digits does not pass over a power of ten. -/
theorem significant_le (count : Nat) (h : 0 < q) (hlt : q < 10 ^ k) : significant count q ≤ 10 ^ k := by
  have hexponent : floorLog10 q < k := ten_zpow_lt_iff.mp ((floorLog10_spec h).1.trans_lt hlt)
  have hdigits : ((q / 10 ^ (floorLog10 q + 1 - count) + 1 / 2).floor : Rat) ≤ 10 ^ count := by
    exact_mod_cast floor_significant_le h count
  calc significant count q ≤ 10 ^ count * 10 ^ (floorLog10 q + 1 - count) :=
        mul_le_mul_of_nonneg_right hdigits (ten_zpow_pos _).le
    _ = 10 ^ (floorLog10 q + 1) := by
        rw [← zpow_natCast, ← ten_zpow_add]
        congr 1
        omega
    _ ≤ 10 ^ k := ten_zpow_le_iff.mpr hexponent

theorem le_significant (hcount : 0 < count) (h : 0 < q) :
    10 ^ floorLog10 q ≤ significant count q := by
  have hdigits : ((10 ^ (count - 1) : Nat) : Rat) ≤
      (q / 10 ^ (floorLog10 q + 1 - count) + 1 / 2).floor := by
    exact_mod_cast le_floor_significant hcount h
  rw [Nat.cast_pow, Nat.cast_ofNat, ← zpow_natCast] at hdigits
  calc (10 : Rat) ^ floorLog10 q
      = 10 ^ ((count - 1 : Nat) : Int) * 10 ^ (floorLog10 q + 1 - count) := by
        rw [← ten_zpow_add]
        congr 1
        omega
    _ ≤ significant count q := mul_le_mul_of_nonneg_right hdigits (ten_zpow_pos _).le

theorem significant_mono (hcount : 0 < count) (h : 0 < a) (hab : a ≤ b) :
    significant count a ≤ significant count b := by
  rcases (floorLog10_mono h hab).eq_or_lt with hsame | hless
  · rw [significant, significant, hsame]
    apply mul_le_mul_of_nonneg_right _ (ten_zpow_pos _).le
    have hdigits : (a / 10 ^ (floorLog10 b + 1 - count) + 1 / 2).floor ≤
        (b / 10 ^ (floorLog10 b + 1 - count) + 1 / 2).floor := by
      apply Rat.floor_monotone
      linarith [div_le_div_of_nonneg_right hab (ten_zpow_pos (floorLog10 b + 1 - count)).le]
    exact_mod_cast hdigits
  · -- a power of ten is between them
    calc significant count a ≤ 10 ^ (floorLog10 a + 1) :=
          significant_le count h (floorLog10_spec h).2
      _ ≤ 10 ^ floorLog10 b := ten_zpow_le_iff.mpr hless
      _ ≤ significant count b := le_significant hcount (h.trans_le hab)

theorem significant_zero (count : Nat) : significant count 0 = 0 := by
  have hhalf : ((1 : Rat) / 2).floor = 0 := by decide +kernel
  rw [significant, zero_div, zero_add, hhalf, Int.cast_zero, zero_mul]

/-- Half of the last digit is the most that rounding to digits adds or takes away. -/
theorem abs_significant_sub_le (h : 0 < q) (count : Nat) :
    |significant count q - q| ≤ 10 ^ (1 - count : Int) / 2 * q := by
  have hplace : (10 : Rat) ^ (floorLog10 q + 1 - count) ≤ 10 ^ (1 - count : Int) * q := by
    rw [show floorLog10 q + 1 - (count : Int) = (1 - count) + floorLog10 q by omega, ten_zpow_add]
    exact mul_le_mul_of_nonneg_left (floorLog10_spec h).1 (ten_zpow_pos _).le
  rw [significant]
  generalize floorLog10 q + 1 - (count : Int) = e at hplace ⊢
  have hpos := ten_zpow_pos e
  have hfloor_le : ((q / 10 ^ e + 1 / 2).floor : Rat) ≤ q / 10 ^ e + 1 / 2 := Rat.floor_le _
  have hfloor_gt : q / 10 ^ e + 1 / 2 - 1 < ((q / 10 ^ e + 1 / 2).floor : Rat) := Rat.lt_floor
  have hhigh := mul_le_mul_of_nonneg_right hfloor_le hpos.le
  have hlow := mul_le_mul_of_nonneg_right hfloor_gt.le hpos.le
  have hquotient : q / 10 ^ e * 10 ^ e = q := div_mul_cancel₀ q hpos.ne'
  rw [add_mul, hquotient] at hhigh
  rw [sub_mul, add_mul, hquotient] at hlow
  apply abs_le.mpr
  constructor <;> linarith

/-- What is rounded to digits is a decimal of that many digits. -/
theorem exists_decimal_significant (hcount : 0 < count) (h : 0 < q) :
    ∃ d : Decimal, d.toRat = significant count q ∧ 10 ^ (count - 1) ≤ d.digits ∧
      d.digits < 10 ^ count := by
  have hlow := le_floor_significant hcount h
  have hhigh := floor_significant_le h count
  rw [significant]
  generalize floorLog10 q + 1 - (count : Int) = e at hlow hhigh ⊢
  obtain ⟨n, hn⟩ := Int.eq_ofNat_of_zero_le ((Int.natCast_nonneg _).trans hlow)
  rw [hn] at hlow hhigh ⊢
  rw [Int.cast_natCast]
  have hlow : 10 ^ (count - 1) ≤ n := by exact_mod_cast hlow
  have hhigh : n ≤ 10 ^ count := by exact_mod_cast hhigh
  rcases hhigh.eq_or_lt with hcarry | hless
  · -- one digit more, which is a zero
    obtain ⟨i, rfl⟩ := Nat.exists_eq_add_of_lt hcount
    refine ⟨⟨10 ^ i, e + 1⟩, ?_, ?_, ?_⟩
    · rw [Decimal.toRat, hcarry, ten_zpow_add]
      push_cast
      ring
    · exact Nat.pow_le_pow_right (by decide) (by omega)
    · exact Nat.pow_lt_pow_right (by decide) (by omega)
  · exact ⟨⟨n, e⟩, rfl, hlow, hless⟩

theorem roundSignificant_of_pos {hr : Representable q} (count : Nat) (h : 0 < q) :
    (finite q hr).roundSignificant count = ofRat (significant count q) := by
  simp only [roundSignificant, map, if_neg h.ne', if_neg h.not_gt, Rat.abs_of_nonneg h.le]
  rfl

theorem roundSignificant_of_neg {hr : Representable q} (count : Nat) (h : q < 0) :
    (finite q hr).roundSignificant count = ofRat (-significant count (-q)) := by
  have habs : q.abs = -q := by rw [rat_abs_eq, abs_of_neg h]
  simp only [roundSignificant, map, if_neg h.ne, if_pos h, habs]
  rfl

/-! ### The greatest numbers -/

/-- The greatest number of which four digits are rounded to a finite one. -/
def greatestRounded : Rat := 9006231567790321 * 2 ^ (971 : Int)

theorem greatestRounded_representable : Representable greatestRounded :=
  ⟨9006231567790321, 971, by rw [greatestRounded]; norm_num, by decide, by decide, by decide⟩

theorem greatestRounded_pos : 0 < greatestRounded := by
  unfold greatestRounded
  positivity

/-- Where powers of two are among powers of ten, next to the greatest number of all. -/
theorem decimal_bounds :
    (2 : Rat) ^ (1015 : Int) < 10 ^ (308 : Int) ∧
    (10 : Rat) ^ (308 : Int) ≤ 1797 * 10 ^ (305 : Int) ∧
    1797 * (10 : Rat) ^ (305 : Int) ≤ 9007199254740991 * 2 ^ (971 : Int) ∧
    greatestRounded < (1797 + 1 / 2) * 10 ^ (305 : Int) ∧
    (1797 + 1 / 2) * (10 : Rat) ^ (305 : Int) ≤ 9006231567790322 * 2 ^ (971 : Int) ∧
    magnitudeBound ≤ 10 ^ (309 : Int) ∧
    ofRat (-(1798 * 10 ^ (305 : Int))) = infinite true := by
  decide +kernel

/-! ### Finite numbers -/

/-- What is not beyond the greatest number in tens is rounded to a finite one. -/
theorem isFinite_ofRat_of_abs_le {a : Rat} (h : |a| ≤ 1797 * 10 ^ (305 : Int)) :
    (ofRat a).isFinite = true := by
  obtain ⟨-, -, hgreatest, -⟩ := decimal_bounds
  have hr : Representable (9007199254740991 * 2 ^ (971 : Int)) :=
    ⟨9007199254740991, 971, by norm_num, by decide, by decide, by decide⟩
  obtain ⟨hr', hvalue, -⟩ := ofRat_of_abs_le hr ((h.trans hgreatest).trans (le_abs_self _))
  rw [hvalue]
  rfl

theorem isFinite_roundSignificant {hr : Representable q} (count : Nat)
    (h : |q| < 10 ^ (308 : Int)) : ((finite q hr).roundSignificant count).isFinite = true := by
  obtain ⟨-, htens, -⟩ := decimal_bounds
  rcases lt_trichotomy q 0 with hneg | rfl | hpos
  · rw [abs_of_neg hneg] at h
    rw [roundSignificant_of_neg count hneg]
    apply isFinite_ofRat_of_abs_le
    rw [abs_neg, abs_of_nonneg (significant_nonneg (by linarith) count)]
    exact (significant_le count (by linarith) h).trans htens
  · have hzero : (finite 0 hr).roundSignificant count = ofRat 0 := by
      simp only [roundSignificant, map, if_true]
    rw [hzero, ← zero_eq_ofRat, zero_eq_finite]
    rfl
  · rw [abs_of_pos hpos] at h
    rw [roundSignificant_of_pos count hpos]
    apply isFinite_ofRat_of_abs_le
    rw [abs_of_nonneg (significant_nonneg hpos.le count)]
    exact (significant_le count hpos h).trans htens

/-! ### Four digits of the greatest numbers -/

/-- Of the greatest number and of those below it four digits are 1797 at most. -/
theorem significant_four_le (h : 0 < q) (hle : q ≤ greatestRounded) :
    significant 4 q ≤ 1797 * 10 ^ (305 : Int) := by
  obtain ⟨-, htens, -, hbound, -, hmagnitude, -⟩ := decimal_bounds
  rcases lt_or_ge q (10 ^ (308 : Int)) with hsmall | hlarge
  · exact (significant_le 4 h hsmall).trans htens
  · have hgreatest := abs_lt_of_representable greatestRounded_representable
    rw [abs_of_pos greatestRounded_pos] at hgreatest
    have hexponent : floorLog10 q = 308 :=
      floorLog10_eq hlarge ((hle.trans_lt hgreatest).trans_le hmagnitude)
    have hplace : floorLog10 q + 1 - (4 : Nat) = 305 := by omega
    have hquotient : q / 10 ^ (305 : Int) < (1797 : Int) + 1 / 2 :=
      (div_lt_iff₀ (ten_zpow_pos 305)).mpr (hle.trans_lt hbound)
    have hdigits := floor_add_half_le hquotient
    rw [significant, hplace]
    exact mul_le_mul_of_nonneg_right hdigits (ten_zpow_pos 305).le

/-- The numbers behind it are a last place apart from it, so that four digits of them are 1798. -/
theorem le_significant_four (hr : Representable q) (h : greatestRounded < q) :
    1798 * 10 ^ (305 : Int) ≤ significant 4 q := by
  obtain ⟨-, htens, -, -, hbound, hmagnitude, -⟩ := decimal_bounds
  have hbelow : (2 : Rat) ^ (1023 : Int) ≤ greatestRounded := by
    rw [show (1023 : Int) = 52 + 971 from rfl, two_zpow_add, greatestRounded]
    exact mul_le_mul_of_nonneg_right (by norm_num) (two_zpow_pos 971).le
  have hpos : 0 < q := greatestRounded_pos.trans h
  have habs := abs_lt_of_representable hr
  rw [abs_of_pos hpos] at habs
  have hlast : lastPlace q = 971 := by
    refine (isLastPlace_lastPlace q).unique ⟨by decide, ?_, .inr ?_⟩
    · rw [abs_of_pos hpos]
      exact habs
    · rw [abs_of_pos hpos]
      exact (hbelow.trans h.le)
  obtain ⟨m, hm⟩ := exists_eq_mul_lastPlace hr
  rw [hlast] at hm
  have hsignificand : 9006231567790322 ≤ m := by
    rw [hm, greatestRounded] at h
    have hcast := lt_of_mul_lt_mul_right h (two_zpow_pos 971).le
    have hless : 9006231567790321 < m := by exact_mod_cast hcast
    omega
  have hnext : (1797 + 1 / 2) * 10 ^ (305 : Int) ≤ q := by
    have hcast : (9006231567790322 : Rat) ≤ m := by exact_mod_cast hsignificand
    calc (1797 + 1 / 2) * 10 ^ (305 : Int) ≤ 9006231567790322 * (2 : Rat) ^ (971 : Int) := hbound
      _ ≤ m * 2 ^ (971 : Int) := mul_le_mul_of_nonneg_right hcast (two_zpow_pos 971).le
      _ = q := hm.symm
  have hexponent : floorLog10 q = 308 := by
    have hlow : 1797 * (10 : Rat) ^ (305 : Int) ≤ (1797 + 1 / 2) * 10 ^ (305 : Int) :=
      mul_le_mul_of_nonneg_right (by norm_num) (ten_zpow_pos 305).le
    exact floorLog10_eq (htens.trans (hlow.trans hnext)) (habs.trans_le hmagnitude)
  have hplace : floorLog10 q + 1 - (4 : Nat) = 305 := by omega
  have hquotient : (1797 : Int) + 1 / 2 ≤ q / 10 ^ (305 : Int) :=
    (le_div_iff₀ (ten_zpow_pos 305)).mpr hnext
  have hdigits : 1798 ≤ ((q / 10 ^ (305 : Int) + 1 / 2).floor : Rat) :=
    le_trans (by norm_num) (add_one_le_floor_add_half hquotient)
  rw [significant, hplace]
  exact mul_le_mul_of_nonneg_right hdigits (ten_zpow_pos 305).le

/-- The greatest numbers are rounded to one beyond all numbers. -/
theorem isFinite_roundSignificant_four_iff {hr : Representable q} (h : q < 0) :
    ((finite q hr).roundSignificant 4).isFinite = true ↔ -greatestRounded ≤ q := by
  obtain ⟨-, -, -, -, -, -, hinfinite⟩ := decimal_bounds
  have hpos : 0 < -q := by linarith
  rw [roundSignificant_of_neg 4 h]
  constructor
  · intro hfinite
    by_contra hless
    have hdigits := le_significant_four (representable_neg hr) (by linarith)
    have hle : ofRat (-significant 4 (-q)) ≤ infinite true := by
      rw [← hinfinite]
      exact ofRat_mono (by linarith)
    rcases ofRat_finite_or (-significant 4 (-q)) with ⟨hr', hvalue⟩ | ⟨_, hvalue⟩
    · rw [hvalue, finite_le_infinite] at hle
      exact absurd hle (by decide)
    · rw [hvalue] at hfinite
      exact absurd hfinite Bool.false_ne_true
  · intro hle
    apply isFinite_ofRat_of_abs_le
    rw [abs_neg, abs_of_nonneg (significant_nonneg hpos.le 4)]
    exact significant_four_le hpos (by linarith)

end LiveProgress.Number

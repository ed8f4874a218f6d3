import LiveProgress.Proofs.Number.Order

/-!
# Ranges

What operations do with numbers that are within a bound, on both sides of zero. None of those that
cut something off or divide goes beyond it, and products and differences stay finite as long as
their exponents are in range.
-/

namespace LiveProgress.Number

variable {a b bound bound' : Rat} {hb : Representable b} {x y : Number} {j k : Int}

/-- Whether a number is finite and not beyond a bound. -/
def IsWithin (x : Number) (bound : Rat) : Prop := ∃ q hr, x = finite q hr ∧ |q| ≤ bound

theorem IsWithin.isFinite (h : x.IsWithin bound) : x.isFinite = true := by
  obtain ⟨q, hr, rfl, -⟩ := h
  rfl

theorem IsWithin.ne_undefined (h : x.IsWithin bound) : x ≠ undefined := by
  obtain ⟨q, hr, rfl, -⟩ := h
  simp

theorem IsWithin.mono (h : x.IsWithin bound) (hle : bound ≤ bound') : x.IsWithin bound' := by
  obtain ⟨q, hr, hx, hq⟩ := h
  exact ⟨q, hr, hx, hq.trans hle⟩

/-- A finite number is within its own magnitude, to which nothing has to be rounded. -/
theorem exists_isWithin (h : x.isFinite = true) :
    ∃ bound, Representable bound ∧ x.IsWithin bound := by
  cases x with
  | finite q hr =>
    refine ⟨|q|, ?_, q, hr, rfl, le_rfl⟩
    rcases abs_choice q with habs | habs
    · rwa [habs]
    · rw [habs]
      exact representable_neg hr
  | infinite => exact absurd h Bool.false_ne_true
  | undefined => exact absurd h Bool.false_ne_true

/-- Rounding does not pass over a number. -/
theorem isWithin_ofRat (hbound : Representable bound) (h : |a| ≤ bound) :
    (ofRat a).IsWithin bound := by
  have habs : |bound| = bound := abs_of_nonneg ((abs_nonneg a).trans h)
  rw [← habs] at h
  obtain ⟨hr, hvalue, hle⟩ := ofRat_of_abs_le hbound h
  rw [habs] at hle
  exact ⟨_, hr, hvalue, hle⟩

/-! ### What makes numbers smaller -/

theorem abs_truncated_le (q : Rat) : |(truncated q : Rat)| ≤ |q| := by
  unfold truncated
  split
  · rename_i hneg
    have hceil : q.ceil ≤ 0 := Rat.ceil_le_iff.mpr (by push_cast; exact hneg.le)
    have hcast : (q.ceil : Rat) ≤ 0 := by exact_mod_cast hceil
    rw [abs_of_nonpos hcast, abs_of_neg hneg]
    linarith [Rat.le_ceil (x := q)]
  · rename_i hnonneg
    have hfloor : 0 ≤ q.floor := Rat.le_floor_iff.mpr (by push_cast; exact not_lt.mp hnonneg)
    have hcast : (0 : Rat) ≤ q.floor := by exact_mod_cast hfloor
    rw [abs_of_nonneg hcast, abs_of_nonneg (not_lt.mp hnonneg)]
    exact Rat.floor_le q

theorem IsWithin.trunc (h : x.IsWithin bound) (hbound : Representable bound) :
    x.trunc.IsWithin bound := by
  obtain ⟨q, hr, rfl, hq⟩ := h
  rw [trunc_finite]
  exact isWithin_ofRat hbound ((abs_truncated_le q).trans hq)

theorem IsWithin.abs (h : x.IsWithin bound) (hbound : Representable bound) :
    x.abs.IsWithin bound := by
  obtain ⟨q, hr, rfl, hq⟩ := h
  refine isWithin_ofRat hbound ?_
  rw [rat_abs_eq, abs_abs]
  exact hq

theorem IsWithin.floor (h : x.IsWithin bound) (hbound : Representable bound) (hx : 0 ≤ x) :
    x.floor.IsWithin bound := by
  obtain ⟨q, hr, rfl, hq⟩ := h
  have hnonneg : ¬ q < 0 := (zero_le_finite.mp hx).not_gt
  have hfloor : (finite q hr).floor = (finite q hr).trunc := by
    rw [trunc_finite, truncated, if_neg hnonneg]
    rfl
  rw [hfloor]
  exact IsWithin.trunc ⟨q, hr, rfl, hq⟩ hbound

theorem IsWithin.div (h : x.IsWithin bound) (hbound : Representable bound) (hone : 1 ≤ b) :
    (x / finite b hb).IsWithin bound := by
  obtain ⟨q, hr, rfl, hq⟩ := h
  have hpos : 0 < b := by linarith
  rw [finite_div_finite hpos.ne']
  refine isWithin_ofRat hbound (le_trans ?_ hq)
  rw [abs_div, abs_of_pos hpos]
  exact div_le_self (abs_nonneg q) hone

theorem isFinite_div (hone : 1 ≤ b) : (x / finite b hb).isFinite = x.isFinite := by
  cases x with
  | undefined => rfl
  | infinite s => rw [infinite_div_finite (by linarith)]
  | finite q hr =>
    obtain ⟨bound, hbound, hq⟩ := exists_isWithin (x := finite q hr) rfl
    exact (hq.div hbound hone).isFinite

theorem IsWithin.rem (h : x.IsWithin bound) (hbound : Representable bound) (hpos : 0 < b)
    (hx : 0 ≤ x) : (x % finite b hb).IsWithin bound := by
  obtain ⟨q, hr, rfl, hq⟩ := h
  have hnonneg : 0 ≤ q := zero_le_finite.mp hx
  obtain ⟨hlow, hhigh⟩ := sub_mul_truncated hpos hnonneg
  rw [finite_rem_finite hpos.ne']
  refine isWithin_ofRat hbound (le_trans ?_ hq)
  rw [abs_of_nonneg hnonneg, abs_of_nonneg hlow]
  exact hhigh

theorem rem_nonneg (h : x.IsWithin bound) (hpos : 0 < b) (hx : 0 ≤ x) :
    0 ≤ x % finite b hb := by
  obtain ⟨q, hr, rfl, -⟩ := h
  rw [finite_rem_finite hpos.ne']
  exact ofRat_mono (sub_mul_truncated hpos (zero_le_finite.mp hx)).1

/-! ### Powers of two -/

theorem representable_two_zpow (hlow : -1022 ≤ k) (hhigh : k ≤ 1023) :
    Representable (2 ^ k) := by
  refine ⟨4503599627370496, k - 52, ?_, by decide, by omega, by omega⟩
  have hsplit : k = 52 + (k - 52) := by omega
  have hpow : (2 : Rat) ^ (52 : Int) = (4503599627370496 : Int) := by norm_num
  rw [← hpow, ← two_zpow_add, ← hsplit]

theorem IsWithin.mul (hx : x.IsWithin (2 ^ j)) (hy : y.IsWithin (2 ^ k)) (hlow : -1022 ≤ j + k)
    (hhigh : j + k ≤ 1023) : (x * y).IsWithin (2 ^ (j + k)) := by
  obtain ⟨p, hp, rfl, hple⟩ := hx
  obtain ⟨q, hq, rfl, hqle⟩ := hy
  rw [finite_mul_finite]
  refine isWithin_ofRat (representable_two_zpow hlow hhigh) ?_
  rw [abs_mul, two_zpow_add]
  exact mul_le_mul hple hqle (abs_nonneg q) (two_zpow_pos j).le

theorem IsWithin.sub (hx : x.IsWithin (2 ^ k)) (hy : y.IsWithin (2 ^ k)) (hlow : -1022 ≤ k)
    (hhigh : k < 1023) : (x - y).IsWithin (2 ^ (k + 1)) := by
  obtain ⟨p, hp, rfl, hple⟩ := hx
  obtain ⟨q, hq, rfl, hqle⟩ := hy
  rw [finite_sub_finite]
  refine isWithin_ofRat (representable_two_zpow (by omega) hhigh) ?_
  calc |p - q| ≤ |p| + |q| := abs_sub p q
    _ ≤ 2 ^ k + 2 ^ k := add_le_add hple hqle
    _ = 2 ^ (k + 1) := by rw [two_zpow_add, zpow_one, mul_two]

/-! ### Integers -/

theorem isWithin_ofInt {n : Int} (h : n.natAbs < significandBound) :
    (ofInt n).IsWithin (2 ^ (53 : Int)) := by
  refine ⟨n, _, ofInt_eq_finite h, ?_⟩
  rw [← Int.cast_abs, ← Nat.cast_natAbs, ← significandBound_cast]
  exact_mod_cast h.le

theorem isWithin_of_wholePart {n : Int} {hr : Representable n}
    (h : (finite n hr).wholePart.natAbs < significandBound) :
    (finite n hr).IsWithin (2 ^ (53 : Int)) := by
  rw [wholePart_intCast] at h
  rw [← ofInt_eq_finite h]
  exact isWithin_ofInt h

theorem isWithin_numeral {n : Nat} (h : n < significandBound) (hle : n ≤ bound) :
    (OfNat.ofNat n : Number).IsWithin bound := by
  refine ⟨n, _, numeral_eq_finite h, ?_⟩
  rw [Nat.abs_cast]
  exact hle

end LiveProgress.Number

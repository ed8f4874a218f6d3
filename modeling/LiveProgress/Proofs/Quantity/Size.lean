import LiveProgress.Proofs.Number.Range
import LiveProgress.Proofs.Number.Significant
import LiveProgress.Quantity.Size

/-!
# Sizes

A size that is not negative is scaled to one far below the greatest number, so that its four digits
are finite. One below zero is not scaled.
-/

namespace LiveProgress.Size

open Number

variable {bound q : Rat} {x : Number}

theorem text_eq (x : Number) :
    text x = ((scale x units).1.roundSignificant 4).text ++ (scale x units).2 := rfl

theorem unit_mem (x : Number) (units : List String) : (scale x units).2 ∈ "" :: units := by
  induction units generalizing x with
  | nil => exact List.mem_cons_self
  | cons unit units ih =>
    cases units with
    | nil => exact List.mem_cons_of_mem _ List.mem_cons_self
    | cons next greater =>
      unfold scale
      split
      · rcases List.mem_cons.mp (ih (x / 1000)) with hnone | hmem
        · exact hnone ▸ List.mem_cons_self
        · exact List.mem_cons_of_mem _ (List.mem_cons_of_mem _ hmem)
      · exact List.mem_cons_of_mem _ List.mem_cons_self

/-- Scaling makes a number smaller. -/
theorem isWithin_scale (hbound : Representable bound) (h : x.IsWithin bound)
    (units : List String) : (scale x units).1.IsWithin bound := by
  induction units generalizing x with
  | nil => exact h
  | cons unit units ih =>
    cases units with
    | nil => exact h
    | cons next greater =>
      unfold scale
      split
      · apply ih
        rw [numeral_eq_finite (n := 1000) (by decide)]
        exact h.div hbound (by norm_num)
      · exact h

theorem scale_of_lt (unit : String) (greater : List String) (h : ¬ 1000 ≤ x) :
    scale x (unit :: greater) = (x, unit) := by
  cases greater with
  | nil => rfl
  | cons next greater => exact if_neg h

/-- What is scaled is less than a thousand, or a thousandth of a number at most. -/
theorem isWithin_scale_units (hr : Representable q) (h : 0 ≤ q) :
    (scale (finite q hr) units).1.IsWithin (2 ^ (1015 : Int)) := by
  have hrepresentable : Representable (2 ^ (1015 : Int)) :=
    representable_two_zpow (by decide) (by decide)
  have hthousand : 1000 ≤ finite q hr ↔ (1000 : Nat) ≤ q := by
    rw [numeral_eq_finite (n := 1000) (by decide), finite_le_finite]
  by_cases hlarge : 1000 ≤ finite q hr
  · have hscale : scale (finite q hr) units =
        scale (finite q hr / 1000) ["kB", "MB", "GB", "TB", "PB", "EB", "ZB", "YB"] := if_pos hlarge
    have hsmall : |q / (1000 : Nat)| ≤ 2 ^ (1015 : Int) := by
      have hbound : magnitudeBound ≤ 2 ^ (1015 : Int) * (1000 : Nat) := by
        rw [magnitudeBound, show (1024 : Int) = 1015 + 9 from rfl, two_zpow_add]
        exact mul_le_mul_of_nonneg_left (by norm_num) (two_zpow_pos 1015).le
      rw [abs_div, Nat.abs_cast, div_le_iff₀ (by norm_num)]
      exact (abs_lt_of_representable hr).le.trans hbound
    rw [hscale, numeral_eq_finite (n := 1000) (by decide), finite_div_finite (by norm_num)]
    exact isWithin_scale hrepresentable (isWithin_ofRat hrepresentable hsmall) _
  · rw [units, scale_of_lt _ _ hlarge]
    have hbound : ((1000 : Nat) : Rat) ≤ 2 ^ (1015 : Int) :=
      le_trans (by norm_num) (two_zpow_le (a := 10) (by decide))
    refine ⟨q, hr, rfl, ?_⟩
    rw [abs_of_nonneg h]
    exact (not_le.mp (mt hthousand.mpr hlarge)).le.trans hbound

/-- Only the four digits of a size far below zero are rounded to one beyond all numbers. -/
theorem isFinite_rounded_iff (hr : Representable q) :
    ((scale (finite q hr) units).1.roundSignificant 4).isFinite = true ↔ -greatestRounded ≤ q := by
  have hpos := greatestRounded_pos
  rcases lt_or_ge q 0 with hneg | hnonneg
  · have hthousand : ¬ 1000 ≤ finite q hr := by
      rw [numeral_eq_finite (n := 1000) (by decide), finite_le_finite]
      push_cast
      linarith
    rw [units, scale_of_lt _ _ hthousand]
    exact isFinite_roundSignificant_four_iff hneg
  · obtain ⟨r, hr', hscale, hle⟩ := isWithin_scale_units hr hnonneg
    rw [hscale]
    exact iff_of_true (isFinite_roundSignificant 4 (hle.trans_lt decimal_bounds.1)) (by linarith)

end LiveProgress.Size

import LiveProgress.Proofs.Number.DecimalText
import LiveProgress.Proofs.Quantity.Size
import LiveProgress.Quantity.Reading

/-!
# Sizes read back

Each division by a thousand is rounded, and so is what comes of it to four digits. Rounding keeps
the order and does not pass over a power of ten, so a size is never read as more than a greater one,
and what is read is little more than a half in a thousand away from it.
-/

namespace LiveProgress.Size

open Number

variable {a b q r : Rat} {x y : Number} {j most : Nat}

/-! ### Divisions -/

/-- How often a size is divided by a thousand. -/
def divisions (size : Number) : List String → Nat
  | _ :: next :: greater =>
      if 1000 ≤ size then divisions (size / 1000) (next :: greater) + 1 else 0
  | _ => 0

/-- As many units are passed over as divisions are made. -/
theorem getElem?_divisions (x : Number) (unit : String) (greater : List String) :
    (unit :: greater)[divisions x (unit :: greater)]? = some (scale x (unit :: greater)).2 := by
  induction greater generalizing x unit with
  | nil => rfl
  | cons next greater ih =>
    unfold divisions scale
    split
    · rw [List.getElem?_cons_succ]
      exact ih (x / 1000) next
    · rfl

/-- A greater size is divided more often, or as often and leaves no less. -/
theorem divisions_lt_or (h : x ≤ y) (units : List String) :
    divisions x units < divisions y units ∨
      divisions x units = divisions y units ∧ (scale x units).1 ≤ (scale y units).1 := by
  induction units generalizing x y with
  | nil => exact .inr ⟨rfl, h⟩
  | cons unit units ih =>
    cases units with
    | nil => exact .inr ⟨rfl, h⟩
    | cons next greater =>
      unfold divisions scale
      by_cases hx : 1000 ≤ x
      · rw [if_pos hx, if_pos hx, if_pos (Number.le_trans hx h), if_pos (Number.le_trans hx h)]
        have hdivided : x / 1000 ≤ y / 1000 := by
          rw [numeral_eq_finite (n := 1000) (by decide)]
          exact div_le_div_right (by norm_num) h
        rcases ih hdivided with hless | ⟨hsame, hle⟩
        · exact .inl (Nat.succ_lt_succ hless)
        · exact .inr ⟨congrArg (· + 1) hsame, hle⟩
      · rw [if_neg hx, if_neg hx]
        by_cases hy : 1000 ≤ y
        · rw [if_pos hy]
          exact .inl (Nat.succ_pos _)
        · rw [if_neg hy, if_neg hy]
          exact .inr ⟨rfl, h⟩

/-- What `j` divisions of `q` by a thousand leave, if there are units for `most` of them. -/
structure IsScaled (q : Rat) (most : Nat) (r : Rat) (j : Nat) : Prop where
  nonneg : 0 ≤ r
  one_le : 1 ≤ q → 1 ≤ r
  le_most : j ≤ most
  lt : j < most → r < 1000
  ge : q * (1 - unitRoundoff) ^ j ≤ r * 1000 ^ j
  le : r * 1000 ^ j ≤ q * (1 + unitRoundoff) ^ j

/-- One more division in front of the others. -/
theorem IsScaled.step (hlarge : 1000 ≤ q) (h : IsScaled (rounded (q / 1000)) most r j) :
    IsScaled q (most + 1) r (j + 1) := by
  have hone : 1 ≤ q / 1000 := by linarith
  have hup := rounded_le_mul (normal_of_one_le hone)
  have hdown := mul_le_rounded (normal_of_one_le hone)
  constructor
  case nonneg => exact h.nonneg
  case one_le => exact fun _ => h.one_le (one_le_rounded hone)
  case le_most => exact Nat.succ_le_succ h.le_most
  case lt => exact fun hlt => h.lt (Nat.lt_of_succ_lt_succ hlt)
  case ge =>
    have hpow : 0 ≤ (1 - unitRoundoff) ^ j := pow_nonneg (by norm_num [unitRoundoff]) j
    calc q * (1 - unitRoundoff) ^ (j + 1)
        = 1000 * (q / 1000 * (1 - unitRoundoff) * (1 - unitRoundoff) ^ j) := by ring
      _ ≤ 1000 * (rounded (q / 1000) * (1 - unitRoundoff) ^ j) :=
        mul_le_mul_of_nonneg_left (mul_le_mul_of_nonneg_right hdown hpow) (by norm_num)
      _ ≤ 1000 * (r * 1000 ^ j) := mul_le_mul_of_nonneg_left h.ge (by norm_num)
      _ = r * 1000 ^ (j + 1) := by ring
  case le =>
    have hpow : 0 ≤ (1 + unitRoundoff) ^ j := pow_nonneg (by norm_num [unitRoundoff]) j
    calc r * 1000 ^ (j + 1) = 1000 * (r * 1000 ^ j) := by ring
      _ ≤ 1000 * (rounded (q / 1000) * (1 + unitRoundoff) ^ j) :=
        mul_le_mul_of_nonneg_left h.le (by norm_num)
      _ ≤ 1000 * (q / 1000 * (1 + unitRoundoff) * (1 + unitRoundoff) ^ j) :=
        mul_le_mul_of_nonneg_left (mul_le_mul_of_nonneg_right hup hpow) (by norm_num)
      _ = q * (1 + unitRoundoff) ^ (j + 1) := by ring

theorem exists_isScaled {hr : Representable q} (h : 0 ≤ q) (unit : String) (greater : List String) :
    ∃ r hr', (scale (finite q hr) (unit :: greater)).1 = finite r hr' ∧
      IsScaled q greater.length r (divisions (finite q hr) (unit :: greater)) := by
  induction greater generalizing q unit with
  | nil =>
    refine ⟨q, hr, rfl, h, id, le_rfl, fun hlt => absurd hlt (Nat.lt_irrefl _), ?_, ?_⟩
    · simp [divisions]
    · simp [divisions]
  | cons next greater ih =>
    have hthousand : 1000 ≤ finite q hr ↔ (1000 : Nat) ≤ q := by
      rw [numeral_eq_finite (n := 1000) (by decide), finite_le_finite]
    rw [Nat.cast_ofNat] at hthousand
    unfold divisions scale
    by_cases hlarge : 1000 ≤ q
    · rw [if_pos (hthousand.mpr hlarge), if_pos (hthousand.mpr hlarge)]
      have hsmaller : |q / 1000| ≤ |q| := by
        rw [abs_div, abs_of_pos (by norm_num : (0 : Rat) < 1000)]
        exact div_le_self (abs_nonneg q) (by norm_num)
      obtain ⟨hr', hvalue, -⟩ := ofRat_of_abs_le hr hsmaller
      have hdivided : finite q hr / 1000 = finite (rounded (q / 1000)) hr' := by
        rw [numeral_eq_finite (n := 1000) (by decide), finite_div_finite (by norm_num),
          Nat.cast_ofNat, hvalue]
      rw [hdivided]
      have hnonneg : 0 ≤ rounded (q / 1000) := rounded_nonneg (div_nonneg h (by norm_num))
      obtain ⟨r, hrep, hscale, hscaled⟩ := @ih _ hr' hnonneg next
      exact ⟨r, hrep, hscale, hscaled.step hlarge⟩
    · rw [if_neg (mt hthousand.mp hlarge), if_neg (mt hthousand.mp hlarge)]
      refine ⟨q, hr, rfl, h, id, Nat.zero_le _, fun _ => not_le.mp hlarge, ?_, ?_⟩
      · simp
      · simp

/-! ### Four digits -/

theorem significant_four_bounds (hone : 1 ≤ q) (hle : q ≤ 1000) :
    1 ≤ significant 4 q ∧ significant 4 q ≤ 1000 := by
  have hpos : 0 < q := by linarith
  have hnext : (10 : Rat) ^ (0 : Int) < 10 ^ (floorLog10 q + 1) := by
    rw [zpow_zero]
    exact hone.trans_lt (floorLog10_spec hpos).2
  have hexponent : 0 ≤ floorLog10 q := by
    have := ten_zpow_lt_iff.mp hnext
    omega
  constructor
  · calc (1 : Rat) = 10 ^ (0 : Int) := (zpow_zero _).symm
      _ ≤ 10 ^ floorLog10 q := ten_zpow_le_iff.mpr hexponent
      _ ≤ significant 4 q := le_significant (by decide) hpos
  · have hthousand : significant 4 1000 = 1000 := by decide +kernel
    rw [← hthousand]
    exact significant_mono (by decide) hpos hle

/-- The four digits of a scaled size are a short decimal. -/
theorem exists_isShort (hone : 1 ≤ q) (hle : q ≤ 1000) :
    ∃ (d : Decimal) (k : Nat), d.toRat = significant 4 q ∧ d.IsShort 3 ∧ 3 + d.exponent = k ∧
      k ≤ 3 := by
  obtain ⟨hlow, hhigh⟩ := significant_four_bounds hone hle
  have hpos : 0 < q := by linarith
  obtain ⟨d, hd, hge, hlt⟩ := exists_decimal_significant (by decide : 0 < 4) hpos
  obtain ⟨hfrom, hto⟩ := Decimal.bounds_toRat hge hlt
  rw [hd] at hfrom hto
  have hnext : (10 : Rat) ^ (0 : Int) < 10 ^ (((4 - 1 : Nat) : Int) + d.exponent + 1) := by
    rw [zpow_zero]
    exact hlow.trans_lt hto
  have hthree : (10 : Rat) ^ (((4 - 1 : Nat) : Int) + d.exponent) ≤ 10 ^ (3 : Int) := by
    calc (10 : Rat) ^ (((4 - 1 : Nat) : Int) + d.exponent) ≤ 1000 := hfrom.trans hhigh
      _ = 10 ^ (3 : Int) := by norm_num
  have hnonneg := ten_zpow_lt_iff.mp hnext
  have hmost := ten_zpow_le_iff.mp hthree
  have hlast : ((4 - 1 : Nat) : Int) = 3 := rfl
  rw [hlast] at hnonneg hmost
  obtain ⟨k, hk⟩ := Int.eq_ofNat_of_zero_le (by omega : 0 ≤ 3 + d.exponent)
  refine ⟨d, k, hd, ⟨hge, hlt, by decide, ?_, ?_⟩, hk, by omega⟩
  · push_cast
    omega
  · push_cast
    omega

/-- Four digits of a scaled size are read off their text, which has a point at most besides them. -/
theorem reads_four (h : q = 0 ∨ 1 ≤ q ∧ q ≤ 1000) :
    (∀ rest : List Char, (∀ c ∈ rest.head?, c.isDigit = false) → rest.head? ≠ some '.' →
      takeDecimal? ((ofRat (significant 4 q)).text.toList ++ rest) = some (significant 4 q, rest)) ∧
      (ofRat (significant 4 q)).text.length ≤ 5 := by
  rcases h with rfl | ⟨hone, hle⟩
  · have htext : (ofRat (significant 4 0)).text = "0" := by
      rw [significant_zero]
      decide +kernel
    rw [htext, significant_zero]
    constructor
    · intro rest hdigit hpoint
      have hread : takeDecimal? (pointed ['0'] [] ++ rest) =
          some ((digitsValue (['0'] ++ []) : Rat) / 10 ^ 0, rest) :=
        takeDecimal?_pointed (allDigits_zeros 1) (List.cons_ne_nil _ _) (allDigits_zeros 0) hdigit
          hpoint
      have hvalue : digitsValue (['0'] ++ []) = 0 := rfl
      rw [hvalue, Nat.cast_zero, zero_div] at hread
      exact hread
    · decide
  · obtain ⟨d, k, hd, hshort, hk, hmost⟩ := exists_isShort hone hle
    obtain ⟨hread, hlength⟩ := hshort.text_rounded hk
    rw [hd] at hread hlength
    exact ⟨hread, hlength hmost⟩

theorem roundSignificant_of_nonneg {hr : Representable q} (count : Nat) (h : 0 ≤ q) :
    (finite q hr).roundSignificant count = ofRat (significant count q) := by
  rcases h.eq_or_lt with rfl | hpos
  · rw [significant_zero]
    simp only [roundSignificant, map, if_true]
  · exact roundSignificant_of_pos count hpos

/-! ### Sizes -/

/-- What a size is scaled to, `r` of some unit. -/
structure IsShown (n : Nat) (r : Rat) : Prop where
  scale_eq : ∃ hr, (scale (ofNat n) units).1 = finite r hr
  scaled : IsScaled (rounded n) 8 r (divisions (ofNat n) units)
  le_thousand : r ≤ 1000

/-- The least size that is beyond all units is a thousand of the last one. -/
theorem scale_of_greatest :
    divisions (ofNat (10 ^ 27)) units = 8 ∧ (scale (ofNat (10 ^ 27)) units).1 = 1000 := by
  decide +kernel

theorem exists_isShown {n : Nat} (h : n < 10 ^ 27) : ∃ r, IsShown n r := by
  have hrepresentable : Representable (2 ^ (90 : Int)) :=
    representable_two_zpow (by decide) (by decide)
  have hle : |(n : Rat)| ≤ |2 ^ (90 : Int)| := by
    have hcast : (n : Rat) ≤ 1000000000000000000000000000 := by exact_mod_cast h.le
    rw [Nat.abs_cast, abs_of_pos (two_zpow_pos 90)]
    exact hcast.trans (by norm_num)
  obtain ⟨hr, hvalue, -⟩ := ofRat_of_abs_le hrepresentable hle
  have hsize : ofNat n = finite (rounded n) hr := hvalue
  obtain ⟨r, hr', hscale, hscaled⟩ := @exists_isScaled _ hr (rounded_nonneg (Nat.cast_nonneg n)) "B"
    ["kB", "MB", "GB", "TB", "PB", "EB", "ZB", "YB"]
  rw [← hsize] at hscale hscaled
  refine ⟨r, ⟨hr', hscale⟩, hscaled, ?_⟩
  rcases hscaled.le_most.eq_or_lt with hall | hsome
  · -- with all divisions made, no less is left of the least size that is beyond all units
    obtain ⟨hgreatest, hthousand⟩ := scale_of_greatest
    have hbelow : ofNat n ≤ ofNat (10 ^ 27) := ofRat_mono (by exact_mod_cast h.le)
    rcases divisions_lt_or hbelow units with hless | ⟨-, hless⟩
    · rw [hgreatest] at hless
      exact absurd hall hless.ne
    · rw [hthousand] at hless
      have hfinite : finite r hr' ≤ 1000 := hscale ▸ hless
      rw [numeral_eq_finite (n := 1000) (by decide), finite_le_finite] at hfinite
      exact_mod_cast hfinite
  · exact (hscaled.lt hsome).le

theorem length_unit_le : ∀ unit ∈ units, unit.length ≤ 2 := by decide

/-- The letters of units are behind the digits and the point. -/
theorem bounds_of_mem_unit {unit : String} (hmem : unit ∈ units) {c : Char} (hc : c ∈ unit.toList) :
    57 < c.toNat ∧ c.toNat < 128 := by
  have hletters : ∀ unit ∈ units, unit.toList.all (fun c => 57 < c.toNat ∧ c.toNat < 128) := by
    decide
  exact decide_eq_true_eq.mp (List.all_eq_true.mp (hletters unit hmem) c hc)

/-- A unit is told from the number in front of it. -/
theorem head?_unit {unit : String} (hmem : unit ∈ units) :
    (∀ c ∈ unit.toList.head?, c.isDigit = false) ∧ unit.toList.head? ≠ some '.' := by
  have hletter : ∀ c ∈ unit.toList.head?, 57 < c.toNat := fun c hc =>
    (bounds_of_mem_unit hmem (List.mem_of_mem_head? hc)).1
  constructor
  · intro c hc
    apply Bool.eq_false_iff.mpr
    intro hdigit
    exact absurd (hletter c hc) (Char.isDigit_iff_toNat.mp hdigit).2.not_gt
  · intro hpoint
    exact absurd (hletter '.' hpoint) (by decide)

theorem idxOf?_units : ∀ j : Fin units.length, units.idxOf? units[j] = some j.val := by decide

namespace IsShown

variable {m n : Nat} {s : Rat}

theorem zero_or (h : IsShown n r) : r = 0 ∧ n = 0 ∨ 1 ≤ r ∧ 0 < n := by
  rcases Nat.eq_zero_or_pos n with rfl | hpos
  · left
    have hle := h.scaled.le
    rw [rounded_natCast (by decide), Nat.cast_zero, zero_mul] at hle
    have hpow : (0 : Rat) < 1000 ^ divisions (ofNat 0) units := pow_pos (by norm_num) _
    exact ⟨le_antisymm (nonpos_of_mul_nonpos_left hle hpow) h.scaled.nonneg, rfl⟩
  · exact .inr ⟨h.scaled.one_le (one_le_rounded (by exact_mod_cast hpos)), hpos⟩

theorem eq_zero_or (h : IsShown n r) : r = 0 ∨ 1 ≤ r ∧ r ≤ 1000 :=
  h.zero_or.imp And.left fun hone => ⟨hone.1, h.le_thousand⟩

theorem text_eq (h : IsShown n r) :
    ∃ unit ∈ units, units.idxOf? unit = some (divisions (ofNat n) units) ∧
      text (ofNat n) = (ofRat (significant 4 r)).text ++ unit := by
  obtain ⟨hr, hscale⟩ := h.scale_eq
  have hunit : units[divisions (ofNat n) units]? = some (scale (ofNat n) units).2 :=
    getElem?_divisions (ofNat n) "B" ["kB", "MB", "GB", "TB", "PB", "EB", "ZB", "YB"]
  obtain ⟨hlt, hvalue⟩ := List.getElem?_eq_some_iff.mp hunit
  refine ⟨_, List.mem_of_getElem? hunit, ?_, ?_⟩
  · rw [← hvalue]
    exact idxOf?_units ⟨_, hlt⟩
  · rw [Size.text_eq, hscale, roundSignificant_of_nonneg 4 h.scaled.nonneg]

/-- What is read off the text of a size. -/
def reading (n : Nat) (r : Rat) : Scaled where
  number := significant 4 r
  divisions := divisions (ofNat n) units

theorem ofText?_text (h : IsShown n r) : Scaled.ofText? (text (ofNat n)) = some (reading n r) := by
  obtain ⟨unit, hmem, hindex, htext⟩ := h.text_eq
  obtain ⟨hdigit, hpoint⟩ := head?_unit hmem
  have hread := (reads_four h.eq_zero_or).1 unit.toList hdigit hpoint
  rw [Scaled.ofText?, htext, String.toList_append, hread]
  simp only [String.ofList_toList, hindex, Option.map_some]
  rfl

theorem length_text_le (h : IsShown n r) : (text (ofNat n)).length ≤ 7 := by
  obtain ⟨unit, hmem, -, htext⟩ := h.text_eq
  have hunit := length_unit_le unit hmem
  have hnumber := (reads_four h.eq_zero_or).2
  rw [htext, String.length_append]
  omega

theorem number_bounds (h : IsShown n r) :
    (reading n r).number ≤ 1000 ∧ (1 ≤ (reading n r).number ∨ n = 0) := by
  rcases h.zero_or with ⟨rfl, hzero⟩ | ⟨hone, -⟩
  · refine ⟨?_, .inr hzero⟩
    rw [reading, significant_zero]
    norm_num
  · obtain ⟨hlow, hhigh⟩ := significant_four_bounds hone h.le_thousand
    exact ⟨hhigh, .inl hlow⟩

/-- A size is not read as more than a greater one. -/
theorem value_le (h : IsShown m r) (h' : IsShown n s) (hle : m ≤ n) :
    (reading m r).value ≤ (reading n s).value := by
  have hsizes : ofNat m ≤ ofNat n := ofRat_mono (by exact_mod_cast hle)
  have hpow (j : Nat) : (0 : Rat) < 1000 ^ j := pow_pos (by norm_num) j
  rcases divisions_lt_or hsizes units with hless | ⟨hsame, hscaled⟩
  · -- the first one is at most a thousand of its unit, the second one at least one of a greater one
    have hpositive : n ≠ 0 := by
      rintro rfl
      obtain rfl := Nat.le_zero.mp hle
      exact lt_irrefl _ hless
    have hone := h'.number_bounds.2.resolve_right hpositive
    calc (reading m r).value ≤ 1000 * 1000 ^ divisions (ofNat m) units :=
          mul_le_mul_of_nonneg_right h.number_bounds.1 (hpow _).le
      _ = 1000 ^ (divisions (ofNat m) units + 1) := (pow_succ' _ _).symm
      _ ≤ 1000 ^ divisions (ofNat n) units := pow_le_pow_right₀ (by norm_num) hless
      _ = 1 * 1000 ^ divisions (ofNat n) units := (one_mul _).symm
      _ ≤ (reading n s).value := mul_le_mul_of_nonneg_right hone (hpow _).le
  · obtain ⟨hr, hscale⟩ := h.scale_eq
    obtain ⟨hs, hscale'⟩ := h'.scale_eq
    rw [hscale, hscale', finite_le_finite] at hscaled
    rw [Scaled.value, Scaled.value, reading, reading, hsame]
    apply mul_le_mul_of_nonneg_right _ (hpow _).le
    rcases h.eq_zero_or with rfl | ⟨hone, -⟩
    · rw [significant_zero]
      exact significant_nonneg h'.scaled.nonneg 4
    · exact significant_mono (by decide) (by linarith) hscaled

/-- Nine roundings to numbers move a size by less than a millionth of it. -/
theorem abs_scaled_sub_le (h : IsShown n r) (hpos : 0 < n) :
    |r * 1000 ^ divisions (ofNat n) units - n| ≤ n / 1000000 := by
  have hone : (1 : Rat) ≤ n := by exact_mod_cast hpos
  obtain ⟨-, -, hmost, -, hge, hle⟩ := h.scaled
  generalize divisions (ofNat n) units = j at hmost hge hle ⊢
  have hdown : (1 - unitRoundoff) ^ 9 ≤ (1 - unitRoundoff) ^ (j + 1) :=
    pow_le_pow_of_le_one (by norm_num [unitRoundoff]) (by norm_num [unitRoundoff]) (by omega)
  have hup : (1 + unitRoundoff) ^ (j + 1) ≤ (1 + unitRoundoff) ^ 9 :=
    pow_le_pow_right₀ (by norm_num [unitRoundoff]) (by omega)
  have hlow : n * (1 - unitRoundoff) ^ 9 ≤ r * 1000 ^ j := by
    calc n * (1 - unitRoundoff) ^ 9 ≤ n * (1 - unitRoundoff) ^ (j + 1) :=
          mul_le_mul_of_nonneg_left hdown (by linarith)
      _ = n * (1 - unitRoundoff) * (1 - unitRoundoff) ^ j := by ring
      _ ≤ rounded n * (1 - unitRoundoff) ^ j :=
        mul_le_mul_of_nonneg_right (mul_le_rounded (normal_of_one_le hone))
          (pow_nonneg (by norm_num [unitRoundoff]) j)
      _ ≤ r * 1000 ^ j := hge
  have hhigh : r * 1000 ^ j ≤ n * (1 + unitRoundoff) ^ 9 := by
    calc r * 1000 ^ j ≤ rounded n * (1 + unitRoundoff) ^ j := hle
      _ ≤ n * (1 + unitRoundoff) * (1 + unitRoundoff) ^ j :=
        mul_le_mul_of_nonneg_right (rounded_le_mul (normal_of_one_le hone))
          (pow_nonneg (by norm_num [unitRoundoff]) j)
      _ = n * (1 + unitRoundoff) ^ (j + 1) := by ring
      _ ≤ n * (1 + unitRoundoff) ^ 9 := mul_le_mul_of_nonneg_left hup (by linarith)
  norm_num [unitRoundoff] at hlow hhigh
  apply abs_le.mpr
  constructor <;> linarith

theorem abs_value_sub_le (h : IsShown n r) (hpos : 0 < n) :
    |(reading n r).value - n| ≤ 51 / 100000 * n := by
  have hrpos : 0 < r := by
    rcases h.zero_or with ⟨-, hzero⟩ | ⟨hone, -⟩
    · exact absurd hzero hpos.ne'
    · linarith
  have hscaled := h.abs_scaled_sub_le hpos
  rw [Scaled.value, reading]
  generalize divisions (ofNat n) units = j at hscaled ⊢
  have hpow : (0 : Rat) < 1000 ^ j := pow_pos (by norm_num) j
  have hdigits : |significant 4 r - r| ≤ 1 / 2000 * r := by
    have herror := abs_significant_sub_le hrpos 4
    norm_num at herror
    linarith
  have hproduct : |significant 4 r * 1000 ^ j - r * 1000 ^ j| ≤ 1 / 2000 * (r * 1000 ^ j) := by
    rw [← sub_mul, abs_mul, abs_of_pos hpow, ← mul_assoc]
    exact mul_le_mul_of_nonneg_right hdigits hpow.le
  obtain ⟨hlow, hhigh⟩ := abs_le.mp hscaled
  obtain ⟨hlow', hhigh'⟩ := abs_le.mp hproduct
  apply abs_le.mpr
  constructor <;> linarith

end IsShown

end LiveProgress.Size

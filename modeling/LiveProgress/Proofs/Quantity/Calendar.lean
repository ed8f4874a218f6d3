import LiveProgress.Quantity.Fields
import Mathlib.Tactic.IntervalCases
import Mathlib.Tactic.SplitIfs

/-!
# Dates and the days from the epoch to them

The date that is computed for a number of days is one of the calendar, and summing up the lengths of
years and months leads back from it to the number. A later date is more days away, so no other date
of the calendar does.
-/

namespace LiveProgress
namespace Calendar

theorem isLeapYear_iff {year : Int} :
    isLeapYear year = true ↔ year % 4 = 0 ∧ (year % 100 ≠ 0 ∨ year % 400 = 0) := by
  simp [isLeapYear]

/-! ### Years -/

theorem yearLength_eq (year : Int) :
    yearLength year = 365 + (year / 4 - (year - 1) / 4) - (year / 100 - (year - 1) / 100) +
      (year / 400 - (year - 1) / 400) := by
  unfold yearLength
  split_ifs with h
  · rw [isLeapYear_iff] at h
    omega
  · rw [isLeapYear_iff] at h
    omega

theorem daysOfYears_eq (year : Int) (count : Nat) :
    daysOfYears year count = 365 * count + ((year + count - 1) / 4 - (year - 1) / 4) -
      ((year + count - 1) / 100 - (year - 1) / 100) +
      ((year + count - 1) / 400 - (year - 1) / 400) := by
  induction count with
  | zero => simp [daysOfYears]
  | succ count ih =>
    have hnext : year + ((count + 1 : Nat) : Int) - 1 = year + count := by omega
    rw [daysOfYears, ih, yearLength_eq, hnext]
    omega

theorem yearStart_eq (year : Int) :
    yearStart year =
      365 * year + (year - 1) / 4 - (year - 1) / 100 + (year - 1) / 400 - 719527 := by
  unfold yearStart
  split_ifs with h
  · have hcount : ((year - 1970).toNat : Int) = year - 1970 := Int.toNat_of_nonneg (by omega)
    rw [daysOfYears_eq, hcount]
    omega
  · have hcount : ((1970 - year).toNat : Int) = 1970 - year := Int.toNat_of_nonneg (by omega)
    rw [daysOfYears_eq, hcount]
    omega

theorem yearStart_le {year other : Int} (h : year ≤ other) : yearStart year ≤ yearStart other := by
  rw [yearStart_eq, yearStart_eq]
  omega

theorem yearStart_succ (year : Int) : yearStart (year + 1) = yearStart year + yearLength year := by
  rw [yearStart_eq, yearStart_eq, yearLength_eq, Int.add_sub_cancel]
  omega

/-! ### Months -/

theorem monthLength_pos (year month : Int) : 0 < monthLength year month := by
  unfold monthLength
  split_ifs <;> decide

theorem monthLength_le (year month : Int) : monthLength year month ≤ 31 := by
  unfold monthLength
  split_ifs <;> decide

theorem daysOfMonths_le (year : Int) {count other : Nat} (h : count ≤ other) :
    daysOfMonths year count ≤ daysOfMonths year other := by
  induction h with
  | refl => exact Int.le_refl _
  | @step other _ ih =>
    have hmonth : 0 ≤ monthLength year (other + 1) := Int.le_of_lt (monthLength_pos _ _)
    exact Int.le_trans ih (Int.le_add_of_nonneg_right hmonth)

theorem daysOfMonths_twelve (year : Int) : daysOfMonths year 12 = yearLength year := by
  simp only [daysOfMonths, monthLength, yearLength]
  cases isLeapYear year <;> rfl

/-- From March on, the months of a year have the same lengths in every year. -/
theorem daysOfMonths_march (year : Int) {index : Nat} (h : index < 10) :
    daysOfMonths year (index + 2) = daysOfMonths year 2 + (153 * index + 2) / 5 := by
  interval_cases index <;> simp [daysOfMonths, monthLength] <;> omega

/-- In front of February, a month lasts as long as the line through the first days of months
counted from March tells. -/
theorem monthLength_march (year : Int) {index : Int} (h0 : 0 ≤ index) (h : index < 11) :
    monthLength year (if index < 10 then index + 3 else index - 9) =
      (153 * (index + 1) + 2) / 5 - (153 * index + 2) / 5 := by
  interval_cases index <;> rfl

/-- The days from the epoch to 1 March of a year. -/
def marchStart (year : Int) : Int := 365 * year + year / 4 - year / 100 + year / 400 - 719468

theorem marchStart_eq (year : Int) : marchStart year = yearStart year + daysOfMonths year 2 := by
  have hmonths : daysOfMonths year 2 = yearLength year - 306 := by
    simp only [daysOfMonths, monthLength, yearLength]
    cases isLeapYear year <;> rfl
  rw [hmonths, yearLength_eq, yearStart_eq, marchStart]
  omega

/-- Ten months after 1 March a year begins. -/
theorem yearStart_of_marchStart (year : Int) : yearStart (year + 1) = marchStart year + 306 := by
  rw [yearStart_eq, marchStart, Int.add_sub_cancel]
  omega

theorem marchStart_add_eras (year era : Int) :
    marchStart (year + era * 400) = marchStart year + 146097 * era := by
  have h4 : (year + era * 400) / 4 = year / 4 + 100 * era := by omega
  have h100 : (year + era * 400) / 100 = year / 100 + 4 * era := by omega
  have h400 : (year + era * 400) / 400 = year / 400 + era := by omega
  rw [marchStart, marchStart, h4, h100, h400]
  omega

/-! ### Years of an era -/

/-- A day of an era lies in a century of it, there in a cycle of four years and there in a year.
The last century, the last cycle of the last century and the last year of a cycle are a day longer
than the others. -/
theorem exists_place_in_era {days : Int} (h0 : 0 ≤ days) (h : days < 146097) :
    ∃ century cycle year day : Int, 0 ≤ century ∧ century ≤ 3 ∧ 0 ≤ cycle ∧ cycle ≤ 24 ∧
      0 ≤ year ∧ year ≤ 3 ∧ 0 ≤ day ∧ day ≤ 365 ∧
      days = 36524 * century + (1461 * cycle + 365 * year + day) ∧
      (day = 365 → year = 3 ∧ (cycle = 24 → century = 3)) := by
  obtain ⟨century, rest, hc0, hc, hr0, hr, rfl, hlast⟩ : ∃ century rest : Int, 0 ≤ century ∧
      century ≤ 3 ∧ 0 ≤ rest ∧ rest ≤ 36524 ∧ days = 36524 * century + rest ∧
      (rest = 36524 → century = 3) := by
    by_cases hend : days = 146096
    · exact ⟨3, 36524, by omega⟩
    · exact ⟨days / 36524, days % 36524, by omega⟩
  obtain ⟨year, day, hy0, hy, hd0, hd, hplace, hleap⟩ : ∃ year day : Int, 0 ≤ year ∧
      year ≤ 3 ∧ 0 ≤ day ∧ day ≤ 365 ∧ rest % 1461 = 365 * year + day ∧
      (day = 365 → year = 3) := by
    by_cases hend : rest % 1461 = 1460
    · exact ⟨3, 365, by omega⟩
    · exact ⟨rest % 1461 / 365, rest % 1461 % 365, by omega⟩
  exact ⟨century, rest / 1461, year, day, by omega⟩

/-- The last day of an era is counted off, which would begin a fifth century. -/
theorem century_eq {century rest : Int} (hc0 : 0 ≤ century) (hc : century ≤ 3) (hr0 : 0 ≤ rest)
    (hr : rest ≤ 36524) (hlast : rest = 36524 → century = 3) :
    (36524 * century + rest) / 36524 - (36524 * century + rest) / 146096 = century := by
  rcases Int.lt_or_eq_of_le hr with hlt | rfl
  · have hcentury : (36524 * century + rest) / 36524 = century := by omega
    have hend : (36524 * century + rest) / 146096 = 0 := by omega
    omega
  · obtain rfl := hlast rfl
    rfl

/-- Days without those that leap years add fill years of equal lengths. -/
theorem yearOfEra_eq {century cycle year day : Int} (hc0 : 0 ≤ century) (hc : century ≤ 3)
    (hk0 : 0 ≤ cycle) (hk : cycle ≤ 24) (hy0 : 0 ≤ year) (hy : year ≤ 3) (hd0 : 0 ≤ day)
    (hd : day ≤ 365) (hleap : day = 365 → year = 3 ∧ (cycle = 24 → century = 3)) :
    let days := 36524 * century + (1461 * cycle + 365 * year + day)
    (days - days / 1460 + days / 36524 - days / 146096) / 365 =
      100 * century + 4 * cycle + year := by
  intro days
  have hcentury : days / 36524 - days / 146096 = century :=
    century_eq hc0 hc (by omega) (by omega) (by omega)
  have hsum : days - days / 1460 + days / 36524 - days / 146096 =
      days - days / 1460 + century := by
    omega
  rw [hsum]
  clear hcentury hsum
  have hcycles : days / 1460 = 25 * century + cycle ∨ days / 1460 = 25 * century + cycle + 1 := by
    omega
  rcases hcycles with hcycles | hcycles
  · rw [hcycles]
    omega
  · rw [hcycles]
    omega

/-- The year of an era in which a day lies, counted from March, and the day in that year. -/
theorem yearOfEra_spec {days : Int} (h0 : 0 ≤ days) (h : days < 146097) :
    ∃ year day, (days - days / 1460 + days / 36524 - days / 146096) / 365 = year ∧
      days = 365 * year + year / 4 - year / 100 + day ∧ 0 ≤ year ∧ year < 400 ∧ 0 ≤ day ∧
      day ≤ 365 ∧ (day = 365 → isLeapYear (year + 1) = true) := by
  obtain ⟨century, cycle, year, day, hc0, hc, hk0, hk, hy0, hy, hd0, hd, rfl, hleap⟩ :=
    exists_place_in_era h0 h
  refine ⟨100 * century + 4 * cycle + year, day,
    yearOfEra_eq hc0 hc hk0 hk hy0 hy hd0 hd hleap, ?_, by omega, by omega, hd0, hd, ?_⟩
  · have h4 : (100 * century + 4 * cycle + year) / 4 = 25 * century + cycle := by omega
    have h100 : (100 * century + 4 * cycle + year) / 100 = century := by omega
    rw [h4, h100]
    omega
  · intro hday
    obtain ⟨rfl, hcentury⟩ := hleap hday
    rw [isLeapYear_iff]
    omega

/-! ### Division that rounds down -/

theorem floorDiv_eq_ediv (a : Int) {b : Int} (h : 0 < b) : floorDiv a b = a / b := by
  have hb : decide (b < 0) = false := decide_eq_false (Int.not_lt.mpr (Int.le_of_lt h))
  rw [floorDiv, Int.tdiv_eq_ediv, Int.sign_eq_one_of_pos h, hb]
  by_cases hdvd : b ∣ a
  · simp [Int.tmod_eq_zero_of_dvd hdvd, hdvd]
  · have hmod : a.tmod b ≠ 0 := fun hmod => hdvd (Int.dvd_of_tmod_eq_zero hmod)
    -- Only below zero does dropping what is behind the point round up.
    by_cases hneg : a < 0
    · simp [hmod, hdvd, hneg, Int.not_le.mpr hneg]
    · simp [hdvd, hneg, Int.not_lt.mp hneg]

theorem sub_floor (a b : Int) : a - a / b * b = a % b := by
  rw [Int.emod_def, Int.mul_comm]

end Calendar

namespace Date
open Calendar

variable {d e : Date}

/-! ### The date that is computed -/

/-- The date a number of days after 1 March of a year. -/
def ofMarch (year day : Int) : Date :=
  let index := (5 * day + 2) / 153
  let month := if index < 10 then index + 3 else index - 9
  { year := year + if month ≤ 2 then 1 else 0
    month
    day := day - (153 * index + 2) / 5 + 1 }

theorem epochDays_ofMarch (year : Int) {day : Int} (h0 : 0 ≤ day) (h : day ≤ 365) :
    (ofMarch year day).epochDays = marchStart year + day := by
  have hnonneg : 0 ≤ (5 * day + 2) / 153 := by omega
  have hlt : (5 * day + 2) / 153 < 12 := by omega
  unfold ofMarch
  generalize (5 * day + 2) / 153 = index at hnonneg hlt
  by_cases hyear : index < 10
  · have hmonth : ¬ index + 3 ≤ 2 := by omega
    have hbefore : (index + 3 - 1).toNat = index.toNat + 2 := by omega
    have hdays : daysOfMonths year (index.toNat + 2) = _ := daysOfMonths_march year (by omega)
    rw [Int.toNat_of_nonneg hnonneg] at hdays
    simp only [epochDays, if_pos hyear, if_neg hmonth, Int.add_zero, hbefore, hdays, marchStart_eq]
    omega
  · -- January and February belong to the next year.
    have hstart := yearStart_of_marchStart year
    obtain rfl | rfl : index = 10 ∨ index = 11 := by omega
    · simp [epochDays, daysOfMonths, hstart]
    · simp [epochDays, daysOfMonths, monthLength, hstart]
      omega

theorem valid_ofMarch {year day : Int} (h0 : 0 ≤ day) (h : day ≤ 365)
    (hleap : day = 365 → isLeapYear (year + 1) = true) : (ofMarch year day).Valid := by
  have hnonneg : 0 ≤ (5 * day + 2) / 153 := by omega
  have hlt : (5 * day + 2) / 153 < 12 := by omega
  have hfrom : 153 * ((5 * day + 2) / 153) ≤ 5 * day + 2 := by omega
  have hto : 5 * day + 2 < 153 * ((5 * day + 2) / 153) + 153 := by omega
  unfold ofMarch
  generalize (5 * day + 2) / 153 = index at hnonneg hlt hfrom hto
  constructor
  case month_pos => dsimp only; omega
  case month_le => dsimp only; omega
  case day_pos => dsimp only; omega
  case day_le =>
    dsimp only
    by_cases hfebruary : index < 11
    · rw [monthLength_march _ hnonneg hfebruary]
      omega
    · obtain rfl : index = 11 := by omega
      change day - (153 * 11 + 2) / 5 + 1 ≤ if isLeapYear (year + 1) then 29 else 28
      split_ifs with hlong
      · omega
      · have hday : day ≠ 365 := fun hlast => hlong (hleap hlast)
        omega

theorem ofEpochDays_eq (days : Int) :
    ∃ year day, ofEpochDays days = ofMarch year day ∧ days = marchStart year + day ∧ 0 ≤ day ∧
      day ≤ 365 ∧ (day = 365 → isLeapYear (year + 1) = true) := by
  have hnonneg : 0 ≤ (days + 719468) % 146097 := by omega
  have hlt : (days + 719468) % 146097 < 146097 := by omega
  obtain ⟨year, day, hyear, hday, hy0, hy, hd0, hd, hleap⟩ := yearOfEra_spec hnonneg hlt
  have hrest : (days + 719468) % 146097 - (365 * year + year / 4 - year / 100) = day := by
    clear hyear
    omega
  refine ⟨year + (days + 719468) / 146097 * 400, day, ?_, ?_, hd0, hd, ?_⟩
  · -- None of the numbers behind the era is negative.
    have hyears : 0 ≤ (days + 719468) % 146097 - (days + 719468) % 146097 / 1460 +
        (days + 719468) % 146097 / 36524 - (days + 719468) % 146097 / 146096 := by
      clear hyear
      omega
    have hindex : 0 ≤ 5 * day + 2 := by omega
    have hdays : 0 ≤ 153 * ((5 * day + 2) / 153) + 2 := by omega
    simp only [ofEpochDays, floorDiv_eq_ediv, sub_floor, Int.tdiv_eq_ediv_of_nonneg hnonneg,
      Int.tdiv_eq_ediv_of_nonneg hyears, hyear, Int.tdiv_eq_ediv_of_nonneg hy0, hrest,
      Int.tdiv_eq_ediv_of_nonneg hindex, Int.tdiv_eq_ediv_of_nonneg hdays, Nat.ofNat_pos]
    rfl
  · clear hyear
    rw [marchStart_add_eras, marchStart]
    omega
  · intro hlast
    have hlong := hleap hlast
    rw [isLeapYear_iff] at hlong ⊢
    clear hyear hday hrest
    omega

theorem epochDays_ofEpochDays (days : Int) : (ofEpochDays days).epochDays = days := by
  obtain ⟨year, day, hdate, hdays, hd0, hd, _⟩ := ofEpochDays_eq days
  rw [hdate, epochDays_ofMarch year hd0 hd, hdays]

theorem valid_ofEpochDays (days : Int) : (ofEpochDays days).Valid := by
  obtain ⟨year, day, hdate, _, hd0, hd, hleap⟩ := ofEpochDays_eq days
  rw [hdate]
  exact valid_ofMarch hd0 hd hleap

/-! ### The order of dates -/

/-- A date lies in its month. -/
theorem Valid.epochDays_month (h : d.Valid) :
    yearStart d.year + daysOfMonths d.year (d.month - 1).toNat ≤ d.epochDays ∧
      d.epochDays < yearStart d.year + daysOfMonths d.year d.month.toNat := by
  obtain ⟨hpos, -, hday, hle⟩ := h
  obtain ⟨index, hindex⟩ := Int.eq_ofNat_of_zero_le (Int.sub_nonneg.mpr hpos)
  have hmonth : d.month = index + 1 := by omega
  have hbefore : (d.month - 1).toNat = index := by omega
  have hwith : d.month.toNat = index + 1 := by omega
  rw [epochDays, hbefore, hwith, daysOfMonths, ← hmonth]
  omega

theorem Valid.yearStart_le (h : d.Valid) : yearStart d.year ≤ d.epochDays := by
  have hfirst : daysOfMonths d.year 0 ≤ daysOfMonths d.year (d.month - 1).toNat :=
    daysOfMonths_le d.year (Nat.zero_le _)
  have hmonth := h.epochDays_month
  rw [daysOfMonths] at hfirst
  omega

theorem Valid.lt_yearStart (h : d.Valid) : d.epochDays < yearStart (d.year + 1) := by
  have hle : d.month.toNat ≤ 12 := Int.toNat_le.mpr h.month_le
  have hlast := daysOfMonths_le d.year hle
  have hmonth := h.epochDays_month
  rw [daysOfMonths_twelve] at hlast
  rw [yearStart_succ]
  omega

theorem Valid.epochDays_lt (hd : d.Valid) (he : e.Valid) (h : d.fields < e.fields) :
    d.epochDays < e.epochDays := by
  simp only [fields, List.cons_lt_cons_iff, List.not_lt_nil, and_false, or_false] at h
  rcases h with hyear | ⟨hyear, hmonth | ⟨hmonth, hday⟩⟩
  · calc d.epochDays < yearStart (d.year + 1) := hd.lt_yearStart
      _ ≤ yearStart e.year := Calendar.yearStart_le (Int.add_one_le_of_lt hyear)
      _ ≤ e.epochDays := he.yearStart_le
  · have hmonths : daysOfMonths e.year d.month.toNat ≤ daysOfMonths e.year (e.month - 1).toNat :=
      daysOfMonths_le e.year (by omega)
    have hearlier := hd.epochDays_month.2
    have hlater := he.epochDays_month.1
    rw [hyear] at hearlier
    omega
  · rw [epochDays, epochDays, hyear, hmonth]
    omega

end Date
end LiveProgress

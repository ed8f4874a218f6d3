import LiveProgress.Proofs.Display.TimeLeft
import LiveProgress.Proofs.Message.Validation
import LiveProgress.Proofs.Quantity.Size

/-!
# Overflow

Where a fragment shows a word in the place of a number: where the time left is beyond all numbers
in nanoseconds, or where a count far below zero is rounded to a size beyond all numbers. Nowhere
else, and never if the numbers of the record are integers of 53 bits.
-/

namespace LiveProgress.Progress

open Number

variable {s t : String} {a b : Rat} {ha : Representable a} {hb : Representable b} {x : Number}
  {p : Progress} {v : Viewport} {now : Clock}

/-! ### Words for what is no number -/

/-- Texts without the letters with which such a word begins. -/
structure LacksWords (text : String) : Prop where
  undefined : 'N' ∉ text.toList
  infinite : 'I' ∉ text.toList

theorem lacksWords_iff : LacksWords s ↔ 'N' ∉ s.toList ∧ 'I' ∉ s.toList :=
  ⟨fun h => ⟨h.undefined, h.infinite⟩, fun h => ⟨h.1, h.2⟩⟩

instance (text : String) : Decidable (LacksWords text) := decidable_of_iff _ lacksWords_iff.symm

theorem LacksWords.append (hs : LacksWords s) (ht : LacksWords t) : LacksWords (s ++ t) := by
  have hletter {c : Char} (hs : c ∉ s.toList) (ht : c ∉ t.toList) : c ∉ (s ++ t).toList := by
    rw [String.toList_append, List.mem_append, not_or]
    exact ⟨hs, ht⟩
  exact ⟨hletter hs.undefined ht.undefined, hletter hs.infinite ht.infinite⟩

theorem LacksWords.not_showsNoNumber (h : LacksWords s) : ¬ ShowsNoNumber s := by
  rintro (hword | hword)
  · exact h.undefined (hword.subset (by decide))
  · exact h.infinite (hword.subset (by decide))

theorem ShowsNoNumber.append_left (h : ShowsNoNumber s) (t : String) : ShowsNoNumber (s ++ t) := by
  unfold ShowsNoNumber at h ⊢
  rw [String.toList_append]
  exact h.imp List.infix_append_of_infix_left List.infix_append_of_infix_left

theorem ShowsNoNumber.append_right (h : ShowsNoNumber t) (s : String) : ShowsNoNumber (s ++ t) := by
  unfold ShowsNoNumber at h ⊢
  rw [String.toList_append]
  exact h.imp List.infix_append_of_infix_right List.infix_append_of_infix_right

/-! ### Texts of numbers -/

theorem lacksWords_text (h : x.isFinite = true) : LacksWords x.text := by
  have hletter (c : Char) (hc : ¬ IsFigure c) : c ∉ x.text.toList :=
    fun hmem => hc (isFigure_of_mem_text h hmem)
  exact ⟨hletter 'N' (by unfold IsFigure; decide), hletter 'I' (by unfold IsFigure; decide)⟩

theorem showsNoNumber_text (h : x.isFinite = false) : ShowsNoNumber x.text := by
  cases x with
  | finite => exact absurd h.symm Bool.false_ne_true
  | infinite negative =>
    have hinfinity : ShowsNoNumber "Infinity" := .inr (List.infix_refl _)
    cases negative with
    | false => exact hinfinity
    | true => exact hinfinity.append_right "-"
  | undefined => exact .inl (List.infix_refl _)

/-- All parts of a finite duration are finite. -/
theorem lacksWords_duration (h : x.isFinite = true) : LacksWords (Duration.text x) := by
  obtain ⟨bound, hbound, hx⟩ := exists_isWithin h
  have hwhole : x.trunc.abs.IsWithin bound := (hx.trunc hbound).abs hbound
  have hnonneg : 0 ≤ x.trunc.abs := Number.abs_nonneg (hx.trunc hbound).ne_undefined
  have hhours : (x.trunc.abs / 3600).floor.isFinite = true := by
    rw [numeral_eq_finite (n := 3600) (by decide)]
    exact ((hwhole.div hbound (by norm_num)).floor hbound
      (Number.div_nonneg (by norm_num) hnonneg)).isFinite
  have hminutes : (x.trunc.abs % 3600 / 60).floor.isFinite = true := by
    rw [numeral_eq_finite (n := 3600) (by decide), numeral_eq_finite (n := 60) (by decide)]
    exact (((hwhole.rem hbound (by norm_num) hnonneg).div hbound (by norm_num)).floor hbound
      (Number.div_nonneg (by norm_num) (rem_nonneg hwhole (by norm_num) hnonneg))).isFinite
  have hseconds : (x.trunc.abs % 60).isFinite = true := by
    rw [numeral_eq_finite (n := 60) (by decide)]
    exact (hwhole.rem hbound (by norm_num) hnonneg).isFinite
  have hrest : LacksWords ((x.trunc.abs % 60).text ++ "s") :=
    (lacksWords_text hseconds).append (by decide)
  have hsign : LacksWords (if x.trunc < 0 then "-" else "") := by
    split <;> decide
  have hcount {s unit : String} {y : Number} (hs : LacksWords s) (hy : y.isFinite = true)
      (hunit : LacksWords unit) : LacksWords (s ++ y.text ++ unit) :=
    (hs.append (lacksWords_text hy)).append hunit
  simp only [Duration.text]
  split
  · exact (hcount (hcount hsign hhours (by decide)) hminutes (by decide)).append hrest
  · split
    · exact (hcount hsign hminutes (by decide)).append hrest
    · exact hsign.append hrest

theorem showsNoNumber_duration (h : x.isFinite = false) : ShowsNoNumber (Duration.text x) := by
  have hseconds : (x.trunc.abs % 60).isFinite = false := by
    rw [numeral_eq_finite (n := 60) (by decide)]
    cases x with
    | finite => exact absurd h.symm Bool.false_ne_true
    | infinite => rfl
    | undefined => rfl
  have hrest := (showsNoNumber_text hseconds).append_left "s"
  simp only [Duration.text]
  split
  · exact hrest.append_right _
  · split
    · exact hrest.append_right _
    · exact hrest.append_right _

theorem lacksWords_unit (x : Number) : LacksWords (Size.scale x Size.units).2 := by
  have hall : ∀ unit ∈ "" :: Size.units, LacksWords unit := by decide
  exact hall _ (Size.unit_mem x Size.units)

theorem lacksWords_size (h : -greatestRounded ≤ a) : LacksWords (Size.text (finite a ha)) := by
  rw [Size.text_eq]
  exact (lacksWords_text ((Size.isFinite_rounded_iff ha).mpr h)).append (lacksWords_unit _)

theorem showsNoNumber_size (h : a < -greatestRounded) : ShowsNoNumber (Size.text (finite a ha)) := by
  have hinfinite := mt (Size.isFinite_rounded_iff ha).mp h.not_ge
  rw [Size.text_eq]
  exact (showsNoNumber_text (Bool.eq_false_iff.mpr hinfinite)).append_left _

/-! ### Parts -/

theorem lacksWords_repeated {c : Char} (hc : c ≠ 'N' ∧ c ≠ 'I') (x : Number) :
    LacksWords (repeated c x) := by
  have hletter {d : Char} (hd : c ≠ d) : d ∉ (repeated c x).toList := by
    rw [repeated, String.toList_ofList]
    exact fun hmem => hd (List.eq_of_mem_replicate hmem).symm
  exact ⟨hletter hc.1, hletter hc.2⟩

theorem lacksWords_bar (percentage : Number) : LacksWords (bar percentage) := by
  refine LacksWords.append ?_ (by decide)
  refine LacksWords.append ?_ (lacksWords_repeated (by decide) _)
  refine LacksWords.append ?_ (by decide)
  exact LacksWords.append (by decide) (lacksWords_repeated (by decide) _)

theorem lacksWords_sizeColumn (h : -greatestRounded ≤ a) :
    LacksWords (sizeColumn (finite a ha)) := by
  refine LacksWords.append ?_ (lacksWords_size h)
  rw [lacksWords_iff, String.toList_ofList]
  exact ⟨fun hmem => absurd (List.eq_of_mem_replicate hmem) (by decide),
    fun hmem => absurd (List.eq_of_mem_replicate hmem) (by decide)⟩

theorem showsNoNumber_sizeColumn (h : a < -greatestRounded) :
    ShowsNoNumber (sizeColumn (finite a ha)) :=
  (showsNoNumber_size h).append_right _

theorem lacksWords_numbers {units : String} (hsize : units.isEmpty = true → -greatestRounded ≤ a)
    (hpos : 0 < b) : LacksWords (numbers (finite a ha) (finite b hb) units) := by
  have hgreatest := greatestRounded_pos
  have hcurrent : LacksWords (finite a ha).text := lacksWords_text rfl
  have htotal : LacksWords (finite b hb).text := lacksWords_text rfl
  unfold numbers
  split
  · rename_i hunits
    have hcolumn : LacksWords (sizeColumn (finite a ha)) := lacksWords_sizeColumn (hsize hunits)
    rw [counts, if_pos hunits]
    split
    · exact hcolumn
    · exact (hcolumn.append (by decide)).append (lacksWords_size (by linarith))
  · split
    · exact hcurrent.append (by decide)
    · exact ((hcurrent.append (by decide)).append htotal).append (by decide)

theorem showsNoNumber_numbers {units : String} (hunits : units.isEmpty = true)
    (hsize : a < -greatestRounded) : ShowsNoNumber (numbers (finite a ha) x units) := by
  have hcolumn : ShowsNoNumber (sizeColumn (finite a ha)) := showsNoNumber_sizeColumn hsize
  rw [numbers, if_pos hunits, counts, if_pos hunits]
  split
  · exact hcolumn
  · rw [String.append_assoc]
    exact hcolumn.append_left _

theorem leastSize_eq : leastSize =
    finite (-greatestRounded) (representable_neg greatestRounded_representable) := by
  decide +kernel

theorem numbers_overflow (hwhole : p.IsWhole) (hpos : 0 < p.total.getD 0) :
    (p.SizeOverflows → ShowsNoNumber (p.parts v).numbers) ∧
      (¬ p.SizeOverflows → LacksWords (p.parts v).numbers) := by
  obtain ⟨a, ha, hcurrent⟩ := exists_of_forall_isInteger hwhole.current
  obtain ⟨b, hb, htotal⟩ := exists_of_forall_isInteger hwhole.total
  have hnumbers : (p.parts v).numbers = if p.hideCounts.getD false then "" else
      numbers (p.current.getD 0) (p.total.getD 0) (p.units.getD []).string := by
    have hknown : ¬ p.total.getD 0 ≤ 0 := fun h => Number.not_lt_of_le h hpos
    rw [parts, if_neg (fun h => hknown h.2), if_neg hknown]
  rw [htotal, zero_lt_finite] at hpos
  rw [hnumbers, SizeOverflows, hcurrent, htotal, leastSize_eq, finite_lt_finite]
  constructor
  · rintro ⟨hshown, hunits, hsize⟩
    rw [hshown, if_neg Bool.false_ne_true]
    exact showsNoNumber_numbers hunits hsize
  · intro hnone
    split
    · decide
    · rename_i hshown
      refine lacksWords_numbers (fun hunits => ?_) hpos
      by_contra hsize
      exact hnone ⟨Bool.eq_false_iff.mpr hshown, hunits, not_le.mp hsize⟩

theorem estimate_overflow (hpos : 0 < p.total.getD 0) :
    (p.EstimateOverflows v → ShowsNoNumber (p.parts v).estimate) ∧
      (¬ p.EstimateOverflows v → LacksWords (p.parts v).estimate) := by
  have hseconds : (p.timeLeft v.now).isFinite =
      (nanosLeft (p.current.getD 0) (p.total.getD 0) (p.start.getD 0) v.now).isFinite := by
    rw [timeLeft, secondsLeft_eq, numeral_eq_finite (n := 1000000000) (by decide)]
    exact isFinite_div (by norm_num)
  rw [estimate_eq hpos, EstimateOverflows, ← hseconds]
  constructor
  · rintro ⟨hdue, hwide, hbeyond⟩
    rw [if_pos ⟨hdue, hwide⟩]
    exact (showsNoNumber_duration hbeyond).append_right _
  · intro hnone
    split
    · rename_i hshown
      have hfinite : (p.timeLeft v.now).isFinite = true := by
        by_contra hbeyond
        exact hnone ⟨hshown.1, hshown.2, Bool.eq_false_iff.mpr hbeyond⟩
      exact LacksWords.append (by decide) (lacksWords_duration hfinite)
    · decide

/-- Without a total there is nothing that can overflow. -/
theorem lacksWords_of_unknown_total (hwhole : p.IsWhole) (hunknown : ¬ 0 < p.total.getD 0) :
    LacksWords (p.parts v).textBesideUnits := by
  obtain ⟨a, ha, hcurrent⟩ := exists_of_forall_isInteger hwhole.current
  obtain ⟨b, hb, htotal⟩ := exists_of_forall_isInteger hwhole.total
  have htotal_le : p.total.getD 0 ≤ 0 := by
    rw [htotal, zero_lt_finite, not_lt] at hunknown
    rw [htotal]
    exact finite_le_zero.mpr hunknown
  by_cases hnothing : p.current.getD 0 ≤ 0 ∧ p.total.getD 0 ≤ 0
  · rw [parts, if_pos hnothing]
    decide
  · have hpos : (0 : Rat) < a := by
      by_contra hle
      rw [hcurrent] at hnothing
      exact hnothing ⟨finite_le_zero.mpr (not_lt.mp hle), htotal_le⟩
    have hgreatest := greatestRounded_pos
    have hempty : LacksWords "" := by decide
    have hnumbers : LacksWords (if (p.units.getD []).string.isEmpty then
        sizeColumn (p.current.getD 0) else (p.current.getD 0).text ++ " ") := by
      rw [hcurrent]
      split
      · exact lacksWords_sizeColumn (by linarith)
      · exact (lacksWords_text rfl).append (by decide)
    rw [parts, if_neg hnothing, if_pos htotal_le]
    exact (hempty.append hnumbers).append hempty

theorem showsNoNumber_iff (hwhole : p.IsWhole) : ShowsNoNumber (p.parts v).textBesideUnits ↔
    0 < p.total.getD 0 ∧ (p.EstimateOverflows v ∨ p.SizeOverflows) := by
  by_cases hpos : 0 < p.total.getD 0
  · obtain ⟨hnumbers, hnumbers'⟩ := numbers_overflow (v := v) hwhole hpos
    obtain ⟨hestimate, hestimate'⟩ := estimate_overflow (v := v) hpos
    have hbar : LacksWords (p.parts v).bar := by
      have hknown : ¬ p.total.getD 0 ≤ 0 := fun h => Number.not_lt_of_le h hpos
      rw [parts, if_neg (fun h => hknown h.2), if_neg hknown]
      dsimp only
      split
      · exact lacksWords_bar _
      · decide
    constructor
    · intro hshown
      by_contra hnone
      obtain ⟨htime, hsize⟩ := not_or.mp fun h => hnone ⟨hpos, h⟩
      exact ((hbar.append (hnumbers' hsize)).append (hestimate' htime)).not_showsNoNumber hshown
    · rintro ⟨-, htime | hsize⟩
      · exact (hestimate htime).append_right _
      · exact ((hnumbers hsize).append_right _).append_left _
  · exact iff_of_false (lacksWords_of_unknown_total hwhole hpos).not_showsNoNumber
      fun h => hpos h.1

/-! ### Integers of 53 bits -/

/-- The greatest product on the way to an estimate has 138 bits. -/
theorem isFinite_nanosLeft_of_isSafe (hsafe : p.IsSafe) (hpos : 0 < p.current.getD 0)
    (hclock : ∃ ms : Int, now = some ms ∧ ms.natAbs ≤ Clock.range) :
    (nanosLeft (p.current.getD 0) (p.total.getD 0) (p.start.getD 0) now).isFinite = true := by
  obtain ⟨a, ha, hcurrent⟩ := exists_of_forall_isInteger hsafe.current
  obtain ⟨b, hb, htotal⟩ := exists_of_forall_isInteger hsafe.total
  obtain ⟨s, hs, hstart⟩ := exists_of_forall_isInteger hsafe.start
  obtain ⟨ms, rfl, hms⟩ := hclock
  have hcurrent_lt := hsafe.current_lt
  have htotal_lt := hsafe.total_lt
  have hstart_lt := hsafe.start_lt
  rw [hcurrent] at hpos hcurrent_lt
  rw [htotal] at htotal_lt
  rw [hstart] at hstart_lt
  rw [hcurrent, htotal, hstart]
  have hone : (1 : Rat) ≤ a := by
    rw [zero_lt_finite] at hpos
    have hinteger : 0 < a := by exact_mod_cast hpos
    exact_mod_cast hinteger
  have hmillis : (Clock.millis (some ms)).IsWithin (2 ^ (63 : Int)) := by
    have hsmall : ms.natAbs < significandBound := Nat.lt_of_le_of_lt hms (by decide)
    exact (isWithin_ofInt hsmall).mono (two_zpow_le (by decide))
  have hthousand : (1000 : Number).IsWithin (2 ^ (10 : Int)) :=
    isWithin_numeral (by decide) (by norm_num)
  have hmillion : (1000000 : Number).IsWithin (2 ^ (20 : Int)) :=
    isWithin_numeral (by decide) (by norm_num)
  have hmicros : (finite s hs * 1000).IsWithin (2 ^ (63 : Int)) :=
    (isWithin_of_wholePart hstart_lt).mul hthousand (by decide) (by decide)
  have helapsed : (elapsedNanos (finite s hs) (some ms)).IsWithin (2 ^ (84 : Int)) :=
    (hmillis.sub hmicros (by decide) (by decide)).mul hmillion (by decide) (by decide)
  have hbound : Representable (2 ^ (84 : Int)) := representable_two_zpow (by decide) (by decide)
  have hunit : (nanosPerUnit (finite a ha) (finite s hs) (some ms)).IsWithin (2 ^ (84 : Int)) :=
    (helapsed.div hbound hone).trunc hbound
  have hleft : (finite b hb - finite a ha).IsWithin (2 ^ (54 : Int)) :=
    (isWithin_of_wholePart htotal_lt).sub (isWithin_of_wholePart hcurrent_lt) (by decide)
      (by decide)
  exact (hleft.mul hunit (by decide) (by decide)).isFinite

theorem not_overflows_of_isSafe (hsafe : p.IsSafe)
    (hclock : ∃ ms : Int, v.now = some ms ∧ ms.natAbs ≤ Clock.range) :
    ¬ (p.EstimateOverflows v ∨ p.SizeOverflows) := by
  rintro (⟨hdue, -, hbeyond⟩ | ⟨-, -, hsize⟩)
  · rw [isFinite_nanosLeft_of_isSafe hsafe hdue.1 hclock] at hbeyond
    exact absurd hbeyond.symm Bool.false_ne_true
  · obtain ⟨a, ha, hcurrent⟩ := exists_of_forall_isInteger hsafe.current
    have hcurrent_lt := hsafe.current_lt
    rw [hcurrent, wholePart_intCast] at hcurrent_lt
    rw [hcurrent, leastSize_eq, finite_lt_finite] at hsize
    have hgreatest : (significandBound : Rat) ≤ greatestRounded := by
      rw [significandBound_cast, greatestRounded]
      exact (two_zpow_le (by decide)).trans
        (le_mul_of_one_le_left (two_zpow_pos 971).le (by norm_num))
    have hge : -(significandBound : Int) ≤ a := by omega
    have hcast : -(significandBound : Rat) ≤ a := by exact_mod_cast hge
    linarith

/-! ### Accepted records -/

/-- Validation lets only integers through. -/
theorem isWhole_of_ofJson {value : Json} {m : Message} (hread : Message.ofJson value = .ok m)
    (hdetail : m.progressDetail = some p) : p.IsWhole := by
  obtain ⟨-, hsound, hfields⟩ := Message.ofJson_eq_ok.mp hread
  have hinteger {get : Progress → Option Number} {name : String}
      (hmem : ⟨["progressDetail", name], .integer⟩ ∈ Message.knownFields)
      (hget : (m.progressDetail.bind get).map .number = value.at? ["progressDetail", name]) :
      ∀ x ∈ get p, x.isInteger = true := by
    intro x hx
    rw [hdetail, Option.bind_some, Option.mem_def.mp hx] at hget
    exact hsound _ hmem (.number x) hget.symm
  exact ⟨hinteger (by decide) hfields.current, hinteger (by decide) hfields.total,
    hinteger (by decide) hfields.start⟩

/-- Records that are accepted overflow a fragment in two ways. Beside the label of the units its
text has a word in the place of a number exactly if there is a total, and either the nanoseconds
left are beyond all numbers where the time left is shown, or the current count is shown as a size so
far below zero that its four digits are. Records of 53-bit integers never do, as long as the clock
shows a date. -/
theorem fragment_overflows_iff {value : Json} {m : Message}
    (hread : Message.ofJson value = .ok m) (hdetail : m.progressDetail = some p) (v : Viewport) :
    p.fragment v = (p.parts v).text ∧
      (ShowsNoNumber (p.parts v).textBesideUnits ↔
        0 < p.total.getD 0 ∧ (p.EstimateOverflows v ∨ p.SizeOverflows)) ∧
      (p.IsSafe → (∃ ms : Int, v.now = some ms ∧ ms.natAbs ≤ Clock.range) →
        ¬ ShowsNoNumber (p.parts v).textBesideUnits) := by
  have hwhole := isWhole_of_ofJson hread hdetail
  refine ⟨(text_parts p v).symm, showsNoNumber_iff hwhole, fun hsafe hclock hshown => ?_⟩
  exact not_overflows_of_isSafe hsafe hclock ((showsNoNumber_iff hwhole).mp hshown).2

/-- The greatest total of 53 bits is shown with a number of seconds on the last of all dates. -/
theorem greatest_safe_total_does_not_overflow :
    let p : Progress :=
      { current := some 1, total := some 9007199254740991, start := some 1 }
    let v : Viewport := { width := some 80, now := some 8640000000000000 }
    p.EstimateDue ∧ ¬ ShowsNoNumber (p.parts v).textBesideUnits := by
  intro p v
  have haccepted : (Message.ofJson (Message.toJson { progressDetail := some p })).toOption.bind
      (·.progressDetail) = some p := by decide +kernel
  have hsafe : p.IsSafe := {
    current := by decide +kernel
    total := by decide +kernel
    start := by decide +kernel
    current_lt := by decide +kernel
    total_lt := by decide +kernel
    start_lt := by decide +kernel }
  cases hread : Message.ofJson (Message.toJson { progressDetail := some p }) with
  | error defect =>
    rw [hread] at haccepted
    cases haccepted
  | ok m =>
    rw [hread] at haccepted
    exact ⟨by decide +kernel,
      (fragment_overflows_iff hread haccepted v).2.2 hsafe ⟨_, rfl, by decide⟩⟩

/-- A record with a total of 10³⁰⁰ is accepted, and the time left is no number one second after its
start. -/
theorem huge_total_overflows_estimate :
    let p : Progress :=
      { current := some 1, total := some (.ofDecimal false 1 300), start := some 1 }
    let v : Viewport := { width := some 80, now := some 2000 }
    (Message.ofJson (Message.toJson { progressDetail := some p })).toOption.bind
      (·.progressDetail) = some p ∧ ShowsNoNumber (p.parts v).textBesideUnits := by
  decide +kernel

end LiveProgress.Progress

import LiveProgress.Proofs.Display.Bar
import LiveProgress.Proofs.Number.Characters

/-!
# The time left

The estimate of the time left is a product of what is left and of what one unit has taken, which is
a quotient cut off. Once the clock has reached the start neither factor is negative, and with more
units done both of them become less. So does the estimate, however it is rounded, even where it is
beyond all numbers.
-/

namespace LiveProgress

/-! ### Durations -/

namespace Duration

open Number

/-- A duration has a sign in front only if it is negative. -/
theorem head?_text_ne {x : Number} (h : 0 ≤ x) : (text x).toList.head? ≠ some '-' := by
  have hwhole : 0 ≤ x.trunc := trunc_nonneg h
  have hmagnitude : 0 ≤ x.trunc.abs := Number.abs_nonneg (ne_undefined_of_le hwhole).2
  have hrest : ¬ x.trunc.abs % 60 < 0 := by
    rw [numeral_eq_finite (n := 60) (by decide)]
    exact rem_not_neg (by norm_num) hmagnitude
  unfold text
  dsimp only
  rw [if_neg (Number.not_lt_of_le hwhole)]
  split
  · rename_i hhours
    have hhead := Number.head?_text_ne (Number.not_lt_of_le (Number.le_of_lt hhours))
    simp only [String.empty_append, String.toList_append, List.append_assoc]
    exact head?_append_ne hhead (by simp)
  · split
    · rename_i hminutes
      have hhead := Number.head?_text_ne (Number.not_lt_of_le (Number.le_of_lt hminutes))
      simp only [String.empty_append, String.toList_append, List.append_assoc]
      exact head?_append_ne hhead (by simp)
    · rw [String.empty_append, String.toList_append]
      exact head?_append_ne (Number.head?_text_ne hrest) (by decide)

end Duration

namespace Progress

open Number

variable {p p' : Progress} {v : Viewport} {now : Clock} {a b : Rat} {ha : Representable a}
  {hb : Representable b}

/-! ### When there is an estimate -/

/-- Only a bar that is not full lets an estimate be shown. -/
theorem percentage_lt_barCells_iff (hpos : 0 < b) :
    percentage (finite a ha) (finite b hb) < barCells ↔ a < b := by
  have hcells : barCells ≠ undefined := by
    rw [barCells_eq_finite]
    simp
  rw [percentage_finite ha hb hpos, min_lt_left_iff hcells, ← not_le,
    ← barCells_le_cellsOf_iff ha hb hpos, ← Number.not_lt (cellsOf_ne_undefined _) hcells, not_not]

theorem estimateDue_iff (hwhole : p.IsWhole) (hpos : 0 < p.total.getD 0) :
    p.EstimateDue ↔ 0 < p.current.getD 0 ∧ 0 < p.start.getD 0 ∧
      p.current.getD 0 < p.total.getD 0 := by
  obtain ⟨a, ha, hcurrent⟩ := exists_of_forall_isInteger hwhole.current
  obtain ⟨b, hb, htotal⟩ := exists_of_forall_isInteger hwhole.total
  rw [htotal, zero_lt_finite] at hpos
  rw [EstimateDue, hcurrent, htotal, percentage_lt_barCells_iff hpos, finite_lt_finite]

theorem estimate_eq (hpos : 0 < p.total.getD 0) :
    (p.parts v).estimate = if p.EstimateDue ∧ estimateWidth < v.columns then
      " " ++ Duration.text (p.timeLeft v.now) else "" := by
  have hknown : ¬ p.total.getD 0 ≤ 0 := fun h => Number.not_lt_of_le h hpos
  rw [parts, if_neg (fun h => hknown h.2), if_neg hknown]
  rfl

/-! ### What has elapsed -/

/-- Rounding does not put the start behind a clock that has reached it. -/
theorem elapsedNanos_nonneg (hwhole : p.IsWhole) (hbegun : p.HasBegun now) :
    0 ≤ elapsedNanos (p.start.getD 0) now := by
  obtain ⟨s, hs, hstart⟩ := exists_of_forall_isInteger hwhole.start
  obtain ⟨ms, rfl, hvalid, hreached⟩ := hbegun
  have hsmall : ms.natAbs < significandBound := Nat.lt_of_le_of_lt hvalid (by decide)
  have hmillis : Clock.millis (some ms) = finite ms (representable_intCast hsmall) :=
    ofInt_eq_finite hsmall
  rw [hstart, wholePart_intCast] at hreached
  have hreached' : (s : Rat) * (1000 : Nat) ≤ ms := by exact_mod_cast hreached
  have hstart_le : finite s hs * 1000 ≤ finite ms (representable_intCast hsmall) := by
    rw [numeral_eq_finite (n := 1000) (by decide), finite_mul_finite, ← ofInt_eq_finite hsmall]
    exact ofRat_mono hreached'
  rw [elapsedNanos, hmillis, hstart, numeral_eq_finite (n := 1000000) (by decide), Number.mul_comm]
  exact Number.mul_nonneg (by norm_num) (Number.sub_nonneg hstart_le)

theorem nanosPerUnit_nonneg (hpos : 0 < a) {start : Number} (h : 0 ≤ elapsedNanos start now) :
    0 ≤ nanosPerUnit (finite a ha) start now :=
  trunc_nonneg (Number.div_nonneg hpos h)

/-- With more units done one of them has taken less. -/
theorem nanosPerUnit_le (hpos : 0 < a) (hle : a ≤ b) {start : Number}
    (h : 0 ≤ elapsedNanos start now) :
    nanosPerUnit (finite b hb) start now ≤ nanosPerUnit (finite a ha) start now :=
  trunc_le_trunc (finite_div_le_finite_div hpos hle h)

/-! ### What is left -/

/-- Of integers below the total some unit is left, as a number. -/
theorem exists_left {c t : Int} (hc : Representable c) (ht : Representable t) (hpos : 0 < c)
    (hlt : c < t) : ∃ hr, finite t ht - finite c hc = finite (rounded (t - c)) hr ∧
      (0 : Rat) < rounded (t - c) := by
  have hc0 : (0 : Rat) < c := by exact_mod_cast hpos
  have hone : (1 : Rat) ≤ t - c := by
    have hsucc : c + 1 ≤ t := hlt
    have hcast : (c : Rat) + 1 ≤ t := by exact_mod_cast hsucc
    linarith
  have hbound : |(t : Rat) - c| ≤ |(t : Rat)| := by
    rw [abs_of_nonneg (by linarith), abs_of_nonneg (by linarith)]
    linarith
  obtain ⟨hr, hvalue, -⟩ := ofRat_of_abs_le ht hbound
  have hrounded : rounded 1 ≤ rounded (t - c) := rounded_mono hone
  have hone_eq : rounded 1 = 1 := by
    exact_mod_cast rounded_of_representable (representable_natCast (n := 1) (by decide))
  rw [hone_eq] at hrounded
  exact ⟨hr, by rw [finite_sub_finite, hvalue], by linarith⟩

theorem secondsLeft_eq (current total start : Number) (now : Clock) :
    secondsLeft current total start now = nanosLeft current total start now / 1000000000 := rfl

theorem secondsLeft_nonneg {c t : Int} {hc : Representable c} {ht : Representable t} (hpos : 0 < c)
    (hlt : c < t) {start : Number} (h : 0 ≤ elapsedNanos start now) :
    0 ≤ secondsLeft (finite c hc) (finite t ht) start now := by
  obtain ⟨hr, hleft, hleft_pos⟩ := exists_left hc ht hpos hlt
  have hper : 0 ≤ nanosPerUnit (finite c hc) start now :=
    nanosPerUnit_nonneg (by exact_mod_cast hpos) h
  rw [secondsLeft_eq, nanosLeft, hleft, numeral_eq_finite (n := 1000000000) (by decide)]
  exact Number.div_nonneg (by norm_num) (Number.mul_nonneg hleft_pos hper)

theorem secondsLeft_le {c d t : Int} {hc : Representable c} {hd : Representable d}
    {ht : Representable t} (hpos : 0 < c) (hle : c ≤ d) (hlt : d < t) {start : Number}
    (h : 0 ≤ elapsedNanos start now) :
    secondsLeft (finite d hd) (finite t ht) start now ≤
      secondsLeft (finite c hc) (finite t ht) start now := by
  obtain ⟨hr, hleft, hleft_pos⟩ := exists_left hc ht hpos (hle.trans_lt hlt)
  obtain ⟨hr', hleft', hleft_pos'⟩ := exists_left hd ht (hpos.trans_le hle) hlt
  have hcd : (c : Rat) ≤ d := by exact_mod_cast hle
  have hless : rounded (t - d) ≤ rounded (t - c) := rounded_mono (by linarith)
  have hper : nanosPerUnit (finite d hd) start now ≤ nanosPerUnit (finite c hc) start now :=
    nanosPerUnit_le (by exact_mod_cast hpos) hcd h
  have hper_nonneg : 0 ≤ nanosPerUnit (finite c hc) start now :=
    nanosPerUnit_nonneg (by exact_mod_cast hpos) h
  rw [secondsLeft_eq, secondsLeft_eq, nanosLeft, nanosLeft, hleft, hleft',
    numeral_eq_finite (n := 1000000000) (by decide)]
  apply div_le_div_right (by norm_num)
  calc finite (rounded (t - d)) hr' * nanosPerUnit (finite d hd) start now
      ≤ finite (rounded (t - d)) hr' * nanosPerUnit (finite c hc) start now :=
        mul_le_mul_left hleft_pos' hper
    _ ≤ finite (rounded (t - c)) hr * nanosPerUnit (finite c hc) start now :=
        finite_mul_le_finite_mul hleft_pos' hless hper_nonneg

/-! ### Estimates -/

/-- Records of which some units are done, but not all, on a clock that has reached their start. -/
structure IsUnderway (p : Progress) (now : Clock) : Prop extends p.IsWhole where
  begun : p.HasBegun now
  pos : 0 < p.current.getD 0
  lt : p.current.getD 0 < p.total.getD 0

theorem IsUnderway.timeLeft_nonneg (h : p.IsUnderway now) : 0 ≤ p.timeLeft now := by
  have hpos := h.pos
  have hlt := h.lt
  obtain ⟨c, hc, hcurrent⟩ := exists_of_forall_isInteger h.current
  obtain ⟨t, ht, htotal⟩ := exists_of_forall_isInteger h.total
  rw [hcurrent, htotal, finite_lt_finite] at hlt
  rw [hcurrent, zero_lt_finite] at hpos
  rw [timeLeft, hcurrent, htotal]
  exact secondsLeft_nonneg (by exact_mod_cast hpos) (by exact_mod_cast hlt)
    (elapsedNanos_nonneg h.toIsWhole h.begun)

/-- With more units done less time is left. -/
theorem IsUnderway.timeLeft_le (h : p.IsUnderway now) (h' : p'.IsUnderway now)
    (htotal' : p.total.getD 0 = p'.total.getD 0) (hstart' : p.start.getD 0 = p'.start.getD 0)
    (hle : p.current.getD 0 ≤ p'.current.getD 0) : p'.timeLeft now ≤ p.timeLeft now := by
  have hpos := h.pos
  have hlt := h'.lt
  obtain ⟨c, hc, hcurrent⟩ := exists_of_forall_isInteger h.current
  obtain ⟨d, hd, hcurrent'⟩ := exists_of_forall_isInteger h'.current
  obtain ⟨t, ht, htotal⟩ := exists_of_forall_isInteger h.total
  rw [hcurrent, zero_lt_finite] at hpos
  rw [hcurrent, hcurrent', finite_le_finite] at hle
  rw [hcurrent', ← htotal', htotal, finite_lt_finite] at hlt
  rw [timeLeft, timeLeft, ← htotal', ← hstart', hcurrent, hcurrent', htotal]
  exact secondsLeft_le (by exact_mod_cast hpos) (by exact_mod_cast hle) (by exact_mod_cast hlt)
    (elapsedNanos_nonneg h.toIsWhole h.begun)

/-- The estimate of the time left is sound. It is the last part of the fragment, and is there
exactly if some units are done, but not all of them, since a start that is known, in a window that
is wide enough. Once the clock has reached the start it is not negative, and has no more whole
seconds when more units are done. -/
theorem estimate_is_sound :
    (∀ (p : Progress) (v : Viewport), p.IsWhole → 0 < p.total.getD 0 →
      p.fragment v = (p.parts v).text ∧
      ((p.parts v).estimate ≠ "" ↔ 0 < p.current.getD 0 ∧ 0 < p.start.getD 0 ∧
        p.current.getD 0 < p.total.getD 0 ∧ estimateWidth < v.columns) ∧
      ((p.parts v).estimate ≠ "" →
        (p.parts v).estimate = " " ++ Duration.text (p.timeLeft v.now)) ∧
      (p.HasBegun v.now → (p.parts v).estimate ≠ "" → 0 ≤ p.timeLeft v.now ∧
        (Duration.text (p.timeLeft v.now)).toList.head? ≠ some '-')) ∧
    ∀ (p p' : Progress) (now : Clock), p.IsWhole → p'.IsWhole →
      p.total.getD 0 = p'.total.getD 0 → p.start.getD 0 = p'.start.getD 0 → p.HasBegun now →
      0 < p.current.getD 0 → p.current.getD 0 ≤ p'.current.getD 0 →
      p'.current.getD 0 < p'.total.getD 0 → (p'.timeLeft now).trunc ≤ (p.timeLeft now).trunc := by
  constructor
  · intro p v hwhole hpos
    have hdue := estimateDue_iff hwhole hpos
    have hshown : (p.parts v).estimate ≠ "" ↔ p.EstimateDue ∧ estimateWidth < v.columns := by
      rw [estimate_eq hpos]
      split
      · rename_i h
        exact iff_of_true (by simp [String.append_eq_empty_iff]) h
      · rename_i h
        exact iff_of_false (fun hne => hne rfl) h
    refine ⟨(text_parts p v).symm, ?_, fun hne => ?_, fun hbegun hne => ?_⟩
    · rw [hshown, hdue]
      simp only [and_assoc]
    · rw [estimate_eq hpos, if_pos (hshown.mp hne)]
    · obtain ⟨hcurrent, -, hlt⟩ := hdue.mp (hshown.mp hne).1
      have hunderway : p.IsUnderway v.now := ⟨hwhole, hbegun, hcurrent, hlt⟩
      have hnonneg := hunderway.timeLeft_nonneg
      exact ⟨hnonneg, Duration.head?_text_ne hnonneg⟩
  · intro p p' now hwhole hwhole' htotal hstart hbegun hpos hle hlt
    have hbegun' : p'.HasBegun now := by
      rw [HasBegun, ← hstart]
      exact hbegun
    have hless : p.current.getD 0 < p.total.getD 0 := by
      rw [htotal]
      exact Number.lt_of_le_of_lt hle hlt
    have hunderway : p.IsUnderway now := ⟨hwhole, hbegun, hpos, hless⟩
    have hunderway' : p'.IsUnderway now :=
      ⟨hwhole', hbegun', Number.lt_of_lt_of_le hpos hle, hlt⟩
    exact trunc_le_trunc (hunderway.timeLeft_le hunderway' htotal hstart hle)

/-- When six seconds have elapsed, one unit of three done leaves twelve more, and two units leave
three. -/
theorem estimate_of_three_units :
    let p : Progress := { current := some 1, total := some 3, start := some 1 }
    let q : Progress := { current := some 2, total := some 3, start := some 1 }
    let v : Viewport := { width := some 80, now := some 7000 }
    (p.parts v).estimate = " 12s" ∧ 0 ≤ p.timeLeft v.now ∧
      (q.timeLeft v.now).trunc ≤ (p.timeLeft v.now).trunc := by
  intro p q v
  obtain ⟨hall, hmono⟩ := estimate_is_sound
  have hp : p.IsWhole := ⟨by decide +kernel, by decide +kernel, by decide +kernel⟩
  have hq : q.IsWhole := ⟨by decide +kernel, by decide +kernel, by decide +kernel⟩
  have hbegun : p.HasBegun v.now := ⟨7000, rfl, by decide, by decide +kernel⟩
  obtain ⟨-, hshown, htext, hnonneg⟩ := hall p v hp (by decide +kernel)
  have hne : (p.parts v).estimate ≠ "" := hshown.mpr (by decide +kernel)
  refine ⟨?_, (hnonneg hbegun hne).1, hmono p q v.now hp hq rfl rfl hbegun (by decide +kernel)
    (by decide +kernel) (by decide +kernel)⟩
  rw [htext hne]
  decide +kernel

end Progress
end LiveProgress

import LiveProgress.Proofs.Quantity.Calendar
import LiveProgress.Proofs.Quantity.Fields
import Mathlib.Data.String.Basic

/-!
# The text of a point in time

The text of a number of nanoseconds writes the one date and time of day that is so far from the
epoch, and it can be read back. In the years that take four digits all texts have one length, and
the earlier point in time has the smaller text.
-/

namespace LiveProgress

theorem Date.fields_inj {d e : Date} (h : d.fields = e.fields) : d = e := by
  cases d
  cases e
  simpa [fields] using h

namespace DateTime

variable {t u : DateTime}

/-! ### Instants -/

/-- The fields as quotients and remainders. -/
theorem ofEpochNanos_eq (nanos : Int) :
    ofEpochNanos nanos = {
      date := .ofEpochDays (nanos / 1000000000 / 86400)
      hour := nanos / 1000000000 % 86400 / 3600
      minute := nanos / 1000000000 % 86400 % 3600 / 60
      second := nanos / 1000000000 % 86400 % 60
      nanosecond := nanos % 1000000000 } := by
  have hday : 0 ≤ nanos / 1000000000 % 86400 := by omega
  have hhour : 0 ≤ nanos / 1000000000 % 86400 % 3600 := by omega
  simp only [ofEpochNanos, Calendar.floorDiv_eq_ediv, Calendar.sub_floor,
    Int.tdiv_eq_ediv_of_nonneg hday, Int.tmod_eq_emod_of_nonneg hday,
    Int.tdiv_eq_ediv_of_nonneg hhour, Nat.ofNat_pos]

theorem valid_ofEpochNanos (nanos : Int) : (ofEpochNanos nanos).Valid := by
  have hday : 0 ≤ nanos / 1000000000 % 86400 ∧ nanos / 1000000000 % 86400 < 86400 := by omega
  rw [ofEpochNanos_eq]
  generalize nanos / 1000000000 % 86400 = second at hday
  constructor
  case date => exact Date.valid_ofEpochDays _
  all_goals dsimp only; omega

theorem epochNanos_ofEpochNanos (nanos : Int) : (ofEpochNanos nanos).epochNanos = nanos := by
  simp only [ofEpochNanos_eq, epochNanos, Date.epochDays_ofEpochDays]
  omega

theorem fields_inj (h : t.fields = u.fields) : t = u := by
  obtain ⟨hdate, htime⟩ := List.append_inj h rfl
  have hdate := Date.fields_inj hdate
  cases t
  cases u
  simp_all

/-- The nanoseconds from the beginning of the day. -/
def dayNanos (t : DateTime) : Int :=
  (t.hour * 3600 + t.minute * 60 + t.second) * 1000000000 + t.nanosecond

theorem epochNanos_eq (t : DateTime) :
    t.epochNanos = t.date.epochDays * 86400000000000 + t.dayNanos := by
  rw [epochNanos, dayNanos]
  omega

theorem Valid.dayNanos_bounds (h : t.Valid) : 0 ≤ t.dayNanos ∧ t.dayNanos < 86400000000000 := by
  obtain ⟨-, _, _, _, _, _, _, _, _⟩ := h
  rw [dayNanos]
  omega

theorem Valid.dayNanos_lt (ht : t.Valid) (hu : u.Valid)
    (h : [t.hour, t.minute, t.second, t.nanosecond] < [u.hour, u.minute, u.second, u.nanosecond]) :
    t.dayNanos < u.dayNanos := by
  obtain ⟨-, _, _, _, _, _, _, _, _⟩ := ht
  obtain ⟨-, _, _, _, _, _, _, _, _⟩ := hu
  simp only [List.cons_lt_cons_iff, List.not_lt_nil, and_false, or_false] at h
  rw [dayNanos, dayNanos]
  omega

theorem Valid.epochNanos_lt (ht : t.Valid) (hu : u.Valid) (h : t.fields < u.fields) :
    t.epochNanos < u.epochNanos := by
  rw [epochNanos_eq, epochNanos_eq]
  rcases (append_lt_append_iff (a := t.date.fields) (b := u.date.fields) rfl).mp h with
    hdate | ⟨hdate, htime⟩
  · have hdays := ht.date.epochDays_lt hu.date hdate
    have hday := ht.dayNanos_bounds.2
    have hother := hu.dayNanos_bounds.1
    omega
  · rw [Date.fields_inj hdate]
    exact Int.add_lt_add_left (ht.dayNanos_lt hu htime) _

theorem Valid.fields_lt_iff (ht : t.Valid) (hu : u.Valid) :
    t.fields < u.fields ↔ t.epochNanos < u.epochNanos := by
  refine ⟨ht.epochNanos_lt hu, fun h => ?_⟩
  rcases lt_trichotomy t.fields u.fields with hless | hsame | hgreater
  · exact hless
  · rw [fields_inj hsame] at h
    exact absurd h (Int.lt_irrefl _)
  · exact absurd h (Int.not_lt.mpr (Int.le_of_lt (hu.epochNanos_lt ht hgreater)))

theorem Valid.epochNanos_inj (ht : t.Valid) (hu : u.Valid) (h : t.epochNanos = u.epochNanos) :
    t = u := by
  refine fields_inj (le_antisymm (not_lt.mp fun hless => ?_) (not_lt.mp fun hless => ?_))
  · exact absurd h (Int.ne_of_gt (hu.epochNanos_lt ht hless))
  · exact absurd h (Int.ne_of_lt (ht.epochNanos_lt hu hless))

theorem ofEpochNanos_epochNanos (h : t.Valid) : ofEpochNanos t.epochNanos = t :=
  (valid_ofEpochNanos _).epochNanos_inj h (epochNanos_ofEpochNanos _)

theorem epochNanos_newYear (year : Int) :
    (newYear year).epochNanos = Calendar.yearStart year * 86400000000000 := by
  have hdays : (newYear year).date.epochDays = Calendar.yearStart year := by
    simp [newYear, Date.epochDays, Calendar.daysOfMonths]
  have hday : (newYear year).dayNanos = 0 := rfl
  rw [epochNanos_eq, hdays, hday, Int.add_zero]

theorem Valid.lt_newYear_iff (h : t.Valid) (year : Int) :
    t.epochNanos < (newYear year).epochNanos ↔ t.date.year < year := by
  obtain ⟨hday, hnext⟩ := h.dayNanos_bounds
  rw [epochNanos_newYear, epochNanos_eq]
  constructor
  · intro hlt
    refine Int.not_le.mp fun hle => ?_
    have hstart := Calendar.yearStart_le hle
    have hdate := h.date.yearStart_le
    omega
  · intro hlt
    have hstart := Calendar.yearStart_le (Int.add_one_le_of_lt hlt)
    have hdate := h.date.lt_yearStart
    omega

/-! ### Texts -/

theorem isWritten_text (t : DateTime) : t.IsWritten t.text := by
  refine ⟨(padded 4 t.date.year).toList ++ '-' :: ((padded 2 t.date.month).toList ++ '-' ::
    ((padded 2 t.date.day).toList ++ 'T' :: ((padded 2 t.hour).toList ++ ':' ::
    ((padded 2 t.minute).toList ++ ':' :: ((padded 2 t.second).toList ++ '.' ::
    ((padded 9 t.nanosecond).toList ++ 'Z' :: [])))))), ?_, ?_⟩
  · have hminus : (if t.date.year < 0 then "-" else "").toList =
        if t.date.year < 0 then ['-'] else [] := by
      split <;> rfl
    simp [text, Date.text, clockText, String.toList_append, hminus]
  · refine .cons ?_ (.cons ?_ (.cons ?_ (.cons ?_ (.cons ?_ (.cons ?_ (.cons ?_ .nil))))))
    all_goals exact FieldFormat.writes_padded (by decide) _

theorem IsWritten.unique {s s' : String} (h : t.IsWritten s) (h' : t.IsWritten s') : s = s' := by
  obtain ⟨body, hs, hbody⟩ := h
  obtain ⟨body', hs', hbody'⟩ := h'
  rw [← String.toList_inj, hs, hs', hbody.unique hbody']

/-- No mark of the layout is a digit. -/
theorem isDigit_mark_layout : ∀ f ∈ layout, f.mark.isDigit = false := by decide

/-- Only a year before 0 begins with a minus. -/
theorem head?_eq_minus_iff {ns : List Nat} {body : List Char} (h : Spells layout ns body) :
    (((if t.date.year < 0 then ['-'] else []) ++ body).head? == some '-') =
      decide (t.date.year < 0) := by
  by_cases hyear : t.date.year < 0
  · simp [hyear]
  · obtain ⟨c, rest, rfl, hc⟩ : ∃ c rest, body = c :: rest ∧ c.isDigit = true := by
      cases h with
      | cons hfield _ =>
        obtain ⟨c, digits, rfl⟩ := List.exists_cons_of_length_pos
          (Nat.lt_of_lt_of_le (by decide) hfield.places_le)
        exact ⟨c, _, rfl, hfield.isDigit c List.mem_cons_self⟩
    have hminus : c ≠ '-' := by
      rintro rfl
      exact absurd hc (by decide)
    simp [hyear, hminus]

theorem Valid.ofText?_of_isWritten {s : String} (ht : t.Valid) (h : t.IsWritten s) :
    ofText? s = some t := by
  obtain ⟨body, hs, hbody⟩ := h
  have hnegative : (s.toList.head? == some '-') = decide (t.date.year < 0) := by
    rw [hs, head?_eq_minus_iff hbody]
  have hrest : (if decide (t.date.year < 0) = true then s.toList.tail else s.toList) = body := by
    rw [hs]
    by_cases hyear : t.date.year < 0 <;> simp [hyear]
  have hread := hbody.readFields? isDigit_mark_layout
  have hyear : (if decide (t.date.year < 0) = true then -(t.date.year.natAbs : Int)
      else t.date.year.natAbs) = t.date.year := by
    simp only [decide_eq_true_eq]
    split_ifs <;> omega
  have hmonth := Int.natAbs_of_nonneg (Int.le_trans Int.one_nonneg ht.date.month_pos)
  have hday := Int.natAbs_of_nonneg (Int.le_trans Int.one_nonneg ht.date.day_pos)
  simp only [ofText?, hnegative, hrest, hread, fields, Date.fields, List.cons_append,
    List.nil_append, List.map_cons, List.map_nil, hyear, hmonth, hday,
    Int.natAbs_of_nonneg ht.hour_nonneg, Int.natAbs_of_nonneg ht.minute_nonneg,
    Int.natAbs_of_nonneg ht.second_nonneg, Int.natAbs_of_nonneg ht.nanosecond_nonneg]

theorem ofText?_timestampText (nanos : Int) :
    ofText? (timestampText nanos) = some (ofEpochNanos nanos) :=
  (valid_ofEpochNanos nanos).ofText?_of_isWritten (isWritten_text _)

/-! ### Years of four digits -/

theorem map_natAbs_lt {a b : List Int} (ha : ∀ x ∈ a, 0 ≤ x) (h : a < b) :
    a.map Int.natAbs < b.map Int.natAbs := by
  induction a generalizing b with
  | nil =>
    cases b with
    | nil => exact absurd h (List.not_lt_nil _)
    | cons y b => exact List.nil_lt_cons _ _
  | cons x a ih =>
    obtain ⟨hx, ha⟩ := List.forall_mem_cons.mp ha
    cases b with
    | nil => exact absurd h (List.not_lt_nil _)
    | cons y b =>
      rw [List.map_cons, List.map_cons, List.cons_lt_cons_iff]
      rcases List.cons_lt_cons_iff.mp h with hfirst | ⟨rfl, hlater⟩
      · exact .inl (Int.natAbs_lt_natAbs_of_nonneg_of_lt hx hfirst)
      · exact .inr ⟨rfl, ih ha hlater⟩

/-- A point in time in a year that four digits are enough for. -/
structure InFourDigitYears (t : DateTime) : Prop where
  valid : t.Valid
  year_nonneg : 0 ≤ t.date.year
  year_lt : t.date.year < 10000

namespace InFourDigitYears

theorem fits (h : t.InFourDigitYears) :
    layout.Forall₂ FieldFormat.Fits (t.fields.map Int.natAbs) := by
  obtain ⟨⟨⟨_, _, _, _⟩, _, _, _, _, _, _, _, _⟩, _, _⟩ := h
  have hmonth := Calendar.monthLength_le t.date.year t.date.month
  refine .cons ?_ (.cons ?_ (.cons ?_ (.cons ?_ (.cons ?_ (.cons ?_ (.cons ?_ .nil))))))
  all_goals simp only [FieldFormat.Fits]; omega

theorem fields_nonneg (h : t.InFourDigitYears) : ∀ x ∈ t.fields, 0 ≤ x := by
  obtain ⟨⟨⟨_, _, _, _⟩, _, _, _, _, _, _, _, _⟩, _, _⟩ := h
  intro x hx
  simp only [fields, Date.fields, List.cons_append, List.nil_append, List.mem_cons, List.not_mem_nil,
    or_false] at hx
  omega

theorem spells_text (h : t.InFourDigitYears) :
    Spells layout (t.fields.map Int.natAbs) t.text.toList := by
  obtain ⟨body, hs, hbody⟩ := isWritten_text t
  rw [hs, if_neg (Int.not_lt.mpr h.year_nonneg)]
  exact hbody

theorem length_text (h : t.InFourDigitYears) : t.text.length = 30 :=
  h.spells_text.length_eq h.fits

theorem text_lt (ht : t.InFourDigitYears) (hu : u.InFourDigitYears)
    (h : t.epochNanos < u.epochNanos) : t.text < u.text := by
  have hfields := (ht.valid.fields_lt_iff hu.valid).mpr h
  have hnumbers := map_natAbs_lt ht.fields_nonneg hfields
  exact String.lt_iff_toList_lt.mpr <|
    ht.spells_text.lt hu.spells_text ht.fits hu.fits hnumbers

end InFourDigitYears

theorem inFourDigitYears_ofEpochNanos {nanos : Int} (hfrom : (newYear 0).epochNanos ≤ nanos)
    (hto : nanos < (newYear 10000).epochNanos) : (ofEpochNanos nanos).InFourDigitYears := by
  have hvalid := valid_ofEpochNanos nanos
  have hbounds := hvalid.lt_newYear_iff
  rw [epochNanos_ofEpochNanos] at hbounds
  exact ⟨hvalid, Int.not_lt.mp fun hyear => Int.not_lt.mpr hfrom ((hbounds 0).mpr hyear),
    (hbounds 10000).mp hto⟩

end DateTime

/-! ### Main results -/

open DateTime

/-- The text of a number of nanoseconds is that of the one date and time of day of the calendar that
is so far from the epoch. It is read back as the number, so no other number has it. -/
theorem timestampText_writes_its_instant (nanos : Int) :
    (∃ t : DateTime, t.Valid ∧ t.epochNanos = nanos ∧
      (∀ u : DateTime, u.Valid → u.epochNanos = nanos → u = t) ∧
      ∀ s, t.IsWritten s ↔ s = timestampText nanos) ∧
    (ofText? (timestampText nanos)).map epochNanos = some nanos ∧
    ∀ other, timestampText other = timestampText nanos → other = nanos := by
  have hread (n : Int) : (ofText? (timestampText n)).map epochNanos = some n := by
    rw [ofText?_timestampText, Option.map_some, epochNanos_ofEpochNanos]
  have hwritten : (ofEpochNanos nanos).IsWritten (timestampText nanos) := isWritten_text _
  refine ⟨⟨ofEpochNanos nanos, valid_ofEpochNanos nanos, epochNanos_ofEpochNanos nanos, ?_, ?_⟩,
    hread nanos, ?_⟩
  · rintro u hu rfl
    exact (ofEpochNanos_epochNanos hu).symm
  · intro s
    constructor
    · exact fun hs => hs.unique hwritten
    · rintro rfl
      exact hwritten
  · intro other hsame
    have hother := hread other
    rw [hsame, hread nanos] at hother
    exact (Option.some.inj hother).symm

/-- From the beginning of the year 0 up to that of the year 10000 all texts have one length, and the
earlier instant has the smaller text. -/
theorem timestampText_sorts_by_time {a b : Int} (hfrom : (newYear 0).epochNanos ≤ a) (hab : a < b)
    (hto : b < (newYear 10000).epochNanos) :
    (timestampText a).length = 30 ∧ (timestampText b).length = 30 ∧
      timestampText a < timestampText b := by
  have ha := inFourDigitYears_ofEpochNanos hfrom (Int.lt_trans hab hto)
  have hb := inFourDigitYears_ofEpochNanos (Int.le_trans hfrom (Int.le_of_lt hab)) hto
  have htimes : (ofEpochNanos a).epochNanos < (ofEpochNanos b).epochNanos := by
    rw [epochNanos_ofEpochNanos, epochNanos_ofEpochNanos]
    exact hab
  exact ⟨ha.length_text, hb.length_text, ha.text_lt hb htimes⟩

/-- The last nanosecond of 1969 comes in front of the epoch. -/
theorem timestampText_sorts_around_epoch :
    ((newYear 0).epochNanos ≤ -1 ∧ 0 < (newYear 10000).epochNanos) ∧
      (timestampText (-1)).length = 30 ∧ (timestampText 0).length = 30 ∧
      timestampText (-1) < timestampText 0 := by
  have hbounds : (newYear 0).epochNanos ≤ -1 ∧ 0 < (newYear 10000).epochNanos := by
    rw [epochNanos_newYear, epochNanos_newYear, Calendar.yearStart_eq, Calendar.yearStart_eq]
    decide
  exact ⟨hbounds, timestampText_sorts_by_time hbounds.1 (by decide) hbounds.2⟩

end LiveProgress

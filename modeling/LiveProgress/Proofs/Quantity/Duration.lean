import LiveProgress.Proofs.Number.Error
import LiveProgress.Proofs.Number.Whole
import LiveProgress.Proofs.Quantity.Fields
import LiveProgress.Quantity.Reading

/-!
# Durations read back

The hours of a duration come from a quotient that is rounded, and its minutes and seconds from
remainders. As long as the seconds are an integer of 53 bits, the parts agree: they are those of the
exact division, so that the text of a duration says all of it.
-/

namespace LiveProgress

open Number

/-! ### Fields that may be left out -/

namespace FieldFormat

variable {f g : FieldFormat} {n : Nat} {digits : List Char}

/-- Where one digit is enough, a number is written with its own digits. -/
theorem writes_toDigits (hplaces : f.places = 1) (n : Nat) : f.Writes n (Nat.toDigits 10 n) := by
  constructor
  case isDigit => exact fun c hc => Nat.isDigit_of_mem_toDigits (by decide) (by decide) hc
  case value => exact Nat.ofDigitChars_ten_toDigits
  case places_le =>
    rw [hplaces]
    exact Nat.length_toDigits_pos
  case head_ne_zero =>
    intro hlong
    apply head_toDigits_ne_zero
    intro hzero
    rw [hplaces, hzero, Nat.toDigits_zero] at hlong
    exact absurd hlong (by decide)

/-- A field is told from others by its mark. -/
theorem Writes.take?_of_ne (h : f.Writes n digits) (hmark : f.mark.isDigit = false)
    (hne : f.mark ≠ g.mark) (rest : List Char) : g.take? (digits ++ f.mark :: rest) = none := by
  have hrest : (digits ++ f.mark :: rest).dropWhile Char.isDigit = f.mark :: rest :=
    Text.dropWhile_append_of_head h.isDigit fun c hc => Option.some.inj hc ▸ hmark
  simp only [FieldFormat.take?, hrest]
  exact if_neg fun hsame => hne hsame.1

end FieldFormat

/-- No minus stands in front of fields that have a digit at least. -/
theorem Spells.head?_ne {formats : List FieldFormat} {ns : List Nat} {s : List Char}
    (h : Spells formats ns s) (hplaces : ∀ f ∈ formats, 0 < f.places) : s.head? ≠ some '-' := by
  cases h with
  | nil => exact Option.some_ne_none _ |>.symm
  | cons hfield _ =>
    have hlength := (hplaces _ List.mem_cons_self).trans_le hfield.places_le
    obtain ⟨c, digits, rfl⟩ := List.exists_cons_of_length_pos hlength
    have hdigit := hfield.isDigit c List.mem_cons_self
    intro hminus
    rw [List.cons_append, List.head?_cons, Option.some.injEq] at hminus
    rw [hminus] at hdigit
    exact absurd hdigit (by decide)

namespace Duration

variable {x y : Number} {s t : Int} {u : Units}

namespace Units

/-- A field that is left out is told from the ones behind it, whose marks are other ones. -/
theorem exists_takeIf {f : FieldFormat} {field : Option Nat} {fields : List (FieldFormat × Nat)}
    {body : List Char} (hmark : f.mark.isDigit = false)
    (hmarks : ∀ p ∈ fields, p.1.mark.isDigit = false ∧ p.1.mark ≠ f.mark)
    (h : Spells ((field.toList.map (f, ·) ++ fields).map Prod.fst)
      ((field.toList.map (f, ·) ++ fields).map Prod.snd) body) :
    ∃ rest, takeIf f body = (field, rest) ∧
      Spells (fields.map Prod.fst) (fields.map Prod.snd) rest := by
  cases field with
  | some n =>
    cases h with
    | cons hfield hrest => exact ⟨_, by rw [takeIf, hfield.take? hmark], hrest⟩
  | none =>
    refine ⟨body, ?_, h⟩
    cases fields with
    | nil =>
      cases h
      rfl
    | cons p fields =>
      obtain ⟨hdigit, hne⟩ := hmarks p List.mem_cons_self
      cases h with
      | cons hfield _ => rw [takeIf, hfield.take?_of_ne hdigit hne]

theorem IsWritten.unique {s s' : String} (h : u.IsWritten s) (h' : u.IsWritten s') : s = s' := by
  obtain ⟨body, hs, hbody⟩ := h
  obtain ⟨body', hs', hbody'⟩ := h'
  rw [← String.toList_inj, hs, hs', hbody.unique hbody']

theorem mem_laterFields {p : FieldFormat × Nat}
    (h : p ∈ u.minutes.toList.map (minuteFormat, ·) ++ [(secondFormat, u.seconds)]) :
    p.1 = minuteFormat ∨ p.1 = secondFormat := by
  rcases List.mem_append.mp h with hminute | hsecond
  · obtain ⟨m, -, rfl⟩ := List.mem_map.mp hminute
    exact .inl rfl
  · rw [List.mem_singleton.mp hsecond]
    exact .inr rfl

theorem places_fields : ∀ f ∈ u.fields.map Prod.fst, 0 < f.places := by
  intro f hf
  obtain ⟨p, hp, rfl⟩ := List.mem_map.mp hf
  rw [fields, List.append_assoc] at hp
  rcases List.mem_append.mp hp with hhour | hlater
  · obtain ⟨h, -, rfl⟩ := List.mem_map.mp hhour
    exact Nat.one_pos
  · rcases mem_laterFields hlater with hformat | hformat
    · rw [hformat]
      exact Nat.one_pos
    · rw [hformat]
      exact Nat.one_pos

/-- What is written is read back. -/
theorem IsWritten.ofText? {s : String} (h : u.IsWritten s) : ofText? s = some u := by
  obtain ⟨body, hs, hbody⟩ := h
  have hnegative : (s.toList.head? == some '-') = u.negative := by
    rw [hs]
    cases u.negative with
    | true => rfl
    | false => exact beq_eq_false_iff_ne.mpr (hbody.head?_ne places_fields)
  have hrest : (if u.negative = true then s.toList.tail else s.toList) = body := by
    rw [hs]
    cases u.negative <;> rfl
  have hmarks (p : FieldFormat × Nat)
      (hp : p ∈ u.minutes.toList.map (minuteFormat, ·) ++ [(secondFormat, u.seconds)]) :
      p.1.mark.isDigit = false ∧ p.1.mark ≠ hourFormat.mark := by
    rcases mem_laterFields hp with hformat | hformat
    · rw [hformat]
      decide
    · rw [hformat]
      decide
  have hlast (p : FieldFormat × Nat) (hp : p ∈ [(secondFormat, u.seconds)]) :
      p.1.mark.isDigit = false ∧ p.1.mark ≠ minuteFormat.mark := by
    have hformat : p.1 = secondFormat := by rw [List.mem_singleton.mp hp]
    rw [hformat]
    decide
  rw [fields, List.append_assoc] at hbody
  obtain ⟨rest, hhours, hbody⟩ := exists_takeIf (by decide) hmarks hbody
  obtain ⟨rest', hminutes, hbody⟩ := exists_takeIf (by decide) hlast hbody
  have hseconds : secondFormat.take? rest' = some (u.seconds, []) := by
    cases hbody with
    | cons hfield hnil =>
      cases hnil
      exact hfield.take? rfl []
  simp only [Units.ofText?, hnegative, hrest, hhours, hminutes, hseconds]

/-! ### The units of a number of seconds -/

def ofSeconds (t : Int) : Units where
  negative := t < 0
  hours := if 3600 ≤ t.natAbs then some (t.natAbs / 3600) else none
  minutes := if 60 ≤ t.natAbs then some (t.natAbs % 3600 / 60) else none
  seconds := t.natAbs % 60

theorem express_ofSeconds (t : Int) : (ofSeconds t).Express t := by
  constructor
  case negative_iff => exact decide_eq_true_iff
  case hours_iff => simp [ofSeconds]
  case minutes_iff => simp [ofSeconds]
  case minutes_lt =>
    intro m hm
    simp only [ofSeconds, Option.mem_def, Option.ite_none_right_eq_some, Option.some.injEq] at hm
    omega
  case seconds_lt => exact Nat.mod_lt _ (by decide)
  case wholeSeconds_eq =>
    simp only [wholeSeconds, ofSeconds, decide_eq_true_eq]
    split_ifs <;> simp only [Option.getD_some, Option.getD_none] <;> omega

end Units

/-! ### Texts -/

theorem abs_ofInt (h : t.natAbs < significandBound) : (ofInt t).abs = ofNat t.natAbs := by
  rw [ofInt_eq_finite h]
  change ofRat (t : Rat).abs = ofRat t.natAbs
  rw [rat_abs_eq, Nat.cast_natAbs, Int.cast_abs]

theorem ofInt_neg_iff (h : t.natAbs < significandBound) : ofInt t < 0 ↔ t < 0 := by
  rw [ofInt_eq_finite h, finite_lt_zero]
  exact_mod_cast Iff.rfl

/-- The parts of a duration are those of the exact division. -/
theorem text_eq (h : x.TruncatesTo t) :
    text x =
      let n := t.natAbs
      let sign := if t < 0 then "-" else ""
      let rest := (ofNat (n % 60)).text ++ "s"
      if 0 < n / 3600 then
        sign ++ (ofNat (n / 3600)).text ++ "h" ++ (ofNat (n % 3600 / 60)).text ++ "m" ++ rest
      else if 0 < n % 3600 / 60 then sign ++ (ofNat (n % 3600 / 60)).text ++ "m" ++ rest
      else sign ++ rest := by
  have hn := h.natAbs_lt
  have hhour : t.natAbs % 3600 < significandBound := (Nat.mod_le _ _).trans_lt hn
  have hpos {k : Nat} (hk : k < significandBound) : 0 < ofNat k ↔ 0 < k :=
    ofNat_lt_ofNat (by decide) hk
  have hhours : (ofNat t.natAbs / 3600).floor = ofNat (t.natAbs / 3600) :=
    floor_ofNat_div_ofNat hn (by decide) (by decide)
  have hremainder : ofNat t.natAbs % 3600 = ofNat (t.natAbs % 3600) :=
    ofNat_rem_ofNat hn (by decide) (by decide)
  have hminutes : (ofNat (t.natAbs % 3600) / 60).floor = ofNat (t.natAbs % 3600 / 60) :=
    floor_ofNat_div_ofNat hhour (by decide) (by decide)
  have hseconds : ofNat t.natAbs % 60 = ofNat (t.natAbs % 60) :=
    ofNat_rem_ofNat hn (by decide) (by decide)
  simp only [text, h.trunc_eq, abs_ofInt hn, ofInt_neg_iff hn, hhours, hremainder, hminutes, hseconds,
    hpos ((Nat.div_le_self _ _).trans_lt hn), hpos ((Nat.div_le_self _ _).trans_lt hhour)]

theorem isWritten_text (h : x.TruncatesTo t) : (Units.ofSeconds t).IsWritten (text x) := by
  have hn := h.natAbs_lt
  have hminus : (if t < 0 then "-" else "").toList = if t < 0 then ['-'] else [] := by
    split <;> rfl
  have hdigits {k : Nat} (hk : k ≤ t.natAbs) : (ofNat k).text.toList = Nat.toDigits 10 k := by
    rw [text_ofNat (hk.trans_lt hn), Nat.toString_eq_ofList_toDigits, String.toList_ofList]
  have hhours := hdigits (Nat.div_le_self t.natAbs 3600)
  have hminutes := hdigits ((Nat.div_le_self _ 60).trans (Nat.mod_le t.natAbs 3600))
  have hseconds := hdigits (Nat.mod_le t.natAbs 60)
  have hwrites {f : FieldFormat} (hf : f.places = 1) (n : Nat) := f.writes_toDigits hf n
  rw [text_eq h]
  simp only [Units.IsWritten, Units.ofSeconds, Units.fields, decide_eq_true_eq]
  by_cases hhour : 3600 ≤ t.natAbs
  · have hshown : 0 < t.natAbs / 3600 := by omega
    have hminute : 60 ≤ t.natAbs := by omega
    rw [if_pos hshown, if_pos hhour, if_pos hminute]
    refine ⟨Nat.toDigits 10 (t.natAbs / 3600) ++ 'h' :: (Nat.toDigits 10 (t.natAbs % 3600 / 60) ++
      'm' :: (Nat.toDigits 10 (t.natAbs % 60) ++ 's' :: [])), ?_, ?_⟩
    · simp [String.toList_append, hminus, hhours, hminutes, hseconds]
    · exact .cons (hwrites rfl _) (.cons (hwrites rfl _) (.cons (hwrites rfl _) .nil))
  · have hhidden : ¬ 0 < t.natAbs / 3600 := by omega
    rw [if_neg hhidden, if_neg hhour]
    by_cases hminute : 60 ≤ t.natAbs
    · have hshown : 0 < t.natAbs % 3600 / 60 := by omega
      rw [if_pos hshown, if_pos hminute]
      refine ⟨Nat.toDigits 10 (t.natAbs % 3600 / 60) ++
        'm' :: (Nat.toDigits 10 (t.natAbs % 60) ++ 's' :: []), ?_, ?_⟩
      · simp [String.toList_append, hminus, hminutes, hseconds]
      · exact .cons (hwrites rfl _) (.cons (hwrites rfl _) .nil)
    · have hnone : ¬ 0 < t.natAbs % 3600 / 60 := by omega
      rw [if_neg hnone, if_neg hminute]
      refine ⟨Nat.toDigits 10 (t.natAbs % 60) ++ 's' :: [], ?_, ?_⟩
      · simp [String.toList_append, hminus, hseconds]
      · exact .cons (hwrites rfl _) .nil

theorem ofInt_inj (hs : s.natAbs < significandBound) (ht : t.natAbs < significandBound) :
    ofInt s = ofInt t ↔ s = t := by
  rw [ofInt_eq_finite hs, ofInt_eq_finite ht, finite.injEq, Int.cast_inj]

theorem text_eq_iff (hx : x.TruncatesTo s) (hy : y.TruncatesTo t) : text x = text y ↔ s = t := by
  constructor
  · intro hsame
    have hread := (isWritten_text hx).ofText?
    rw [hsame, (isWritten_text hy).ofText?, Option.some.injEq] at hread
    rw [← (Units.express_ofSeconds s).wholeSeconds_eq, ← hread,
      (Units.express_ofSeconds t).wholeSeconds_eq]
  · rintro rfl
    exact (isWritten_text hx).unique (isWritten_text hy)

/-- Durations are read back. If the whole part of a number is an integer of 53 bits, its text is
the one text of hours, minutes and seconds that express this integer, and is read as these. So two
such numbers have the same text exactly if they have the same whole part. -/
theorem text_says_whole_seconds :
    (∀ (x : Number) (t : Int), x.TruncatesTo t →
      ∃ u : Units, u.Express t ∧ (∀ s, u.IsWritten s ↔ s = text x) ∧
        Units.ofText? (text x) = some u) ∧
    ∀ (x y : Number) (s t : Int), x.TruncatesTo s → y.TruncatesTo t →
      (text x = text y ↔ x.trunc = y.trunc) := by
  constructor
  · intro x t h
    have hwritten := isWritten_text h
    refine ⟨Units.ofSeconds t, Units.express_ofSeconds t, fun s => ?_, hwritten.ofText?⟩
    constructor
    · exact fun hs => hs.unique hwritten
    · rintro rfl
      exact hwritten
  · intro x y s t hx hy
    rw [text_eq_iff hx hy, hx.trunc_eq, hy.trunc_eq, ofInt_inj hx.natAbs_lt hy.natAbs_lt]

/-- Half a second short of an hour before zero is written as a whole second short of it. -/
theorem text_of_half_second :
    let x := ofInt (-7199) / 2
    let y := ofInt (-3599)
    x.TruncatesTo (-3599) ∧ y.TruncatesTo (-3599) ∧ text x = text y ∧
      ∃ u : Units, u.Express (-3599) ∧ Units.ofText? (text x) = some u := by
  intro x y
  have hx : x.TruncatesTo (-3599) := ⟨by decide +kernel, by decide⟩
  have hy : y.TruncatesTo (-3599) := ⟨by decide +kernel, by decide⟩
  obtain ⟨hread, hsame⟩ := text_says_whole_seconds
  obtain ⟨u, hexpress, -, htext⟩ := hread x (-3599) hx
  exact ⟨hx, hy, (hsame x y (-3599) (-3599) hx hy).mpr (by decide +kernel), u, hexpress, htext⟩

example : text (ofInt (-9007199254740991)) = "-2501999792983h36m31s" := by decide +kernel

end Duration
end LiveProgress

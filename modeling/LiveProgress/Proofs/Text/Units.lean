import LiveProgress.Proofs.Text.Utf8

/-!
# Characters from their units

No character is half a pair, so the one or two units of a character are read as that character,
whatever stands behind them, and a text is written out as it was.
-/

namespace LiveProgress

theorem CodeUnit.isLead_iff {u : CodeUnit} :
    u.isLead = true ↔ 0xD800 ≤ u.toNat ∧ u.toNat < 0xDC00 := by
  simp [isLead, UInt16.le_iff_toNat_le, UInt16.lt_iff_toNat_lt]

theorem CodeUnit.isTrail_iff {u : CodeUnit} :
    u.isTrail = true ↔ 0xDC00 ≤ u.toNat ∧ u.toNat < 0xE000 := by
  simp [isTrail, UInt16.le_iff_toNat_le, UInt16.lt_iff_toNat_lt]

theorem CodeUnit.toNat_toChar {u : CodeUnit} (h : ¬(u.isLead || u.isTrail) = true) :
    u.toChar.toNat = u.toNat := by
  have hplain : u.toChar = Char.ofNat u.toNat := if_neg h
  rw [Bool.or_eq_true, isLead_iff, isTrail_iff] at h
  have hlimit : u.toNat < 0x10000 := u.toNat_lt
  have hvalid : u.toNat.isValidChar := by
    rcases Nat.lt_or_ge u.toNat 0xD800 with hlow | hhigh
    · exact .inl hlow
    · exact .inr ⟨by omega, by omega⟩
  rw [hplain, Char.ofNat, dif_pos hvalid]
  rfl

/-- A unit that stands for a character is the unit of that character. -/
theorem CodeUnit.eq_ofChar_of_toChar {u : CodeUnit} {c : Char} (h : u.toChar = c)
    (hc : c.toNat < 0xD800) : u = ofChar c := by
  by_cases hsurrogate : (u.isLead || u.isTrail) = true
  · have hreplaced : u.toChar = Text.replacement := if_pos hsurrogate
    rw [← h, hreplaced] at hc
    exact absurd hc (by decide)
  · rw [ofChar, ← h, toNat_toChar hsurrogate, UInt16.ofNat_toNat]

namespace Text

theorem chars_single {u : CodeUnit} (hlead : u.isLead = false) (rest : Text) :
    chars (u :: rest) = u.toChar :: chars rest := by
  cases rest with
  | nil => rfl
  | cons v rest =>
    rw [chars, hlead]
    rfl

theorem chars_pair {u v : CodeUnit} (hlead : u.isLead = true) (htrail : v.isTrail = true)
    (rest : Text) : chars (u :: v :: rest) = pairChar u v :: chars rest := by
  rw [chars, hlead, htrail]
  rfl

/-- Below the second plane a character has one unit, which is not half a pair. -/
theorem toChar_of_plane {c : Char} (h : c.toNat < 0x10000) :
    (CodeUnit.ofChar c).isLead = false ∧ (CodeUnit.ofChar c).toChar = c := by
  have hunit := CodeUnit.toNat_ofChar h
  have hvalid := Utf8.not_surrogate c
  have hlead : (CodeUnit.ofChar c).isLead = false := by
    rw [← Bool.not_eq_true, CodeUnit.isLead_iff, hunit]
    omega
  have htrail : (CodeUnit.ofChar c).isTrail = false := by
    rw [← Bool.not_eq_true, CodeUnit.isTrail_iff, hunit]
    omega
  refine ⟨hlead, ?_⟩
  rw [CodeUnit.toChar, hlead, htrail, hunit, Char.ofNat_toNat]
  rfl

/-- Above it the two units are the halves of a pair. -/
theorem pairChar_of_toNat {c : Char} {n : Nat} (h : c.toNat = 0x10000 + n) :
    CodeUnit.isLead (UInt16.ofNat (0xD800 + n / 0x400)) = true ∧
      CodeUnit.isTrail (UInt16.ofNat (0xDC00 + n % 0x400)) = true ∧
      pairChar (UInt16.ofNat (0xD800 + n / 0x400)) (UInt16.ofNat (0xDC00 + n % 0x400)) = c := by
  have hlimit := Utf8.toNat_lt_limit c
  have hlead : (UInt16.ofNat (0xD800 + n / 0x400)).toNat = 0xD800 + n / 0x400 :=
    UInt16.toNat_ofNat_of_lt (by change _ < 0x10000; omega)
  have htrail : (UInt16.ofNat (0xDC00 + n % 0x400)).toNat = 0xDC00 + n % 0x400 :=
    UInt16.toNat_ofNat_of_lt (by change _ < 0x10000; omega)
  refine ⟨?_, ?_, ?_⟩
  · rw [CodeUnit.isLead_iff, hlead]
    omega
  · rw [CodeUnit.isTrail_iff, htrail]
    omega
  · have hjoined : 0x10000 + (0xD800 + n / 0x400 - 0xD800) * 0x400 +
        (0xDC00 + n % 0x400 - 0xDC00) = c.toNat := by omega
    rw [pairChar, hlead, htrail, hjoined, Char.ofNat_toNat]

theorem chars_charUnits_append (c : Char) (rest : Text) :
    chars (charUnits c ++ rest) = c :: chars rest := by
  unfold charUnits
  split
  case isTrue h =>
    obtain ⟨hlead, hchar⟩ := toChar_of_plane h
    rw [List.singleton_append, chars_single hlead, hchar]
  case isFalse h =>
    obtain ⟨hlead, htrail, hchar⟩ := pairChar_of_toNat (c := c) (n := c.toNat - 0x10000) (by omega)
    dsimp only
    rw [List.cons_append, List.singleton_append, chars_pair hlead htrail, hchar]

theorem chars_units (s : List Char) : chars (units s) = s := by
  induction s with
  | nil => rfl
  | cons c s ih =>
    have hcons : units (c :: s) = charUnits c ++ units s := List.flatMap_cons
    rw [hcons, chars_charUnits_append, ih]

/-- A text is written out as it was. -/
theorem string_ofString (s : String) : string (ofString s) = s := by
  rw [string, ofString, chars_units, String.ofList_toList]

theorem ofString_inj {s t : String} : ofString s = ofString t ↔ s = t := by
  constructor
  · intro h
    rw [← string_ofString s, h, string_ofString]
  · exact congrArg ofString

/-- Below the second plane the characters of a text are counted. -/
theorem width_eq_length {s : List Char} (h : ∀ c ∈ s, c.toNat < 0x10000) : width s = s.length := by
  induction s with
  | nil => rfl
  | cons c s ih =>
    obtain ⟨hc, hs⟩ := List.forall_mem_cons.mp h
    rw [width_cons, ih hs, charWidth, if_pos hc, List.length_cons, Nat.add_comm]

theorem ofString_append (s t : String) : ofString (s ++ t) = ofString s ++ ofString t := by
  rw [ofString, String.toList_append, units_append]
  rfl

/-! ### Latin-1 -/

theorem chars_of_not_lead {s : Text} (h : ∀ u ∈ s, u.isLead = false) :
    chars s = s.map CodeUnit.toChar := by
  induction s with
  | nil => rfl
  | cons u s ih =>
    rw [chars_single (h u List.mem_cons_self), ih fun v hv => h v (List.mem_cons_of_mem _ hv)]
    rfl

theorem charUnits_toChar {u : CodeUnit} (h : u.toNat < 256) : charUnits u.toChar = [u] := by
  have hsurrogate : ¬(u.isLead || u.isTrail) = true := by
    rw [Bool.or_eq_true, CodeUnit.isLead_iff, CodeUnit.isTrail_iff]
    omega
  have hchar : u.toChar.toNat = u.toNat := CodeUnit.toNat_toChar hsurrogate
  have hunit : CodeUnit.ofChar u.toChar = u := by
    rw [CodeUnit.ofChar, hchar, UInt16.ofNat_toNat]
  rw [charUnits, if_pos (by omega), hunit]

/-- Latin-1 text is kept by writing it out. -/
theorem ofString_string_of_lt {s : Text} (h : ∀ u ∈ s, u.toNat < 256) :
    ofString (string s) = s := by
  have hlead : ∀ u ∈ s, u.isLead = false := by
    intro u hu
    have hbound := h u hu
    rw [← Bool.not_eq_true, CodeUnit.isLead_iff]
    omega
  rw [ofString, string, String.toList_ofList, chars_of_not_lead hlead]
  induction s with
  | nil => rfl
  | cons u s ih =>
    have hrest := ih (fun v hv => h v (List.mem_cons_of_mem _ hv))
      (fun v hv => hlead v (List.mem_cons_of_mem _ hv))
    have hcons : units ((u :: s).map CodeUnit.toChar) =
        charUnits u.toChar ++ units (s.map CodeUnit.toChar) := List.flatMap_cons
    rw [hcons, charUnits_toChar (h u List.mem_cons_self), hrest]
    rfl

end Text
end LiveProgress

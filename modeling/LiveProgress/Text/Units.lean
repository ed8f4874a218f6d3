/-!
# 16-bit code units

Lengths, offsets and paddings of text count 16-bit units: a character beyond the
first plane is a pair of surrogate units and counts twice. Capability templates and the
strings of JSON are sequences of such units, which need not pair up; written out, a unit
without its partner becomes the replacement character. There is a greatest length, and
what would make a longer text fails.
-/

namespace LiveProgress

/-- What holds of all characters of a list is decided on the list; deciding it on all
characters there are takes too long. -/
instance decidableForallChars {p : Char → Prop} [DecidablePred p] (cs : List Char) :
    Decidable (∀ c ∈ cs, p c) :=
  List.decidableBAll p cs

/-- Stands for what is no character. -/
def Text.replacement : Char := '\uFFFD'

abbrev CodeUnit := UInt16

/-- A sequence of units, in which half a pair may stand alone. -/
abbrev Text := List CodeUnit

namespace CodeUnit

def ofChar (c : Char) : CodeUnit := UInt16.ofNat c.toNat

/-- Units that open a surrogate pair. -/
def isLead (u : CodeUnit) : Bool := 0xD800 ≤ u && u < 0xDC00

/-- Units that close a surrogate pair. -/
def isTrail (u : CodeUnit) : Bool := 0xDC00 ≤ u && u < 0xE000

/-- The character of a unit that stands alone; half a pair has none. -/
def toChar (u : CodeUnit) : Char :=
  if u.isLead || u.isTrail then Text.replacement else Char.ofNat u.toNat

def isDigit (u : CodeUnit) : Bool := u.toChar.isDigit

theorem toNat_ofChar {c : Char} (h : c.toNat < 0x10000) : (ofChar c).toNat = c.toNat :=
  UInt16.toNat_ofNat_of_lt h

/-- Below the surrogates units are characters. -/
theorem toChar_ofChar {c : Char} (h : c.toNat < 0xD800) : (ofChar c).toChar = c := by
  have hunit : (ofChar c).toNat = c.toNat := toNat_ofChar (Nat.lt_trans h (by decide))
  have hlead : ¬ 0xD800 ≤ ofChar c := by
    rw [UInt16.le_iff_toNat_le, hunit]
    exact Nat.not_le.mpr h
  have htrail : ¬ 0xDC00 ≤ ofChar c := by
    rw [UInt16.le_iff_toNat_le, hunit]
    exact Nat.not_le.mpr (Nat.lt_trans h (by decide))
  simp [toChar, isLead, isTrail, hlead, htrail, hunit, Char.ofNat_toNat]

theorem map_toChar_ofChar {s : List Char} (h : ∀ c ∈ s, c.toNat < 0xD800) :
    (s.map ofChar).map toChar = s := by
  rw [List.map_map]
  calc s.map (toChar ∘ ofChar) = s.map id := List.map_congr_left fun c hc => toChar_ofChar (h c hc)
    _ = s := List.map_id s

end CodeUnit

namespace Text

/-- The one or two units of a character. -/
def charUnits (c : Char) : Text :=
  if c.toNat < 0x10000 then [CodeUnit.ofChar c]
  else
    let n := c.toNat - 0x10000
    [UInt16.ofNat (0xD800 + n / 0x400), UInt16.ofNat (0xDC00 + n % 0x400)]

def units (s : List Char) : Text := s.flatMap charUnits

def ofString (s : String) : Text := units s.toList

def charWidth (c : Char) : Nat := if c.toNat < 0x10000 then 1 else 2

/-- The number of units of a text. -/
def width (s : List Char) : Nat := s.foldl (fun n c => n + charWidth c) 0

/-- The character of a surrogate pair. -/
def pairChar (lead trail : CodeUnit) : Char :=
  Char.ofNat (0x10000 + (lead.toNat - 0xD800) * 0x400 + (trail.toNat - 0xDC00))

/-- The characters of a sequence of units, pairs joined from the left. -/
def chars : Text → List Char
  | [] => []
  | [u] => [u.toChar]
  | u :: v :: rest =>
      if u.isLead && v.isTrail then pairChar u v :: chars rest
      else u.toChar :: chars (v :: rest)

/-- The text written out. -/
def string (s : Text) : String := String.ofList (chars s)

/-- Fills a text with `fill` on the left to at least `count` units. -/
def padLeft (count : Nat) (fill : Char) (s : String) : String :=
  String.ofList (List.replicate (count - width s.toList) fill) ++ s

/-- The most units that a text can have. -/
def maxLength : Nat := 536870888

def append? (s t : String) : Option String :=
  if maxLength < width s.toList + width t.toList then none else some (s ++ t)

/-- Fills a text on the left, which fails before anything is filled in. -/
def padLeft? (count : Nat) (fill : Char) (s : String) : Option String :=
  if width s.toList < count ∧ maxLength < count then none else some (padLeft count fill s)

def padRight? (count : Nat) (fill : Char) (s : String) : Option String :=
  if width s.toList < count ∧ maxLength < count then none
  else some (s ++ String.ofList (List.replicate (count - width s.toList) fill))

theorem units_append (s t : List Char) : units (s ++ t) = units s ++ units t :=
  List.flatMap_append

theorem length_charUnits (c : Char) : (charUnits c).length = charWidth c := by
  unfold charUnits charWidth
  split <;> rfl

theorem width_cons (c : Char) (s : List Char) : width (c :: s) = charWidth c + width s := by
  have shift (n : Nat) : s.foldl (fun n c => n + charWidth c) n = n + width s := by
    unfold width
    induction s generalizing n with
    | nil => rfl
    | cons d s ih =>
      simp only [List.foldl_cons]
      rw [ih, ih (0 + charWidth d)]
      omega
  unfold width
  rw [List.foldl_cons, shift, Nat.zero_add]
  rfl

theorem length_units (s : List Char) : (units s).length = width s := by
  induction s with
  | nil => rfl
  | cons c s ih =>
    rw [width_cons, ← ih, ← length_charUnits]
    simp [units]

/-! ### Runs -/

variable {α : Type} {p : α → Bool} {s rest : List α}

/-- A run ends where the first other unit or character stands. -/
theorem takeWhile_append_of_head (hs : ∀ u ∈ s, p u = true) (hrest : ∀ u ∈ rest.head?, p u = false) :
    (s ++ rest).takeWhile p = s := by
  rw [List.takeWhile_append_of_pos hs]
  cases rest with
  | nil => simp
  | cons u rest => simp [hrest u rfl]

theorem dropWhile_append_of_head (hs : ∀ u ∈ s, p u = true) (hrest : ∀ u ∈ rest.head?, p u = false) :
    (s ++ rest).dropWhile p = rest := by
  rw [List.dropWhile_append_of_pos hs]
  cases rest with
  | nil => rfl
  | cons u rest => simp [hrest u rfl]

end Text
end LiveProgress

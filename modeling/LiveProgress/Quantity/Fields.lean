import LiveProgress.Number.Reading
import LiveProgress.Quantity.Calendar

/-!
# Points in time, field by field

The fields of a point in time, the greatest unit first, and what a text has to be like that writes
them: each field in decimal digits, filled up with zeros, and with a mark behind it. Such a text is
read back field by field.
-/

namespace LiveProgress

/-- How a field is written: with how many digits at least, and with which mark behind them. -/
structure FieldFormat where
  places : Nat
  mark : Char
deriving DecidableEq, Repr

/-- Digits of a number, with zeros in front only as far as there are places for them. -/
structure FieldFormat.Writes (f : FieldFormat) (n : Nat) (digits : List Char) : Prop where
  isDigit : ∀ c ∈ digits, c.isDigit = true
  value : Number.digitsValue digits = n
  places_le : f.places ≤ digits.length
  head_ne_zero : f.places < digits.length → ∀ c ∈ digits.head?, c ≠ '0'

/-- Fields that are written one behind the other. -/
inductive Spells : List FieldFormat → List Nat → List Char → Prop
  | nil : Spells [] [] []
  | cons {f : FieldFormat} {formats : List FieldFormat} {n : Nat} {ns : List Nat}
      {digits rest : List Char} : f.Writes n digits → Spells formats ns rest →
      Spells (f :: formats) (n :: ns) (digits ++ f.mark :: rest)

/-- Reads a field and the mark behind it. -/
def FieldFormat.take? (f : FieldFormat) (s : List Char) : Option (Nat × List Char) :=
  let digits := s.takeWhile Char.isDigit
  match s.dropWhile Char.isDigit with
  | [] => none
  | mark :: rest =>
      if mark = f.mark ∧ f.places ≤ digits.length then some (Number.digitsValue digits, rest)
      else none

/-- Reads fields up to the end of the text. -/
def readFields? : List FieldFormat → List Char → Option (List Nat)
  | [], s => if s.isEmpty then some [] else none
  | f :: formats, s =>
      match f.take? s with
      | none => none
      | some (n, rest) => (readFields? formats rest).map (n :: ·)

/-- Year, month and day. -/
def Date.fields (d : Date) : List Int := [d.year, d.month, d.day]

namespace DateTime

def fields (t : DateTime) : List Int :=
  t.date.fields ++ [t.hour, t.minute, t.second, t.nanosecond]

/-- `YYYY-MM-DDTHH:MM:SS.nnnnnnnnnZ` -/
def layout : List FieldFormat :=
  [⟨4, '-'⟩, ⟨2, '-'⟩, ⟨2, 'T'⟩, ⟨2, ':'⟩, ⟨2, ':'⟩, ⟨2, '.'⟩, ⟨9, 'Z'⟩]

/-- A text of the fields of a point in time. Years before 0 have a minus in front of them. -/
def IsWritten (t : DateTime) (s : String) : Prop :=
  ∃ body, s.toList = (if t.date.year < 0 then ['-'] else []) ++ body ∧
    Spells layout (t.fields.map Int.natAbs) body

/-- Reads a point in time. -/
def ofText? (s : String) : Option DateTime :=
  let negative := s.toList.head? == some '-'
  match readFields? layout (if negative then s.toList.tail else s.toList) with
  | some [year, month, day, hour, minute, second, nanosecond] =>
      some {
        date := { year := if negative then -year else year, month, day }
        hour, minute, second, nanosecond }
  | _ => none

/-- The first instant of a year. -/
def newYear (year : Int) : DateTime where
  date := { year, month := 1, day := 1 }
  hour := 0
  minute := 0
  second := 0
  nanosecond := 0

end DateTime
end LiveProgress

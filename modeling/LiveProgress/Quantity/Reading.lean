import LiveProgress.Number.Reading
import LiveProgress.Quantity.Duration
import LiveProgress.Quantity.Fields
import LiveProgress.Quantity.Size

/-!
# Durations and sizes read back

What the text of a duration says, unit by unit, and what that of a size says: a decimal and how
often it has been divided by a thousand. Both are read off the text alone.
-/

namespace LiveProgress

/-- Numbers whose whole part is an integer of 53 bits. -/
structure Number.TruncatesTo (x : Number) (t : Int) : Prop where
  trunc_eq : x.trunc = ofInt t
  natAbs_lt : t.natAbs < significandBound

/-! ### Durations -/

namespace Duration

/-- A duration in hours, minutes and seconds. The greater units may be left out. -/
structure Units where
  negative : Bool
  hours : Option Nat
  minutes : Option Nat
  seconds : Nat
deriving DecidableEq, Repr

namespace Units

def hourFormat : FieldFormat := ⟨1, 'h'⟩

def minuteFormat : FieldFormat := ⟨1, 'm'⟩

def secondFormat : FieldFormat := ⟨1, 's'⟩

/-- The units that are there, each with how it is written. -/
def fields (u : Units) : List (FieldFormat × Nat) :=
  u.hours.toList.map (hourFormat, ·) ++ u.minutes.toList.map (minuteFormat, ·) ++
    [(secondFormat, u.seconds)]

/-- A text of the units that are there. Negative durations have a minus in front of them. -/
def IsWritten (u : Units) (s : String) : Prop :=
  ∃ body, s.toList = (if u.negative then ['-'] else []) ++ body ∧
    Spells (u.fields.map Prod.fst) (u.fields.map Prod.snd) body

/-- The seconds of all units together. -/
def wholeSeconds (u : Units) : Int :=
  let magnitude : Int := (3600 * u.hours.getD 0 + 60 * u.minutes.getD 0 + u.seconds : Nat)
  if u.negative then -magnitude else magnitude

/-- The units of a number of seconds, of which a unit is there once it is reached, and every smaller
one after it. -/
structure Express (u : Units) (t : Int) : Prop where
  negative_iff : u.negative = true ↔ t < 0
  hours_iff : u.hours.isSome = true ↔ 3600 ≤ t.natAbs
  minutes_iff : u.minutes.isSome = true ↔ 60 ≤ t.natAbs
  minutes_lt : ∀ m ∈ u.minutes, m < 60
  seconds_lt : u.seconds < 60
  wholeSeconds_eq : u.wholeSeconds = t

/-- Reads a field if the text begins with it. -/
def takeIf (f : FieldFormat) (s : List Char) : Option Nat × List Char :=
  match f.take? s with
  | some (n, rest) => (some n, rest)
  | none => (none, s)

def ofText? (s : String) : Option Units :=
  let negative := s.toList.head? == some '-'
  let (hours, rest) := takeIf hourFormat (if negative then s.toList.tail else s.toList)
  let (minutes, rest) := takeIf minuteFormat rest
  match secondFormat.take? rest with
  | some (seconds, []) => some { negative, hours, minutes, seconds }
  | _ => none

end Units
end Duration

/-! ### Sizes -/

namespace Size

/-- A decimal and how often a size has been divided by a thousand to come to it. -/
structure Scaled where
  number : Rat
  divisions : Nat
deriving DecidableEq, Repr

namespace Scaled

/-- The size that is meant. -/
def value (s : Scaled) : Rat := s.number * 1000 ^ s.divisions

/-- Reads a decimal and the unit behind it. -/
def ofText? (s : String) : Option Scaled :=
  match Number.takeDecimal? s.toList with
  | none => none
  | some (number, unit) => (units.idxOf? (String.ofList unit)).map ({ number, divisions := · })

end Scaled
end Size
end LiveProgress

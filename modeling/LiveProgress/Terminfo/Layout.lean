import LiveProgress.Terminfo.Entry

/-!
# Layout of compiled entries

Where the sections of compiled data lie, told by offsets and without cutting the data apart. A
header of six words tells the format and how much of everything there is. Names and booleans stand
behind it, then, from an even offset on, the numbers, the positions of the strings, and the table
of the strings.
-/

namespace LiveProgress.Terminfo

/-- The value of the bytes from an offset on, the least significant first. -/
def unsignedAt (data : List UInt8) : Nat → Nat → Nat
  | 0, _ => 0
  | size + 1, offset => (data.getD offset 0).toNat + 256 * unsignedAt data size (offset + 1)

/-- The value of these bytes in two's complement. -/
def signedAt (data : List UInt8) (size offset : Nat) : Int :=
  let n := unsignedAt data size offset
  if 2 * n < Nat.pow 256 size then n else n - Nat.pow 256 size

/-- Latin-1 text that begins at an offset and goes on to the first NUL, or to the end of its
section. -/
structure IsTextAt (data : List UInt8) (start stop : Nat) (s : Text) : Prop where
  inside : start + s.length ≤ stop
  units : ∀ i, i < s.length → ∃ b, data[start + i]? = some b ∧ b ≠ 0 ∧ s[i]? = some b.toUInt16
  ending : start + s.length = stop ∨ data[start + s.length]? = some 0

structure Layout where
  /-- Bytes of one number. -/
  numberSize : Nat
  /-- Bytes of the names. -/
  names : Nat
  booleans : Nat
  numbers : Nat
  strings : Nat
  /-- Bytes of the table. -/
  table : Nat
deriving DecidableEq, Repr

namespace Layout

def booleansStart (l : Layout) : Nat := 12 + l.names

def numbersStart (l : Layout) : Nat :=
  let behind := l.booleansStart + l.booleans
  if behind % 2 = 0 then behind else behind + 1

def stringsStart (l : Layout) : Nat := l.numbersStart + l.numbers * l.numberSize

def tableStart (l : Layout) : Nat := l.stringsStart + l.strings * 2

/-- Where the table ends, and the entry with it. -/
def size (l : Layout) : Nat := l.tableStart + l.table

/-- Data has a layout if there is a header, its first word is one of the magic numbers, the others
are the counts, so that none of them is negative, and the data reaches up to the end of the
table. -/
structure IsOf (l : Layout) (data : List UInt8) : Prop where
  header : 12 ≤ data.length
  magic : signedAt data 2 0 = 0o432 ∧ l.numberSize = 2 ∨
    signedAt data 2 0 = 0o1036 ∧ l.numberSize = 4
  names : signedAt data 2 2 = l.names
  booleans : signedAt data 2 4 = l.booleans
  numbers : signedAt data 2 6 = l.numbers
  strings : signedAt data 2 8 = l.strings
  table : signedAt data 2 10 = l.table
  size_le : l.size ≤ data.length

/-- What a position of the table stands for: the text that begins there, or no string if there is
no such place in the table. -/
def StringAt (l : Layout) (data : List UInt8) (position : Int) : Option Text → Prop
  | none => position < 0 ∨ l.table ≤ position
  | some s => ∃ place : Nat, position = place ∧ place < l.table ∧
      IsTextAt data (l.tableStart + place) l.size s

end Layout

/-- The layout that the counts of a header come to, if none of them is negative. -/
def Header.layout (h : Header) : Layout where
  numberSize := h.numberSize
  names := h.namesSize.toNat
  booleans := h.booleanCount.toNat
  numbers := h.numberCount.toNat
  strings := h.stringCount.toNat
  table := h.tableSize.toNat

/-- An entry whose parts stand in the sections of the data. -/
structure Entry.LiesIn (e : Entry) (l : Layout) (data : List UInt8) : Prop where
  names : IsTextAt data 12 l.booleansStart (Text.ofString ("|".intercalate e.names))
  names_ne_nil : e.names ≠ []
  names_free : ∀ name ∈ e.names, '|' ∉ name.toList
  booleans_length : e.booleans.length = l.booleans
  booleans : ∀ i, i < l.booleans → ∃ b, data[l.booleansStart + i]? = some b ∧
    e.booleans[i]? = some (b == 1)
  numbers_length : e.numbers.length = l.numbers
  numbers : ∀ i, i < l.numbers →
    e.numbers[i]? = some (signedAt data l.numberSize (l.numbersStart + i * l.numberSize))
  strings_length : e.strings.length = l.strings
  strings : ∀ i, i < l.strings → ∃ s, e.strings[i]? = some s ∧
    l.StringAt data (signedAt data 2 (l.stringsStart + i * 2)) s

end LiveProgress.Terminfo

import LiveProgress.Text.Units
import LiveProgress.Number.Text

/-!
# Compiled terminfo entries

Reads the binary form of a terminal description: a header of six 16-bit words, then
the names, the boolean, the numeric and the string capabilities and the table that holds
the strings. Numbers have 16 bits, or 32 in the extended format, and begin at an even
offset. Words are little-endian in two's complement, text is Latin-1.
-/

namespace LiveProgress.Terminfo

structure Entry where
  /-- The last one is usually a description. -/
  names : List String
  booleans : List Bool
  numbers : List Int
  /-- Templates by index, if the terminal has them. -/
  strings : List (Option Text)
deriving DecidableEq, Repr

/-- Why data is no entry. -/
inductive EntryError where
  | truncated
  | badMagic (magic : Int)
  | corrupt
deriving DecidableEq, Repr

/-- The value of little-endian bytes, unsigned. -/
def unsigned : List UInt8 → Nat
  | [] => 0
  | b :: rest => b.toNat + 256 * unsigned rest

/-- The value of little-endian bytes in two's complement. -/
def signed (bytes : List UInt8) : Int :=
  (unsigned bytes : Int).bmod (Nat.pow 256 bytes.length)

/-- Cuts `count` groups of `size` bytes. -/
def groups (size : Nat) : Nat → List UInt8 → List (List UInt8)
  | 0, _ => []
  | count + 1, bytes => bytes.take size :: groups size count (bytes.drop size)

def latin1 (bytes : List UInt8) : Text := bytes.map UInt8.toUInt16

def legacyMagic : Int := 0o432

def extendedMagic : Int := 0o1036

structure Header where
  magic : Int
  namesSize : Int
  booleanCount : Int
  numberCount : Int
  stringCount : Int
  tableSize : Int
deriving DecidableEq, Repr

namespace Header

def size : Nat := 12

def ofBytes? (bytes : List UInt8) : Option Header :=
  match (groups 2 6 bytes).map signed with
  | [magic, namesSize, booleanCount, numberCount, stringCount, tableSize] =>
      if bytes.length < size then none
      else some { magic, namesSize, booleanCount, numberCount, stringCount, tableSize }
  | _ => none

def isKnown (h : Header) : Bool := h.magic == legacyMagic || h.magic == extendedMagic

/-- The counts and sizes that say how long the sections are. -/
def extents (h : Header) : List Int :=
  [h.namesSize, h.booleanCount, h.numberCount, h.stringCount, h.tableSize]

/-- Bytes of one numeric capability. -/
def numberSize (h : Header) : Nat := if h.magic = extendedMagic then 4 else 2

/-- Where the numbers begin: behind names and booleans, on an even byte. -/
def numbersStart (h : Header) : Nat :=
  let booleansEnd := size + h.namesSize.toNat + h.booleanCount.toNat
  booleansEnd + booleansEnd % 2

def stringsStart (h : Header) : Nat := h.numbersStart + h.numberCount.toNat * h.numberSize

def tableStart (h : Header) : Nat := h.stringsStart + h.stringCount.toNat * 2

def tableEnd (h : Header) : Nat := h.tableStart + h.tableSize.toNat

end Header

/-- The string at a position of the table, up to the next NUL or the end of the table.
A position outside the table stands for a capability that is absent or cancelled. -/
def tableString (table : List UInt8) (position : Int) : Option Text :=
  if position < 0 ∨ table.length ≤ position then none
  else some (latin1 ((table.drop position.toNat).takeWhile (· != 0)))

/-- Names are separated by bars and end at the first NUL. -/
def namesOf (bytes : List UInt8) : List String :=
  (Text.string (latin1 (bytes.takeWhile (· != 0)))).splitOn "|"

namespace Entry

/-- The bytes of the half-open range from `start` to `stop`. -/
def slice (bytes : List UInt8) (start stop : Nat) : List UInt8 :=
  (bytes.drop start).take (stop - start)

/-- The sections of an entry whose header has been checked. -/
def ofSections (h : Header) (bytes : List UInt8) : Entry :=
  let namesEnd := Header.size + h.namesSize.toNat
  let table := slice bytes h.tableStart h.tableEnd
  { names := namesOf (slice bytes Header.size namesEnd)
    booleans := (slice bytes namesEnd (namesEnd + h.booleanCount.toNat)).map (· == 1)
    numbers := (groups h.numberSize h.numberCount.toNat (bytes.drop h.numbersStart)).map signed
    strings := (groups 2 h.stringCount.toNat (bytes.drop h.stringsStart)).map fun word =>
      tableString table (signed word) }

/-- The entry that the bytes hold; bytes behind it do not matter. -/
def ofBytes (bytes : List UInt8) : Except EntryError Entry :=
  match Header.ofBytes? bytes with
  | none => .error .truncated
  | some h =>
      if ! h.isKnown then .error (.badMagic h.magic)
      else if h.extents.any (· < 0) then .error .corrupt
      else if bytes.length < h.tableEnd then .error .truncated
      else .ok (ofSections h bytes)

/-- The name by which the terminal is known. -/
def primaryName (e : Entry) : String := e.names.headD ""

end Entry

namespace EntryError

def message (term : String) : EntryError → String
  | .truncated => "terminfo entry for " ++ term ++ " is truncated"
  | .badMagic magic =>
      "terminfo entry for " ++ term ++ " has bad magic number 0o" ++
        (Number.ofInt magic).wholeText 8
  | .corrupt => "terminfo entry for " ++ term ++ " is corrupt"

end EntryError
end LiveProgress.Terminfo

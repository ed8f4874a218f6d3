import LiveProgress.Terminfo.Entry

/-!
# Writing terminfo entries

The binary form of an entry, in the legacy or in the extended number format. The strings
stand in the table in the order of their positions, each closed by a NUL, and a
capability that is absent has the position minus one. An entry can be encoded if its
numbers, its counts and the sizes of its sections fit the fields of the format.
-/

namespace LiveProgress.Terminfo

inductive NumberFormat where
  | legacy | extended
deriving DecidableEq, Repr

namespace NumberFormat

def magic : NumberFormat → Int
  | legacy => legacyMagic
  | extended => extendedMagic

/-- Bytes of one numeric capability. -/
def size : NumberFormat → Nat
  | legacy => 2
  | extended => 4

/-- Numbers lie below the bound and not below its negative. -/
def bound : NumberFormat → Int
  | legacy => 0x8000
  | extended => 0x80000000

end NumberFormat

/-- The `size` low bytes of a number, least significant first. -/
def littleEndian : Nat → Nat → List UInt8
  | 0, _ => []
  | size + 1, n => UInt8.ofNat n :: littleEndian size (n / 256)

/-- The bytes of a number in two's complement. -/
def signedBytes (size : Nat) (n : Int) : List UInt8 :=
  littleEndian size (n % (Nat.pow 256 size : Nat)).toNat

/-- A 16-bit word. -/
def word (n : Int) : List UInt8 := signedBytes 2 n

theorem length_littleEndian (size n : Nat) : (littleEndian size n).length = size := by
  induction size generalizing n with
  | zero => rfl
  | succ size ih => simp [littleEndian, ih]

theorem unsigned_littleEndian (size n : Nat) :
    unsigned (littleEndian size n) = n % Nat.pow 256 size := by
  induction size generalizing n with
  | zero => simp [littleEndian, unsigned, Nat.mod_one]
  | succ size ih =>
    have split : Nat.pow 256 (size + 1) = 256 * Nat.pow 256 size := by
      rw [Nat.mul_comm]
      rfl
    rw [littleEndian, unsigned, ih, split, Nat.mod_mul]
    simp

theorem signed_signedBytes (size : Nat) (n : Int) :
    signed (signedBytes size n) = n.bmod (Nat.pow 256 size) := by
  have positive : 0 < Nat.pow 256 size := Nat.pow_pos (by decide)
  have nonneg : 0 ≤ n % (Nat.pow 256 size : Nat) := Int.emod_nonneg _ (by omega)
  have below : n % (Nat.pow 256 size : Nat) < (Nat.pow 256 size : Nat) :=
    Int.emod_lt_of_pos _ (by omega)
  unfold signed signedBytes
  rw [length_littleEndian, unsigned_littleEndian, Nat.mod_eq_of_lt (by omega),
    Int.toNat_of_nonneg nonneg]
  exact Int.emod_bmod n _

def latin1Bytes (s : Text) : List UInt8 := s.map UInt16.toUInt8

namespace Entry

/-- The names, separated by bars and closed by a NUL. -/
def nameBytes (e : Entry) : List UInt8 :=
  latin1Bytes (Text.ofString ("|".intercalate e.names)) ++ [0]

def booleanBytes (e : Entry) : List UInt8 := e.booleans.map fun b => if b then 1 else 0

def numberBytes (format : NumberFormat) (e : Entry) : List UInt8 :=
  e.numbers.flatMap (signedBytes format.size)

/-- A string of the table. -/
def stringBytes (s : Text) : List UInt8 := latin1Bytes s ++ [0]

/-- The table of the strings that are there. -/
def tableBytes (strings : List (Option Text)) : List UInt8 :=
  strings.flatMap fun s => s.elim [] stringBytes

/-- The words that tell where in the table each string begins, the first of them at
`start`. -/
def positionBytes (start : Nat) : List (Option Text) → List UInt8
  | [] => []
  | none :: rest => word (-1) ++ positionBytes start rest
  | some s :: rest => word start ++ positionBytes (start + (stringBytes s).length) rest

/-- The numbers that the header holds, each in a word. -/
def headerNumbers (format : NumberFormat) (e : Entry) : List Int :=
  [format.magic, e.nameBytes.length, e.booleans.length, e.numbers.length, e.strings.length,
    (tableBytes e.strings).length]

def header (format : NumberFormat) (e : Entry) : List UInt8 :=
  (e.headerNumbers format).flatMap word

/-- The byte that puts the numbers on an even offset. -/
def alignment (e : Entry) : List UInt8 :=
  if (e.nameBytes.length + e.booleans.length) % 2 = 1 then [0] else []

def toBytes (format : NumberFormat) (e : Entry) : List UInt8 :=
  e.header format ++ e.nameBytes ++ e.booleanBytes ++ e.alignment ++ e.numberBytes format ++
    positionBytes 0 e.strings ++ tableBytes e.strings

/-- Entries that have a binary form: there is a name, names and strings are Latin-1
without NUL, names have no bars, and all that the fields hold fits them. -/
structure Encodable (format : NumberFormat) (e : Entry) : Prop where
  names_ne_nil : e.names ≠ []
  names_latin1 : ∀ name ∈ e.names, ∀ c ∈ name.toList, c ≠ '|' ∧ 0 < c.toNat ∧ c.toNat < 256
  numbers_fit : ∀ n ∈ e.numbers, -format.bound ≤ n ∧ n < format.bound
  strings_latin1 : ∀ s, some s ∈ e.strings → ∀ u ∈ s, 0 < u.toNat ∧ u.toNat < 256
  names_size : e.nameBytes.length < 32768
  booleans_size : e.booleans.length < 32768
  numbers_size : e.numbers.length < 32768
  strings_size : e.strings.length < 32768
  table_size : (tableBytes e.strings).length < 32768

end Entry

/-- What is to be encoded. The strings are given by their indexes, in any order; an index
that is not among them has no string. -/
structure Description where
  names : List String
  booleans : List Bool := []
  numbers : List Int := []
  strings : List (Nat × Text) := []
deriving DecidableEq, Repr

namespace Description

/-- The strings reach up to the highest index that is given. -/
def stringCount (d : Description) : Nat :=
  match (d.strings.map (·.1)).max? with
  | none => 0
  | some highest => highest + 1

def entry (d : Description) : Entry where
  names := d.names
  booleans := d.booleans
  numbers := d.numbers
  strings := (List.range d.stringCount).map fun index => d.strings.lookup index

def toBytes (format : NumberFormat) (d : Description) : List UInt8 := d.entry.toBytes format

end Description
end LiveProgress.Terminfo

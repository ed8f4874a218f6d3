import LiveProgress.Terminfo.Capabilities

/-!
# Looking up access by access

The look-up as it works through its data: it checks, reads an integer, checks again, takes one
section after the other, and puts the paths of a directory together when it comes to it. An
integer cannot be read outside of the data, and an empty name has no first letter. Such a fault is
none of the failures that the look-up reports, and nothing handles it.
-/

namespace LiveProgress.Terminfo

inductive Fault where
  /-- An integer that does not lie within the data. -/
  | outOfRange (offset : Nat)
  /-- The first letter of an empty name. -/
  | noLetter
deriving DecidableEq, Repr

/-- What is thrown: a failure that is reported, or a fault. -/
inductive Raised (ε : Type) where
  | failure (error : ε)
  | fault (f : Fault)
deriving DecidableEq, Repr

def Raised.map {α β : Type} (g : α → β) : Raised α → Raised β
  | .failure error => .failure (g error)
  | .fault f => .fault f

/-! ### Entries -/

def readSigned (size : Nat) (data : List UInt8) (offset : Nat) :
    Except (Raised EntryError) Int :=
  if offset + size ≤ data.length then .ok (signed (Entry.slice data offset (offset + size)))
  else .error (.fault (.outOfRange offset))

/-- Reads integers that stand one behind the other. -/
def readEach (size : Nat) (data : List UInt8) : Nat → Nat → Except (Raised EntryError) (List Int)
  | 0, _ => .ok []
  | count + 1, offset => do
      let n ← readSigned size data offset
      let rest ← readEach size data count (offset + size)
      return n :: rest

/-- The string at a position of the table. It ends at the next NUL of the data, but not behind
the table. -/
def stringAt (h : Header) (data : List UInt8) (position : Int) : Option Text :=
  if position < 0 ∨ h.tableSize ≤ position then none
  else
    let start := h.tableStart + position.toNat
    let stop := match (data.drop start).idxOf? 0 with
      | none => h.tableEnd
      | some ahead => if h.tableEnd < start + ahead then h.tableEnd else start + ahead
    some (latin1 (Entry.slice data start stop))

/-- Reads the sections of an entry whose header has been checked. -/
def Entry.readSections (h : Header) (data : List UInt8) : Except (Raised EntryError) Entry := do
  let namesEnd := Header.size + h.namesSize.toNat
  let numbers ← readEach h.numberSize data h.numberCount.toNat h.numbersStart
  let positions ← readEach 2 data h.stringCount.toNat h.stringsStart
  return {
    names := namesOf (slice data Header.size namesEnd)
    booleans := (slice data namesEnd (namesEnd + h.booleanCount.toNat)).map (· == 1)
    numbers
    strings := positions.map (stringAt h data) }

/-- Reads an entry behind its magic number. -/
def Entry.readBehind (magic : Int) (data : List UInt8) : Except (Raised EntryError) Entry := do
  let namesSize ← readSigned 2 data 2
  let booleanCount ← readSigned 2 data 4
  let numberCount ← readSigned 2 data 6
  let stringCount ← readSigned 2 data 8
  let tableSize ← readSigned 2 data 10
  let h : Header := { magic, namesSize, booleanCount, numberCount, stringCount, tableSize }
  if h.extents.any (· < 0) then .error (.failure .corrupt)
  else if data.length < h.tableEnd then .error (.failure .truncated)
  else readSections h data

def Entry.read (data : List UInt8) : Except (Raised EntryError) Entry :=
  if data.length < Header.size then .error (.failure .truncated)
  else do
    let magic ← readSigned 2 data 0
    if magic ≠ legacyMagic ∧ magic ≠ extendedMagic then .error (.failure (.badMagic magic))
    else readBehind magic data

/-! ### Files -/

def firstLetter : Text → Except (Raised LookupError) CodeUnit
  | [] => .error (.fault .noLetter)
  | first :: _ => .ok first

/-- The places of an entry in a directory. -/
def candidatePaths (term dir : String) : Except (Raised LookupError) (List String) := do
  let first ← firstLetter (Text.ofString term)
  return [Path.join [dir, Text.string [first], term],
    Path.join [dir, (Number.ofNat first.toNat).wholeText 16, term]]

/-- Tries paths, and what comes behind them if there is nothing at any of them. -/
def tryPaths (read : FileReader) (behind : Except (Raised LookupError) Entry) :
    List String → Except (Raised LookupError) Entry
  | [] => behind
  | path :: rest =>
      match read path with
      | .ok data => (Entry.read data).mapError (·.map .badEntry)
      | .error e =>
          if isAbsent e then tryPaths read behind rest else .error (.failure (.unreadable path))

def tryDirectories (read : FileReader) (term : String) :
    List String → Except (Raised LookupError) Entry
  | [] => .error (.failure .notFound)
  | dir :: rest => do
      let paths ← candidatePaths term dir
      tryPaths read (tryDirectories read term rest) paths

/-- Opens the entry of a terminal. -/
def openEntry (read : FileReader) (term : String) (dirs : List String) :
    Except (Raised LookupError) Entry :=
  if isValidName term then tryDirectories read term dirs else .error (.failure .invalidName)

/-- Looks up the terminal's entry, and handles the failures of the look-up but no faults. The log
lines come with the entry, or with none. -/
def attempt (read : FileReader) (env : Environment) (term : Option String)
    (dirs : Option (List String)) : Except Fault (Option Entry × List LogLine) :=
  let name := termOf env term
  match openEntry read name (dirs.getD (searchDirs env)) with
  | .ok e => .ok (some e, [⟨.debug, "Loaded terminfo entry for " ++ name⟩])
  | .error (.failure e) =>
      .ok (none, [⟨.debug, e.message name ++ "; using ANSI escape sequences"⟩])
  | .error (.fault f) => .error f

end LiveProgress.Terminfo

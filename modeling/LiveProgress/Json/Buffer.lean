import LiveProgress.Json.Calls

/-!
# The buffer of a splitter

How a splitter keeps its text. The units that come are put at the end of a buffer, through which a
position moves on, and the value that is being read is known by its start. Behind each piece of text
the units that no value needs any more are dropped from the front.
-/

namespace LiveProgress.Json

/-- What kind of value is being read. -/
inductive Buffer.Kind where
  | nested | quoted | scalar
deriving DecidableEq, Repr

structure Buffer where
  units : Text := []
  /-- The offset of the first unit in the stream. -/
  consumed : Nat := 0
  /-- The next unit to be read. -/
  position : Nat := 0
  /-- The first unit of the value that is being read; there is none between values. -/
  start : Option Nat := none
  kind : Buffer.Kind := .nested
  depth : Int := 0
  inString : Bool := false
  escaped : Bool := false
deriving DecidableEq, Repr

namespace Buffer

def advance (b : Buffer) : Buffer := { b with position := b.position + 1 }

/-- Begins a value with a unit, which is not taken yet. -/
def begin (b : Buffer) (u : CodeUnit) : Buffer :=
  let b := { b with start := some b.position, depth := 0, escaped := false }
  if isOpening u then { b with kind := .nested, inString := false }
  else if isQuote u then { b with kind := .quoted, inString := true }
  else { b with kind := .scalar, inString := false }

/-- Ends the value that begins at `start` in front of the unit at `stop`. -/
def cut (b : Buffer) (start stop : Nat) : Option RawValue × Buffer :=
  (some ⟨(b.units.take stop).drop start, b.consumed + start⟩, { b with start := none })

/-- Takes a unit of a string. -/
def readInString (b : Buffer) (start : Nat) (u : CodeUnit) : Option RawValue × Buffer :=
  if b.escaped then (none, { b with escaped := false })
  else if isBackslash u then (none, { b with escaped := true })
  else if isQuote u then
    let b := { b with inString := false }
    if b.kind = .quoted then b.cut start b.position else (none, b)
  else (none, b)

/-- Takes a unit of an object or an array that is not in one of its strings. -/
def readNested (b : Buffer) (start : Nat) (u : CodeUnit) : Option RawValue × Buffer :=
  if isQuote u then (none, { b with inString := true })
  else if isOpening u then (none, { b with depth := b.depth + 1 })
  else if isClosing u then
    let b := { b with depth := b.depth - 1 }
    if b.depth = 0 then b.cut start b.position else (none, b)
  else (none, b)

/-- One turn of reading, at the next unit. It takes the unit unless a value that ends in front of
it is cut off, or an object or an array begins with it. -/
def turn (b : Buffer) (u : CodeUnit) : Option RawValue × Buffer :=
  match b.start with
  | none =>
      if isBlank u then (none, b.advance)
      else if isOpening u then (none, b.begin u)
      else (none, (b.begin u).advance)
  | some start =>
      if b.kind = .scalar then
        if isBlank u ∨ isOpening u ∨ isQuote u then b.cut start b.position
        else (none, b.advance)
      else if b.inString then b.advance.readInString start u
      else b.advance.readNested start u

/-! ### What reading leaves as it is -/

@[simp] theorem advance_units (b : Buffer) : b.advance.units = b.units := rfl

@[simp] theorem advance_consumed (b : Buffer) : b.advance.consumed = b.consumed := rfl

@[simp] theorem advance_position (b : Buffer) : b.advance.position = b.position + 1 := rfl

@[simp] theorem advance_start (b : Buffer) : b.advance.start = b.start := rfl

@[simp] theorem advance_kind (b : Buffer) : b.advance.kind = b.kind := rfl

@[simp] theorem advance_depth (b : Buffer) : b.advance.depth = b.depth := rfl

@[simp] theorem begin_units (b : Buffer) (u : CodeUnit) : (b.begin u).units = b.units := by
  unfold begin
  split
  · rfl
  · split <;> rfl

@[simp] theorem begin_consumed (b : Buffer) (u : CodeUnit) :
    (b.begin u).consumed = b.consumed := by
  unfold begin
  split
  · rfl
  · split <;> rfl

@[simp] theorem begin_position (b : Buffer) (u : CodeUnit) :
    (b.begin u).position = b.position := by
  unfold begin
  split
  · rfl
  · split <;> rfl

@[simp] theorem begin_start (b : Buffer) (u : CodeUnit) :
    (b.begin u).start = some b.position := by
  unfold begin
  split
  · rfl
  · split <;> rfl

theorem readInString_units (b : Buffer) (start : Nat) (u : CodeUnit) :
    (b.readInString start u).2.units = b.units := by
  unfold readInString cut
  grind

theorem readInString_position (b : Buffer) (start : Nat) (u : CodeUnit) :
    (b.readInString start u).2.position = b.position := by
  unfold readInString cut
  grind

theorem readNested_units (b : Buffer) (start : Nat) (u : CodeUnit) :
    (b.readNested start u).2.units = b.units := by
  unfold readNested cut
  grind

theorem readNested_position (b : Buffer) (start : Nat) (u : CodeUnit) :
    (b.readNested start u).2.position = b.position := by
  unfold readNested cut
  grind

/-! ### Reading to the end -/

/-- How many turns are left at most. -/
def work (b : Buffer) : Nat :=
  3 * (b.units.length - b.position) +
    if b.start = none then 1 else if b.kind = .scalar then 2 else 0

theorem work_lt_of_next {b c : Buffer} (hunits : c.units = b.units)
    (hposition : c.position = b.position + 1) (h : b.position < b.units.length) :
    c.work < b.work := by
  have hc : c.work ≤ 3 * (b.units.length - (b.position + 1)) + 2 := by
    unfold work
    rw [hunits, hposition]
    split
    · omega
    · split <;> omega
  have hb : 3 * (b.units.length - b.position) ≤ b.work := Nat.le_add_right _ _
  omega

theorem work_turn_lt {b : Buffer} (h : b.position < b.units.length) (u : CodeUnit) :
    (b.turn u).2.work < b.work := by
  unfold turn
  cases hstart : b.start with
  | none =>
    dsimp only
    split
    · exact work_lt_of_next rfl rfl h
    · split
      case isTrue hopening => simp [work, begin, hopening, hstart]
      case isFalse => exact work_lt_of_next (by simp) (by simp) h
  | some start =>
    dsimp only
    split
    case isTrue hscalar =>
      split
      · simp [work, cut, hstart, hscalar]
      · exact work_lt_of_next rfl rfl h
    case isFalse =>
      split
      · exact work_lt_of_next (readInString_units _ _ _) (readInString_position _ _ _) h
      · exact work_lt_of_next (readNested_units _ _ _) (readNested_position _ _ _) h

/-- Reads up to the end of the buffer. -/
def scan (b : Buffer) : List RawValue × Buffer :=
  if h : b.position < b.units.length then
    let next := b.turn b.units[b.position]
    let last := next.2.scan
    (next.1.toList ++ last.1, last.2)
  else ([], b)
termination_by b.work
decreasing_by exact work_turn_lt h _

/-- Where the value that is being read begins, or else what comes next. -/
def keepFrom (b : Buffer) : Nat := b.start.getD b.position

/-- Drops the units that no value needs any more. -/
def compact (b : Buffer) : Buffer :=
  if b.keepFrom = 0 then b
  else
    { b with
      units := b.units.drop b.keepFrom
      consumed := b.consumed + b.keepFrom
      position := b.position - b.keepFrom
      start := b.start.map fun _ => 0 }

def push (b : Buffer) (text : Text) : List RawValue × Buffer :=
  let (values, last) := { b with units := b.units ++ text }.scan
  (values, last.compact)

def finish (b : Buffer) : Except Nat (Option RawValue × Buffer) :=
  match b.start with
  | none => .ok (none, b)
  | some start =>
      if b.kind = .scalar then .ok (b.cut start b.units.length)
      else .error (b.consumed + start)

def call (b : Buffer) : Splitter.Call → Splitter.Answer × Buffer
  | .push text =>
      let (values, b) := b.push text
      (.ok values, b)
  | .finish =>
      match b.finish with
      | .ok (last, b) => (.ok last.toList, b)
      | .error offset => (.error offset, b)

def after (b : Buffer) : List Splitter.Call → Buffer
  | [] => b
  | c :: rest => (b.call c).2.after rest

def answers (b : Buffer) : List Splitter.Call → List Splitter.Answer
  | [] => []
  | c :: rest => (b.call c).1 :: (b.call c).2.answers rest

end Buffer
end LiveProgress.Json

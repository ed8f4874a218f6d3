import LiveProgress.Number.Reading
import LiveProgress.Output.Destination

/-!
# Screens

A line terminal without limits to its height and width. It understands line feed,
carriage return, the sequences that move the cursor up and down, keeping the column, and
those that erase a part of the line; any other character is put at the cursor. Characters
are taken one at a time, so it does not matter how a text is cut into writes.
-/

namespace LiveProgress

/-- Characters that are not put on a screen. -/
def isControl (c : Char) : Bool := c.toNat < 0x20 || c == '\x7f'

/-- Texts of which every character is put on a screen. -/
def IsPrintable (text : String) : Prop := ∀ c ∈ text.toList, isControl c = false

instance (text : String) : Decidable (IsPrintable text) :=
  inferInstanceAs (Decidable (∀ c ∈ text.toList, isControl c = false))

namespace Screen

/-- How much of a control sequence has come. -/
inductive Pending where
  | none
  | escape
  /-- The digits behind the bracket, last first. -/
  | sequence (digits : List Char)
deriving DecidableEq, Repr

end Screen

/-- Rows and columns are counted from zero, with rows above the first one too. What has
not been written is blank. -/
structure Screen where
  cell : Int → Nat → Char := fun _ _ => ' '
  row : Int := 0
  column : Nat := 0
  pending : Screen.Pending := .none

namespace Screen

/-- The screen that shows texts from its first row on, the cursor in front of the row
below them. -/
def showing (rows : List (List Char)) : Screen :=
  { cell := fun row column =>
      if row < 0 then ' ' else ((rows[row.toNat]?).bind (·[column]?)).getD ' '
    row := rows.length }

/-- Puts a character at the cursor. -/
def put (s : Screen) (c : Char) : Screen :=
  { s with
    cell := fun row column =>
      if row = s.row ∧ column = s.column then c else s.cell row column
    column := s.column + 1 }

/-- Blanks the cells of the cursor's row whose columns are chosen. -/
def erase (s : Screen) (chosen : Nat → Bool) : Screen :=
  { s with
    cell := fun row column =>
      if row = s.row ∧ chosen column = true then ' ' else s.cell row column }

/-- Carries out a sequence. Rows are counted by its digits, and one is meant without
them; other sequences do nothing. -/
def control (s : Screen) (digits : List Char) (final : Char) : Screen :=
  let count := if digits.isEmpty then 1 else Number.digitsValue digits
  match final with
  | 'A' => { s with row := s.row - count }
  | 'B' => { s with row := s.row + count }
  | 'K' =>
      if digits = [] then s.erase fun column => s.column ≤ column
      else if digits = ['1'] then s.erase fun column => column ≤ s.column
      else s
  | _ => s

/-- Takes one character. -/
def step (s : Screen) (c : Char) : Screen :=
  match s.pending with
  | .none =>
      if c = '\n' then { s with row := s.row + 1, column := 0 }
      else if c = '\r' then { s with column := 0 }
      else if c = '\x1b' then { s with pending := .escape }
      else s.put c
  | .escape => { s with pending := if c = '[' then .sequence [] else .none }
  | .sequence digits =>
      if c.isDigit then { s with pending := .sequence (c :: digits) }
      else { s with pending := .none }.control digits.reverse c

/-- Takes a text. -/
def write (s : Screen) (text : String) : Screen := text.toList.foldl step s

/-- Takes texts one after the other. -/
def writeAll (s : Screen) (texts : List String) : Screen := texts.foldl write s

/-- A screen takes every text. -/
instance : Destination Screen := ⟨fun s text => (none, s.write text), fun s => (none, s)⟩

theorem writeAll_append (s : Screen) (a b : List String) :
    s.writeAll (a ++ b) = (s.writeAll a).writeAll b :=
  List.foldl_append

end Screen
end LiveProgress

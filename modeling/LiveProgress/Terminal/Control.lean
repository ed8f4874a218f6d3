import LiveProgress.Output.Destination
import LiveProgress.Terminfo.Capabilities

/-!
# Cursor control

The writes that clear a line or move the cursor. A capability that the set lacks is
replaced by its plain ANSI sequence. A look-up that fails ends the writes.
-/

namespace LiveProgress

namespace Ansi

/-- Moves the cursor up by a count of rows that is given in decimal. -/
def up (count : String) : String := "\x1b[" ++ count ++ "A"

def down (count : String) : String := "\x1b[" ++ count ++ "B"

def cursorUp (lines : Number) : String := up lines.text

def cursorDown (lines : Number) : String := down lines.text

def clearToLineStart : String := "\x1b[1K"

def clearToLineEnd : String := "\x1b[K"

end Ansi

/-- A count of lines: the number that a capability is given, and the digits that stand in
its plain sequence. -/
structure LineCount where
  number : Number
  digits : String

namespace LineCount

def ofNumber (x : Number) : LineCount := ⟨x, x.text⟩

/-- Rows are counted one by one, so their digits are exact also where numbers are not. -/
def ofRows (rows : Nat) : LineCount := ⟨.ofNat rows, toString rows⟩

end LineCount

namespace CapabilitySet

/-- Writes the control text of a capability, or the sequence that replaces it. -/
def write (caps : CapabilitySet) (name : String) (parameters : List Number) (plain : String) :
    Attempt :=
  match caps.lookup name parameters with
  | .ok text => { texts := [text.getD plain] }
  | .error f => { failure := some f }

/-- Clears the line in two parts, up to the cursor and from it. -/
def clearLine (caps : CapabilitySet) : Attempt :=
  (caps.write "el1" [] Ansi.clearToLineStart).andThen (caps.write "el" [] Ansi.clearToLineEnd)

/-- No lines are no write. -/
def cursorUp (caps : CapabilitySet) (lines : LineCount) : Attempt :=
  if lines.number.beq 0 then {} else caps.write "cuu" [lines.number] (Ansi.up lines.digits)

def cursorDown (caps : CapabilitySet) (lines : LineCount) : Attempt :=
  if lines.number.beq 0 then {} else caps.write "cud" [lines.number] (Ansi.down lines.digits)

/-- Sets with no look-up that fails where a line is cleared or the cursor is moved. -/
structure Answers (caps : CapabilitySet) : Prop where
  clearLine : caps.clearLine.failure = none
  cursorUp : ∀ rows, (caps.cursorUp (.ofRows rows)).failure = none
  cursorDown : ∀ rows, (caps.cursorDown (.ofRows rows)).failure = none

end CapabilitySet
end LiveProgress

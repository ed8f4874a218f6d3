import LiveProgress.Text.Units

/-!
# Faults of JSON text

Why a text is not JSON. A fault is told by what is missing or wrong at its place, or, where
no value can begin or go on, by the unit that stands there with the text around it.
Positions and columns count units.
-/

namespace LiveProgress.Json

/-- What is wrong at the place of a fault. -/
inductive Fault.Cause where
  /-- What stands here belongs to no value. -/
  | unexpected
  | nameOrBraceMissing
  | nameMissing
  | colonMissing
  | commaOrBraceMissing
  | commaOrBracketMissing
  | openString
  | controlCharacter
  | badEscape
  | badUnit
  /-- A minus without digits. -/
  | bareMinus
  /-- A point without digits behind it. -/
  | bareFraction
  | bareExponent
  /-- More text behind the value. -/
  | surplus
deriving DecidableEq, Repr

/-- A fault at the beginning of `rest`, the part of the text that is not read. -/
structure Fault where
  cause : Fault.Cause
  rest : Text
deriving DecidableEq, Repr

namespace Fault

/-- The part of a text in front of the fault. -/
def front (text : Text) (f : Fault) : Text := text.take (text.length - f.rest.length)

/-- The line and the column behind a text that begins in those given. A line ends with a line feed,
with a carriage return or with both. -/
def lineAndColumn (line column : Nat) : Text → Nat × Nat
  | [] => (line, column)
  | u :: rest =>
      let isReturn := u.toChar == '\r' && rest.head?.map CodeUnit.toChar != some '\n'
      if u.toChar == '\n' || isReturn then lineAndColumn (line + 1) 1 rest
      else lineAndColumn line (column + 1) rest

/-- Where the fault lies: its offset, line and column. -/
def place (text : Text) (f : Fault) : String :=
  let front := f.front text
  let (line, column) := lineAndColumn 1 1 front
  " at position " ++ toString front.length ++ " (line " ++ toString line ++
    " column " ++ toString column ++ ")"

/-- Units shown on either side of a character that is not expected. -/
def margin : Nat := 10

/-- The text around an offset in quotation marks, with dots where it is cut. A text that
is not longer than both margins is shown whole. -/
def excerpt (text : Text) (offset : Nat) : String :=
  let quote (s : Text) := "\"" ++ s.string ++ "\""
  let dots (isCut : Bool) := if isCut then "..." else ""
  if text.length ≤ 2 * margin then quote text
  else
    dots (margin ≤ offset) ++ quote ((text.take (offset + margin)).drop (offset - margin)) ++
      dots (offset + margin < text.length)

/-- Texts that values which are no JSON are often written as. They are told as a whole. -/
def mistaken : List String := ["undefined", "NaN", "Infinity", "[object Object]"]

/-- What is told about the first unit that belongs to no value. -/
def unexpectedMessage (text : Text) (f : Fault) : String :=
  match f.rest with
  | [] => "Unexpected end of JSON input"
  | u :: _ =>
      if u.toChar = '"' then "Unexpected string in JSON" ++ f.place text
      else if u.toChar = '-' ∨ u.isDigit then "Unexpected number in JSON" ++ f.place text
      else if text.string ∈ mistaken then "\"" ++ text.string ++ "\" is not valid JSON"
      else
        "Unexpected token '" ++ u.toChar.toString ++ "', " ++
          excerpt text (f.front text).length ++ " is not valid JSON"

/-- What is told about a fault of a text. -/
def message (text : Text) (f : Fault) : String :=
  let inJson (wrong : String) := wrong ++ " in JSON" ++ f.place text
  match f.cause with
  | .unexpected => f.unexpectedMessage text
  | .nameOrBraceMissing => inJson "Expected property name or '\x7d'"
  | .nameMissing => inJson "Expected double-quoted property name"
  | .colonMissing => inJson "Expected ':' after property name"
  | .commaOrBraceMissing => inJson "Expected ',' or '\x7d' after property value"
  | .commaOrBracketMissing => inJson "Expected ',' or ']' after array element"
  | .openString => inJson "Unterminated string"
  | .controlCharacter => inJson "Bad control character in string literal"
  | .badEscape => inJson "Bad escaped character"
  | .badUnit => inJson "Bad Unicode escape"
  | .bareMinus => inJson "No number after minus sign"
  | .bareFraction => inJson "Unterminated fractional number"
  | .bareExponent => inJson "Exponent part is missing a number"
  | .surplus => "Unexpected non-whitespace character after JSON" ++ f.place text

end Fault
end LiveProgress.Json

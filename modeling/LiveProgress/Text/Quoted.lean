import LiveProgress.Text.Units

/-!
# Quoted text

How error messages show a text that may hold anything: in quotation marks that it does
not hold itself, if there are such, and with escapes for control characters. A wide text
is written line by line, and what goes beyond the greatest width is cut off. Of a very
long text only the beginning is looked at.
-/

namespace LiveProgress.Text

def backquote : Char := '\x60'

/-- Whether a dollar sign and an opening brace stand side by side. -/
def hasPlaceholder : List Char → Bool
  | '$' :: '{' :: _ => true
  | _ :: rest => hasPlaceholder rest
  | [] => false

/-- The quotation mark for a text: of the single, the double and the back quote the first
that it does not hold, and the single one if it holds all of them. Back quotes do not
enclose placeholders. -/
def quotationMark (s : List Char) : Char :=
  if ! s.contains '\'' then '\''
  else if ! s.contains '"' then '"'
  else if s.contains backquote || hasPlaceholder s then '\''
  else backquote

/-- A character between quotation marks. -/
def quotedChar (mark c : Char) : List Char :=
  if c = mark ∨ c = '\\' then ['\\', c]
  else if c = '\x08' then ['\\', 'b']
  else if c = '\t' then ['\\', 't']
  else if c = '\n' then ['\\', 'n']
  else if c = '\x0c' then ['\\', 'f']
  else if c = '\r' then ['\\', 'r']
  else
    let n := c.toNat
    if n < 0x20 ∨ (0x7F ≤ n ∧ n < 0xA0) then
      ['\\', 'x', (Nat.digitChar (n / 16)).toUpper, (Nat.digitChar (n % 16)).toUpper]
    else [c]

def quoted (s : List Char) : String :=
  let mark := quotationMark s
  String.ofList (mark :: (s.flatMap (quotedChar mark) ++ [mark]))

/-- The lines of a text, each with its line end. -/
def lines : List Char → List (List Char)
  | [] => []
  | c :: rest =>
      if c = '\n' then [c] :: lines rest
      else
        match lines rest with
        | [] => [[c]]
        | line :: more => (c :: line) :: more

/-- The units of a text that are looked at. -/
def readWidth : Nat := 10000

/-- The greatest width of a text that is quoted in one piece. -/
def pieceWidth : Nat := 76

/-- The greatest width of what is shown of a quoted text. -/
def shownWidth : Nat := 128

/-- A text as error messages show it. -/
def shown (s : String) : String :=
  let beginning := chars ((ofString s).take readWidth)
  let pieces := if pieceWidth < width beginning then lines beginning else [beginning]
  let whole := " +\n  ".intercalate (pieces.map quoted)
  if shownWidth < width whole.toList then
    string ((ofString whole).take shownWidth) ++ "..."
  else whole

end LiveProgress.Text

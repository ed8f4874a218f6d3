import LiveProgress.Template.Expansion

/-!
# Template programs

Templates as structured programs: sequences of commands, some of which are conditionals
whose conditions and branches are programs again. A program is written as a template by
spelling out its commands, and it is run by evaluating the condition of each branch in
turn. Nothing is searched or skipped here.
-/

namespace LiveProgress.Template

def Flag.char : Flag → Char
  | left => '-'
  | plus => '+'
  | alternate => '#'
  | zero => '0'
  | space => ' '

def Conversion.char : Conversion → Char
  | decimal => 'd'
  | octal => 'o'
  | hex => 'x'
  | upperHex => 'X'
  | text => 's'

def BinaryOp.char : BinaryOp → Char
  | add => '+'
  | sub => '-'
  | mul => '*'
  | div => '/'
  | mod => 'm'
  | bitAnd => '&'
  | bitOr => '|'
  | bitXor => '^'
  | equal => '='
  | greater => '>'
  | less => '<'
  | both => 'A'
  | either => 'O'

/-- A conversion as it is written: a colon may stand in front of any flags, and has to in
front of those that are not plain. No digits stand for the width zero, since a zero there is
a flag. -/
structure WrittenFormat where
  colon : Bool := false
  flags : List Flag := []
  width : Nat := 0
  precision : Option Number.Numeral := none
  conversion : Conversion
  readable : colon = true ∨ ∀ flag ∈ flags, flag.isPlain = true
deriving DecidableEq

namespace WrittenFormat

def format (w : WrittenFormat) : Format where
  flags := w.flags
  width := w.width
  precision := w.precision.map (·.value)
  conversion := w.conversion

def colonSpelling (w : WrittenFormat) : List Char := if w.colon then [':'] else []

def widthSpelling (w : WrittenFormat) : List Char :=
  if w.width = 0 then [] else Nat.toDigits 10 w.width

def precisionSpelling (w : WrittenFormat) : List Char :=
  w.precision.elim [] fun n => '.' :: n.digits

def spelling (w : WrittenFormat) : List Char :=
  w.colonSpelling ++ w.flags.map Flag.char ++ w.widthSpelling ++ w.precisionSpelling ++
    [w.conversion.char]

end WrittenFormat

/-- Variables are named by letters. -/
abbrev Variable := { u : CodeUnit // Instruction.isVariable u = true }

/-- Commands without a condition. -/
inductive Command where
  /-- A unit that stands for itself, percent signs included. -/
  | text (u : CodeUnit)
  | parameter (index : Fin 9)
  /-- An integer between braces. -/
  | integer (sign : Number.Sign) (magnitude : Number.Numeral)
  /-- A unit between apostrophes. -/
  | code (u : CodeUnit)
  | binary (op : BinaryOp)
  | not | complement | length | increment | writeUnit
  | store (name : Variable)
  | load (name : Variable)
  | write (format : WrittenFormat)
deriving DecidableEq

mutual

inductive Program where
  | done
  | command (c : Command) (rest : Program)
  | choice (branches : Branches) (rest : Program)

/-- The branches of a conditional: each but the last has a condition of its own, and
the last may have none or be missing. -/
inductive Branches where
  | when (condition body : Program) (others : Branches)
  | otherwise (body : Program)
  | none

end

namespace Command

/-- The units of ASCII characters behind a percent sign. -/
def escape (spelling : List Char) : Text := ('%' :: spelling).map CodeUnit.ofChar

/-- The command as it stands in a template. A percent sign that stands for itself is
doubled. -/
def spelling : Command → Text
  | .text u => if u.toChar = '%' then [u, u] else [u]
  | .parameter index => escape ['p', Nat.digitChar (index.val + 1)]
  | .integer sign magnitude => escape ('{' :: sign.spelling ++ magnitude.digits ++ ['}'])
  | .code u => escape ['\''] ++ [u, CodeUnit.ofChar '\'']
  | .binary op => escape [op.char]
  | .not => escape ['!']
  | .complement => escape ['~']
  | .length => escape ['l']
  | .increment => escape ['i']
  | .writeUnit => escape ['c']
  | .store name => escape ['P'] ++ [name.val]
  | .load name => escape ['g'] ++ [name.val]
  | .write w => escape w.spelling

/-- The integer that the command holds. -/
def integer? : Command → Option Int
  | .integer sign magnitude => some (sign.apply magnitude.value)
  | _ => none

/-- What the command does. An integer beyond the greatest number cannot be pushed. -/
def instruction? : Command → Option Instruction
  | .text u => some (.literal u)
  | .parameter index => some (.parameter index)
  | .integer sign magnitude =>
      let value := Number.ofInt (sign.apply magnitude.value)
      if value.isFinite then some (.constant value) else none
  | .code u => some (.constant (.ofNat u.toNat))
  | .binary op => some (.binary op)
  | .not => some .not
  | .complement => some .complement
  | .length => some .length
  | .increment => some .increment
  | .writeUnit => some .writeUnit
  | .store name => some (.store name)
  | .load name => some (.load name)
  | .write w => some (.write w.format)

end Command

/-- What stands in front of branches that follow another one. -/
def Branches.separator : Branches → Text
  | .none => []
  | _ => Command.escape ['e']

mutual

/-- The template of a program. -/
def Program.template : Program → Text
  | .done => []
  | .command c rest => c.spelling ++ rest.template
  | .choice branches rest =>
      Command.escape ['?'] ++ (branches.template ++ (Command.escape [';'] ++ rest.template))

def Branches.template : Branches → Text
  | .when condition body others =>
      condition.template ++ (Command.escape ['t'] ++
        (body.template ++ (others.separator ++ others.template)))
  | .otherwise body => body.template
  | .none => []

end

mutual

/-- The integers of a program, run or not. -/
def Program.integers : Program → List Int
  | .done => []
  | .command c rest => c.integer?.toList ++ rest.integers
  | .choice branches rest => branches.integers ++ rest.integers

def Branches.integers : Branches → List Int
  | .none => []
  | .otherwise body => body.integers
  | .when condition body others => condition.integers ++ body.integers ++ others.integers

end

mutual

/-- Runs a program, unless it comes to an integer that cannot be pushed or writes too much. -/
def Program.run : Program → Machine → Except Fault Machine
  | .done, m => .ok m
  | .command c rest, m =>
      match c.instruction? with
      | none => .error .unknown
      | some i => (m.step i).bind fun m => rest.run m
  | .choice branches rest, m => (branches.run m).bind fun m => rest.run m

/-- Runs the first branch whose condition leaves a value that is not zero; the value is
popped either way. -/
def Branches.run : Branches → Machine → Except Fault Machine
  | .none, m => .ok m
  | .otherwise body, m => body.run m
  | .when condition body others, m =>
      (condition.run m).bind fun m =>
        let (value, m) := m.pop
        if value.beq 0 then others.run m else body.run m

end

/-- The text that a program writes for given parameters. -/
def Program.output (p : Program) (parameters : List Number) : Except Fault Text :=
  (p.run (.start parameters)).map fun m => m.output.reverse

end LiveProgress.Template

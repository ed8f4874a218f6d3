import LiveProgress.Template.Format

/-!
# Template instructions

A capability template is text in which a percent sign begins an instruction of a small
stack machine. An instruction is read from the front of the units; what it takes
depends on nothing behind it. Conditionals are flat: their marks are instructions too.
-/

namespace LiveProgress.Template

inductive BinaryOp where
  | add | sub | mul | div | mod
  | bitAnd | bitOr | bitXor
  | equal | greater | less
  | both | either
deriving DecidableEq, Repr

namespace BinaryOp

def ofChar? : Char → Option BinaryOp
  | '+' => some add
  | '-' => some sub
  | '*' => some mul
  | '/' => some div
  | 'm' => some mod
  | '&' => some bitAnd
  | '|' => some bitOr
  | '^' => some bitXor
  | '=' => some equal
  | '>' => some greater
  | '<' => some less
  | 'A' => some both
  | 'O' => some either
  | _ => none

/-- The result for the lower operand `a` and the upper one `b`. Division and remainder
by zero give zero, and the logical operators count everything but zero as true. -/
def apply (op : BinaryOp) (a b : Number) : Number :=
  let isTrue (x : Number) : Bool := ! x.beq 0
  match op with
  | add => a + b
  | sub => a - b
  | mul => a * b
  | div => if b.beq 0 then 0 else (a / b).trunc
  | mod => if b.beq 0 then 0 else a % b
  | bitAnd => .ofWord (a.toWord &&& b.toWord)
  | bitOr => .ofWord (a.toWord ||| b.toWord)
  | bitXor => .ofWord (a.toWord ^^^ b.toWord)
  | equal => .ofBool (a.beq b)
  | greater => .ofBool (decide (b < a))
  | less => .ofBool (decide (a < b))
  | both => .ofBool (isTrue a && isTrue b)
  | either => .ofBool (isTrue a || isTrue b)

end BinaryOp

inductive Instruction where
  /-- A unit that stands for itself. -/
  | literal (u : CodeUnit)
  /-- Pops a value and writes it. -/
  | write (format : Format)
  /-- Pops a value and writes the unit of that code. -/
  | writeUnit
  /-- Pushes a parameter, counted from zero. -/
  | parameter (index : Fin 9)
  /-- Pops a value into a variable. -/
  | store (name : CodeUnit)
  /-- Pushes a variable. -/
  | load (name : CodeUnit)
  | constant (value : Number)
  /-- Pops a value and pushes its length; numbers have none, so that is zero. -/
  | length
  | binary (op : BinaryOp)
  | not
  | complement
  /-- Adds one to the first two parameters. -/
  | increment
  /-- `%?` and `%;`, which do nothing when reached. -/
  | begin | fi
  /-- `%t`: pops a value and, if it is zero, skips to the other branch. -/
  | ifTrue
  /-- `%e`: ends a branch that was taken. -/
  | orElse
deriving DecidableEq

namespace Instruction

/-- Variables are named by letters. -/
def isVariable (u : CodeUnit) : Bool :=
  let c := u.toChar
  ('a' ≤ c && c ≤ 'z') || ('A' ≤ c && c ≤ 'Z')

/-- The parameter that a digit names. -/
def parameter? (u : CodeUnit) : Option Instruction :=
  let c := u.toChar
  if h : '1' ≤ c ∧ c ≤ '9' then
    some (.parameter ⟨c.toNat - '1'.toNat, by
      have := h.2
      rw [Char.le_def, UInt32.le_iff_toNat_le] at this
      change c.toNat ≤ 57 at this
      change c.toNat - 49 < 9
      omega⟩)
  else none

/-- The constant between braces: an integer in any notation that numbers have. -/
def constant? (s : Text) : Option (Instruction × Text) :=
  let isEnd (u : CodeUnit) := u.toChar == '}'
  match s.dropWhile fun u => ! isEnd u with
  | _ :: rest =>
      let value := Number.ofText (s.takeWhile fun u => ! isEnd u)
      if value.isInteger then some (.constant value, rest) else none
  | [] => none

/-- The instructions of one unit behind the percent sign. -/
def plain? (u : CodeUnit) : Option Instruction :=
  match u.toChar with
  | '%' => some (.literal u)
  | 'c' => some .writeUnit
  | 'l' => some .length
  | '!' => some .not
  | '~' => some .complement
  | 'i' => some .increment
  | '?' => some .begin
  | ';' => some .fi
  | 't' => some .ifTrue
  | 'e' => some .orElse
  | c => (BinaryOp.ofChar? c).map .binary

/-- The instruction behind a percent sign that is named by its first unit. -/
def ofOperator? : Text → Option (Instruction × Text)
  | [] => none
  | u :: rest =>
      match u.toChar, rest with
      | 'p', n :: rest => (parameter? n).map (·, rest)
      | 'P', name :: rest => if isVariable name then some (.store name, rest) else none
      | 'g', name :: rest => some (.load name, rest)
      | '\'', code :: quote :: rest =>
          if quote.toChar = '\'' then some (.constant (.ofNat code.toNat), rest) else none
      | '{', rest => constant? rest
      | _, rest => (plain? u).map (·, rest)

/-- The instruction behind a percent sign, if it is one that is known. -/
def ofEscape? (s : Text) : Option (Instruction × Text) :=
  match Format.ofUnits? s with
  | some (format, rest) => some (.write format, rest)
  | none => ofOperator? s

/-- The instruction at the front of the units. -/
def ofUnits? : Text → Option (Instruction × Text)
  | [] => none
  | u :: rest => if u.toChar = '%' then ofEscape? rest else some (.literal u, rest)

theorem constant?_shorter {s rest : Text} {i : Instruction}
    (h : constant? s = some (i, rest)) : rest.length < s.length := by
  unfold constant? at h
  dsimp only at h
  split at h
  · rename_i u tail heq
    split at h
    · simp only [Option.some.injEq, Prod.mk.injEq] at h
      have h₁ := congrArg List.length heq
      have h₂ := (List.dropWhile_sublist (fun u : CodeUnit => ! u.toChar == '}') (l := s)).length_le
      simp only [List.length_cons] at h₁
      rw [← h.2]
      omega
    · cases h
  · cases h

theorem ofOperator?_shorter {s rest : Text} {i : Instruction}
    (h : ofOperator? s = some (i, rest)) : rest.length < s.length := by
  unfold ofOperator? at h
  split at h
  · cases h
  · rename_i u tail
    split at h
    case h_5 =>
      have := constant?_shorter h
      simp only [List.length_cons]
      omega
    all_goals grind [Option.map_eq_some_iff]

theorem ofEscape?_shorter {s rest : Text} {i : Instruction}
    (h : ofEscape? s = some (i, rest)) : rest.length < s.length := by
  unfold ofEscape? at h
  split at h
  · rename_i format tail heq
    simp only [Option.some.injEq, Prod.mk.injEq] at h
    rw [← h.2]
    exact Format.ofUnits?_shorter heq
  · exact ofOperator?_shorter h

theorem ofUnits?_shorter {s rest : Text} {i : Instruction}
    (h : ofUnits? s = some (i, rest)) : rest.length < s.length := by
  unfold ofUnits? at h
  split at h
  · cases h
  · split at h
    · have := ofEscape?_shorter h
      simp only [List.length_cons]
      omega
    · simp only [Option.some.injEq, Prod.mk.injEq] at h
      simp [← h.2]

end Instruction
end LiveProgress.Template

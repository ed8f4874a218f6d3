import LiveProgress.Number.Reading
import LiveProgress.Template.Instruction

/-!
# Template expansion

Runs a template on up to nine numeric parameters. Values live on a stack that gives
zero when it is empty, and in variables that are zero until they are set. A template
with an unknown instruction has no expansion, unless the run skips that instruction.
Nor has one that writes more than a text can hold.
-/

namespace LiveProgress.Template

/-- Why a template is not expanded. -/
inductive Fault where
  /-- An instruction that is not known. -/
  | unknown
  /-- What is written is longer than any text. -/
  | tooLong
deriving DecidableEq, Repr

structure Machine where
  parameters : List Number
  stack : List Number := []
  registers : CodeUnit → Number := fun _ => 0
  /-- What has been written, last unit first. -/
  output : Text := []

namespace Machine

/-- Parameters that are not given are zero, those beyond the ninth are ignored. -/
def start (parameters : List Number) : Machine :=
  let given := parameters.take 9
  { parameters := given ++ List.replicate (9 - given.length) 0 }

def push (m : Machine) (value : Number) : Machine := { m with stack := value :: m.stack }

def pop (m : Machine) : Number × Machine :=
  (m.stack.headD 0, { m with stack := m.stack.tail })

def write (m : Machine) (s : Text) : Except Fault Machine :=
  if Text.maxLength < m.output.length + s.length then .error .tooLong
  else .ok { m with output := s.reverse ++ m.output }

/-- The unit with a number's whole part as its code, modulo the number of units. -/
def unitOf (x : Number) : CodeUnit := UInt16.ofNat (x.wholePart % 65536).toNat

/-- Carries out an instruction; the conditional ones only pop. -/
def step (m : Machine) : Instruction → Except Fault Machine
  | .literal u => m.write [u]
  | .write format =>
      match format.text m.stack.head? with
      | none => .error .tooLong
      | some text => m.pop.2.write (Text.ofString text)
  | .writeUnit =>
      let (x, m) := m.pop
      m.write [unitOf x]
  | .parameter index => .ok (m.push (m.parameters.getD index 0))
  | .store name =>
      let (x, m) := m.pop
      .ok { m with registers := fun n => if n = name then x else m.registers n }
  | .load name => .ok (m.push (m.registers name))
  | .constant value => .ok (m.push value)
  | .length => .ok (m.pop.2.push 0)
  | .binary op =>
      let (b, m) := m.pop
      let (a, m) := m.pop
      .ok (m.push (op.apply a b))
  | .not =>
      let (x, m) := m.pop
      .ok (m.push (.ofBool (x.beq 0)))
  | .complement =>
      let (x, m) := m.pop
      .ok (m.push (.ofWord (~~~ x.toWord)))
  | .increment =>
      match m.parameters with
      | a :: b :: rest => .ok { m with parameters := (a + 1) :: (b + 1) :: rest }
      | _ => .ok m
  | .ifTrue => .ok m.pop.2
  | .begin | .fi | .orElse => .ok m

end Machine

/-- What follows the end of a branch: the matching `%;` and, if `toElse`, also the next
`%e` of the same conditional. Nested conditionals are passed over; so are quoted units,
but what stands between braces is searched like any other text. -/
def skipBranch (toElse : Bool) (depth : Nat) : Text → Text
  | [] => []
  | u :: s =>
      if u.toChar = '%' then
        match s with
        | [] => []
        | op :: rest =>
            match op.toChar, depth with
            | '\'', _ => skipBranch toElse depth (rest.drop 2)
            | '?', _ => skipBranch toElse (depth + 1) rest
            | ';', 0 => rest
            | ';', k + 1 => skipBranch toElse k rest
            | 'e', 0 => if toElse then rest else skipBranch toElse 0 rest
            | _, _ => skipBranch toElse depth rest
      else skipBranch toElse depth s
termination_by s => s.length
decreasing_by all_goals simp +arith

theorem skipBranch_length_le (toElse : Bool) (depth : Nat) (s : Text) :
    (skipBranch toElse depth s).length ≤ s.length := by
  fun_induction skipBranch toElse depth s <;> grind

/-- Where a machine that carries out an instruction goes on: behind it, or behind the branch
that it ends. -/
def continuation (m : Machine) (i : Instruction) (rest : Text) : Text :=
  match i with
  | .ifTrue => if m.pop.1.beq 0 then skipBranch true 0 rest else rest
  | .orElse => skipBranch false 0 rest
  | _ => rest

theorem continuation_length_le (m : Machine) (i : Instruction) (rest : Text) :
    (continuation m i rest).length ≤ rest.length := by
  unfold continuation
  split
  · split
    · exact skipBranch_length_le true 0 rest
    · exact Nat.le_refl _
  · exact skipBranch_length_le false 0 rest
  · exact Nat.le_refl _

/-- Runs a machine on the rest of a template; the units it has written at the end. -/
def run (m : Machine) (s : Text) : Except Fault Text :=
  match h : Instruction.ofUnits? s with
  | none => if s.isEmpty then .ok m.output.reverse else .error .unknown
  | some (i, rest) =>
      have : (continuation m i rest).length < s.length :=
        Nat.lt_of_le_of_lt (continuation_length_le m i rest) (Instruction.ofUnits?_shorter h)
      (m.step i).bind fun next => run next (continuation m i rest)
termination_by s.length

/-- The expansion of a template. -/
def expand (template : Text) (parameters : List Number) : Except Fault Text :=
  run (.start parameters) template

end LiveProgress.Template

import LiveProgress.Json.Basic
import LiveProgress.Json.Fault

/-!
# Reading JSON

A recursive reader of one JSON text. Each function takes what it reads from the front
of the units and answers with the rest, or with the fault if the text is not JSON
there. The recursion is bounded by a count that exceeds twice the length of the text:
every step takes a unit or hands the same text on once.
-/

namespace LiveProgress.Json

def skipBlanks (s : Text) : Text := s.dropWhile isBlank

/-- What follows a character that stands at the front of a text. -/
def after? (c : Char) : Text → Option Text
  | [] => none
  | u :: rest => if u.toChar = c then some rest else none

/-! ### Strings -/

/-- The unit that four hexadecimal digits denote. -/
def unit? (a b c d : CodeUnit) : Option CodeUnit := do
  let a ← Number.hexValue? a.toChar
  let b ← Number.hexValue? b.toChar
  let c ← Number.hexValue? c.toChar
  let d ← Number.hexValue? d.toChar
  pure (UInt16.ofNat (((a * 16 + b) * 16 + c) * 16 + d))

/-- The unit that a backslash and `u` stand for. -/
def escaped? (u : CodeUnit) : Option CodeUnit :=
  match u.toChar with
  | '"' | '\\' | '/' => some u
  | 'b' => some 0x08
  | 'f' => some 0x0C
  | 'n' => some 0x0A
  | 'r' => some 0x0D
  | 't' => some 0x09
  | _ => none

/-- The fault of what follows a backslash and is no escape. -/
def escapeFault (s : Text) : Fault :=
  match after? 'u' s with
  | some rest => ⟨.badUnit, rest.dropWhile fun u => (Number.hexValue? u.toChar).isSome⟩
  | none => ⟨.badEscape, s⟩

/-- The rest of a string, behind its opening quotation mark. The units read so far are
given with the last one first. -/
def takeBody (units : Text) : Text → Except Fault (Text × Text)
  | [] => .error ⟨.openString, []⟩
  | u :: rest =>
      match u.toChar, rest with
      | '"', rest => .ok (units.reverse, rest)
      | '\\', [] => .error (escapeFault [])
      | '\\', e :: rest =>
          match e.toChar, rest with
          | 'u', p :: q :: r :: s :: rest =>
              match unit? p q r s with
              | some v => takeBody (v :: units) rest
              | none => .error (escapeFault (e :: p :: q :: r :: s :: rest))
          | _, rest =>
              match escaped? e with
              | some v => takeBody (v :: units) rest
              | none => .error (escapeFault (e :: rest))
      | _, rest =>
          if u < 0x20 then .error ⟨.controlCharacter, u :: rest⟩ else takeBody (u :: units) rest

/-! ### Numbers and names -/

/-- An optional fraction part: a point and digits, which the point makes necessary. -/
def takeFraction (s : Text) : Except Fault (List Char × Text) :=
  match after? '.' s with
  | none => .ok ([], s)
  | some rest =>
      match Number.takeDigits rest with
      | ([], _) => .error ⟨.bareFraction, rest⟩
      | parts => .ok parts

/-- A number: no leading zero before another digit, and digits on both sides of a
point. -/
def takeNumber (s : Text) : Except Fault (Number × Text) :=
  let (negative, digits) := Number.takeMinus s
  match Number.takeDigits digits with
  | ([], _) => .error ⟨if negative then .bareMinus else .unexpected, digits⟩
  | ('0' :: _ :: _, _) => .error ⟨.unexpected, digits.drop 1⟩
  | (whole, rest) => do
      let (fraction, rest) ← takeFraction rest
      match Number.takeExponent? rest with
      | some (exponent, rest) => pure (Number.ofParts negative whole fraction exponent, rest)
      | none => .error ⟨.bareExponent, (Number.takeSign (rest.drop 1)).2⟩

/-- A literal name. -/
def takeName (value : Json) : List Char → Text → Except Fault (Json × Text)
  | [], rest => .ok (value, rest)
  | c :: name, s =>
      match after? c s with
      | some rest => takeName value name rest
      | none => .error ⟨.unexpected, s⟩

def takeScalar (s : Text) : Except Fault (Json × Text) :=
  match s.head?.map CodeUnit.toChar with
  | some 't' => takeName (.bool true) ['t', 'r', 'u', 'e'] s
  | some 'f' => takeName (.bool false) ['f', 'a', 'l', 's', 'e'] s
  | some 'n' => takeName .null ['n', 'u', 'l', 'l'] s
  | _ => (takeNumber s).map fun (x, rest) => (.number x, rest)

/-! ### Values -/

mutual

/-- A value at the front of the text. -/
def takeValue : Nat → Text → Except Fault (Json × Text)
  | 0, s => .error ⟨.unexpected, s⟩
  | fuel + 1, s =>
      match after? '"' s, after? '[' s, after? '{' s with
      | some rest, _, _ => (takeBody [] rest).map fun (s, rest) => (.string s, rest)
      | _, some rest, _ =>
          let rest := skipBlanks rest
          match after? ']' rest with
          | some rest => .ok (.array [], rest)
          | none => (takeItems fuel rest).map fun (items, rest) => (.array items, rest)
      | _, _, some rest =>
          let rest := skipBlanks rest
          match after? '}' rest with
          | some rest => .ok (.object [], rest)
          | none =>
              (takeMembers .nameOrBraceMissing fuel rest).map fun (members, rest) =>
                (.object members, rest)
      | none, none, none => takeScalar s

/-- The values of an array, up to its closing bracket. -/
def takeItems : Nat → Text → Except Fault (List Json × Text)
  | 0, s => .error ⟨.unexpected, s⟩
  | fuel + 1, s => do
      let (value, rest) ← takeValue fuel s
      let rest := skipBlanks rest
      match after? ']' rest, after? ',' rest with
      | some rest, _ => pure ([value], rest)
      | none, some rest =>
          let (items, rest) ← takeItems fuel (skipBlanks rest)
          pure (value :: items, rest)
      | none, none => throw ⟨.commaOrBracketMissing, rest⟩

/-- The members of an object, up to its closing brace. A text that does not go on with
a name has the fault `missing`. -/
def takeMembers (missing : Fault.Cause) :
    Nat → Text → Except Fault (List (Text × Json) × Text)
  | 0, s => .error ⟨.unexpected, s⟩
  | fuel + 1, s =>
      match after? '"' s with
      | none => .error ⟨missing, s⟩
      | some rest => do
          let (name, rest) ← takeBody [] rest
          let rest := skipBlanks rest
          match after? ':' rest with
          | none => throw ⟨.colonMissing, rest⟩
          | some rest =>
              let (value, rest) ← takeValue fuel (skipBlanks rest)
              let rest := skipBlanks rest
              match after? '}' rest, after? ',' rest with
              | some rest, _ => pure ([(name, value)], rest)
              | none, some rest =>
                  let (members, rest) ← takeMembers .nameMissing fuel (skipBlanks rest)
                  pure ((name, value) :: members, rest)
              | none, none => throw ⟨.commaOrBraceMissing, rest⟩

end

/-- The value of a complete JSON text. -/
def read (s : Text) : Except Fault Json := do
  let (value, rest) ← takeValue (2 * s.length + 2) (skipBlanks s)
  match skipBlanks rest with
  | [] => pure value
  | rest => throw ⟨.surplus, rest⟩

end LiveProgress.Json

import LiveProgress.Number.Reading
import LiveProgress.Number.Text
import LiveProgress.Text.Units

/-!
# JSON values

Strings are sequences of units, because an escape may name half a surrogate pair. An
object keeps its members as they are written, repeated names included. A look-up answers
with the last member of a name. Listed, a repeated name keeps its first place and takes
its last value, and names that are array indexes come first, in ascending order.
-/

namespace LiveProgress

inductive Json where
  | null
  | bool (value : Bool)
  | number (value : Number)
  | string (value : Text)
  | array (items : List Json)
  | object (members : List (Text × Json))
deriving Inhabited

namespace Json

/-- The value of a text without unpaired units. -/
def ofString (s : String) : Json := .string (Text.ofString s)

/-- White space between the tokens of JSON. -/
def isBlank (u : CodeUnit) : Bool :=
  let c := u.toChar
  c == ' ' || c == '\n' || c == '\r' || c == '\t'

end Json

/-! ### Members by name -/

namespace Members

variable {α : Type}

/-- The value of the last member named `name`. -/
def get? (name : Text) (members : List (Text × α)) : Option α :=
  (members.reverse.find? (·.1 == name)).map (·.2)

/-- Gives `name` a value, in its place if it has one and else at the end. -/
def put (name : Text) (value : α) : List (Text × α) → List (Text × α)
  | [] => [(name, value)]
  | (n, v) :: rest => if n = name then (n, value) :: rest else (n, v) :: put name value rest

/-- One member for each name. -/
def merged (members : List (Text × α)) : List (Text × α) :=
  members.foldl (fun done (name, value) => put name value done) []

/-- The greatest index that an array element can have, `2 ^ 32 - 2`. -/
def greatestIndex : Nat := 4294967294

/-- The array index that a name spells: decimal, without leading zeros, and at most
the greatest one. -/
def index? (name : Text) : Option Nat :=
  match name.map CodeUnit.toChar with
  | [] => none
  | digits =>
      if digits.all Char.isDigit && (digits.head? != some '0' || digits.length == 1) then
        let n := Number.digitsValue digits
        if n ≤ greatestIndex then some n else none
      else none

/-- One member for each name: those named by an array index in ascending order, then
the others in the order of their first appearance. -/
def listed (members : List (Text × α)) : List (Text × α) :=
  let all := merged members
  let indexed := all.filterMap fun m => (index? m.1).map (·, m)
  (indexed.mergeSort (fun a b => a.1 ≤ b.1)).map (·.2) ++ all.filter fun m => (index? m.1).isNone

end Members
end LiveProgress

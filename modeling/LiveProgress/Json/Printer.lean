import LiveProgress.Json.Basic

/-!
# JSON text of a value

Written without white space. Quotation marks, backslashes, control characters and units
without a partner are escaped, everything else stands for itself. Numbers without a
finite value are written as `null`.
-/

namespace LiveProgress.Json

def hexDigits4 (n : Nat) : List Char :=
  [n / 4096 % 16, n / 256 % 16, n / 16 % 16, n % 16].map Nat.digitChar

/-- A unit inside a string, if it is not part of a pair. -/
def quotedUnit (u : CodeUnit) : List Char :=
  let c := u.toChar
  if c = '"' then ['\\', '"']
  else if c = '\\' then ['\\', '\\']
  else if c = '\x08' then ['\\', 'b']
  else if c = '\x0c' then ['\\', 'f']
  else if c = '\n' then ['\\', 'n']
  else if c = '\r' then ['\\', 'r']
  else if c = '\t' then ['\\', 't']
  else if u < 0x20 ∨ u.isLead ∨ u.isTrail then '\\' :: 'u' :: hexDigits4 u.toNat
  else [c]

/-- The inside of a string. -/
def quotedUnits : Text → List Char
  | [] => []
  | [u] => quotedUnit u
  | u :: v :: rest =>
      if u.isLead && v.isTrail then Text.pairChar u v :: quotedUnits rest
      else quotedUnit u ++ quotedUnits (v :: rest)

def quoted (s : Text) : String := String.ofList ('"' :: (quotedUnits s ++ ['"']))

def numberText (x : Number) : String := if x.isFinite then x.text else "null"

mutual

def text : Json → String
  | .null => "null"
  | .bool b => if b then "true" else "false"
  | .number x => numberText x
  | .string s => quoted s
  | .array items => "[" ++ ",".intercalate (itemTexts items) ++ "]"
  | .object members =>
      "\x7b" ++ ",".intercalate
        ((Members.listed (memberTexts members)).map fun m => quoted m.1 ++ ":" ++ m.2) ++ "\x7d"

def itemTexts : List Json → List String
  | [] => []
  | v :: rest => v.text :: itemTexts rest

/-- The texts of the values, each with its name. -/
def memberTexts : List (Text × Json) → List (Text × String)
  | [] => []
  | (name, v) :: rest => (name, v.text) :: memberTexts rest

end

end LiveProgress.Json

import LiveProgress.Json.Basic
import LiveProgress.Number.Reading

/-!
# The grammar of JSON

The texts that are JSON, as a grammar: every relation holds between a text and what
follows a phrase at its front. Where a phrase may end is left open, so a number may be
followed by further digits here; a complete text leaves nothing over.
-/

namespace LiveProgress.Json.Grammar

/-- White space, possibly none. -/
inductive Blanks : Text → Text → Prop
  | nil {rest : Text} : Blanks rest rest
  | cons {u : CodeUnit} {s rest : Text} : isBlank u = true → Blanks s rest → Blanks (u :: s) rest

/-- One character. -/
inductive Mark (c : Char) : Text → Text → Prop
  | mk {u : CodeUnit} {rest : Text} : u.toChar = c → Mark c (u :: rest) rest

/-- The characters of a name. -/
inductive Name : List Char → Text → Text → Prop
  | nil {rest : Text} : Name [] rest rest
  | cons {c : Char} {name : List Char} {s t rest : Text} : Mark c s t → Name name t rest →
      Name (c :: name) s rest

/-- Digits, at least one. -/
inductive Digits : Text → Text → Prop
  | one {u : CodeUnit} {rest : Text} : u.isDigit = true → Digits (u :: rest) rest
  | cons {u : CodeUnit} {s rest : Text} : u.isDigit = true → Digits s rest → Digits (u :: s) rest

/-- A whole part: zero, or digits of which the first is not zero. -/
inductive Whole : Text → Text → Prop
  | zero {s rest : Text} : Mark '0' s rest → Whole s rest
  | digits {u : CodeUnit} {s rest : Text} : u.toChar ≠ '0' → Digits (u :: s) rest →
      Whole (u :: s) rest

/-- An optional fraction. -/
inductive Fraction : Text → Text → Prop
  | none {rest : Text} : Fraction rest rest
  | some {s t rest : Text} : Mark '.' s t → Digits t rest → Fraction s rest

/-- The letter in front of an exponent. -/
inductive ExponentMark : Text → Text → Prop
  | lower {s rest : Text} : Mark 'e' s rest → ExponentMark s rest
  | upper {s rest : Text} : Mark 'E' s rest → ExponentMark s rest

/-- An optional sign. -/
inductive Sign : Text → Text → Prop
  | none {rest : Text} : Sign rest rest
  | plus {s rest : Text} : Mark '+' s rest → Sign s rest
  | minus {s rest : Text} : Mark '-' s rest → Sign s rest

/-- An optional exponent. -/
inductive Exponent : Text → Text → Prop
  | none {rest : Text} : Exponent rest rest
  | some {s t u rest : Text} : ExponentMark s t → Sign t u → Digits u rest → Exponent s rest

inductive Unsigned : Text → Text → Prop
  | parts {s t u rest : Text} : Whole s t → Fraction t u → Exponent u rest → Unsigned s rest

inductive Numeral : Text → Text → Prop
  | positive {s rest : Text} : Unsigned s rest → Numeral s rest
  | negative {s t rest : Text} : Mark '-' s t → Unsigned t rest → Numeral s rest

/-- The units that may stand behind a backslash. -/
def isEscape (u : CodeUnit) : Bool :=
  ['"', '\\', '/', 'b', 'f', 'n', 'r', 't'].contains u.toChar

def isHex (u : CodeUnit) : Bool := (Number.hexValue? u.toChar).isSome

/-- The rest of a string, behind its opening quotation mark. -/
inductive Body : Text → Text → Prop
  | close {s rest : Text} : Mark '"' s rest → Body s rest
  | plain {u : CodeUnit} {s rest : Text} : u.toChar ≠ '"' → u.toChar ≠ '\\' → 0x20 ≤ u →
      Body s rest → Body (u :: s) rest
  | escaped {u : CodeUnit} {s t rest : Text} : Mark '\\' s (u :: t) → isEscape u = true →
      Body t rest → Body s rest
  | unit {a b c d : CodeUnit} {s t u rest : Text} : Mark '\\' s t →
      Mark 'u' t (a :: b :: c :: d :: u) → isHex a = true → isHex b = true → isHex c = true →
      isHex d = true → Body u rest → Body s rest

mutual

inductive Value : Text → Text → Prop
  | null {s rest : Text} : Name ['n', 'u', 'l', 'l'] s rest → Value s rest
  | true {s rest : Text} : Name ['t', 'r', 'u', 'e'] s rest → Value s rest
  | false {s rest : Text} : Name ['f', 'a', 'l', 's', 'e'] s rest → Value s rest
  | number {s rest : Text} : Numeral s rest → Value s rest
  | string {s t rest : Text} : Mark '"' s t → Body t rest → Value s rest
  | emptyArray {s t u rest : Text} : Mark '[' s t → Blanks t u → Mark ']' u rest → Value s rest
  | array {s t u rest : Text} : Mark '[' s t → Blanks t u → Items u rest → Value s rest
  | emptyObject {s t u rest : Text} : Mark '{' s t → Blanks t u → Mark '}' u rest → Value s rest
  | object {s t u rest : Text} : Mark '{' s t → Blanks t u → Members u rest → Value s rest

/-- The items of an array, up to its closing bracket. -/
inductive Items : Text → Text → Prop
  | last {s t u rest : Text} : Value s t → Blanks t u → Mark ']' u rest → Items s rest
  | cons {s t u v w rest : Text} : Value s t → Blanks t u → Mark ',' u v → Blanks v w →
      Items w rest → Items s rest

/-- A member of an object: its name, a colon and its value. -/
inductive Member : Text → Text → Prop
  | mk {s t u v w x rest : Text} : Mark '"' s t → Body t u → Blanks u v → Mark ':' v w →
      Blanks w x → Value x rest → Member s rest

/-- The members of an object, up to its closing brace. -/
inductive Members : Text → Text → Prop
  | last {s t u rest : Text} : Member s t → Blanks t u → Mark '}' u rest → Members s rest
  | cons {s t u v w rest : Text} : Member s t → Blanks t u → Mark ',' u v → Blanks v w →
      Members w rest → Members s rest

end

/-- Complete JSON texts. -/
inductive Document : Text → Prop
  | mk {s t u : Text} : Blanks s t → Value t u → Blanks u [] → Document s

end LiveProgress.Json.Grammar

import LiveProgress.Number.Basic
import LiveProgress.Text.Units

/-!
# Reading numbers

The parts of number text, and a lenient reader of a whole text: blanks around the number
are allowed, no digits at all mean zero, and a base may be marked with `0x`, `0o` or
`0b`. Text that is no number reads as the undefined number. Text is read unit by unit;
only the digits taken from it are characters.
-/

namespace LiveProgress.Number

def digitValue (c : Char) : Nat := c.toNat - '0'.toNat

/-- The value of decimal digits, most significant first. -/
def digitsValue (digits : List Char) : Nat :=
  digits.foldl (fun n c => 10 * n + digitValue c) 0

/-- A run of decimal digits and what follows it. -/
def takeDigits (s : Text) : List Char × Text :=
  ((s.takeWhile CodeUnit.isDigit).map CodeUnit.toChar, s.dropWhile CodeUnit.isDigit)

/-- The number written as sign, digits, fraction digits and exponent. -/
def ofParts (negative : Bool) (whole fraction : List Char) (exponent : Int) : Number :=
  ofDecimal negative (digitsValue (whole ++ fraction)) (exponent - fraction.length)

/-- An optional minus. -/
def takeMinus : Text → Bool × Text
  | [] => (false, [])
  | u :: rest => if u.toChar = '-' then (true, rest) else (false, u :: rest)

/-- An optional minus or plus. -/
def takeSign : Text → Bool × Text
  | [] => (false, [])
  | u :: rest => if u.toChar = '+' then (false, rest) else takeMinus (u :: rest)

/-- An optional exponent part: `e` or `E`, an optional sign and digits, which the mark
makes necessary. -/
def takeExponent? : Text → Option (Int × Text)
  | [] => some (0, [])
  | u :: rest =>
      if u.toChar = 'e' ∨ u.toChar = 'E' then
        let (negative, rest) := takeSign rest
        match takeDigits rest with
        | ([], _) => none
        | (digits, rest) =>
            let n : Int := digitsValue digits
            some (if negative then -n else n, rest)
      else some (0, u :: rest)

/-- The units that may surround a number: white space and line ends, wherever Unicode has
them, and the byte order mark. -/
def isBlank (u : CodeUnit) : Bool :=
  let n := u.toNat
  (9 ≤ n && n ≤ 13) || n == 0x20 || n == 0xA0 || n == 0x1680 || (0x2000 ≤ n && n ≤ 0x200A) ||
    n == 0x2028 || n == 0x2029 || n == 0x202F || n == 0x205F || n == 0x3000 || n == 0xFEFF

/-- The value of a digit in bases up to sixteen, of either case. -/
def hexValue? (c : Char) : Option Nat :=
  if c.isDigit then some (digitValue c)
  else if 'a' ≤ c ∧ c ≤ 'f' then some (c.toNat - 'a'.toNat + 10)
  else if 'A' ≤ c ∧ c ≤ 'F' then some (c.toNat - 'A'.toNat + 10)
  else none

/-- Digits of a base, at least one. -/
def inBase? (base : Nat) : Text → Option Nat
  | [] => none
  | digits => digits.foldlM (fun n u =>
      (hexValue? u.toChar).bind fun d => if d < base then some (base * n + d) else none) 0

/-- An unsigned decimal that takes the whole text; digits may be missing on one side
of the point. -/
def wholeDecimal? (negative : Bool) (s : Text) : Option Number :=
  let (whole, rest) := takeDigits s
  let (fraction, rest) := match rest with
    | [] => ([], [])
    | u :: r => if u.toChar = '.' then takeDigits r else ([], u :: r)
  match takeExponent? rest with
  | some (exponent, []) =>
      if (whole ++ fraction).isEmpty then none
      else some (ofParts negative whole fraction exponent)
  | _ => none

/-- A number with an optional sign that takes the whole text. -/
def signed? (s : Text) : Option Number :=
  let (negative, s) := takeSign s
  if s = Text.ofString "Infinity" then some (.infinite negative) else wholeDecimal? negative s

/-- The base that a letter behind a zero marks. -/
def markedBase? (u : CodeUnit) : Option Nat :=
  match u.toChar with
  | 'x' | 'X' => some 16
  | 'o' | 'O' => some 8
  | 'b' | 'B' => some 2
  | _ => none

/-- The number that a whole text denotes. -/
def ofText (s : Text) : Number :=
  let s := ((s.dropWhile isBlank).reverse.dropWhile isBlank).reverse
  let decimal := (signed? s).getD .undefined
  match s with
  | [] => 0
  | zero :: mark :: digits =>
      if zero.toChar = '0' then
        match markedBase? mark with
        | some base => ((inBase? base digits).map ofNat).getD .undefined
        | none => decimal
      else decimal
  | _ => decimal

/-- The exact value of a decimal, which may have a point in it, and what follows it. -/
def takeDecimal? (s : List Char) : Option (Rat × List Char) :=
  let whole := s.takeWhile Char.isDigit
  let (fraction, rest) := match s.dropWhile Char.isDigit with
    | '.' :: rest => (rest.takeWhile Char.isDigit, rest.dropWhile Char.isDigit)
    | rest => ([], rest)
  if whole.isEmpty then none
  else some (digitsValue (whole ++ fraction) / 10 ^ fraction.length, rest)

/-! ### Written integers -/

/-- A natural number in decimal, perhaps with zeros in front of its first digit. -/
structure Numeral where
  zeros : Nat := 0
  value : Nat
deriving DecidableEq, Repr

def Numeral.digits (n : Numeral) : List Char :=
  List.replicate n.zeros '0' ++ Nat.toDigits 10 n.value

/-- What stands in front of an integer. -/
inductive Sign where
  | none | plus | minus
deriving DecidableEq, Repr

namespace Sign

def spelling : Sign → List Char
  | none => []
  | plus => ['+']
  | minus => ['-']

def isNegative (s : Sign) : Bool := s == minus

def apply (s : Sign) (n : Nat) : Int := if s.isNegative then -n else n

end Sign

end LiveProgress.Number

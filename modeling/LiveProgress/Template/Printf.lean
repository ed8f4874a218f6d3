import LiveProgress.Template.Program

/-!
# Conversions as in C

What the conversions of numbers write in C for a number that is not negative: a mark in front (a
sign, a blank in its place, or the mark of a base), then at least as many digits as the precision
says, and blanks or zeros up to the width. A template writes marks and digits of its own, and these
come to the same only under a condition.
-/

namespace LiveProgress.Template

/-- The text of characters of a unit each, if it is none too long. -/
def fitting? (s : List Char) : Option String :=
  if s.length ≤ Text.maxLength then some (String.ofList s) else none

namespace Conversion

def base : Conversion → Nat
  | .octal => 8
  | .hex | .upperHex => 16
  | .decimal | .text => 10

/-- The digits of a number, as few as there are. -/
def digits (c : Conversion) (n : Nat) : List Char :=
  if c = .upperHex then (Nat.toDigits c.base n).map Char.toUpper else Nat.toDigits c.base n

end Conversion

namespace Format

/-- A mark and digits behind it, in a field of the width. -/
def place (f : Format) (mark digits : List Char) : List Char :=
  let blanks := List.replicate (f.width - (mark ++ digits).length) ' '
  if Flag.left ∈ f.flags then mark ++ digits ++ blanks else blanks ++ (mark ++ digits)

/-- Zeros in front of digits, up to the width. -/
def zeroFilled (f : Format) (mark digits : List Char) : List Char :=
  List.replicate (f.width - (mark ++ digits).length) '0' ++ digits

/-- At least as many digits as the precision says. -/
def preciseDigits (f : Format) (digits : List Char) : List Char :=
  List.replicate (f.precision.getD 0 - digits.length) '0' ++ digits

/-! ### In C -/

/-- The flags `+` and ` ` are for signed numbers. Zero has no mark of a base. -/
def cMark (f : Format) (n : Nat) : List Char :=
  match f.conversion with
  | .decimal =>
      if Flag.plus ∈ f.flags then ['+'] else if Flag.space ∈ f.flags then [' '] else []
  | .hex => if Flag.alternate ∈ f.flags ∧ n ≠ 0 then ['0', 'x'] else []
  | .upperHex => if Flag.alternate ∈ f.flags ∧ n ≠ 0 then ['0', 'X'] else []
  | .octal | .text => []

/-- To the precision zero, zero has no digit. -/
def cOwnDigits (f : Format) (n : Nat) : List Char :=
  f.preciseDigits (if f.precision = some 0 ∧ n = 0 then [] else f.conversion.digits n)

/-- The alternate form of an octal number begins with a zero. -/
def cPreciseDigits (f : Format) (n : Nat) : List Char :=
  let digits := f.cOwnDigits n
  if f.conversion = .octal ∧ Flag.alternate ∈ f.flags ∧ digits.head? ≠ some '0' then '0' :: digits
  else digits

/-- Zeros fill the field only without a precision, and not if the text stands on the left. -/
def cDigits (f : Format) (n : Nat) : List Char :=
  if Flag.left ∉ f.flags ∧ Flag.zero ∈ f.flags ∧ f.precision = none then
    f.zeroFilled (f.cMark n) (f.cPreciseDigits n)
  else f.cPreciseDigits n

/-- What C writes. -/
def printf (f : Format) (n : Nat) : List Char := f.place (f.cMark n) (f.cDigits n)

/-! ### In templates -/

/-- There is no mark but a sign. -/
def mark (f : Format) : List Char :=
  if f.conversion = .decimal ∧ Flag.plus ∈ f.flags then ['+'] else []

/-- A precision is for decimals only. -/
def ownDigits (f : Format) (n : Nat) : List Char :=
  if f.conversion = .decimal then f.preciseDigits (f.conversion.digits n)
  else f.conversion.digits n

/-- Zeros fill the field whatever the precision is. -/
def digits (f : Format) (n : Nat) : List Char :=
  if Flag.left ∉ f.flags ∧ Flag.zero ∈ f.flags then f.zeroFilled f.mark (f.ownDigits n)
  else f.ownDigits n

/-- Where templates write a number as C does: the digits are the same, and so is the mark, unless it
is a blank and stands where the field is filled with blanks anyway. -/
def WritesAsC (f : Format) (n : Nat) : Prop :=
  f.digits n = f.cDigits n ∧
    (f.mark = f.cMark n ∨
      f.cMark n = [' '] ∧ Flag.left ∉ f.flags ∧ (f.cDigits n).length < f.width)

instance (f : Format) (n : Nat) : Decidable (f.WritesAsC n) := inferInstanceAs (Decidable (_ ∧ _))

end Format
end LiveProgress.Template

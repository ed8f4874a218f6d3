import LiveProgress.Number.Text
import LiveProgress.Number.Reading
import LiveProgress.Text.Units

/-!
# Output conversions

The conversions `%d`, `%o`, `%x`, `%X` and `%s` with flags, least width and precision.
The flags `-` and `+` need a colon in front of them, for without it they are operators.
A conversion fails if what it asks for is longer than any text.
-/

namespace LiveProgress.Template

inductive Flag where
  | left | plus | alternate | zero | space
deriving DecidableEq, Repr

inductive Conversion where
  | decimal | octal | hex | upperHex | text
deriving DecidableEq, Repr

structure Format where
  flags : List Flag
  width : Nat
  precision : Option Nat
  conversion : Conversion
deriving DecidableEq, Repr

namespace Flag

def ofUnit? (u : CodeUnit) : Option Flag :=
  match u.toChar with
  | '-' => some left
  | '+' => some plus
  | '#' => some alternate
  | '0' => some zero
  | ' ' => some space
  | _ => none

/-- Whether the flag stands without a colon. -/
def isPlain (f : Flag) : Bool := f != left && f != plus

/-- The flag that a unit is, behind a colon or without one. -/
def read? (colon : Bool) (u : CodeUnit) : Option Flag :=
  (ofUnit? u).filter fun f => colon || f.isPlain

end Flag

def Conversion.ofUnit? (u : CodeUnit) : Option Conversion :=
  match u.toChar with
  | 'd' => some decimal
  | 'o' => some octal
  | 'x' => some hex
  | 'X' => some upperHex
  | 's' => some text
  | _ => none

namespace Format

/-- An optional colon. -/
def takeColon : Text → Bool × Text
  | [] => (false, [])
  | u :: rest => if u.toChar = ':' then (true, rest) else (false, u :: rest)

/-- The flags at the front of the units; behind a colon all of them, else the plain
ones. -/
def takeFlags (s : Text) : List Flag × Text :=
  let (colon, s) := takeColon s
  ((s.takeWhile fun u => (Flag.read? colon u).isSome).filterMap (Flag.read? colon),
    s.dropWhile fun u => (Flag.read? colon u).isSome)

/-- A precision at the front of the units: a point and digits. -/
def takePrecision (s : Text) : Option Nat × Text :=
  match s with
  | [] => (none, s)
  | u :: rest =>
      if u.toChar = '.' then
        match Number.takeDigits rest with
        | ([], _) => (none, s)
        | (digits, rest) => (some (Number.digitsValue digits), rest)
      else (none, s)

/-- The conversion that the units behind a percent sign begin with. -/
def ofUnits? (s : Text) : Option (Format × Text) :=
  let (flags, s) := takeFlags s
  let (width, s) := Number.takeDigits s
  let (precision, s) := takePrecision s
  match s with
  | u :: rest => (Conversion.ofUnit? u).map fun conversion =>
      ({ flags, width := Number.digitsValue width, precision, conversion }, rest)
  | [] => none

theorem takeColon_length_le (s : Text) : (takeColon s).2.length ≤ s.length := by
  unfold takeColon
  split
  · exact Nat.le_refl _
  · split
    · exact Nat.le_succ _
    · exact Nat.le_refl _

theorem takeFlags_length_le (s : Text) : (takeFlags s).2.length ≤ s.length :=
  Nat.le_trans (List.dropWhile_sublist _).length_le (takeColon_length_le s)

theorem takePrecision_length_le (s : Text) : (takePrecision s).2.length ≤ s.length := by
  unfold takePrecision
  split
  · exact Nat.le_refl _
  · rename_i u rest
    split
    · split
      · exact Nat.le_refl _
      · rename_i digits tail _ heq
        have hdrop : rest.dropWhile CodeUnit.isDigit = tail := congrArg Prod.snd heq
        rw [← hdrop]
        exact Nat.le_succ_of_le (List.dropWhile_sublist _).length_le
    · exact Nat.le_refl _

theorem ofUnits?_shorter {s rest : Text} {f : Format}
    (h : ofUnits? s = some (f, rest)) : rest.length < s.length := by
  unfold ofUnits? at h
  dsimp only at h
  split at h
  · rename_i u tail heq
    cases hc : Conversion.ofUnit? u with
    | none => simp [hc] at h
    | some conversion =>
      simp only [hc, Option.map_some, Option.some.injEq, Prod.mk.injEq] at h
      have hflags := takeFlags_length_le s
      have hwidth : (Number.takeDigits (takeFlags s).2).2.length ≤ (takeFlags s).2.length :=
        (List.dropWhile_sublist _).length_le
      have hprecision := takePrecision_length_le (Number.takeDigits (takeFlags s).2).2
      have hlength := congrArg List.length heq
      simp only [List.length_cons] at hlength
      rw [← h.2]
      omega
  · cases h

/-- The text of a number before it is filled to the width. A precision is the least
count of digits of a decimal and the greatest length of a text. -/
def body (f : Format) (value : Number) : Option String :=
  match f.conversion with
  | .text =>
      match f.precision with
      | some n => some (String.ofList (value.text.toList.take n))
      | none => some value.text
  | .octal => some (value.trunc.wholeText 8)
  | .hex => some (value.trunc.wholeText 16)
  | .upperHex => some (value.trunc.wholeText 16).toUpper
  | .decimal =>
      let n := value.trunc
      let sign := if n < 0 then "-" else if Flag.plus ∈ f.flags then "+" else ""
      (Text.padLeft? (f.precision.getD 0) '0' n.abs.text).bind (Text.append? sign)

/-- Fills a text to the width: with blanks on the right or on the left, or with zeros
between the sign and the digits of a number. -/
def fill (f : Format) (s : String) : Option String :=
  if Flag.left ∈ f.flags then Text.padRight? f.width ' ' s
  else if Flag.zero ∈ f.flags ∧ f.conversion ≠ .text then
    match s.toList with
    | c :: digits =>
        if c = '-' ∨ c = '+' then
          (Text.padLeft? (f.width - 1) '0' (String.ofList digits)).bind
            (Text.append? (String.singleton c))
        else Text.padLeft? f.width '0' s
    | [] => Text.padLeft? f.width '0' s
  else Text.padLeft? f.width ' ' s

/-- The text of a popped value. An empty stack shows as zero, and as nothing where a
text is asked for. -/
def text (f : Format) (value : Option Number) : Option String :=
  match value, f.conversion with
  | none, .text => f.fill ""
  | value, _ => (f.body (value.getD 0)).bind f.fill

end Format
end LiveProgress.Template

import LiveProgress.Number.Basic

/-!
# Number text

A finite number is written with the fewest digits that read back as the same
number, and among those with the nearest ones. The notation is positional from
`1e-6` up to below `1e21` and scientific outside. In another base all digits of the
whole part are written.
-/

namespace LiveProgress.Number

/-- The exponent `k` with `10 ^ k ≤ q < 10 ^ (k + 1)`, for positive `q`. -/
def floorLog10 (q : Rat) : Int :=
  let k : Int := (Nat.toDigits 10 q.num.natAbs).length - (Nat.toDigits 10 q.den).length
  if (10 : Rat) ^ k ≤ q then k else k - 1

/-- A decimal `digits * 10 ^ exponent`. -/
structure Decimal where
  digits : Nat
  exponent : Int
deriving DecidableEq, Repr

def Decimal.toRat (d : Decimal) : Rat := d.digits * 10 ^ d.exponent

/-- Whether the number nearest to `d` is `q`. -/
def Decimal.readsAs (d : Decimal) (q : Rat) : Bool :=
  match ofRat d.toRat with
  | .finite value _ => value == q
  | _ => false

/-- The decimals with `count` digits on both sides of `q` that read back as `q`,
the nearer one first and from a tie the even one. -/
def Decimal.ofCount? (q : Rat) (count : Nat) : Option Decimal :=
  let exponent := floorLog10 q + 1 - count
  let t := q / 10 ^ exponent
  let below : Decimal := ⟨t.floor.toNat, exponent⟩
  let above : Decimal := ⟨t.floor.toNat + 1, exponent⟩
  let near := nearestEven t
  let ordered := if near = t.floor then [below, above] else [above, below]
  ordered.find? (·.readsAs q)

/-- The decimal with the fewest digits that reads back as the positive number `q`.
Seventeen digits always suffice. -/
def Decimal.shortest (q : Rat) : Decimal :=
  ((List.range' 1 17).findSome? (Decimal.ofCount? q)).getD ⟨q.floor.toNat, 0⟩

/-- How numbers are laid out: the least and the greatest count of places before the
point for which the notation is positional. -/
structure Layout where
  leastPlaces : Int
  greatestPlaces : Int

def layout : Layout := ⟨-5, 21⟩

/-- The text of a positive decimal: `places` digits before the point when that is
within the layout, else one digit, the others behind the point and the exponent. -/
def Decimal.text (d : Decimal) : String :=
  let all := Nat.toDigits 10 d.digits
  let places : Int := all.length + d.exponent
  let digits := (all.reverse.dropWhile (· == '0')).reverse
  let point (whole fraction : List Char) : String :=
    String.ofList (if fraction.isEmpty then whole else whole ++ '.' :: fraction)
  if places < layout.leastPlaces ∨ layout.greatestPlaces < places then
    let e := places - 1
    let mark := if e < 0 then "e-" else "e+"
    point (digits.take 1) (digits.drop 1) ++ mark ++ toString e.natAbs
  else if places ≤ 0 then
    point ['0'] (List.replicate (-places).toNat '0' ++ digits)
  else
    let places := places.toNat
    point (digits.take places ++ List.replicate (places - digits.length) '0') (digits.drop places)

def text : Number → String
  | .undefined => "NaN"
  | .infinite negative => if negative then "-Infinity" else "Infinity"
  | .finite q _ =>
      if q = 0 then "0"
      else (if q < 0 then "-" else "") ++ (Decimal.shortest q.abs).text

/-- Rounds to `count` significant decimal digits, a half away from zero, and then
to the nearest number. -/
def roundSignificant (count : Nat) : Number → Number :=
  map fun q =>
    if q = 0 then 0
    else
      let exponent := floorLog10 q.abs + 1 - count
      let digits : Rat := (q.abs / 10 ^ exponent + 1 / 2).floor
      let magnitude := digits * 10 ^ exponent
      if q < 0 then -magnitude else magnitude

/-- The exact whole part in base `base`, with a sign if it is negative. -/
def wholeText (base : Nat) : Number → String
  | x@(.finite ..) =>
      let n := x.wholePart
      (if n < 0 then "-" else "") ++ String.ofList (Nat.toDigits base n.natAbs)
  | x => x.text

end LiveProgress.Number

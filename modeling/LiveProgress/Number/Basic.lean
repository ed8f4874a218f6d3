/-!
# Binary64 numbers

The numbers of the message format. A finite number is held as its exact rational
value together with the fact that this value has a binary64 form; every operation
computes the exact rational result and rounds it once, to the nearest number and
from a tie to the even significand. The two zeros are one number here, because no
text that this library writes tells them apart.
-/

namespace LiveProgress

/-- The least natural number of 54 bits, one more than the greatest significand. -/
def significandBound : Nat := 0x20000000000000

/-- A significand of at most 53 bits times a power of two in the binary64 range. -/
def Representable (q : Rat) : Prop :=
  ∃ m e : Int, q = m * 2 ^ e ∧ m.natAbs < significandBound ∧ -1074 ≤ e ∧ e ≤ 971

inductive Number where
  | finite (value : Rat) (representable : Representable value)
  | infinite (negative : Bool)
  | undefined
deriving DecidableEq

namespace Number

/-- The exponent `k` with `2 ^ k ≤ q < 2 ^ (k + 1)`, for positive `q`. -/
def floorLog2 (q : Rat) : Int :=
  let k : Int := q.num.natAbs.log2 - q.den.log2
  if (2 : Rat) ^ k ≤ q then k else k - 1

/-- The exponent of the last binary place that a number near `q` can have. -/
def lastPlace (q : Rat) : Int :=
  if q = 0 then -1074 else max (floorLog2 q.abs - 52) (-1074)

/-- The nearest integer, and from halfway the even one. -/
def nearestEven (t : Rat) : Int :=
  if 1 < 2 * (t - t.floor) ∨ (2 * (t - t.floor) = 1 ∧ t.floor % 2 = 1) then t.floor + 1
  else t.floor

/-- Significand and exponent of the number nearest to `q`. A significand that
rounds up to 54 bits is carried to the next exponent. -/
def roundedParts (q : Rat) : Int × Int :=
  let e := lastPlace q
  let m := nearestEven (q / 2 ^ e)
  if m.natAbs = significandBound then (m / 2, e + 1) else (m, e)

/-- The number nearest to `q`. What rounds beyond the greatest finite number is
infinite. -/
def ofRat (q : Rat) : Number :=
  let p := roundedParts q
  if h : p.1.natAbs < significandBound ∧ -1074 ≤ p.2 ∧ p.2 ≤ 971 then
    .finite (p.1 * 2 ^ p.2) ⟨p.1, p.2, rfl, h⟩
  else .infinite (decide (q < 0))

def ofInt (n : Int) : Number := ofRat n

def ofNat (n : Nat) : Number := ofRat n

instance (n : Nat) : OfNat Number n := ⟨ofNat n⟩

instance : Inhabited Number := ⟨0⟩

/-- The number `digits * 10 ^ exponent`. The two guards only spare the powers of
ten whose outcome is known: beyond them every number overflows or vanishes. -/
def ofDecimal (negative : Bool) (digits : Nat) (exponent : Int) : Number :=
  let places : Int := (Nat.toDigits 10 digits).length + exponent
  if digits = 0 ∨ places < -400 then 0
  else if 400 < places then .infinite negative
  else
    let magnitude : Rat := digits * 10 ^ exponent
    ofRat (if negative then -magnitude else magnitude)

def isFinite : Number → Bool
  | .finite .. => true
  | _ => false

def isInteger : Number → Bool
  | .finite q _ => q.den == 1
  | _ => false

/-- The whole part of a finite number, and zero for the others. -/
def wholePart : Number → Int
  | .finite q _ => if q < 0 then q.ceil else q.floor
  | _ => 0

/-! ### Order -/

def beq : Number → Number → Bool
  | .undefined, _ | _, .undefined => false
  | x, y => decide (x = y)

def lt : Number → Number → Bool
  | .finite a _, .finite b _ => decide (a < b)
  | .finite .., .infinite s => !s
  | .infinite s, .finite .. => s
  | .infinite s, .infinite t => s && !t
  | .undefined, _ | _, .undefined => false

/-- Nothing compares with the undefined number, not even itself. -/
instance : LT Number := ⟨fun x y => lt x y = true⟩

instance : LE Number := ⟨fun x y => (lt x y || beq x y) = true⟩

instance (x y : Number) : Decidable (x < y) := inferInstanceAs (Decidable (lt x y = true))

instance (x y : Number) : Decidable (x ≤ y) :=
  inferInstanceAs (Decidable ((lt x y || beq x y) = true))

/-! ### Arithmetic -/

/-- Applies an exact operation to a finite number; the others keep their kind. -/
def map (f : Rat → Rat) : Number → Number
  | .finite q _ => ofRat (f q)
  | x => x

def neg : Number → Number
  | .infinite s => .infinite !s
  | x => x.map (-·)

def abs : Number → Number
  | .infinite _ => .infinite false
  | x => x.map Rat.abs

def trunc (x : Number) : Number := x.map fun q => if q < 0 then q.ceil else q.floor

def floor (x : Number) : Number := x.map fun q => q.floor

def add : Number → Number → Number
  | .finite a _, .finite b _ => ofRat (a + b)
  | .finite .., .infinite s => .infinite s
  | .infinite s, .finite .. => .infinite s
  | .infinite s, .infinite t => if s = t then .infinite s else .undefined
  | .undefined, _ | _, .undefined => .undefined

def sub (x y : Number) : Number := x.add y.neg

/-- Whether a number lies below zero. -/
def isNegative (x : Number) : Bool := x.lt 0

def mul : Number → Number → Number
  | .finite a _, .finite b _ => ofRat (a * b)
  | .undefined, _ | _, .undefined => .undefined
  | x, y => if x = 0 ∨ y = 0 then .undefined else .infinite (x.isNegative != y.isNegative)

/-- A quotient by zero takes the sign of the dividend. -/
def div : Number → Number → Number
  | .finite a _, .finite b _ =>
      if b = 0 then (if a = 0 then .undefined else .infinite (decide (a < 0)))
      else ofRat (a / b)
  | .finite .., .infinite _ => 0
  | .infinite s, .finite b _ => .infinite (s != decide (b < 0))
  | .infinite _, .infinite _ => .undefined
  | .undefined, _ | _, .undefined => .undefined

/-- The remainder of the division toward zero; it has the sign of the dividend. -/
def rem : Number → Number → Number
  | .finite a _, .finite b _ =>
      if b = 0 then .undefined
      else
        let t := a / b
        ofRat (a - b * if t < 0 then t.ceil else t.floor)
  | x@(.finite ..), .infinite _ => x
  | _, _ => .undefined

instance : Neg Number := ⟨neg⟩
instance : Add Number := ⟨add⟩
instance : Sub Number := ⟨sub⟩
instance : Mul Number := ⟨mul⟩
instance : Div Number := ⟨div⟩
instance : Mod Number := ⟨rem⟩

/-- The smaller of two numbers; undefined if one of them is. -/
def min : Number → Number → Number
  | .undefined, _ | _, .undefined => .undefined
  | x, y => if y < x then y else x

def max : Number → Number → Number
  | .undefined, _ | _, .undefined => .undefined
  | x, y => if x < y then y else x

/-! ### Words -/

/-- The whole part in two's complement of 32 bits. -/
def toWord (x : Number) : Int32 := Int32.ofInt x.wholePart

def ofWord (w : Int32) : Number := ofInt w.toInt

/-- One for true and zero for false. -/
def ofBool (b : Bool) : Number := if b then 1 else 0

end Number
end LiveProgress

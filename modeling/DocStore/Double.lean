/-!
# Double-precision numbers

A double is its 64-bit pattern. Its magnitude is a natural number of units of
`2 ^ -1074`, the smallest subnormal, so every finite double is an exact integer
on one scale and infinity is the next value after the largest of them. Each
operation that can round hands an exact quotient to `ofRatio`, which answers
the nearest double, ties to even. Nothing here depends on the machine's own
floating-point unit.
-/

set_option autoImplicit false

namespace DocStore

/-- A double-precision number, held as its bit pattern. -/
structure Double where
  bits : UInt64
deriving DecidableEq

namespace Double

/-- The sign bit, set also for `-0.0` and for some NaNs. -/
def isNegative (x : Double) : Bool := 1 <<< 63 ≤ x.bits.toNat

/-- The eleven exponent bits. -/
def exponentField (x : Double) : Nat := (x.bits.toNat >>> 52) % 2048

/-- The fifty-two fraction bits. -/
def fraction (x : Double) : Nat := x.bits.toNat % (1 <<< 52)

def isNaN (x : Double) : Bool := x.exponentField == 2047 && x.fraction != 0

def isInfinite (x : Double) : Bool := x.exponentField == 2047 && x.fraction == 0

def isFinite (x : Double) : Bool := x.exponentField < 2047

/-- The number of units in one: the scale of `magnitude`. -/
def unitsPerOne : Nat := 1 <<< 1074

/-- The absolute value, in units of `2 ^ -1074`. -/
def magnitude (x : Double) : Nat :=
  if x.exponentField = 0 then x.fraction
  else ((1 <<< 52) + x.fraction) <<< (x.exponentField - 1)

/-- The value, in units of `2 ^ -1074`. -/
def scaled (x : Double) : Int :=
  if x.isNegative then -(x.magnitude : Int) else x.magnitude

/-- A double from its sign and its other sixty-three bits. -/
def pack (negative : Bool) (rest : Nat) : Double :=
  ⟨UInt64.ofNat (if negative then (1 <<< 63) + rest else rest)⟩

def zero (negative : Bool) : Double := pack negative 0

def infinity (negative : Bool) : Double := pack negative (2047 <<< 52)

/-- The NaN that stands for the word in text and in stored values. -/
def nan : Double := ⟨0x7ff8000000000000⟩

/-- The NaN an operation without a value answers; its sign bit is set. -/
def invalid : Double := ⟨0xfff8000000000000⟩

/-- The integer nearest to `num / den`; a half goes to the even neighbour. -/
def roundHalfEven (num den : Nat) : Nat :=
  let q := num / den
  let r := num % den
  if den < 2 * r ∨ (2 * r = den ∧ q % 2 = 1) then q + 1 else q

/-- The bits below the sign of the double nearest to `num / den`. The exponent
field and the significand share one number, so a significand that rounds up to
the next power of two carries into the exponent. -/
def nearestBits (num den : Nat) : Nat :=
  let units := num <<< 1074
  let shift := (units / den).log2 - 52
  min ((shift <<< 52) + roundHalfEven units (den <<< shift)) (2047 <<< 52)

/-- The double nearest to `± num / den`, for a positive `den`. -/
def ofRatio (negative : Bool) (num den : Nat) : Double := pack negative (nearestBits num den)

/-- A single-precision number, given by its bit pattern, as a double; it stays exact. -/
def ofSingle (bits : UInt32) : Double :=
  let negative := 1 <<< 31 ≤ bits.toNat
  let exponent := (bits.toNat >>> 23) % 256
  let fraction := bits.toNat % (1 <<< 23)
  if exponent = 255 then if fraction = 0 then infinity negative else nan
  else
    let units := if exponent = 0 then fraction else ((1 <<< 23) + fraction) <<< (exponent - 1)
    ofRatio negative units (1 <<< 149)

/-- The double nearest to an integer. -/
def ofInt (i : Int) : Double := ofRatio (i < 0) i.natAbs 1

/-- The number `± digits * 10 ^ exponent`, rounded. Exponents that leave the
range of doubles however the digits fall are answered without computing the power. -/
def ofDecimal (negative : Bool) (digits : Nat) (exponent : Int) : Double :=
  let point := (Nat.toDigits 10 digits).length + exponent
  if digits = 0 ∨ point < -400 then zero negative
  else if 400 < point then infinity negative
  else ofRatio negative (digits * Nat.pow 10 exponent.toNat) (Nat.pow 10 (-exponent).toNat)

def neg (x : Double) : Double := ⟨x.bits ^^^ 0x8000000000000000⟩

/-- The sum. A NaN operand is the answer, the left one first. -/
def add (x y : Double) : Double :=
  if x.isNaN then x
  else if y.isNaN then y
  else if x.isInfinite then
    if y.isInfinite && x.isNegative != y.isNegative then invalid else x
  else if y.isInfinite then y
  else
    let sum := x.scaled + y.scaled
    if sum = 0 then zero (x.isNegative && y.isNegative)
    else ofRatio (sum < 0) sum.natAbs unitsPerOne

/-- The difference. A NaN operand is the answer, the left one first. -/
def sub (x y : Double) : Double :=
  if x.isNaN then x
  else if y.isNaN then y
  else x.add y.neg

/-- The product. A NaN operand is the answer, the left one first. -/
def mul (x y : Double) : Double :=
  let negative := x.isNegative != y.isNegative
  if x.isNaN then x
  else if y.isNaN then y
  else if x.isInfinite || y.isInfinite then
    if x.magnitude == 0 || y.magnitude == 0 then invalid else infinity negative
  else ofRatio negative (x.magnitude * y.magnitude) (unitsPerOne * unitsPerOne)

/-- The quotient. A NaN operand is the answer, the left one first. -/
def div (x y : Double) : Double :=
  let negative := x.isNegative != y.isNegative
  if x.isNaN then x
  else if y.isNaN then y
  else if x.isInfinite then
    if y.isInfinite then invalid else infinity negative
  else if y.isInfinite then zero negative
  else if y.magnitude == 0 then
    if x.magnitude == 0 then invalid else infinity negative
  else ofRatio negative x.magnitude y.magnitude

/-- The numeric order. A NaN is not comparable, and the two zeros are equal. -/
def compare? (x y : Double) : Option Ordering :=
  if x.isNaN || y.isNaN then none else some (compare x.scaled y.scaled)

/-- Whether the number is finite and has no fractional part. -/
def isIntegral (x : Double) : Bool := x.isFinite && x.magnitude % unitsPerOne == 0

/-- The number without its fractional part, at the nearest end of the range if
it lies outside; a NaN becomes zero. -/
def toInt64 (x : Double) : Int64 :=
  let whole : Int := x.magnitude / unitsPerOne
  if x.isNaN then 0
  else if x.isNegative then Int64.ofInt (max (-whole) Int64.minValue.toInt)
  else Int64.ofInt (min whole Int64.maxValue.toInt)

end Double

end DocStore

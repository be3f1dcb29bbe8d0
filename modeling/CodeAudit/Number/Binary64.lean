import CodeAudit.Number.Power

namespace CodeAudit.Number

/-- The quotient `n / d` rounded to the nearest integer, a tie going to the even one. -/
def roundDiv (n d : Nat) : Nat :=
  let q := n / d
  let r := n % d
  if 2 * r < d then q
  else if d < 2 * r then q + 1
  else if q % 2 == 0 then q else q + 1

/-- A non-negative finite number `mantissa * 2 ^ exponent`. -/
structure Magnitude where
  mantissa : Nat
  exponent : Int
deriving DecidableEq, Repr

namespace Magnitude

def minExponent : Int := -1074

def scale (n d : Nat) (e : Int) : Nat × Nat :=
  if 0 ≤ e then (n, d * pow2 e.toNat) else (n * pow2 (-e).toNat, d)

/-- The nearest number with at most 53 bits of mantissa, for a positive denominator. -/
def ofRatio (n d : Nat) : Magnitude :=
  if n == 0 then ⟨0, minExponent⟩
  else
    let guess : Int := (n.log2 : Int) - (d.log2 : Int) - 52
    let (a, b) := scale n d guess
    let e := if a < b * pow2 52 then guess - 1 else guess
    let e := if e < minExponent then minExponent else e
    let (a, b) := scale n d e
    ⟨roundDiv a b, e⟩

def toRatio (x : Magnitude) : Nat × Nat :=
  if 0 ≤ x.exponent then (x.mantissa * pow2 x.exponent.toNat, 1)
  else (x.mantissa, pow2 (-x.exponent).toNat)

def ofNat (n : Nat) : Magnitude := ofRatio n 1

def add (x y : Magnitude) : Magnitude :=
  let (a, b) := x.toRatio
  let (c, d) := y.toRatio
  ofRatio (a * d + c * b) (b * d)

def mul (x y : Magnitude) : Magnitude :=
  let (a, b) := x.toRatio
  let (c, d) := y.toRatio
  ofRatio (a * c) (b * d)

/-- Quotient by a number that is not zero. -/
def div (x y : Magnitude) : Magnitude :=
  let (a, b) := x.toRatio
  let (c, d) := y.toRatio
  ofRatio (a * d) (b * c)

/-- The decimal text with `places` digits after the point, of the exact value, a tie going to the
even digit. -/
def toFixed (places : Nat) (x : Magnitude) : String :=
  let (a, b) := x.toRatio
  let scaled := roundDiv (a * pow10 places) b
  let fraction := toString (scaled % pow10 places)
  let zeros := String.ofList (List.replicate (places - fraction.length) '0')
  toString (scaled / pow10 places) ++ "." ++ zeros ++ fraction

end Magnitude

/-- A binary64 number, kept as its bit pattern. -/
structure Binary64 where
  bits : UInt64
deriving DecidableEq, Repr

namespace Binary64

def signBit : Nat := pow2 63

def infinityBits : Nat := 0x7FF0000000000000

def nan : Binary64 := ⟨0x7FF8000000000000⟩

/-- The number with the given sign and a magnitude that is too large to be finite. -/
def infinity (negative : Bool) : Binary64 :=
  ⟨UInt64.ofNat ((if negative then signBit else 0) + infinityBits)⟩

def magnitudeBits (x : Magnitude) : Nat :=
  if x.mantissa < pow2 52 then x.mantissa
  else min infinityBits ((x.exponent + 1075).toNat * pow2 52 + (x.mantissa - pow2 52))

def ofMagnitude (negative : Bool) (x : Magnitude) : Binary64 :=
  ⟨UInt64.ofNat ((if negative then signBit else 0) + magnitudeBits x)⟩

def negative (x : Binary64) : Bool := signBit ≤ x.bits.toNat

def absBits (x : Binary64) : Nat := x.bits.toNat % signBit

def isNaN (x : Binary64) : Bool := infinityBits < x.absBits

def isInfinite (x : Binary64) : Bool := x.absBits == infinityBits

def isFinite (x : Binary64) : Bool := x.absBits < infinityBits

def isZero (x : Binary64) : Bool := x.absBits == 0

def toMagnitude (x : Binary64) : Magnitude :=
  let field : Nat := x.absBits / pow2 52
  let fraction : Nat := x.absBits % pow2 52
  if field == 0 then ⟨fraction, Magnitude.minExponent⟩
  else ⟨fraction + pow2 52, (field : Int) - 1075⟩

/-- Numeric equality: the two zeros are equal. A NaN counts as equal to a NaN, which makes this an
equivalence. -/
def same (x y : Binary64) : Bool :=
  (x.isNaN && y.isNaN) || (x.isZero && y.isZero) || x == y

/-- The number nearest to `digits * 10 ^ exponent`. Decimals far outside the finite range are
decided by their magnitude alone. -/
def ofDecimal (negative : Bool) (digits : Nat) (exponent : Int) : Binary64 :=
  if digits == 0 then ofMagnitude negative ⟨0, Magnitude.minExponent⟩
  else
    let top : Int := ((digits.log2 * 3 / 10 : Nat) : Int) + exponent
    if 400 < top then infinity negative
    else if top < -800 then ofMagnitude negative ⟨0, Magnitude.minExponent⟩
    else if 0 ≤ exponent then
      ofMagnitude negative (Magnitude.ofRatio (digits * pow10 exponent.toNat) 1)
    else ofMagnitude negative (Magnitude.ofRatio digits (pow10 (-exponent).toNat))

def ofInt (i : Int) : Binary64 :=
  ofMagnitude (i < 0) (Magnitude.ofNat i.natAbs)

def toHex (x : Binary64) : String :=
  let digits := Nat.toDigits 16 x.bits.toNat
  String.ofList (List.replicate (16 - digits.length) '0' ++ digits)

end Binary64

end CodeAudit.Number

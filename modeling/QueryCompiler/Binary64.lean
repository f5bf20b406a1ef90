import QueryCompiler.Decimal

/-!
# Binary64 numbers

Double-precision numbers as their 64 bits, read from decimal numerals with exact integer arithmetic:
the nearest number is taken, of two equally near ones the even one, and a numeral beyond the largest
finite number gives an infinite one.
-/

namespace QueryCompiler

/-- A double-precision number. -/
structure Binary64 where
  bits : UInt64
  deriving DecidableEq, Repr

namespace Binary64

/-- The bits of positive infinity. -/
def infinityBits : Nat := 0x7FF0000000000000

/-- The bit of the sign. -/
def signBit : Nat := 0x8000000000000000

/-- The lowest bit of the exponent; all below belong to the fraction. -/
def exponentBit : Nat := 0x10000000000000

/-- The bits without the sign. -/
def magnitudeBits (x : Binary64) : Nat := x.bits.toNat % signBit

/-- Whether the sign bit is set. -/
def isNegative (x : Binary64) : Bool := signBit ≤ x.bits.toNat

/-- Whether the number is neither infinite nor undefined. -/
def isFinite (x : Binary64) : Bool := x.magnitudeBits < infinityBits

/-- Put a sign on the bits of a magnitude. -/
def ofMagnitude (negative : Bool) (bits : Nat) : Binary64 :=
  ⟨UInt64.ofNat (if negative then bits + signBit else bits)⟩

/-- An undefined number. -/
def nan : Binary64 := ⟨0x7FF8000000000000⟩

/-- A finite magnitude is `significand · 2 ^ exponent`. -/
def significand (x : Binary64) : Nat :=
  if x.magnitudeBits < exponentBit then x.magnitudeBits
  else x.magnitudeBits % exponentBit + exponentBit

/-- The power of two that belongs to `significand`. -/
def exponent (x : Binary64) : Int :=
  if x.magnitudeBits < exponentBit then -1074
  else (x.magnitudeBits / exponentBit : Nat) - 1075

/-- The whole number nearest to a quotient, and of two nearest ones the even one. -/
def roundQuotient (numerator denominator : Nat) : Nat :=
  let quotient := numerator / denominator
  let rest := numerator % denominator
  if 2 * rest < denominator then quotient
  else if denominator < 2 * rest then quotient + 1
  else if quotient % 2 = 0 then quotient else quotient + 1

/-- The power of two whose multiples are rounded to: it leaves 53 binary digits of the quotient, or
fewer where the smallest exponent allows no more. -/
def roundingExponent (numerator denominator : Nat) : Int :=
  let guess : Int := (Nat.log2 numerator : Int) - (Nat.log2 denominator : Int) - 53
  let fits : Bool :=
    numerator * Nat.pow 2 (-(guess + 53)).toNat < denominator * Nat.pow 2 (guess + 53).toNat
  max (if fits then guess else guess + 1) (-1074)

/-- The bits of the number nearest to a quotient of natural numbers. -/
def nearestBits (numerator denominator : Nat) : Nat :=
  if numerator = 0 then 0
  else
    let exponent := roundingExponent numerator denominator
    let significand :=
      roundQuotient (numerator * Nat.pow 2 (-exponent).toNat)
        (denominator * Nat.pow 2 exponent.toNat)
    -- A significand that reaches `2 ^ 53` carries into the exponent's bits by itself.
    min ((exponent + 1074).toNat * exponentBit + significand) infinityBits

/-- The number nearest to a decimal. Powers of ten that lie far outside the range are not raised. -/
def ofDecimal (d : Decimal) : Binary64 :=
  let size : Int := Decimal.length d.digits + d.exponent
  let bits :=
    if d.digits = 0 ∨ size < -330 then 0
    else if 310 < size then infinityBits
    else nearestBits (d.digits * Nat.pow 10 d.exponent.toNat) (Nat.pow 10 (-d.exponent).toNat)
  ofMagnitude d.negative bits

/-- The words for numbers that are not finite, in small letters. -/
def word? (cs : List Char) : Option Nat :=
  let word := String.ofList (cs.map Char.toLower)
  if word = "inf" ∨ word = "infinity" then some infinityBits
  else if word = "nan" then some nan.bits.toNat
  else none

/-- Read a numeral, or the word for a number that is not finite in any letter case. -/
def read? (text : String) : Option Binary64 :=
  let (negative, rest) := Decimal.spanSign text.toList
  match word? rest with
  | some bits => some (ofMagnitude negative bits)
  | none => (Decimal.readMagnitude? negative rest).map ofDecimal

/-- Read a numeral whose number is finite. -/
def readFinite? (text : String) : Option Binary64 := (read? text).filter isFinite

end Binary64

end QueryCompiler

import QueryCompiler.Binary64

/-!
# Scaling by powers of ten

A decimal can be turned into a binary64 number by rounding its digits first and then multiplying
or dividing by its power of ten. Each of these steps rounds to the nearest number, so the result
can differ in its last digits from the number nearest to the decimal.
-/

namespace QueryCompiler.Binary64

/-- The greatest power of ten that is a finite number. -/
def greatestPower : Nat := 308

/-- The number nearest to a power of ten. -/
def powerOfTen (n : Nat) : Binary64 := ofMagnitude false (nearestBits (Nat.pow 10 n) 1)

/-- A finite magnitude is `numerator / denominator`. -/
def numerator (x : Binary64) : Nat := x.significand * Nat.pow 2 x.exponent.toNat

/-- The power of two that belongs to `numerator`. -/
def denominator (x : Binary64) : Nat := Nat.pow 2 (-x.exponent).toNat

/-- The magnitude of a product of finite numbers, rounded. -/
def product (x y : Binary64) : Binary64 :=
  ofMagnitude false
    (nearestBits (x.numerator * y.numerator) (x.denominator * y.denominator))

/-- The magnitude of a quotient of finite numbers, rounded. -/
def quotient (x y : Binary64) : Binary64 :=
  ofMagnitude false
    (nearestBits (x.numerator * y.denominator) (x.denominator * y.numerator))

/-- Multiply by `10 ^ places`, unless the result is beyond the largest finite number. -/
def raise? (x : Binary64) (places : Nat) : Option Binary64 :=
  if places ≤ greatestPower then (some (x.product (powerOfTen places))).filter isFinite
  else if x.magnitudeBits = 0 then some x
  else none

/-- Divide by `10 ^ places`, in several steps if the power itself is not finite. -/
def lower (x : Binary64) (places : Nat) : Binary64 :=
  if places ≤ greatestPower then x.quotient (powerOfTen places)
  else if x.magnitudeBits = 0 then x
  else (x.quotient (powerOfTen greatestPower)).lower (places - greatestPower)
termination_by places
decreasing_by simp only [greatestPower] at *; omega

/-- The number of a decimal whose digits are rounded first and scaled afterwards, unless it is
beyond the largest finite number. -/
def ofScaled? (d : Decimal) : Option Binary64 := do
  let digits := ofMagnitude false (nearestBits d.digits 1)
  let scaled ←
    if 0 ≤ d.exponent then digits.raise? d.exponent.toNat
    else some (digits.lower (-d.exponent).toNat)
  return ofMagnitude d.negative scaled.magnitudeBits

end QueryCompiler.Binary64

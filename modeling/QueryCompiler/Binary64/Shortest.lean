import QueryCompiler.Binary64

/-!
# Shortest decimals

The shortest decimal that reads back to a given number. Every decimal strictly between the midpoints
to the two neighbouring numbers reads back; the midpoints themselves do if the significand is even.
Of several shortest decimals the one nearest to the number is taken.
-/

namespace QueryCompiler.Binary64

/-- The number of the place of the first digit of a quotient: `e` with
`10 ^ e ≤ numerator / denominator < 10 ^ (e + 1)`. -/
def leadingPlace (numerator denominator : Nat) : Int :=
  if denominator ≤ numerator then (Decimal.length (numerator / denominator) : Int) - 1
  else
    let length := Decimal.length (denominator / numerator)
    if denominator ≤ numerator * Nat.pow 10 (length - 1) then 1 - (length : Int)
    else -(length : Int)

/-- The multiple of `10 ^ place` that reads back to the number, if there is one. Everything is
measured in quarters of the last binary place, so that the midpoints are whole. -/
def multipleAt? (x : Binary64) (place : Int) : Option Nat :=
  let value := 4 * x.significand
  -- Below a power of two the neighbours lie half as far apart.
  let below := if x.significand = exponentBit ∧ -1074 < x.exponent then 1 else 2
  let scale := Nat.pow 2 (x.exponent - 2).toNat * Nat.pow 10 (-place).toNat
  let unit := Nat.pow 10 place.toNat * Nat.pow 2 (2 - x.exponent).toNat
  let low := (value - below) * scale
  let high := (value + 2) * scale
  let even := x.significand % 2 = 0
  let readsBack (n : Nat) : Bool :=
    if even then low ≤ n * unit && n * unit ≤ high else low < n * unit && n * unit < high
  let floor := value * scale / unit
  match readsBack floor, readsBack (floor + 1) with
  | false, false => none
  | true, false => some floor
  | false, true => some (floor + 1)
  | true, true =>
      let down := value * scale - floor * unit
      let up := (floor + 1) * unit - value * scale
      if down < up then some floor
      else if up < down then some (floor + 1)
      else if floor % 2 = 0 then some floor else some (floor + 1)

/-- Move trailing zeros of the digits into the exponent. -/
def dropZeros : Nat → Nat → Int → Nat × Int
  | 0, digits, exponent => (digits, exponent)
  | fuel + 1, digits, exponent =>
      if digits ≠ 0 ∧ digits % 10 = 0 then dropZeros fuel (digits / 10) (exponent + 1)
      else (digits, exponent)

/-- The shortest decimal that reads back to a finite number; 17 digits always suffice. -/
def shortest (x : Binary64) : Decimal :=
  if x.significand = 0 then ⟨x.isNegative, 0, 0⟩
  else
    let first :=
      leadingPlace (x.significand * Nat.pow 2 x.exponent.toNat) (Nat.pow 2 (-x.exponent).toNat)
    let found := (List.range 17).findSome? fun (n : Nat) =>
      (x.multipleAt? (first - n)).map fun digits => (digits, first - n)
    let (digits, exponent) := found.getD (0, 0)
    let (digits, exponent) := dropZeros (Decimal.length digits) digits exponent
    ⟨x.isNegative, digits, exponent⟩

end QueryCompiler.Binary64

import QueryCompiler.Binary64.Shortest

/-!
# Numerals of binary64 numbers

How a finite number is written: always with its shortest decimal, with a power of ten when the
first digit stands far from the point, and otherwise with at least one digit after the point.
-/

namespace QueryCompiler.Binary64

/-- Digits with the point `exponent` places after the last one. -/
def pointed (digits : List Char) (exponent : Int) : List Char :=
  if 0 ≤ exponent then digits ++ List.replicate exponent.toNat '0' ++ ['.', '0']
  else
    let places := (-exponent).toNat
    if places < digits.length then
      digits.take (digits.length - places) ++ '.' :: digits.drop (digits.length - places)
    else '0' :: '.' :: (List.replicate (places - digits.length) '0' ++ digits)

/-- One digit, the point, the other digits, and a signed power of ten. -/
def scientific (digits : List Char) (place : Int) : List Char :=
  let mantissa :=
    match digits with
    | [] => ['0']
    | [c] => [c]
    | c :: rest => c :: '.' :: rest
  let power := if place < 0 then '-' :: Nat.toDigits 10 (-place).toNat
    else '+' :: Nat.toDigits 10 place.toNat
  mantissa ++ 'e' :: power

/-- The sign of a decimal, if it has one. -/
def signText (d : Decimal) : List Char := if d.negative then ['-'] else []

/-- The places of a first digit for which a number is written out in full. -/
def writtenOut (place : Int) : Bool := -5 ≤ place && place ≤ 15

/-- The text of a finite number, with a power of ten where it would be long. -/
def text (x : Binary64) : String :=
  let d := x.shortest
  let digits := Nat.toDigits 10 d.digits
  let place := d.exponent + digits.length - 1
  String.ofList <| signText d ++
    if writtenOut place then pointed digits d.exponent else scientific digits place

end QueryCompiler.Binary64

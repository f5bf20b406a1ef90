/-!
# Decimal numerals

The number that a decimal numeral writes, before it is rounded to any format. A numeral has an
optional sign, digits with an optional point among them, and an optional power of ten.
-/

namespace QueryCompiler

/-- The number `± digits · 10 ^ exponent`. -/
structure Decimal where
  negative : Bool
  digits : Nat
  exponent : Int
  deriving DecidableEq, Repr

namespace Decimal

/-- The number that a row of digits writes. -/
def ofDigits (cs : List Char) : Nat := cs.foldl (fun n c => 10 * n + (c.toNat - '0'.toNat)) 0

/-- The leading digits of a text, and what follows them. -/
def spanDigits (cs : List Char) : List Char × List Char :=
  (cs.takeWhile Char.isDigit, cs.dropWhile Char.isDigit)

/-- A sign at the head of a text: whether it is negative, and what follows it. -/
def spanSign : List Char → Bool × List Char
  | '-' :: rest => (true, rest)
  | '+' :: rest => (false, rest)
  | rest => (false, rest)

/-- The power of ten at the end of a numeral; no power at all stands for `10 ^ 0`. -/
def readExponent? : List Char → Option Int
  | [] => some 0
  | c :: rest =>
      if c = 'e' ∨ c = 'E' then
        let (negative, rest) := spanSign rest
        match spanDigits rest with
        | ([], _) => none
        | (digits, []) =>
            some (if negative then -(ofDigits digits : Int) else (ofDigits digits : Int))
        | (_, _ :: _) => none
      else none

/-- Read an unsigned numeral. At least one digit stands before or after the point. -/
def readMagnitude? (negative : Bool) (cs : List Char) : Option Decimal :=
  let (whole, rest) := spanDigits cs
  let (fraction, rest) :=
    match rest with
    | '.' :: rest => spanDigits rest
    | rest => ([], rest)
  if whole.isEmpty ∧ fraction.isEmpty then none
  else do
    let exponent ← readExponent? rest
    return ⟨negative, ofDigits (whole ++ fraction), exponent - fraction.length⟩

/-- Read a numeral. -/
def read? (cs : List Char) : Option Decimal :=
  let (negative, rest) := spanSign cs
  readMagnitude? negative rest

/-- Read a whole number: an optional sign and one or more digits. -/
def readInt? (cs : List Char) : Option Int :=
  let (negative, rest) := spanSign cs
  match spanDigits rest with
  | ([], _) => none
  | (digits, []) => some (if negative then -(ofDigits digits : Int) else (ofDigits digits : Int))
  | (_, _ :: _) => none

/-- The number of digits that a natural number is written with. -/
def length (n : Nat) : Nat := (Nat.toDigits 10 n).length

end Decimal

end QueryCompiler

import QueryCompiler.Binary64.Scale
import QueryCompiler.Json.Basic
import QueryCompiler.Text.Escape

/-!
# Reading JSON

A strict reader: nothing may follow the value, no comma may be left over, and the only blanks are
the four of the format. Arrays and objects may be nested up to a given depth. Members are put in
the order of their keys, and the last of several members with one key counts.
-/

namespace QueryCompiler.Json

open Text

/-- The blanks of the format. -/
def isBlank (c : Char) : Bool := c = ' ' || c = '\n' || c = '\r' || c = '\t'

/-- Leave leading blanks out. -/
def skipBlanks (cs : List Char) : List Char := cs.dropWhile isBlank

/-- The character of a pair of surrogates. -/
def pairValue? (high low : Nat) : Option Char :=
  if 0xD800 ≤ high ∧ high < 0xDC00 ∧ 0xDC00 ≤ low ∧ low < 0xE000 then
    some (Char.ofNat (0x10000 + (high - 0xD800) * 0x400 + (low - 0xDC00)))
  else none

/-- The characters of a string up to its closing quote, and what follows it. -/
def readString? : List Char → Option (List Char × List Char)
  | [] => none
  | '"' :: rest => some ([], rest)
  | '\\' :: 'u' :: a :: b :: c :: d :: '\\' :: 'u' :: e :: f :: g :: h :: rest => do
      let first ← hexValue4? a b c d
      if 0xD800 ≤ first ∧ first < 0xE000 then
        let char ← pairValue? first (← hexValue4? e f g h)
        let (chars, rest) ← readString? rest
        return (char :: chars, rest)
      else
        let (chars, rest) ← readString? ('\\' :: 'u' :: e :: f :: g :: h :: rest)
        return (Char.ofNat first :: chars, rest)
  | '\\' :: 'u' :: a :: b :: c :: d :: rest => do
      let code ← hexValue4? a b c d
      if 0xD800 ≤ code ∧ code < 0xE000 then none
      else
        let (chars, rest) ← readString? rest
        return (Char.ofNat code :: chars, rest)
  | '\\' :: c :: rest => do
      let char ← unescape? c
      let (chars, rest) ← readString? rest
      return (char :: chars, rest)
  | c :: rest => do
      if c.toNat < 0x20 then none
      else
        let (chars, rest) ← readString? rest
        return (c :: chars, rest)

/-- The whole part of a number: no zero stands in front of other digits. -/
def spanWhole? (cs : List Char) : Option (List Char × List Char) :=
  match Decimal.spanDigits cs with
  | ([], _) => none
  | ('0' :: _ :: _, _) => none
  | span => some span

/-- The digits of the fraction of a number, which may be missing. -/
def spanFraction? : List Char → Option (List Char × List Char)
  | '.' :: rest =>
      match Decimal.spanDigits rest with
      | ([], _) => none
      | span => some span
  | rest => some ([], rest)

/-- The power of ten of a number, which may be missing. -/
def spanPower? : List Char → Option (Option Int × List Char)
  | c :: rest =>
      if c = 'e' ∨ c = 'E' then
        let (negative, rest) := Decimal.spanSign rest
        match Decimal.spanDigits rest with
        | ([], _) => none
        | (digits, rest) =>
            let power : Int := Decimal.ofDigits digits
            some (some (if negative then -power else power), rest)
      else some (none, c :: rest)
  | [] => some (none, [])

/-- The greatest magnitude of a negative whole number that is kept exactly. -/
def greatestNegative : Nat := 0x8000000000000000

/-- The greatest whole number that is kept exactly. -/
def greatestPositive : Nat := 0xFFFFFFFFFFFFFFFF

/-- Append digits to a whole number as long as it stays within 64 bits, and count the digits that
are left. -/
def appendDigits (n : Nat) : List Char → Nat × Nat
  | [] => (n, 0)
  | c :: cs =>
      let next := 10 * n + (c.toNat - '0'.toNat)
      if next ≤ greatestPositive then appendDigits next cs else (n, cs.length + 1)

/-- The decimal that stands for a number. Of the digits before the point and of those after it, only
as many are kept as fit into 64 bits together. Each digit left out before the point raises the
power of ten, and each one kept after it lowers the power. -/
def decimalOf (negative : Bool) (whole fraction : List Char) (power : Int) : Decimal :=
  let (digits, zeros) := appendDigits 0 whole
  let (digits, left) := appendDigits digits fraction
  ⟨negative, digits, power + zeros - (fraction.length - left : Nat)⟩

/-- The value of a number. Whole numbers are kept exactly within 64 bits; all others are scaled. -/
def ofNumeral? (negative : Bool) (whole fraction : List Char) (power : Option Int) :
    Option Json :=
  let (magnitude, left) := appendDigits 0 whole
  let isExact := fraction.isEmpty && power.isNone && left == 0
  if isExact ∧ negative ∧ 0 < magnitude ∧ magnitude ≤ greatestNegative then
    some (int (-(magnitude : Int)))
  else if isExact ∧ ¬ negative then some (int magnitude)
  else (Binary64.ofScaled? (decimalOf negative whole fraction (power.getD 0))).map float

/-- A number at the head of a text. -/
def readNumber? (cs : List Char) : Option (Json × List Char) := do
  let (negative, rest) :=
    match cs with
    | '-' :: rest => (true, rest)
    | rest => (false, rest)
  let (whole, rest) ← spanWhole? rest
  let (fraction, rest) ← spanFraction? rest
  let (power, rest) ← spanPower? rest
  return (← ofNumeral? negative whole fraction power, rest)

/-- Put a member at its place in the order of keys, in the place of one with the same key. -/
def insertMember (key : String) (value : Json) : List (String × Json) → List (String × Json)
  | [] => [(key, value)]
  | (k, v) :: rest =>
      if key < k then (key, value) :: (k, v) :: rest
      else if key = k then (key, value) :: rest
      else (k, v) :: insertMember key value rest

/-- Members in the order of their keys. -/
def sortMembers (members : List (String × Json)) : List (String × Json) :=
  members.foldl (fun sorted member => insertMember member.1 member.2 sorted) []

mutual

/-- A value at the head of a text. The fuel bounds the number of steps, the room the depth of nested
arrays and objects. -/
def readValue? : (fuel room : Nat) → List Char → Option (Json × List Char)
  | 0, _, _ => none
  | fuel + 1, room, cs =>
      match skipBlanks cs with
      | 'n' :: 'u' :: 'l' :: 'l' :: rest => some (null, rest)
      | 't' :: 'r' :: 'u' :: 'e' :: rest => some (bool true, rest)
      | 'f' :: 'a' :: 'l' :: 's' :: 'e' :: rest => some (bool false, rest)
      | '"' :: rest => do
          let (chars, rest) ← readString? rest
          return (string (String.ofList chars), rest)
      | '[' :: rest =>
          match room with
          | 0 => none
          | room + 1 =>
              match skipBlanks rest with
              | ']' :: rest => some (array [], rest)
              | rest => do
                  let (items, rest) ← readItems? fuel room rest
                  return (array items, rest)
      | '\x7b' :: rest =>
          match room with
          | 0 => none
          | room + 1 =>
              match skipBlanks rest with
              | '\x7d' :: rest => some (object [], rest)
              | rest => do
                  let (members, rest) ← readMembers? fuel room rest
                  return (object (sortMembers members), rest)
      | rest => readNumber? rest

/-- The items of an array up to its end. -/
def readItems? : (fuel room : Nat) → List Char → Option (List Json × List Char)
  | 0, _, _ => none
  | fuel + 1, room, cs => do
      let (item, rest) ← readValue? fuel room cs
      match skipBlanks rest with
      | ',' :: rest =>
          let (items, rest) ← readItems? fuel room rest
          return (item :: items, rest)
      | ']' :: rest => return ([item], rest)
      | _ => none

/-- The members of an object up to its end. -/
def readMembers? : (fuel room : Nat) → List Char → Option (List (String × Json) × List Char)
  | 0, _, _ => none
  | fuel + 1, room, cs => do
      match skipBlanks cs with
      | '"' :: rest =>
          let (key, rest) ← readString? rest
          match skipBlanks rest with
          | ':' :: rest =>
              let (value, rest) ← readValue? fuel room rest
              match skipBlanks rest with
              | ',' :: rest =>
                  let (members, rest) ← readMembers? fuel room rest
                  return ((String.ofList key, value) :: members, rest)
              | '\x7d' :: rest => return ([(String.ofList key, value)], rest)
              | _ => none
          | _ => none
      | _ => none

end

/-- Read a text that holds one value, with arrays and objects nested up to `depth`. Every step of
the reader consumes a character, or follows one that does. -/
def read? (depth : Nat) (text : String) : Option Json := do
  let cs := text.toList
  let (value, rest) ← readValue? (2 * cs.length + 2) depth cs
  if (skipBlanks rest).isEmpty then return value else none

end QueryCompiler.Json

/-!
# Lines and columns

The line and column of a byte offset in a text. Both count from zero, and columns count
characters. A line ends after a line feed, a carriage return, the two together, a vertical tab, a
form feed, or one of the separators U+0085, U+2028 and U+2029; it includes its ending. No line
begins at the end of the text.
-/

namespace QueryCompiler.Text

/-- Enter the positions of characters into a table, each at the offset where the character begins,
and the position behind the last one where it ends. Positions have 32 bits, and start again from
zero behind the greatest one. -/
def enterPositions (offset : Nat) (position : UInt32) :
    List Char → Array UInt32 → Array UInt32
  | [], table => table.setIfInBounds offset position
  | c :: rest, table =>
      enterPositions (offset + c.utf8Size) (position + 1) rest (table.setIfInBounds offset position)

/-- The positions among the characters of a text, by byte offset up to the end of the text. Offsets
inside a character have the first position. -/
def positions (text : String) : Array UInt32 :=
  enterPositions 0 0 text.toList (Array.replicate (text.utf8ByteSize + 1) 0)

/-- The position among the characters of a text that belongs to a byte offset. Offsets past the end
belong to the end. -/
def charIndex (text : String) (offset : Nat) : Nat :=
  let table := positions text
  let position := (table[offset]?).getD (table.back?.getD 0)
  position.toNat

/-- The characters after which a line ends, whatever follows. -/
def lineEnds : List Char := ['\n', '\x0b', '\x0c', '\u0085', '\u2028', '\u2029']

/-- Whether a line ends after a character, given the text that follows. -/
def endsLine (c : Char) (rest : List Char) : Bool :=
  if c = '\r' then decide (rest.head? ≠ some '\n') else lineEnds.contains c

/-- The line and column that are reached from a line and column by going over characters. -/
def advance : Nat → List Char → Nat × Nat → Nat × Nat
  | 0, _, place => place
  | _ + 1, [], place => place
  | count + 1, c :: rest, (line, column) =>
      if endsLine c rest && !rest.isEmpty then advance count rest (line + 1, 0)
      else advance count rest (line, column + 1)

/-- The line and column of a position among the characters of a text. There is none past the end. -/
def placeOf? (text : String) (position : Nat) : Option (Nat × Nat) :=
  if position ≤ text.length then some (advance position text.toList (0, 0)) else none

/-- The line and column of a byte offset. -/
def lineColumn? (text : String) (offset : Nat) : Option (Nat × Nat) :=
  placeOf? text (charIndex text offset)

end QueryCompiler.Text

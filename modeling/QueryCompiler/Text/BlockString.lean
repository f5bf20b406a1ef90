/-!
# Block strings

The value of a text between triple quotes. The indentation that all lines but the first share is
removed, then blank lines at the beginning and the end, and the rest is joined with line feeds.
-/

namespace QueryCompiler.Text

/-- The lines of a text. A line ends at a line feed, a carriage return, or one of each. -/
def splitLines : List Char → List (List Char)
  | [] => [[]]
  | '\r' :: '\n' :: rest => [] :: splitLines rest
  | c :: rest =>
      if c = '\n' ∨ c = '\r' then [] :: splitLines rest
      else
        match splitLines rest with
        | [] => [[c]]
        | line :: lines => (c :: line) :: lines

/-- The blanks that indent a line. -/
def isIndent (c : Char) : Bool := c = ' ' || c = '\t'

/-- The number of blanks in front of a line. -/
def indentOf (line : List Char) : Nat := (line.takeWhile isIndent).length

/-- Whether a line has nothing but blanks. -/
def isBlankLine (line : List Char) : Bool := line.all isIndent

/-- The least indentation of the lines that are not blank, if there is any such line. -/
def commonIndent (lines : List (List Char)) : Nat :=
  (((lines.filter fun line => !isBlankLine line).map indentOf).min?).getD 0

/-- Leave blank lines at the beginning and at the end out. -/
def trimLines (lines : List (List Char)) : List (List Char) :=
  ((lines.dropWhile isBlankLine).reverse.dropWhile isBlankLine).reverse

/-- The value of a text between triple quotes. -/
def blockValue (raw : List Char) : List Char :=
  match splitLines raw with
  | [] => []
  | first :: others =>
      let indent := commonIndent others
      ['\n'].intercalate (trimLines (first :: others.map (List.drop indent)))

end QueryCompiler.Text

/-!
# Locations

Where a node of a document was read from.
-/

namespace QueryCompiler

/-- The number under which a source is kept. -/
abbrev FileId := Nat

/-- A range of bytes in the UTF-8 form of a source. -/
structure Location where
  /-- The source. -/
  file : FileId
  /-- The offset of the first byte. -/
  start : Nat
  /-- The offset after the last byte. -/
  stop : Nat
  deriving DecidableEq, Repr

/-- A text with the path by which messages name it. -/
structure Source where
  path : String
  text : String
  deriving DecidableEq, Repr

end QueryCompiler

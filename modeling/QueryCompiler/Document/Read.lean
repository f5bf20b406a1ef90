import QueryCompiler.Document.Parser
import QueryCompiler.Failure

/-!
# Reading documents

A document is read from a source as a whole or not at all.
-/

namespace QueryCompiler

/-- The part of a text that is shown when it cannot be parsed: short texts as they are, long ones
cut off after a number of characters. -/
def Source.preview (source : Source) : String :=
  if source.text.length < 100 then source.text
  else String.ofList (source.text.toList.take 5000) ++ " <redacted...>"

/-- A document, with the depth and the number of pieces that were reached in reading it. -/
structure ReadDocument where
  document : Document
  depthReached : Nat
  piecesReached : Nat

/-- Read a document from a source that is kept under a number. -/
def Document.read (limits : ParseLimits) (file : FileId) (source : Source) :
    Except Failure ReadDocument :=
  match Parser.parse? limits file source.text with
  | some parsed =>
      .ok ⟨⟨[(file, source)], parsed.definitions⟩, parsed.depthReached, parsed.piecesReached⟩
  | none => .error (.parsing file source.path source.preview)

end QueryCompiler

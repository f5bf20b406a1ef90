import QueryCompiler.Document.Parser.TypeSystem

/-!
# Parsing documents

A document is a list of definitions. Its text must keep to two limits: how deep its parts are
nested and how many pieces it has.
-/

namespace QueryCompiler

/-- The limits that a text must keep to. -/
structure ParseLimits where
  /-- How deep selection sets, list types and parts of values may be nested. -/
  depth : Nat
  /-- How many pieces a text may have, if that is limited. -/
  pieces : Option Nat
  deriving DecidableEq, Repr

/-- The limits that hold unless others are chosen. -/
def ParseLimits.standard : ParseLimits := ⟨500, none⟩

/-- The definitions of a text, and how far they went towards the limits. -/
structure ParsedText where
  definitions : List Definition
  depthReached : Nat
  piecesReached : Nat

namespace Parser

/-- A definition. -/
def definition (room : Nat) : Parser Definition := do
  if ← nextIs isString then describedDefinition room
  else if ← nextIs (isWord "fragment") then fragment room
  else if ← nextIs (isWord "extend") then typeSystemExtension room
  else if ← nextIs (fun kind =>
      isMark .braceOpen kind || isWord "query" kind || isWord "mutation" kind
        || isWord "subscription" kind) then
    operation room
  else typeSystemDefinition room

/-- Definitions up to the last token. -/
def definitions (room : Nat) : Parser (List Definition) := many (fun _ => true) (definition room)

/-- Parse a text that is kept under the given number. -/
def parse? (limits : ParseLimits) (file : FileId) (text : String) : Option ParsedText := do
  let (tokens, pieces) ← Token.scan? text
  if limits.pieces.any (· < pieces) then none
  else
    let (definitions, cursor) ← definitions limits.depth ⟨file, tokens, 0, limits.depth⟩
    if cursor.rest.isEmpty then
      return ⟨definitions, limits.depth - cursor.room, pieces⟩
    else none

end Parser

end QueryCompiler

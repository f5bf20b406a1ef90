import QueryCompiler.Document.Parser.Executable

/-!
# Schema definitions in documents

The grammar of the definitions and extensions that make up a schema. They are read through and
kept by their description only.
-/

namespace QueryCompiler.Parser

/-- A description in front of a definition, field, argument or enum value. -/
def description : Parser Unit := whenNext isString (do let _ ← take) ()

/-- Entries in braces, at least one. -/
def braced (starts : TokenKind → Bool) (entry : Parser Unit) : Parser Unit := do
  mark .braceOpen
  let _ ← many1 starts entry
  mark .braceClose

/-- Tokens that an entry with an optional description begins with. -/
def startsEntry (kind : TokenKind) : Bool := isName kind || isString kind

/-- An argument or input field with its type. -/
def inputValue (room : Nat) : Parser Unit := do
  description
  let _ ← name
  mark .colon
  let _ ← type room
  whenNext (isMark .equals) (do mark .equals; let _ ← value true room) ()
  let _ ← directives true room

/-- Argument definitions in parentheses, at least one, or none at all. -/
def argumentDefinitions (room : Nat) : Parser Unit :=
  whenNext (isMark .parenOpen)
    (do
      mark .parenOpen
      let _ ← many1 startsEntry (inputValue room)
      mark .parenClose)
    ()

/-- A field with its arguments and type. -/
def fieldDefinition (room : Nat) : Parser Unit := do
  description
  let _ ← name
  argumentDefinitions room
  mark .colon
  let _ ← type room
  let _ ← directives true room

/-- One value of an enum. -/
def enumValue (room : Nat) : Parser Unit := do
  description
  let name ← name
  if name = "true" ∨ name = "false" ∨ name = "null" then fail
  else let _ ← directives true room

/-- The type of one kind of operation. The type may be missing behind the colon. -/
def rootOperation : Parser Unit := do
  let _ ← operationKind
  mark .colon
  whenNext isName (do let _ ← name) ()

/-- The places where a directive can be put. -/
def directivePlaces : List Name :=
  ["QUERY", "MUTATION", "SUBSCRIPTION", "FIELD", "FRAGMENT_DEFINITION", "FRAGMENT_SPREAD",
    "INLINE_FRAGMENT", "VARIABLE_DEFINITION", "SCHEMA", "SCALAR", "OBJECT", "FIELD_DEFINITION",
    "ARGUMENT_DEFINITION", "INTERFACE", "UNION", "ENUM", "ENUM_VALUE", "INPUT_OBJECT",
    "INPUT_FIELD_DEFINITION"]

/-- One place where a directive can be put. -/
def directivePlace : Parser Unit := do
  if directivePlaces.contains (← name) then return () else fail

/-- Run a parser if its first token is next, and tell whether it was. -/
def part (starts : TokenKind → Bool) (p : Parser Unit) : Parser Bool :=
  whenNext starts (do p; return true) false

/-- Directives, and whether there are any. -/
def directivesPart (room : Nat) : Parser Bool :=
  part (isMark .at) (do let _ ← directives true room)

/-- The interfaces that a type implements, and whether there are any. -/
def implementsPart : Parser Bool :=
  part (isWord "implements") do
    word "implements"
    let _ ← separated .ampersand name

/-- The fields of a type, and whether there are any. -/
def fieldsPart (room : Nat) : Parser Bool :=
  part (isMark .braceOpen) (braced startsEntry (fieldDefinition room))

/-- The members of a union, and whether there are any. -/
def membersPart : Parser Bool :=
  part (isMark .equals) do
    mark .equals
    let _ ← separated .pipe name

/-- The values of an enum, and whether there are any. -/
def valuesPart (room : Nat) : Parser Bool :=
  part (isMark .braceOpen) (braced startsEntry (enumValue room))

/-- The fields of an input object, and whether there are any. -/
def inputFieldsPart (room : Nat) : Parser Bool :=
  part (isMark .braceOpen) (braced startsEntry (inputValue room))

/-- The root operations of a schema, and whether there are any. -/
def rootsPart : Parser Bool :=
  part (isMark .braceOpen) (braced isName rootOperation)

/-- The root operations that are added to a schema, and whether there are any. The braces may be
empty. -/
def addedRootsPart : Parser Bool :=
  whenNext (isMark .braceOpen)
    (do
      mark .braceOpen
      let roots ← many isName rootOperation
      mark .braceClose
      return !roots.isEmpty)
    false

/-- Run the parts of a definition, and tell whether any of them was there. -/
def anyPart (parts : List (Parser Bool)) : Parser Bool :=
  parts.foldlM (fun found p => do return (← p) || found) false

/-- The things that a schema defines and extends. -/
inductive SchemaItem where
  | schema
  | scalar
  | object
  | interface
  | union
  | enum
  | inputObject
  deriving DecidableEq, Repr

namespace SchemaItem

/-- The word that begins the definition of an item. -/
def keyword : SchemaItem → Name
  | schema => "schema"
  | scalar => "scalar"
  | object => "type"
  | interface => "interface"
  | union => "union"
  | enum => "enum"
  | inputObject => "input"

/-- The items of a schema. -/
def all : List SchemaItem := [schema, scalar, object, interface, union, enum, inputObject]

/-- The item that a word begins. -/
def ofKeyword? (word : Name) : Option SchemaItem := all.find? fun item => item.keyword = word

/-- How messages speak of an item. -/
def description : SchemaItem → String
  | schema => "a schema"
  | scalar => "a scalar type"
  | object => "an object type"
  | interface => "an interface type"
  | union => "a union type"
  | enum => "an enum type"
  | inputObject => "an input object type"

/-- What can follow the name of an item, in order. -/
def parts (room : Nat) : SchemaItem → List (Parser Bool)
  | schema => [directivesPart room, rootsPart]
  | scalar => [directivesPart room]
  | object => [implementsPart, directivesPart room, fieldsPart room]
  | interface => [implementsPart, directivesPart room, fieldsPart room]
  | union => [directivesPart room, membersPart]
  | enum => [directivesPart room, valuesPart room]
  | inputObject => [directivesPart room, inputFieldsPart room]

/-- What an extension can add to an item, in order. -/
def additions (room : Nat) : SchemaItem → List (Parser Bool)
  | schema => [directivesPart room, addedRootsPart]
  | item => item.parts room

end SchemaItem

/-- The definition of an item behind its keyword. A schema has no name; no name other than
`implements` may follow the name of an object type. -/
def itemDefinition (room : Nat) (item : SchemaItem) : Parser Unit := do
  if item ≠ .schema then
    let _ ← name
  if item = .object && (← nextIs fun kind => isName kind && !isWord "implements" kind) then fail
  else let _ ← anyPart (item.parts room)

/-- The extension of an item behind its keyword. It must add something. -/
def itemExtension (room : Nat) (item : SchemaItem) : Parser Unit := do
  if item ≠ .schema then
    let _ ← name
  if ← anyPart (item.additions room) then return () else fail

/-- The definition of a directive behind its keyword. -/
def directiveDefinition (room : Nat) : Parser Unit := do
  mark .at
  let _ ← name
  argumentDefinitions room
  whenNext (isWord "repeatable") (word "repeatable") ()
  word "on"
  let _ ← separated .pipe directivePlace

/-- A definition that belongs to a schema, behind its description. -/
def typeSystemBody (room : Nat) : Parser (Location → Definition) := do
  let keyword ← name
  if keyword = "directive" then
    directiveDefinition room
    return fun location => .typeSystem (some location) "a directive definition"
  else
    match SchemaItem.ofKeyword? keyword with
    | some item =>
        itemDefinition room item
        return fun location => .typeSystem (some location) (item.description ++ " definition")
    | none => fail

/-- A definition that belongs to a schema. -/
def typeSystemDefinition (room : Nat) : Parser Definition := located (typeSystemBody room)

/-- A definition with a description in front. No comma may stand between the two. A description
takes the place of the keyword of a fragment, so that the word `fragment` behind it is a name. -/
def describedDefinition (room : Nat) : Parser Definition :=
  located do
    let _ ← take
    if !(← directlyNextIs isName) then fail
    else if ← nextIs (isWord "fragment") then fragmentBody room
    else typeSystemBody room

/-- An extension of what a schema defines. No comma may stand behind `extend`. -/
def typeSystemExtension (room : Nat) : Parser Definition :=
  located do
    word "extend"
    if !(← directlyNextIs isName) then fail
    let keyword ← name
    match SchemaItem.ofKeyword? keyword with
    | some item =>
        itemExtension room item
        return fun location => .typeSystem (some location) (item.description ++ " extension")
    | none => fail

end QueryCompiler.Parser

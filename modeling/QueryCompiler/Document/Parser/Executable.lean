import QueryCompiler.Document.Basic
import QueryCompiler.Document.Parser.Cursor

/-!
# Operations and fragments

The grammar of request documents. Values, types and selection sets may be nested as deep as the room
allows that their parser is given.
-/

namespace QueryCompiler.Parser

/-! ### Types -/

/-- A type, given the parser of the item of a list type. -/
def typeOver (item : Parser TypeRef) : Parser TypeRef := do
  let inner ← do
    match ← take with
    | .name text => pure (.named text)
    | .punctuator .bracketOpen =>
        let item ← item
        mark .bracketClose
        pure (.list item)
    | _ => fail
  whenNext (isMark .bang) (do mark .bang; return .nonNull inner) inner

/-- A type. -/
def type : Nat → Parser TypeRef
  | 0 => typeOver fail
  | room + 1 => typeOver (deeper room (type room))

/-! ### Values -/

/-- A field of an object literal. One without a value counts for nothing. The value has the location
of the whole field. -/
def objectField (value : Parser Value) : Parser (Option (Name × Value)) :=
  located do
    let name ← name
    let value ← whenNext (isMark .colon) (do mark .colon; return some (← value)) none
    return fun location => value.map fun value => (name, value.relocate (some location))

/-- A value, given the parser of the parts of a list or object. Variables are refused where a
constant is asked for. -/
def valueOver (constant : Bool) (part : Parser Value) : Parser Value :=
  located do
    match ← take with
    | .int literal => return fun location => .atom (some location) (.int literal)
    | .float literal => return fun location => .atom (some location) (.float literal)
    | .string text => return fun location => .atom (some location) (.string text)
    | .name "true" => return fun location => .atom (some location) (.bool true)
    | .name "false" => return fun location => .atom (some location) (.bool false)
    | .name "null" => return fun location => .atom (some location) .null
    | .name text => return fun location => .atom (some location) (.enum text)
    | .punctuator .dollar =>
        if constant then fail
        else
          let name ← name
          return fun location => .atom (some location) (.var name)
    | .punctuator .bracketOpen =>
        let items ← many (fun kind => !isMark .bracketClose kind) part
        mark .bracketClose
        return fun location => .list (some location) items
    | .punctuator .braceOpen =>
        let fields ← many isName (objectField part)
        mark .braceClose
        return fun location => .object (some location) (fields.filterMap id)
    | _ => fail

/-- A value. -/
def value (constant : Bool) : Nat → Parser Value
  | 0 => valueOver constant fail
  | room + 1 => valueOver constant (deeper room (value constant room))

/-! ### Arguments and directives -/

/-- An argument. One without a value counts for nothing. -/
def argument (constant : Bool) (room : Nat) : Parser (Option Argument) :=
  located do
    let name ← name
    let value ← whenNext (isMark .colon) (do mark .colon; return some (← value constant room)) none
    return fun location => value.map fun value => ⟨some location, name, value⟩

/-- Arguments in parentheses, at least one, or none at all. -/
def arguments (constant : Bool) (room : Nat) : Parser (List Argument) :=
  whenNext (isMark .parenOpen)
    (do
      mark .parenOpen
      let arguments ← many1 isName (argument constant room)
      mark .parenClose
      return arguments.filterMap id)
    []

/-- A directive. -/
def directive (constant : Bool) (room : Nat) : Parser Directive :=
  located do
    mark .at
    let name ← name
    let arguments ← arguments constant room
    return fun location => ⟨some location, name, arguments⟩

/-- Any number of directives. -/
def directives (constant : Bool) (room : Nat) : Parser (List Directive) :=
  many (isMark .at) (directive constant room)

/-! ### Selections -/

/-- A field's name behind an optional alias. A colon behind a comma makes no alias. -/
def fieldName : Parser (Option Name × Name) := do
  let first ← name
  if ← directlyNextIs (isMark .colon) then
    mark .colon
    let second ← name
    return (some first, second)
  else return (none, first)

/-- A field, given the parser of selection sets. -/
def field (room : Nat) (selectionSet : Parser (List Selection)) : Parser Selection :=
  located do
    let (aliasName, name) ← fieldName
    let arguments ← arguments false room
    let directives ← directives false room
    let selections ← whenNext (isMark .braceOpen) selectionSet []
    return fun location =>
      .field (some location) aliasName name arguments directives selections

/-- What can follow the dots of a spread or inline fragment. -/
def followsSpread : TokenKind → Bool
  | .name _ => true
  | kind => isMark .at kind || isMark .braceOpen kind

/-- A fragment spread or an inline fragment, given the parser of selection sets. No comma may follow
the dots. -/
def fragmentSelection (room : Nat) (selectionSet : Parser (List Selection)) : Parser Selection :=
  located do
    mark .spread
    if !(← directlyNextIs followsSpread) then fail
    else if ← nextIs (fun kind => isName kind && !isWord "on" kind) then
      let name ← name
      let directives ← directives false room
      return fun location => .spread (some location) name directives
    else
      let condition ← whenNext (isWord "on") (do word "on"; return some (← name)) none
      let directives ← directives false room
      let selections ← selectionSet
      return fun location => .inline (some location) condition directives selections

/-- Tokens that a selection begins with. -/
def startsSelection (kind : TokenKind) : Bool := isName kind || isMark .spread kind

/-- One selection, given the parser of selection sets. -/
def selection (room : Nat) (selectionSet : Parser (List Selection)) : Parser Selection := do
  if ← nextIs isName then field room selectionSet else fragmentSelection room selectionSet

/-- A selection set: selections in braces, at least one. -/
def selectionSet : Nat → Parser (List Selection)
  | 0 => fail
  | room + 1 => do
      mark .braceOpen
      let selections ←
        deeper room (many1 startsSelection (selection room (selectionSet room)))
      mark .braceClose
      return selections

/-! ### Definitions -/

/-- The definition of a variable. -/
def variableDefinition (room : Nat) : Parser VariableDefinition :=
  located do
    mark .dollar
    let name ← name
    mark .colon
    let (typeLocation, type) ← located do
      let type ← type room
      return fun location => (location, type)
    let defaultValue ←
      whenNext (isMark .equals) (do mark .equals; return some (← value true room)) none
    let directives ← directives true room
    return fun location =>
      ⟨some location, name, some typeLocation, type, defaultValue, directives⟩

/-- Variable definitions in parentheses, at least one, or none at all. -/
def variableDefinitions (room : Nat) : Parser (List VariableDefinition) :=
  whenNext (isMark .parenOpen)
    (do
      mark .parenOpen
      let parameters ← many1 (isMark .dollar) (variableDefinition room)
      mark .parenClose
      return parameters)
    []

/-- The word that begins an operation. -/
def operationKind : Parser OperationKind := do
  match ← take with
  | .name "query" => return .query
  | .name "mutation" => return .mutation
  | .name "subscription" => return .subscription
  | _ => fail

/-- An operation. A selection set alone is a query without a name. -/
def operation (room : Nat) : Parser Definition :=
  located do
    if ← nextIs (isMark .braceOpen) then
      let selections ← selectionSet room
      return fun location => .operation ⟨some location, .query, none, [], [], selections⟩
    else
      let kind ← operationKind
      let name ← whenNext isName (do return some (← name)) none
      let parameters ← variableDefinitions room
      let directives ← directives false room
      let selections ← selectionSet room
      return fun location =>
        .operation ⟨some location, kind, name, parameters, directives, selections⟩

/-- A fragment definition behind its first token. No fragment is named `on`. -/
def fragmentBody (room : Nat) : Parser (Location → Definition) := do
  let name ← name
  if name = "on" then fail
  else
    word "on"
    let condition ← Parser.name
    let directives ← directives false room
    let selections ← selectionSet room
    return fun location => .fragment ⟨some location, name, condition, directives, selections⟩

/-- A fragment definition. -/
def fragment (room : Nat) : Parser Definition :=
  located do
    word "fragment"
    fragmentBody room

end QueryCompiler.Parser

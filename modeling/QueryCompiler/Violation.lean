import QueryCompiler.Document.Basic

/-!
# Violations

The rules that request documents must keep, and the report of a broken one: where in the text, and
in which operation or fragment under which fields.
-/

namespace QueryCompiler

/-- A rule that a request document breaks. -/
inductive Violation where
  | anonymousOperation (kind : OperationKind)
  | typeSystemDefinition (description : String)
  | operationNameCollision (name : Name)
  | fragmentNameCollision (name : Name)
  | undefinedRootOperation (operation : Name) (kind : OperationKind)
  | undefinedTypeCondition (fragment : Name) (type : Name)
  | undefinedField (type : Name) (field : Name)
  | undefinedFragment (name : Name)
  | impossibleFragmentSpread (fragment : Name) (condition : Name) (parent : Name)
  | undefinedInlineTypeCondition (type : Name)
  | impossibleInlineFragment (condition : Name) (parent : Name)
  | subselectionOnLeafType (field : Name) (type : Name) (description : String)
  | invalidNumber (literal : String)
  | variableInConstValue (name : Name)
  deriving DecidableEq, Repr

namespace Violation

/-- The text of a violation. -/
def message : Violation → String
  | anonymousOperation kind =>
      "anonymous " ++ kind.keyword
        ++ " operations are not supported, every operation must have a name"
  | typeSystemDefinition description =>
      "an executable document must not contain " ++ description
  | operationNameCollision name =>
      "the operation `" ++ name ++ "` is defined multiple times in the document set"
  | fragmentNameCollision name =>
      "the fragment `" ++ name ++ "` is defined multiple times in the document set"
  | undefinedRootOperation operation kind =>
      "operation `" ++ operation ++ "` is a " ++ kind.keyword
        ++ ", but the schema does not define a " ++ kind.keyword ++ " root operation type"
  | undefinedTypeCondition fragment type =>
      "type condition `" ++ type ++ "` of fragment `" ++ fragment
        ++ "` is not an object, interface, or union type of the schema"
  | undefinedField type field =>
      "type `" ++ type ++ "` does not have a field `" ++ field ++ "`"
  | undefinedFragment name => "cannot find fragment `" ++ name ++ "` in this document set"
  | impossibleFragmentSpread fragment condition parent =>
      "fragment `" ++ fragment ++ "` cannot be spread here: its type condition `" ++ condition
        ++ "` has no possible types in common with parent type `" ++ parent ++ "`"
  | undefinedInlineTypeCondition type =>
      "type condition `" ++ type
        ++ "` of an inline fragment is not an object, interface, or union type of the schema"
  | impossibleInlineFragment condition parent =>
      "inline fragment on `" ++ condition
        ++ "` can never apply: it has no possible types in common with parent type `" ++ parent
        ++ "`"
  | subselectionOnLeafType field type description =>
      "field `" ++ field ++ "` returns " ++ description ++ " `" ++ type
        ++ "` and must not have a selection set"
  | invalidNumber literal => "`" ++ literal ++ "` cannot be represented as a finite number"
  | variableInConstValue name => "variable `$" ++ name ++ "` cannot be used in a constant value"

/-- The name of the rule. -/
def rule : Violation → String
  | anonymousOperation _ => "AnonymousOperation"
  | typeSystemDefinition _ => "TypeSystemDefinition"
  | operationNameCollision _ => "OperationNameCollision"
  | fragmentNameCollision _ => "FragmentNameCollision"
  | undefinedRootOperation .. => "UndefinedRootOperation"
  | undefinedTypeCondition .. => "UndefinedTypeCondition"
  | undefinedField .. => "UndefinedField"
  | undefinedFragment _ => "UndefinedFragment"
  | impossibleFragmentSpread .. => "ImpossibleFragmentSpread"
  | undefinedInlineTypeCondition _ => "UndefinedInlineTypeCondition"
  | impossibleInlineFragment .. => "ImpossibleInlineFragment"
  | subselectionOnLeafType .. => "SubselectionOnLeafType"
  | invalidNumber _ => "InvalidNumber"
  | variableInConstValue _ => "VariableInConstValue"

/-- What is written at the place of a violation. -/
def label : Violation → String
  | anonymousOperation _ => "this operation has no name"
  | typeSystemDefinition _ => "not an operation or a fragment"
  | operationNameCollision name => "`" ++ name ++ "` defined again here"
  | fragmentNameCollision name => "`" ++ name ++ "` defined again here"
  | undefinedRootOperation _ kind =>
      kind.keyword ++ " operations are not supported by this schema"
  | undefinedTypeCondition _ type =>
      "`" ++ type ++ "` is not an object, interface, or union type"
  | undefinedInlineTypeCondition type =>
      "`" ++ type ++ "` is not an object, interface, or union type"
  | undefinedField type field => "`" ++ field ++ "` is not a field of `" ++ type ++ "`"
  | undefinedFragment name => "fragment `" ++ name ++ "` is not defined"
  | impossibleFragmentSpread _ _ parent => "can never apply to `" ++ parent ++ "`"
  | impossibleInlineFragment _ parent => "can never apply to `" ++ parent ++ "`"
  | subselectionOnLeafType _ type _ => "`" ++ type ++ "` is a leaf type"
  | invalidNumber _ => "not a finite number"
  | variableInConstValue _ => "variable in a constant value"

/-- How to mend a violation, where there is one way to. -/
def help : Violation → Option String
  | anonymousOperation _ => some "name the operation, generated types are named after it"
  | operationNameCollision _ => some "names must be unique across every document of a schema"
  | fragmentNameCollision _ => some "names must be unique across every document of a schema"
  | typeSystemDefinition _ =>
      some "the schema is read from introspection, remove this definition"
  | subselectionOnLeafType .. => some "remove the selection set"
  | _ => none

end Violation

/-- The definition that a violation was found in. -/
inductive DefinitionName where
  | operation (kind : OperationKind) (name : Name)
  | fragment (name : Name)
  deriving DecidableEq, Repr

/-- A definition, and the response keys of the fields that lead to a place in it. -/
structure SelectionPath where
  root : DefinitionName
  fields : List Name
  deriving DecidableEq, Repr

namespace SelectionPath

/-- The path to the selections inside a field, from the path to the field. -/
def push (path : SelectionPath) (key : Name) : SelectionPath :=
  { path with fields := path.fields ++ [key] }

/-- The text of a path. -/
def text (path : SelectionPath) : String :=
  let root :=
    match path.root with
    | .operation kind name => kind.keyword ++ " " ++ name
    | .fragment name => "fragment " ++ name
  root ++ String.join (path.fields.map fun field => " → " ++ field)

end SelectionPath

/-- A violation with where it was found, as far as that is known. -/
structure Finding where
  location : Option Location
  path : Option SelectionPath
  violation : Violation
  deriving DecidableEq, Repr

namespace Finding

/-- The text of a finding. -/
def message (f : Finding) : String :=
  f.violation.message ++
    match f.path with
    | some path => " (at " ++ path.text ++ ")"
    | none => ""

/-- Supply the location and the path where they are missing. -/
def locate (f : Finding) (location : Option Location) (path : SelectionPath) : Finding :=
  ⟨f.location.or location, some (f.path.getD path), f.violation⟩

end Finding

end QueryCompiler

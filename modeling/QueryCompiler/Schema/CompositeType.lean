import QueryCompiler.Failure
import QueryCompiler.Schema.Catalog

/-!
# Composite types

The types that selections can be made on: objects, interfaces and unions. A fragment can be spread
on a type when some type stands behind both.
-/

namespace QueryCompiler

/-- The kinds of composite types. -/
inductive CompositeKind where
  | object
  | interface
  | union
  deriving DecidableEq, Repr

namespace CompositeKind

/-- The word for a kind. -/
def word : CompositeKind → String
  | object => "object"
  | interface => "interface"
  | union => "union"

end CompositeKind

/-- A type that selections can be made on. -/
inductive CompositeType where
  | object (type : ObjectType)
  | interface (type : InterfaceType)
  | union (type : UnionType)
  deriving DecidableEq

namespace CompositeType

/-- The name of a composite type. -/
def name : CompositeType → Name
  | object t => t.name
  | interface t => t.name
  | union t => t.name

/-- The kind of a composite type. -/
def kind : CompositeType → CompositeKind
  | object _ => .object
  | interface _ => .interface
  | union _ => .union

/-- The fields that can be selected, apart from those that every composite type has. -/
def fields : CompositeType → OrderedMap Name FieldDefinition
  | object t => t.fields
  | interface t => t.fields
  | union t => t.fields

/-- The types that a selection on this type can stand for. -/
def implementingTypes : CompositeType → List Name
  | object t => t.implementingTypes
  | interface t => t.implementingTypes
  | union t => t.implementingTypes

/-- The composite type that a definition is. -/
def of? : TypeDefinition → Option CompositeType
  | .object t => some (object t)
  | .interface t => some (interface t)
  | .union t => some (union t)
  | _ => none

/-- The types that a fragment with the given type condition can apply to on this type. -/
def applicableTypes (t : CompositeType) (condition : Name) (c : Catalog) : List Name :=
  match c.possibleTypes? condition with
  | some possible => t.implementingTypes.filter fun name => possible.contains name
  | none => []

/-- Whether a fragment with the given type condition can apply at all. -/
def isSpreadPossible (t : CompositeType) (condition : Name) (c : Catalog) : Bool :=
  !(t.applicableTypes condition c).isEmpty

end CompositeType

namespace Catalog

/-- The composite type of a name. -/
def composite? (c : Catalog) (name : Name) : Option CompositeType :=
  (c.get? name).bind CompositeType.of?

/-- The type on which the sub-selections of a field are made. -/
def selectionType (c : Catalog) (field : FieldDefinition) : Except Failure CompositeType :=
  let type := field.type.innermost
  let leaf (description : String) : Except Failure CompositeType :=
    .error (.validation ⟨none, none, .subselectionOnLeafType field.name type description⟩)
  match c.composite? type with
  | some composite => .ok composite
  | none =>
      match BuiltInScalar.ofName? type with
      | some _ => leaf "a built-in scalar"
      | none =>
          match c.get? type with
          | some definition => leaf definition.description
          | none => .error (.inconsistency (.unresolvedType type ("field `" ++ field.name ++ "`")))

end Catalog

end QueryCompiler

import QueryCompiler.Document.Basic
import QueryCompiler.ResolvedType
import QueryCompiler.Schema.TypeDefinition

/-!
# Catalogs

A catalog lists the named types of a schema and the types that operations start from. The built-in
scalars are not listed; they are known without a definition.
-/

namespace QueryCompiler

/-- Something odd about a schema that does not keep it from being used. -/
inductive Warning where
  | interfaceWithoutTypes (name : Name)
  | unionWithoutTypes (name : Name)
  deriving DecidableEq, Repr

namespace Warning

/-- The text of a warning. -/
def message : Warning → String
  | interfaceWithoutTypes name => "interface `" ++ name ++ "` has no possible types"
  | unionWithoutTypes name => "union `" ++ name ++ "` has no possible types"

/-- The warning about a type, if there is reason for one. -/
def of? : TypeDefinition → Option Warning
  | .interface t => if t.possibleTypes.isEmpty then some (interfaceWithoutTypes t.name) else none
  | .union t => if t.possibleTypes.isEmpty then some (unionWithoutTypes t.name) else none
  | _ => none

end Warning

/-- The named types of a schema, and where operations start. -/
structure Catalog where
  /-- The namespace in which the schema's scalars are found. -/
  outputSchemaName : Name
  queryType : Name
  mutationType : Option Name
  subscriptionType : Option Name
  types : OrderedMap Name TypeDefinition
  warnings : List Warning
  deriving DecidableEq

namespace Catalog

/-- The type that operations of a kind start from, if the schema has one. -/
def root? (c : Catalog) : OperationKind → Option Name
  | .query => some c.queryType
  | .mutation => c.mutationType
  | .subscription => c.subscriptionType

/-- The type of a name. -/
def get? (c : Catalog) (name : Name) : Option TypeDefinition := c.types.get? name

/-- The scalar of a name. -/
def scalar? (c : Catalog) (name : Name) : Option ScalarType :=
  (c.get? name).bind TypeDefinition.scalar?

/-- The object of a name. -/
def object? (c : Catalog) (name : Name) : Option ObjectType :=
  (c.get? name).bind TypeDefinition.object?

/-- The enum of a name. -/
def enum? (c : Catalog) (name : Name) : Option EnumType :=
  (c.get? name).bind TypeDefinition.enum?

/-- The input object of a name. -/
def inputObject? (c : Catalog) (name : Name) : Option InputObjectType :=
  (c.get? name).bind TypeDefinition.inputObject?

/-- The types that a fragment on the named type can stand for, if it can stand on it at all. -/
def possibleTypes? (c : Catalog) (name : Name) : Option (List Name) :=
  (c.get? name).bind TypeDefinition.implementingTypes?

/-- Whether a name is that of a scalar, built in or declared. -/
def isScalar (c : Catalog) (name : Name) : Bool :=
  (BuiltInScalar.ofName? name).isSome || (c.scalar? name).isSome

/-- What a type name stands for in generated types. -/
def typeBase (c : Catalog) (name : Name) : TypeBase :=
  match BuiltInScalar.ofName? name with
  | some scalar => .builtIn scalar
  | none => if (c.scalar? name).isSome then .customScalar c.outputSchemaName name else .named name

/-- The resolved form of a type reference. -/
def resolve (c : Catalog) (type : TypeRef) : Except Inconsistency ResolvedType :=
  type.resolve c.typeBase

end Catalog

end QueryCompiler

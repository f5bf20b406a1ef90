import QueryCompiler.Configuration
import QueryCompiler.Json.Reader
import QueryCompiler.Schema.CompositeType

/-!
# Building a catalog

A catalog is built from an introspection answer. Scalars, objects, enums and input objects are taken
as they are listed. Interfaces and unions need the object types that stand behind them, so they are
completed when all others are known, and are listed after them.
-/

namespace QueryCompiler

open Introspection (TypeKind NamedRef TypeEntry)

/-- The name in a reference that must lead to a type of one kind. A reference that gives no kind is
taken on trust. -/
def Introspection.NamedRef.expect (reference : NamedRef) (kind : TypeKind) (expected : String)
    (referencedBy : Name) : Except Inconsistency Name :=
  if reference.kind = none ∨ reference.kind = some kind then .ok reference.name
  else .error (.unexpectedTypeKind reference.name referencedBy expected)

/-- The fields of a list by name. Of two fields with one name the later counts, at the place of the
earlier. -/
def FieldDefinition.table (fields : List FieldDefinition) : OrderedMap Name FieldDefinition :=
  .ofList (fields.map fun field => (field.name, field))

/-- An interface or union as it is listed, before the types behind it are looked up. -/
inductive AbstractEntry where
  | interface (name : Name) (description : Option String) (interfaces : List Name)
      (fields : OrderedMap Name FieldDefinition) (possibleTypes : List NamedRef)
  | union (name : Name) (description : Option String) (possibleTypes : List NamedRef)

/-- What one listed type adds to a catalog. -/
inductive CatalogEntry where
  /-- A built-in scalar, which is known without being listed. -/
  | builtIn
  | concrete (definition : TypeDefinition)
  | abstract (entry : AbstractEntry)

namespace CatalogEntry

/-- The definition of a concrete type. -/
def concrete? : CatalogEntry → Option TypeDefinition
  | concrete definition => some definition
  | _ => none

/-- An interface or union. -/
def abstract? : CatalogEntry → Option AbstractEntry
  | abstract entry => some entry
  | _ => none

/-- The names of the interfaces that a listed type implements. -/
def interfaceNames (name : Name) (references : List NamedRef) : Except Inconsistency (List Name) :=
  references.mapM fun reference => reference.expect .interface "an interface" name

/-- What a listed type of the given name adds. -/
def ofNamed (name : Name) (entry : TypeEntry) : Except Failure CatalogEntry :=
  match entry.kind with
  | .scalar =>
      match BuiltInScalar.ofName? name with
      | some _ => .ok builtIn
      | none => .ok (concrete (.scalar ⟨name, entry.description, entry.specifiedBy⟩))
  | .object => do
      let interfaces ← (interfaceNames name entry.interfaces).mapError .inconsistency
      return concrete
        (.object ⟨name, entry.description, interfaces, FieldDefinition.table entry.fields⟩)
  | .interface => do
      let interfaces ← (interfaceNames name entry.interfaces).mapError .inconsistency
      return abstract
        (.interface name entry.description interfaces (FieldDefinition.table entry.fields)
          entry.possibleTypes)
  | .union => .ok (abstract (.union name entry.description entry.possibleTypes))
  | .enum =>
      .ok (concrete (.enum ⟨name, entry.description,
        .ofList (entry.enumValues.map fun value => (value.name, value))⟩))
  | .inputObject =>
      .ok (concrete (.inputObject ⟨name, entry.description,
        .ofList (entry.inputFields.map fun value => (value.name, value))⟩))
  | .list => .error (.inconsistency (.wrappedTopLevelType TypeKind.list.description))
  | .nonNull => .error (.inconsistency (.wrappedTopLevelType TypeKind.nonNull.description))

/-- What a listed type adds. -/
def ofEntry (entry : TypeEntry) : Except Failure CatalogEntry :=
  match entry.name with
  | some name => ofNamed name entry
  | none =>
      if entry.kind.isWrapper then
        .error (.inconsistency (.wrappedTopLevelType entry.kind.description))
      else .error (.configuration (.unnamedType entry.kind))

end CatalogEntry

namespace AbstractEntry

/-- The name of an interface, if it names the given one among those that it implements. -/
def subInterface? (of : Name) : AbstractEntry → Option Name
  | interface name _ interfaces _ _ => if interfaces.contains of then some name else none
  | union .. => none

/-- The names of the interfaces that name the given one among theirs. -/
def subInterfaces (entries : List AbstractEntry) (of : Name) : List Name :=
  (entries.filterMap (subInterface? of)).eraseDups

/-- The object types that the references of an interface or union lead to. -/
def objectNames (types : OrderedMap Name TypeDefinition) (parent : Name)
    (references : List NamedRef) : Except Inconsistency (List Name) := do
  let names ← references.mapM fun reference => do
    let name ← reference.expect .object "an object" parent
    match (types.get? name).bind TypeDefinition.object? with
    | some _ => return name
    | none => throw (.undefinedPossibleType name parent)
  return names.eraseDups

/-- The fields of the members of a union. The first declaration of a name counts. -/
def memberFields (types : OrderedMap Name TypeDefinition) (members : List Name) :
    OrderedMap Name FieldDefinition :=
  OrderedMap.empty.insertAllNew <| members.flatMap fun member =>
    match (types.get? member).bind TypeDefinition.object? with
    | some object => object.fields.entries
    | none => []

/-- Complete interfaces and unions, in order. The sub-interfaces of a name belong to the first
interface of that name; `taken` lists the names of those before. -/
def complete (types : OrderedMap Name TypeDefinition) (subInterfaces : Name → List Name) :
    List Name → List AbstractEntry → Except Inconsistency (List TypeDefinition)
  | _, [] => .ok []
  | taken, interface name description interfaces fields references :: rest => do
      let possible ← objectNames types name references
      let sub := if taken.contains name then [] else subInterfaces name
      let others ← complete types subInterfaces (name :: taken) rest
      return .interface ⟨name, description, interfaces, fields, possible, sub⟩ :: others
  | taken, union name description references :: rest => do
      let possible ← objectNames types name references
      let others ← complete types subInterfaces taken rest
      return .union ⟨name, description, possible, memberFields types possible⟩ :: others

end AbstractEntry

namespace Catalog

/-- Check that a name among the interfaces of a type is that of an interface. -/
def checkInterface (types : OrderedMap Name TypeDefinition) (implementer : Name)
    (interface : Name) : Except Inconsistency Unit :=
  match types.get? interface with
  | some (.interface _) => .ok ()
  | some _ => .error (.unexpectedTypeKind interface implementer "an interface")
  | none => .error (.unresolvedType interface ("the interfaces of `" ++ implementer ++ "`"))

/-- Check the interfaces of all types. -/
def checkInterfaces (types : OrderedMap Name TypeDefinition) : Except Inconsistency Unit :=
  types.values.forM fun definition =>
    definition.interfaces.forM (checkInterface types definition.name)

/-- The name of a root operation type, which must be an object type. -/
def rootName (types : OrderedMap Name TypeDefinition) (operation : OperationKind)
    (reference : NamedRef) : Except Failure Name :=
  match types.get? reference.name with
  | some (.object _) => .ok reference.name
  | some definition =>
      .error (.configuration (.rootNotObject operation reference.name definition.description))
  | none => .error (.configuration (.undefinedRoot operation reference.name))

/-- The name of a root operation type that a schema need not have. -/
def rootName? (types : OrderedMap Name TypeDefinition) (operation : OperationKind) :
    Option NamedRef → Except Failure (Option Name)
  | some reference => (rootName types operation reference).map some
  | none => .ok none

/-- Build the catalog of a schema. -/
def ofSchema (configuration : Configuration) (schema : Introspection.Schema) :
    Except Failure Catalog := do
  let entries ← schema.types.mapM CatalogEntry.ofEntry
  let concrete := OrderedMap.ofList
    ((entries.filterMap CatalogEntry.concrete?).map fun definition => (definition.name, definition))
  let drafts := entries.filterMap CatalogEntry.abstract?
  let abstracts ←
    (AbstractEntry.complete concrete (AbstractEntry.subInterfaces drafts) [] drafts).mapError
      .inconsistency
  let types := concrete.insertAll (abstracts.map fun definition => (definition.name, definition))
  (checkInterfaces types).mapError .inconsistency
  let some query := schema.queryType | throw (.configuration .missingQueryType)
  return {
    outputSchemaName := configuration.outputSchemaName
    queryType := ← rootName types .query query
    mutationType := ← rootName? types .mutation schema.mutationType
    subscriptionType := ← rootName? types .subscription schema.subscriptionType
    types := types
    warnings := abstracts.filterMap Warning.of? }

/-- How deep arrays and objects of an answer may be nested. -/
def jsonDepth : Nat := 127

/-- Build a catalog from the text of an introspection answer. -/
def ofText (configuration : Configuration) (text : String) : Except Failure Catalog := do
  let some json := Json.read? jsonDepth text | throw (.configuration .invalidJson)
  match Introspection.schema (Introspection.unwrap json) with
  | .ok schema => ofSchema configuration schema
  | .error error => throw (.configuration (.malformed error))

end Catalog

end QueryCompiler

import QueryCompiler.OrderedMap
import QueryCompiler.Schema.Definition

/-!
# Type definitions

The named types of a schema. Object types are known with the interfaces that they implement;
interfaces and unions with the object types that stand behind them.
-/

namespace QueryCompiler

/-- A scalar type that the schema declares. -/
structure ScalarType where
  name : Name
  description : Option String
  /-- Where the scalar's format is laid down. -/
  specifiedBy : Option String
  deriving DecidableEq

/-- An object type. -/
structure ObjectType where
  name : Name
  description : Option String
  interfaces : List Name
  fields : OrderedMap Name FieldDefinition
  deriving DecidableEq

namespace ObjectType

/-- An object is implemented by itself only. -/
def implementingTypes (o : ObjectType) : List Name := [o.name]

end ObjectType

/-- An interface. -/
structure InterfaceType where
  name : Name
  description : Option String
  interfaces : List Name
  fields : OrderedMap Name FieldDefinition
  /-- The object types that implement the interface. -/
  possibleTypes : List Name
  /-- The interfaces that name this one among theirs. -/
  subInterfaces : List Name
  deriving DecidableEq

namespace InterfaceType

/-- An interface is implemented by its possible types, its direct sub-interfaces and itself. -/
def implementingTypes (i : InterfaceType) : List Name :=
  (i.possibleTypes ++ i.subInterfaces ++ [i.name]).eraseDups

end InterfaceType

/-- A union of object types. -/
structure UnionType where
  name : Name
  description : Option String
  /-- The member types. -/
  possibleTypes : List Name
  /-- The fields of the members; of several declarations of one name, the first member's. -/
  fields : OrderedMap Name FieldDefinition
  deriving DecidableEq

namespace UnionType

/-- A union is implemented by its members. -/
def implementingTypes (u : UnionType) : List Name := u.possibleTypes

end UnionType

/-- An enum. -/
structure EnumType where
  name : Name
  description : Option String
  values : OrderedMap Name EnumValueDefinition
  deriving DecidableEq

/-- An input object. -/
structure InputObjectType where
  name : Name
  description : Option String
  fields : OrderedMap Name InputValueDefinition
  deriving DecidableEq

/-- The definition of a named type. -/
inductive TypeDefinition where
  | scalar (type : ScalarType)
  | object (type : ObjectType)
  | interface (type : InterfaceType)
  | union (type : UnionType)
  | enum (type : EnumType)
  | inputObject (type : InputObjectType)
  deriving DecidableEq

namespace TypeDefinition

/-- The name of a type. -/
def name : TypeDefinition → Name
  | scalar t => t.name
  | object t => t.name
  | interface t => t.name
  | union t => t.name
  | enum t => t.name
  | inputObject t => t.name

/-- How messages speak of a type of this kind. -/
def description : TypeDefinition → String
  | scalar _ => "a scalar type"
  | object _ => "an object type"
  | interface _ => "an interface type"
  | union _ => "a union type"
  | enum _ => "an enum type"
  | inputObject _ => "an input object type"

/-- The scalar type that a definition is. -/
def scalar? : TypeDefinition → Option ScalarType
  | scalar t => some t
  | _ => none

/-- The object type that a definition is. -/
def object? : TypeDefinition → Option ObjectType
  | object t => some t
  | _ => none

/-- The interface that a definition is. -/
def interface? : TypeDefinition → Option InterfaceType
  | interface t => some t
  | _ => none

/-- The union that a definition is. -/
def union? : TypeDefinition → Option UnionType
  | union t => some t
  | _ => none

/-- The enum that a definition is. -/
def enum? : TypeDefinition → Option EnumType
  | enum t => some t
  | _ => none

/-- The input object that a definition is. -/
def inputObject? : TypeDefinition → Option InputObjectType
  | inputObject t => some t
  | _ => none

/-- The interfaces that a type implements. -/
def interfaces : TypeDefinition → List Name
  | object t => t.interfaces
  | interface t => t.interfaces
  | _ => []

/-- The names of the types that a fragment on this type can stand for. Leaf types have none. -/
def implementingTypes? : TypeDefinition → Option (List Name)
  | object t => some t.implementingTypes
  | interface t => some t.implementingTypes
  | union t => some t.implementingTypes
  | _ => none

end TypeDefinition

end QueryCompiler

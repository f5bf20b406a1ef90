import QueryCompiler.TypeRef

/-!
# Schema definitions

The parts that schema types are made of: fields, input values and enum values.
-/

namespace QueryCompiler

/-- An argument of a field, or a field of an input object. -/
structure InputValueDefinition where
  name : Name
  description : Option String
  type : TypeRef
  /-- The default value as it is written in a document. -/
  defaultValue : Option String
  deriving DecidableEq, Repr

/-- A field of an object or interface. -/
structure FieldDefinition where
  name : Name
  description : Option String
  arguments : List InputValueDefinition
  type : TypeRef
  isDeprecated : Bool
  deprecationReason : Option String
  deriving DecidableEq, Repr

/-- A value of an enum. -/
structure EnumValueDefinition where
  name : Name
  description : Option String
  isDeprecated : Bool
  deprecationReason : Option String
  deriving DecidableEq, Repr

end QueryCompiler

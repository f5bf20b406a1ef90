/-!
# Names

Types, fields, arguments, fragments and operations are all known by a name. A name is any text:
the grammar of request documents admits fewer of them than an introspection answer does.
-/

namespace QueryCompiler

/-- The name of a type, field, argument, directive, variable, fragment or operation. -/
abbrev Name := String

namespace Name

/-- Names that begin with two underscores belong to the introspection system. -/
def isIntrospection (name : Name) : Bool := ['_', '_'].isPrefixOf name.toList

/-- Names in the order of their characters' code points, repeated names kept. -/
def sort (names : List Name) : List Name := names.mergeSort fun a b => decide (a ≤ b)

end Name

/-- The five scalar types that every schema has without declaring them. -/
inductive BuiltInScalar where
  | int
  | float
  | string
  | boolean
  | id
  deriving DecidableEq, Repr

namespace BuiltInScalar

/-- The name of a built-in scalar in documents and schemas. -/
def name : BuiltInScalar → Name
  | int => "Int"
  | float => "Float"
  | string => "String"
  | boolean => "Boolean"
  | id => "ID"

/-- The primitive type that holds the values of a built-in scalar. -/
def primitive : BuiltInScalar → String
  | int => "i32"
  | float => "f64"
  | string => "String"
  | boolean => "bool"
  | id => "String"

/-- The built-in scalar of the given name, if there is one. -/
def ofName? (name : Name) : Option BuiltInScalar :=
  if name = "Int" then some int
  else if name = "Float" then some float
  else if name = "String" then some string
  else if name = "Boolean" then some boolean
  else if name = "ID" then some id
  else none

/-- A name finds the built-in scalar that carries it, and nothing else. -/
theorem ofName?_eq_some_iff {name : Name} {scalar : BuiltInScalar} :
    ofName? name = some scalar ↔ name = scalar.name := by
  unfold ofName?
  constructor
  · intro h
    split at h
    · cases h; assumption
    split at h
    · cases h; assumption
    split at h
    · cases h; assumption
    split at h
    · cases h; assumption
    split at h
    · cases h; assumption
    · cases h
  · intro h
    subst h
    cases scalar <;> rfl

end BuiltInScalar

end QueryCompiler

import QueryCompiler.Name

/-!
# Type references

The type of a field, argument, input field or variable: a named type under any number of list and
non-null markers. The grammar never puts one non-null marker directly on another, but a schema
given as data may.
-/

namespace QueryCompiler

/-- A named type under list and non-null markers. -/
inductive TypeRef where
  | named (name : Name)
  | list (item : TypeRef)
  | nonNull (inner : TypeRef)
  deriving DecidableEq, Repr

namespace TypeRef

/-- The text of a type reference as it stands in a document. -/
def text : TypeRef → String
  | named name => name
  | list item => "[" ++ item.text ++ "]"
  | nonNull inner => inner.text ++ "!"

/-- The named type under all markers. -/
def innermost : TypeRef → Name
  | named name => name
  | list item => item.innermost
  | nonNull inner => inner.innermost

/-- Whether the outermost marker is a non-null marker. -/
def isNonNull : TypeRef → Bool
  | nonNull _ => true
  | _ => false

/-- Whether the outermost marker, non-null markers aside, is a list marker. -/
def isList : TypeRef → Bool
  | named _ => false
  | list _ => true
  | nonNull inner => inner.isList

end TypeRef

end QueryCompiler

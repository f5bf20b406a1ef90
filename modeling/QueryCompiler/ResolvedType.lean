import QueryCompiler.Inconsistency

/-!
# Resolved types

The type of a field or input value as generated code sees it. Where a type reference marks what is
never null, a resolved type marks what may be null, and its innermost name is resolved to a base.
-/

namespace QueryCompiler

/-- What the innermost name of a type reference stands for. -/
inductive TypeBase where
  /-- A scalar that every schema has. -/
  | builtIn (scalar : BuiltInScalar)
  /-- A scalar that the schema declares, aliased in the namespace of the generated schema. -/
  | customScalar (space : Name) (name : Name)
  /-- Any other type. -/
  | named (name : Name)
  deriving DecidableEq, Repr

namespace TypeBase

/-- The name of a base in the schema. -/
def schemaName : TypeBase → Name
  | builtIn scalar => scalar.name
  | customScalar _ name => name
  | named name => name

/-- The name by which generated code refers to a base. -/
def targetName : TypeBase → String
  | builtIn scalar => scalar.primitive
  | customScalar space name => space ++ "." ++ name
  | named name => name

end TypeBase

/-- A type with its optional positions marked. -/
inductive ResolvedType where
  | value (base : TypeBase)
  | optional (inner : ResolvedType)
  | list (item : ResolvedType)
  deriving DecidableEq, Repr

namespace ResolvedType

/-- The text of a resolved type. -/
def text : ResolvedType → String
  | value base => base.targetName
  | optional inner => inner.text ++ "?"
  | list item => "[" ++ item.text ++ "]"

/-- The base under all markers. -/
def base : ResolvedType → TypeBase
  | value base => base
  | optional inner => inner.base
  | list item => item.base

/-- Whether the outermost marker says that the value may be null. -/
def isOptional : ResolvedType → Bool
  | optional _ => true
  | _ => false

/-- Change the base and keep the markers. -/
def mapBase (f : TypeBase → TypeBase) : ResolvedType → ResolvedType
  | value base => value (f base)
  | optional inner => optional (inner.mapBase f)
  | list item => list (item.mapBase f)

end ResolvedType

/-- Resolve a type reference: every position is optional, except that a non-null marker takes
exactly one optional marker away. -/
def TypeRef.resolve (base : Name → TypeBase) : TypeRef → Except Inconsistency ResolvedType
  | named name => .ok (.optional (.value (base name)))
  | list item => do return .optional (.list (← item.resolve base))
  | nonNull inner => do
      match ← inner.resolve base with
      | .optional stripped => return stripped
      | _ => throw (.doubleNonNull (.nonNull inner))

end QueryCompiler

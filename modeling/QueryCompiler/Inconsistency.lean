import QueryCompiler.TypeRef

/-!
# Inconsistencies

What can be wrong with a schema's own type graph, or with two selection sets that are to become
one. None of these is a mistake in a request document.
-/

namespace QueryCompiler

/-- A contradiction in the type graph or between selection sets. -/
inductive Inconsistency where
  /-- A list or non-null type stands among the named types. -/
  | wrappedTopLevelType (kind : String)
  /-- A reference leads to a type of another kind than its place asks for. -/
  | unexpectedTypeKind (type : Name) (referencedBy : Name) (expected : String)
  /-- A possible type is not an object type of the schema. -/
  | undefinedPossibleType (type : Name) (parent : Name)
  /-- A reference leads nowhere. -/
  | unresolvedType (type : Name) (referencedBy : String)
  /-- Two selection sets on different types are to become one. -/
  | mergeTypeMismatch (type : Name) (other : Name)
  /-- Two selection sets reached through different fields are to become one. -/
  | mergePathMismatch (type : Name) (path : String) (other : String)
  /-- A non-null marker stands on a type that is already non-null. -/
  | doubleNonNull (type : TypeRef)
  deriving DecidableEq, Repr

namespace Inconsistency

/-- The text of an inconsistency. -/
def message : Inconsistency → String
  | wrappedTopLevelType kind =>
      "the schema contains a top-level " ++ kind ++ " type, a named type can never be wrapped"
  | unexpectedTypeKind type referencedBy expected =>
      "type `" ++ type ++ "` referenced by `" ++ referencedBy ++ "` must be " ++ expected
  | undefinedPossibleType type parent =>
      "possible type `" ++ type ++ "` of `" ++ parent ++ "` does not exist in the schema"
  | unresolvedType type referencedBy =>
      "type `" ++ type ++ "` of " ++ referencedBy ++ " could not be resolved in the schema"
  | mergeTypeMismatch type other =>
      "attempting to merge selection sets of different types `" ++ type ++ "` and `" ++ other
        ++ "`"
  | mergePathMismatch type path other =>
      "attempting to merge selection sets on `" ++ type ++ "` reached through different fields: `"
        ++ path ++ "` and `" ++ other ++ "`"
  | doubleNonNull type =>
      "rewrapping `" ++ type.text ++ "` failed: a non-null type must wrap a nullable type"

/-- The name of the rule that an inconsistency breaks. -/
def rule : Inconsistency → String
  | wrappedTopLevelType _ => "WrappedTopLevelType"
  | unexpectedTypeKind .. => "UnexpectedTypeKind"
  | undefinedPossibleType .. => "UndefinedPossibleType"
  | unresolvedType .. => "UnresolvedType"
  | mergeTypeMismatch .. => "MergeTypeMismatch"
  | mergePathMismatch .. => "MergePathMismatch"
  | doubleNonNull _ => "NonNullRewrap"

end Inconsistency

end QueryCompiler

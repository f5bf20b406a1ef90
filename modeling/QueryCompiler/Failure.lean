import QueryCompiler.Inconsistency
import QueryCompiler.Schema.Introspection
import QueryCompiler.Violation

/-!
# Failures

Everything that can end the work early: a schema that cannot be used, a text that cannot be
parsed, a document that breaks a rule, or a type graph that contradicts itself.
-/

namespace QueryCompiler

/-- What is wrong with an introspection answer as a whole. -/
inductive SchemaProblem where
  | invalidJson
  | malformed (error : DecodeError)
  | unnamedType (kind : Introspection.TypeKind)
  | missingQueryType
  /-- A root operation type is a type of another kind than an object. -/
  | rootNotObject (operation : OperationKind) (type : Name) (description : String)
  | undefinedRoot (operation : OperationKind) (type : Name)
  deriving DecidableEq, Repr

namespace SchemaProblem

/-- What a problem consists in. -/
def detail : SchemaProblem → String
  | invalidJson => "introspection result is not valid JSON"
  | malformed error => "malformed introspection result: " ++ error.message
  | unnamedType kind =>
      "a type of kind " ++ kind.description ++ " in the introspection result has no name"
  | missingQueryType => "the introspection result does not declare a queryType"
  | rootNotObject operation type description =>
      "the " ++ operation.keyword ++ " root type `" ++ type ++ "` is " ++ description
        ++ ", not an object type"
  | undefinedRoot operation type =>
      "the " ++ operation.keyword ++ " root type `" ++ type
        ++ "` is not defined in the introspection result"

/-- The text of a problem. -/
def message (problem : SchemaProblem) : String := "configuration error: " ++ problem.detail

end SchemaProblem

/-- Why a step could not be done. -/
inductive Failure where
  | configuration (problem : SchemaProblem)
  /-- The text of a source cannot be parsed. -/
  | parsing (file : FileId) (path : String) (preview : String)
  | validation (finding : Finding)
  | inconsistency (inconsistency : Inconsistency)
  deriving DecidableEq, Repr

namespace Failure

/-- Supply a rule violation with the location and the path that it lacks. -/
def locate (location : Option Location) (path : SelectionPath) : Failure → Failure
  | validation finding => validation (finding.locate location path)
  | failure => failure

/-- Where a failure was found, if it was found in a document. -/
def location? : Failure → Option Location
  | validation finding => finding.location
  | _ => none

/-- The source that a failure points into, if it points into one. -/
def file? : Failure → Option FileId
  | parsing file _ _ => some file
  | validation finding => finding.location.map Location.file
  | _ => none

end Failure

end QueryCompiler

import QueryCompiler.Constant
import QueryCompiler.Dependencies
import QueryCompiler.SelectionSet.Resolve

/-!
# Compiled definitions

Operations and fragments that have been resolved against a catalog, together with the enums and
input objects that they need.
-/

namespace QueryCompiler

/-- A variable with its resolved type and default value. -/
structure CompiledVariable where
  definition : VariableDefinition
  type : ResolvedType
  defaultValue : Option Constant

/-- An operation that has been resolved. -/
structure CompiledOperation where
  location : Option Location
  kind : OperationKind
  name : Name
  /-- The variables that the operation declares. -/
  parameters : List CompiledVariable
  directives : List Directive
  selectionSet : SelectionSet
  /-- The enums that are selected, and what the variables need. -/
  dependencies : Dependencies

/-- A fragment that has been resolved. -/
structure CompiledFragment where
  location : Option Location
  name : Name
  condition : Name
  directives : List Directive
  selectionSet : SelectionSet
  /-- The enums that are selected. -/
  dependencies : Dependencies

namespace Scope

/-- Resolve a default value. What is wrong with it is found where it is written, or else at the
variable. -/
def defaultValue (s : Scope) (v : VariableDefinition) : Except Failure (Option Constant) :=
  match v.defaultValue with
  | none => .ok none
  | some value =>
      match Constant.ofValue value with
      | .ok constant => .ok (some constant)
      | .error finding => .error (.validation (finding.locate v.location s.path))

/-- Resolve a variable. -/
def resolveVariable (s : Scope) (v : VariableDefinition) : Except Failure CompiledVariable := do
  let default ← s.defaultValue v
  let type ← (s.catalog.resolve v.type).mapError .inconsistency
  return ⟨v, type, default⟩

/-- What the variables of an operation need. -/
def variableDependencies (s : Scope) (parameters : List VariableDefinition) :
    Except Failure Dependencies :=
  (Dependencies.empty.collect s.catalog
    (parameters.map fun v => .ofVariable v.name v.type)).mapError .inconsistency

/-- The type that an operation starts from. -/
def rootType (s : Scope) (operation : Operation) (name : Name) : Except Failure CompositeType :=
  match s.catalog.root? operation.kind with
  | none =>
      s.violation operation.location (.undefinedRootOperation name operation.kind)
  | some root =>
      match s.catalog.composite? root with
      | some type => .ok type
      | none =>
          .error (.inconsistency
            (.unresolvedType root ("the " ++ operation.kind.keyword ++ " root operation")))

end Scope

namespace Operation

/-- Compile an operation. -/
def compile (operation : Operation) (catalog : Catalog) (fragments : OrderedMap Name Fragment) :
    Except Failure CompiledOperation :=
  match operation.name with
  | none => .error (.validation ⟨operation.location, none, .anonymousOperation operation.kind⟩)
  | some name => do
      let scope := Scope.start catalog fragments (.operation operation.kind name)
      let root ← scope.rootType operation name
      let parameters ← operation.parameters.mapM scope.resolveVariable
      let (selectionSet, enums) ← scope.selectionSet root [] operation.selections
      let needed ← scope.variableDependencies operation.parameters
      return {
        location := operation.location
        kind := operation.kind
        name := name
        parameters := parameters
        directives := operation.directives
        selectionSet := selectionSet
        dependencies := (Dependencies.ofEnums enums).extend needed }

end Operation

namespace Fragment

/-- Compile a fragment. -/
def compile (fragment : Fragment) (catalog : Catalog) (fragments : OrderedMap Name Fragment) :
    Except Failure CompiledFragment := do
  let scope := Scope.start catalog fragments (.fragment fragment.name)
  match catalog.composite? fragment.condition with
  | none =>
      scope.violation fragment.location (.undefinedTypeCondition fragment.name fragment.condition)
  | some type =>
      let (selectionSet, enums) ← scope.selectionSet type [] fragment.selections
      return {
        location := fragment.location
        name := fragment.name
        condition := fragment.condition
        directives := fragment.directives
        selectionSet := selectionSet
        dependencies := Dependencies.ofEnums enums }

end Fragment

/-- The compiled definitions of a set of documents. -/
structure Compiled where
  catalog : Catalog
  sources : OrderedMap FileId Source
  operations : OrderedMap Name CompiledOperation
  fragments : OrderedMap Name CompiledFragment
  /-- What any of the operations and fragments needs. -/
  dependencies : Dependencies

/-- A step from a selection set to one inside it, by position. -/
inductive SelectionStep where
  | object (index : Nat)
  | inline (index : Nat)
  deriving DecidableEq, Repr

namespace SelectionSet

/-- The selection set that steps lead to. -/
def follow? (s : SelectionSet) : List SelectionStep → Option SelectionSet
  | [] => some s
  | .object index :: rest => s.objects[index]?.bind fun o => o.selectionSet.follow? rest
  | .inline index :: rest => s.inlines[index]?.bind fun i => i.selectionSet.follow? rest

end SelectionSet

end QueryCompiler

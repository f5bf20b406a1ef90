import QueryCompiler.SelectionSet.Merge

/-!
# Resolving selections

Selections of a document become a selection set by looking up each of them in the type that it is
made on. The first selection that breaks a rule ends the work. Enums that are selected are noted
on the way.
-/

namespace QueryCompiler

/-- What the selections of one definition are resolved against. -/
structure Scope where
  catalog : Catalog
  fragments : OrderedMap Name Fragment
  /-- The operation or fragment that the selections belong to, and the response keys of the fields
  around them. -/
  path : SelectionPath

/-- Resolved selections by kind, and the enums among the types of their fields. -/
structure SelectionParts where
  scalars : List SelectedField
  spreads : List Spread
  objects : List ObjectField
  inlines : List InlineFragment
  enums : List (Name × EnumType)

namespace SelectionParts

/-- No selections. -/
def empty : SelectionParts := ⟨[], [], [], [], []⟩

/-- Selections followed by others. -/
def append (a b : SelectionParts) : SelectionParts :=
  ⟨a.scalars ++ b.scalars, a.spreads ++ b.spreads, a.objects ++ b.objects, a.inlines ++ b.inlines,
    a.enums ++ b.enums⟩

/-- Fields without sub-selections, with a `__typename` at their end if there is none among them. -/
def scalarsWithTypename (parts : SelectionParts) : List SelectedField :=
  if parts.scalars.any SelectedField.isTypename then parts.scalars
  else parts.scalars ++ [.typename]

/-- The selection set that resolved selections make up. -/
def assemble (parts : SelectionParts) (type : CompositeType) (traversed : List SelectedField) :
    Except Inconsistency SelectionSet :=
  SelectionSet.mergeInlines {
    typeName := type.name
    kind := type.kind
    traversed := traversed
    scalars := parts.scalarsWithTypename
    spreads := parts.spreads
    objects := ObjectField.flagAmbiguous parts.objects
    inlines := parts.inlines }

end SelectionParts

namespace CompositeType

/-- The declaration of a field: one of the type's own, or else that of `__typename`. -/
def field? (type : CompositeType) (name : Name) : Option FieldDefinition :=
  match type.fields.get? name with
  | some definition => some definition
  | none => if name = typenameField then some .typename else none

end CompositeType

namespace Scope

/-- The scope of the outermost selections of a definition. -/
abbrev start (catalog : Catalog) (fragments : OrderedMap Name Fragment)
    (definition : DefinitionName) : Scope :=
  ⟨catalog, fragments, ⟨definition, []⟩⟩

/-- The scope of the selections inside a field. -/
abbrev enter (s : Scope) (key : Name) : Scope := { s with path := s.path.push key }

/-- The failure for a broken rule. -/
def violation {α : Type} (s : Scope) (location : Option Location) (violation : Violation) :
    Except Failure α :=
  .error (.validation ⟨location, some s.path, violation⟩)

/-- The enum that a field's type comes down to, by name. -/
def enum? (s : Scope) (definition : FieldDefinition) : Option (Name × EnumType) :=
  (s.catalog.enum? definition.type.innermost).map fun type => (definition.type.innermost, type)

/-- Look up the declaration of a selected field. A field whose type is an enum has no
sub-selections. -/
def declaration (s : Scope) (parent : CompositeType) (location : Option Location) (name : Name)
    (hasSelections : Bool) : Except Failure FieldDefinition :=
  match parent.field? name with
  | none => s.violation location (.undefinedField parent.name name)
  | some definition =>
      match s.enum? definition with
      | some (type, _) =>
          if hasSelections then
            s.violation location (.subselectionOnLeafType name type "an enum type")
          else .ok definition
      | none => .ok definition

/-- Check that the spread of a fragment can apply. -/
def checkSpread (s : Scope) (parent : CompositeType) (location : Option Location) (name : Name) :
    Except Failure Unit :=
  match s.fragments.get? name with
  | none => s.violation location (.undefinedFragment name)
  | some fragment =>
      match s.catalog.composite? fragment.condition with
      | none =>
          s.violation fragment.location
            (.undefinedTypeCondition fragment.name fragment.condition)
      | some _ =>
          if parent.isSpreadPossible fragment.condition s.catalog then .ok ()
          else
            s.violation location
              (.impossibleFragmentSpread fragment.name fragment.condition parent.name)

/-- The type on which the selections of an inline fragment are made. -/
def inlineType (s : Scope) (parent : CompositeType) (location : Option Location) :
    Option Name → Except Failure CompositeType
  | none => .ok parent
  | some condition =>
      match s.catalog.composite? condition with
      | none => s.violation location (.undefinedInlineTypeCondition condition)
      | some type =>
          if parent.isSpreadPossible condition s.catalog then .ok type
          else s.violation location (.impossibleInlineFragment condition parent.name)

mutual

/-- Resolve one selection. -/
def resolveSelection (s : Scope) (parent : CompositeType) (traversed : List SelectedField) :
    Selection → Except Failure SelectionParts
  | .field location aliasName name arguments directives selections => do
      let definition ← s.declaration parent location name (!selections.isEmpty)
      let enums := (s.enum? definition).toList
      let type ← (s.catalog.resolve definition.type).mapError .inconsistency
      let field : SelectedField :=
        ⟨location, aliasName, name, definition, type, arguments, directives⟩
      if selections.isEmpty then return ⟨[field], [], [], [], enums⟩
      else
        let nested ← (s.catalog.selectionType definition).mapError (.locate location s.path)
        let inside := s.enter field.responseKey
        let parts ← inside.resolveSelections nested (traversed ++ [field]) selections
        let set ← (parts.assemble nested (traversed ++ [field])).mapError .inconsistency
        return ⟨[], [], [⟨field, set, false⟩], [], enums ++ parts.enums⟩
  | .spread location name directives => do
      s.checkSpread parent location name
      return ⟨[], [⟨location, name, directives⟩], [], [], []⟩
  | .inline location condition directives selections => do
      let nested ← s.inlineType parent location condition
      let parts ← s.resolveSelections nested traversed selections
      let set ← (parts.assemble nested traversed).mapError .inconsistency
      return ⟨[], [], [], [⟨nested.name, directives, set⟩], parts.enums⟩

/-- Resolve selections one after the other. -/
def resolveSelections (s : Scope) (parent : CompositeType) (traversed : List SelectedField) :
    List Selection → Except Failure SelectionParts
  | [] => .ok .empty
  | selection :: rest => do
      let first ← s.resolveSelection parent traversed selection
      let others ← s.resolveSelections parent traversed rest
      return first.append others

end

/-- The selection set that selections on a type make up, and the enums that are selected. -/
def selectionSet (s : Scope) (parent : CompositeType) (traversed : List SelectedField)
    (selections : List Selection) : Except Failure (SelectionSet × List (Name × EnumType)) := do
  let parts ← s.resolveSelections parent traversed selections
  let set ← (parts.assemble parent traversed).mapError .inconsistency
  return (set, parts.enums)

end Scope

end QueryCompiler

import QueryCompiler.SelectionSet.Basic

/-!
# Sorted selection sets

A copy of a selection set whose lists are sorted by the identifiers of their members, at every
depth.
-/

namespace QueryCompiler

/-- A list in the order of its members' names; members with equal names keep their order. -/
def sortByName {α : Type} (name : α → Name) (members : List α) : List α :=
  members.mergeSort fun a b => decide (name a ≤ name b)

namespace SelectionSet

mutual

/-- A selection set with all its lists sorted, at every depth. -/
def sorted : SelectionSet → SelectionSet
  | ⟨typeName, kind, traversed, scalars, spreads, objects, inlines⟩ =>
      ⟨typeName, kind, traversed, sortByName SelectedField.responseKey scalars,
        sortByName Spread.name spreads,
        sortByName (fun o => o.field.responseKey) (sortedObjects objects),
        sortByName InlineFragment.typeIdentifier (sortedInlines inlines)⟩

/-- Fields with their sub-selections sorted. -/
def sortedObjects : List ObjectField → List ObjectField
  | [] => []
  | ⟨field, selectionSet, isAmbiguous⟩ :: rest =>
      ⟨field, sorted selectionSet, isAmbiguous⟩ :: sortedObjects rest

/-- Inline fragments with their selections sorted. -/
def sortedInlines : List InlineFragment → List InlineFragment
  | [] => []
  | ⟨condition, directives, selectionSet⟩ :: rest =>
      ⟨condition, directives, sorted selectionSet⟩ :: sortedInlines rest

end

end SelectionSet

end QueryCompiler

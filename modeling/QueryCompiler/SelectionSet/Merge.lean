import QueryCompiler.SelectionSet.Basic

/-!
# Merging selection sets

Inline fragments that stand side by side under the same type and the same directives become one. Two
selection sets can be merged if they are on the same type and are reached through the same fields.
-/

namespace QueryCompiler

namespace SelectionSet

/-- Put the selections of a second selection set behind those of a first. The first has a
`__typename` already, so that of the second is left out. -/
def merged (a b : SelectionSet) : Except Inconsistency SelectionSet :=
  if a.typeName ≠ b.typeName then .error (.mergeTypeMismatch a.typeName b.typeName)
  else if a.traversed.map SelectedField.strip ≠ b.traversed.map SelectedField.strip then
    .error (.mergePathMismatch a.typeName a.path b.path)
  else
    .ok { a with
      scalars := a.scalars ++ b.scalars.filter fun field => !field.isTypename
      spreads := a.spreads ++ b.spreads
      objects := a.objects ++ b.objects
      inlines := a.inlines ++ b.inlines }

end SelectionSet

namespace InlineFragment

/-- Inline fragments with equal keys are merged: those on the same type with the same signature of
their directives. -/
def mergeKey (i : InlineFragment) : Name × String :=
  (i.selectionSet.typeName, directivesSignature i.directives)

/-- The inline fragments of a list by key, in the order in which the keys appear first. -/
def groups (inlines : List InlineFragment) : List (List InlineFragment) :=
  (inlines.foldl (fun gathered i => gathered.push i.mergeKey i) OrderedMap.empty).values

/-- Merge the selections of an inline fragment into those of another. -/
def absorb (first other : InlineFragment) : Except Inconsistency InlineFragment := do
  return { first with selectionSet := ← first.selectionSet.merged other.selectionSet }

/-- Merge the inline fragments of a group into the first of them. -/
def mergeGroup : List InlineFragment → Except Inconsistency (List InlineFragment)
  | [] => .ok []
  | first :: others => do return [← others.foldlM absorb first]

/-- Merge the inline fragments of a list that have equal keys. What is merged is not merged again
inside. -/
def mergeAll (inlines : List InlineFragment) : Except Inconsistency (List InlineFragment) := do
  return (← (groups inlines).mapM mergeGroup).flatten

end InlineFragment

/-- Merge the inline fragments of a selection set that have equal keys, and leave all else as it
is. -/
def SelectionSet.mergeInlines (s : SelectionSet) : Except Inconsistency SelectionSet := do
  return { s with inlines := ← InlineFragment.mergeAll s.inlines }

namespace ObjectField

/-- Whether more than one field of a list has its sub-selections on the given type. -/
def isShared (objects : List ObjectField) (typeName : Name) : Bool :=
  1 < objects.countP fun o => o.selectionSet.typeName = typeName

/-- Mark the fields whose sub-selections are on the same type as those of another field beside
them. -/
def flagAmbiguous (objects : List ObjectField) : List ObjectField :=
  objects.map fun o => { o with isAmbiguous := isShared objects o.selectionSet.typeName }

end ObjectField

end QueryCompiler

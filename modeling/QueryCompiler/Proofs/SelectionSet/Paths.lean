import QueryCompiler.Proofs.Document.Induction
import QueryCompiler.Proofs.SelectionSet.Resolve

/-!
# Selections with the paths that lead to them

Every selection has a place: the fields and inline fragments around it, from the outside in, where
inline fragments with one merge key count as one. The selections of a document can be listed with
their places, and so can those of a selection set. Resolving a document and merging its inline
fragments moves selections between the two lists only within what one place and kind holds, and
there it keeps their order. So nothing is lost, repeated or invented, apart from `__typename`.
-/

namespace QueryCompiler

open Outcome

/-- What leads from a selection set to one inside it: a field, or the key of inline fragments. -/
inductive PathStep where
  | object (field : SelectedField)
  | inline (key : Name × String)
  deriving DecidableEq

/-- The kinds of selections that have a place of their own. -/
inductive ItemKind where
  | leaf
  | spread
  | object
  deriving DecidableEq

/-- A selection apart from what is inside it. -/
inductive Item where
  | leaf (field : SelectedField)
  | spread (spread : Spread)
  | object (field : SelectedField)
  deriving DecidableEq

/-- The kind of a selection. -/
def Item.kind : Item → ItemKind
  | leaf _ => .leaf
  | spread _ => .spread
  | object _ => .object

/-- A selection with the path that leads to it. -/
structure PlacedItem where
  path : List PathStep
  item : Item
  deriving DecidableEq

namespace PlacedItem

/-- A selection seen from one step further out. -/
def below (step : PathStep) (p : PlacedItem) : PlacedItem := ⟨step :: p.path, p.item⟩

/-- The selections of one kind at the end of a path, in order. -/
def pick (path : List PathStep) (kind : ItemKind) (items : List PlacedItem) : List PlacedItem :=
  items.filter fun p => p.path = path ∧ p.item.kind = kind

end PlacedItem

/-! ### Documents -/

/-- The field that is selected by a field of a document. -/
def CompositeType.selected? (type : CompositeType) (c : Catalog) (location : Option Location)
    (aliasName : Option Name) (name : Name) (arguments : List Argument)
    (directives : List Directive) : Option SelectedField := do
  let definition ← type.field? name
  let resolved ← (c.resolve definition.type).toOption
  return ⟨location, aliasName, name, definition, resolved, arguments, directives⟩

/-- The type on which the selections of an inline fragment are made. -/
def CompositeType.inline? (type : CompositeType) (c : Catalog) :
    Option Name → Option CompositeType
  | none => some type
  | some condition => c.composite? condition

namespace Selection

mutual

/-- The selections that a selection on a type consists of, with their places: fields without
sub-selections other than `__typename`, spreads, and fields with sub-selections. -/
def placed? (c : Catalog) (type : CompositeType) : Selection → Option (List PlacedItem)
  | field location aliasName name arguments directives selections => do
      let field ← type.selected? c location aliasName name arguments directives
      if selections.isEmpty then return if field.isTypename then [] else [⟨[], .leaf field⟩]
      else
        let nested ← c.composite? field.definition.type.innermost
        let inner ← placedAll? c nested selections
        return ⟨[], .object field⟩ :: inner.map (.below (.object field))
  | spread location name directives => some [⟨[], .spread ⟨location, name, directives⟩⟩]
  | inline _ condition directives selections => do
      let nested ← type.inline? c condition
      let inner ← placedAll? c nested selections
      return inner.map (.below (.inline (nested.name, directivesSignature directives)))

/-- The selections that selections on a type consist of, with their places. -/
def placedAll? (c : Catalog) (type : CompositeType) : List Selection → Option (List PlacedItem)
  | [] => some []
  | selection :: rest => do return (← placed? c type selection) ++ (← placedAll? c type rest)

end

end Selection

/-! ### Selection sets -/

namespace SelectionSet

mutual

/-- The selections of a selection set with their places, at every depth. -/
def placed : SelectionSet → List PlacedItem
  | ⟨_, _, _, scalars, spreads, objects, inlines⟩ =>
      (scalars.filter fun field => !field.isTypename).map (fun field => ⟨[], .leaf field⟩) ++
        spreads.map (fun spread => ⟨[], .spread spread⟩) ++ placedObjects objects ++
          placedInlines inlines

/-- Fields with sub-selections, and what is below them. -/
def placedObjects : List ObjectField → List PlacedItem
  | [] => []
  | ⟨field, selectionSet, _⟩ :: rest =>
      ⟨[], .object field⟩ :: (placed selectionSet).map (.below (.object field)) ++
        placedObjects rest

/-- What is below inline fragments. -/
def placedInlines : List InlineFragment → List PlacedItem
  | [] => []
  | ⟨_, directives, selectionSet⟩ :: rest =>
      (placed selectionSet).map
          (.below (.inline (selectionSet.typeName, directivesSignature directives))) ++
        placedInlines rest

end

end SelectionSet

/-- A field with sub-selections, and what is below it. -/
def ObjectField.placed (o : ObjectField) : List PlacedItem :=
  ⟨[], .object o.field⟩ :: o.selectionSet.placed.map (.below (.object o.field))

/-- What is below an inline fragment. -/
def InlineFragment.placed (i : InlineFragment) : List PlacedItem :=
  i.selectionSet.placed.map (.below (.inline i.mergeKey))

/-- The four lists that the selections of a level stand in. -/
inductive PlacedGroup where
  | leaves
  | spreads
  | objects
  | inlines

/-- The list in which the selections of a kind at the end of a path are found. -/
def PlacedGroup.of : List PathStep → ItemKind → PlacedGroup
  | [], .leaf => leaves
  | [], .spread => spreads
  | [], .object => objects
  | .object _ :: _, _ => objects
  | .inline _ :: _, _ => inlines

namespace SelectionParts

/-- The selections that one of the lists of resolved selections consists of, with their places. -/
def group (parts : SelectionParts) : PlacedGroup → List PlacedItem
  | .leaves =>
      (parts.scalars.filter fun field => !field.isTypename).map fun field => ⟨[], .leaf field⟩
  | .spreads => parts.spreads.map fun spread => ⟨[], .spread spread⟩
  | .objects => parts.objects.flatMap ObjectField.placed
  | .inlines => parts.inlines.flatMap InlineFragment.placed

/-- The selections that resolved selections consist of, with their places. -/
def placed (parts : SelectionParts) : List PlacedItem :=
  parts.group .leaves ++ parts.group .spreads ++ parts.group .objects ++ parts.group .inlines

end SelectionParts

namespace SelectionSet

/-- The lists of a selection set. -/
def parts (s : SelectionSet) : SelectionParts := ⟨s.scalars, s.spreads, s.objects, s.inlines, []⟩

private theorem placedObjects_eq (objects : List ObjectField) :
    placedObjects objects = objects.flatMap ObjectField.placed := by
  induction objects with
  | nil => rfl
  | cons first rest ih =>
      cases first
      rw [placedObjects, ih, List.flatMap_cons]
      rfl

private theorem placedInlines_eq (inlines : List InlineFragment) :
    placedInlines inlines = inlines.flatMap InlineFragment.placed := by
  induction inlines with
  | nil => rfl
  | cons first rest ih =>
      cases first
      rw [placedInlines, ih, List.flatMap_cons]
      rfl

/-- The items of a selection set are those of its parts. -/
theorem placed_eq (s : SelectionSet) : s.placed = s.parts.placed := by
  cases s
  rw [placed, placedObjects_eq, placedInlines_eq]
  rfl

end SelectionSet

/-! ### One place at a time -/

namespace PlacedItem

/-- Items are picked from one row after the other. -/
theorem pick_append (path : List PathStep) (kind : ItemKind) (a b : List PlacedItem) :
    pick path kind (a ++ b) = pick path kind a ++ pick path kind b :=
  List.filter_append a b

private theorem pick_flatMap {α : Type} (path : List PathStep) (kind : ItemKind)
    (f : α → List PlacedItem) (members : List α) :
    pick path kind (members.flatMap f) = members.flatMap fun a => pick path kind (f a) :=
  List.filter_flatMap

private theorem pick_nil_map_below (step : PathStep) (kind : ItemKind) (items : List PlacedItem) :
    pick [] kind (items.map (below step)) = [] := by
  simp [pick, below]

/-- What is one step further in is found by taking the step. -/
theorem pick_cons_map_below (first step : PathStep) (path : List PathStep) (kind : ItemKind)
    (items : List PlacedItem) :
    pick (first :: path) kind (items.map (below step)) =
      if step = first then (pick path kind items).map (below step) else [] := by
  by_cases h : step = first
  · subst h
    have hpath : ∀ p : PlacedItem, ((below step p).path = step :: path) = (p.path = path) := by
      simp [below]
    have hitem : ∀ p : PlacedItem, (below step p).item = p.item := fun _ => rfl
    simp only [pick, List.filter_map, Function.comp_def, hpath, hitem, if_true]
  · simp [pick, below, h]

/-- Two lists agree if at the end of every path they have the same selections of each kind, in the
same order. -/
def Agree (a b : List PlacedItem) : Prop := ∀ path kind, pick path kind a = pick path kind b

theorem Agree.trans {a b c : List PlacedItem} (hab : Agree a b) (hbc : Agree b c) : Agree a c :=
  fun path kind => (hab path kind).trans (hbc path kind)

/-- Rows of items agree if their halves do. -/
theorem Agree.append {a b a' b' : List PlacedItem} (ha : Agree a a') (hb : Agree b b') :
    Agree (a ++ b) (a' ++ b') := by
  intro path kind
  rw [pick_append, pick_append, ha, hb]

/-- Items that agree do so one step deeper. -/
theorem Agree.map_below {a b : List PlacedItem} (h : Agree a b) (step : PathStep) :
    Agree (a.map (below step)) (b.map (below step)) := by
  intro path kind
  cases path with
  | nil => rw [pick_nil_map_below, pick_nil_map_below]
  | cons first rest => rw [pick_cons_map_below, pick_cons_map_below, h]

/-- Lists that agree hold the same selections at the same places, each as often. -/
theorem Agree.perm {a b : List PlacedItem} (h : Agree a b) : a.Perm b := by
  rw [List.perm_iff_count]
  intro p
  have hpicked : ∀ items : List PlacedItem,
      (pick p.path p.item.kind items).count p = items.count p := by
    intro items
    exact List.count_filter (by simp)
  rw [← hpicked a, ← hpicked b, h]

end PlacedItem

open PlacedItem

/-! ### Merging -/

namespace SelectionParts

/-- Every selection stands in the list that its place and kind tell. -/
theorem groupOf_eq_of_mem {parts : SelectionParts} {group : PlacedGroup} {p : PlacedItem}
    (h : p ∈ parts.group group) : PlacedGroup.of p.path p.item.kind = group := by
  cases group with
  | leaves =>
      obtain ⟨_, _, rfl⟩ := List.mem_map.mp h
      rfl
  | spreads =>
      obtain ⟨_, _, rfl⟩ := List.mem_map.mp h
      rfl
  | objects =>
      obtain ⟨o, _, hp⟩ := List.mem_flatMap.mp h
      rcases List.mem_cons.mp hp with rfl | hbelow
      · rfl
      · obtain ⟨_, _, rfl⟩ := List.mem_map.mp hbelow
        rfl
  | inlines =>
      obtain ⟨i, _, hp⟩ := List.mem_flatMap.mp h
      obtain ⟨_, _, rfl⟩ := List.mem_map.mp hp
      rfl

/-- An item is picked from its own group only. -/
theorem pick_group_eq_nil {parts : SelectionParts} {path : List PathStep} {kind : ItemKind}
    {group : PlacedGroup} (h : PlacedGroup.of path kind ≠ group) :
    pick path kind (parts.group group) = [] := by
  rw [pick, List.filter_eq_nil_iff]
  intro p hp hpicked
  obtain ⟨hpath, hkind⟩ := of_decide_eq_true hpicked
  apply h
  rw [← hpath, ← hkind]
  exact groupOf_eq_of_mem hp

/-- What is found at a place is found in one of the four lists. -/
theorem pick_placed (parts : SelectionParts) (path : List PathStep) (kind : ItemKind) :
    pick path kind parts.placed = pick path kind (parts.group (.of path kind)) := by
  simp only [placed, pick_append]
  cases h : PlacedGroup.of path kind with
  | leaves => simp [pick_group_eq_nil, h]
  | spreads => simp [pick_group_eq_nil, h]
  | objects => simp [pick_group_eq_nil, h]
  | inlines => simp [pick_group_eq_nil, h]

private theorem placed_leaf (f : SelectedField) (enums : List (Name × EnumType)) :
    (⟨[f], [], [], [], enums⟩ : SelectionParts).placed =
      if f.isTypename then [] else [⟨[], .leaf f⟩] := by
  by_cases h : f.isTypename = true
  · simp [placed, group, h]
  · simp [placed, group, h]

private theorem placed_object (o : ObjectField) (enums : List (Name × EnumType)) :
    (⟨[], [], [o], [], enums⟩ : SelectionParts).placed = o.placed := by
  simp [placed, group]

private theorem placed_inline (i : InlineFragment) (enums : List (Name × EnumType)) :
    (⟨[], [], [], [i], enums⟩ : SelectionParts).placed = i.placed := by
  simp [placed, group]

private theorem group_append (a b : SelectionParts) (group : PlacedGroup) :
    (a.append b).group group = a.group group ++ b.group group := by
  cases group with
  | leaves => simp [SelectionParts.group, append]
  | spreads => simp [SelectionParts.group, append]
  | objects => simp [SelectionParts.group, append]
  | inlines => simp [SelectionParts.group, append]

/-- Selections that follow others follow them at every place. -/
theorem agree_append (a b : SelectionParts) : Agree (a.placed ++ b.placed) (a.append b).placed := by
  intro path kind
  rw [pick_append, pick_placed, pick_placed, pick_placed, group_append, pick_append]

end SelectionParts

/-- The groups of selection sets put together. -/
theorem SelectionSet.group_parts_followedBy (a : SelectionSet) (others : List SelectionSet)
    (group : PlacedGroup) :
    (a.followedBy others).parts.group group =
      a.parts.group group ++ others.flatMap fun b => b.parts.group group := by
  cases group with
  | leaves => simp [SelectionParts.group, parts, followedBy, List.filter_flatMap, List.map_flatMap]
  | spreads => simp [SelectionParts.group, parts, followedBy, List.map_flatMap]
  | objects => simp [SelectionParts.group, parts, followedBy, List.flatMap_assoc]
  | inlines => simp [SelectionParts.group, parts, followedBy, List.flatMap_assoc]

/-- What is found at a place in merged selection sets is what is found there in each of them. -/
theorem SelectionSet.pick_placed_followedBy (a : SelectionSet) (others : List SelectionSet)
    (path : List PathStep) (kind : ItemKind) :
    pick path kind (a.followedBy others).placed =
      (a :: others).flatMap fun b => pick path kind b.placed := by
  simp only [placed_eq, SelectionParts.pick_placed, List.flatMap_cons, group_parts_followedBy,
    pick_append, pick_flatMap]

/-- What is found at a place below inline fragments is the same before and after merging them. -/
theorem InlineFragment.agree_unitedAll (inlines : List InlineFragment) :
    Agree (inlines.flatMap InlineFragment.placed)
      ((unitedAll inlines).flatMap InlineFragment.placed) := by
  intro path kind
  rw [pick_flatMap, pick_flatMap]
  -- Nothing but a path that starts with their key leads into inline fragments.
  have hnone : (∀ i : InlineFragment, pick path kind i.placed = []) →
      ∀ members : List InlineFragment, members.flatMap (fun i => pick path kind i.placed) = [] :=
    fun h members => List.flatMap_eq_nil_iff.mpr fun i _ => h i
  cases path with
  | nil =>
      have hplaced : ∀ i : InlineFragment, pick [] kind i.placed = [] := fun i =>
        pick_nil_map_below _ kind _
      rw [hnone hplaced, hnone hplaced]
  | cons step rest =>
      cases step with
      | object field =>
          have hplaced : ∀ i : InlineFragment, pick (.object field :: rest) kind i.placed = [] := by
            simp [InlineFragment.placed, pick_cons_map_below]
          rw [hnone hplaced, hnone hplaced]
      | inline key =>
          have hkey : ∀ i : InlineFragment, pick (.inline key :: rest) kind i.placed =
              if i.mergeKey = key then
                (pick rest kind i.selectionSet.placed).map (below (.inline key))
              else [] := by
            intro i
            rw [InlineFragment.placed, pick_cons_map_below]
            by_cases h : i.mergeKey = key
            · simp [h]
            · simp [h]
          simp only [hkey, flatMap_ite_eq_flatMap_filter]
          refine (flatMap_filter_unitedAll ?_ inlines key).symm
          intro first others
          rw [followedBy, SelectionSet.pick_placed_followedBy, List.map_flatMap,
            List.flatMap_cons, List.flatMap_cons, List.flatMap_map]

/-- Making up a selection set leaves everything at its place. -/
theorem SelectionParts.agree_united (parts : SelectionParts) (type : CompositeType)
    (traversed : List SelectedField) :
    Agree parts.placed (parts.united type traversed).placed := by
  have hleaves : (parts.united type traversed).parts.group .leaves = parts.group .leaves := by
    simp only [group, SelectionSet.parts, united, scalarsWithTypename]
    split
    · rfl
    · simp [SelectedField.typename, SelectedField.isTypename]
  have hobjects : (parts.united type traversed).parts.group .objects = parts.group .objects := by
    simp only [group, SelectionSet.parts, united, ObjectField.flagAmbiguous, List.flatMap_map]
    rfl
  rw [SelectionSet.placed_eq]
  simp only [placed, hleaves, hobjects]
  exact Agree.append (fun _ _ => rfl) (InlineFragment.agree_unitedAll parts.inlines)

/-! ### Resolving -/

/-- A declared field is selected as it is written. -/
theorem CompositeType.selected?_eq_some {type : CompositeType} {c : Catalog} {name : Name}
    {definition : FieldDefinition} {resolved : ResolvedType} (location : Option Location)
    (aliasName : Option Name) (arguments : List Argument) (directives : List Directive)
    (hdeclares : type.Declares name definition)
    (hresolved : c.resolve definition.type = .ok resolved) :
    type.selected? c location aliasName name arguments directives =
      some ⟨location, aliasName, name, definition, resolved, arguments, directives⟩ := by
  simp [selected?, field?_eq_some_iff.mpr hdeclares, hresolved, Except.toOption]

/-- An inline fragment is on the type that its condition names. -/
theorem CompositeType.inline?_eq_some {type on : CompositeType} {c : Catalog}
    {condition : Option Name} (h : c.InlineOn type condition on) :
    type.inline? c condition = some on := by
  cases h with
  | bare => rfl
  | condition hon _ => exact hon

namespace Selection

variable {c : Catalog} {type nested : CompositeType} {location : Option Location}
  {aliasName : Option Name} {name : Name} {arguments : List Argument}
  {directives : List Directive} {items : List PlacedItem}

private theorem placed?_leaf {f : SelectedField}
    (hf : type.selected? c location aliasName name arguments directives = some f) :
    (field location aliasName name arguments directives []).placed? c type =
      some (if f.isTypename then [] else [⟨[], .leaf f⟩]) := by
  rw [placed?, hf]
  rfl

private theorem placed?_object {f : SelectedField} {first : Selection} {rest : List Selection}
    (hf : type.selected? c location aliasName name arguments directives = some f)
    (hnested : c.composite? f.definition.type.innermost = some nested)
    (hitems : placedAll? c nested (first :: rest) = some items) :
    (field location aliasName name arguments directives (first :: rest)).placed? c type =
      some (⟨[], .object f⟩ :: items.map (below (.object f))) := by
  simp [placed?, hf, hnested, hitems]

private theorem placed?_inline {condition : Option Name} {selections : List Selection}
    (hnested : type.inline? c condition = some nested)
    (hitems : placedAll? c nested selections = some items) :
    (inline location condition directives selections).placed? c type =
      some (items.map (below (.inline (nested.name, directivesSignature directives)))) := by
  simp [placed?, hnested, hitems]

end Selection

namespace Scope

variable {s : Scope} {type : CompositeType} {traversed : List SelectedField}

/-- Selections stay at their places if each of them does. -/
theorem agree_of_resolveSelections {selections : List Selection} {parts : SelectionParts}
    (hall : ∀ selection ∈ selections, ∀ parts,
      s.resolveSelection type traversed selection = .ok parts →
        ∃ items, selection.placed? s.catalog type = some items ∧ Agree items parts.placed)
    (h : s.resolveSelections type traversed selections = .ok parts) :
    ∃ items, Selection.placedAll? s.catalog type selections = some items ∧
      Agree items parts.placed := by
  induction selections generalizing parts with
  | nil =>
      obtain rfl := resolveSelections_nil_eq_ok_iff.mp h
      exact ⟨[], rfl, fun _ _ => rfl⟩
  | cons selection rest ih =>
      obtain ⟨first, others, hfirst, hothers, rfl⟩ := resolveSelections_cons_eq_ok_iff.mp h
      obtain ⟨hselection, hrest⟩ := List.forall_mem_cons.mp hall
      obtain ⟨own, hown, hagree⟩ := hselection first hfirst
      obtain ⟨items, hitems, hagrees⟩ := ih hrest hothers
      refine ⟨own ++ items, by simp [Selection.placedAll?, hown, hitems], ?_⟩
      exact (hagree.append hagrees).trans (SelectionParts.agree_append first others)

/-- The selection set that selections make up has everything at its place, if each selection keeps
its places. -/
theorem agree_of_selectionSet {selections : List Selection} {set : SelectionSet}
    {enums : List (Name × EnumType)}
    (hall : ∀ selection ∈ selections, ∀ parts,
      s.resolveSelection type traversed selection = .ok parts →
        ∃ items, selection.placed? s.catalog type = some items ∧ Agree items parts.placed)
    (h : s.selectionSet type traversed selections = .ok (set, enums)) :
    ∃ items, Selection.placedAll? s.catalog type selections = some items ∧
      Agree items set.placed := by
  obtain ⟨parts, hparts, rfl, _⟩ := selectionSet_eq_ok_iff.mp h
  obtain ⟨items, hitems, hagree⟩ := agree_of_resolveSelections hall hparts
  exact ⟨items, hitems, hagree.trans (parts.agree_united type traversed)⟩

/-- What a selection becomes has everything at the place that it has in the document. -/
theorem agree_of_resolveSelection {selection : Selection} {parts : SelectionParts}
    (h : s.resolveSelection type traversed selection = .ok parts) :
    ∃ items, selection.placed? s.catalog type = some items ∧ Agree items parts.placed := by
  induction selection generalizing s type traversed parts with
  | field location aliasName name arguments directives selections ih =>
      cases selections with
      | nil =>
          obtain ⟨definition, resolved, hdeclares, hresolved, rfl⟩ :=
            resolveSelection_leaf_eq_ok_iff.mp h
          have hfield := CompositeType.selected?_eq_some location aliasName arguments directives
            hdeclares hresolved
          refine ⟨_, Selection.placed?_leaf hfield, ?_⟩
          rw [SelectionParts.placed_leaf]
          exact fun _ _ => rfl
      | cons first rest =>
          obtain ⟨definition, resolved, nested, set, enums, hdeclares, hresolved, hnested, hset,
            rfl⟩ := resolveSelection_object_eq_ok_iff.mp h
          obtain ⟨items, hitems, hagree⟩ :=
            agree_of_selectionSet (fun selection hmem _ => ih selection hmem) hset
          have hfield := CompositeType.selected?_eq_some location aliasName arguments directives
            hdeclares hresolved
          refine ⟨_, Selection.placed?_object hfield hnested hitems, ?_⟩
          rw [SelectionParts.placed_object]
          exact Agree.append (a := [_]) (fun _ _ => rfl) (hagree.map_below _)
  | spread location name directives =>
      obtain ⟨_, rfl⟩ := resolveSelection_spread_eq_ok_iff.mp h
      exact ⟨_, rfl, fun _ _ => rfl⟩
  | inline location condition directives selections ih =>
      obtain ⟨nested, set, enums, hon, hset, rfl⟩ := resolveSelection_inline_eq_ok_iff.mp h
      obtain ⟨items, hitems, hagree⟩ :=
        agree_of_selectionSet (fun selection hmem _ => ih selection hmem) hset
      refine ⟨_, Selection.placed?_inline (CompositeType.inline?_eq_some hon) hitems, ?_⟩
      rw [SelectionParts.placed_inline]
      -- The key of an inline fragment holds the name of the type that its selections are made on.
      have hkey : InlineFragment.mergeKey ⟨nested.name, directives, set⟩ =
          (nested.name, directivesSignature directives) :=
        congrArg (·, directivesSignature directives) (typeName_of_selectionSet hset)
      rw [InlineFragment.placed, hkey]
      exact hagree.map_below _

/-- Resolving and merging loses, repeats and invents nothing but fields named `__typename`: the
selections of a document and those of its selection set are the same, each as often and at the same
place. Fields at one place stay in the order of the document. -/
theorem placed_perm_of_selectionSet {selections : List Selection} {set : SelectionSet}
    {enums : List (Name × EnumType)}
    (h : s.selectionSet type traversed selections = .ok (set, enums)) :
    ∃ items, Selection.placedAll? s.catalog type selections = some items ∧
      items.Perm set.placed ∧ ∀ path, pick path .leaf items = pick path .leaf set.placed := by
  obtain ⟨items, hitems, hagree⟩ :=
    agree_of_selectionSet (fun _ _ _ => agree_of_resolveSelection) h
  exact ⟨items, hitems, hagree.perm, fun path => hagree path .leaf⟩

end Scope

/-- The fields of a person. -/
def FieldDefinition.person : OrderedMap Name FieldDefinition := .ofList [
  ("id", ⟨"id", none, [], .nonNull (.named "ID"), false, none⟩),
  ("name", ⟨"name", none, [], .named "String", false, none⟩),
  ("friend", ⟨"friend", none, [], .named "Person", false, none⟩)]

/-- An object type and an interface that it implements. -/
def Catalog.person : Catalog where
  outputSchemaName := "Schema"
  queryType := "Person"
  mutationType := none
  subscriptionType := none
  types := .ofList [
    ("Person", .object ⟨"Person", none, ["Node"], FieldDefinition.person⟩),
    ("Node", .interface ⟨"Node", none, [], FieldDefinition.person, ["Person"], []⟩)]
  warnings := []

/-- Two inline fragments on one type, with two more inside them that are on one type again. -/
def Selection.nestedInlines : List Selection := [
  .inline none (some "Person") [] [
    .field none none "id" [] [] [],
    .inline none (some "Node") [] [.field none none "id" [] [] []]],
  .field none none "id" [] [] [],
  .inline none (some "Person") [] [
    .field none none "name" [] [] [],
    .field none none "friend" [] [] [.field none none "id" [] [] []],
    .inline none (some "Node") [] [.field none none "name" [] [] []]]]

namespace Scope

/-- The outer inline fragments become one, and all of their selections are still there. -/
theorem placed_perm_nestedInlines :
    let s := Scope.start .person .empty (.fragment "Parts")
    ∃ type set enums items, s.catalog.composite? "Node" = some type ∧
      s.selectionSet type [] Selection.nestedInlines = .ok (set, enums) ∧
      set.inlines.length = 1 ∧ set.placed.length = 7 ∧
      Selection.placedAll? s.catalog type Selection.nestedInlines = some items ∧
      items.Perm set.placed := by
  intro s
  have hcomputed : ((s.catalog.composite? "Node").bind fun type =>
      (s.selectionSet type [] Selection.nestedInlines).toOption.map fun result =>
        (result.1.inlines.length, result.1.placed.length)) = some (1, 7) := by
    decide +kernel
  simp only [Option.bind_eq_some_iff, Option.map_eq_some_iff, toOption_eq_some_iff] at hcomputed
  obtain ⟨type, htype, ⟨set, enums⟩, hset, hlengths⟩ := hcomputed
  obtain ⟨hinlines, hplaced⟩ := Prod.mk.inj hlengths
  obtain ⟨items, hitems, hperm, _⟩ := placed_perm_of_selectionSet hset
  exact ⟨type, set, enums, items, htype, hset, hinlines, hplaced, hitems, hperm⟩

end Scope

end QueryCompiler

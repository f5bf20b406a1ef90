import Mathlib.Data.List.Basic
import QueryCompiler.Proofs.Document.Locations
import QueryCompiler.Proofs.Document.Tokens

/-!
# The tree of locations

The locations of a node and of the nodes in it form a tree, in which the nodes directly inside a
node stand in the order in which they are written. The tree is nested if every node lies inside the
one that contains it, and no two nodes side by side overlap.
-/

namespace QueryCompiler

/-- The location of a node, with the trees of the nodes directly inside it. -/
inductive Outline where
  | node (location : Option Location) (children : List Outline)

/-- A range of at least one byte that begins and ends where a character of a text does. -/
structure Location.Placed (text : String) (file : FileId) (l : Location) : Prop where
  file_eq : l.file = file
  start_lt_stop : l.start < l.stop
  stop_le : l.stop ≤ text.utf8ByteSize
  start_boundary : Boundary text l.start
  stop_boundary : Boundary text l.stop

namespace Outline

/-- The location of the node at the root. -/
def location : Outline → Option Location
  | node location _ => location

/-- The trees directly inside the node at the root. -/
def children : Outline → List Outline
  | node _ children => children

mutual

/-- All locations in a tree, each in front of those inside it. -/
def locations : Outline → List (Option Location)
  | node location children => location :: locationsAll children

/-- All locations in trees side by side. -/
def locationsAll : List Outline → List (Option Location)
  | [] => []
  | outline :: rest => outline.locations ++ locationsAll rest

end

/-- The nodes of a row of trees are those of each of them. -/
theorem locationsAll_eq_flatMap (outlines : List Outline) :
    locationsAll outlines = outlines.flatMap locations := by
  induction outlines with
  | nil => rfl
  | cons outline rest ih => rw [locationsAll, ih, List.flatMap_cons]

/-- A tree that ends before another one begins. -/
def Before (first second : Outline) : Prop :=
  ∀ a ∈ first.location, ∀ b ∈ second.location, a.stop ≤ b.start

/-- A tree that lies in a range. -/
def Inside (outline : Outline) (range : Location) : Prop :=
  ∀ a ∈ outline.location, range.start ≤ a.start ∧ a.stop ≤ range.stop

/-- A tree whose nodes all have places in a text, each with the nodes directly inside it one behind
the other. -/
inductive Nested (text : String) (file : FileId) : Outline → Prop
  | node {location : Location} {children : List Outline} : location.Placed text file →
      (∀ child ∈ children, child.Nested text file) → (∀ child ∈ children, child.Inside location) →
      children.Pairwise Before → Nested text file (.node (some location) children)

end Outline

/-! ### The trees of nodes -/

namespace Value

mutual

/-- The tree of a value. -/
def outline : Value → Outline
  | atom location _ => .node location []
  | list location items => .node location (outlineItems items)
  | object location fields => .node location (outlineFields fields)

/-- The trees of list items. -/
def outlineItems : List Value → List Outline
  | [] => []
  | item :: rest => item.outline :: outlineItems rest

/-- The trees of the values of object fields. -/
def outlineFields : List (Name × Value) → List Outline
  | [] => []
  | (_, value) :: rest => value.outline :: outlineFields rest

end

/-- The trees of a list are those of its items. -/
theorem outlineItems_eq_map (items : List Value) : outlineItems items = items.map outline := by
  induction items with
  | nil => rfl
  | cons item rest ih => rw [outlineItems, ih, List.map_cons]

/-- The trees of an object are those of its field values. -/
theorem outlineFields_eq_map (fields : List (Name × Value)) :
    outlineFields fields = fields.map fun field => field.2.outline := by
  induction fields with
  | nil => rfl
  | cons field rest ih => rw [outlineFields, ih, List.map_cons]

/-- A value that is told another location keeps what is inside it. -/
theorem outline_relocate (value : Value) (location : Option Location) :
    (value.relocate location).outline = .node location value.outline.children := by
  cases value <;> rfl

end Value

/-- The tree of an argument. -/
def Argument.outline (a : Argument) : Outline := .node a.location [a.value.outline]

/-- The tree of a directive. -/
def Directive.outline (d : Directive) : Outline :=
  .node d.location (d.arguments.map Argument.outline)

namespace Selection

mutual

/-- The tree of a selection. -/
def outline : Selection → Outline
  | field location _ _ arguments directives selections =>
      .node location (arguments.map Argument.outline ++ directives.map Directive.outline ++
        outlineAll selections)
  | spread location _ directives => .node location (directives.map Directive.outline)
  | inline location _ directives selections =>
      .node location (directives.map Directive.outline ++ outlineAll selections)

/-- The trees of selections. -/
def outlineAll : List Selection → List Outline
  | [] => []
  | selection :: rest => selection.outline :: outlineAll rest

end

/-- The trees of selections are those of each of them. -/
theorem outlineAll_eq_map (selections : List Selection) :
    outlineAll selections = selections.map outline := by
  induction selections with
  | nil => rfl
  | cons selection rest ih => rw [outlineAll, ih, List.map_cons]

end Selection

/-- The tree of a variable, with that of its type. -/
def VariableDefinition.outline (v : VariableDefinition) : Outline :=
  .node v.location (.node v.typeLocation [] :: (v.defaultValue.toList.map Value.outline ++
    v.directives.map Directive.outline))

/-- The tree of an operation. -/
def Operation.outline (o : Operation) : Outline :=
  .node o.location (o.parameters.map VariableDefinition.outline ++
    o.directives.map Directive.outline ++ o.selections.map Selection.outline)

/-- The tree of a fragment. -/
def Fragment.outline (f : Fragment) : Outline :=
  .node f.location (f.directives.map Directive.outline ++ f.selections.map Selection.outline)

/-- The tree of a definition. -/
def Definition.outline : Definition → Outline
  | operation o => o.outline
  | fragment f => f.outline
  | typeSystem location _ => .node location []

/-! ### No node is left out -/

/-- Trees that leave out no node of one thing leave out none of a row of things. -/
theorem Outline.flatMap_locations_map {α : Type} {f : α → Outline}
    {g : α → List (Option Location)} {as : List α} (h : ∀ a ∈ as, (f a).locations = g a) :
    (as.map f).flatMap locations = as.flatMap g := by
  rw [List.flatMap_map]
  exact List.flatMap_congr h

open Outline (flatMap_locations_map locationsAll_eq_flatMap)

/-- The tree of a value has the nodes of the value. -/
theorem Value.locations_outline (value : Value) : value.outline.locations = value.locations := by
  induction value with
  | atom location content => rfl
  | list location items ih =>
      rw [outline, Outline.locations, locationsAll_eq_flatMap, outlineItems_eq_map,
        flatMap_locations_map ih, locations, locationsItems_eq_flatMap]
  | object location fields ih =>
      rw [outline, Outline.locations, locationsAll_eq_flatMap, outlineFields_eq_map,
        flatMap_locations_map ih, locations, locationsFields_eq_flatMap]

/-- The tree of an argument has the nodes of the argument. -/
theorem Argument.locations_outline (a : Argument) : a.outline.locations = a.locations := by
  rw [outline, Outline.locations, locationsAll_eq_flatMap, List.flatMap_singleton,
    Value.locations_outline, locations]

/-- The tree of a directive has the nodes of the directive. -/
theorem Directive.locations_outline (d : Directive) : d.outline.locations = d.locations := by
  rw [outline, Outline.locations, locationsAll_eq_flatMap,
    flatMap_locations_map fun a _ => a.locations_outline, locations]

/-- The tree of a selection has the nodes of the selection. -/
theorem Selection.locations_outline (selection : Selection) :
    selection.outline.locations = selection.locations := by
  have harguments (arguments : List Argument) :=
    @flatMap_locations_map _ _ _ arguments fun a _ => a.locations_outline
  have hdirectives (directives : List Directive) :=
    @flatMap_locations_map _ _ _ directives fun d _ => d.locations_outline
  induction selection with
  | field location aliasName name arguments directives selections ih =>
      rw [outline, Outline.locations, Outline.locationsAll_eq_flatMap, outlineAll_eq_map,
        List.flatMap_append, List.flatMap_append, harguments, hdirectives,
        flatMap_locations_map ih, locations, locationsAll_eq_flatMap]
  | spread location name directives =>
      rw [outline, Outline.locations, Outline.locationsAll_eq_flatMap, hdirectives, locations]
  | inline location condition directives selections ih =>
      rw [outline, Outline.locations, Outline.locationsAll_eq_flatMap, outlineAll_eq_map,
        List.flatMap_append, hdirectives, flatMap_locations_map ih, locations,
        locationsAll_eq_flatMap]

/-- The tree of a variable definition has the nodes of the definition. -/
theorem VariableDefinition.locations_outline (v : VariableDefinition) :
    v.outline.locations = v.locations := by
  rw [outline, Outline.locations, locationsAll_eq_flatMap, List.flatMap_cons, List.flatMap_append,
    flatMap_locations_map fun value _ => value.locations_outline,
    flatMap_locations_map fun d _ => d.locations_outline, locations]
  rfl

/-- The tree of a definition has the locations of all nodes in it. -/
theorem Definition.locations_outline (definition : Definition) :
    definition.outline.locations = definition.locations := by
  cases definition with
  | typeSystem location description => rfl
  | operation o =>
      rw [outline, Operation.outline, Outline.locations, locationsAll_eq_flatMap,
        List.flatMap_append, List.flatMap_append,
        flatMap_locations_map fun v _ => v.locations_outline,
        flatMap_locations_map fun d _ => d.locations_outline,
        flatMap_locations_map fun selection _ => selection.locations_outline, locations,
        Operation.locations]
  | fragment f =>
      rw [outline, Fragment.outline, Outline.locations, locationsAll_eq_flatMap,
        List.flatMap_append, flatMap_locations_map fun d _ => d.locations_outline,
        flatMap_locations_map fun selection _ => selection.locations_outline, locations,
        Fragment.locations]

/-! ### Rows of nodes -/

namespace Outline

/-- Trees that stand one behind the other between two offsets of a text, each with those inside it
between its own start and stop in the same way. -/
inductive Row (text : String) (file : FileId) : Nat → Nat → List Outline → Prop
  | nil {low high : Nat} : Row text file low high []
  | cons {low high : Nat} {location : Location} {children rest : List Outline} :
      location.Placed text file → low ≤ location.start → location.stop ≤ high →
      Row text file location.start location.stop children →
      Row text file location.stop high rest →
      Row text file low high (.node (some location) children :: rest)

namespace Row

variable {text : String} {file : FileId} {low high : Nat} {row : List Outline}

/-- A row keeps within wider bounds. -/
theorem widen (h : Row text file low high row) {less more : Nat} (hless : less ≤ low)
    (hmore : high ≤ more) : Row text file less more row := by
  induction h generalizing less with
  | nil => exact .nil
  | cons hplaced hlow hhigh hchildren _ _ ih =>
      exact .cons hplaced (by omega) (by omega) hchildren (ih (Nat.le_refl _) hmore)

/-- Rows can be put one behind the other if the first ends where the second may begin. -/
theorem append {between next : Nat} {others : List Outline} (h : Row text file low between row)
    (hothers : Row text file next high others) (hnext : between ≤ next) (hlow : low ≤ next)
    (hhigh : between ≤ high) : Row text file low high (row ++ others) := by
  induction h with
  | nil => exact hothers.widen hlow (Nat.le_refl _)
  | cons hplaced hstart hstop hchildren _ _ ih =>
      exact .cons hplaced hstart (by omega) hchildren (ih hnext (by omega) hhigh)

/-- What stands inside the only tree of a row stands in the range of the row. -/
theorem children {outline : Outline} (h : Row text file low high [outline]) :
    Row text file low high outline.children := by
  cases h with
  | cons _ hlow hhigh hinner _ => exact hinner.widen hlow hhigh

/-- The trees of a row lie in its range. -/
theorem bounds (h : Row text file low high row) :
    ∀ outline ∈ row, ∀ a ∈ outline.location, low ≤ a.start ∧ a.stop ≤ high := by
  induction h with
  | nil => exact List.forall_mem_nil _
  | cons hplaced hlow hhigh _ _ _ ih =>
      refine List.forall_mem_cons.mpr ⟨?_, ?_⟩
      · rintro _ ⟨⟩
        exact ⟨hlow, hhigh⟩
      · intro outline houtline a ha
        have hbounds := ih outline houtline a ha
        have hstart := hplaced.start_lt_stop
        omega

/-- Of two trees of a row, the one that is listed first ends before the other begins. -/
theorem pairwise_before (h : Row text file low high row) : row.Pairwise Before := by
  induction h with
  | nil => exact .nil
  | cons _ _ _ _ hrest _ ih =>
      refine .cons ?_ ih
      rintro outline houtline _ ⟨⟩ b hb
      exact (hrest.bounds outline houtline b hb).1

/-- The trees of a row are nested. -/
theorem nested (h : Row text file low high row) : ∀ outline ∈ row, outline.Nested text file := by
  induction h with
  | nil => exact List.forall_mem_nil _
  | cons hplaced _ _ hchildren _ ihchildren ih =>
      exact List.forall_mem_cons.mpr
        ⟨.node hplaced ihchildren hchildren.bounds hchildren.pairwise_before, ih⟩

end Row

/-- All nodes of a nested tree have places in the text. -/
theorem Nested.placed {text : String} {file : FileId} {outline : Outline}
    (h : outline.Nested text file) :
    ∀ location ∈ outline.locations, ∃ l, location = some l ∧ l.Placed text file := by
  induction h with
  | @node location children hplaced _ _ _ ih =>
      rw [locations, locationsAll_eq_flatMap, List.forall_mem_cons]
      refine ⟨⟨location, rfl, hplaced⟩, ?_⟩
      intro other hother
      obtain ⟨child, hchild, hmem⟩ := List.mem_flatMap.mp hother
      exact ih child hchild other hmem

end Outline

end QueryCompiler

import QueryCompiler.Proofs.Document.Induction

/-!
# The locations of nodes

Every node of a document carries a location if it was read from a text. The locations of a
definition are those of all nodes in it, in the order in which they are written.
-/

namespace QueryCompiler

/-! ### Values -/

namespace Value

mutual

/-- The locations of a value and of all values in it. -/
def locations : Value → List (Option Location)
  | atom location _ => [location]
  | list location items => location :: locationsItems items
  | object location fields => location :: locationsFields fields

/-- The locations in list items. -/
def locationsItems : List Value → List (Option Location)
  | [] => []
  | item :: rest => item.locations ++ locationsItems rest

/-- The locations in object fields. -/
def locationsFields : List (Name × Value) → List (Option Location)
  | [] => []
  | (_, value) :: rest => value.locations ++ locationsFields rest

end

/-- The nodes of a list are those of its items. -/
theorem locationsItems_eq_flatMap (items : List Value) :
    locationsItems items = items.flatMap locations := by
  induction items with
  | nil => rfl
  | cons item rest ih => rw [locationsItems, ih, List.flatMap_cons]

/-- The nodes of an object are those of its field values. -/
theorem locationsFields_eq_flatMap (fields : List (Name × Value)) :
    locationsFields fields = fields.flatMap fun field => field.2.locations := by
  induction fields with
  | nil => rfl
  | cons field rest ih => rw [locationsFields, ih, List.flatMap_cons]

/-- A value is a node of its own. -/
theorem location_mem_locations (value : Value) : value.location ∈ value.locations := by
  cases value with
  | atom location content => exact List.mem_cons_self
  | list location items => exact List.mem_cons_self
  | object location fields => exact List.mem_cons_self

/-- A value is another one or stands anywhere in it. -/
inductive PartOf (part : Value) : Value → Prop
  | here : PartOf part part
  | item {location : Option Location} {items : List Value} {item : Value} : item ∈ items →
      PartOf part item → PartOf part (.list location items)
  | field {location : Option Location} {fields : List (Name × Value)} {field : Name × Value} :
      field ∈ fields → PartOf part field.2 → PartOf part (.object location fields)

/-- The parts of a value are nodes of it. -/
theorem PartOf.location_mem {part value : Value} (h : part.PartOf value) :
    part.location ∈ value.locations := by
  induction h with
  | here => exact part.location_mem_locations
  | item hmem _ ih =>
      rw [locations, locationsItems_eq_flatMap]
      exact List.mem_cons_of_mem _ (List.mem_flatMap_of_mem hmem ih)
  | field hmem _ ih =>
      rw [locations, locationsFields_eq_flatMap]
      exact List.mem_cons_of_mem _ (List.mem_flatMap_of_mem hmem ih)

end Value

/-- The locations of an argument and of the values in it. -/
def Argument.locations (a : Argument) : List (Option Location) := a.location :: a.value.locations

/-- The locations of a directive and of all nodes in it. -/
def Directive.locations (d : Directive) : List (Option Location) :=
  d.location :: d.arguments.flatMap Argument.locations

/-! ### Selections -/

namespace Selection

mutual

/-- The locations of a selection and of all nodes in it. -/
def locations : Selection → List (Option Location)
  | field location _ _ arguments directives selections =>
      location :: (arguments.flatMap Argument.locations ++
        directives.flatMap Directive.locations ++ locationsAll selections)
  | spread location _ directives => location :: directives.flatMap Directive.locations
  | inline location _ directives selections =>
      location :: (directives.flatMap Directive.locations ++ locationsAll selections)

/-- The locations in selections. -/
def locationsAll : List Selection → List (Option Location)
  | [] => []
  | selection :: rest => selection.locations ++ locationsAll rest

end

/-- The nodes of selections are those of each of them. -/
theorem locationsAll_eq_flatMap (selections : List Selection) :
    locationsAll selections = selections.flatMap locations := by
  induction selections with
  | nil => rfl
  | cons selection rest ih => rw [locationsAll, ih, List.flatMap_cons]

/-- A selection is a node of its own. -/
theorem location_mem_locations (selection : Selection) :
    selection.location ∈ selection.locations := by
  cases selection with
  | field location aliasName name arguments directives selections => exact List.mem_cons_self
  | spread location name directives => exact List.mem_cons_self
  | inline location condition directives selections => exact List.mem_cons_self

variable {location place : Option Location} {directives : List Directive}
  {selections : List Selection}

/-- The nodes of the selections of a field are nodes of the field. -/
theorem mem_locations_field {aliasName : Option Name} {name : Name} {arguments : List Argument}
    (h : location ∈ selections.flatMap locations) :
    location ∈ (field place aliasName name arguments directives selections).locations := by
  rw [locations, locationsAll_eq_flatMap]
  exact List.mem_cons_of_mem _ (List.mem_append_right _ h)

/-- The nodes of the selections of an inline fragment are nodes of it. -/
theorem mem_locations_inline {condition : Option Name}
    (h : location ∈ selections.flatMap locations) :
    location ∈ (inline place condition directives selections).locations := by
  rw [locations, locationsAll_eq_flatMap]
  exact List.mem_cons_of_mem _ (List.mem_append_right _ h)

end Selection

/-! ### Definitions -/

/-- The locations of a variable, of its type and of all nodes in it. -/
def VariableDefinition.locations (v : VariableDefinition) : List (Option Location) :=
  v.location :: v.typeLocation :: (v.defaultValue.toList.flatMap Value.locations ++
    v.directives.flatMap Directive.locations)

/-- The locations of an operation and of all nodes in it. -/
def Operation.locations (o : Operation) : List (Option Location) :=
  o.location :: (o.parameters.flatMap VariableDefinition.locations ++
    o.directives.flatMap Directive.locations ++ o.selections.flatMap Selection.locations)

namespace Operation

variable {o : Operation} {v : VariableDefinition} {location : Option Location}

/-- The nodes of a variable definition are nodes of its operation. -/
theorem mem_locations_of_parameter (hv : v ∈ o.parameters) (h : location ∈ v.locations) :
    location ∈ o.locations := by
  have hparameters := List.mem_flatMap_of_mem hv h
  exact List.mem_cons_of_mem _ (List.mem_append_left _ (List.mem_append_left _ hparameters))

/-- What stands in the default value of a variable stands in the operation. -/
theorem mem_locations_of_default {value : Value} (hv : v ∈ o.parameters)
    (hvalue : v.defaultValue = some value) (h : location ∈ value.locations) :
    location ∈ o.locations := by
  apply mem_locations_of_parameter hv
  rw [VariableDefinition.locations, hvalue, Option.toList_some, List.flatMap_singleton]
  exact List.mem_cons_of_mem _ (List.mem_cons_of_mem _ (List.mem_append_left _ h))

/-- The nodes of the selections of an operation are nodes of the operation. -/
theorem mem_locations_of_selections (h : location ∈ o.selections.flatMap Selection.locations) :
    location ∈ o.locations :=
  List.mem_cons_of_mem _ (List.mem_append_right _ h)

end Operation

/-- The locations of a fragment and of all nodes in it. -/
def Fragment.locations (f : Fragment) : List (Option Location) :=
  f.location :: (f.directives.flatMap Directive.locations ++
    f.selections.flatMap Selection.locations)

/-- The nodes of the selections of a fragment are nodes of the fragment. -/
theorem Fragment.mem_locations_of_selections {f : Fragment} {location : Option Location}
    (h : location ∈ f.selections.flatMap Selection.locations) : location ∈ f.locations :=
  List.mem_cons_of_mem _ (List.mem_append_right _ h)

/-- The locations of a definition and of all nodes in it. -/
def Definition.locations : Definition → List (Option Location)
  | operation o => o.locations
  | fragment f => f.locations
  | typeSystem location _ => [location]

end QueryCompiler

import QueryCompiler.Proofs.Compiled
import QueryCompiler.Proofs.Dependencies
import QueryCompiler.Proofs.SelectionSet.Written

/-!
# Dependencies of compiled documents

What compiled documents need is closed: every enum among the types of selected fields is there, and
so is everything that variables and the fields of input objects refer to. Nothing else is there.
Each operation and each fragment brings its own part, always with the catalog's definitions, so that
it does not matter which of them brings a type first.
-/

namespace QueryCompiler

open Outcome

namespace Dependencies

variable {c : Catalog} {a b d : Dependencies} {members : List Dependencies} {name : Name}

/-! ### Putting dependencies together -/

/-- Every type is held with the definition that the catalog has under its name. -/
structure OwnIn (d : Dependencies) (c : Catalog) : Prop where
  enums : ∀ name type, d.enums.get? name = some type → c.enum? name = some type
  inputObjects : ∀ name resolved, d.inputObjects.get? name = some resolved →
    c.inputObject? name = some resolved.definition ∧
      resolved.definition.resolveFields c = .ok resolved.fields

/-- Dependencies hold, as maps, just what some member of a list holds. -/
structure IsUnionOf (d : Dependencies) (members : List Dependencies) : Prop where
  enums : ∀ name type, d.enums.get? name = some type ↔
    ∃ member ∈ members, member.enums.get? name = some type
  inputObjects : ∀ name resolved, d.inputObjects.get? name = some resolved ↔
    ∃ member ∈ members, member.inputObjects.get? name = some resolved

private theorem ownIn_empty : empty.OwnIn c := ⟨nofun, nofun⟩

/-- Dependencies put together hold the catalog's own definitions if both do. -/
theorem OwnIn.extend (ha : a.OwnIn c) (hb : b.OwnIn c) : (a.extend b).OwnIn c where
  enums := by
    intro name type hget
    have hentry := OrderedMap.get?_eq_some_iff.mp hget
    rcases OrderedMap.mem_entries_insertAllNew hentry with hmem | hmem
    · exact ha.enums name type (OrderedMap.get?_eq_some_iff.mpr hmem)
    · exact hb.enums name type (OrderedMap.get?_eq_some_iff.mpr hmem)
  inputObjects := by
    intro name resolved hget
    have hentry := OrderedMap.get?_eq_some_iff.mp hget
    rcases OrderedMap.mem_entries_insertAllNew hentry with hmem | hmem
    · exact ha.inputObjects name resolved (OrderedMap.get?_eq_some_iff.mpr hmem)
    · exact hb.inputObjects name resolved (OrderedMap.get?_eq_some_iff.mpr hmem)

private theorem mem_keys_enums_extend_iff :
    name ∈ (a.extend b).enums.keys ↔ name ∈ a.enums.keys ∨ name ∈ b.enums.keys :=
  OrderedMap.mem_keys_insertAllNew_iff

private theorem mem_keys_inputObjects_extend_iff :
    name ∈ (a.extend b).inputObjects.keys ↔
      name ∈ a.inputObjects.keys ∨ name ∈ b.inputObjects.keys :=
  OrderedMap.mem_keys_insertAllNew_iff

/-- Whatever is put together from the catalog's definitions consists of them. -/
theorem OwnIn.foldl_extend (hd : d.OwnIn c) (hmembers : ∀ member ∈ members, member.OwnIn c) :
    (members.foldl Dependencies.extend d).OwnIn c := by
  induction members generalizing d with
  | nil => exact hd
  | cons first rest ih =>
      obtain ⟨hfirst, hrest⟩ := List.forall_mem_cons.mp hmembers
      exact ih (hd.extend hfirst) hrest

private theorem mem_keys_enums_foldl_iff :
    name ∈ (members.foldl Dependencies.extend d).enums.keys ↔
      name ∈ d.enums.keys ∨ ∃ member ∈ members, name ∈ member.enums.keys := by
  induction members generalizing d with
  | nil => simp
  | cons first rest ih => simp [ih, mem_keys_enums_extend_iff, or_assoc]

private theorem mem_keys_inputObjects_foldl_iff :
    name ∈ (members.foldl Dependencies.extend d).inputObjects.keys ↔
      name ∈ d.inputObjects.keys ∨ ∃ member ∈ members, name ∈ member.inputObjects.keys := by
  induction members generalizing d with
  | nil => simp
  | cons first rest ih => simp [ih, mem_keys_inputObjects_extend_iff, or_assoc]

/-- The enums of a union are those of its members. -/
theorem mem_keys_enums_union_iff :
    name ∈ (members.foldl Dependencies.extend empty).enums.keys ↔
      ∃ member ∈ members, name ∈ member.enums.keys := by
  rw [mem_keys_enums_foldl_iff, or_iff_right]
  exact List.not_mem_nil

/-- The input objects of a union are those of its members. -/
theorem mem_keys_inputObjects_union_iff :
    name ∈ (members.foldl Dependencies.extend empty).inputObjects.keys ↔
      ∃ member ∈ members, name ∈ member.inputObjects.keys := by
  rw [mem_keys_inputObjects_foldl_iff, or_iff_right]
  exact List.not_mem_nil

/-- Two holders of the catalog's definitions hold the same under a name that both have. -/
theorem OwnIn.enum_eq (ha : a.OwnIn c) (hb : b.OwnIn c) {type : EnumType}
    (hget : a.enums.get? name = some type) (hkey : name ∈ b.enums.keys) :
    b.enums.get? name = some type := by
  obtain ⟨other, hother⟩ := OrderedMap.mem_keys_iff.mp hkey
  have hown := ha.enums name type hget
  rw [hb.enums name other hother, Option.some.injEq] at hown
  rw [hother, hown]

/-- Two dependencies hold a common input object in the same form. -/
theorem OwnIn.inputObject_eq (ha : a.OwnIn c) (hb : b.OwnIn c) {resolved : ResolvedInputObject}
    (hget : a.inputObjects.get? name = some resolved) (hkey : name ∈ b.inputObjects.keys) :
    b.inputObjects.get? name = some resolved := by
  obtain ⟨⟨definition, fields⟩, hother⟩ := OrderedMap.mem_keys_iff.mp hkey
  obtain ⟨hdefinition, hfields⟩ := ha.inputObjects name resolved hget
  obtain ⟨hdefinition', hfields'⟩ := hb.inputObjects name _ hother
  obtain ⟨own, ownFields⟩ := resolved
  rw [hdefinition', Option.some.injEq] at hdefinition
  simp only at hdefinition hfields hfields'
  subst hdefinition
  rw [hfields', Except.ok.injEq] at hfields
  rw [hother, hfields]

/-- Holders of the catalog's definitions are put together to their union, in whatever order. -/
theorem isUnionOf_foldl_extend (hmembers : ∀ member ∈ members, member.OwnIn c) :
    (members.foldl Dependencies.extend empty).IsUnionOf members := by
  have hunion := ownIn_empty.foldl_extend hmembers
  constructor
  · intro name type
    constructor
    · intro hget
      obtain ⟨member, hmember, hkey⟩ :=
        mem_keys_enums_union_iff.mp (OrderedMap.mem_keys_iff.mpr ⟨type, hget⟩)
      exact ⟨member, hmember, hunion.enum_eq (hmembers member hmember) hget hkey⟩
    · rintro ⟨member, hmember, hget⟩
      have hkey := mem_keys_enums_union_iff.mpr
        ⟨member, hmember, OrderedMap.mem_keys_iff.mpr ⟨type, hget⟩⟩
      exact (hmembers member hmember).enum_eq hunion hget hkey
  · intro name resolved
    constructor
    · intro hget
      obtain ⟨member, hmember, hkey⟩ :=
        mem_keys_inputObjects_union_iff.mp (OrderedMap.mem_keys_iff.mpr ⟨resolved, hget⟩)
      exact ⟨member, hmember, hunion.inputObject_eq (hmembers member hmember) hget hkey⟩
    · rintro ⟨member, hmember, hget⟩
      have hkey := mem_keys_inputObjects_union_iff.mpr
        ⟨member, hmember, OrderedMap.mem_keys_iff.mpr ⟨resolved, hget⟩⟩
      exact (hmembers member hmember).inputObject_eq hunion hget hkey

end Dependencies

/-! ### What one definition needs -/

namespace Scope

variable {s : Scope} {type : CompositeType} {traversed : List SelectedField}
  {selections : List Selection} {set : SelectionSet} {enums : List (Name × EnumType)}

/-- The enum of a field is the one that its type names in the catalog. -/
theorem enum?_eq_some_iff {definition : FieldDefinition} {entry : Name × EnumType} :
    s.enum? definition = some entry ↔
      definition.type.innermost = entry.1 ∧ s.catalog.enum? entry.1 = some entry.2 := by
  obtain ⟨name, found⟩ := entry
  simp only [enum?, Option.map_eq_some_iff, Prod.mk.injEq]
  constructor
  · rintro ⟨_, hfound, rfl, rfl⟩
    exact ⟨rfl, hfound⟩
  · rintro ⟨rfl, hfound⟩
    exact ⟨found, hfound, rfl, rfl⟩

/-- The enums of selected fields are held with the catalog's definitions. -/
theorem ownIn_ofEnums (h : s.selectionSet type traversed selections = .ok (set, enums)) :
    (Dependencies.ofEnums enums).OwnIn s.catalog := by
  refine ⟨?_, nofun⟩
  intro name found hget
  rcases OrderedMap.mem_entries_insertAllNew (OrderedMap.get?_eq_some_iff.mp hget) with hmem | hmem
  · cases hmem
  · obtain ⟨_, _, _, _, henum⟩ := (mem_enums_of_selectionSet_iff h).mp hmem
    exact (enum?_eq_some_iff.mp henum).2

/-- The enums that selections need are those that a field written in them comes down to. -/
theorem mem_keys_ofEnums_iff (h : s.selectionSet type traversed selections = .ok (set, enums))
    {name : Name} :
    name ∈ (Dependencies.ofEnums enums).enums.keys ↔
      (∃ found, s.catalog.enum? name = some found) ∧ ∃ selection ∈ selections, ∃ f,
        selection.Writes s.catalog type f ∧ f.type.base.schemaName = name := by
  rw [Dependencies.ofEnums, OrderedMap.mem_keys_insertAllNew_iff,
    or_iff_right (show name ∉ OrderedMap.empty.keys from List.not_mem_nil), List.mem_map]
  simp only [mem_enums_of_selectionSet_iff h, enum?_eq_some_iff]
  constructor
  · rintro ⟨entry, ⟨selection, hselection, f, hwrites, hname, henum⟩, rfl⟩
    exact ⟨⟨_, henum⟩, selection, hselection, f, hwrites, hwrites.schemaName_eq.trans hname⟩
  · rintro ⟨⟨found, hfound⟩, selection, hselection, f, hwrites, rfl⟩
    exact ⟨(_, found), ⟨selection, hselection, f, hwrites, hwrites.schemaName_eq.symm, hfound⟩, rfl⟩

/-- What variables need is held with the catalog's definitions. -/
theorem ownIn_of_variableDependencies {parameters : List VariableDefinition} {d : Dependencies}
    (h : s.variableDependencies parameters = .ok d) : d.OwnIn s.catalog := by
  have honly := Dependencies.onlyReached_of_collect (variableDependencies_eq_ok_iff.mp h)
  exact ⟨fun name type hget => (honly.enums name type hget).2,
    fun name resolved hget => (honly.inputObjects name resolved hget).2⟩

/-- The enums that variables need are those among the names that they reach. -/
theorem mem_keys_enums_of_variableDependencies_iff {parameters : List VariableDefinition}
    {d : Dependencies} (h : s.variableDependencies parameters = .ok d) {name : Name} :
    name ∈ d.enums.keys ↔
      (∃ found, s.catalog.enum? name = some found) ∧ s.Needs parameters name := by
  rw [needs_iff, and_comm]
  exact Dependencies.mem_keys_enums_iff (variableDependencies_eq_ok_iff.mp h)

/-- The input objects that variables need are those among the names that they reach. -/
theorem mem_keys_inputObjects_of_variableDependencies_iff {parameters : List VariableDefinition}
    {d : Dependencies} (h : s.variableDependencies parameters = .ok d) {name : Name} :
    name ∈ d.inputObjects.keys ↔
      (∃ o, s.catalog.inputObject? name = some o) ∧ s.Needs parameters name := by
  rw [needs_iff, and_comm]
  exact Dependencies.mem_keys_inputObjects_iff (variableDependencies_eq_ok_iff.mp h)

end Scope

namespace Operation

variable {o : Operation} {c : Catalog} {fragments : OrderedMap Name Fragment}
  {compiled : CompiledOperation} {name : Name}

/-- A field stands anywhere in an operation. -/
def Writes (o : Operation) (c : Catalog) (f : SelectedField) : Prop :=
  ∃ root type, c.root? o.kind = some root ∧ c.composite? root = some type ∧
    ∃ selection ∈ o.selections, selection.Writes c type f

/-- A type name is that of a variable, or is reached from one through input objects. -/
def Needs (o : Operation) (c : Catalog) (name : Name) : Prop :=
  c.Reaches (o.parameters.map fun v => v.type.innermost) name

/-- An operation needs the catalog's own definitions. -/
theorem ownIn_of_compile (h : o.compile c fragments = .ok compiled) :
    compiled.dependencies.OwnIn c := by
  obtain ⟨_, _, _, _, _, _, _, _, _, hset, hneeded, rfl⟩ := compile_eq_ok_iff.mp h
  exact (Scope.ownIn_ofEnums hset).extend (Scope.ownIn_of_variableDependencies hneeded)

/-- The enums of an operation are those that its fields come down to and its variables reach. -/
theorem mem_keys_enums_of_compile_iff (h : o.compile c fragments = .ok compiled) :
    name ∈ compiled.dependencies.enums.keys ↔ (∃ found, c.enum? name = some found) ∧
      ((∃ f, o.Writes c f ∧ f.type.base.schemaName = name) ∨ o.Needs c name) := by
  obtain ⟨_, type, _, _, _, _, _, htype, _, hset, hneeded, rfl⟩ := compile_eq_ok_iff.mp h
  obtain ⟨root, hroot, hcomposite⟩ := Scope.rootType_eq_ok_iff.mp htype
  -- An operation starts from one type only.
  have hwrites : (∃ f, o.Writes c f ∧ f.type.base.schemaName = name) ↔
      ∃ selection ∈ o.selections, ∃ f, selection.Writes c type f ∧
        f.type.base.schemaName = name := by
    constructor
    · rintro ⟨f, ⟨other, found, hother, hfound, selection, hselection, hwrites⟩, hname⟩
      rw [hroot, Option.some.injEq] at hother
      subst hother
      rw [hcomposite, Option.some.injEq] at hfound
      subst hfound
      exact ⟨selection, hselection, f, hwrites, hname⟩
    · rintro ⟨selection, hselection, f, hwrites, hname⟩
      exact ⟨f, ⟨root, type, hroot, hcomposite, selection, hselection, hwrites⟩, hname⟩
  rw [Dependencies.mem_keys_enums_extend_iff, Scope.mem_keys_ofEnums_iff hset,
    Scope.mem_keys_enums_of_variableDependencies_iff hneeded, hwrites, and_or_left]
  rfl

/-- The input objects of an operation are those that its variables need. -/
theorem mem_keys_inputObjects_of_compile_iff (h : o.compile c fragments = .ok compiled) :
    name ∈ compiled.dependencies.inputObjects.keys ↔
      (∃ found, c.inputObject? name = some found) ∧ o.Needs c name := by
  obtain ⟨_, _, _, _, _, _, _, _, _, _, hneeded, rfl⟩ := compile_eq_ok_iff.mp h
  rw [Dependencies.mem_keys_inputObjects_extend_iff,
    Scope.mem_keys_inputObjects_of_variableDependencies_iff hneeded]
  exact or_iff_right List.not_mem_nil

/-- Whatever the variables of a compiled operation reach can be sent. -/
theorem isInput_of_compile (h : o.compile c fragments = .ok compiled) (hname : o.Needs c name) :
    c.IsInput name := by
  obtain ⟨_, _, _, _, _, _, _, _, _, _, hneeded, _⟩ := compile_eq_ok_iff.mp h
  exact (Scope.exists_variableDependencies_iff.mp ⟨_, hneeded⟩ name hname).1

end Operation

namespace Fragment

variable {fragment : Fragment} {c : Catalog} {fragments : OrderedMap Name Fragment}
  {compiled : CompiledFragment} {name : Name}

/-- A field stands anywhere in a fragment. -/
def Writes (fragment : Fragment) (c : Catalog) (f : SelectedField) : Prop :=
  ∃ type, c.composite? fragment.condition = some type ∧
    ∃ selection ∈ fragment.selections, selection.Writes c type f

/-- A fragment needs the catalog's own definitions. -/
theorem ownIn_of_compile (h : fragment.compile c fragments = .ok compiled) :
    compiled.dependencies.OwnIn c := by
  obtain ⟨_, _, _, _, hset, rfl⟩ := compile_eq_ok_iff.mp h
  exact Scope.ownIn_ofEnums hset

/-- The enums of a fragment are those that its fields come down to. -/
theorem mem_keys_enums_of_compile_iff (h : fragment.compile c fragments = .ok compiled) :
    name ∈ compiled.dependencies.enums.keys ↔ (∃ found, c.enum? name = some found) ∧
      ∃ f, fragment.Writes c f ∧ f.type.base.schemaName = name := by
  obtain ⟨type, _, _, hcomposite, hset, rfl⟩ := compile_eq_ok_iff.mp h
  rw [Scope.mem_keys_ofEnums_iff hset]
  refine and_congr_right fun _ => ?_
  constructor
  · rintro ⟨selection, hselection, f, hwrites, hname⟩
    exact ⟨f, ⟨type, hcomposite, selection, hselection, hwrites⟩, hname⟩
  · rintro ⟨f, ⟨found, hfound, selection, hselection, hwrites⟩, hname⟩
    rw [hcomposite, Option.some.injEq] at hfound
    subst hfound
    exact ⟨selection, hselection, f, hwrites, hname⟩

/-- A fragment has no variables, so it needs no input objects. -/
theorem inputObjects_of_compile (h : fragment.compile c fragments = .ok compiled) :
    compiled.dependencies.inputObjects = .empty := by
  obtain ⟨_, _, _, _, _, rfl⟩ := compile_eq_ok_iff.mp h
  rfl

end Fragment

/-! ### What documents need -/

namespace Registry

/-- A field stands anywhere in an operation or fragment of the registry. -/
def Writes (r : Registry) (c : Catalog) (f : SelectedField) : Prop :=
  (∃ o ∈ r.operations.values, o.Writes c f) ∨ ∃ fragment ∈ r.fragments.values, fragment.Writes c f

/-- A type name is reached from the variables of some operation of the registry. -/
def Needs (r : Registry) (c : Catalog) (name : Name) : Prop :=
  ∃ o ∈ r.operations.values, o.Needs c name

end Registry

namespace Dependencies

/-- A name that generated code can refer to: a scalar, or the name of a type that is held. -/
def Covers (d : Dependencies) (c : Catalog) (name : Name) : Prop :=
  c.isScalar name = true ∨ name ∈ d.enums.keys ∨ name ∈ d.inputObjects.keys

/-- All types that the documents of a registry refer to are held, and those that these types refer
to in turn. -/
structure ClosedFor (d : Dependencies) (r : Registry) (c : Catalog) : Prop where
  selected : ∀ f type, r.Writes c f → c.enum? f.type.base.schemaName = some type →
    f.type.base.schemaName ∈ d.enums.keys
  parameters : ∀ o ∈ r.operations.values, ∀ v ∈ o.parameters, d.Covers c v.type.innermost
  inputFields : ∀ name resolved, d.inputObjects.get? name = some resolved →
    ∀ field ∈ resolved.definition.fields.values, d.Covers c field.type.innermost

/-- Every type that is held is the type of a selected field or is reached from a variable. -/
structure MinimalFor (d : Dependencies) (r : Registry) (c : Catalog) : Prop where
  enums : ∀ name ∈ d.enums.keys,
    (∃ f, r.Writes c f ∧ f.type.base.schemaName = name) ∨ r.Needs c name
  inputObjects : ∀ name ∈ d.inputObjects.keys, r.Needs c name

end Dependencies

namespace Registry

variable {r : Registry} {c : Catalog} {compiled : Compiled} {name : Name}

/-- Every definition of a registry needs the catalog's own definitions. -/
theorem ownIn_of_mem_members (h : r.compile c = .ok compiled) :
    ∀ member ∈ compiled.members, member.OwnIn c := by
  intro member hmember
  rcases List.mem_append.mp hmember with hmem | hmem
  · obtain ⟨o, ho, rfl⟩ := List.mem_map.mp hmem
    obtain ⟨source, _, hsource⟩ := exists_of_mem_operations h ho
    exact Operation.ownIn_of_compile hsource
  · obtain ⟨f, hf, rfl⟩ := List.mem_map.mp hmem
    obtain ⟨source, _, hsource⟩ := exists_of_mem_fragments h hf
    exact Fragment.ownIn_of_compile hsource

/-- What documents need is the union of what their operations and fragments need. -/
theorem isUnionOf_members (h : r.compile c = .ok compiled) :
    compiled.dependencies.IsUnionOf compiled.members := by
  rw [dependencies_eq_foldl h]
  exact Dependencies.isUnionOf_foldl_extend (ownIn_of_mem_members h)

/-- The enums of documents are those that written fields come down to and variables reach. -/
theorem mem_keys_enums_of_compile_iff (h : r.compile c = .ok compiled) :
    name ∈ compiled.dependencies.enums.keys ↔ (∃ found, c.enum? name = some found) ∧
      ((∃ f, r.Writes c f ∧ f.type.base.schemaName = name) ∨ r.Needs c name) := by
  rw [dependencies_eq_foldl h, Dependencies.mem_keys_enums_union_iff]
  constructor
  · rintro ⟨member, hmember, hkey⟩
    rcases List.mem_append.mp hmember with hmem | hmem
    · obtain ⟨o, ho, rfl⟩ := List.mem_map.mp hmem
      obtain ⟨source, hsource, hcompile⟩ := exists_of_mem_operations h ho
      obtain ⟨hfound, hneeded⟩ := (Operation.mem_keys_enums_of_compile_iff hcompile).mp hkey
      refine ⟨hfound, ?_⟩
      rcases hneeded with ⟨f, hwrites, hname⟩ | hneeds
      · exact Or.inl ⟨f, Or.inl ⟨source, hsource, hwrites⟩, hname⟩
      · exact Or.inr ⟨source, hsource, hneeds⟩
    · obtain ⟨fragment, hfragment, rfl⟩ := List.mem_map.mp hmem
      obtain ⟨source, hsource, hcompile⟩ := exists_of_mem_fragments h hfragment
      obtain ⟨hfound, f, hwrites, hname⟩ :=
        (Fragment.mem_keys_enums_of_compile_iff hcompile).mp hkey
      exact ⟨hfound, Or.inl ⟨f, Or.inr ⟨source, hsource, hwrites⟩, hname⟩⟩
  · -- Whoever writes the field or needs the name is compiled and brings the enum along.
    have hoperation : ∀ source ∈ r.operations.values, (∃ found, c.enum? name = some found) →
        (∃ f, source.Writes c f ∧ f.type.base.schemaName = name) ∨ source.Needs c name →
        ∃ member ∈ compiled.members, name ∈ member.enums.keys := by
      intro source hsource hfound hneeded
      obtain ⟨o, ho, hcompile⟩ := exists_mem_operations h hsource
      exact ⟨_, List.mem_append_left _ (List.mem_map_of_mem ho),
        (Operation.mem_keys_enums_of_compile_iff hcompile).mpr ⟨hfound, hneeded⟩⟩
    rintro ⟨hfound, ⟨f, ⟨source, hsource, hwrites⟩ | ⟨source, hsource, hwrites⟩, hname⟩ |
      ⟨source, hsource, hneeds⟩⟩
    · exact hoperation source hsource hfound (Or.inl ⟨f, hwrites, hname⟩)
    · obtain ⟨fragment, hfragment, hcompile⟩ := exists_mem_fragments h hsource
      exact ⟨_, List.mem_append_right _ (List.mem_map_of_mem hfragment),
        (Fragment.mem_keys_enums_of_compile_iff hcompile).mpr ⟨hfound, f, hwrites, hname⟩⟩
    · exact hoperation source hsource hfound (Or.inr hneeds)

/-- The input objects of documents are those that variables reach. -/
theorem mem_keys_inputObjects_of_compile_iff (h : r.compile c = .ok compiled) :
    name ∈ compiled.dependencies.inputObjects.keys ↔
      (∃ found, c.inputObject? name = some found) ∧ r.Needs c name := by
  rw [dependencies_eq_foldl h, Dependencies.mem_keys_inputObjects_union_iff]
  constructor
  · rintro ⟨member, hmember, hkey⟩
    rcases List.mem_append.mp hmember with hmem | hmem
    · obtain ⟨o, ho, rfl⟩ := List.mem_map.mp hmem
      obtain ⟨source, hsource, hcompile⟩ := exists_of_mem_operations h ho
      obtain ⟨hfound, hneeds⟩ := (Operation.mem_keys_inputObjects_of_compile_iff hcompile).mp hkey
      exact ⟨hfound, source, hsource, hneeds⟩
    · obtain ⟨fragment, hfragment, rfl⟩ := List.mem_map.mp hmem
      obtain ⟨source, _, hcompile⟩ := exists_of_mem_fragments h hfragment
      rw [Fragment.inputObjects_of_compile hcompile] at hkey
      cases hkey
  · rintro ⟨hfound, source, hsource, hneeds⟩
    obtain ⟨o, ho, hcompile⟩ := exists_mem_operations h hsource
    exact ⟨_, List.mem_append_left _ (List.mem_map_of_mem ho),
      (Operation.mem_keys_inputObjects_of_compile_iff hcompile).mpr ⟨hfound, hneeds⟩⟩

/-- Whatever the variables of compiled documents reach is a scalar or is held. -/
theorem covers_of_needs (h : r.compile c = .ok compiled) (hname : r.Needs c name) :
    compiled.dependencies.Covers c name := by
  obtain ⟨source, hsource, hneeds⟩ := hname
  obtain ⟨o, _, hcompile⟩ := exists_mem_operations h hsource
  rcases Operation.isInput_of_compile hcompile hneeds with henum | hinput | hscalar
  · exact Or.inr (Or.inl ((mem_keys_enums_of_compile_iff h).mpr
      ⟨henum, Or.inr ⟨source, hsource, hneeds⟩⟩))
  · exact Or.inr (Or.inr ((mem_keys_inputObjects_of_compile_iff h).mpr
      ⟨hinput, source, hsource, hneeds⟩))
  · exact Or.inl hscalar

/-- The dependencies of documents hold all that the documents need. -/
theorem closedFor_of_compile (h : r.compile c = .ok compiled) :
    compiled.dependencies.ClosedFor r c where
  selected := by
    intro f type hwrites htype
    exact (mem_keys_enums_of_compile_iff h).mpr ⟨⟨type, htype⟩, Or.inl ⟨f, hwrites, rfl⟩⟩
  parameters := by
    intro o ho v hv
    exact covers_of_needs h ⟨o, ho, .root (List.mem_map_of_mem hv)⟩
  inputFields := by
    intro name resolved hget field hfield
    have hkey := OrderedMap.mem_keys_iff.mpr ⟨resolved, hget⟩
    obtain ⟨_, source, hsource, hneeds⟩ := (mem_keys_inputObjects_of_compile_iff h).mp hkey
    -- The fields of an input object that is reached are reached as well.
    obtain ⟨member, hmember, hheld⟩ := ((isUnionOf_members h).inputObjects name resolved).mp hget
    have hown := ((ownIn_of_mem_members h member hmember).inputObjects name resolved hheld).1
    exact covers_of_needs h ⟨source, hsource, .field hneeds hown hfield⟩

/-- The dependencies of documents hold nothing that the documents do not need. -/
theorem minimalFor_of_compile (h : r.compile c = .ok compiled) :
    compiled.dependencies.MinimalFor r c where
  enums := fun _ hname => ((mem_keys_enums_of_compile_iff h).mp hname).2
  inputObjects := fun _ hname => ((mem_keys_inputObjects_of_compile_iff h).mp hname).2

/-- What compiled documents need is closed and minimal, and consists of the catalog's own
definitions. It is the union of what the operations and fragments need, and fragments need no input
objects. -/
theorem dependencies_closed_and_minimal (h : r.compile c = .ok compiled) :
    compiled.dependencies.ClosedFor r c ∧ compiled.dependencies.OwnIn c ∧
      compiled.dependencies.MinimalFor r c ∧ compiled.dependencies.IsUnionOf compiled.members ∧
      ∀ f ∈ compiled.fragments.values, f.dependencies.inputObjects = .empty := by
  refine ⟨closedFor_of_compile h, ?_, minimalFor_of_compile h, isUnionOf_members h, ?_⟩
  · rw [dependencies_eq_foldl h]
    exact Dependencies.ownIn_empty.foldl_extend (ownIn_of_mem_members h)
  · intro f hf
    obtain ⟨source, _, hsource⟩ := exists_of_mem_fragments h hf
    exact Fragment.inputObjects_of_compile hsource

end Registry

/-- The circle of input objects, an enum that can be selected and one that nothing refers to. -/
def Catalog.searchable : Catalog :=
  { Catalog.circular with
    types := Catalog.circular.types.insertAll [
      ("Query", .object ⟨"Query", none, [],
        .ofList [("hit", ⟨"hit", none, [], .named "Hit", false, none⟩)]⟩),
      ("Hit", .object ⟨"Hit", none, [],
        .ofList [("states", ⟨"states", none, [], .list (.named "State"), false, none⟩)]⟩),
      ("State", .enum ⟨"State", none, .empty⟩),
      ("Color", .enum ⟨"Color", none, .empty⟩)] }

/-- A query with a variable, and a fragment that selects an enum inside an inline fragment. -/
def Registry.search : Registry where
  sources := .empty
  operations := .ofList [("Find", ⟨none, .query, some "Find",
    [⟨none, "filter", none, .list (.named "Filter"), none, []⟩], [],
    [.field none none "hit" [] [] [.spread none "Parts" []]]⟩)]
  fragments := .ofList [("Parts", ⟨none, "Parts", "Hit", [],
    [.inline none none [] [.field none (some "all") "states" [] [] []]]⟩)]

namespace Registry

/-- The query brings the circle and the enum behind it, the fragment brings the selected enum. -/
theorem dependencies_search :
    ∃ compiled, Registry.search.compile .searchable = .ok compiled ∧
      compiled.dependencies.enums.keys = ["Unit", "State"] ∧
      compiled.dependencies.inputObjects.keys = ["Filter", "Range"] ∧
      compiled.dependencies.ClosedFor Registry.search .searchable ∧
      compiled.dependencies.MinimalFor Registry.search .searchable := by
  have hcomputed : (Registry.search.compile .searchable).toOption.map (fun compiled =>
      (compiled.dependencies.enums.keys, compiled.dependencies.inputObjects.keys)) =
        some (["Unit", "State"], ["Filter", "Range"]) := by
    cbv
  obtain ⟨compiled, hcompiled, hkeys⟩ := Option.map_eq_some_iff.mp hcomputed
  have hcompiled := toOption_eq_some_iff.mp hcompiled
  obtain ⟨henums, hinputs⟩ := Prod.mk.inj hkeys
  obtain ⟨hclosed, _, hminimal, _⟩ := dependencies_closed_and_minimal hcompiled
  exact ⟨compiled, hcompiled, henums, hinputs, hclosed, hminimal⟩

end Registry

end QueryCompiler

import Mathlib.Data.Option.Basic
import QueryCompiler.Proofs.Schema.Build
import QueryCompiler.Proofs.Schema.Complete

/-!
# What a catalog makes of a schema

A catalog lists the types of its schema, interfaces and unions last, and closes them: interfaces and
unions over the object types that they stand for, interfaces over those that name them among theirs,
and unions over the fields of their members.

The listed types are read one by one, so that at every point the lists of the construction
correspond member by member to a part of the schema's. Types are completed from the concrete types
alone, but as long as no two types share a name these are the object types of the whole catalog.
-/

namespace QueryCompiler

open Outcome
open Introspection (NamedRef TypeEntry TypeKind)

/-! ### Listed types -/

namespace Introspection

namespace TypeEntry

/-- A scalar that is built in. -/
def isBuiltIn (entry : TypeEntry) : Bool :=
  entry.kind = .scalar && (entry.name.bind BuiltInScalar.ofName?).isSome

/-- An interface or a union. -/
def isAbstract (entry : TypeEntry) : Bool := entry.kind = .interface || entry.kind = .union

/-- The warning about an interface or union that lists no types. -/
def warning? (entry : TypeEntry) : Option Warning :=
  match entry.kind, entry.name with
  | .interface, some name =>
      if entry.possibleTypes = [] then some (.interfaceWithoutTypes name) else none
  | .union, some name => if entry.possibleTypes = [] then some (.unionWithoutTypes name) else none
  | _, _ => none

/-- Only interfaces and unions are warned about. -/
theorem warning?_of_not_isAbstract {entry : TypeEntry} (h : ¬ entry.isAbstract = true) :
    entry.warning? = none := by
  cases hkind : entry.kind <;> simp_all [warning?, isAbstract]

end TypeEntry

/-- The listed types in the order of a catalog: interfaces and unions come last, and built-in
scalars do not come at all. -/
def Schema.catalogued (schema : Schema) : List TypeEntry :=
  (schema.types.filter fun entry => !entry.isBuiltIn && !entry.isAbstract) ++
    schema.types.filter TypeEntry.isAbstract

end Introspection

/-- The kind of a type. -/
def TypeDefinition.kind : TypeDefinition → TypeKind
  | scalar _ => .scalar
  | object _ => .object
  | interface _ => .interface
  | union _ => .union
  | enum _ => .enum
  | inputObject _ => .inputObject

/-- What a listed interface or union is completed from. -/
inductive AbstractEntry.DraftOf (entry : TypeEntry) : AbstractEntry → Prop
  | interface {name} : entry.kind = .interface → entry.name = some name →
      DraftOf entry (.interface name entry.description (entry.interfaces.map NamedRef.name)
        (FieldDefinition.table entry.fields) entry.possibleTypes)
  | union {name} : entry.kind = .union → entry.name = some name →
      DraftOf entry (.union name entry.description entry.possibleTypes)

/-- What is read of a listed type: nothing of a built-in scalar, a definition of the type's name and
kind, or something to be completed. -/
inductive CatalogEntry.ReadOf (entry : TypeEntry) : CatalogEntry → Prop
  | builtIn : entry.isBuiltIn = true → entry.isAbstract = false → ReadOf entry .builtIn
  | concrete {definition} : entry.isBuiltIn = false → entry.isAbstract = false →
      entry.name = some definition.name → definition.kind = entry.kind →
      ReadOf entry (.concrete definition)
  | abstract {draft} : entry.isBuiltIn = false → entry.isAbstract = true → draft.DraftOf entry →
      ReadOf entry (.abstract draft)

/-- A draft has the name of its entry. -/
theorem AbstractEntry.DraftOf.name_eq {entry : TypeEntry} {draft : AbstractEntry}
    (h : draft.DraftOf entry) : entry.name = some draft.name := by
  cases h with
  | interface _ hname => exact hname
  | union _ hname => exact hname

/-- What is read from an entry with a name. -/
theorem CatalogEntry.readOf_of_ofNamed {name : Name} {entry : TypeEntry} {read : CatalogEntry}
    (hname : entry.name = some name) (h : ofNamed name entry = .ok read) : read.ReadOf entry := by
  unfold ofNamed at h
  cases hkind : entry.kind with
  | scalar =>
      simp only [hkind] at h
      -- Only scalars can be built in.
      cases hscalar : BuiltInScalar.ofName? name with
      | some scalar =>
          simp only [hscalar, Except.ok.injEq] at h
          subst h
          exact .builtIn (by simp [TypeEntry.isBuiltIn, hkind, hname, hscalar])
            (by simp [TypeEntry.isAbstract, hkind])
      | none =>
          simp only [hscalar, Except.ok.injEq] at h
          subst h
          exact .concrete (by simp [TypeEntry.isBuiltIn, hname, hscalar])
            (by simp [TypeEntry.isAbstract, hkind]) hname hkind.symm
  | object =>
      simp only [hkind, bind_eq_ok_iff, mapError_eq_ok_iff, pure_eq_ok_iff] at h
      obtain ⟨_, _, rfl⟩ := h
      exact .concrete (by simp [TypeEntry.isBuiltIn, hkind]) (by simp [TypeEntry.isAbstract, hkind])
        hname hkind.symm
  | interface =>
      simp only [hkind, bind_eq_ok_iff, mapError_eq_ok_iff, pure_eq_ok_iff] at h
      obtain ⟨interfaces, hinterfaces, rfl⟩ := h
      rw [eq_map_of_interfaceNames hinterfaces]
      exact .abstract (by simp [TypeEntry.isBuiltIn, hkind]) (by simp [TypeEntry.isAbstract, hkind])
        (.interface hkind hname)
  | union =>
      simp only [hkind, Except.ok.injEq] at h
      subst h
      exact .abstract (by simp [TypeEntry.isBuiltIn, hkind]) (by simp [TypeEntry.isAbstract, hkind])
        (.union hkind hname)
  | enum =>
      simp only [hkind, Except.ok.injEq] at h
      subst h
      exact .concrete (by simp [TypeEntry.isBuiltIn, hkind]) (by simp [TypeEntry.isAbstract, hkind])
        hname hkind.symm
  | inputObject =>
      simp only [hkind, Except.ok.injEq] at h
      subst h
      exact .concrete (by simp [TypeEntry.isBuiltIn, hkind]) (by simp [TypeEntry.isAbstract, hkind])
        hname hkind.symm
  | list => simp [hkind] at h
  | nonNull => simp [hkind] at h

/-- What is read from an entry. -/
theorem CatalogEntry.readOf_of_ofEntry {entry : TypeEntry} {read : CatalogEntry}
    (h : ofEntry entry = .ok read) : read.ReadOf entry := by
  unfold ofEntry at h
  cases hname : entry.name with
  | some name =>
      rw [hname] at h
      exact readOf_of_ofNamed hname h
  | none => by_cases hwrapper : entry.kind.isWrapper = true <;> simp [hname, hwrapper] at h

section Reading

variable {listed : List TypeEntry} {entries : List CatalogEntry}

/-- The concrete types that are read, beside those that are listed. -/
theorem forall₂_concrete (h : List.Forall₂ (fun entry read => read.ReadOf entry) listed entries) :
    List.Forall₂ (fun entry definition => entry.name = some definition.name ∧
        definition.kind = entry.kind ∧ entry.isAbstract = false)
      (listed.filter fun entry => !entry.isBuiltIn && !entry.isAbstract)
      (entries.filterMap CatalogEntry.concrete?) := by
  refine forall₂_filter_filterMap h fun entry read hread => ?_
  cases hread with
  | builtIn hbuiltIn _ => exact Or.inr ⟨by simp [hbuiltIn], rfl⟩
  | concrete hbuiltIn habstract hname hkind =>
      exact Or.inl ⟨by simp [hbuiltIn, habstract], _, rfl, hname, hkind, habstract⟩
  | abstract _ habstract _ => exact Or.inr ⟨by simp [habstract], rfl⟩

/-- The interfaces and unions that are read, beside those that are listed. -/
theorem forall₂_drafts (h : List.Forall₂ (fun entry read => read.ReadOf entry) listed entries) :
    List.Forall₂ (fun entry draft => draft.DraftOf entry) (listed.filter TypeEntry.isAbstract)
      (entries.filterMap CatalogEntry.abstract?) := by
  refine forall₂_filter_filterMap h fun entry read hread => ?_
  cases hread with
  | builtIn _ habstract => exact Or.inr ⟨habstract, rfl⟩
  | concrete _ habstract _ _ => exact Or.inr ⟨habstract, rfl⟩
  | abstract _ habstract hdraft => exact Or.inl ⟨habstract, _, rfl, hdraft⟩

end Reading

/-! ### Stages of the construction -/

/-- Different names stay different when built-in types are left out. -/
theorem Introspection.Schema.nodup_catalogued {schema : Introspection.Schema}
    (h : (schema.types.map TypeEntry.name).Nodup) :
    (schema.catalogued.map TypeEntry.name).Nodup := by
  -- What is catalogued is, up to order, a part of what is listed.
  let p : TypeEntry → Bool := fun entry => !entry.isBuiltIn && !entry.isAbstract
  have hrest : ∀ entry : TypeEntry, entry.isAbstract = true → (!p entry) = true := by
    intro entry habstract
    simp [p, habstract]
  have hpart : schema.catalogued.Sublist
      (schema.types.filter p ++ schema.types.filter fun entry => !p entry) :=
    (List.Sublist.refl _).append (List.monotone_filter_right _ hrest)
  have hall := ((List.filter_append_perm p schema.types).map TypeEntry.name).nodup_iff.mpr h
  exact hall.sublist (hpart.map TypeEntry.name)

namespace Catalog

variable {configuration : Configuration} {schema : Introspection.Schema} {c : Catalog}
  {entries : List CatalogEntry} {abstracts : List TypeDefinition}

/-- How a catalog has come about: what was read of the listed types, and how the interfaces and
unions among it were completed. -/
structure BuiltFrom (c : Catalog) (schema : Introspection.Schema) (entries : List CatalogEntry)
    (abstracts : List TypeDefinition) : Prop where
  read : List.Forall₂ (fun entry read => read.ReadOf entry) schema.types entries
  names : ((entries.filterMap CatalogEntry.concrete?).map TypeDefinition.name ++
    (entries.filterMap CatalogEntry.abstract?).map AbstractEntry.name).Nodup
  completed : List.Forall₂ (AbstractEntry.CompletesTo (concreteTypes entries)
      (AbstractEntry.subInterfaces (entries.filterMap CatalogEntry.abstract?)))
    (entries.filterMap CatalogEntry.abstract?) abstracts
  types : c.types = allTypes entries abstracts
  warnings : c.warnings = abstracts.filterMap Warning.of?

/-- A catalog is built in stages from the entries of its schema. -/
theorem exists_builtFrom (hdistinct : (schema.types.map TypeEntry.name).Nodup)
    (h : ofSchema configuration schema = .ok c) :
    ∃ entries abstracts, c.BuiltFrom schema entries abstracts := by
  obtain ⟨entries, abstracts, _, _, _, _, hentries, hcomplete, _, _, _, _, _, rfl⟩ :=
    ofSchema_eq_ok_iff.mp h
  have hread : List.Forall₂ (fun entry read => read.ReadOf entry) schema.types entries :=
    (mapM_eq_ok_iff.mp hentries).imp fun _ _ => CatalogEntry.readOf_of_ofEntry
  have hconcrete := map_eq_map_of_forall₂ (forall₂_concrete hread) fun _ _ h => h.1
  have hdrafts := map_eq_map_of_forall₂ (forall₂_drafts hread) fun _ _ h => h.name_eq
  have hnames : ((entries.filterMap CatalogEntry.concrete?).map TypeDefinition.name ++
      (entries.filterMap CatalogEntry.abstract?).map AbstractEntry.name).Nodup := by
    apply List.Nodup.of_map some
    have hcatalogued := Introspection.Schema.nodup_catalogued hdistinct
    rw [Introspection.Schema.catalogued, List.map_append, hconcrete, hdrafts] at hcatalogued
    simpa only [List.map_append, List.map_map, Function.comp_def] using hcatalogued
  refine ⟨entries, abstracts, hread, hnames, ?_, rfl, rfl⟩
  rw [AbstractEntry.complete_eq_mapM (List.nodup_append.mp hnames).2.1 fun _ _ => List.not_mem_nil]
    at hcomplete
  exact (mapM_eq_ok_iff.mp hcomplete).imp fun _ _ => AbstractEntry.completed_eq_ok_iff.mp

namespace BuiltFrom

/-- The concrete types stand under their names, in the order of the entries. -/
theorem concreteTypes_entries (h : c.BuiltFrom schema entries abstracts) :
    (concreteTypes entries).entries = (entries.filterMap CatalogEntry.concrete?).map
      fun definition => (definition.name, definition) := by
  apply OrderedMap.entries_ofList
  rw [List.map_map]
  exact (List.nodup_append.mp h.names).1

/-- The catalog lists the concrete types and behind them the completed ones. -/
theorem types_entries (h : c.BuiltFrom schema entries abstracts) :
    c.types.entries = (concreteTypes entries).entries ++
      abstracts.map fun definition => (definition.name, definition) := by
  have habstracts : abstracts.map TypeDefinition.name =
      (entries.filterMap CatalogEntry.abstract?).map AbstractEntry.name :=
    (map_eq_map_of_forall₂ h.completed fun _ _ hcompletes => hcompletes.name_eq.symm).symm
  rw [h.types]
  apply OrderedMap.entries_insertAll
  rw [h.concreteTypes_entries, List.map_append, List.map_map, List.map_map]
  have hnames := h.names
  rw [← habstracts] at hnames
  exact hnames

/-- The object types of the catalog are those among the concrete types. -/
theorem object?_eq (h : c.BuiltFrom schema entries abstracts) (name : Name) :
    c.object? name = AbstractEntry.object? (concreteTypes entries) name := by
  have hget : c.get? name = ((concreteTypes entries).get? name).or
      ((abstracts.map fun definition => (definition.name, definition)).lookup name) := by
    rw [get?, OrderedMap.get?, h.types_entries, List.lookup_append]
    rfl
  rw [object?, AbstractEntry.object?, hget]
  cases (concreteTypes entries).get? name with
  | some definition => rfl
  | none =>
      rw [Option.none_or]
      cases hlookup :
          (abstracts.map fun definition => (definition.name, definition)).lookup name with
      | none => rfl
      | some definition =>
          -- An interface or union is no object.
          obtain ⟨before, after, hsplit, _⟩ := List.lookup_eq_some_iff.mp hlookup
          have hmem : (name, definition) ∈ abstracts.map fun definition =>
              (definition.name, definition) := by
            rw [hsplit]
            exact List.mem_append_right _ List.mem_cons_self
          obtain ⟨_, habstract, heq⟩ := List.mem_map.mp hmem
          cases heq
          obtain ⟨draft, _, hcompletes⟩ := exists_of_forall₂_of_mem_right h.completed habstract
          exact hcompletes.object?_eq_none

/-- No object type has the name of an interface or union. -/
theorem name_ne_of_object? (h : c.BuiltFrom schema entries abstracts) {name : Name} {o : ObjectType}
    (ho : AbstractEntry.object? (concreteTypes entries) name = some o) {draft : AbstractEntry}
    (hdraft : draft ∈ entries.filterMap CatalogEntry.abstract?) : name ≠ draft.name := by
  obtain ⟨definition, hget, _⟩ := Option.bind_eq_some_iff.mp ho
  have hmem := OrderedMap.get?_eq_some_iff.mp hget
  rw [h.concreteTypes_entries] at hmem
  obtain ⟨concrete, hconcrete, heq⟩ := List.mem_map.mp hmem
  cases heq
  exact (List.nodup_append.mp h.names).2.2 _ (List.mem_map_of_mem hconcrete) _
    (List.mem_map_of_mem hdraft)

end BuiltFrom

end Catalog

/-! ### Closures -/

/-- An interface stands for the object types that are listed for it, for the interfaces that name it
among theirs, and for itself. -/
structure InterfaceType.ClosedFor (i : InterfaceType) (c : Catalog) (schema : Introspection.Schema)
    (entry : TypeEntry) : Prop where
  possibleTypes : i.possibleTypes = (entry.possibleTypes.map NamedRef.name).eraseDups
  objects : ∀ name ∈ i.possibleTypes, ∃ o, c.object? name = some o
  subInterfaces_nodup : i.subInterfaces.Nodup
  subInterfaces : ∀ sub, sub ∈ i.subInterfaces ↔ ∃ other ∈ schema.types,
    other.kind = .interface ∧ other.name = some sub ∧ i.name ∈ other.interfaces.map NamedRef.name
  implementingTypes : i.implementingTypes = i.possibleTypes ++ i.subInterfaces ++
    if i.name ∈ i.subInterfaces then [] else [i.name]

/-- The declaration of a field by an object type. -/
def Catalog.declared? (c : Catalog) (field member : Name) : Option FieldDefinition :=
  (c.object? member).bind fun o => o.fields.get? field

/-- A union stands for the object types that are listed for it. It has the fields that any of them
declares, each as the first of them declares it. -/
structure UnionType.ClosedFor (u : UnionType) (c : Catalog) (entry : TypeEntry) : Prop where
  possibleTypes : u.possibleTypes = (entry.possibleTypes.map NamedRef.name).eraseDups
  objects : ∀ name ∈ u.possibleTypes, ∃ o, c.object? name = some o
  keys : ∀ field, field ∈ u.fields.keys ↔
    ∃ member ∈ u.possibleTypes, ∃ definition, c.declared? field member = some definition
  fields : ∀ field definition, u.fields.get? field = some definition ↔
    ∃ before member after, u.possibleTypes = before ++ member :: after ∧
      c.declared? field member = some definition ∧
      ∀ earlier ∈ before, c.declared? field earlier = none

/-- A type is closed over the types that its listing brings in. Only itself stands for an object
type, and nothing has to be closed for types that cannot be selected on. -/
def TypeDefinition.ClosedFor (c : Catalog) (schema : Introspection.Schema) (entry : TypeEntry) :
    TypeDefinition → Prop
  | object o => o.implementingTypes = [o.name]
  | interface i => i.ClosedFor c schema entry
  | union u => u.ClosedFor c entry
  | _ => True

/-- A catalog that lists the types of a schema and closes them. -/
structure Catalog.Closes (c : Catalog) (schema : Introspection.Schema) : Prop where
  /-- Each type stands under its own name, with a definition of this name and of its kind. -/
  types : List.Forall₂ (fun entry listed => entry.name = some listed.1 ∧
      listed.2.name = listed.1 ∧ listed.2.kind = entry.kind ∧ listed.2.ClosedFor c schema entry)
    schema.catalogued c.types.entries
  warnings : c.warnings = schema.types.filterMap TypeEntry.warning?

namespace Catalog

/-- The interfaces that were read as naming another one are those that are listed so. -/
theorem mem_subInterfaces_drafts_iff {schema : Introspection.Schema} {entries : List CatalogEntry}
    (hread : List.Forall₂ (fun entry read => read.ReadOf entry) schema.types entries)
    {of sub : Name} :
    sub ∈ AbstractEntry.subInterfaces (entries.filterMap CatalogEntry.abstract?) of ↔
      ∃ other ∈ schema.types, other.kind = .interface ∧ other.name = some sub ∧
        of ∈ other.interfaces.map NamedRef.name := by
  rw [AbstractEntry.subInterfaces, List.mem_eraseDups, List.mem_filterMap]
  constructor
  · rintro ⟨draft, hdraft, hsub⟩
    obtain ⟨other, hother, hof⟩ := exists_of_forall₂_of_mem_right (forall₂_drafts hread) hdraft
    cases hof with
    | interface hkind hname =>
        simp only [AbstractEntry.subInterface?, Option.ite_none_right_eq_some, Option.some.injEq,
          List.contains_iff_mem] at hsub
        obtain ⟨hnamed, rfl⟩ := hsub
        exact ⟨other, (List.mem_filter.mp hother).1, hkind, hname, hnamed⟩
    | union _ _ => cases hsub
  · rintro ⟨other, hother, hkind, hname, hnamed⟩
    have habstract : other ∈ schema.types.filter TypeEntry.isAbstract :=
      List.mem_filter.mpr ⟨hother, by simp [TypeEntry.isAbstract, hkind]⟩
    obtain ⟨draft, hdraft, hof⟩ := exists_of_forall₂_of_mem_left (forall₂_drafts hread) habstract
    refine ⟨draft, hdraft, ?_⟩
    cases hof with
    | interface _ hname' =>
        rw [hname, Option.some.injEq] at hname'
        simp only [AbstractEntry.subInterface?, Option.ite_none_right_eq_some, Option.some.injEq,
          List.contains_iff_mem]
        exact ⟨hnamed, hname'.symm⟩
    | union hkind' _ =>
        rw [hkind] at hkind'
        cases hkind'

namespace BuiltFrom

variable {schema : Introspection.Schema} {c : Catalog} {entries : List CatalogEntry}
  {abstracts : List TypeDefinition}

/-- Sub-interfaces are interfaces of the schema. -/
theorem exists_name_eq_of_mem_subInterfaces {drafts : List AbstractEntry} {of sub : Name}
    (h : sub ∈ AbstractEntry.subInterfaces drafts of) : ∃ draft ∈ drafts, draft.name = sub := by
  rw [AbstractEntry.subInterfaces, List.mem_eraseDups, List.mem_filterMap] at h
  obtain ⟨draft, hdraft, hsub⟩ := h
  refine ⟨draft, hdraft, ?_⟩
  cases draft with
  | interface name description interfaces fields references =>
      simp only [AbstractEntry.subInterface?, Option.ite_none_right_eq_some,
        Option.some.injEq] at hsub
      exact hsub.2
  | union name description references => cases hsub

/-- The possible types of an interface or union are objects of the catalog. -/
theorem objects_of_objectNames (h : c.BuiltFrom schema entries abstracts) {parent : Name}
    {references : List NamedRef} {possible : List Name}
    (hpossible : AbstractEntry.objectNames (concreteTypes entries) parent references =
      .ok possible) :
    ∀ name ∈ possible, ∃ o, c.object? name = some o := by
  obtain ⟨hreferences, rfl⟩ := AbstractEntry.objectNames_eq_ok_iff.mp hpossible
  intro name hname
  obtain ⟨reference, hreference, rfl⟩ := List.mem_map.mp (List.mem_eraseDups.mp hname)
  rw [h.object?_eq]
  exact (hreferences reference hreference).2

/-- A completed interface is closed. -/
theorem interface_closedFor (h : c.BuiltFrom schema entries abstracts) {entry : TypeEntry}
    {name : Name} {description : Option String} {interfaces : List Name}
    {fields : OrderedMap Name FieldDefinition} {possible : List Name}
    (hdraft : .interface name description interfaces fields entry.possibleTypes ∈
      entries.filterMap CatalogEntry.abstract?)
    (hpossible : AbstractEntry.objectNames (concreteTypes entries) name entry.possibleTypes =
      .ok possible) :
    InterfaceType.ClosedFor ⟨name, description, interfaces, fields, possible,
        AbstractEntry.subInterfaces (entries.filterMap CatalogEntry.abstract?) name⟩
      c schema entry := by
  have hobjects := h.objects_of_objectNames hpossible
  have hlisted := (AbstractEntry.objectNames_eq_ok_iff.mp hpossible).2
  have hsub := nodup_eraseDups ((entries.filterMap CatalogEntry.abstract?).filterMap
    (AbstractEntry.subInterface? name))
  -- Object types have names of their own, apart from those of interfaces and unions.
  have hapart (member : Name) (hmember : member ∈ possible) (draft : AbstractEntry)
      (hdraft : draft ∈ entries.filterMap CatalogEntry.abstract?) : member ≠ draft.name := by
    obtain ⟨o, ho⟩ := hobjects member hmember
    rw [h.object?_eq] at ho
    exact h.name_ne_of_object? ho hdraft
  have hself : name ∉ possible := fun hmem => hapart name hmem _ hdraft rfl
  have hnodup : (possible ++ AbstractEntry.subInterfaces
      (entries.filterMap CatalogEntry.abstract?) name).Nodup := by
    refine List.nodup_append.mpr ⟨hlisted ▸ nodup_eraseDups _, hsub, ?_⟩
    intro member hmember sub hsub
    obtain ⟨draft, hdraft, rfl⟩ := exists_name_eq_of_mem_subInterfaces hsub
    exact hapart member hmember draft hdraft
  refine ⟨hlisted.symm, hobjects, hsub, fun _ => mem_subInterfaces_drafts_iff h.read, ?_⟩
  rw [InterfaceType.implementingTypes, eraseDups_append_singleton hnodup]
  simp only [List.mem_append, hself, false_or]

/-- A completed union is closed. -/
theorem union_closedFor (h : c.BuiltFrom schema entries abstracts) {entry : TypeEntry} {name : Name}
    {description : Option String} {possible : List Name}
    (hpossible : AbstractEntry.objectNames (concreteTypes entries) name entry.possibleTypes =
      .ok possible) :
    UnionType.ClosedFor ⟨name, description, possible,
      AbstractEntry.memberFields (concreteTypes entries) possible⟩ c entry := by
  have hfields (field : Name) :
      (AbstractEntry.memberFields (concreteTypes entries) possible).get? field =
        possible.findSome? (c.declared? field) := by
    rw [AbstractEntry.get?_memberFields]
    simp only [← h.object?_eq]
    rfl
  refine ⟨(AbstractEntry.objectNames_eq_ok_iff.mp hpossible).2.symm,
    h.objects_of_objectNames hpossible, ?_, ?_⟩
  · intro field
    rw [OrderedMap.mem_keys_iff, hfields, ← Option.isSome_iff_exists, List.findSome?_isSome_iff]
    simp only [Option.isSome_iff_exists]
  · intro field definition
    rw [hfields, List.findSome?_eq_some_iff]

/-- A listed interface or union, beside what it is completed to. -/
theorem closedFor_of_completesTo (h : c.BuiltFrom schema entries abstracts) {entry : TypeEntry}
    {draft : AbstractEntry} {definition : TypeDefinition} (hof : draft.DraftOf entry)
    (hdraft : draft ∈ entries.filterMap CatalogEntry.abstract?)
    (hcompletes : draft.CompletesTo (concreteTypes entries)
      (AbstractEntry.subInterfaces (entries.filterMap CatalogEntry.abstract?)) definition) :
    entry.name = some definition.name ∧ definition.kind = entry.kind ∧
      definition.ClosedFor c schema entry ∧ entry.warning? = Warning.of? definition := by
  have hempty (possible : List Name)
      (hpossible : (entry.possibleTypes.map NamedRef.name).eraseDups = possible) :
      entry.possibleTypes = [] ↔ possible.isEmpty = true := by
    rw [← hpossible, List.isEmpty_iff]
    cases entry.possibleTypes <;> simp [List.eraseDups_cons]
  cases hof with
  | interface hkind hname =>
      cases hcompletes with
      | interface hpossible =>
          refine ⟨hname, hkind.symm, h.interface_closedFor hdraft hpossible, ?_⟩
          simp only [TypeEntry.warning?, hkind, hname, Warning.of?,
            hempty _ (AbstractEntry.objectNames_eq_ok_iff.mp hpossible).2]
  | union hkind hname =>
      cases hcompletes with
      | union hpossible =>
          refine ⟨hname, hkind.symm, h.union_closedFor hpossible, ?_⟩
          simp only [TypeEntry.warning?, hkind, hname, Warning.of?,
            hempty _ (AbstractEntry.objectNames_eq_ok_iff.mp hpossible).2]

/-- Concrete types need no closing. -/
theorem closedFor_of_concrete {entry : TypeEntry} {definition : TypeDefinition}
    (h : entry.isAbstract = false) (hkind : definition.kind = entry.kind) :
    definition.ClosedFor c schema entry := by
  cases definition with
  | object o => rfl
  | interface i => simp [TypeEntry.isAbstract, ← hkind, TypeDefinition.kind] at h
  | union u => simp [TypeEntry.isAbstract, ← hkind, TypeDefinition.kind] at h
  | scalar t => trivial
  | enum t => trivial
  | inputObject t => trivial

end BuiltFrom

/-- The catalog of a schema whose types have different names lists all of them but the built-in
scalars, interfaces and unions behind the others, and closes each of them. It warns of the
interfaces and unions for which no types are listed. -/
theorem closes_of_ofSchema {configuration : Configuration} {schema : Introspection.Schema}
    {c : Catalog} (hdistinct : (schema.types.map TypeEntry.name).Nodup)
    (h : ofSchema configuration schema = .ok c) : c.Closes schema := by
  obtain ⟨entries, abstracts, hbuilt⟩ := exists_builtFrom hdistinct h
  have hcompleted := (List.forall₂_and_left _ _).mpr ⟨fun _ hdraft => hdraft, hbuilt.completed⟩
  have habstracts := forall₂_comp (forall₂_drafts hbuilt.read) hcompleted
    fun _ _ _ hof hcompletes => hbuilt.closedFor_of_completesTo hof hcompletes.1 hcompletes.2
  constructor
  · rw [Introspection.Schema.catalogued, hbuilt.types_entries, hbuilt.concreteTypes_entries]
    refine List.rel_append (List.forall₂_map_right_iff.mpr ?_) (List.forall₂_map_right_iff.mpr ?_)
    · refine (forall₂_concrete hbuilt.read).imp ?_
      rintro entry definition ⟨hname, hkind, habstract⟩
      exact ⟨hname, rfl, hkind, BuiltFrom.closedFor_of_concrete habstract hkind⟩
    · refine habstracts.imp ?_
      rintro entry definition ⟨hname, hkind, hclosed, _⟩
      exact ⟨hname, rfl, hkind, hclosed⟩
  · have hwarnings := map_eq_map_of_forall₂ habstracts fun _ _ h => h.2.2.2
    have hothers : (schema.types.filter TypeEntry.isAbstract).filterMap TypeEntry.warning? =
        schema.types.filterMap TypeEntry.warning? := by
      rw [List.filterMap_filter]
      congr 1
      funext entry
      by_cases habstract : entry.isAbstract = true
      · rw [if_pos habstract]
      · rw [if_neg habstract, TypeEntry.warning?_of_not_isAbstract habstract]
    calc c.warnings
        = (abstracts.map Warning.of?).filterMap id := by
          rw [hbuilt.warnings, List.filterMap_map, Function.id_comp]
      _ = ((schema.types.filter TypeEntry.isAbstract).map TypeEntry.warning?).filterMap id := by
          rw [hwarnings]
      _ = schema.types.filterMap TypeEntry.warning? := by
          rw [List.filterMap_map, Function.id_comp, hothers]

end Catalog

/-- Types of many kinds in no order, with references ahead, a member that is listed twice, and
members that declare the same field. -/
def Introspection.Schema.pets : Introspection.Schema where
  queryType := some ⟨none, "Query"⟩
  mutationType := none
  subscriptionType := none
  types := [
    ⟨.union, some "Pet", none, [], [], [], [],
      [⟨some .object, "Dog"⟩, ⟨some .object, "Cat"⟩, ⟨none, "Dog"⟩], none⟩,
    ⟨.object, some "Query", none, [⟨"pet", none, [], .named "Pet", false, none⟩], [], [], [], [],
      none⟩,
    ⟨.scalar, some "String", none, [], [], [], [], [], none⟩,
    ⟨.interface, some "Named", none, [⟨"name", none, [], .named "String", false, none⟩], [], [], [],
      [⟨none, "Cat"⟩, ⟨none, "Dog"⟩, ⟨none, "Cat"⟩], none⟩,
    ⟨.object, some "Dog", none,
      [⟨"name", none, [], .named "String", false, none⟩,
        ⟨"born", none, [], .named "Date", false, none⟩],
      [], [⟨none, "Named"⟩], [], [], none⟩,
    ⟨.interface, some "Tagged", none, [], [], [⟨some .interface, "Named"⟩], [], [], none⟩,
    ⟨.enum, some "Color", none, [], [], [], [], [], none⟩,
    ⟨.object, some "Cat", none,
      [⟨"color", none, [], .named "Color", false, none⟩,
        ⟨"name", none, [], .nonNull (.named "String"), false, none⟩],
      [], [⟨none, "Named"⟩], [], [], none⟩,
    ⟨.scalar, some "Date", none, [], [], [], [], [], none⟩]

namespace Catalog

/-- The union comes behind the types that are listed after it, and the dog declares the name. -/
theorem closes_pets :
    ∃ c, ofSchema .standard .pets = .ok c ∧
      c.types.keys = ["Query", "Dog", "Color", "Cat", "Date", "Pet", "Named", "Tagged"] ∧
      c.possibleTypes? "Named" = some ["Cat", "Dog", "Tagged", "Named"] ∧
      ((c.composite? "Pet").bind fun pet => pet.fields.get? "name") =
        some ⟨"name", none, [], .named "String", false, none⟩ ∧
      c.warnings = [.interfaceWithoutTypes "Tagged"] ∧ c.Closes .pets := by
  have hdistinct : (Introspection.Schema.pets.types.map TypeEntry.name).Nodup := by decide
  have hcomputed : ((ofSchema .standard .pets).toOption.map fun c =>
      (c.types.keys, c.possibleTypes? "Named",
        (c.composite? "Pet").bind fun pet => pet.fields.get? "name", c.warnings)) =
      some (["Query", "Dog", "Color", "Cat", "Date", "Pet", "Named", "Tagged"],
        some ["Cat", "Dog", "Tagged", "Named"],
        some ⟨"name", none, [], .named "String", false, none⟩,
        [.interfaceWithoutTypes "Tagged"]) := by
    decide +kernel
  obtain ⟨c, hc, hresults⟩ := Option.map_eq_some_iff.mp hcomputed
  have hc := toOption_eq_some_iff.mp hc
  simp only [Prod.mk.injEq] at hresults
  obtain ⟨hkeys, hpossible, hname, hwarnings⟩ := hresults
  exact ⟨c, hc, hkeys, hpossible, hname, hwarnings, closes_of_ofSchema hdistinct hc⟩

end Catalog

end QueryCompiler

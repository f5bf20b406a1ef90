import QueryCompiler.Proofs.Schema.Closure

/-!
# Types and their listings

Every type of a catalog says what one of the listed types of its name says. Nothing is assumed about
the names in a schema: of several types with one name the last interface or union counts, or else
the last of the others. If the names are different, each listed type but the built-in scalars is
found in the catalog.
-/

namespace QueryCompiler

open Outcome
open Introspection (NamedRef TypeEntry TypeKind)

namespace Introspection

/-- The references of a listed object or interface to the interfaces that it implements. -/
def TypeEntry.implemented (entry : TypeEntry) : List NamedRef :=
  if entry.kind = .object ∨ entry.kind = .interface then entry.interfaces else []

/-- The references of a listed interface or union to the types behind it. -/
def TypeEntry.members (entry : TypeEntry) : List NamedRef :=
  if entry.kind = .interface ∨ entry.kind = .union then entry.possibleTypes else []

/-- The abstract types are interfaces and unions. -/
theorem TypeEntry.isAbstract_iff {entry : TypeEntry} :
    entry.isAbstract = true ↔ entry.kind = .interface ∨ entry.kind = .union := by
  simp [isAbstract]

/-- Only abstract types have members. -/
theorem TypeEntry.isAbstract_of_mem_members {entry : TypeEntry} {reference : NamedRef}
    (h : reference ∈ entry.members) : entry.isAbstract = true := by
  unfold members at h
  by_cases hkind : entry.kind = .interface ∨ entry.kind = .union
  · exact isAbstract_iff.mpr hkind
  · simp [hkind] at h

/-- Built-in types implement nothing. -/
theorem TypeEntry.isBuiltIn_of_mem_implemented {entry : TypeEntry} {reference : NamedRef}
    (h : reference ∈ entry.implemented) : entry.isBuiltIn = false := by
  unfold implemented at h
  by_cases hkind : entry.kind = .object ∨ entry.kind = .interface
  · rcases hkind with hkind | hkind
    · simp [isBuiltIn, hkind]
    · simp [isBuiltIn, hkind]
  · simp [hkind] at h

namespace Schema

variable {schema : Schema}

/-- A type of the given kind and name is listed. -/
def Lists (schema : Schema) (kind : TypeKind) (name : Name) : Prop :=
  ∃ entry ∈ schema.types, entry.kind = kind ∧ entry.name = some name

/-- The names of the listed interfaces and unions, in order. -/
def abstractNames (schema : Schema) : List Name :=
  schema.types.filterMap fun entry => if entry.isAbstract then entry.name else none

/-- The names of the listed interfaces, in order. -/
def interfaceNames (schema : Schema) : List Name :=
  schema.types.filterMap fun entry => if entry.kind = .interface then entry.name else none

/-- The names of the abstract types. -/
theorem mem_abstractNames_iff {name : Name} :
    name ∈ schema.abstractNames ↔
      ∃ entry ∈ schema.types, entry.isAbstract = true ∧ entry.name = some name := by
  simp [abstractNames]

/-- If types have different names, a name leads to one listed type only. -/
theorem eq_of_name_eq (hdistinct : (schema.types.map TypeEntry.name).Nodup) {a b : TypeEntry}
    (ha : a ∈ schema.types) (hb : b ∈ schema.types) (h : a.name = b.name) : a = b :=
  List.inj_on_of_nodup_map hdistinct ha hb h

end Schema

end Introspection

/-- The types behind an interface or union. -/
def TypeDefinition.possibleTypes : TypeDefinition → List Name
  | interface i => i.possibleTypes
  | union u => u.possibleTypes
  | _ => []

theorem TypeDefinition.kind_eq_object_iff {definition : TypeDefinition} :
    definition.kind = .object ↔ ∃ o, definition = .object o := by
  cases definition <;> simp [kind]

private theorem TypeDefinition.kind_eq_interface_iff {definition : TypeDefinition} :
    definition.kind = .interface ↔ ∃ i, definition = .interface i := by
  cases definition <;> simp [kind]

/-- A definition says what a type is listed with. -/
structure TypeDefinition.ListedAs (definition : TypeDefinition) (entry : TypeEntry) : Prop where
  name : entry.name = some definition.name
  kind : definition.kind = entry.kind
  interfaces : definition.interfaces = entry.implemented.map NamedRef.name
  possibleTypes : definition.possibleTypes = (entry.members.map NamedRef.name).eraseDups

/-! ### Reading one type -/

namespace CatalogEntry

/-- A concrete type implements the interfaces of its entry. -/
theorem interfaces_of_ofNamed {name : Name} {entry : TypeEntry} {definition : TypeDefinition}
    (h : ofNamed name entry = .ok (.concrete definition)) :
    definition.interfaces = entry.implemented.map NamedRef.name := by
  unfold ofNamed at h
  cases hkind : entry.kind with
  | object =>
      simp only [hkind, bind_eq_ok_iff, mapError_eq_ok_iff, pure_eq_ok_iff] at h
      obtain ⟨interfaces, hinterfaces, hdefinition⟩ := h
      cases hdefinition
      simp only [TypeDefinition.interfaces, TypeEntry.implemented, hkind, true_or, if_true,
        eq_map_of_interfaceNames hinterfaces]
  | scalar =>
      cases hscalar : BuiltInScalar.ofName? name with
      | some scalar => simp [hkind, hscalar] at h
      | none =>
          simp only [hkind, hscalar, Except.ok.injEq, concrete.injEq] at h
          simp [← h, TypeDefinition.interfaces, TypeEntry.implemented, hkind]
  | enum =>
      simp only [hkind, Except.ok.injEq, concrete.injEq] at h
      simp [← h, TypeDefinition.interfaces, TypeEntry.implemented, hkind]
  | inputObject =>
      simp only [hkind, Except.ok.injEq, concrete.injEq] at h
      simp [← h, TypeDefinition.interfaces, TypeEntry.implemented, hkind]
  | interface =>
      simp only [hkind, bind_eq_ok_iff, pure_eq_ok_iff] at h
      obtain ⟨_, _, hdefinition⟩ := h
      cases hdefinition
  | union => simp [hkind] at h
  | list => simp [hkind] at h
  | nonNull => simp [hkind] at h

/-- A concrete type is read as it is listed. -/
theorem listedAs_of_ofEntry {entry : TypeEntry} {definition : TypeDefinition}
    (h : ofEntry entry = .ok (.concrete definition)) :
    definition.ListedAs entry ∧ entry.isAbstract = false := by
  cases readOf_of_ofEntry h with
  | concrete _ habstract hname hkind =>
      have hinterfaces : definition.interfaces = entry.implemented.map NamedRef.name := by
        rw [ofEntry, hname] at h
        exact interfaces_of_ofNamed h
      have hmembers : entry.members = [] := by
        have hnot : ¬ (entry.kind = .interface ∨ entry.kind = .union) := by
          rw [← TypeEntry.isAbstract_iff, habstract]
          exact Bool.false_ne_true
        rw [TypeEntry.members, if_neg hnot]
      have hpossible : definition.possibleTypes = [] := by
        cases definition with
        | interface i => simp [TypeEntry.isAbstract, ← hkind, TypeDefinition.kind] at habstract
        | union u => simp [TypeEntry.isAbstract, ← hkind, TypeDefinition.kind] at habstract
        | scalar t => rfl
        | object t => rfl
        | enum t => rfl
        | inputObject t => rfl
      refine ⟨⟨hname, hkind, hinterfaces, ?_⟩, habstract⟩
      rw [hpossible, hmembers]
      rfl

end CatalogEntry

namespace AbstractEntry

variable {entry : TypeEntry} {draft : AbstractEntry}

/-- Drafts are made of abstract types. -/
theorem DraftOf.isAbstract (h : draft.DraftOf entry) : entry.isAbstract = true := by
  cases h with
  | interface hkind _ => exact TypeEntry.isAbstract_iff.mpr (Or.inl hkind)
  | union hkind _ => exact TypeEntry.isAbstract_iff.mpr (Or.inr hkind)

/-- A draft refers to the members of its entry. -/
theorem DraftOf.references_eq (h : draft.DraftOf entry) : draft.references = entry.members := by
  rw [TypeEntry.members, if_pos (TypeEntry.isAbstract_iff.mp h.isAbstract)]
  cases h <;> rfl

/-- A draft implements the interfaces of its entry. -/
theorem DraftOf.interfaces_eq (h : draft.DraftOf entry) :
    draft.interfaces = entry.implemented.map NamedRef.name := by
  cases h with
  | interface hkind _ => simp [interfaces, TypeEntry.implemented, hkind]
  | union hkind _ => simp [interfaces, TypeEntry.implemented, hkind]

/-- A draft of an interface has its name as the name of an interface. -/
theorem DraftOf.interfaceName?_eq (h : draft.DraftOf entry) :
    draft.interfaceName? = if entry.kind = .interface then entry.name else none := by
  cases h with
  | interface hkind hname => simp [interfaceName?, hkind, hname]
  | union hkind _ => simp [interfaceName?, hkind]

variable {types : OrderedMap Name TypeDefinition} {sub : Name → List Name}
  {definition : TypeDefinition}

/-- Whatever is completed refers to object types only. -/
theorem CompletesTo.objects (h : draft.CompletesTo types sub definition) :
    ∀ reference ∈ draft.references, (reference.kind = none ∨ reference.kind = some .object) ∧
      ∃ o, object? types reference.name = some o := by
  cases h with
  | interface hpossible => exact (objectNames_eq_ok_iff.mp hpossible).1
  | union hpossible => exact (objectNames_eq_ok_iff.mp hpossible).1

/-- The possible types of a completed draft are those that it refers to, each once. -/
theorem CompletesTo.possibleTypes_eq (h : draft.CompletesTo types sub definition) :
    definition.possibleTypes = (draft.references.map NamedRef.name).eraseDups := by
  cases h with
  | interface hpossible => exact (objectNames_eq_ok_iff.mp hpossible).2.symm
  | union hpossible => exact (objectNames_eq_ok_iff.mp hpossible).2.symm

/-- A completed draft implements the interfaces of the draft. -/
theorem CompletesTo.interfaces_eq (h : draft.CompletesTo types sub definition) :
    definition.interfaces = draft.interfaces := by
  cases h <;> rfl

/-- An interface or union is completed to what it is listed as. -/
theorem CompletesTo.listedAs (h : draft.CompletesTo types sub definition)
    (hof : draft.DraftOf entry) : definition.ListedAs entry where
  name := by rw [hof.name_eq, h.name_eq]
  kind := by
    cases hof with
    | interface hkind _ => cases h; exact hkind.symm
    | union hkind _ => cases h; exact hkind.symm
  interfaces := by rw [h.interfaces_eq, hof.interfaces_eq]
  possibleTypes := by rw [h.possibleTypes_eq, hof.references_eq]

end AbstractEntry

/-! ### Reading all types -/

namespace Introspection.Schema

/-- What has been read of the listed types, and what the interfaces and unions among it have been
completed to. -/
structure Yields (schema : Schema) (entries : List CatalogEntry) (abstracts : List TypeDefinition) :
    Prop where
  read : schema.types.mapM CatalogEntry.ofEntry = .ok entries
  completed : AbstractEntry.complete (Catalog.concreteTypes entries)
    (AbstractEntry.subInterfaces (entries.filterMap CatalogEntry.abstract?)) []
    (entries.filterMap CatalogEntry.abstract?) = .ok abstracts

end Introspection.Schema

namespace Catalog

open Introspection (Schema)

variable {schema : Schema} {entries : List CatalogEntry} {abstracts : List TypeDefinition}
  {name : Name} {definition : TypeDefinition}

/-- A catalog holds what the entries of its schema yield. -/
theorem exists_yields_of_ofSchema {configuration : Configuration} {c : Catalog}
    (h : ofSchema configuration schema = .ok c) :
    ∃ entries abstracts, schema.Yields entries abstracts ∧
      c.types = allTypes entries abstracts := by
  obtain ⟨entries, abstracts, _, _, _, _, hread, hcompleted, _, _, _, _, _, rfl⟩ :=
    ofSchema_eq_ok_iff.mp h
  exact ⟨entries, abstracts, ⟨hread, hcompleted⟩, rfl⟩

private theorem mem_concrete_iff :
    definition ∈ entries.filterMap CatalogEntry.concrete? ↔ .concrete definition ∈ entries := by
  rw [List.mem_filterMap]
  constructor
  · rintro ⟨read, hread, hconcrete⟩
    cases read with
    | concrete other =>
        cases hconcrete
        exact hread
    | builtIn => cases hconcrete
    | abstract draft => cases hconcrete
  · intro hread
    exact ⟨_, hread, rfl⟩

private theorem mem_drafts_iff {draft : AbstractEntry} :
    draft ∈ entries.filterMap CatalogEntry.abstract? ↔ .abstract draft ∈ entries := by
  rw [List.mem_filterMap]
  constructor
  · rintro ⟨read, hread, habstract⟩
    cases read with
    | abstract other =>
        cases habstract
        exact hread
    | builtIn => cases habstract
    | concrete other => cases habstract
  · intro hread
    exact ⟨_, hread, rfl⟩

section Read

variable (hread : schema.types.mapM CatalogEntry.ofEntry = .ok entries)

include hread

/-- A concrete type is listed as it is found. -/
theorem exists_listedAs_of_concreteTypes (h : (concreteTypes entries).get? name = some definition) :
    ∃ entry ∈ schema.types, entry.name = some name ∧ definition.ListedAs entry ∧
      entry.isAbstract = false := by
  have hmem := OrderedMap.mem_entries_ofList (OrderedMap.get?_eq_some_iff.mp h)
  obtain ⟨_, hconcrete, heq⟩ := List.mem_map.mp hmem
  cases heq
  obtain ⟨entry, hentry, hof⟩ := mem_of_mapM_eq_ok hread (mem_concrete_iff.mp hconcrete)
  obtain ⟨hlisted, habstract⟩ := CatalogEntry.listedAs_of_ofEntry hof
  exact ⟨entry, hentry, hlisted.name, hlisted, habstract⟩

/-- The names of the concrete types. -/
theorem mem_keys_concreteTypes_iff :
    name ∈ (concreteTypes entries).keys ↔ ∃ entry ∈ schema.types, entry.name = some name ∧
      entry.isBuiltIn = false ∧ entry.isAbstract = false := by
  constructor
  · intro hkey
    rcases OrderedMap.mem_keys_insertAll_iff.mp hkey with hempty | hmem
    · simp [OrderedMap.keys, OrderedMap.empty] at hempty
    · rw [List.map_map, List.mem_map] at hmem
      obtain ⟨definition, hconcrete, rfl⟩ := hmem
      obtain ⟨entry, hentry, hof⟩ := mem_of_mapM_eq_ok hread (mem_concrete_iff.mp hconcrete)
      cases CatalogEntry.readOf_of_ofEntry hof with
      | concrete hbuiltIn habstract hname _ => exact ⟨entry, hentry, hname, hbuiltIn, habstract⟩
  · rintro ⟨entry, hentry, hname, hbuiltIn, habstract⟩
    obtain ⟨read, hmem, hof⟩ := exists_of_forall₂_of_mem_left (mapM_eq_ok_iff.mp hread) hentry
    apply OrderedMap.mem_keys_insertAll_iff.mpr
    right
    cases CatalogEntry.readOf_of_ofEntry hof with
    | builtIn hbuiltIn' _ => simp [hbuiltIn] at hbuiltIn'
    | abstract _ habstract' _ => simp [habstract] at habstract'
    | concrete _ _ hname' _ =>
        rw [hname, Option.some.injEq] at hname'
        rw [List.map_map, hname']
        exact List.mem_map_of_mem (mem_concrete_iff.mpr hmem)

/-- The names of interfaces and unions are those that are listed. -/
theorem map_name_drafts :
    (entries.filterMap CatalogEntry.abstract?).map AbstractEntry.name = schema.abstractNames := by
  have hstep : schema.types.map (fun entry => if entry.isAbstract then entry.name else none) =
      entries.map fun read => read.abstract?.map AbstractEntry.name := by
    apply map_eq_map_of_forall₂ (mapM_eq_ok_iff.mp hread)
    intro entry read hof
    cases CatalogEntry.readOf_of_ofEntry hof with
    | builtIn _ habstract => simp [habstract, CatalogEntry.abstract?]
    | concrete _ habstract _ _ => simp [habstract, CatalogEntry.abstract?]
    | abstract _ habstract hdraft => simp [habstract, CatalogEntry.abstract?, hdraft.name_eq]
  calc (entries.filterMap CatalogEntry.abstract?).map AbstractEntry.name
      = (entries.map fun read => read.abstract?.map AbstractEntry.name).filterMap id := by
        rw [List.map_filterMap, List.filterMap_map, Function.id_comp]
    _ = schema.abstractNames := by
        rw [← hstep, List.filterMap_map, Function.id_comp, Schema.abstractNames]

/-- The drafts of interfaces have the names of the interfaces of the schema, in their order. -/
theorem filterMap_interfaceName?_drafts :
    (entries.filterMap CatalogEntry.abstract?).filterMap AbstractEntry.interfaceName? =
      schema.interfaceNames := by
  have hstep :
      schema.types.map (fun entry => if entry.kind = .interface then entry.name else none) =
        entries.map fun read => read.abstract?.bind AbstractEntry.interfaceName? := by
    apply map_eq_map_of_forall₂ (mapM_eq_ok_iff.mp hread)
    intro entry read hof
    have hconcrete (habstract : entry.isAbstract = false) : entry.kind ≠ .interface := by
      intro hkind
      simp [TypeEntry.isAbstract, hkind] at habstract
    cases CatalogEntry.readOf_of_ofEntry hof with
    | builtIn _ habstract => simp [hconcrete habstract, CatalogEntry.abstract?]
    | concrete _ habstract _ _ => simp [hconcrete habstract, CatalogEntry.abstract?]
    | abstract _ _ hdraft => simp [CatalogEntry.abstract?, hdraft.interfaceName?_eq]
  calc (entries.filterMap CatalogEntry.abstract?).filterMap AbstractEntry.interfaceName?
      = (entries.map fun read => read.abstract?.bind AbstractEntry.interfaceName?).filterMap
          id := by
        rw [List.filterMap_filterMap, List.filterMap_map, Function.id_comp]
    _ = schema.interfaceNames := by
        rw [← hstep, List.filterMap_map, Function.id_comp, Schema.interfaceNames]

/-- What is read of an interface or union. -/
theorem exists_draftOf {draft : AbstractEntry}
    (h : draft ∈ entries.filterMap CatalogEntry.abstract?) :
    ∃ entry ∈ schema.types, draft.DraftOf entry := by
  obtain ⟨entry, hentry, hof⟩ := mem_of_mapM_eq_ok hread (mem_drafts_iff.mp h)
  cases CatalogEntry.readOf_of_ofEntry hof with
  | abstract _ _ hdraft => exact ⟨entry, hentry, hdraft⟩

/-- Every abstract type has a draft. -/
theorem exists_draft_of_isAbstract {entry : TypeEntry} (hentry : entry ∈ schema.types)
    (h : entry.isAbstract = true) :
    ∃ draft ∈ entries.filterMap CatalogEntry.abstract?, draft.DraftOf entry := by
  obtain ⟨read, hmem, hof⟩ := exists_of_forall₂_of_mem_left (mapM_eq_ok_iff.mp hread) hentry
  cases CatalogEntry.readOf_of_ofEntry hof with
  | builtIn _ habstract => simp [h] at habstract
  | concrete _ habstract _ _ => simp [h] at habstract
  | abstract _ _ hdraft => exact ⟨_, mem_drafts_iff.mpr hmem, hdraft⟩

end Read

/-! ### Finding types -/

/-- An interface or union is found if it is the last of its name, and another type if there is no
interface or union of its name. -/
theorem get?_allTypes_eq_some_iff :
    (allTypes entries abstracts).get? name = some definition ↔
      (∃ before after, abstracts = before ++ definition :: after ∧ definition.name = name ∧
        name ∉ after.map TypeDefinition.name) ∨
      name ∉ abstracts.map TypeDefinition.name ∧
        (concreteTypes entries).get? name = some definition := by
  have hnames (definitions : List TypeDefinition) :
      (definitions.map fun definition => (definition.name, definition)).map Prod.fst =
        definitions.map TypeDefinition.name := by
    rw [List.map_map]
    rfl
  rw [allTypes, OrderedMap.get?_insertAll_eq_some_iff, hnames]
  apply or_congr_left
  constructor
  · rintro ⟨_, _, hsplit, hafter⟩
    obtain ⟨before, rest, rfl, rfl, hrest⟩ := List.map_eq_append_iff.mp hsplit
    obtain ⟨found, after, rfl, heq, rfl⟩ := List.map_eq_cons_iff.mp hrest
    cases heq
    rw [hnames] at hafter
    exact ⟨before, after, rfl, rfl, hafter⟩
  · rintro ⟨before, after, rfl, rfl, hafter⟩
    refine ⟨before.map fun definition => (definition.name, definition),
      after.map fun definition => (definition.name, definition), by simp, ?_⟩
    rwa [hnames]

end Catalog

namespace Introspection.Schema.Yields

open Catalog

variable {schema : Schema} {entries : List CatalogEntry} {abstracts : List TypeDefinition}
  {name : Name} {definition : TypeDefinition}

/-- Each entry is read on its own. -/
theorem readOf (h : schema.Yields entries abstracts) :
    List.Forall₂ (fun entry read => read.ReadOf entry) schema.types entries :=
  (mapM_eq_ok_iff.mp h.read).imp fun _ _ => CatalogEntry.readOf_of_ofEntry

/-- The finished abstract types have the names of those of the schema, in their order. -/
theorem map_name_abstracts (h : schema.Yields entries abstracts) :
    abstracts.map TypeDefinition.name = schema.abstractNames := by
  rw [AbstractEntry.map_name_of_complete h.completed, map_name_drafts h.read]

/-- What a completed interface or union comes from. -/
theorem exists_completesTo (h : schema.Yields entries abstracts) (hmem : definition ∈ abstracts) :
    ∃ entry ∈ schema.types, ∃ draft ∈ entries.filterMap CatalogEntry.abstract?,
      draft.DraftOf entry ∧ ∃ own, draft.CompletesTo (concreteTypes entries) own definition := by
  obtain ⟨draft, hdraft, hcompletes⟩ :=
    exists_of_forall₂_of_mem_right (AbstractEntry.forall₂_of_complete h.completed) hmem
  obtain ⟨entry, hentry, hof⟩ := exists_draftOf h.read hdraft
  exact ⟨entry, hentry, draft, hdraft, hof, hcompletes⟩

/-- A type is listed as it is found. -/
theorem exists_listedAs (h : schema.Yields entries abstracts)
    (hget : (allTypes entries abstracts).get? name = some definition) :
    ∃ entry ∈ schema.types, entry.name = some name ∧ definition.ListedAs entry := by
  rcases get?_allTypes_eq_some_iff.mp hget with ⟨before, after, rfl, rfl, _⟩ | ⟨_, hconcrete⟩
  · have hmem : definition ∈ before ++ definition :: after :=
      List.mem_append_right _ List.mem_cons_self
    obtain ⟨entry, hentry, _, _, hof, _, hcompletes⟩ := h.exists_completesTo hmem
    have hlisted := hcompletes.listedAs hof
    exact ⟨entry, hentry, hlisted.name, hlisted⟩
  · obtain ⟨entry, hentry, hname, hlisted, _⟩ := exists_listedAs_of_concreteTypes h.read hconcrete
    exact ⟨entry, hentry, hname, hlisted⟩

/-- All names are found but those of built-in scalars. -/
theorem exists_get?_iff (h : schema.Yields entries abstracts) :
    (∃ definition, (allTypes entries abstracts).get? name = some definition) ↔
      ∃ entry ∈ schema.types, entry.name = some name ∧ entry.isBuiltIn = false := by
  rw [← OrderedMap.mem_keys_iff, allTypes, OrderedMap.mem_keys_insertAll_iff, List.map_map]
  have habstracts : abstracts.map (Prod.fst ∘ fun definition => (definition.name, definition)) =
      schema.abstractNames := h.map_name_abstracts
  rw [mem_keys_concreteTypes_iff h.read, habstracts, mem_abstractNames_iff]
  constructor
  · rintro (⟨entry, hentry, hname, hbuiltIn, _⟩ | ⟨entry, hentry, habstract, hname⟩)
    · exact ⟨entry, hentry, hname, hbuiltIn⟩
    · refine ⟨entry, hentry, hname, ?_⟩
      rcases TypeEntry.isAbstract_iff.mp habstract with hkind | hkind
      · simp [TypeEntry.isBuiltIn, hkind]
      · simp [TypeEntry.isBuiltIn, hkind]
  · rintro ⟨entry, hentry, hname, hbuiltIn⟩
    cases habstract : entry.isAbstract with
    | true => exact Or.inr ⟨entry, hentry, habstract, hname⟩
    | false => exact Or.inl ⟨entry, hentry, hname, hbuiltIn, habstract⟩

/-- If types have different names, each of them is found as it is listed. -/
theorem exists_get?_of_mem (h : schema.Yields entries abstracts)
    (hdistinct : (schema.types.map TypeEntry.name).Nodup) {entry : TypeEntry}
    (hentry : entry ∈ schema.types) (hname : entry.name = some name)
    (hbuiltIn : entry.isBuiltIn = false) :
    ∃ definition, (allTypes entries abstracts).get? name = some definition ∧
      definition.ListedAs entry := by
  obtain ⟨definition, hget⟩ := h.exists_get?_iff.mpr ⟨entry, hentry, hname, hbuiltIn⟩
  obtain ⟨other, hother, hname', hlisted⟩ := h.exists_listedAs hget
  have heq : other = entry := eq_of_name_eq hdistinct hother hentry (hname'.trans hname.symm)
  exact ⟨definition, hget, heq ▸ hlisted⟩

/-- If types have different names, those of a kind are found that are listed. -/
theorem exists_get?_kind_iff (h : schema.Yields entries abstracts)
    (hdistinct : (schema.types.map TypeEntry.name).Nodup) (kind : TypeKind)
    (hkind : kind ≠ .scalar) :
    (∃ definition, (allTypes entries abstracts).get? name = some definition ∧
      definition.kind = kind) ↔ schema.Lists kind name := by
  constructor
  · rintro ⟨definition, hget, rfl⟩
    obtain ⟨entry, hentry, hname, hlisted⟩ := h.exists_listedAs hget
    exact ⟨entry, hentry, hlisted.kind.symm, hname⟩
  · rintro ⟨entry, hentry, rfl, hname⟩
    have hbuiltIn : entry.isBuiltIn = false := by simp [TypeEntry.isBuiltIn, hkind]
    obtain ⟨definition, hget, hlisted⟩ := h.exists_get?_of_mem hdistinct hentry hname hbuiltIn
    exact ⟨definition, hget, hlisted.kind⟩

/-- The objects of a catalog are those that its schema lists. -/
theorem exists_get?_object_iff (h : schema.Yields entries abstracts)
    (hdistinct : (schema.types.map TypeEntry.name).Nodup) :
    (∃ o, (allTypes entries abstracts).get? name = some (.object o)) ↔
      schema.Lists .object name := by
  rw [← h.exists_get?_kind_iff hdistinct .object (by decide)]
  simp only [TypeDefinition.kind_eq_object_iff]
  constructor
  · rintro ⟨o, hget⟩
    exact ⟨_, hget, o, rfl⟩
  · rintro ⟨_, hget, o, rfl⟩
    exact ⟨o, hget⟩

/-- The interfaces of a catalog are those that its schema lists. -/
theorem exists_get?_interface_iff (h : schema.Yields entries abstracts)
    (hdistinct : (schema.types.map TypeEntry.name).Nodup) :
    (∃ i, (allTypes entries abstracts).get? name = some (.interface i)) ↔
      schema.Lists .interface name := by
  rw [← h.exists_get?_kind_iff hdistinct .interface (by decide)]
  simp only [TypeDefinition.kind_eq_interface_iff]
  constructor
  · rintro ⟨i, hget⟩
    exact ⟨_, hget, i, rfl⟩
  · rintro ⟨_, hget, i, rfl⟩
    exact ⟨i, hget⟩

end Introspection.Schema.Yields

end QueryCompiler

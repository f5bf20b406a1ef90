import QueryCompiler.Proofs.Schema.Listed

/-!
# Which schemas make a catalog

A schema whose types have different names makes a catalog exactly if it is well formed: all types
have names and are not wrapped, references lead to listed types of the right kind, and operations
start from listed objects. References are checked in four passes, over the listed types, over the
interfaces and unions among them, over the finished catalog and over the root types. If one of the
passes fails, it reports something that is wrong with the schema itself.
-/

namespace QueryCompiler

open Outcome
open Introspection (NamedRef Schema TypeEntry TypeKind)

namespace Introspection.Schema

/-- A reference leads to a listed type of the given kind, and claims no other kind for it. -/
def Leads (schema : Schema) (kind : TypeKind) (reference : NamedRef) : Prop :=
  (reference.kind = none ∨ reference.kind = some kind) ∧ schema.Lists kind reference.name

/-- The reference to the type that operations of a kind start from, if there is one. -/
def root? (schema : Schema) : OperationKind → Option NamedRef
  | .query => schema.queryType
  | .mutation => schema.mutationType
  | .subscription => schema.subscriptionType

/-- Queries can be made, and all operations start from listed objects. -/
structure WellRooted (schema : Schema) : Prop where
  query : ∃ reference, schema.root? .query = some reference
  objects : ∀ operation reference, schema.root? operation = some reference →
    schema.Lists .object reference.name

/-- Nothing is wrong with the types of a schema and with the references in it. -/
structure WellFormed (schema : Schema) : Prop where
  named : ∀ entry ∈ schema.types, ∃ name, entry.name = some name
  unwrapped : ∀ entry ∈ schema.types, entry.kind ≠ .list ∧ entry.kind ≠ .nonNull
  implemented : ∀ entry ∈ schema.types, ∀ reference ∈ entry.implemented,
    schema.Leads .interface reference
  members : ∀ entry ∈ schema.types, ∀ reference ∈ entry.members, schema.Leads .object reference
  rooted : schema.WellRooted

/-- Something is wrong with a schema, and how it is reported. -/
inductive Fails (schema : Schema) : Failure → Prop
  | wrapped {entry} : entry ∈ schema.types → entry.kind = .list ∨ entry.kind = .nonNull →
      Fails schema (.inconsistency (.wrappedTopLevelType entry.kind.description))
  | unnamed {entry} : entry ∈ schema.types → entry.kind ≠ .list → entry.kind ≠ .nonNull →
      entry.name = none → Fails schema (.configuration (.unnamedType entry.kind))
  | notInterface {entry name reference} : entry ∈ schema.types → entry.name = some name →
      reference ∈ entry.implemented → ¬ schema.Leads .interface reference →
      Fails schema (.inconsistency (.unexpectedTypeKind reference.name name "an interface"))
  | undefinedInterface {entry name reference} : entry ∈ schema.types → entry.name = some name →
      reference ∈ entry.implemented → ¬ schema.Leads .interface reference →
      Fails schema (.inconsistency
        (.unresolvedType reference.name ("the interfaces of `" ++ name ++ "`")))
  | notObject {entry name reference} : entry ∈ schema.types → entry.name = some name →
      reference ∈ entry.members → ¬ schema.Leads .object reference →
      Fails schema (.inconsistency (.unexpectedTypeKind reference.name name "an object"))
  | undefinedObject {entry name reference} : entry ∈ schema.types → entry.name = some name →
      reference ∈ entry.members → ¬ schema.Leads .object reference →
      Fails schema (.inconsistency (.undefinedPossibleType reference.name name))
  | noQuery : schema.root? .query = none → Fails schema (.configuration .missingQueryType)
  | rootNotObject {operation reference description} : schema.root? operation = some reference →
      ¬ schema.Lists .object reference.name →
      Fails schema (.configuration (.rootNotObject operation reference.name description))
  | undefinedRoot {operation reference} : schema.root? operation = some reference →
      ¬ schema.Lists .object reference.name →
      Fails schema (.configuration (.undefinedRoot operation reference.name))

variable {schema : Schema} {failure : Failure}

/-- Names and root types are a matter of configuration, and wrapped types and references of
inconsistency. Nothing else is reported of a schema. -/
theorem Fails.cause (h : schema.Fails failure) :
    (∃ problem, failure = .configuration problem ∧
      ((∃ entry ∈ schema.types, entry.kind ≠ .list ∧ entry.kind ≠ .nonNull ∧ entry.name = none) ∨
        ¬ schema.WellRooted)) ∨
    ∃ e, failure = .inconsistency e ∧
      ((∃ entry ∈ schema.types, entry.kind = .list ∨ entry.kind = .nonNull) ∨
        (∃ entry ∈ schema.types, ∃ reference ∈ entry.implemented,
          ¬ schema.Leads .interface reference) ∨
        ∃ entry ∈ schema.types, ∃ reference ∈ entry.members, ¬ schema.Leads .object reference) := by
  cases h with
  | wrapped hentry hkind => exact Or.inr ⟨_, rfl, Or.inl ⟨_, hentry, hkind⟩⟩
  | unnamed hentry hlist hnonNull hname =>
      exact Or.inl ⟨_, rfl, Or.inl ⟨_, hentry, hlist, hnonNull, hname⟩⟩
  | notInterface hentry _ hreference hnot =>
      exact Or.inr ⟨_, rfl, Or.inr (Or.inl ⟨_, hentry, _, hreference, hnot⟩)⟩
  | undefinedInterface hentry _ hreference hnot =>
      exact Or.inr ⟨_, rfl, Or.inr (Or.inl ⟨_, hentry, _, hreference, hnot⟩)⟩
  | notObject hentry _ hreference hnot =>
      exact Or.inr ⟨_, rfl, Or.inr (Or.inr ⟨_, hentry, _, hreference, hnot⟩)⟩
  | undefinedObject hentry _ hreference hnot =>
      exact Or.inr ⟨_, rfl, Or.inr (Or.inr ⟨_, hentry, _, hreference, hnot⟩)⟩
  | noQuery hnone =>
      refine Or.inl ⟨_, rfl, Or.inr fun hrooted => ?_⟩
      obtain ⟨_, hsome⟩ := hrooted.query
      rw [hnone] at hsome
      cases hsome
  | rootNotObject hroot hnot =>
      exact Or.inl ⟨_, rfl, Or.inr fun hrooted => hnot (hrooted.objects _ _ hroot)⟩
  | undefinedRoot hroot hnot =>
      exact Or.inl ⟨_, rfl, Or.inr fun hrooted => hnot (hrooted.objects _ _ hroot)⟩

/-- What is reported of a schema keeps it from being well formed. -/
theorem Fails.not_wellFormed (h : schema.Fails failure) : ¬ schema.WellFormed := by
  intro hwell
  rcases h.cause with ⟨_, _, ⟨entry, hentry, _, _, hname⟩ | hroots⟩ |
    ⟨_, _, ⟨entry, hentry, hkind⟩ | ⟨entry, hentry, reference, hreference, hnot⟩ |
      ⟨entry, hentry, reference, hreference, hnot⟩⟩
  · obtain ⟨_, hsome⟩ := hwell.named entry hentry
    rw [hname] at hsome
    cases hsome
  · exact hroots hwell.rooted
  · obtain ⟨hlist, hnonNull⟩ := hwell.unwrapped entry hentry
    exact hkind.elim hlist hnonNull
  · exact hnot (hwell.implemented entry hentry reference hreference)
  · exact hnot (hwell.members entry hentry reference hreference)

end Introspection.Schema

/-! ### Listed types -/

/-- The wrappers are lists and non-null types. -/
theorem Introspection.TypeKind.isWrapper_iff {kind : TypeKind} :
    kind.isWrapper = true ↔ kind = .list ∨ kind = .nonNull := by
  cases kind <;> simp [isWrapper]

namespace CatalogEntry

variable {schema : Schema} {entry : TypeEntry} {failure : Failure}

/-- A schema fails for an implemented interface of another kind. -/
theorem fails_of_interfaceNames {name : Name} (hentry : entry ∈ schema.types)
    (hname : entry.name = some name) (hkind : entry.kind = .object ∨ entry.kind = .interface)
    (h : (interfaceNames name entry.interfaces).mapError .inconsistency = .error failure) :
    schema.Fails failure := by
  obtain ⟨e, herror, rfl⟩ := mapError_eq_error_iff.mp h
  obtain ⟨reference, hreference, hclaimed, rfl⟩ := exists_of_interfaceNames_eq_error herror
  have himplemented : reference ∈ entry.implemented := by
    rw [TypeEntry.implemented, if_pos hkind]
    exact hreference
  exact .notInterface hentry hname himplemented fun hleads => hclaimed hleads.1

/-- A schema fails as one of its entries does. -/
theorem fails_of_ofEntry (hentry : entry ∈ schema.types) (h : ofEntry entry = .error failure) :
    schema.Fails failure := by
  unfold ofEntry at h
  cases hname : entry.name with
  | none =>
      by_cases hwrapper : entry.kind.isWrapper = true
      · simp only [hname, hwrapper, if_true, Except.error.injEq] at h
        exact h ▸ .wrapped hentry (TypeKind.isWrapper_iff.mp hwrapper)
      · simp only [hname, if_neg hwrapper, Except.error.injEq] at h
        rw [TypeKind.isWrapper_iff, not_or] at hwrapper
        exact h ▸ .unnamed hentry hwrapper.1 hwrapper.2 hname
  | some name =>
      simp only [hname, ofNamed] at h
      cases hkind : entry.kind with
      | object =>
          simp only [hkind, bind_eq_error_iff, pure_ne_error, and_false, exists_false,
            or_false] at h
          exact fails_of_interfaceNames hentry hname (Or.inl hkind) h
      | interface =>
          simp only [hkind, bind_eq_error_iff, pure_ne_error, and_false, exists_false,
            or_false] at h
          exact fails_of_interfaceNames hentry hname (Or.inr hkind) h
      | list =>
          simp only [hkind, Except.error.injEq] at h
          have hfails := Schema.Fails.wrapped hentry (Or.inl hkind)
          rwa [hkind, h] at hfails
      | nonNull =>
          simp only [hkind, Except.error.injEq] at h
          have hfails := Schema.Fails.wrapped hentry (Or.inr hkind)
          rwa [hkind, h] at hfails
      | scalar => cases hscalar : BuiltInScalar.ofName? name <;> simp [hkind, hscalar] at h
      | union => simp [hkind] at h
      | enum => simp [hkind] at h
      | inputObject => simp [hkind] at h

/-- A listed type that can be read has a name and is not wrapped, and its references to interfaces
claim no other kind. -/
theorem wellFormed_of_ofEntry {read : CatalogEntry} (h : ofEntry entry = .ok read) :
    (∃ name, entry.name = some name) ∧ (entry.kind ≠ .list ∧ entry.kind ≠ .nonNull) ∧
      ∀ reference ∈ entry.implemented,
        reference.kind = none ∨ reference.kind = some .interface := by
  cases hname : entry.name with
  | none => cases hwrapper : entry.kind.isWrapper <;> simp [ofEntry, hname, hwrapper] at h
  | some name =>
      simp only [ofEntry, hname, ofNamed] at h
      refine ⟨⟨name, rfl⟩, ?_, ?_⟩
      · constructor
        · intro hkind
          simp [hkind] at h
        · intro hkind
          simp [hkind] at h
      · unfold TypeEntry.implemented
        by_cases hkind : entry.kind = .object ∨ entry.kind = .interface
        · rw [if_pos hkind, ← @exists_interfaceNames_eq_ok_iff name]
          rcases hkind with hkind | hkind
          · simp only [hkind, bind_eq_ok_iff, mapError_eq_ok_iff] at h
            obtain ⟨names, hnames, _⟩ := h
            exact ⟨names, hnames⟩
          · simp only [hkind, bind_eq_ok_iff, mapError_eq_ok_iff] at h
            obtain ⟨names, hnames, _⟩ := h
            exact ⟨names, hnames⟩
        · rw [if_neg hkind]
          rintro _ ⟨⟩

end CatalogEntry

namespace Catalog

variable {configuration : Configuration} {schema : Schema} {entries : List CatalogEntry}
  {abstracts : List TypeDefinition} {failure : Failure} {name : Name}

/-- If listed types that have names have different ones and all could be read, then all have
different names. -/
theorem nodup_map_name (hdistinct : (schema.types.filterMap TypeEntry.name).Nodup)
    (hread : schema.types.mapM CatalogEntry.ofEntry = .ok entries) :
    (schema.types.map TypeEntry.name).Nodup := by
  have hnamed : ∀ entry ∈ schema.types, ∃ name, entry.name = some name := by
    intro entry hentry
    obtain ⟨_, hof⟩ := exists_mapM_eq_ok_iff.mp ⟨entries, hread⟩ entry hentry
    exact (CatalogEntry.wellFormed_of_ofEntry hof).1
  rw [← map_some_filterMap hnamed]
  exact hdistinct.map fun _ _ => Option.some.inj

/-! ### Interfaces and unions -/

/-- The objects among the concrete types are those that are listed. -/
theorem exists_object?_iff (hdistinct : (schema.types.map TypeEntry.name).Nodup)
    (hread : schema.types.mapM CatalogEntry.ofEntry = .ok entries) :
    (∃ o, AbstractEntry.object? (concreteTypes entries) name = some o) ↔
      schema.Lists .object name := by
  constructor
  · rintro ⟨o, ho⟩
    obtain ⟨definition, hget, hobject⟩ := Option.bind_eq_some_iff.mp ho
    obtain ⟨entry, hentry, hname, hlisted, _⟩ := exists_listedAs_of_concreteTypes hread hget
    rw [TypeDefinition.object?_eq_some_iff.mp hobject] at hlisted
    exact ⟨entry, hentry, hlisted.kind.symm, hname⟩
  · rintro ⟨entry, hentry, hkind, hname⟩
    have hkey : name ∈ (concreteTypes entries).keys := by
      refine (mem_keys_concreteTypes_iff hread).mpr ⟨entry, hentry, hname, ?_, ?_⟩
      · simp [TypeEntry.isBuiltIn, hkind]
      · simp [TypeEntry.isAbstract, hkind]
    obtain ⟨definition, hget⟩ := OrderedMap.mem_keys_iff.mp hkey
    obtain ⟨other, hother, hname', hlisted, _⟩ := exists_listedAs_of_concreteTypes hread hget
    have heq : other = entry :=
      Schema.eq_of_name_eq hdistinct hother hentry (hname'.trans hname.symm)
    have hobject : definition.kind = .object := by rw [hlisted.kind, heq, hkind]
    obtain ⟨o, rfl⟩ := TypeDefinition.kind_eq_object_iff.mp hobject
    exact ⟨o, Option.bind_eq_some_iff.mpr ⟨_, hget, rfl⟩⟩

/-- A schema fails for a possible type that is no object. -/
theorem fails_of_complete (hdistinct : (schema.types.map TypeEntry.name).Nodup)
    (hread : schema.types.mapM CatalogEntry.ofEntry = .ok entries) {sub : Name → List Name}
    {e : Inconsistency}
    (h : AbstractEntry.complete (concreteTypes entries) sub []
      (entries.filterMap CatalogEntry.abstract?) = .error e) :
    schema.Fails (.inconsistency e) := by
  obtain ⟨draft, hdraft, reference, hreference, herror⟩ :=
    AbstractEntry.exists_of_complete_eq_error h
  obtain ⟨entry, hentry, hof⟩ := exists_draftOf hread hdraft
  rw [hof.references_eq] at hreference
  rcases AbstractEntry.objectName_eq_error_iff.mp herror with
    ⟨hclaimed, rfl⟩ | ⟨_, hobject, rfl⟩
  · exact .notObject hentry hof.name_eq hreference fun hleads => hclaimed hleads.1
  · refine .undefinedObject hentry hof.name_eq hreference fun hleads => ?_
    obtain ⟨o, ho⟩ := (exists_object?_iff hdistinct hread).mpr hleads.2
    rw [hobject] at ho
    cases ho

end Catalog

namespace Introspection.Schema.Yields

open Catalog

variable {schema : Schema} {entries : List CatalogEntry} {abstracts : List TypeDefinition}
  {failure : Failure} {name : Name}

/-! ### The finished types -/

/-- A schema fails for an implemented interface that it does not list. -/
theorem fails_of_checkInterfaces (h : schema.Yields entries abstracts)
    (hdistinct : (schema.types.map TypeEntry.name).Nodup) {e : Inconsistency}
    (hcheck : checkInterfaces (allTypes entries abstracts) = .error e) :
    schema.Fails (.inconsistency e) := by
  obtain ⟨name, definition, hget, interface, hinterface, hnot, hreport⟩ :=
    exists_of_checkInterfaces_eq_error hcheck
  obtain ⟨entry, hentry, _, hlisted⟩ := h.exists_listedAs hget
  rw [hlisted.interfaces, List.mem_map] at hinterface
  obtain ⟨reference, hreference, rfl⟩ := hinterface
  have hleads : ¬ schema.Leads .interface reference := by
    rintro ⟨_, hlists⟩
    exact hnot ((h.exists_get?_interface_iff hdistinct).mpr hlists)
  rcases hreport with rfl | rfl
  · exact .notInterface hentry hlisted.name hreference hleads
  · exact .undefinedInterface hentry hlisted.name hreference hleads

/-- If the finished types pass the check, then listed types implement listed interfaces. -/
theorem lists_of_mem_implemented (h : schema.Yields entries abstracts)
    (hdistinct : (schema.types.map TypeEntry.name).Nodup)
    (hcheck : checkInterfaces (allTypes entries abstracts) = .ok ()) {entry : TypeEntry}
    (hentry : entry ∈ schema.types) (hname : entry.name = some name) {reference : NamedRef}
    (hreference : reference ∈ entry.implemented) : schema.Lists .interface reference.name := by
  have hbuiltIn := TypeEntry.isBuiltIn_of_mem_implemented hreference
  obtain ⟨definition, hget, hlisted⟩ := h.exists_get?_of_mem hdistinct hentry hname hbuiltIn
  have hinterface : reference.name ∈ definition.interfaces := by
    rw [hlisted.interfaces]
    exact List.mem_map_of_mem hreference
  rw [← h.exists_get?_interface_iff hdistinct]
  exact checkInterfaces_eq_ok_iff.mp hcheck name definition hget _ hinterface

/-- The types behind interfaces and unions that were completed are listed objects. -/
theorem leads_of_mem_members (h : schema.Yields entries abstracts)
    (hdistinct : (schema.types.map TypeEntry.name).Nodup) {entry : TypeEntry}
    (hentry : entry ∈ schema.types) {reference : NamedRef}
    (hreference : reference ∈ entry.members) : schema.Leads .object reference := by
  have habstract := TypeEntry.isAbstract_of_mem_members hreference
  obtain ⟨draft, hdraft, hof⟩ := exists_draft_of_isAbstract h.read hentry habstract
  obtain ⟨_, _, _, hcompletes⟩ :=
    exists_of_forall₂_of_mem_left (AbstractEntry.forall₂_of_complete h.completed) hdraft
  rw [← hof.references_eq] at hreference
  obtain ⟨hkind, hobject⟩ := hcompletes.objects reference hreference
  exact ⟨hkind, (exists_object?_iff hdistinct h.read).mp hobject⟩

/-- Root types are accepted if they are listed as objects. -/
theorem exists_rootName_iff (h : schema.Yields entries abstracts)
    (hdistinct : (schema.types.map TypeEntry.name).Nodup) (operation : OperationKind)
    {reference : NamedRef} :
    (∃ name, rootName (allTypes entries abstracts) operation reference = .ok name) ↔
      schema.Lists .object reference.name := by
  rw [← h.exists_get?_object_iff hdistinct]
  simp only [rootName_eq_ok_iff]
  constructor
  · rintro ⟨_, rfl, hget⟩
    exact hget
  · intro hget
    exact ⟨_, rfl, hget⟩

/-- A schema fails for a root type that is no object. -/
theorem fails_of_rootName (h : schema.Yields entries abstracts)
    (hdistinct : (schema.types.map TypeEntry.name).Nodup) {operation : OperationKind}
    {reference : NamedRef} (hroot : schema.root? operation = some reference)
    (hname : rootName (allTypes entries abstracts) operation reference = .error failure) :
    schema.Fails failure := by
  have hnot : ¬ schema.Lists .object reference.name := by
    rw [← h.exists_rootName_iff hdistinct operation, hname]
    exact nofun
  rcases of_rootName_eq_error hname with ⟨_, rfl⟩ | rfl
  · exact .rootNotObject hroot hnot
  · exact .undefinedRoot hroot hnot

end Introspection.Schema.Yields

/-! ### All passes -/

namespace Catalog

variable {configuration : Configuration} {schema : Schema} {failure : Failure}

/-- If no catalog can be built, then one of the four passes has failed. -/
theorem of_ofSchema_eq_error (h : ofSchema configuration schema = .error failure) :
    schema.types.mapM CatalogEntry.ofEntry = .error failure ∨
    ∃ entries, schema.types.mapM CatalogEntry.ofEntry = .ok entries ∧
      ((∃ e, AbstractEntry.complete (concreteTypes entries)
          (AbstractEntry.subInterfaces (entries.filterMap CatalogEntry.abstract?)) []
          (entries.filterMap CatalogEntry.abstract?) = .error e ∧ .inconsistency e = failure) ∨
        ∃ abstracts, schema.Yields entries abstracts ∧
          ((∃ e, checkInterfaces (allTypes entries abstracts) = .error e ∧
              .inconsistency e = failure) ∨
            schema.root? .query = none ∧ .configuration .missingQueryType = failure ∨
            ∃ operation reference, schema.root? operation = some reference ∧
              rootName (allTypes entries abstracts) operation reference = .error failure)) := by
  simp only [ofSchema, bind_eq_error_iff, mapError_eq_error_iff, mapError_eq_ok_iff] at h
  rcases h with hread | ⟨entries, hread, hcomplete | ⟨abstracts, hcomplete, hcheck | ⟨_, _, h⟩⟩⟩
  · exact Or.inl hread
  · exact Or.inr ⟨entries, hread, Or.inl hcomplete⟩
  · exact Or.inr ⟨entries, hread, Or.inr ⟨abstracts, ⟨hread, hcomplete⟩, Or.inl hcheck⟩⟩
  · refine Or.inr ⟨entries, hread, Or.inr ⟨abstracts, ⟨hread, hcomplete⟩, Or.inr ?_⟩⟩
    cases hquery : schema.queryType with
    | none =>
        simp only [hquery, throw, throwThe, MonadExceptOf.throw, Except.error.injEq] at h
        exact Or.inl ⟨hquery, h⟩
    | some query =>
        simp only [hquery, bind_eq_error_iff, rootName?_eq_error_iff, pure_ne_error, and_false,
          exists_false, or_false] at h
        rcases h with hroot | ⟨_, _, ⟨reference, hmutation, hroot⟩ |
          ⟨_, _, reference, hsubscription, hroot⟩⟩
        · exact Or.inr ⟨.query, query, hquery, hroot⟩
        · exact Or.inr ⟨.mutation, reference, hmutation, hroot⟩
        · exact Or.inr ⟨.subscription, reference, hsubscription, hroot⟩

/-- If no catalog can be built, then what is reported is wrong with the schema. -/
theorem fails_of_ofSchema (hdistinct : (schema.types.filterMap TypeEntry.name).Nodup)
    (h : ofSchema configuration schema = .error failure) : schema.Fails failure := by
  rcases of_ofSchema_eq_error h with hread | ⟨entries, hread, h⟩
  · obtain ⟨before, entry, after, hsplit, _, hentry⟩ := mapM_eq_error_iff.mp hread
    have hmem : entry ∈ schema.types := by
      rw [hsplit]
      exact List.mem_append_right _ List.mem_cons_self
    exact CatalogEntry.fails_of_ofEntry hmem hentry
  · have hdistinct := nodup_map_name hdistinct hread
    rcases h with ⟨e, hcomplete, rfl⟩ | ⟨abstracts, hyields, ⟨e, hcheck, rfl⟩ | ⟨hquery, rfl⟩ |
      ⟨operation, reference, hroot, hname⟩⟩
    · exact fails_of_complete hdistinct hread hcomplete
    · exact hyields.fails_of_checkInterfaces hdistinct hcheck
    · exact .noQuery hquery
    · exact hyields.fails_of_rootName hdistinct hroot hname

/-- If a catalog can be built, then nothing is wrong with the schema. -/
theorem wellFormed_of_ofSchema (hdistinct : (schema.types.filterMap TypeEntry.name).Nodup)
    {c : Catalog} (h : ofSchema configuration schema = .ok c) : schema.WellFormed := by
  obtain ⟨entries, abstracts, query, _, _, _, hread, hcompleted, hcheck, hquery, hqueryType,
    hmutation, hsubscription, rfl⟩ := ofSchema_eq_ok_iff.mp h
  have hyields : schema.Yields entries abstracts := ⟨hread, hcompleted⟩
  have hdistinct := nodup_map_name hdistinct hread
  have hof (entry : TypeEntry) (hmem : entry ∈ schema.types) :
      ∃ read, CatalogEntry.ofEntry entry = .ok read :=
    exists_mapM_eq_ok_iff.mp ⟨entries, hread⟩ entry hmem
  refine ⟨?_, ?_, ?_, ?_, ⟨⟨query, hquery⟩, ?_⟩⟩
  · intro entry hmem
    obtain ⟨_, hof⟩ := hof entry hmem
    exact (CatalogEntry.wellFormed_of_ofEntry hof).1
  · intro entry hmem
    obtain ⟨_, hof⟩ := hof entry hmem
    exact (CatalogEntry.wellFormed_of_ofEntry hof).2.1
  · intro entry hmem reference hreference
    obtain ⟨_, hof⟩ := hof entry hmem
    obtain ⟨⟨name, hname⟩, _, hclaimed⟩ := CatalogEntry.wellFormed_of_ofEntry hof
    exact ⟨hclaimed reference hreference,
      hyields.lists_of_mem_implemented hdistinct hcheck hmem hname hreference⟩
  · intro entry hmem reference hreference
    exact hyields.leads_of_mem_members hdistinct hmem hreference
  · intro operation reference hroot
    rw [← hyields.exists_rootName_iff hdistinct operation]
    cases operation with
    | query =>
        cases hquery.symm.trans hroot
        exact ⟨_, hqueryType⟩
    | mutation => exact exists_rootName_of_rootName? hroot hmutation
    | subscription => exact exists_rootName_of_rootName? hroot hsubscription

/-- A schema whose types have different names makes a catalog exactly if it is well formed. If it
makes none, what is reported is wrong with it, and of the kind that belongs to it. -/
theorem exists_ofSchema_iff_wellFormed
    (hdistinct : (schema.types.filterMap TypeEntry.name).Nodup) :
    ((∃ c, ofSchema configuration schema = .ok c) ↔ schema.WellFormed) ∧
    ∀ failure, ofSchema configuration schema = .error failure →
      schema.Fails failure ∧
      ((∃ problem, failure = .configuration problem ∧
        ((∃ entry ∈ schema.types,
            entry.kind ≠ .list ∧ entry.kind ≠ .nonNull ∧ entry.name = none) ∨
          ¬ schema.WellRooted)) ∨
      ∃ e, failure = .inconsistency e ∧
        ((∃ entry ∈ schema.types, entry.kind = .list ∨ entry.kind = .nonNull) ∨
          (∃ entry ∈ schema.types, ∃ reference ∈ entry.implemented,
            ¬ schema.Leads .interface reference) ∨
          ∃ entry ∈ schema.types, ∃ reference ∈ entry.members,
            ¬ schema.Leads .object reference)) := by
  refine ⟨⟨?_, ?_⟩, ?_⟩
  · rintro ⟨c, hc⟩
    exact wellFormed_of_ofSchema hdistinct hc
  · intro hwell
    cases hresult : ofSchema configuration schema with
    | ok c => exact ⟨c, rfl⟩
    | error failure => exact absurd hwell (fails_of_ofSchema hdistinct hresult).not_wellFormed
  · intro failure herror
    have hfails := fails_of_ofSchema hdistinct herror
    exact ⟨hfails, hfails.cause⟩

end Catalog

/-- An object that implements a union, and a root type that is not listed. -/
def Introspection.Schema.misled : Schema where
  queryType := some ⟨none, "Query"⟩
  mutationType := some ⟨none, "Mutation"⟩
  subscriptionType := none
  types := [
    ⟨.union, some "Pair", none, [], [], [], [], [⟨some .object, "Query"⟩], none⟩,
    ⟨.object, some "Query", none, [], [], [⟨none, "Pair"⟩], [], [], none⟩]

namespace Catalog

/-- The pets make a catalog. Where an object implements a union and a root type is unknown, the
first of the two is reported. -/
theorem wellFormed_pets_not_misled :
    (∃ c, ofSchema .standard .pets = .ok c ∧ Introspection.Schema.pets.WellFormed) ∧
      ofSchema .standard .misled =
        .error (.inconsistency (.unexpectedTypeKind "Pair" "Query" "an interface")) ∧
      Introspection.Schema.misled.Fails
        (.inconsistency (.unexpectedTypeKind "Pair" "Query" "an interface")) ∧
      ¬ Introspection.Schema.misled.WellFormed := by
  have hpets : (Introspection.Schema.pets.types.filterMap TypeEntry.name).Nodup := by decide
  have hmisled : (Introspection.Schema.misled.types.filterMap TypeEntry.name).Nodup := by decide
  have hcomputed : (ofSchema .standard .pets).toOption.isSome = true := by decide +kernel
  obtain ⟨c, hc⟩ := Option.isSome_iff_exists.mp hcomputed
  have hc := toOption_eq_some_iff.mp hc
  have herror : ofSchema .standard .misled =
      .error (.inconsistency (.unexpectedTypeKind "Pair" "Query" "an interface")) := by
    decide +kernel
  have hnone : ¬ ∃ c, ofSchema .standard .misled = .ok c := by
    rw [herror]
    rintro ⟨_, ⟨⟩⟩
  exact ⟨⟨c, hc, (exists_ofSchema_iff_wellFormed hpets).1.mp ⟨c, hc⟩⟩, herror,
    ((exists_ofSchema_iff_wellFormed hmisled).2 _ herror).1,
    mt (exists_ofSchema_iff_wellFormed hmisled).1.mpr hnone⟩

end Catalog

end QueryCompiler

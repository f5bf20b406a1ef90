import QueryCompiler.Proofs.OrderedMap
import QueryCompiler.Proofs.Outcome
import QueryCompiler.Schema.Build

/-!
# Catalogs that were built from a schema

The steps of building a catalog, each with what it has given when all of them have succeeded. A
catalog that was built lists every type under the type's own name, so that a type found by name can
be found again by the name that it carries, and operations start from object types only.
-/

namespace QueryCompiler

namespace TypeDefinition

variable {definition : TypeDefinition}

theorem object?_eq_some_iff {o : ObjectType} :
    definition.object? = some o ↔ definition = .object o := by
  cases definition <;> simp [object?]

theorem interface?_eq_some_iff {i : InterfaceType} :
    definition.interface? = some i ↔ definition = .interface i := by
  cases definition <;> simp [interface?]

end TypeDefinition

namespace Catalog

open Outcome

variable {configuration : Configuration} {schema : Introspection.Schema} {c : Catalog}

/-- The concrete types of a schema by name. -/
def concreteTypes (entries : List CatalogEntry) : OrderedMap Name TypeDefinition :=
  .ofList ((entries.filterMap CatalogEntry.concrete?).map fun definition =>
    (definition.name, definition))

/-- The concrete types of a schema and its completed interfaces and unions, by name. -/
def allTypes (entries : List CatalogEntry) (abstracts : List TypeDefinition) :
    OrderedMap Name TypeDefinition :=
  (concreteTypes entries).insertAll (abstracts.map fun definition => (definition.name, definition))

/-- A catalog is built by reading the listed types, completing interfaces and unions, checking what
the types say that they implement, and looking up the root types. -/
theorem ofSchema_eq_ok_iff :
    ofSchema configuration schema = .ok c ↔
      ∃ entries abstracts query queryType mutationType subscriptionType,
        schema.types.mapM CatalogEntry.ofEntry = .ok entries ∧
        let drafts := entries.filterMap CatalogEntry.abstract?
        AbstractEntry.complete (concreteTypes entries) (AbstractEntry.subInterfaces drafts) []
          drafts = .ok abstracts ∧
        let types := allTypes entries abstracts
        checkInterfaces types = .ok () ∧ schema.queryType = some query ∧
        rootName types .query query = .ok queryType ∧
        rootName? types .mutation schema.mutationType = .ok mutationType ∧
        rootName? types .subscription schema.subscriptionType = .ok subscriptionType ∧
        ⟨configuration.outputSchemaName, queryType, mutationType, subscriptionType, types,
          abstracts.filterMap Warning.of?⟩ = c := by
  simp only [ofSchema, bind_eq_ok_iff, mapError_eq_ok_iff]
  constructor
  · rintro ⟨entries, hentries, abstracts, habstracts, _, hcheck, h⟩
    cases hquery : schema.queryType with
    | none => simp [hquery, throw, throwThe, MonadExceptOf.throw] at h
    | some query =>
        simp only [hquery, bind_eq_ok_iff, pure_eq_ok_iff] at h
        obtain ⟨queryType, hqueryType, mutationType, hmutation, subscriptionType, hsubscription,
          rfl⟩ := h
        exact ⟨entries, abstracts, query, queryType, mutationType, subscriptionType, hentries,
          habstracts, hcheck, rfl, hqueryType, hmutation, hsubscription, rfl⟩
  · rintro ⟨entries, abstracts, query, queryType, mutationType, subscriptionType, hentries,
      habstracts, hcheck, hquery, hqueryType, hmutation, hsubscription, rfl⟩
    refine ⟨entries, hentries, abstracts, habstracts, (), hcheck, ?_⟩
    simp only [hquery, bind_eq_ok_iff, pure_eq_ok_iff]
    exact ⟨queryType, hqueryType, mutationType, hmutation, subscriptionType, hsubscription, rfl⟩

/-- Every type is listed under its own name. -/
def Keyed (c : Catalog) : Prop :=
  ∀ name definition, c.get? name = some definition → definition.name = name

/-- A catalog that was built from a schema lists every type under its own name. -/
theorem keyed_of_ofSchema (h : ofSchema configuration schema = .ok c) : c.Keyed := by
  obtain ⟨entries, abstracts, _, _, _, _, _, _, _, _, _, _, _, rfl⟩ := ofSchema_eq_ok_iff.mp h
  intro name definition hget
  have hentry : (name, definition) ∈ (allTypes entries abstracts).entries :=
    OrderedMap.get?_eq_some_iff.mp hget
  rcases OrderedMap.mem_entries_insertAll hentry with hconcrete | habstract
  · obtain ⟨_, _, heq⟩ := List.mem_map.mp (OrderedMap.mem_entries_ofList hconcrete)
    cases heq
    rfl
  · obtain ⟨_, _, heq⟩ := List.mem_map.mp habstract
    cases heq
    rfl

/-- A composite type is found under its own name only. -/
theorem Keyed.name_eq (hc : c.Keyed) {name : Name} {type : CompositeType}
    (h : c.composite? name = some type) : type.name = name := by
  obtain ⟨definition, hget, hof⟩ := Option.bind_eq_some_iff.mp h
  have hname := hc name definition hget
  cases definition with
  | object t =>
      cases hof
      exact hname
  | interface t =>
      cases hof
      exact hname
  | union t =>
      cases hof
      exact hname
  | scalar t => cases hof
  | enum t => cases hof
  | inputObject t => cases hof

/-! ### Root types -/

/-- The root of an operation is the object that its reference names. -/
theorem rootName_eq_ok_iff {types : OrderedMap Name TypeDefinition} {operation : OperationKind}
    {reference : Introspection.NamedRef} {name : Name} :
    rootName types operation reference = .ok name ↔
      reference.name = name ∧ ∃ o, types.get? name = some (.object o) := by
  unfold rootName
  constructor
  · intro h
    cases hget : types.get? reference.name with
    | none => simp [hget] at h
    | some definition =>
        cases definition with
        | object o =>
            simp only [hget, Except.ok.injEq] at h
            exact ⟨h, o, h ▸ hget⟩
        | scalar t => simp [hget] at h
        | interface t => simp [hget] at h
        | union t => simp [hget] at h
        | enum t => simp [hget] at h
        | inputObject t => simp [hget] at h
  · rintro ⟨rfl, o, hget⟩
    rw [hget]

/-- A root is found where a reference is given. -/
theorem rootName?_eq_ok_some_iff {types : OrderedMap Name TypeDefinition}
    {operation : OperationKind} {reference : Option Introspection.NamedRef} {name : Name} :
    rootName? types operation reference = .ok (some name) ↔
      ∃ given, reference = some given ∧ rootName types operation given = .ok name := by
  cases reference with
  | none => simp [rootName?]
  | some given =>
      cases hroot : rootName types operation given <;> simp [rootName?, Except.map, hroot]

/-- A root that is not given is no failure. -/
theorem rootName?_eq_error_iff {types : OrderedMap Name TypeDefinition} {operation : OperationKind}
    {reference : Option Introspection.NamedRef} {failure : Failure} :
    rootName? types operation reference = .error failure ↔
      ∃ given, reference = some given ∧ rootName types operation given = .error failure := by
  cases reference with
  | none => simp [rootName?]
  | some given =>
      cases hroot : rootName types operation given <;> simp [rootName?, Except.map, hroot]

/-- A reference that is given names a root, if nothing failed. -/
theorem exists_rootName_of_rootName? {types : OrderedMap Name TypeDefinition}
    {operation : OperationKind} {reference : Option Introspection.NamedRef}
    {given : Introspection.NamedRef} {name? : Option Name} (hgiven : reference = some given)
    (h : rootName? types operation reference = .ok name?) :
    ∃ name, rootName types operation given = .ok name := by
  subst hgiven
  cases hroot : rootName types operation given with
  | error failure => simp [rootName?, Except.map, hroot] at h
  | ok name => exact ⟨name, rfl⟩

/-- A root type that is refused is of another kind, or there is none of its name. -/
theorem of_rootName_eq_error {types : OrderedMap Name TypeDefinition} {operation : OperationKind}
    {reference : Introspection.NamedRef} {failure : Failure}
    (h : rootName types operation reference = .error failure) :
    (∃ description,
      .configuration (.rootNotObject operation reference.name description) = failure) ∨
        .configuration (.undefinedRoot operation reference.name) = failure := by
  unfold rootName at h
  cases hget : types.get? reference.name with
  | none =>
      simp only [hget, Except.error.injEq] at h
      exact Or.inr h
  | some definition =>
      left
      cases definition <;> simp only [hget, Except.error.injEq, reduceCtorEq] at h <;>
        exact ⟨_, h⟩

/-! ### Implemented interfaces -/

/-- An implemented interface is one of the schema. -/
theorem checkInterface_eq_ok_iff {types : OrderedMap Name TypeDefinition}
    {implementer interface : Name} :
    checkInterface types implementer interface = .ok () ↔
      ∃ i, types.get? interface = some (.interface i) := by
  unfold checkInterface
  cases hget : types.get? interface with
  | none => simp
  | some definition => cases definition <;> simp

/-- The check passes if every interface that a type implements is an interface. -/
theorem checkInterfaces_eq_ok_iff {types : OrderedMap Name TypeDefinition} :
    checkInterfaces types = .ok () ↔ ∀ name definition, types.get? name = some definition →
      ∀ interface ∈ definition.interfaces, ∃ i, types.get? interface = some (.interface i) := by
  simp only [checkInterfaces, forM_eq_ok_iff, checkInterface_eq_ok_iff, OrderedMap.mem_values_iff]
  constructor
  · intro h name definition hget
    exact h definition ⟨name, hget⟩
  · rintro h definition ⟨name, hget⟩
    exact h name definition hget

/-- If the check does not pass, then some type implements what is not an interface. -/
theorem exists_of_checkInterfaces_eq_error {types : OrderedMap Name TypeDefinition}
    {e : Inconsistency} (h : checkInterfaces types = .error e) :
    ∃ name definition, types.get? name = some definition ∧ ∃ interface ∈ definition.interfaces,
      (¬ ∃ i, types.get? interface = some (.interface i)) ∧
        (.unexpectedTypeKind interface definition.name "an interface" = e ∨
          .unresolvedType interface ("the interfaces of `" ++ definition.name ++ "`") = e) := by
  obtain ⟨definition, hdefinition, herror⟩ := exists_of_forM_eq_error h
  obtain ⟨interface, hinterface, herror⟩ := exists_of_forM_eq_error herror
  obtain ⟨name, hget⟩ := OrderedMap.mem_values_iff.mp hdefinition
  refine ⟨name, definition, hget, interface, hinterface, ?_, ?_⟩
  · rw [← @checkInterface_eq_ok_iff types definition.name interface, herror]
    exact nofun
  · unfold checkInterface at herror
    cases hfound : types.get? interface with
    | none =>
        simp only [hfound, Except.error.injEq] at herror
        exact Or.inr herror
    | some found =>
        left
        cases found <;> simp only [hfound, Except.error.injEq, reduceCtorEq] at herror <;>
          exact herror

/-- In a catalog that was built from a schema types implement interfaces only. -/
theorem interface_of_interfaces (h : ofSchema configuration schema = .ok c) {name : Name}
    {definition : TypeDefinition} (hget : c.get? name = some definition) :
    ∀ interface ∈ definition.interfaces, ∃ i, c.get? interface = some (.interface i) := by
  obtain ⟨_, _, _, _, _, _, _, _, hcheck, _, _, _, _, rfl⟩ := ofSchema_eq_ok_iff.mp h
  exact checkInterfaces_eq_ok_iff.mp hcheck name definition hget

/-! ### Where operations start -/

/-- In a catalog that was built from a schema operations start from object types. -/
theorem object_of_root? (h : ofSchema configuration schema = .ok c) {kind : OperationKind}
    {root : Name} (hroot : c.root? kind = some root) : ∃ o, c.get? root = some (.object o) := by
  obtain ⟨entries, abstracts, query, _, _, _, _, _, _, _, hquery, hmutation, hsubscription, rfl⟩ :=
    ofSchema_eq_ok_iff.mp h
  cases kind with
  | query =>
      cases hroot
      exact (rootName_eq_ok_iff.mp hquery).2
  | mutation =>
      cases hroot
      obtain ⟨_, _, hname⟩ := rootName?_eq_ok_some_iff.mp hmutation
      exact (rootName_eq_ok_iff.mp hname).2
  | subscription =>
      cases hroot
      obtain ⟨_, _, hname⟩ := rootName?_eq_ok_some_iff.mp hsubscription
      exact (rootName_eq_ok_iff.mp hname).2

end Catalog

end QueryCompiler

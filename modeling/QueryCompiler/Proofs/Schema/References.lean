import QueryCompiler.Proofs.Schema.Listed

/-!
# References inside a catalog

A catalog speaks of its types by name: where operations start, which interfaces a type implements,
which types stand behind an interface or union, and which interfaces name another one among theirs.

The first two are checked against the finished catalog. The other two are settled earlier, possible
types when only the concrete types are known and sub-interfaces one interface after the other. A
name that is listed again can therefore change what they lead to, and the main result says which of
them that concerns. In a schema whose types have different names there are none.
-/

namespace QueryCompiler

open Introspection (NamedRef Schema TypeEntry)

/-- Whatever a catalog speaks of is there and is of the kind that it is taken for, and interfaces
know all those that name them. -/
structure Catalog.Coherent (c : Catalog) : Prop where
  keyed : c.Keyed
  roots : ∀ kind root, c.root? kind = some root → ∃ o, c.get? root = some (.object o)
  interfaces : ∀ name definition, c.get? name = some definition →
    ∀ implemented ∈ definition.interfaces, ∃ i, c.get? implemented = some (.interface i)
  possibleTypes : ∀ name definition, c.get? name = some definition →
    ∀ member ∈ definition.possibleTypes, ∃ o, c.get? member = some (.object o)
  subInterfaces : ∀ sub j name i, c.get? sub = some (.interface j) →
    c.get? name = some (.interface i) → name ∈ j.interfaces → sub ∈ i.subInterfaces

/-- A catalog whose references hold as far as the names in its schema allow. A type behind an
interface or union is an object unless an interface or union has its name as well, and an interface
knows those that name it unless it is listed more than once. -/
structure Catalog.RefersIn (c : Catalog) (schema : Schema) : Prop where
  keyed : c.Keyed
  roots : ∀ kind root, c.root? kind = some root → ∃ o, c.get? root = some (.object o)
  interfaces : ∀ name definition, c.get? name = some definition →
    ∀ implemented ∈ definition.interfaces, ∃ i, c.get? implemented = some (.interface i)
  possibleTypes : ∀ name definition, c.get? name = some definition →
    ∀ member ∈ definition.possibleTypes,
      ((∃ o, c.get? member = some (.object o)) ↔ member ∉ schema.abstractNames)
  subInterfaces : ∀ sub j name i, c.get? sub = some (.interface j) →
    c.get? name = some (.interface i) → name ∈ j.interfaces →
      (sub ∈ i.subInterfaces ↔ schema.interfaceNames.count name = 1)

namespace Introspection.Schema.Yields

open Catalog

variable {schema : Schema} {entries : List CatalogEntry} {abstracts : List TypeDefinition}
  {name : Name} {definition : TypeDefinition}

/-! ### Possible types -/

/-- An interface or union is found where it was completed, and nowhere else. -/
theorem mem_abstracts_of_get? (h : schema.Yields entries abstracts)
    (hget : (allTypes entries abstracts).get? name = some definition)
    (habstract : definition.kind = .interface ∨ definition.kind = .union) :
    ∃ before after, abstracts = before ++ definition :: after ∧ definition.name = name ∧
      name ∉ after.map TypeDefinition.name := by
  rcases get?_allTypes_eq_some_iff.mp hget with hfound | ⟨_, hconcrete⟩
  · exact hfound
  · obtain ⟨entry, _, _, hlisted, hnot⟩ := exists_listedAs_of_concreteTypes h.read hconcrete
    rw [hlisted.kind, ← TypeEntry.isAbstract_iff, hnot] at habstract
    cases habstract

/-- The types behind an interface or union are objects among the concrete types. -/
theorem object?_of_mem_possibleTypes (h : schema.Yields entries abstracts)
    (hget : (allTypes entries abstracts).get? name = some definition) {member : Name}
    (hmember : member ∈ definition.possibleTypes) :
    ∃ o, (concreteTypes entries).get? member = some (.object o) := by
  have habstract : definition.kind = .interface ∨ definition.kind = .union := by
    cases definition with
    | interface i => exact Or.inl rfl
    | union u => exact Or.inr rfl
    | scalar t => cases hmember
    | object t => cases hmember
    | enum t => cases hmember
    | inputObject t => cases hmember
  obtain ⟨before, after, rfl, _, _⟩ := h.mem_abstracts_of_get? hget habstract
  obtain ⟨_, _, draft, _, _, _, hcompletes⟩ :=
    h.exists_completesTo (List.mem_append_right before List.mem_cons_self)
  rw [hcompletes.possibleTypes_eq, List.mem_eraseDups, List.mem_map] at hmember
  obtain ⟨reference, hreference, rfl⟩ := hmember
  obtain ⟨_, o, ho⟩ := hcompletes.objects reference hreference
  obtain ⟨found, hfound, hobject⟩ := Option.bind_eq_some_iff.mp ho
  exact ⟨o, TypeDefinition.object?_eq_some_iff.mp hobject ▸ hfound⟩

/-- An object among the concrete types is still found in the end unless an interface or union has
taken its name. -/
theorem exists_object_iff (h : schema.Yields entries abstracts) {o : ObjectType}
    (ho : (concreteTypes entries).get? name = some (.object o)) :
    (∃ other, (allTypes entries abstracts).get? name = some (.object other)) ↔
      name ∉ schema.abstractNames := by
  rw [← h.map_name_abstracts]
  constructor
  · rintro ⟨other, hget⟩
    rcases get?_allTypes_eq_some_iff.mp hget with ⟨before, after, rfl, _, _⟩ | ⟨hnew, _⟩
    · obtain ⟨_, _, _, _, _, _, hcompletes⟩ :=
        h.exists_completesTo (List.mem_append_right before List.mem_cons_self)
      cases hcompletes
    · exact hnew
  · intro hnew
    exact ⟨o, get?_allTypes_eq_some_iff.mpr (Or.inr ⟨hnew, ho⟩)⟩

/-! ### Sub-interfaces -/

/-- An interface that is found is the last of its name. It has the sub-interfaces of this name if it
is the first one as well. -/
theorem mem_subInterfaces_iff (h : schema.Yields entries abstracts) {i : InterfaceType}
    (hget : (allTypes entries abstracts).get? name = some (.interface i)) {sub : Name} :
    sub ∈ i.subInterfaces ↔ schema.interfaceNames.count name = 1 ∧
      sub ∈ AbstractEntry.subInterfaces (entries.filterMap CatalogEntry.abstract?) name := by
  obtain ⟨first, last, hsplit, hname, hlast⟩ := h.mem_abstracts_of_get? hget (Or.inl rfl)
  have hcompleted := h.completed
  rw [hsplit] at hcompleted
  obtain ⟨before, entry, after, hentries, hafter, hcompletes⟩ :=
    AbstractEntry.exists_entry_of_complete hcompleted
  -- Of the interfaces with this name, only those before the last one can have taken anything.
  have hcount : schema.interfaceNames.count name =
      (before.filterMap AbstractEntry.interfaceName?).count name + 1 := by
    have hnone : name ∉ after.filterMap AbstractEntry.interfaceName? := by
      intro hmem
      obtain ⟨other, hother, hothername⟩ := List.mem_filterMap.mp hmem
      apply hlast
      rw [hafter, List.mem_map]
      refine ⟨other, hother, ?_⟩
      cases other with
      | interface _ _ _ _ _ => exact Option.some.inj hothername
      | union _ _ _ => cases hothername
    have hentry : entry.interfaceName? = some name := by
      cases hcompletes
      rw [← hname]
      rfl
    rw [← filterMap_interfaceName?_drafts h.read, hentries, List.filterMap_append,
      List.filterMap_cons_some hentry, List.count_append, List.count_cons_self,
      List.count_eq_zero.mpr hnone]
  have hsub : i.subInterfaces = AbstractEntry.remaining
      (AbstractEntry.subInterfaces (entries.filterMap CatalogEntry.abstract?))
      ((before.filterMap AbstractEntry.interfaceName?).reverse ++ []) name := by
    cases hcompletes
    rw [← hname]
    rfl
  rw [hsub, AbstractEntry.mem_remaining_iff, hcount, List.append_nil, List.mem_reverse,
    ← List.count_eq_zero, Nat.add_eq_right]

/-- Every interface that is found counts among the sub-interfaces of those that it names. -/
theorem mem_subInterfaces_of_mem_interfaces (h : schema.Yields entries abstracts) {sub : Name}
    {j : InterfaceType} (hget : (allTypes entries abstracts).get? sub = some (.interface j))
    (hmem : name ∈ j.interfaces) :
    sub ∈ AbstractEntry.subInterfaces (entries.filterMap CatalogEntry.abstract?) name := by
  obtain ⟨entry, hentry, hname, hlisted⟩ := h.exists_listedAs hget
  have hkind : entry.kind = .interface := hlisted.kind.symm
  have hinterfaces : j.interfaces = entry.interfaces.map NamedRef.name := by
    have himplemented := hlisted.interfaces
    rwa [TypeEntry.implemented, if_pos (Or.inr hkind)] at himplemented
  rw [hinterfaces] at hmem
  exact (mem_subInterfaces_drafts_iff h.readOf).mpr ⟨entry, hentry, hkind, hname, hmem⟩

/-! ### Different names -/

/-- If types have different names, then no object type has the name of an interface or union. -/
theorem notMem_abstractNames (h : schema.Yields entries abstracts)
    (hdistinct : (schema.types.map TypeEntry.name).Nodup) {o : ObjectType}
    (ho : (concreteTypes entries).get? name = some (.object o)) : name ∉ schema.abstractNames := by
  intro hmem
  obtain ⟨abstract, habstract, his, hname⟩ := mem_abstractNames_iff.mp hmem
  obtain ⟨entry, hentry, hname', _, hnot⟩ := exists_listedAs_of_concreteTypes h.read ho
  have heq : entry = abstract := eq_of_name_eq hdistinct hentry habstract (hname'.trans hname.symm)
  rw [heq, his] at hnot
  cases hnot

/-- If types have different names, then every interface that is found is listed once. -/
theorem count_interfaceNames (h : schema.Yields entries abstracts)
    (hdistinct : (schema.types.map TypeEntry.name).Nodup) {i : InterfaceType}
    (hget : (allTypes entries abstracts).get? name = some (.interface i)) :
    schema.interfaceNames.count name = 1 := by
  obtain ⟨entry, hentry, hname, hlisted⟩ := h.exists_listedAs hget
  have hkind : entry.kind = .interface := hlisted.kind.symm
  have hsome : 0 < schema.interfaceNames.count name := by
    rw [List.count_pos_iff, interfaceNames, List.mem_filterMap]
    exact ⟨entry, hentry, by rw [if_pos hkind, hname]⟩
  have hle : schema.interfaceNames.count name ≤
      (schema.types.map TypeEntry.name).count (some name) := by
    rw [interfaceNames, List.count_filterMap, List.count, List.countP_map]
    apply List.countP_mono_left
    intro other _ hother
    by_cases hinterface : other.kind = .interface
    · simpa [hinterface] using hother
    · simp [hinterface] at hother
  have hone := List.nodup_iff_count_le_one.mp hdistinct (some name)
  omega

end Introspection.Schema.Yields

namespace Catalog

variable {configuration : Configuration} {schema : Schema} {c : Catalog}

/-- Of every reference in a catalog, whether it holds. All of them hold if the types of the schema
have different names. -/
theorem refersIn_of_ofSchema (h : ofSchema configuration schema = .ok c) :
    c.RefersIn schema ∧ ((schema.types.map TypeEntry.name).Nodup → c.Coherent) := by
  obtain ⟨entries, abstracts, hyields, htypes⟩ := exists_yields_of_ofSchema h
  have hget (name : Name) : c.get? name = (allTypes entries abstracts).get? name := by
    rw [get?, htypes]
  have hpossible (name : Name) (definition : TypeDefinition)
      (hdefinition : c.get? name = some definition) (member : Name)
      (hmember : member ∈ definition.possibleTypes) :
      ∃ o, (concreteTypes entries).get? member = some (.object o) := by
    rw [hget] at hdefinition
    exact hyields.object?_of_mem_possibleTypes hdefinition hmember
  have hrefers : c.RefersIn schema := by
    refine ⟨keyed_of_ofSchema h, fun _ _ => object_of_root? h,
      fun _ _ => interface_of_interfaces h, ?_, ?_⟩
    · intro name definition hdefinition member hmember
      obtain ⟨o, ho⟩ := hpossible name definition hdefinition member hmember
      simp only [hget]
      exact hyields.exists_object_iff ho
    · intro sub j name i hj hi hmem
      rw [hget] at hj hi
      rw [hyields.mem_subInterfaces_iff hi]
      exact and_iff_left (hyields.mem_subInterfaces_of_mem_interfaces hj hmem)
  -- Where names are distinct, what could be missing is not.
  refine ⟨hrefers, fun hdistinct => ⟨hrefers.keyed, hrefers.roots, hrefers.interfaces, ?_, ?_⟩⟩
  · intro name definition hdefinition member hmember
    obtain ⟨o, ho⟩ := hpossible name definition hdefinition member hmember
    rw [hrefers.possibleTypes name definition hdefinition member hmember]
    exact hyields.notMem_abstractNames hdistinct ho
  · intro sub j name i hj hi hmem
    rw [hrefers.subInterfaces sub j name i hj hi hmem]
    rw [hget] at hi
    exact hyields.count_interfaceNames hdistinct hi

end Catalog

/-- A schema that uses two names twice: that of an object for a union as well, and that of an
interface for another one behind an interface that names it. -/
def Introspection.Schema.usedTwice : Schema where
  queryType := some ⟨none, "Query"⟩
  mutationType := none
  subscriptionType := none
  types := [
    ⟨.object, some "Query", none, [⟨"named", none, [], .named "Named", false, none⟩], [], [], [],
      [], none⟩,
    ⟨.object, some "Dog", none, [], [], [⟨none, "Named"⟩], [], [], none⟩,
    ⟨.interface, some "Named", none, [], [], [], [], [⟨none, "Dog"⟩], none⟩,
    ⟨.interface, some "Tagged", none, [], [], [⟨none, "Named"⟩], [], [⟨none, "Query"⟩], none⟩,
    ⟨.union, some "Dog", none, [], [], [], [], [⟨none, "Query"⟩], none⟩,
    ⟨.interface, some "Named", none, [], [], [], [], [⟨none, "Dog"⟩, ⟨none, "Query"⟩], none⟩]

namespace Catalog

/-- The dog behind the interface has become a union, and the second interface of the name does not
know the one that names it. -/
theorem ofSchema_usedTwice :
    ∃ c named tagged, ofSchema .standard .usedTwice = .ok c ∧
      c.get? "Named" = some (.interface named) ∧ c.get? "Tagged" = some (.interface tagged) ∧
      named.possibleTypes = ["Dog", "Query"] ∧ c.object? "Dog" = none ∧
      tagged.interfaces = ["Named"] ∧ named.subInterfaces = [] := by
  have hcomputed : ((ofSchema .standard .usedTwice).toOption.bind fun c =>
      ((c.get? "Named").bind TypeDefinition.interface?).bind fun named =>
        ((c.get? "Tagged").bind TypeDefinition.interface?).map fun tagged =>
          (named.possibleTypes, (c.object? "Dog").isNone, tagged.interfaces,
            named.subInterfaces)) =
      some (["Dog", "Query"], true, ["Named"], []) := by
    decide +kernel
  obtain ⟨c, hc, hcomputed⟩ := Option.bind_eq_some_iff.mp hcomputed
  obtain ⟨named, hnamed, hcomputed⟩ := Option.bind_eq_some_iff.mp hcomputed
  obtain ⟨tagged, htagged, hresults⟩ := Option.map_eq_some_iff.mp hcomputed
  simp only [Option.bind_eq_some_iff, TypeDefinition.interface?_eq_some_iff, exists_eq_right]
    at hnamed htagged
  simp only [Prod.mk.injEq, Option.isNone_iff_eq_none] at hresults
  exact ⟨c, named, tagged, Outcome.toOption_eq_some_iff.mp hc, hnamed, htagged, hresults⟩

/-- References need not hold if names are used twice. -/
theorem exists_not_coherent :
    ∃ c, ofSchema .standard .usedTwice = .ok c ∧
      (∃ named, c.get? "Named" = some (.interface named) ∧ "Dog" ∈ named.possibleTypes ∧
        (¬ ∃ o, c.get? "Dog" = some (.object o)) ∧
        ∃ tagged, c.get? "Tagged" = some (.interface tagged) ∧ "Named" ∈ tagged.interfaces ∧
          "Tagged" ∉ named.subInterfaces) ∧ ¬ c.Coherent := by
  obtain ⟨c, named, tagged, hc, hnamed, htagged, hpossible, hdog, hinterfaces, hsub⟩ :=
    ofSchema_usedTwice
  have hmember : "Dog" ∈ named.possibleTypes := by simp [hpossible]
  have hnone : ¬ ∃ o, c.get? "Dog" = some (.object o) := by
    rintro ⟨o, ho⟩
    simp [object?, ho, TypeDefinition.object?] at hdog
  refine ⟨c, hc, ⟨named, hnamed, hmember, hnone, tagged, htagged, by simp [hinterfaces],
    by simp [hsub]⟩, ?_⟩
  intro hcoherent
  exact hnone (hcoherent.possibleTypes _ _ hnamed "Dog" hmember)

/-- All references of the pets hold. Where names are used twice, those to the query do, but not
those to the dog, nor does the interface that is listed again know the one that names it. -/
theorem refersIn_usedTwice :
    (∃ c, ofSchema .standard .pets = .ok c ∧ c.Coherent) ∧
      ∃ c, ofSchema .standard .usedTwice = .ok c ∧ c.RefersIn .usedTwice ∧
        "Dog" ∈ Introspection.Schema.usedTwice.abstractNames ∧
        "Query" ∉ Introspection.Schema.usedTwice.abstractNames ∧
        Introspection.Schema.usedTwice.interfaceNames.count "Named" = 2 := by
  constructor
  · have hdistinct : (Introspection.Schema.pets.types.map TypeEntry.name).Nodup := by decide
    have hcomputed : (ofSchema .standard .pets).toOption.isSome = true := by decide +kernel
    obtain ⟨c, hc⟩ := Option.isSome_iff_exists.mp hcomputed
    have hc := Outcome.toOption_eq_some_iff.mp hc
    exact ⟨c, hc, (refersIn_of_ofSchema hc).2 hdistinct⟩
  · obtain ⟨c, _, _, hc, _⟩ := ofSchema_usedTwice
    exact ⟨c, hc, (refersIn_of_ofSchema hc).1, by decide, by decide, by decide⟩

end Catalog

end QueryCompiler

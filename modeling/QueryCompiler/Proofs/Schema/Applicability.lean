import QueryCompiler.Proofs.Schema.References
import QueryCompiler.Proofs.Schema.WellFormed

/-!
# Where fragments apply

A fragment applies on a type if the lists of names that stand for the two types have a name in
common. These lists hold objects and interfaces side by side, and each kind of type makes its own.
If the types of a schema have different names, the answer has a meaning without them: fragments
apply where an object stands behind both types, and between interfaces also where one of them names
the other or a third one names both.
-/

namespace QueryCompiler

open Introspection (NamedRef Schema TypeEntry TypeKind)

namespace Introspection.Schema

/-- An object type stands behind another type: it is this type, or listed for the interface or
union. -/
def Behind (schema : Schema) (type object : Name) : Prop :=
  ∃ entry ∈ schema.types, entry.name = some type ∧
    (entry.kind = .object ∧ object = type ∨ object ∈ entry.members.map NamedRef.name)

/-- An interface names another one among its interfaces. -/
def Extends (schema : Schema) (sub name : Name) : Prop :=
  ∃ entry ∈ schema.types, entry.kind = .interface ∧ entry.name = some sub ∧
    name ∈ entry.interfaces.map NamedRef.name

/-- An object stands behind two types, or they are interfaces that are one, or name one another, or
are both named by a third. -/
def Overlap (schema : Schema) (left right : Name) : Prop :=
  (∃ object, schema.Behind left object ∧ schema.Behind right object) ∨
  schema.Lists .interface left ∧ schema.Lists .interface right ∧
    (left = right ∨ schema.Extends left right ∨ schema.Extends right left ∨
      ∃ third, third ≠ left ∧ third ≠ right ∧
        schema.Extends third left ∧ schema.Extends third right)

/-- A name stands for a type: that of an object behind it, and for an interface its own or that of
an interface which names it. -/
def StandsFor (schema : Schema) (type name : Name) : Prop :=
  schema.Behind type name ∨
    schema.Lists .interface type ∧ (name = type ∨ schema.Extends name type)

variable {schema : Schema} {type name : Name}

theorem Overlap.symm {left right : Name} (h : schema.Overlap left right) :
    schema.Overlap right left := by
  rcases h with ⟨object, hleft, hright⟩ | ⟨hleft, hright, heq | hsub | hsup | hthird⟩
  · exact Or.inl ⟨object, hright, hleft⟩
  · exact Or.inr ⟨hright, hleft, Or.inl heq.symm⟩
  · exact Or.inr ⟨hright, hleft, Or.inr (Or.inr (Or.inl hsub))⟩
  · exact Or.inr ⟨hright, hleft, Or.inr (Or.inl hsup)⟩
  · obtain ⟨third, hneleft, hneright, hextendsleft, hextendsright⟩ := hthird
    exact Or.inr ⟨hright, hleft, Or.inr (Or.inr (Or.inr
      ⟨third, hneright, hneleft, hextendsright, hextendsleft⟩))⟩

/-- A type overlaps with itself unless it is no interface and has no object behind it. -/
theorem overlap_self_iff :
    schema.Overlap type type ↔
      (∃ object, schema.Behind type object) ∨ schema.Lists .interface type := by
  constructor
  · rintro (⟨object, hbehind, _⟩ | ⟨hlists, _⟩)
    · exact Or.inl ⟨object, hbehind⟩
    · exact Or.inr hlists
  · rintro (⟨object, hbehind⟩ | hlists)
    · exact Or.inl ⟨object, hbehind, hbehind⟩
    · exact Or.inr ⟨hlists, hlists, Or.inl rfl⟩

/-- What names another interface is an interface itself. -/
theorem Extends.lists (h : schema.Extends name type) : schema.Lists .interface name := by
  obtain ⟨entry, hentry, hkind, hname, _⟩ := h
  exact ⟨entry, hentry, hkind, hname⟩

/-- What stands behind a type of a well-formed schema is listed as an object. -/
theorem WellFormed.lists_of_behind (hwell : schema.WellFormed) (h : schema.Behind type name) :
    schema.Lists .object name := by
  obtain ⟨entry, hentry, hname, ⟨hkind, rfl⟩ | hmember⟩ := h
  · exact ⟨entry, hentry, hkind, hname⟩
  · obtain ⟨reference, hreference, rfl⟩ := List.mem_map.mp hmember
    exact (hwell.members entry hentry reference hreference).2

section Distinct

variable (hdistinct : (schema.types.map TypeEntry.name).Nodup)

include hdistinct

/-- A listed type is of one kind. -/
theorem lists_iff {entry : TypeEntry} (hentry : entry ∈ schema.types)
    (hname : entry.name = some name) {kind : TypeKind} :
    schema.Lists kind name ↔ entry.kind = kind := by
  constructor
  · rintro ⟨other, hother, hkind, hname'⟩
    rw [← hkind, eq_of_name_eq hdistinct hentry hother (hname.trans hname'.symm)]
  · intro hkind
    exact ⟨entry, hentry, hkind, hname⟩

/-- What stands behind a type, read from its one entry. -/
theorem behind_iff {entry : TypeEntry} (hentry : entry ∈ schema.types)
    (hname : entry.name = some type) :
    schema.Behind type name ↔
      entry.kind = .object ∧ name = type ∨ name ∈ entry.members.map NamedRef.name := by
  constructor
  · rintro ⟨other, hother, hname', hbehind⟩
    rwa [eq_of_name_eq hdistinct hentry hother (hname.trans hname'.symm)]
  · intro hbehind
    exact ⟨entry, hentry, hname, hbehind⟩

/-- No type is listed as an object and as an interface. -/
theorem not_lists_interface (h : schema.Lists .object name) : ¬ schema.Lists .interface name := by
  obtain ⟨entry, hentry, hkind, hname⟩ := h
  rw [lists_iff hdistinct hentry hname, hkind]
  exact nofun

/-- Types overlap if a name stands for both of them. -/
theorem overlap_iff_exists_standsFor (hwell : schema.WellFormed) {left right : Name} :
    schema.Overlap left right ↔
      ∃ name, schema.StandsFor left name ∧ schema.StandsFor right name := by
  constructor
  · rintro (⟨object, hleft, hright⟩ | ⟨hleft, hright, rfl | hsub | hsup | hthird⟩)
    · exact ⟨object, Or.inl hleft, Or.inl hright⟩
    · exact ⟨left, Or.inr ⟨hleft, Or.inl rfl⟩, Or.inr ⟨hleft, Or.inl rfl⟩⟩
    · exact ⟨left, Or.inr ⟨hleft, Or.inl rfl⟩, Or.inr ⟨hright, Or.inr hsub⟩⟩
    · exact ⟨right, Or.inr ⟨hleft, Or.inr hsup⟩, Or.inr ⟨hright, Or.inl rfl⟩⟩
    · obtain ⟨third, _, _, hextendsleft, hextendsright⟩ := hthird
      exact ⟨third, Or.inr ⟨hleft, Or.inr hextendsleft⟩, Or.inr ⟨hright, Or.inr hextendsright⟩⟩
  · have hinterface (type name : Name)
        (h : schema.Lists .interface type ∧ (name = type ∨ schema.Extends name type)) :
        schema.Lists .interface name := by
      obtain ⟨htype, rfl | hextends⟩ := h
      · exact htype
      · exact hextends.lists
    -- A name stands for both types in the same way, as an object or as an interface.
    rintro ⟨name, hleft | hleft, hright | hright⟩
    · exact Or.inl ⟨name, hleft, hright⟩
    · exact absurd (hinterface _ _ hright)
        (not_lists_interface hdistinct (hwell.lists_of_behind hleft))
    · exact absurd (hinterface _ _ hleft)
        (not_lists_interface hdistinct (hwell.lists_of_behind hright))
    · right
      obtain ⟨hlistsleft, hleft⟩ := hleft
      obtain ⟨hlistsright, hright⟩ := hright
      refine ⟨hlistsleft, hlistsright, ?_⟩
      by_cases heqleft : name = left
      · subst heqleft
        rcases hright with heq | hextends
        · exact Or.inl heq
        · exact Or.inr (Or.inl hextends)
      · have hextendsleft := hleft.resolve_left heqleft
        by_cases heqright : name = right
        · subst heqright
          exact Or.inr (Or.inr (Or.inl hextendsleft))
        · have hextendsright := hright.resolve_left heqright
          exact Or.inr (Or.inr (Or.inr
            ⟨name, heqleft, heqright, hextendsleft, hextendsright⟩))

end Distinct

/-! ### Names that stand for a type of the catalog -/

open Catalog in
/-- The names that stand for a composite type are listed so in the schema. -/
theorem Yields.mem_implementingTypes_iff {entries : List CatalogEntry}
    {abstracts : List TypeDefinition} (h : schema.Yields entries abstracts)
    (hdistinct : (schema.types.map TypeEntry.name).Nodup) {definition : TypeDefinition}
    (hget : (allTypes entries abstracts).get? type = some definition) {composite : CompositeType}
    (hof : CompositeType.of? definition = some composite) :
    name ∈ composite.implementingTypes ↔ schema.StandsFor type name := by
  obtain ⟨entry, hentry, hname, hlisted⟩ := h.exists_listedAs hget
  have hsame : definition.name = type := Option.some.inj (hlisted.name.symm.trans hname)
  have hpossible : name ∈ definition.possibleTypes ↔ name ∈ entry.members.map NamedRef.name := by
    rw [hlisted.possibleTypes, List.mem_eraseDups]
  rw [StandsFor, behind_iff hdistinct hentry hname, lists_iff hdistinct hentry hname, ← hpossible,
    ← hlisted.kind, ← hsame]
  cases definition with
  | object o =>
      cases hof
      simp [CompositeType.implementingTypes, ObjectType.implementingTypes, TypeDefinition.name,
        TypeDefinition.kind, TypeDefinition.possibleTypes]
  | interface i =>
      cases hof
      have hsub : name ∈ i.subInterfaces ↔ schema.Extends name i.name := by
        rw [h.mem_subInterfaces_iff hget, h.count_interfaceNames hdistinct hget,
          mem_subInterfaces_drafts_iff h.readOf, ← hsame]
        exact and_iff_right rfl
      simp only [CompositeType.implementingTypes, InterfaceType.implementingTypes,
        List.mem_eraseDups, List.mem_append, List.mem_singleton, hsub, TypeDefinition.name,
        TypeDefinition.kind, TypeDefinition.possibleTypes, reduceCtorEq, false_and, false_or,
        true_and]
      rw [or_assoc, or_comm (b := name = i.name)]
  | union u =>
      cases hof
      simp [CompositeType.implementingTypes, UnionType.implementingTypes, TypeDefinition.kind,
        TypeDefinition.possibleTypes]
  | scalar t => cases hof
  | enum t => cases hof
  | inputObject t => cases hof

end Introspection.Schema

/-- The implementing types of a definition are those of its composite type. -/
theorem CompositeType.implementingTypes?_of {definition : TypeDefinition} {type : CompositeType}
    (h : of? definition = some type) :
    definition.implementingTypes? = some type.implementingTypes := by
  cases definition <;> cases h <;> rfl

namespace Catalog

variable {configuration : Configuration} {schema : Schema} {c : Catalog}

/-- A fragment applies if a name stands for both types. -/
theorem isSpreadPossible_iff {condition : Name} {left right : CompositeType}
    (h : c.composite? condition = some right) :
    left.isSpreadPossible condition c = true ↔
      ∃ name ∈ left.implementingTypes, name ∈ right.implementingTypes := by
  obtain ⟨definition, hget, hof⟩ := Option.bind_eq_some_iff.mp h
  have hpossible : c.possibleTypes? condition = some right.implementingTypes := by
    rw [possibleTypes?, hget]
    exact CompositeType.implementingTypes?_of hof
  simp [CompositeType.isSpreadPossible, CompositeType.applicableTypes, hpossible]

/-- A fragment applies if the listed types overlap. -/
theorem isSpreadPossible_iff_of_ofSchema
    (hdistinct : (schema.types.filterMap TypeEntry.name).Nodup)
    (h : ofSchema configuration schema = .ok c) {parent condition : Name} {on type : CompositeType}
    (hon : c.composite? parent = some on) (htype : c.composite? condition = some type) :
    on.isSpreadPossible condition c = true ↔ schema.Overlap parent condition := by
  obtain ⟨entries, abstracts, hyields, htypes⟩ := exists_yields_of_ofSchema h
  have hwell := wellFormed_of_ofSchema hdistinct h
  have hdistinct := nodup_map_name hdistinct hyields.read
  have hstands (name : Name) (composite : CompositeType)
      (hname : c.composite? name = some composite) (member : Name) :
      member ∈ composite.implementingTypes ↔ schema.StandsFor name member := by
    obtain ⟨definition, hget, hof⟩ := Option.bind_eq_some_iff.mp hname
    rw [get?, htypes] at hget
    exact hyields.mem_implementingTypes_iff hdistinct hget hof
  rw [isSpreadPossible_iff htype, Schema.overlap_iff_exists_standsFor hdistinct hwell]
  simp only [hstands parent on hon, hstands condition type htype]

/-- The kind under which a composite type is listed. -/
theorem lists_kind_of_composite? (h : ofSchema configuration schema = .ok c) {name : Name}
    {type : CompositeType} (hname : c.composite? name = some type) :
    match type.kind with
    | .object => schema.Lists .object name
    | .interface => schema.Lists .interface name
    | .union => schema.Lists .union name := by
  obtain ⟨entries, abstracts, hyields, htypes⟩ := exists_yields_of_ofSchema h
  obtain ⟨definition, hget, hof⟩ := Option.bind_eq_some_iff.mp hname
  rw [get?, htypes] at hget
  obtain ⟨entry, hentry, hname, hlisted⟩ := hyields.exists_listedAs hget
  have hlists : schema.Lists definition.kind name := ⟨entry, hentry, hlisted.kind.symm, hname⟩
  cases definition <;> cases hof <;> exact hlists

/-- If the types of a schema have different names, a fragment applies on a type exactly if its type
overlaps with that type. It makes no difference which of the two types the fragment is on. Objects
and interfaces apply on themselves, and unions do so if an object stands behind them. -/
theorem isSpreadPossible_iff_overlap
    (hdistinct : (schema.types.filterMap TypeEntry.name).Nodup)
    (h : ofSchema configuration schema = .ok c) {parent condition : Name} {on type : CompositeType}
    (hon : c.composite? parent = some on) (htype : c.composite? condition = some type) :
    (on.isSpreadPossible condition c = true ↔ schema.Overlap parent condition) ∧
    on.isSpreadPossible condition c = type.isSpreadPossible parent c ∧
    (on.kind ≠ .union → on.isSpreadPossible parent c = true) ∧
    (on.kind = .union →
      (on.isSpreadPossible parent c = true ↔ ∃ object, schema.Behind parent object)) := by
  have hforth := isSpreadPossible_iff_of_ofSchema hdistinct h hon htype
  have hback := isSpreadPossible_iff_of_ofSchema hdistinct h htype hon
  have hself := isSpreadPossible_iff_of_ofSchema hdistinct h hon hon
  have hlists := lists_kind_of_composite? h hon
  rw [Schema.overlap_self_iff] at hself
  refine ⟨hforth, ?_, ?_, ?_⟩
  · rw [Bool.eq_iff_iff, hforth, hback]
    exact ⟨Schema.Overlap.symm, Schema.Overlap.symm⟩
  · intro hkind
    rw [hself]
    cases hon : on.kind with
    | object =>
        rw [hon] at hlists
        obtain ⟨entry, hentry, hobject, hname⟩ := hlists
        exact Or.inl ⟨parent, entry, hentry, hname, Or.inl ⟨hobject, rfl⟩⟩
    | interface =>
        rw [hon] at hlists
        exact Or.inr hlists
    | union => exact absurd hon hkind
  · intro hkind
    rw [hkind] at hlists
    obtain ⟨entry, hentry, hunion, hname⟩ := hlists
    obtain ⟨_, _, hyields, _⟩ := exists_yields_of_ofSchema h
    -- A union is not listed as an interface too.
    have hinterface : ¬ schema.Lists .interface parent := by
      rw [Schema.lists_iff (nodup_map_name hdistinct hyields.read) hentry hname, hunion]
      exact nofun
    rw [hself, or_iff_left hinterface]

/-- The tagged apply on the named ones, which they extend, though no object stands behind them, and
a cat is no dog. -/
theorem isSpreadPossible_pets :
    ∃ c tagged named dog cat, ofSchema .standard .pets = .ok c ∧
      c.composite? "Tagged" = some tagged ∧ c.composite? "Named" = some named ∧
      c.composite? "Dog" = some dog ∧ c.composite? "Cat" = some cat ∧
      tagged.isSpreadPossible "Named" c = true ∧ named.isSpreadPossible "Tagged" c = true ∧
      Introspection.Schema.pets.Overlap "Tagged" "Named" ∧
      dog.isSpreadPossible "Cat" c = false ∧ ¬ Introspection.Schema.pets.Overlap "Dog" "Cat" := by
  have hdistinct : (Introspection.Schema.pets.types.filterMap TypeEntry.name).Nodup := by decide
  have hcomputed : ((ofSchema .standard .pets).toOption.bind fun c =>
      (c.composite? "Tagged").bind fun tagged => (c.composite? "Named").bind fun named =>
        (c.composite? "Dog").bind fun dog => (c.composite? "Cat").map fun _ =>
          (tagged.isSpreadPossible "Named" c, dog.isSpreadPossible "Cat" c)) =
      some (true, false) := by
    decide +kernel
  obtain ⟨c, hc, hcomputed⟩ := Option.bind_eq_some_iff.mp hcomputed
  obtain ⟨tagged, htagged, hcomputed⟩ := Option.bind_eq_some_iff.mp hcomputed
  obtain ⟨named, hnamed, hcomputed⟩ := Option.bind_eq_some_iff.mp hcomputed
  obtain ⟨dog, hdog, hcomputed⟩ := Option.bind_eq_some_iff.mp hcomputed
  obtain ⟨cat, hcat, hresults⟩ := Option.map_eq_some_iff.mp hcomputed
  have hc := Outcome.toOption_eq_some_iff.mp hc
  rw [Prod.mk.injEq] at hresults
  obtain ⟨happlies, hnot⟩ := hresults
  obtain ⟨hoverlap, hsymm, _⟩ := isSpreadPossible_iff_overlap hdistinct hc htagged hnamed
  obtain ⟨hapart, _⟩ := isSpreadPossible_iff_overlap hdistinct hc hdog hcat
  refine ⟨c, tagged, named, dog, cat, hc, htagged, hnamed, hdog, hcat, happlies,
    hsymm ▸ happlies, hoverlap.mp happlies, hnot, ?_⟩
  rw [← hapart, hnot]
  exact Bool.false_ne_true

end Catalog

end QueryCompiler

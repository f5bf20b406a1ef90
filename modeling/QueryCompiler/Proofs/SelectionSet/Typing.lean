import QueryCompiler.Proofs.Compiled
import QueryCompiler.Proofs.Document.Induction
import QueryCompiler.Proofs.Nullability
import QueryCompiler.Proofs.Schema.Build
import QueryCompiler.Proofs.SelectionSet.Everywhere

/-!
# Well-typed selection sets

A selection set fits a catalog if its type is one of the catalog's composite types and each of its
members is in its place there: fields with the declarations and types that the catalog gives them,
sub-selections on the types that their fields come down to, fragments where they can apply. What is
compiled fits at every depth. Merging keeps this, because the inline fragments that are merged are
on one type and reached through the same fields.
-/

namespace QueryCompiler

open Outcome

/-! ### Members -/

/-- A field is one that a type has, with its resolved type. -/
structure SelectedField.Fits (f : SelectedField) (c : Catalog) (type : CompositeType) : Prop where
  typed : c.resolve f.definition.type = .ok f.type
  declared : type.fields.get? f.name = some f.definition ∨
    f.name = typenameField ∧ f.definition = .typename

/-- A spread names a fragment that can apply. -/
def Spread.Fits (p : Spread) (c : Catalog) (fragments : OrderedMap Name Fragment)
    (type : CompositeType) : Prop :=
  ∃ fragment, fragments.get? p.name = some fragment ∧ c.AllowsFragment type fragment.condition

/-- A field has its sub-selections on the type that its own type comes down to, one step further. -/
structure ObjectField.Fits (o : ObjectField) (c : Catalog) (type : CompositeType)
    (traversed : List SelectedField) : Prop where
  field : o.field.Fits c type
  typeName : o.selectionSet.typeName = o.field.definition.type.innermost
  traversed : o.selectionSet.traversed = traversed ++ [o.field]

/-- An inline fragment has its selections on the type of its condition, which is that of its
surroundings or can apply there, and no step further. -/
structure InlineFragment.Fits (i : InlineFragment) (c : Catalog) (type : CompositeType)
    (traversed : List SelectedField) : Prop where
  typeName : i.condition = i.selectionSet.typeName
  traversed : i.selectionSet.traversed = traversed
  possible : i.condition = type.name ∨ type.isSpreadPossible i.condition c = true

/-! ### Selection sets -/

/-- A selection set and its members fit a composite type of a catalog. -/
structure SelectionSet.FitsOn (s : SelectionSet) (c : Catalog)
    (fragments : OrderedMap Name Fragment) (type : CompositeType) : Prop where
  listed : c.composite? s.typeName = some type
  typeName : s.typeName = type.name
  kind : s.kind = type.kind
  scalars : ∀ f ∈ s.scalars, f.Fits c type
  spreads : ∀ p ∈ s.spreads, p.Fits c fragments type
  objects : ∀ o ∈ s.objects, o.Fits c type s.traversed
  inlines : ∀ i ∈ s.inlines, i.Fits c type s.traversed

/-- A selection set fits the composite type that it names. -/
def SelectionSet.WellTyped (c : Catalog) (fragments : OrderedMap Name Fragment)
    (s : SelectionSet) : Prop :=
  ∃ type, s.FitsOn c fragments type

/-- Parts that fit a composite type, with what is inside them. -/
structure SelectionParts.FitOn (parts : SelectionParts) (c : Catalog)
    (fragments : OrderedMap Name Fragment) (type : CompositeType)
    (traversed : List SelectedField) : Prop where
  scalars : ∀ f ∈ parts.scalars, f.Fits c type
  spreads : ∀ p ∈ parts.spreads, p.Fits c fragments type
  objects : ∀ o ∈ parts.objects,
    o.Fits c type traversed ∧ o.selectionSet.Everywhere (SelectionSet.WellTyped c fragments)
  inlines : ∀ i ∈ parts.inlines,
    i.Fits c type traversed ∧ i.selectionSet.Everywhere (SelectionSet.WellTyped c fragments)

variable {c : Catalog} {fragments : OrderedMap Name Fragment} {type : CompositeType}
  {traversed : List SelectedField}

/-- The `__typename` that is selected where a document does not select it fits every type. -/
theorem SelectedField.fits_typename : SelectedField.typename.Fits c type := by
  refine ⟨?_, Or.inr ⟨rfl, rfl⟩⟩
  have hbase : c.typeBase BuiltInScalar.string.name = .builtIn .string := by
    rw [Catalog.typeBase, BuiltInScalar.ofName?_eq_some_iff.mpr rfl]
  refine TypeRef.resolve_nonNull_eq_ok_iff.mpr ?_
  rw [TypeRef.resolve, hbase]
  rfl

/-- A declared field is one of the type's own or `__typename`. -/
theorem CompositeType.Declares.own_or_typename {name : Name} {definition : FieldDefinition}
    (h : type.Declares name definition) :
    type.fields.get? name = some definition ∨ name = typenameField ∧ definition = .typename := by
  cases h with
  | own hown => exact Or.inl hown
  | typename _ hname => exact Or.inr ⟨hname, rfl⟩

/-- Selection sets on one type that are reached through the same fields fit the type together if
each of them does. -/
theorem SelectionSet.FitsOn.followedBy {a : SelectionSet} {others : List SelectionSet}
    (ha : a.FitsOn c fragments type)
    (hothers : ∀ b ∈ others, b.FitsOn c fragments type ∧ b.traversed = a.traversed) :
    (a.followedBy others).FitsOn c fragments type where
  listed := ha.listed
  typeName := ha.typeName
  kind := ha.kind
  scalars := by
    refine forall_mem_append_flatMap ha.scalars ?_
    intro b hb f hf
    exact (hothers b hb).1.scalars f (List.mem_filter.mp hf).1
  spreads := forall_mem_append_flatMap ha.spreads fun b hb => (hothers b hb).1.spreads
  objects := by
    refine forall_mem_append_flatMap ha.objects ?_
    intro b hb o ho
    obtain ⟨hfits, htraversed⟩ := hothers b hb
    exact htraversed ▸ hfits.objects o ho
  inlines := by
    refine forall_mem_append_flatMap ha.inlines ?_
    intro b hb i hi
    obtain ⟨hfits, htraversed⟩ := hothers b hb
    exact htraversed ▸ hfits.inlines i hi

/-! ### Parts -/

namespace SelectionParts

private theorem FitOn.empty : SelectionParts.empty.FitOn c fragments type traversed :=
  ⟨nofun, nofun, nofun, nofun⟩

/-- Parts put together fit if both do. -/
theorem FitOn.append {a b : SelectionParts} (ha : a.FitOn c fragments type traversed)
    (hb : b.FitOn c fragments type traversed) : (a.append b).FitOn c fragments type traversed where
  scalars := List.forall_mem_append.mpr ⟨ha.scalars, hb.scalars⟩
  spreads := List.forall_mem_append.mpr ⟨ha.spreads, hb.spreads⟩
  objects := List.forall_mem_append.mpr ⟨ha.objects, hb.objects⟩
  inlines := List.forall_mem_append.mpr ⟨ha.inlines, hb.inlines⟩

/-- Inline fragments of one key that fit their surroundings make up a well-typed selection set. -/
theorem FitOn.wellTyped_followedBy {parts : SelectionParts}
    (h : parts.FitOn c fragments type traversed) {first : InlineFragment}
    {others : List InlineFragment} (hfirst : first ∈ parts.inlines)
    (hothers : ∀ other ∈ others, other ∈ parts.inlines ∧ other.mergeKey = first.mergeKey) :
    (first.followedBy others).selectionSet.WellTyped c fragments := by
  obtain ⟨hfits, hinside⟩ := h.inlines first hfirst
  obtain ⟨on, hon⟩ := (SelectionSet.everywhere_iff.mp hinside).1
  refine ⟨on, hon.followedBy ?_⟩
  intro b hb
  obtain ⟨other, hother, rfl⟩ := List.mem_map.mp hb
  obtain ⟨hmem, hkey⟩ := hothers other hother
  obtain ⟨hotherFits, hotherInside⟩ := h.inlines other hmem
  obtain ⟨otherOn, hotherOn⟩ := (SelectionSet.everywhere_iff.mp hotherInside).1
  -- The key holds the name of the type, and the catalog has one type of that name.
  have hsame : otherOn = on := by
    have hname : other.selectionSet.typeName = first.selectionSet.typeName :=
      congrArg Prod.fst hkey
    have hlisted := hotherOn.listed
    rw [hname, hon.listed, Option.some.injEq] at hlisted
    exact hlisted.symm
  subst hsame
  exact ⟨hotherOn, hotherFits.traversed.trans hfits.traversed.symm⟩

/-- Parts that fit a type of the catalog make up a selection set that is well typed at every
depth. -/
theorem FitOn.everywhere_wellTyped {parts : SelectionParts}
    (h : parts.FitOn c fragments type traversed) (hlisted : c.composite? type.name = some type) :
    (parts.united type traversed).Everywhere (SelectionSet.WellTyped c fragments) := by
  refine everywhere_united ⟨type, hlisted, rfl, rfl, ?_, h.spreads, ?_, ?_⟩
    (fun o ho => (h.objects o ho).2) (fun i hi => (h.inlines i hi).2)
    (fun first hfirst others hothers => h.wellTyped_followedBy hfirst hothers)
  · intro f hf
    simp only [united, scalarsWithTypename] at hf
    split at hf
    · exact h.scalars f hf
    · rcases List.mem_append.mp hf with hown | htypename
      · exact h.scalars f hown
      · rw [List.mem_singleton.mp htypename]
        exact SelectedField.fits_typename
  · intro o ho
    obtain ⟨source, hsource, rfl⟩ := List.mem_map.mp ho
    obtain ⟨hfits, _⟩ := h.objects source hsource
    exact ⟨hfits.field, hfits.typeName, hfits.traversed⟩
  · intro i hi
    -- A merged fragment has the condition, the type and the path of the first of its key.
    obtain ⟨first, others, hfirst, rfl, _⟩ := InlineFragment.exists_group_of_mem_unitedAll hi
    obtain ⟨hfits, _⟩ := h.inlines first hfirst
    exact ⟨hfits.typeName, hfits.traversed, hfits.possible⟩

end SelectionParts

/-! ### Selections -/

namespace Scope

variable {s : Scope}

/-- Selections fit a type together if each of them does. -/
theorem fitOn_of_resolveSelections {selections : List Selection} {parts : SelectionParts}
    (hall : ∀ selection ∈ selections, ∀ parts,
      s.resolveSelection type traversed selection = .ok parts →
        parts.FitOn s.catalog s.fragments type traversed)
    (h : s.resolveSelections type traversed selections = .ok parts) :
    parts.FitOn s.catalog s.fragments type traversed := by
  induction selections generalizing parts with
  | nil =>
      obtain rfl := resolveSelections_nil_eq_ok_iff.mp h
      exact .empty
  | cons selection rest ih =>
      obtain ⟨first, others, hfirst, hothers, rfl⟩ := resolveSelections_cons_eq_ok_iff.mp h
      obtain ⟨hselection, hrest⟩ := List.forall_mem_cons.mp hall
      exact (hselection first hfirst).append (ih hrest hothers)

/-- What a selection becomes fits the type that it is made on. -/
theorem fitOn_of_resolveSelection (hc : s.catalog.Keyed) {selection : Selection}
    {parts : SelectionParts} (hlisted : s.catalog.composite? type.name = some type)
    (h : s.resolveSelection type traversed selection = .ok parts) :
    parts.FitOn s.catalog s.fragments type traversed := by
  induction selection generalizing s type traversed parts with
  | field location aliasName name arguments directives selections ih =>
      cases selections with
      | nil =>
          obtain ⟨definition, resolved, hdeclares, hresolved, rfl⟩ :=
            resolveSelection_leaf_eq_ok_iff.mp h
          refine ⟨?_, nofun, nofun, nofun⟩
          intro f hf
          rw [List.mem_singleton.mp hf]
          exact ⟨hresolved, hdeclares.own_or_typename⟩
      | cons first rest =>
          obtain ⟨definition, resolved, nested, set, enums, hdeclares, hresolved, hnested, hset,
            rfl⟩ := resolveSelection_object_eq_ok_iff.mp h
          obtain ⟨inner, hinner, rfl, _⟩ := selectionSet_eq_ok_iff.mp hset
          -- The type that is selected on is listed under its own name, as `hlisted` wants it.
          have hname := hc.name_eq hnested
          have hfits := fitOn_of_resolveSelections (fun selection hmem _ =>
            ih selection hmem (s := s.enter (aliasName.getD name)) hc (hname ▸ hnested)) hinner
          refine ⟨nofun, nofun, ?_, nofun⟩
          intro o ho
          rw [List.mem_singleton.mp ho]
          exact ⟨⟨⟨hresolved, hdeclares.own_or_typename⟩, hname, rfl⟩,
            hfits.everywhere_wellTyped (hname ▸ hnested)⟩
  | spread location name directives =>
      obtain ⟨hfragment, rfl⟩ := resolveSelection_spread_eq_ok_iff.mp h
      refine ⟨nofun, ?_, nofun, nofun⟩
      intro p hp
      rw [List.mem_singleton.mp hp]
      exact hfragment
  | inline location condition directives selections ih =>
      obtain ⟨nested, set, enums, hon, hset, rfl⟩ := resolveSelection_inline_eq_ok_iff.mp h
      obtain ⟨inner, hinner, rfl, _⟩ := selectionSet_eq_ok_iff.mp hset
      -- Without a condition the type stays, and with one the spread was possible.
      have hnested : s.catalog.composite? nested.name = some nested ∧
          (nested.name = type.name ∨ type.isSpreadPossible nested.name s.catalog = true) := by
        cases hon with
        | bare => exact ⟨hlisted, Or.inl rfl⟩
        | condition hon hpossible =>
            rw [hc.name_eq hon]
            exact ⟨hon, Or.inr hpossible⟩
      have hfits := fitOn_of_resolveSelections
        (fun selection hmem _ => ih selection hmem hc hnested.1) hinner
      refine ⟨nofun, nofun, nofun, ?_⟩
      intro i hi
      rw [List.mem_singleton.mp hi]
      exact ⟨⟨rfl, rfl, hnested.2⟩, hfits.everywhere_wellTyped hnested.1⟩

/-- The selection set that selections make up is well typed at every depth. -/
theorem everywhere_wellTyped_of_selectionSet (hc : s.catalog.Keyed) {name : Name}
    (hlisted : s.catalog.composite? name = some type) {selections : List Selection}
    {set : SelectionSet} {enums : List (Name × EnumType)}
    (h : s.selectionSet type traversed selections = .ok (set, enums)) :
    set.Everywhere (SelectionSet.WellTyped s.catalog s.fragments) := by
  obtain ⟨parts, hparts, rfl, _⟩ := selectionSet_eq_ok_iff.mp h
  have hname := hc.name_eq hlisted
  have hfits := fitOn_of_resolveSelections
    (fun _ _ _ => fitOn_of_resolveSelection hc (hname ▸ hlisted)) hparts
  exact hfits.everywhere_wellTyped (hname ▸ hlisted)

end Scope

namespace Registry

/-- Everything that is compiled against the catalog of a schema is well typed at every depth. -/
theorem wellTyped_of_compile {configuration : Configuration} {schema : Introspection.Schema}
    (hc : Catalog.ofSchema configuration schema = .ok c) {r : Registry} {compiled : Compiled}
    (h : r.compile c = .ok compiled) :
    (∀ o ∈ compiled.operations.values,
      o.selectionSet.Everywhere (SelectionSet.WellTyped c r.fragments)) ∧
    ∀ f ∈ compiled.fragments.values,
      f.selectionSet.Everywhere (SelectionSet.WellTyped c r.fragments) := by
  have hkeyed := Catalog.keyed_of_ofSchema hc
  constructor
  · intro o ho
    obtain ⟨source, _, hsource⟩ := exists_of_mem_operations h ho
    obtain ⟨name, type, _, set, enums, _, _, htype, _, hset, _, rfl⟩ :=
      Operation.compile_eq_ok_iff.mp hsource
    obtain ⟨root, _, hlisted⟩ := Scope.rootType_eq_ok_iff.mp htype
    exact Scope.everywhere_wellTyped_of_selectionSet hkeyed hlisted hset
  · intro f hf
    obtain ⟨source, _, hsource⟩ := exists_of_mem_fragments h hf
    obtain ⟨type, set, enums, hlisted, hset, rfl⟩ := Fragment.compile_eq_ok_iff.mp hsource
    exact Scope.everywhere_wellTyped_of_selectionSet hkeyed hlisted hset

end Registry

/-- A schema with an interface and an object type behind it. -/
def Introspection.Schema.people : Introspection.Schema where
  queryType := some ⟨none, "Query"⟩
  mutationType := none
  subscriptionType := none
  types := [
    ⟨.object, some "Query", none, [⟨"node", none, [], .named "Node", false, none⟩], [], [], [], [],
      none⟩,
    ⟨.interface, some "Node", none, [⟨"id", none, [], .nonNull (.named "ID"), false, none⟩], [], [],
      [], [⟨none, "Person"⟩], none⟩,
    ⟨.object, some "Person", none,
      [⟨"id", none, [], .nonNull (.named "ID"), false, none⟩,
        ⟨"friends", none, [], .list (.nonNull (.named "Person")), false, none⟩],
      [], [⟨none, "Node"⟩], [], [], none⟩]

/-- A query with two inline fragments on one type, each of which asks for the same field. -/
def Operation.friends : Operation :=
  ⟨none, .query, some "Friends", [], [], [.field none none "node" [] [] [
    .inline none (some "Person") [] [
      .field none none "friends" [] [] [.field none none "id" [] [] []]],
    .inline none (some "Person") [] [
      .field none none "friends" [] [] [.spread none "Parts" []]]]]⟩

/-- The query and the fragment that it spreads. -/
def Registry.friends : Registry where
  sources := .empty
  operations := .ofList [("Friends", .friends)]
  fragments := .ofList [("Parts", ⟨none, "Parts", "Node", [], [.field none none "id" [] [] []]⟩)]

namespace Registry

/-- The inline fragments are merged, and what the second brings is well typed below the first. -/
theorem wellTyped_friends :
    ∃ c compiled, Catalog.ofSchema .standard .people = .ok c ∧
      Registry.friends.compile c = .ok compiled ∧
      ∃ o ∈ compiled.operations.values, ∃ inner,
        o.selectionSet.follow? [.object 0, .inline 0, .object 1] = some inner ∧
        inner.spreads.map Spread.name = ["Parts"] ∧
        inner.WellTyped c Registry.friends.fragments := by
  have hcomputed : ((Catalog.ofSchema .standard .people).toOption.bind fun c =>
      (Registry.friends.compile c).toOption.bind fun compiled =>
        compiled.operations.values.head?.bind fun o =>
          (o.selectionSet.follow? [.object 0, .inline 0, .object 1]).map fun inner =>
            inner.spreads.map Spread.name) = some ["Parts"] := by
    cbv
  simp only [Option.bind_eq_some_iff, Option.map_eq_some_iff, toOption_eq_some_iff] at hcomputed
  obtain ⟨c, hc, compiled, hcompiled, o, ho, inner, hinner, hspreads⟩ := hcomputed
  have ho : o ∈ compiled.operations.values := List.mem_of_mem_head? ho
  have htyped := (wellTyped_of_compile hc hcompiled).1 o ho _ inner hinner
  exact ⟨c, compiled, hc, hcompiled, o, ho, inner, hinner, hspreads, htyped⟩

end Registry

end QueryCompiler

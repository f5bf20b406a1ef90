import QueryCompiler.Proofs.Compiled
import QueryCompiler.Proofs.Constant
import QueryCompiler.Proofs.Dependencies
import QueryCompiler.Proofs.SelectionSet.Resolve

/-!
# Valid documents

The rules that a document has to keep, said without reference to the order in which they are
checked. Selections can be resolved exactly if they keep the rules, and documents can be compiled
exactly if all of their operations and fragments do.
-/

namespace QueryCompiler

open Outcome

/-! ### Rules -/

/-- A selection keeps the rules on a composite type. The fields of the type and `__typename` can be
selected if their types can be resolved; sub-selections are made on the composite type that a
field's type comes down to. Fragments must exist and be able to apply. -/
inductive Selection.Valid (c : Catalog) (fragments : OrderedMap Name Fragment) :
    CompositeType → Selection → Prop
  | leaf {type : CompositeType} {location : Option Location} {aliasName : Option Name}
      {name : Name} {arguments : List Argument} {directives : List Directive}
      {definition : FieldDefinition} :
      type.Declares name definition → definition.type.WellMarked →
      Valid c fragments type (.field location aliasName name arguments directives [])
  | object {type nested : CompositeType} {location : Option Location} {aliasName : Option Name}
      {name : Name} {arguments : List Argument} {directives : List Directive}
      {selections : List Selection} {definition : FieldDefinition} :
      type.Declares name definition → definition.type.WellMarked →
      c.composite? definition.type.innermost = some nested →
      (∀ selection ∈ selections, Valid c fragments nested selection) →
      Valid c fragments type (.field location aliasName name arguments directives selections)
  | spread {type : CompositeType} {location : Option Location} {name : Name}
      {directives : List Directive} {fragment : Fragment} :
      fragments.get? name = some fragment → c.AllowsFragment type fragment.condition →
      Valid c fragments type (.spread location name directives)
  | inline {type nested : CompositeType} {location : Option Location} {condition : Option Name}
      {directives : List Directive} {selections : List Selection} :
      c.InlineOn type condition nested →
      (∀ selection ∈ selections, Valid c fragments nested selection) →
      Valid c fragments type (.inline location condition directives selections)

/-- An operation keeps the rules. -/
structure Operation.Valid (o : Operation) (c : Catalog) (fragments : OrderedMap Name Fragment) :
    Prop where
  named : ∃ name, o.name = some name
  /-- The schema has a type for operations of this kind, and the selections keep the rules on it. -/
  rooted : ∃ root type, c.root? o.kind = some root ∧ c.composite? root = some type ∧
    ∀ selection ∈ o.selections, selection.Valid c fragments type
  parameters : ∀ v ∈ o.parameters, v.type.WellMarked ∧
    ∀ value, v.defaultValue = some value → value.IsConstant
  /-- Whatever the types of the variables lead to can be sent and resolved. -/
  needs : ∀ name, c.Reaches (o.parameters.map fun v => v.type.innermost) name →
    c.IsInput name ∧ c.FieldsWellMarked name

/-- A fragment keeps the rules. -/
def Fragment.Valid (f : Fragment) (c : Catalog) (fragments : OrderedMap Name Fragment) : Prop :=
  ∃ type, c.composite? f.condition = some type ∧
    ∀ selection ∈ f.selections, selection.Valid c fragments type

/-! ### Selections -/

namespace Scope

variable {s : Scope}

/-- A selection can be resolved exactly if it keeps the rules, whatever fields lead to it. -/
theorem exists_resolveSelection_eq_ok_iff {selection : Selection} {type : CompositeType}
    {traversed : List SelectedField} :
    (∃ parts, s.resolveSelection type traversed selection = .ok parts) ↔
      selection.Valid s.catalog s.fragments type := by
  induction selection generalizing s type traversed with
  | field location aliasName name arguments directives selections ih =>
      cases selections with
      | nil =>
          simp only [resolveSelection_leaf_eq_ok_iff]
          constructor
          · rintro ⟨_, definition, resolved, hdeclares, hresolved, _⟩
            exact .leaf hdeclares (TypeRef.exists_resolve_eq_ok_iff.mp ⟨resolved, hresolved⟩)
          · intro h
            -- A field with no selections is also valid as one whose selections all are.
            have hleaf : ∃ definition, type.Declares name definition ∧
                definition.type.WellMarked := by
              cases h with
              | leaf hdeclares hmarked => exact ⟨_, hdeclares, hmarked⟩
              | object hdeclares hmarked _ _ => exact ⟨_, hdeclares, hmarked⟩
            obtain ⟨definition, hdeclares, hmarked⟩ := hleaf
            obtain ⟨resolved, hresolved⟩ :=
              (@TypeRef.exists_resolve_eq_ok_iff s.catalog.typeBase _).mpr hmarked
            exact ⟨_, definition, resolved, hdeclares, hresolved, rfl⟩
      | cons first rest =>
          simp only [resolveSelection_object_eq_ok_iff]
          constructor
          · rintro ⟨_, definition, resolved, nested, set, enums, hdeclares, hresolved, hnested,
              hset, _⟩
            have hinner := exists_selectionSet_eq_ok_iff.mp ⟨set, enums, hset⟩
            exact .object hdeclares (TypeRef.exists_resolve_eq_ok_iff.mp ⟨resolved, hresolved⟩)
              hnested fun selection hmem =>
                (ih selection hmem (s := s.enter (aliasName.getD name))).mp (hinner selection hmem)
          · intro h
            cases h with
            | @object _ nested _ _ _ _ _ _ definition hdeclares hmarked hnested hvalid =>
                obtain ⟨resolved, hresolved⟩ :=
                  (@TypeRef.exists_resolve_eq_ok_iff s.catalog.typeBase _).mpr hmarked
                obtain ⟨set, enums, hset⟩ := exists_selectionSet_eq_ok_iff.mpr
                  fun selection hmem => (ih selection hmem (s := s.enter (aliasName.getD name))).mpr
                    (hvalid selection hmem)
                exact ⟨_, definition, resolved, nested, set, enums, hdeclares, hresolved, hnested,
                  hset, rfl⟩
  | spread location name directives =>
      simp only [resolveSelection_spread_eq_ok_iff]
      constructor
      · rintro ⟨_, ⟨fragment, hfragment, hallows⟩, _⟩
        exact .spread hfragment hallows
      · rintro (_ | _ | ⟨hfragment, hallows⟩)
        exact ⟨_, ⟨_, hfragment, hallows⟩, rfl⟩
  | inline location condition directives selections ih =>
      simp only [resolveSelection_inline_eq_ok_iff]
      constructor
      · rintro ⟨_, nested, set, enums, hnested, hset, _⟩
        have hinner := exists_selectionSet_eq_ok_iff.mp ⟨set, enums, hset⟩
        exact .inline hnested fun selection hmem =>
          (ih selection hmem).mp (hinner selection hmem)
      · intro h
        cases h with
        | @inline _ nested _ _ _ _ hnested hvalid =>
            obtain ⟨set, enums, hset⟩ := exists_selectionSet_eq_ok_iff.mpr
              fun selection hmem => (ih selection hmem).mpr (hvalid selection hmem)
            exact ⟨_, nested, set, enums, hnested, hset, rfl⟩

/-- Selections make up a selection set exactly if they keep the rules. -/
theorem exists_selectionSet_eq_ok_iff_valid {selections : List Selection} {type : CompositeType}
    {traversed : List SelectedField} :
    (∃ result, s.selectionSet type traversed selections = .ok result) ↔
      ∀ selection ∈ selections, selection.Valid s.catalog s.fragments type := by
  rw [Prod.exists, exists_selectionSet_eq_ok_iff]
  exact forall₂_congr fun _ _ => exists_resolveSelection_eq_ok_iff

/-! ### Definitions -/

/-- A variable is resolved if its type is well marked and its default value is a constant. -/
theorem exists_resolveVariable_eq_ok_iff {v : VariableDefinition} :
    (∃ compiled, s.resolveVariable v = .ok compiled) ↔
      v.type.WellMarked ∧ ∀ value, v.defaultValue = some value → value.IsConstant := by
  have hdefault : (∃ default, s.defaultValue v = .ok default) ↔
      ∀ value, v.defaultValue = some value → value.IsConstant := by
    unfold defaultValue
    cases hvalue : v.defaultValue with
    | none => simp
    | some value =>
        simp only [Option.some.injEq, forall_eq', ← Constant.exists_ofValue_eq_ok_iff]
        cases Constant.ofValue value <;> simp
  rw [← hdefault, ← @TypeRef.exists_resolve_eq_ok_iff s.catalog.typeBase v.type]
  simp only [resolveVariable, bind_eq_ok_iff, pure_eq_ok_iff, mapError_eq_ok_iff]
  constructor
  · rintro ⟨_, default, hvalue, type, htype, _⟩
    exact ⟨⟨type, htype⟩, default, hvalue⟩
  · rintro ⟨⟨type, htype⟩, default, hvalue⟩
    exact ⟨_, default, hvalue, type, htype, rfl⟩

end Scope

/-- An operation can be compiled exactly if it keeps the rules. -/
theorem Operation.exists_compile_eq_ok_iff {o : Operation} {c : Catalog}
    {fragments : OrderedMap Name Fragment} :
    (∃ compiled, o.compile c fragments = .ok compiled) ↔ o.Valid c fragments := by
  constructor
  · rintro ⟨compiled, h⟩
    obtain ⟨name, type, parameters, set, enums, needed, hname, htype, hparameters, hset, hneeded,
      _⟩ := compile_eq_ok_iff.mp h
    obtain ⟨root, hroot, hcomposite⟩ := Scope.rootType_eq_ok_iff.mp htype
    refine ⟨⟨name, hname⟩, ⟨root, type, hroot, hcomposite, ?_⟩, ?_, ?_⟩
    · exact Scope.exists_selectionSet_eq_ok_iff_valid.mp ⟨_, hset⟩
    · intro v hv
      exact Scope.exists_resolveVariable_eq_ok_iff.mp
        (exists_mapM_eq_ok_iff.mp ⟨parameters, hparameters⟩ v hv)
    · exact Scope.exists_variableDependencies_iff.mp ⟨needed, hneeded⟩
  · rintro ⟨⟨name, hname⟩, ⟨root, type, hroot, hcomposite, hselections⟩, hvariables, hneeds⟩
    let s := Scope.start c fragments (.operation o.kind name)
    have htype : s.rootType o name = .ok type :=
      Scope.rootType_eq_ok_iff.mpr ⟨root, hroot, hcomposite⟩
    obtain ⟨parameters, hparameters⟩ := (exists_mapM_eq_ok_iff (f := s.resolveVariable)).mpr
      fun v hv => Scope.exists_resolveVariable_eq_ok_iff.mpr (hvariables v hv)
    obtain ⟨⟨set, enums⟩, hset⟩ :=
      (@Scope.exists_selectionSet_eq_ok_iff_valid s _ type []).mpr hselections
    obtain ⟨needed, hneeded⟩ := (@Scope.exists_variableDependencies_iff s _).mpr hneeds
    exact ⟨_, compile_eq_ok_iff.mpr ⟨name, type, parameters, set, enums, needed, hname, htype,
      hparameters, hset, hneeded, rfl⟩⟩

/-- A fragment can be compiled exactly if it keeps the rules. -/
theorem Fragment.exists_compile_eq_ok_iff {f : Fragment} {c : Catalog}
    {fragments : OrderedMap Name Fragment} :
    (∃ compiled, f.compile c fragments = .ok compiled) ↔ f.Valid c fragments := by
  let s := Scope.start c fragments (.fragment f.name)
  constructor
  · rintro ⟨compiled, h⟩
    obtain ⟨type, set, enums, htype, hset, _⟩ := compile_eq_ok_iff.mp h
    exact ⟨type, htype, Scope.exists_selectionSet_eq_ok_iff_valid.mp ⟨_, hset⟩⟩
  · rintro ⟨type, htype, hselections⟩
    obtain ⟨⟨set, enums⟩, hset⟩ :=
      (@Scope.exists_selectionSet_eq_ok_iff_valid s _ type []).mpr hselections
    exact ⟨_, compile_eq_ok_iff.mpr ⟨type, set, enums, htype, hset, rfl⟩⟩

namespace Registry

/-- Documents can be compiled exactly if each operation and each fragment can. -/
theorem exists_compile_eq_ok_iff {r : Registry} {c : Catalog} :
    (∃ compiled, r.compile c = .ok compiled) ↔
      (∀ o ∈ r.operations.values, ∃ compiled, o.compile c r.fragments = .ok compiled) ∧
        ∀ f ∈ r.fragments.values, ∃ compiled, f.compile c r.fragments = .ok compiled := by
  simp only [OrderedMap.values, ← exists_mapM_entries_eq_ok_iff, compile_eq_ok_iff]
  constructor
  · rintro ⟨_, operations, fragments, hoperations, hfragments, _⟩
    exact ⟨⟨operations, hoperations⟩, fragments, hfragments⟩
  · rintro ⟨⟨operations, hoperations⟩, fragments, hfragments⟩
    exact ⟨_, operations, fragments, hoperations, hfragments, rfl⟩

/-- Selections can be resolved exactly if they keep the rules, against every catalog and below any
fields; and documents can be compiled exactly if all of their operations and fragments keep the
rules. -/
theorem succeeds_iff_valid :
    (∀ (s : Scope) (type : CompositeType) (traversed : List SelectedField)
      (selections : List Selection),
      (∃ result, s.selectionSet type traversed selections = .ok result) ↔
        ∀ selection ∈ selections, selection.Valid s.catalog s.fragments type) ∧
    ∀ (r : Registry) (c : Catalog),
      (∃ compiled, r.compile c = .ok compiled) ↔
        (∀ o ∈ r.operations.values, o.Valid c r.fragments) ∧
          ∀ f ∈ r.fragments.values, f.Valid c r.fragments := by
  refine ⟨fun s type traversed selections => Scope.exists_selectionSet_eq_ok_iff_valid, ?_⟩
  intro r c
  rw [exists_compile_eq_ok_iff]
  exact and_congr (forall₂_congr fun _ _ => Operation.exists_compile_eq_ok_iff)
    (forall₂_congr fun _ _ => Fragment.exists_compile_eq_ok_iff)

end Registry

end QueryCompiler

import QueryCompiler.Proofs.Nullability
import QueryCompiler.Proofs.SelectionSet.Paths

/-!
# Fields that selections write

The fields that stand anywhere in selections, each with the declaration and the type that it has
there. Resolving selections notes the enums among the types of all these fields, at every depth, and
no others.
-/

namespace QueryCompiler

open Outcome

/-- A field stands in a selection on a type, directly or inside of it. -/
inductive Selection.Writes (c : Catalog) : CompositeType → Selection → SelectedField → Prop
  | here {type : CompositeType} {location : Option Location} {aliasName : Option Name}
      {name : Name} {arguments : List Argument} {directives : List Directive}
      {selections : List Selection} {f : SelectedField} :
      type.selected? c location aliasName name arguments directives = some f →
      Writes c type (.field location aliasName name arguments directives selections) f
  | subfield {type nested : CompositeType} {location : Option Location} {aliasName : Option Name}
      {name : Name} {arguments : List Argument} {directives : List Directive}
      {selections : List Selection} {selection : Selection} {definition : FieldDefinition}
      {f : SelectedField} :
      type.Declares name definition → c.composite? definition.type.innermost = some nested →
      selection ∈ selections → Writes c nested selection f →
      Writes c type (.field location aliasName name arguments directives selections) f
  | inline {type nested : CompositeType} {location : Option Location} {condition : Option Name}
      {directives : List Directive} {selections : List Selection} {selection : Selection}
      {f : SelectedField} :
      c.InlineOn type condition nested → selection ∈ selections → Writes c nested selection f →
      Writes c type (.inline location condition directives selections) f

/-- A selected field has a declaration of its type, and the resolved type of that declaration. -/
theorem CompositeType.selected?_eq_some_iff {type : CompositeType} {c : Catalog}
    {location : Option Location} {aliasName : Option Name} {name : Name}
    {arguments : List Argument} {directives : List Directive} {f : SelectedField} :
    type.selected? c location aliasName name arguments directives = some f ↔
      ∃ definition resolved, type.Declares name definition ∧
        c.resolve definition.type = .ok resolved ∧
        ⟨location, aliasName, name, definition, resolved, arguments, directives⟩ = f := by
  simp only [selected?, Option.bind_eq_bind, Option.bind_eq_some_iff, field?_eq_some_iff,
    toOption_eq_some_iff, Option.pure_def, Option.some.injEq, exists_and_left]

/-- The type of a written field is the resolved one of its definition. -/
theorem Selection.Writes.resolve_eq_ok {c : Catalog} {type : CompositeType} {selection : Selection}
    {f : SelectedField} (h : selection.Writes c type f) :
    c.resolve f.definition.type = .ok f.type := by
  induction h with
  | here hf =>
      obtain ⟨definition, resolved, _, hresolved, rfl⟩ := CompositeType.selected?_eq_some_iff.mp hf
      exact hresolved
  | subfield _ _ _ _ ih => exact ih
  | inline _ _ _ ih => exact ih

/-- The innermost type keeps the name that the schema gives it. -/
theorem Catalog.schemaName_typeBase (c : Catalog) (name : Name) :
    (c.typeBase name).schemaName = name := by
  unfold typeBase
  cases hscalar : BuiltInScalar.ofName? name with
  | some scalar => exact (BuiltInScalar.ofName?_eq_some_iff.mp hscalar).symm
  | none => cases (c.scalar? name).isSome <;> simp [TypeBase.schemaName]

/-- The innermost name of a written field's resolved type is that of its declared type. -/
theorem Selection.Writes.schemaName_eq {c : Catalog} {type : CompositeType}
    {selection : Selection} {f : SelectedField} (h : selection.Writes c type f) :
    f.type.base.schemaName = f.definition.type.innermost := by
  rw [TypeRef.base_of_resolve h.resolve_eq_ok, Catalog.schemaName_typeBase]

/-- A type has one declaration of a name. -/
theorem CompositeType.Declares.unique {type : CompositeType} {name : Name}
    {a b : FieldDefinition} (ha : type.Declares name a) (hb : type.Declares name b) : a = b := by
  rw [← CompositeType.field?_eq_some_iff] at ha hb
  rw [ha, Option.some.injEq] at hb
  exact hb

/-- The selections of an inline fragment are made on one type. -/
theorem Catalog.InlineOn.unique {c : Catalog} {type a b : CompositeType} {condition : Option Name}
    (ha : c.InlineOn type condition a) (hb : c.InlineOn type condition b) : a = b := by
  have hsome := CompositeType.inline?_eq_some ha
  rw [CompositeType.inline?_eq_some hb, Option.some.injEq] at hsome
  exact hsome.symm

namespace Scope

variable {s : Scope} {type : CompositeType} {traversed : List SelectedField}

/-- An enum is noted for selections exactly if it is noted for one of them. -/
theorem mem_enums_of_resolveSelections_iff {selections : List Selection} {parts : SelectionParts}
    {entry : Name × EnumType} {P : Selection → Prop}
    (hall : ∀ selection ∈ selections, ∀ parts,
      s.resolveSelection type traversed selection = .ok parts →
        (entry ∈ parts.enums ↔ P selection))
    (h : s.resolveSelections type traversed selections = .ok parts) :
    entry ∈ parts.enums ↔ ∃ selection ∈ selections, P selection := by
  induction selections generalizing parts with
  | nil =>
      obtain rfl := resolveSelections_nil_eq_ok_iff.mp h
      simp [SelectionParts.empty]
  | cons selection rest ih =>
      obtain ⟨first, others, hfirst, hothers, rfl⟩ := resolveSelections_cons_eq_ok_iff.mp h
      obtain ⟨hselection, hrest⟩ := List.forall_mem_cons.mp hall
      rw [SelectionParts.append, List.mem_append, hselection first hfirst, ih hrest hothers]
      simp only [List.mem_cons, or_and_right, exists_or, exists_eq_left]

/-- The enums that a selection notes are those of the fields that it writes. -/
theorem mem_enums_of_resolveSelection_iff {selection : Selection} {parts : SelectionParts}
    {entry : Name × EnumType}
    (h : s.resolveSelection type traversed selection = .ok parts) :
    entry ∈ parts.enums ↔
      ∃ f, selection.Writes s.catalog type f ∧ s.enum? f.definition = some entry := by
  induction selection generalizing s type traversed parts with
  | field location aliasName name arguments directives selections ih =>
      cases selections with
      | nil =>
          obtain ⟨definition, resolved, hdeclares, hresolved, rfl⟩ :=
            resolveSelection_leaf_eq_ok_iff.mp h
          rw [Option.mem_toList]
          constructor
          · intro henum
            exact ⟨_, .here (CompositeType.selected?_eq_some location aliasName arguments
              directives hdeclares hresolved), henum⟩
          · rintro ⟨f, hwrites, henum⟩
            cases hwrites with
            | here hf =>
                obtain ⟨own, _, hown, _, rfl⟩ := CompositeType.selected?_eq_some_iff.mp hf
                rw [hdeclares.unique hown]
                exact henum
            | subfield _ _ hmem _ => cases hmem
      | cons first rest =>
          obtain ⟨definition, resolved, nested, set, enums, hdeclares, hresolved, hnested, hset,
            rfl⟩ := resolveSelection_object_eq_ok_iff.mp h
          obtain ⟨inner, hinner, rfl, rfl⟩ := selectionSet_eq_ok_iff.mp hset
          rw [mem_enums_of_resolveSelections_iff (fun selection hmem _ => ih selection hmem) hinner]
          constructor
          · rintro ⟨selection, hmem, f, hwrites, henum⟩
            exact ⟨f, .subfield hdeclares hnested hmem hwrites, henum⟩
          · rintro ⟨f, hwrites, henum⟩
            cases hwrites with
            | here hf =>
                -- The field itself has sub-selections, so that its type is no enum.
                obtain ⟨own, _, hown, _, rfl⟩ := CompositeType.selected?_eq_some_iff.mp hf
                have hnone : s.enum? own = none := by
                  rw [enum?_eq_none_iff, ← hdeclares.unique hown]
                  exact Catalog.enum?_eq_none_of_composite? hnested
                rw [hnone] at henum
                cases henum
            | subfield hown hon hmem hinside =>
                -- The declared field is the one that was resolved, and so is the type below it.
                rw [← hdeclares.unique hown, hnested, Option.some.injEq] at hon
                subst hon
                exact ⟨_, hmem, f, hinside, henum⟩
  | spread location name directives =>
      obtain ⟨_, rfl⟩ := resolveSelection_spread_eq_ok_iff.mp h
      constructor
      · intro hmem
        cases hmem
      · rintro ⟨f, hwrites, _⟩
        cases hwrites
  | inline location condition directives selections ih =>
      obtain ⟨nested, set, enums, hon, hset, rfl⟩ := resolveSelection_inline_eq_ok_iff.mp h
      obtain ⟨inner, hinner, rfl, rfl⟩ := selectionSet_eq_ok_iff.mp hset
      rw [mem_enums_of_resolveSelections_iff (fun selection hmem _ => ih selection hmem) hinner]
      constructor
      · rintro ⟨selection, hmem, f, hwrites, henum⟩
        exact ⟨f, .inline hon hmem hwrites, henum⟩
      · rintro ⟨f, hwrites, henum⟩
        cases hwrites with
        | inline hother hmem hinside =>
            obtain rfl := hon.unique hother
            exact ⟨_, hmem, f, hinside, henum⟩

/-- The enums that are noted for a selection set are those of the fields that its selections
write. -/
theorem mem_enums_of_selectionSet_iff {selections : List Selection} {set : SelectionSet}
    {enums : List (Name × EnumType)} {entry : Name × EnumType}
    (h : s.selectionSet type traversed selections = .ok (set, enums)) :
    entry ∈ enums ↔ ∃ selection ∈ selections, ∃ f,
      selection.Writes s.catalog type f ∧ s.enum? f.definition = some entry := by
  obtain ⟨parts, hparts, _, rfl⟩ := selectionSet_eq_ok_iff.mp h
  exact mem_enums_of_resolveSelections_iff (fun _ _ _ => mem_enums_of_resolveSelection_iff) hparts

end Scope

end QueryCompiler

import QueryCompiler.Proofs.SelectionSet.Merge
import QueryCompiler.SelectionSet.Resolve

/-!
# When selections can be resolved

For every kind of selection, what it takes to be resolved and what it becomes then. The selections
inside a field or an inline fragment enter as a whole, through the selection set that they make up.
Merging the inline fragments of a level never stands in the way: all of them are reached through the
same fields.
-/

namespace QueryCompiler

open Outcome

namespace CompositeType

/-- The declaration of a field: one of the type's own, or that of `__typename`. -/
inductive Declares (type : CompositeType) (name : Name) : FieldDefinition → Prop
  | own {definition : FieldDefinition} : type.fields.get? name = some definition →
      Declares type name definition
  | typename : type.fields.get? name = none → name = typenameField →
      Declares type name .typename

/-- The field of a name is the one that the type declares. -/
theorem field?_eq_some_iff {type : CompositeType} {name : Name} {definition : FieldDefinition} :
    type.field? name = some definition ↔ type.Declares name definition := by
  unfold field?
  constructor
  · intro h
    cases hown : type.fields.get? name with
    | some own =>
        rw [hown] at h
        cases h
        exact .own hown
    | none =>
        rw [hown] at h
        by_cases hname : name = typenameField
        · simp only [hname, if_true, Option.some.injEq] at h
          rw [← h]
          exact .typename hown hname
        · simp only [hname, if_false] at h
          cases h
  · rintro (hown | ⟨hnone, hname⟩)
    · rw [hown]
    · rw [hnone]
      exact if_pos hname

end CompositeType

namespace Catalog

/-- A fragment with the given type condition can stand on a type. -/
def AllowsFragment (c : Catalog) (type : CompositeType) (condition : Name) : Prop :=
  (∃ on, c.composite? condition = some on) ∧ type.isSpreadPossible condition c = true

/-- The type on which the selections of an inline fragment are made: that of its type condition,
which must be able to stand where the fragment stands, or else that of its surroundings. -/
inductive InlineOn (c : Catalog) (type : CompositeType) : Option Name → CompositeType → Prop
  | bare : InlineOn c type none type
  | condition {condition : Name} {on : CompositeType} : c.composite? condition = some on →
      type.isSpreadPossible condition c = true → InlineOn c type (some condition) on

/-- No name is that of a composite type and of an enum. -/
theorem enum?_eq_none_of_composite? {c : Catalog} {name : Name} {type : CompositeType}
    (h : c.composite? name = some type) : c.enum? name = none := by
  simp only [enum?, composite?] at h ⊢
  cases hget : c.get? name with
  | none => rfl
  | some definition =>
      rw [hget] at h
      cases definition with
      | enum t => cases h
      | scalar t => rfl
      | object t => rfl
      | interface t => rfl
      | union t => rfl
      | inputObject t => rfl

/-- The selections of a field are on the composite type that its type names. -/
theorem selectionType_eq_ok_iff {c : Catalog} {field : FieldDefinition} {type : CompositeType} :
    c.selectionType field = .ok type ↔ c.composite? field.type.innermost = some type := by
  unfold selectionType
  cases hcomposite : c.composite? field.type.innermost with
  | some composite => simp [hcomposite]
  | none =>
      cases hscalar : BuiltInScalar.ofName? field.type.innermost with
      | some scalar => simp [hcomposite, hscalar]
      | none => cases hget : c.get? field.type.innermost <;> simp [hcomposite, hscalar, hget]

end Catalog

namespace SelectionParts

/-- The selection set that resolved selections make up, if nothing is in the way of merging their
inline fragments. -/
def united (parts : SelectionParts) (type : CompositeType) (traversed : List SelectedField) :
    SelectionSet where
  typeName := type.name
  kind := type.kind
  traversed := traversed
  scalars := parts.scalarsWithTypename
  spreads := parts.spreads
  objects := ObjectField.flagAmbiguous parts.objects
  inlines := InlineFragment.unitedAll parts.inlines

variable {parts : SelectionParts} {type : CompositeType} {traversed : List SelectedField}

/-- Parts whose inline fragments stand at one place are assembled. -/
theorem assemble_eq_ok (h : ∀ i ∈ parts.inlines, i.selectionSet.traversed = traversed) :
    parts.assemble type traversed = .ok (parts.united type traversed) := by
  rw [assemble, SelectionSet.mergeInlines, bind_eq_ok_iff]
  have hpath : ∀ i ∈ parts.inlines, i.selectionSet.traversed.map SelectedField.strip =
      traversed.map SelectedField.strip := fun i hi => by rw [h i hi]
  exact ⟨_, InlineFragment.mergeAll_eq_ok hpath, rfl⟩

/-- A selection set is assembled for its own place. -/
theorem traversed_of_assemble {set : SelectionSet}
    (h : parts.assemble type traversed = .ok set) : set.traversed = traversed := by
  simp only [assemble, SelectionSet.mergeInlines, bind_eq_ok_iff, pure_eq_ok_iff] at h
  obtain ⟨_, _, rfl⟩ := h
  rfl

end SelectionParts

namespace Scope

variable {s : Scope} {type : CompositeType} {traversed : List SelectedField}
  {location : Option Location} {parts : SelectionParts}

private theorem violation_ne_ok {α : Type} {broken : Violation} {a : α} :
    s.violation location broken ≠ .ok a := nofun

/-- A field has no enum if its type names none. -/
theorem enum?_eq_none_iff {definition : FieldDefinition} :
    s.enum? definition = none ↔ s.catalog.enum? definition.type.innermost = none := by
  rw [enum?, Option.map_eq_none_iff]

/-- A field passes if its type declares it, without selections if it is an enum. -/
theorem declaration_eq_ok_iff {name : Name} {hasSelections : Bool}
    {definition : FieldDefinition} :
    s.declaration type location name hasSelections = .ok definition ↔
      type.Declares name definition ∧ (hasSelections = true → s.enum? definition = none) := by
  rw [← CompositeType.field?_eq_some_iff]
  unfold declaration
  cases type.field? name with
  | none => simp [violation]
  | some found =>
      constructor
      · intro h
        cases henum : s.enum? found with
        | none =>
            simp only [henum, Except.ok.injEq] at h
            subst h
            exact ⟨rfl, fun _ => henum⟩
        | some entry =>
            cases hasSelections with
            | true => simp [henum, violation] at h
            | false =>
                simp only [henum, Bool.false_eq_true, if_false, Except.ok.injEq] at h
                subst h
                exact ⟨rfl, nofun⟩
      · rintro ⟨hfound, henum⟩
        cases hfound
        cases hasSelections with
        | true => simp [henum rfl]
        | false => cases hfield : s.enum? definition <;> simp [hfield]

/-- A spread passes if its fragment is there and allowed on the type. -/
theorem checkSpread_eq_ok_iff {name : Name} :
    s.checkSpread type location name = .ok () ↔
      ∃ fragment, s.fragments.get? name = some fragment ∧
        s.catalog.AllowsFragment type fragment.condition := by
  unfold checkSpread Catalog.AllowsFragment
  cases s.fragments.get? name with
  | none => simp [violation]
  | some fragment =>
      cases hon : s.catalog.composite? fragment.condition with
      | none => simp [violation, hon]
      | some on =>
          by_cases hpossible : type.isSpreadPossible fragment.condition s.catalog = true
          · simp [hpossible, hon]
          · simp [hpossible, hon, violation]

/-- A type condition passes if it is allowed on the type. -/
theorem inlineType_eq_ok_iff {condition : Option Name} {on : CompositeType} :
    s.inlineType type location condition = .ok on ↔
      s.catalog.InlineOn type condition on := by
  constructor
  · intro h
    cases condition with
    | none =>
        cases h
        exact .bare
    | some condition =>
        rw [inlineType] at h
        cases hon : s.catalog.composite? condition with
        | none =>
            rw [hon] at h
            exact absurd h violation_ne_ok
        | some found =>
            by_cases hpossible : type.isSpreadPossible condition s.catalog = true
            · simp only [hon, hpossible, if_true, Except.ok.injEq] at h
              exact .condition (h ▸ hon) hpossible
            · simp only [hon, if_neg hpossible] at h
              exact absurd h violation_ne_ok
  · rintro (_ | ⟨hon, hpossible⟩)
    · rfl
    · simp [inlineType, hon, hpossible]

/-! ### Selections -/

/-- No selections have no parts. -/
theorem resolveSelections_nil_eq_ok_iff :
    s.resolveSelections type traversed [] = .ok parts ↔ .empty = parts := by
  rw [resolveSelections, Except.ok.injEq]

/-- Selections are resolved one after the other. -/
theorem resolveSelections_cons_eq_ok_iff {selection : Selection} {rest : List Selection} :
    s.resolveSelections type traversed (selection :: rest) = .ok parts ↔
      ∃ first others, s.resolveSelection type traversed selection = .ok first ∧
        s.resolveSelections type traversed rest = .ok others ∧ first.append others = parts := by
  simp only [resolveSelections, bind_eq_ok_iff, pure_eq_ok_iff, exists_and_left]

private theorem selectionSet_eq_ok_iff_assemble {selections : List Selection} {set : SelectionSet}
    {enums : List (Name × EnumType)} :
    s.selectionSet type traversed selections = .ok (set, enums) ↔
      ∃ parts, s.resolveSelections type traversed selections = .ok parts ∧
        parts.assemble type traversed = .ok set ∧ parts.enums = enums := by
  simp only [selectionSet, bind_eq_ok_iff, pure_eq_ok_iff, mapError_eq_ok_iff, Prod.mk.injEq]
  constructor
  · rintro ⟨parts, hparts, _, hset, rfl, henums⟩
    exact ⟨parts, hparts, hset, henums⟩
  · rintro ⟨parts, hparts, hset, henums⟩
    exact ⟨parts, hparts, set, hset, rfl, henums⟩

/-- A field without sub-selections. -/
theorem resolveSelection_leaf_eq_ok_iff {aliasName : Option Name} {name : Name}
    {arguments : List Argument} {directives : List Directive} :
    s.resolveSelection type traversed
        (.field location aliasName name arguments directives []) = .ok parts ↔
      ∃ definition resolved, type.Declares name definition ∧
        s.catalog.resolve definition.type = .ok resolved ∧
        ⟨[⟨location, aliasName, name, definition, resolved, arguments, directives⟩], [], [], [],
          (s.enum? definition).toList⟩ = parts := by
  simp only [resolveSelection, bind_eq_ok_iff, pure_eq_ok_iff, mapError_eq_ok_iff,
    declaration_eq_ok_iff, List.isEmpty_nil, if_true, Bool.not_true, Bool.false_eq_true,
    false_imp_iff, and_true, exists_and_left]

/-- A field with sub-selections, which are made on the composite type that its own type comes down
to. -/
theorem resolveSelection_object_eq_ok_iff {aliasName : Option Name} {name : Name}
    {arguments : List Argument} {directives : List Directive} {selection : Selection}
    {rest : List Selection} :
    s.resolveSelection type traversed
        (.field location aliasName name arguments directives (selection :: rest)) = .ok parts ↔
      ∃ definition resolved nested set enums, type.Declares name definition ∧
        s.catalog.resolve definition.type = .ok resolved ∧
        s.catalog.composite? definition.type.innermost = some nested ∧
        (s.enter (aliasName.getD name)).selectionSet nested
          (traversed ++ [⟨location, aliasName, name, definition, resolved, arguments, directives⟩])
          (selection :: rest) = .ok (set, enums) ∧
        ⟨[], [], [⟨⟨location, aliasName, name, definition, resolved, arguments, directives⟩, set,
          false⟩], [], enums⟩ = parts := by
  simp only [resolveSelection, bind_eq_ok_iff, pure_eq_ok_iff, mapError_eq_ok_iff,
    declaration_eq_ok_iff, Catalog.selectionType_eq_ok_iff, selectionSet_eq_ok_iff_assemble,
    List.isEmpty_cons, if_false, Bool.not_false, Bool.false_eq_true, true_imp_iff]
  constructor
  · rintro ⟨definition, ⟨hdeclares, henum⟩, resolved, hresolved, nested, hnested, inner, hinner,
      set, hset, rfl⟩
    rw [henum]
    exact ⟨definition, resolved, nested, set, inner.enums, hdeclares, hresolved, hnested,
      ⟨inner, hinner, hset, rfl⟩, rfl⟩
  · rintro ⟨definition, resolved, nested, set, enums, hdeclares, hresolved, hnested,
      ⟨inner, hinner, hset, rfl⟩, rfl⟩
    have henum : s.enum? definition = none :=
      enum?_eq_none_iff.mpr (Catalog.enum?_eq_none_of_composite? hnested)
    refine ⟨definition, ⟨hdeclares, henum⟩, resolved, hresolved, nested, hnested, inner, hinner,
      set, hset, ?_⟩
    rw [henum]
    rfl

/-- When a spread is resolved, and to what. -/
theorem resolveSelection_spread_eq_ok_iff {name : Name} {directives : List Directive} :
    s.resolveSelection type traversed (.spread location name directives) = .ok parts ↔
      (∃ fragment, s.fragments.get? name = some fragment ∧
        s.catalog.AllowsFragment type fragment.condition) ∧
      ⟨[], [⟨location, name, directives⟩], [], [], []⟩ = parts := by
  rw [← @checkSpread_eq_ok_iff s type location name]
  simp only [resolveSelection, bind_eq_ok_iff, pure_eq_ok_iff]
  constructor
  · rintro ⟨_, hcheck, hparts⟩
    exact ⟨hcheck, hparts⟩
  · rintro ⟨hcheck, hparts⟩
    exact ⟨(), hcheck, hparts⟩

/-- When an inline fragment is resolved, and to what. -/
theorem resolveSelection_inline_eq_ok_iff {condition : Option Name} {directives : List Directive}
    {selections : List Selection} :
    s.resolveSelection type traversed (.inline location condition directives selections) =
        .ok parts ↔
      ∃ nested set enums, s.catalog.InlineOn type condition nested ∧
        s.selectionSet nested traversed selections = .ok (set, enums) ∧
        ⟨[], [], [], [⟨nested.name, directives, set⟩], enums⟩ = parts := by
  simp only [resolveSelection, bind_eq_ok_iff, pure_eq_ok_iff, mapError_eq_ok_iff,
    inlineType_eq_ok_iff, selectionSet_eq_ok_iff_assemble]
  constructor
  · rintro ⟨nested, hnested, inner, hinner, set, hset, hparts⟩
    exact ⟨nested, set, inner.enums, hnested, ⟨inner, hinner, hset, rfl⟩, hparts⟩
  · rintro ⟨nested, set, enums, hnested, ⟨inner, hinner, hset, rfl⟩, hparts⟩
    exact ⟨nested, hnested, inner, hinner, set, hset, hparts⟩

/-! ### Selection sets -/

/-- Inline fragments are reached through the same fields as their surroundings. -/
theorem traversed_of_resolveSelection {selection : Selection}
    (h : s.resolveSelection type traversed selection = .ok parts) :
    ∀ i ∈ parts.inlines, i.selectionSet.traversed = traversed := by
  cases selection with
  | field location aliasName name arguments directives selections =>
      cases selections with
      | nil =>
          obtain ⟨_, _, _, _, rfl⟩ := resolveSelection_leaf_eq_ok_iff.mp h
          exact nofun
      | cons selection rest =>
          obtain ⟨_, _, _, _, _, _, _, _, _, rfl⟩ := resolveSelection_object_eq_ok_iff.mp h
          exact nofun
  | spread location name directives =>
      obtain ⟨_, rfl⟩ := resolveSelection_spread_eq_ok_iff.mp h
      exact nofun
  | inline location condition directives selections =>
      obtain ⟨nested, set, enums, _, hset, rfl⟩ := resolveSelection_inline_eq_ok_iff.mp h
      obtain ⟨_, _, hassemble, _⟩ := selectionSet_eq_ok_iff_assemble.mp hset
      intro i hi
      rw [List.mem_singleton.mp hi]
      exact SelectionParts.traversed_of_assemble hassemble

/-- The inline fragments of selections stand at the place of the selections. -/
theorem traversed_of_resolveSelections {selections : List Selection}
    (h : s.resolveSelections type traversed selections = .ok parts) :
    ∀ i ∈ parts.inlines, i.selectionSet.traversed = traversed := by
  induction selections generalizing parts with
  | nil =>
      obtain rfl := resolveSelections_nil_eq_ok_iff.mp h
      exact nofun
  | cons selection rest ih =>
      obtain ⟨first, others, hfirst, hothers, rfl⟩ := resolveSelections_cons_eq_ok_iff.mp h
      intro i hi
      rcases List.mem_append.mp hi with hmem | hmem
      · exact traversed_of_resolveSelection hfirst i hmem
      · exact ih hothers i hmem

/-- Selections make up a selection set exactly if they can be resolved one by one. -/
theorem selectionSet_eq_ok_iff {selections : List Selection} {set : SelectionSet}
    {enums : List (Name × EnumType)} :
    s.selectionSet type traversed selections = .ok (set, enums) ↔
      ∃ parts, s.resolveSelections type traversed selections = .ok parts ∧
        parts.united type traversed = set ∧ parts.enums = enums := by
  rw [selectionSet_eq_ok_iff_assemble]
  apply exists_congr
  intro parts
  apply and_congr_right
  intro hparts
  have hassemble : parts.assemble type traversed = .ok (parts.united type traversed) :=
    SelectionParts.assemble_eq_ok (traversed_of_resolveSelections hparts)
  rw [hassemble, Except.ok.injEq]

/-- A selection set is on the type that it is resolved on. -/
theorem typeName_of_selectionSet {selections : List Selection} {set : SelectionSet}
    {enums : List (Name × EnumType)}
    (h : s.selectionSet type traversed selections = .ok (set, enums)) :
    set.typeName = type.name := by
  obtain ⟨_, _, rfl, _⟩ := selectionSet_eq_ok_iff.mp h
  rfl

/-- Selections can be resolved exactly if each of them can, whatever stands beside it. -/
theorem exists_resolveSelections_eq_ok_iff {selections : List Selection} :
    (∃ parts, s.resolveSelections type traversed selections = .ok parts) ↔
      ∀ selection ∈ selections,
        ∃ parts, s.resolveSelection type traversed selection = .ok parts := by
  induction selections with
  | nil => simp [resolveSelections]
  | cons selection rest ih =>
      rw [List.forall_mem_cons, ← ih]
      simp only [resolveSelections_cons_eq_ok_iff]
      constructor
      · rintro ⟨_, first, others, hfirst, hothers, _⟩
        exact ⟨⟨first, hfirst⟩, others, hothers⟩
      · rintro ⟨⟨first, hfirst⟩, others, hothers⟩
        exact ⟨_, first, others, hfirst, hothers, rfl⟩

/-- A selection set is resolved if each of its selections is. -/
theorem exists_selectionSet_eq_ok_iff {selections : List Selection} :
    (∃ set enums, s.selectionSet type traversed selections = .ok (set, enums)) ↔
      ∀ selection ∈ selections,
        ∃ parts, s.resolveSelection type traversed selection = .ok parts := by
  rw [← exists_resolveSelections_eq_ok_iff]
  simp only [selectionSet_eq_ok_iff]
  constructor
  · rintro ⟨_, _, parts, hparts, _⟩
    exact ⟨parts, hparts⟩
  · rintro ⟨parts, hparts⟩
    exact ⟨_, _, parts, hparts, rfl, rfl⟩

end Scope

end QueryCompiler

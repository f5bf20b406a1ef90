import QueryCompiler.Proofs.Document.Induction
import QueryCompiler.Proofs.SelectionSet.Resolve

/-!
# Why selections cannot be resolved

A selection cannot be resolved because it breaks a rule, because the schema contradicts itself where
the selection looks, or because one of these is so of a selection inside it. The relations below say
for every kind of selection what can be wrong with it and how that is reported. Merging inline
fragments is not among the reasons.
-/

namespace QueryCompiler

open Outcome

/-- A selection on a type breaks a rule by itself, whatever stands inside it. The location is where
this is reported: at the selection, except that a fragment whose own type condition is wrong is
reported where it is defined. -/
inductive Selection.Breaks (c : Catalog) (fragments : OrderedMap Name Fragment)
    (type : CompositeType) : Selection → Option Location → Violation → Prop
  | undefinedField {location aliasName name arguments directives selections} :
      type.field? name = none →
      Breaks c fragments type (.field location aliasName name arguments directives selections)
        location (.undefinedField type.name name)
  | enumField {location aliasName name arguments directives selections definition leaf} :
      type.Declares name definition → c.enum? definition.type.innermost = some leaf →
      selections ≠ [] →
      Breaks c fragments type (.field location aliasName name arguments directives selections)
        location (.subselectionOnLeafType name definition.type.innermost "an enum type")
  | scalarField {location aliasName name arguments directives selections definition scalar} :
      type.Declares name definition → c.composite? definition.type.innermost = none →
      BuiltInScalar.ofName? definition.type.innermost = some scalar → selections ≠ [] →
      Breaks c fragments type (.field location aliasName name arguments directives selections)
        location
        (.subselectionOnLeafType definition.name definition.type.innermost "a built-in scalar")
  | leafField {location aliasName name arguments directives selections definition leaf} :
      type.Declares name definition → c.composite? definition.type.innermost = none →
      c.get? definition.type.innermost = some leaf → selections ≠ [] →
      Breaks c fragments type (.field location aliasName name arguments directives selections)
        location
        (.subselectionOnLeafType definition.name definition.type.innermost leaf.description)
  | undefinedFragment {location name directives} :
      fragments.get? name = none →
      Breaks c fragments type (.spread location name directives) location (.undefinedFragment name)
  | undefinedCondition {location name directives fragment} :
      fragments.get? name = some fragment → c.composite? fragment.condition = none →
      Breaks c fragments type (.spread location name directives) fragment.location
        (.undefinedTypeCondition fragment.name fragment.condition)
  | impossibleSpread {location name directives fragment on} :
      fragments.get? name = some fragment →
      c.composite? fragment.condition = some on →
      ¬ type.isSpreadPossible fragment.condition c = true →
      Breaks c fragments type (.spread location name directives) location
        (.impossibleFragmentSpread fragment.name fragment.condition type.name)
  | undefinedInlineCondition {location condition directives selections} :
      c.composite? condition = none →
      Breaks c fragments type (.inline location (some condition) directives selections) location
        (.undefinedInlineTypeCondition condition)
  | impossibleInline {location condition directives selections on} :
      c.composite? condition = some on →
      ¬ type.isSpreadPossible condition c = true →
      Breaks c fragments type (.inline location (some condition) directives selections) location
        (.impossibleInlineFragment condition type.name)

/-- A field is selected whose declared type cannot be resolved, or leads nowhere although there are
sub-selections to be made on it. -/
inductive Selection.Contradicts (c : Catalog) (type : CompositeType) :
    Selection → Inconsistency → Prop
  | type {location aliasName name arguments directives selections definition e} :
      type.Declares name definition → c.resolve definition.type = .error e →
      Contradicts c type (.field location aliasName name arguments directives selections) e
  | nowhere {location aliasName name arguments directives selections definition} :
      type.Declares name definition → BuiltInScalar.ofName? definition.type.innermost = none →
      c.get? definition.type.innermost = none → selections ≠ [] →
      Contradicts c type (.field location aliasName name arguments directives selections)
        (.unresolvedType definition.type.innermost ("field `" ++ definition.name ++ "`"))

/-- A selection cannot be resolved, for a reason that lies in itself or in a selection inside it. -/
inductive Selection.Fails :
    Scope → CompositeType → List SelectedField → Selection → Failure → Prop
  | broken {s type traversed selection location violation} :
      selection.Breaks s.catalog s.fragments type location violation →
      Fails s type traversed selection (.validation ⟨location, some s.path, violation⟩)
  | contradicted {s type traversed selection e} :
      selection.Contradicts s.catalog type e →
      Fails s type traversed selection (.inconsistency e)
  | subfield {s type traversed location aliasName name arguments directives selections definition
      resolved nested inner failure} :
      type.Declares name definition → s.catalog.resolve definition.type = .ok resolved →
      s.catalog.composite? definition.type.innermost = some nested → inner ∈ selections →
      Fails (s.enter (aliasName.getD name)) nested
        (traversed ++ [⟨location, aliasName, name, definition, resolved, arguments, directives⟩])
        inner failure →
      Fails s type traversed (.field location aliasName name arguments directives selections)
        failure
  | inline {s type traversed location condition directives selections nested inner failure} :
      s.catalog.InlineOn type condition nested → inner ∈ selections →
      Fails s nested traversed inner failure →
      Fails s type traversed (.inline location condition directives selections) failure

namespace Scope

variable {s : Scope} {type : CompositeType} {traversed : List SelectedField}
  {location : Option Location} {failure : Failure}

/-! ### Single steps -/

/-- A violation is reported with its location and the path to it. -/
theorem violation_eq_error_iff {α : Type} {broken : Violation} :
    (s.violation location broken : Except Failure α) = .error failure ↔
      .validation ⟨location, some s.path, broken⟩ = failure := by
  rw [violation, Except.error.injEq]

/-- A field that its type does not declare, or an enum with selections, fails for that. -/
theorem fails_of_declaration {aliasName : Option Name} {name : Name} {arguments : List Argument}
    {directives : List Directive} {selections : List Selection}
    (h : s.declaration type location name (!selections.isEmpty) = .error failure) :
    (Selection.field location aliasName name arguments directives selections).Fails s type traversed
      failure := by
  unfold declaration at h
  cases hfield : type.field? name with
  | none =>
      rw [hfield, violation_eq_error_iff] at h
      exact h ▸ .broken (.undefinedField hfield)
  | some definition =>
      cases henum : s.enum? definition with
      | none => simp [hfield, henum] at h
      | some entry =>
          simp only [hfield, henum] at h
          by_cases hselections : selections = []
          · simp [hselections] at h
          · have hdeclares := CompositeType.field?_eq_some_iff.mp hfield
            simp only [List.isEmpty_eq_false_iff.mpr hselections, Bool.not_false, if_true,
              violation_eq_error_iff] at h
            obtain ⟨leaf, hleaf, rfl⟩ := Option.map_eq_some_iff.mp henum
            exact h ▸ .broken (.enumField hdeclares hleaf hselections)

/-- A field whose type has no fields fails for its selections. -/
theorem fails_of_selectionType {aliasName : Option Name} {name : Name} {arguments : List Argument}
    {directives : List Directive} {selections : List Selection} {definition : FieldDefinition}
    (hdeclares : type.Declares name definition) (hselections : selections ≠ [])
    (h : (s.catalog.selectionType definition).mapError (.locate location s.path) =
      .error failure) :
    (Selection.field location aliasName name arguments directives selections).Fails s type traversed
      failure := by
  obtain ⟨cause, hcause, rfl⟩ := mapError_eq_error_iff.mp h
  unfold Catalog.selectionType at hcause
  cases hcomposite : s.catalog.composite? definition.type.innermost with
  | some nested => simp [hcomposite] at hcause
  | none =>
      cases hscalar : BuiltInScalar.ofName? definition.type.innermost with
      | some scalar =>
          simp only [hcomposite, hscalar, Except.error.injEq] at hcause
          subst hcause
          exact .broken (.scalarField hdeclares hcomposite hscalar hselections)
      | none =>
          cases hget : s.catalog.get? definition.type.innermost with
          | some leaf =>
              simp only [hcomposite, hscalar, hget, Except.error.injEq] at hcause
              subst hcause
              exact .broken (.leafField hdeclares hcomposite hget hselections)
          | none =>
              simp only [hcomposite, hscalar, hget, Except.error.injEq] at hcause
              subst hcause
              exact .contradicted (.nowhere hdeclares hscalar hget hselections)

/-- A spread fails for its fragment or for the type condition of that. -/
theorem fails_of_checkSpread {name : Name} {directives : List Directive}
    (h : s.checkSpread type location name = .error failure) :
    (Selection.spread location name directives).Fails s type traversed failure := by
  unfold checkSpread at h
  cases hfragment : s.fragments.get? name with
  | none =>
      rw [hfragment, violation_eq_error_iff] at h
      exact h ▸ .broken (.undefinedFragment hfragment)
  | some fragment =>
      cases hon : s.catalog.composite? fragment.condition with
      | none =>
          simp only [hfragment, hon, violation_eq_error_iff] at h
          exact h ▸ .broken (.undefinedCondition hfragment hon)
      | some on =>
          by_cases hpossible : type.isSpreadPossible fragment.condition s.catalog = true
          · simp [hfragment, hon, hpossible] at h
          · simp only [hfragment, hon, if_neg hpossible, violation_eq_error_iff] at h
            exact h ▸ .broken (.impossibleSpread hfragment hon hpossible)

/-- An inline fragment fails for its type condition. -/
theorem fails_of_inlineType {condition : Option Name} {directives : List Directive}
    {selections : List Selection}
    (h : s.inlineType type location condition = .error failure) :
    (Selection.inline location condition directives selections).Fails s type traversed
      failure := by
  cases condition with
  | none => cases h
  | some condition =>
      rw [inlineType] at h
      cases hon : s.catalog.composite? condition with
      | none =>
          rw [hon, violation_eq_error_iff] at h
          exact h ▸ .broken (.undefinedInlineCondition hon)
      | some on =>
          by_cases hpossible : type.isSpreadPossible condition s.catalog = true
          · simp [hon, hpossible] at h
          · simp only [hon, if_neg hpossible, violation_eq_error_iff] at h
            exact h ▸ .broken (.impossibleInline hon hpossible)

/-! ### Selections -/

/-- If selections cannot be resolved one after the other, then one of them cannot. -/
theorem exists_of_resolveSelections_eq_error {selections : List Selection}
    (h : s.resolveSelections type traversed selections = .error failure) :
    ∃ selection ∈ selections, s.resolveSelection type traversed selection = .error failure := by
  induction selections with
  | nil => cases h
  | cons first rest ih =>
      simp only [resolveSelections, bind_eq_error_iff, pure_ne_error, and_false, exists_false,
        or_false] at h
      rcases h with hfirst | ⟨_, _, hrest⟩
      · exact ⟨first, List.mem_cons_self, hfirst⟩
      · obtain ⟨selection, hmem, hselection⟩ := ih hrest
        exact ⟨selection, List.mem_cons_of_mem _ hmem, hselection⟩

/-- Resolved selections can always be put together, because inline fragments can be merged. -/
theorem assemble_ne_error {selections : List Selection} {parts : SelectionParts} {e : Inconsistency}
    (h : s.resolveSelections type traversed selections = .ok parts) :
    parts.assemble type traversed ≠ .error e := by
  rw [SelectionParts.assemble_eq_ok (traversed_of_resolveSelections h)]
  exact nofun

/-- Whenever a selection cannot be resolved there is a reason for it. -/
theorem fails_of_resolveSelection {selection : Selection}
    (h : s.resolveSelection type traversed selection = .error failure) :
    selection.Fails s type traversed failure := by
  induction selection generalizing s type traversed with
  | field location aliasName name arguments directives selections ih =>
      simp only [resolveSelection, bind_eq_error_iff, mapError_eq_error_iff] at h
      rcases h with hdeclaration | ⟨definition, hdeclaration, ⟨e, hresolve, rfl⟩ |
        ⟨resolved, hresolve, h⟩⟩
      · exact fails_of_declaration hdeclaration
      · have hdeclares := (declaration_eq_ok_iff.mp hdeclaration).1
        exact .contradicted (.type hdeclares hresolve)
      · have hdeclares := (declaration_eq_ok_iff.mp hdeclaration).1
        have hresolved := mapError_eq_ok_iff.mp hresolve
        -- A field without selections is done when its type is resolved.
        by_cases hselections : selections = []
        · simp [hselections, pure_ne_error] at h
        · simp only [List.isEmpty_eq_false_iff.mpr hselections, Bool.false_eq_true, if_false,
            bind_eq_error_iff, mapError_eq_error_iff, pure_ne_error, and_false, exists_false,
            or_false] at h
          rcases h with htype | ⟨nested, htype, hinner | ⟨parts, hparts, e, hassemble, _⟩⟩
          · exact fails_of_selectionType hdeclares hselections (mapError_eq_error_iff.mpr htype)
          · have hnested := Catalog.selectionType_eq_ok_iff.mp (mapError_eq_ok_iff.mp htype)
            obtain ⟨inner, hmem, hfailure⟩ := exists_of_resolveSelections_eq_error hinner
            exact .subfield hdeclares hresolved hnested hmem (ih inner hmem hfailure)
          · exact absurd hassemble (assemble_ne_error hparts)
  | spread location name directives =>
      simp only [resolveSelection, bind_eq_error_iff, pure_ne_error, and_false, exists_false,
        or_false] at h
      exact fails_of_checkSpread h
  | inline location condition directives selections ih =>
      simp only [resolveSelection, bind_eq_error_iff, mapError_eq_error_iff, pure_ne_error,
        and_false, exists_false, or_false] at h
      rcases h with htype | ⟨nested, htype, hselections | ⟨parts, hparts, e, hassemble, _⟩⟩
      · exact fails_of_inlineType htype
      · obtain ⟨inner, hinner, hfailure⟩ := exists_of_resolveSelections_eq_error hselections
        exact .inline (inlineType_eq_ok_iff.mp htype) hinner (ih inner hinner hfailure)
      · exact absurd hassemble (assemble_ne_error hparts)

/-- If selections make up no selection set, then one of them cannot be resolved. -/
theorem exists_fails_of_selectionSet {selections : List Selection}
    (h : s.selectionSet type traversed selections = .error failure) :
    ∃ selection ∈ selections, selection.Fails s type traversed failure := by
  simp only [selectionSet, bind_eq_error_iff, mapError_eq_error_iff, pure_ne_error, and_false,
    exists_false, or_false] at h
  rcases h with hselections | ⟨parts, hparts, e, hassemble, _⟩
  · obtain ⟨selection, hmem, hfailure⟩ := exists_of_resolveSelections_eq_error hselections
    exact ⟨selection, hmem, fails_of_resolveSelection hfailure⟩
  · exact absurd hassemble (assemble_ne_error hparts)

/-! ### Paths -/

/-- The scope of selections below the given fields, in the same definition. -/
def below (s : Scope) (traversed : List SelectedField) : Scope :=
  { s with path := ⟨s.path.root, traversed.map SelectedField.responseKey⟩ }

/-- Where a definition starts the path is empty. -/
theorem below_start (c : Catalog) (fragments : OrderedMap Name Fragment)
    (definition : DefinitionName) :
    (start c fragments definition).below [] = start c fragments definition := rfl

/-- Going into a field puts its response key at the end of the path, as it puts the field at the end
of those that lead to the selections inside it. -/
theorem enter_below (s : Scope) (traversed : List SelectedField) (field : SelectedField) :
    (s.below traversed).enter field.responseKey = s.below (traversed ++ [field]) := by
  simp [below, SelectionPath.push]

end Scope

/-- The path that is reported has the response keys of the fields that lead to the selection that
breaks a rule. -/
theorem Selection.Fails.exists_path_eq {s : Scope} {type : CompositeType}
    {traversed : List SelectedField} {selection : Selection} {failure : Failure}
    (h : selection.Fails (s.below traversed) type traversed failure) {finding : Finding}
    (hfinding : failure = .validation finding) :
    ∃ inner, finding.path =
      some ⟨s.path.root, (traversed ++ inner).map SelectedField.responseKey⟩ := by
  -- The scope changes with the fields gone through, so that it is kept in an equation.
  generalize hscope : s.below traversed = here at h
  induction h with
  | broken _ =>
      subst hscope
      obtain rfl := Failure.validation.inj hfinding
      exact ⟨[], by rw [List.append_nil]; rfl⟩
  | contradicted _ => cases hfinding
  | subfield _ _ _ _ _ ih =>
      subst hscope
      obtain ⟨inner, hpath⟩ := ih hfinding (Scope.enter_below s _ _).symm
      exact ⟨_ :: inner, by rw [hpath, List.append_assoc, List.singleton_append]⟩
  | inline _ _ _ ih => exact ih hfinding hscope

end QueryCompiler

import QueryCompiler.Proofs.Compiled
import QueryCompiler.Proofs.SelectionSet.Failure
import QueryCompiler.Proofs.SelectionSet.Typing

/-!
# Where selections stand

Selections are resolved in the same way wherever they stand. The fields that lead to them are copied
into every selection set and reported with every violation, and they are compared when inline
fragments are merged, but nothing depends on them: put further fields in front, and the result is
the same with these fields in front. A fragment can therefore be compiled on its own, and gives what
an inline fragment with its selections gives where it is spread.
-/

namespace QueryCompiler

open Outcome

/-! ### Selection sets under further fields -/

namespace SelectionSet

mutual

/-- A selection set as it is under further fields. -/
def under (fields : List SelectedField) : SelectionSet → SelectionSet
  | ⟨typeName, kind, traversed, scalars, spreads, objects, inlines⟩ =>
      ⟨typeName, kind, fields ++ traversed, scalars, spreads, underObjects fields objects,
        underInlines fields inlines⟩

/-- Fields with sub-selections as they are under further fields. -/
def underObjects (fields : List SelectedField) : List ObjectField → List ObjectField
  | [] => []
  | ⟨field, selectionSet, isAmbiguous⟩ :: rest =>
      ⟨field, under fields selectionSet, isAmbiguous⟩ :: underObjects fields rest

/-- Inline fragments as they are under further fields. -/
def underInlines (fields : List SelectedField) : List InlineFragment → List InlineFragment
  | [] => []
  | ⟨condition, directives, selectionSet⟩ :: rest =>
      ⟨condition, directives, under fields selectionSet⟩ :: underInlines fields rest

end

end SelectionSet

/-- A field with sub-selections as it is under further fields. -/
def ObjectField.under (fields : List SelectedField) (o : ObjectField) : ObjectField :=
  { o with selectionSet := o.selectionSet.under fields }

/-- An inline fragment as it is under further fields. -/
def InlineFragment.under (fields : List SelectedField) (i : InlineFragment) : InlineFragment :=
  { i with selectionSet := i.selectionSet.under fields }

variable (fields : List SelectedField)

namespace SelectionSet

private theorem underObjects_eq_map (objects : List ObjectField) :
    underObjects fields objects = objects.map (ObjectField.under fields) := by
  induction objects with
  | nil => rfl
  | cons first rest ih =>
      cases first
      rw [underObjects, ih, List.map_cons, ObjectField.under]

private theorem underInlines_eq_map (inlines : List InlineFragment) :
    underInlines fields inlines = inlines.map (InlineFragment.under fields) := by
  induction inlines with
  | nil => rfl
  | cons first rest ih =>
      cases first
      rw [underInlines, ih, List.map_cons, InlineFragment.under]

/-- A selection set under further fields: every member is, and nothing else changes. -/
theorem under_eq (s : SelectionSet) :
    s.under fields =
      { s with
        traversed := fields ++ s.traversed
        objects := s.objects.map (ObjectField.under fields)
        inlines := s.inlines.map (InlineFragment.under fields) } := by
  cases s
  rw [under, underObjects_eq_map, underInlines_eq_map]

/-- Further fields do not change the type. -/
@[simp] theorem typeName_under (s : SelectionSet) : (s.under fields).typeName = s.typeName := by
  rw [under_eq]

/-- Selection sets can be moved before they are merged or after it. -/
theorem under_followedBy (a : SelectionSet) (others : List SelectionSet) :
    (a.followedBy others).under fields =
      (a.under fields).followedBy (others.map (SelectionSet.under fields)) := by
  simp only [followedBy, under_eq, List.map_append, List.map_flatMap, List.flatMap_map]

end SelectionSet

namespace InlineFragment

@[simp] private theorem mergeKey_under (i : InlineFragment) :
    (i.under fields).mergeKey = i.mergeKey := by
  simp [mergeKey, under]

/-- Inline fragments put together under further fields. -/
theorem under_followedBy (first : InlineFragment) (others : List InlineFragment) :
    (first.followedBy others).under fields =
      (first.under fields).followedBy (others.map (InlineFragment.under fields)) := by
  simp only [followedBy, under, SelectionSet.under_followedBy, List.map_map, Function.comp_def]

private theorem groups_map_under (inlines : List InlineFragment) :
    groups (inlines.map (InlineFragment.under fields)) =
      (groups inlines).map (List.map (InlineFragment.under fields)) := by
  simp only [groups_eq, List.map_map, List.filter_map, Function.comp_def, mergeKey_under]

/-- The united inline fragments under further fields. -/
theorem unitedAll_map_under (inlines : List InlineFragment) :
    unitedAll (inlines.map (InlineFragment.under fields)) =
      (unitedAll inlines).map (InlineFragment.under fields) := by
  rw [unitedAll, unitedAll, groups_map_under, List.flatMap_map, List.map_flatMap]
  apply List.flatMap_congr
  intro group _
  cases group with
  | nil => rfl
  | cons first others => simp only [List.map_cons, united, under_followedBy, List.map_nil]

end InlineFragment

/-- The marks under further fields. -/
theorem ObjectField.flagAmbiguous_map_under (objects : List ObjectField) :
    flagAmbiguous (objects.map (ObjectField.under fields)) =
      (flagAmbiguous objects).map (ObjectField.under fields) := by
  simp [flagAmbiguous, isShared, under, List.countP_map, Function.comp_def]

namespace SelectionParts

/-- Resolved selections as they are under further fields. -/
def under (parts : SelectionParts) : SelectionParts :=
  { parts with
    objects := parts.objects.map (ObjectField.under fields)
    inlines := parts.inlines.map (InlineFragment.under fields) }

private theorem under_append (a b : SelectionParts) :
    (a.append b).under fields = (a.under fields).append (b.under fields) := by
  simp only [append, under, List.map_append]

/-- The selection set of parts under further fields. -/
theorem united_under (parts : SelectionParts) (type : CompositeType)
    (traversed : List SelectedField) :
    (parts.under fields).united type (fields ++ traversed) =
      (parts.united type traversed).under fields := by
  have hscalars : (parts.under fields).scalarsWithTypename = parts.scalarsWithTypename := rfl
  rw [SelectionSet.under_eq, united, united, hscalars]
  simp only [under, ObjectField.flagAmbiguous_map_under, InlineFragment.unitedAll_map_under]

end SelectionParts

/-! ### Outcomes at another place -/

/-- A path that starts at another place. -/
def SelectionPath.under (place path : SelectionPath) : SelectionPath :=
  ⟨place.root, place.fields ++ path.fields⟩

/-- A failure as it is found at another place. -/
def Failure.under (place : SelectionPath) : Failure → Failure
  | validation finding => validation { finding with path := finding.path.map place.under }
  | failure => failure

/-- The outcome of a step at another place. -/
def Outcome.under {α β : Type} (place : SelectionPath) (f : α → β) :
    Except Failure α → Except Failure β
  | .ok a => .ok (f a)
  | .error failure => .error (failure.under place)

section Outcomes

variable {α β γ δ : Type} (place : SelectionPath)

/-- Steps one after the other can be moved one by one. -/
theorem Outcome.bind_under {f : α → β} {g : γ → δ} {x : Except Failure α}
    {next : α → Except Failure γ} {next' : β → Except Failure δ}
    (h : ∀ a, x = .ok a → next' (f a) = Outcome.under place g (next a)) :
    (Outcome.under place f x >>= next') =
      Outcome.under place g (x >>= next) := by
  cases x with
  | ok a => exact h a rfl
  | error failure => rfl

/-- Inconsistencies of a schema have no place that could be moved. -/
theorem Outcome.bind_inconsistency_under {g : γ → δ} {x : Except Inconsistency α}
    {next : α → Except Failure γ} {next' : α → Except Failure δ}
    (h : ∀ a, x = .ok a → next' a = Outcome.under place g (next a)) :
    (x.mapError .inconsistency >>= next') =
      Outcome.under place g (x.mapError .inconsistency >>= next) := by
  cases x with
  | ok a => exact h a rfl
  | error e => rfl

end Outcomes

/-- Where there is no type to select on, a rule is broken at a place that is still to be supplied,
or the type is not there. -/
theorem Catalog.selectionType_cases (c : Catalog) (field : FieldDefinition) :
    (∃ type, c.selectionType field = .ok type) ∨
      (∃ broken, c.selectionType field = .error (.validation ⟨none, none, broken⟩)) ∨
        ∃ e, c.selectionType field = .error (.inconsistency e) := by
  cases hcomposite : c.composite? field.type.innermost with
  | some composite => simp [selectionType, hcomposite]
  | none =>
      cases hscalar : BuiltInScalar.ofName? field.type.innermost with
      | some scalar => simp [selectionType, hcomposite, hscalar]
      | none =>
          cases hget : c.get? field.type.innermost with
          | some leaf => simp [selectionType, hcomposite, hscalar, hget]
          | none => simp [selectionType, hcomposite, hscalar, hget]

/-- The same selections at another place. -/
def Scope.under (s : Scope) (place : SelectionPath) : Scope :=
  { s with path := place.under s.path }

namespace Scope

variable (s : Scope) (place : SelectionPath) (type : CompositeType)
  (traversed : List SelectedField) (location : Option Location)

@[simp] private theorem catalog_under : (s.under place).catalog = s.catalog := rfl

@[simp] private theorem fragments_under : (s.under place).fragments = s.fragments := rfl

@[simp] private theorem enum?_under (definition : FieldDefinition) :
    (s.under place).enum? definition = s.enum? definition := rfl

private theorem enter_under (key : Name) :
    (s.under place).enter key = (s.enter key).under place := by
  simp [under, SelectionPath.under, SelectionPath.push]

/-- A violation is reported at the place further below. -/
theorem violation_under {α β : Type} (f : α → β) (broken : Violation) :
    (s.under place).violation location broken =
      Outcome.under place f (s.violation location broken) := rfl

/-- A field is declared alike at another place. -/
theorem declaration_under (name : Name) (hasSelections : Bool) :
    (s.under place).declaration type location name hasSelections =
      Outcome.under place id (s.declaration type location name hasSelections) := by
  unfold declaration
  cases type.field? name with
  | none => exact s.violation_under ..
  | some found =>
      simp only [enum?_under]
      cases s.enum? found with
      | none => rfl
      | some entry =>
          cases hasSelections with
          | true => exact s.violation_under ..
          | false => rfl

/-- A spread is checked alike at another place. -/
theorem checkSpread_under (name : Name) :
    (s.under place).checkSpread type location name =
      Outcome.under place id (s.checkSpread type location name) := by
  unfold checkSpread
  rw [fragments_under, catalog_under]
  cases s.fragments.get? name with
  | none => exact s.violation_under ..
  | some fragment =>
      cases hon : s.catalog.composite? fragment.condition with
      | none =>
          simp only [hon]
          exact s.violation_under ..
      | some on =>
          cases hpossible : type.isSpreadPossible fragment.condition s.catalog with
          | true =>
              simp only [hon, hpossible, if_true]
              rfl
          | false =>
              simp only [hon, hpossible, Bool.false_eq_true, if_false]
              exact s.violation_under ..

/-- A type condition is checked alike at another place. -/
theorem inlineType_under (condition : Option Name) :
    (s.under place).inlineType type location condition =
      Outcome.under place id (s.inlineType type location condition) := by
  cases condition with
  | none => rfl
  | some condition =>
      rw [inlineType, inlineType, catalog_under]
      cases s.catalog.composite? condition with
      | none => exact s.violation_under ..
      | some on =>
          cases type.isSpreadPossible condition s.catalog with
          | true => rfl
          | false => exact s.violation_under ..

/-- The type of selections is found alike at another place. -/
theorem selectionType_under (field : FieldDefinition) :
    (s.catalog.selectionType field).mapError (.locate location (s.under place).path) =
      Outcome.under place id
        ((s.catalog.selectionType field).mapError (.locate location s.path)) := by
  rcases s.catalog.selectionType_cases field with ⟨nested, h⟩ | ⟨broken, h⟩ | ⟨e, h⟩
  · rw [h]
    rfl
  · rw [h]
    rfl
  · rw [h]
    rfl

/-! ### Selections under further fields -/

/-- A selection set is united from the parts of its selections. -/
theorem selectionSet_eq (selections : List Selection) :
    s.selectionSet type traversed selections =
      (s.resolveSelections type traversed selections >>= fun parts =>
        .ok (parts.united type traversed, parts.enums)) := by
  cases hparts : s.resolveSelections type traversed selections with
  | error failure =>
      rw [selectionSet, hparts]
      rfl
  | ok parts => exact selectionSet_eq_ok_iff.mpr ⟨parts, hparts, rfl, rfl⟩

/-- A field without selections, step by step. -/
theorem resolveSelection_leaf_eq (aliasName : Option Name) (name : Name)
    (arguments : List Argument) (directives : List Directive) :
    s.resolveSelection type traversed
        (.field location aliasName name arguments directives []) = do
      let definition ← s.declaration type location name false
      let resolved ← (s.catalog.resolve definition.type).mapError .inconsistency
      return ⟨[⟨location, aliasName, name, definition, resolved, arguments, directives⟩], [], [],
        [], (s.enum? definition).toList⟩ := by
  simp [resolveSelection]

/-- A field with selections, step by step. -/
theorem resolveSelection_object_eq (aliasName : Option Name) (name : Name)
    (arguments : List Argument) (directives : List Directive) (selection : Selection)
    (rest : List Selection) :
    s.resolveSelection type traversed
        (.field location aliasName name arguments directives (selection :: rest)) = do
      let definition ← s.declaration type location name true
      let resolved ← (s.catalog.resolve definition.type).mapError .inconsistency
      let nested ← (s.catalog.selectionType definition).mapError (.locate location s.path)
      let (set, enums) ← (s.enter (aliasName.getD name)).selectionSet nested
        (traversed ++ [⟨location, aliasName, name, definition, resolved, arguments, directives⟩])
        (selection :: rest)
      return ⟨[], [], [⟨⟨location, aliasName, name, definition, resolved, arguments, directives⟩,
        set, false⟩], [], (s.enum? definition).toList ++ enums⟩ := by
  simp [resolveSelection, selectionSet, SelectedField.responseKey]

/-- An inline fragment, step by step. -/
theorem resolveSelection_inline_eq (condition : Option Name) (directives : List Directive)
    (selections : List Selection) :
    s.resolveSelection type traversed (.inline location condition directives selections) = do
      let nested ← s.inlineType type location condition
      let (set, enums) ← s.selectionSet nested traversed selections
      return ⟨[], [], [], [⟨nested.name, directives, set⟩], enums⟩ := by
  simp [resolveSelection, selectionSet]

section Selections

variable {selections : List Selection}
  (h : ∀ selection ∈ selections, ∀ s type traversed,
    (under s place).resolveSelection type (fields ++ traversed) selection =
      Outcome.under place (SelectionParts.under fields)
        (s.resolveSelection type traversed selection))

include h

/-- Selections are resolved alike at another place if each of them is. -/
theorem resolveSelections_under_of_forall :
    (s.under place).resolveSelections type (fields ++ traversed) selections =
      Outcome.under place (SelectionParts.under fields)
        (s.resolveSelections type traversed selections) := by
  induction selections with
  | nil => rfl
  | cons selection rest ih =>
      rw [List.forall_mem_cons] at h
      rw [resolveSelections, resolveSelections, h.1, ih h.2]
      apply Outcome.bind_under
      intro first _
      apply Outcome.bind_under
      intro others _
      rw [← SelectionParts.under_append]
      rfl

/-- Selections that are resolved in the same way under further fields make up the same selection
set. -/
theorem selectionSet_under_of_forall :
    (s.under place).selectionSet type (fields ++ traversed) selections =
      Outcome.under place (fun result => (result.1.under fields, result.2))
        (s.selectionSet type traversed selections) := by
  rw [selectionSet_eq, selectionSet_eq,
    resolveSelections_under_of_forall fields s place type traversed h]
  apply Outcome.bind_under
  intro parts _
  rw [SelectionParts.united_under]
  rfl

end Selections

/-- A selection is resolved in the same way under further fields. -/
theorem resolveSelection_under (selection : Selection) :
    (s.under place).resolveSelection type (fields ++ traversed) selection =
      Outcome.under place (SelectionParts.under fields)
        (s.resolveSelection type traversed selection) := by
  induction selection generalizing s type traversed with
  | field location aliasName name arguments directives selections ih =>
      cases selections with
      | nil =>
          rw [resolveSelection_leaf_eq, resolveSelection_leaf_eq, declaration_under, catalog_under]
          apply Outcome.bind_under
          intro declared _
          apply Outcome.bind_inconsistency_under
          intro resolved _
          rfl
      | cons selection rest =>
          rw [resolveSelection_object_eq, resolveSelection_object_eq, declaration_under,
            catalog_under]
          apply Outcome.bind_under
          intro declared _
          apply Outcome.bind_inconsistency_under
          intro resolved _
          rw [selectionType_under]
          apply Outcome.bind_under
          intro nested _
          -- The field comes last of those that lead to its sub-selections, the further ones first.
          simp only [List.append_assoc, enter_under,
            selectionSet_under_of_forall fields (s.enter _) place _ _ ih]
          apply Outcome.bind_under
          intro result _
          rfl
  | spread location name directives =>
      rw [resolveSelection, resolveSelection, checkSpread_under]
      apply Outcome.bind_under
      intro _ _
      rfl
  | inline location condition directives selections ih =>
      rw [resolveSelection_inline_eq, resolveSelection_inline_eq, inlineType_under]
      apply Outcome.bind_under
      intro nested _
      rw [id, selectionSet_under_of_forall fields s place nested traversed ih]
      apply Outcome.bind_under
      intro result _
      rfl

/-- Selections make up the same selection set under further fields and at another place. -/
theorem selectionSet_under (selections : List Selection) :
    (s.under place).selectionSet type (fields ++ traversed) selections =
      Outcome.under place (fun result => (result.1.under fields, result.2))
        (s.selectionSet type traversed selections) :=
  selectionSet_under_of_forall fields s place type traversed fun selection _ s type traversed =>
    resolveSelection_under fields s place type traversed selection

/-- Selections make up the selection set that they make up at the start of a definition, moved. -/
theorem selectionSet_below (selections : List Selection) :
    (s.below fields).selectionSet type fields selections =
      Outcome.under (s.below fields).path (fun result => (result.1.under fields, result.2))
        ((s.below []).selectionSet type [] selections) := by
  have hplace : (s.below []).under (s.below fields).path = s.below fields := by
    simp [below, under, SelectionPath.under]
  have hmoved := selectionSet_under fields (s.below []) (s.below fields).path type [] selections
  rwa [List.append_nil, hplace] at hmoved

end Scope

/-! ### Two places -/

/-- Whatever fails among selections is an inconsistency of the schema, or is reported in the
definition that the selections belong to. -/
theorem Selection.Fails.inconsistency_or_placed {s : Scope} {type : CompositeType}
    {traversed : List SelectedField} {selection : Selection} {failure : Failure}
    (h : selection.Fails s type traversed failure) :
    (∃ e, failure = .inconsistency e) ∨
      ∃ location path broken,
        failure = .validation ⟨location, some ⟨s.path.root, path⟩, broken⟩ := by
  induction h with
  | broken _ => exact Or.inr ⟨_, _, _, rfl⟩
  | contradicted _ => exact Or.inl ⟨_, rfl⟩
  | subfield _ _ _ _ _ ih => exact ih
  | inline _ _ _ ih => exact ih

/-- An inline fragment with what is written in a fragment. -/
def Fragment.inlined (fragment : Fragment) (place : Option Location) : Selection :=
  .inline place (some fragment.condition) fragment.directives fragment.selections

namespace Scope

variable {s : Scope} {type : CompositeType} {traversed : List SelectedField}
  {location : Option Location}

/-- If the spread of a fragment is accepted, then so is an inline fragment with what is written in
the fragment. It has the selection set that the fragment is compiled to. -/
theorem resolveSelection_inline_of_spread {name : Name} {directives : List Directive}
    {fragment : Fragment} {compiled : CompiledFragment} {parts : SelectionParts}
    (hfragment : s.fragments.get? name = some fragment)
    (hcompile : fragment.compile s.catalog s.fragments = .ok compiled)
    (hspread : s.resolveSelection type traversed (.spread location name directives) = .ok parts)
    (place : Option Location) :
    ∃ enums, compiled.dependencies = .ofEnums enums ∧
      s.resolveSelection type traversed (fragment.inlined place) =
        .ok ⟨[], [], [], [⟨compiled.selectionSet.typeName, fragment.directives,
          compiled.selectionSet.under traversed⟩], enums⟩ := by
  obtain ⟨⟨found, hfound, _, hpossible⟩, _⟩ := resolveSelection_spread_eq_ok_iff.mp hspread
  obtain rfl : fragment = found := Option.some.inj (hfragment.symm.trans hfound)
  obtain ⟨on, set, enums, hon, hset, rfl⟩ := Fragment.compile_eq_ok_iff.mp hcompile
  have hmoved : s.selectionSet on traversed fragment.selections =
      .ok (set.under traversed, enums) := by
    have hplace : (start s.catalog s.fragments (.fragment fragment.name)).under s.path = s := by
      simp [under, SelectionPath.under]
    have hunder := selectionSet_under traversed
      (start s.catalog s.fragments (.fragment fragment.name)) s.path on [] fragment.selections
    rwa [List.append_nil, hplace, hset] at hunder
  refine ⟨enums, rfl, resolveSelection_inline_eq_ok_iff.mpr
    ⟨on, set.under traversed, enums, .condition hon hpossible, hmoved, ?_⟩⟩
  rw [typeName_of_selectionSet hset]

/-- Selections on a type make up the same selection set under any fields, but for these fields in
front of the path to it and to every selection set inside it, and the same enums are selected. If
they make up none, the same is reported at the same location, under these fields. Where a fragment
that can be compiled is spread, an inline fragment with what is written in it is accepted as well,
and its selection set is that of the compiled fragment under the fields that lead there. -/
theorem selectionSet_at_two_places (s : Scope) (type : CompositeType) (selections : List Selection)
    (p q : List SelectedField) :
    ((∃ (set : SelectionSet) (enums : List (Name × EnumType)),
        (s.below p).selectionSet type p selections = .ok (set.under p, enums) ∧
        (s.below q).selectionSet type q selections = .ok (set.under q, enums)) ∨
      (∃ e, (s.below p).selectionSet type p selections = .error (.inconsistency e) ∧
        (s.below q).selectionSet type q selections = .error (.inconsistency e)) ∨
      ∃ location path broken,
        (s.below p).selectionSet type p selections = .error (.validation ⟨location,
          some ⟨s.path.root, p.map SelectedField.responseKey ++ path⟩, broken⟩) ∧
        (s.below q).selectionSet type q selections = .error (.validation ⟨location,
          some ⟨s.path.root, q.map SelectedField.responseKey ++ path⟩, broken⟩)) ∧
    ∀ before location name directives after fragment compiled,
      selections = before ++ .spread location name directives :: after →
      s.fragments.get? name = some fragment →
      fragment.compile s.catalog s.fragments = .ok compiled →
      (∃ set enums, (s.below p).selectionSet type p selections = .ok (set, enums)) →
      ∀ place,
        (∃ set enums, (s.below p).selectionSet type p (before ++ fragment.inlined place :: after) =
          .ok (set, enums)) ∧
        ∃ enums, compiled.dependencies = .ofEnums enums ∧
          (s.below p).resolveSelection type p (fragment.inlined place) =
            .ok ⟨[], [], [], [⟨compiled.selectionSet.typeName, fragment.directives,
              compiled.selectionSet.under p⟩], enums⟩ := by
  constructor
  · -- Both places are compared with the start of the definition.
    rw [selectionSet_below p, selectionSet_below q]
    cases hstart : (s.below []).selectionSet type [] selections with
    | ok result => exact Or.inl ⟨result.1, result.2, rfl, rfl⟩
    | error failure =>
        obtain ⟨selection, _, hfails⟩ := exists_fails_of_selectionSet hstart
        rcases hfails.inconsistency_or_placed with ⟨e, rfl⟩ | ⟨location, path, broken, rfl⟩
        · exact Or.inr (Or.inl ⟨e, rfl, rfl⟩)
        · exact Or.inr (Or.inr ⟨location, path, broken, rfl, rfl⟩)
  · rintro before location name directives after fragment compiled rfl hfragment hcompile haccepted
      place
    -- Selections are accepted one by one, so that only the spread is exchanged.
    rw [exists_selectionSet_eq_ok_iff, List.forall_mem_append, List.forall_mem_cons] at haccepted
    obtain ⟨hbefore, ⟨parts, hspread⟩, hafter⟩ := haccepted
    obtain ⟨enums, henums, hinline⟩ :=
      resolveSelection_inline_of_spread (s := s.below p) hfragment hcompile hspread place
    refine ⟨?_, enums, henums, hinline⟩
    rw [exists_selectionSet_eq_ok_iff, List.forall_mem_append, List.forall_mem_cons]
    exact ⟨hbefore, ⟨_, hinline⟩, hafter⟩

/-- The fragment is spread on a person, under the field that leads there. An inline fragment in its
place is accepted, and asks for what the fragment asks for. -/
theorem selectionSet_at_two_places_friends :
    let fragment : Fragment := ⟨none, "Parts", "Node", [], [.field none none "id" [] [] []]⟩
    let node : SelectedField := ⟨none, none, "node", ⟨"node", none, [], .named "Node", false, none⟩,
      .optional (.value (.named "Node")), [], []⟩
    ∃ c person compiled, Catalog.ofSchema .standard .people = .ok c ∧
      c.composite? "Person" = some person ∧
      Registry.friends.fragments.get? "Parts" = some fragment ∧
      fragment.compile c Registry.friends.fragments = .ok compiled ∧
      compiled.selectionSet.scalars.map SelectedField.name = ["id", "__typename"] ∧
      ∃ s, s = (start c Registry.friends.fragments (.operation .query "Friends")).below [node] ∧
        (∃ set enums, s.selectionSet person [node]
          [.field none none "id" [] [] [], .spread none "Parts" []] = .ok (set, enums)) ∧
        (∃ set enums, s.selectionSet person [node]
          [.field none none "id" [] [] [],
            .inline none (some "Node") [] [.field none none "id" [] [] []]] = .ok (set, enums)) ∧
        ∃ enums, s.resolveSelection person [node]
            (.inline none (some "Node") [] [.field none none "id" [] [] []]) =
          .ok ⟨[], [], [], [⟨compiled.selectionSet.typeName, [],
            compiled.selectionSet.under [node]⟩], enums⟩ := by
  intro fragment node
  have hcomputed : ((Catalog.ofSchema .standard .people).toOption.bind fun c =>
      (c.composite? "Person").bind fun person =>
        (fragment.compile c Registry.friends.fragments).toOption.bind fun compiled =>
          (((start c Registry.friends.fragments (.operation .query "Friends")).below
              [node]).selectionSet person [node]
              [.field none none "id" [] [] [], .spread none "Parts" []]).toOption.map fun _ =>
            compiled.selectionSet.scalars.map SelectedField.name) =
      some ["id", "__typename"] := by
    decide +kernel
  simp only [Option.bind_eq_some_iff, Option.map_eq_some_iff, toOption_eq_some_iff] at hcomputed
  obtain ⟨c, hc, person, hperson, compiled, hcompiled, ⟨set, enums⟩, hset, hscalars⟩ := hcomputed
  have hfragment : Registry.friends.fragments.get? "Parts" = some fragment := by decide +kernel
  obtain ⟨haccepted, found, _, hinline⟩ := (selectionSet_at_two_places _ person _ [node] []).2
    [.field none none "id" [] [] []] none "Parts" [] [] fragment compiled rfl hfragment hcompiled
    ⟨set, enums, hset⟩ none
  exact ⟨c, person, compiled, hc, hperson, hfragment, hcompiled, hscalars, _, rfl,
    ⟨set, enums, hset⟩, haccepted, found, hinline⟩

end Scope

end QueryCompiler

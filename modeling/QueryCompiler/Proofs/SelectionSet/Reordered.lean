import Mathlib.Data.List.Basic
import QueryCompiler.Proofs.SelectionSet.Origin

/-!
# Selections in another order

Selections make up a selection set in every order or in none, and their inline fragments are merged
under the same keys. What is merged under a key asks for the same fields without sub-selections,
except for `__typename`: only the first of the inline fragments keeps its `__typename` fields. So
the order decides under which aliases `__typename` is asked for, unless all inline fragments of a
key agree on them.
-/

namespace QueryCompiler

open Outcome

/-! ### Response keys -/

namespace SelectedField

/-- The response keys of the `__typename` fields of a list, or of all its other fields. -/
def keys (typename : Bool) (fields : List SelectedField) : List Name :=
  (fields.filter fun field => field.isTypename = typename).map responseKey

private theorem keys_append (typename : Bool) (fields others : List SelectedField) :
    keys typename (fields ++ others) = keys typename fields ++ keys typename others := by
  rw [keys, List.filter_append, List.map_append, keys, keys]

private theorem keys_flatMap {α : Type} (typename : Bool) (fields : α → List SelectedField)
    (members : List α) :
    keys typename (members.flatMap fields) = members.flatMap fun a => keys typename (fields a) := by
  simp only [keys, List.filter_flatMap, List.map_flatMap]

private theorem keys_eq_nil_iff {typename : Bool} {fields : List SelectedField} :
    keys typename fields = [] ↔ ∀ field ∈ fields, ¬ field.isTypename = typename := by
  simp [keys, List.filter_eq_nil_iff]

/-- Without their `__typename` fields, fields have none of those and all of the others. -/
theorem keys_filter_not_isTypename (typename : Bool) (fields : List SelectedField) :
    keys typename (fields.filter fun field => !field.isTypename) =
      if typename then [] else keys false fields := by
  cases typename <;> simp [keys, List.filter_filter]

end SelectedField

namespace SelectionSet

/-- The response keys of the fields without sub-selections. -/
def scalarKeys (set : SelectionSet) : List Name := set.scalars.map SelectedField.responseKey

/-- The response keys of the fields without sub-selections other than `__typename`. -/
def plainKeys (set : SelectionSet) : List Name := SelectedField.keys false set.scalars

/-- The response keys of the `__typename` fields. -/
def typenameKeys (set : SelectionSet) : List Name := SelectedField.keys true set.scalars

/-- The response keys of the leaves are those of `__typename` and the others. -/
theorem mem_scalarKeys_iff {set : SelectionSet} {name : Name} :
    name ∈ set.scalarKeys ↔ name ∈ set.typenameKeys ∨ name ∈ set.plainKeys := by
  simp only [scalarKeys, typenameKeys, plainKeys, SelectedField.keys, List.mem_map,
    List.mem_filter, decide_eq_true_eq]
  constructor
  · rintro ⟨field, hfield, hname⟩
    cases htypename : field.isTypename with
    | true => exact Or.inl ⟨field, ⟨hfield, htypename⟩, hname⟩
    | false => exact Or.inr ⟨field, ⟨hfield, htypename⟩, hname⟩
  · rintro (⟨field, ⟨hfield, _⟩, hname⟩ | ⟨field, ⟨hfield, _⟩, hname⟩)
    · exact ⟨field, hfield, hname⟩
    · exact ⟨field, hfield, hname⟩

/-- Selection sets put together have the response keys of all of them. -/
theorem plainKeys_followedBy (a : SelectionSet) (others : List SelectionSet) :
    (a.followedBy others).plainKeys = (a :: others).flatMap plainKeys := by
  simp only [plainKeys, followedBy, SelectedField.keys_append, SelectedField.keys_flatMap,
    SelectedField.keys_filter_not_isTypename, List.flatMap_cons, Bool.false_eq_true, if_false]
  rfl

/-- Only the first of several selection sets brings its `__typename` fields along. -/
theorem typenameKeys_followedBy (a : SelectionSet) (others : List SelectionSet) :
    (a.followedBy others).typenameKeys = a.typenameKeys := by
  have hothers : (others.flatMap fun _ => ([] : List Name)) = [] :=
    List.flatMap_eq_nil_iff.mpr fun _ _ => rfl
  simp only [typenameKeys, followedBy, SelectedField.keys_append, SelectedField.keys_flatMap,
    SelectedField.keys_filter_not_isTypename, if_true, hothers, List.append_nil]

end SelectionSet

/-! ### Response keys as they are written -/

/-- The response key of a field without sub-selections, if it is a `__typename` field or if it is
none, as asked. -/
def Selection.leafKey? (typename : Bool) : Selection → Option Name
  | field _ aliasName name _ _ [] =>
      if decide (name = typenameField) = typename then some (aliasName.getD name) else none
  | _ => none

namespace Written

/-- The response keys of the fields without sub-selections other than `__typename`. -/
def plainKeys (w : Written) : List Name := w.selections.filterMap (Selection.leafKey? false)

/-- The response keys under which `__typename` is asked for. It is added under its own name where
nothing asks for it. -/
def typenameKeys (w : Written) : List Name :=
  match w.selections.filterMap (Selection.leafKey? true) with
  | [] => [typenameField]
  | key :: rest => key :: rest

/-- `__typename` is under at least one response key. -/
theorem typenameKeys_ne_nil (w : Written) : w.typenameKeys ≠ [] := by
  unfold typenameKeys
  split <;> nofun

/-- The inline fragments of one key. -/
def group (w : Written) (c : Catalog) (key : Name × String) : List WrittenInline :=
  (w.inlines c).filter fun a => a.key = key

private theorem mem_group_iff {w : Written} {c : Catalog} {key : Name × String}
    {a : WrittenInline} :
    a ∈ w.group c key ↔ a ∈ w.inlines c ∧ a.key = key := by
  rw [group, List.mem_filter, decide_eq_true_eq]

/-- The response keys of the fields without sub-selections other than `__typename` in all inline
fragments of one key. -/
def plainKeysOf (w : Written) (c : Catalog) (key : Name × String) : List Name :=
  (w.group c key).flatMap fun a => a.body.plainKeys

/-- The response keys under which an inline fragment asks for `__typename` are also asked for by
every other inline fragment of its key, or else belong to another field of some of them. -/
def TypenamesAlike (w : Written) (c : Catalog) : Prop :=
  ∀ a ∈ w.inlines c, ∀ b ∈ w.inlines c, a.key = b.key → ∀ name ∈ a.body.typenameKeys,
    name ∈ b.body.typenameKeys ∨ name ∈ w.plainKeysOf c a.key

/-- Inline fragments that give `__typename` no alias are alike. -/
theorem typenamesAlike_of_forall_eq {w : Written} {c : Catalog}
    (h : ∀ a ∈ w.inlines c, ∀ name ∈ a.body.typenameKeys, name = typenameField) :
    w.TypenamesAlike c := by
  intro a ha b hb _ name hname
  obtain ⟨other, hother⟩ := List.exists_mem_of_ne_nil _ b.body.typenameKeys_ne_nil
  left
  rw [h a ha name hname, ← h b hb other hother]
  exact hother

end Written

/-! ### Resolved selections -/

namespace Scope

variable {s : Scope} {type : CompositeType} {traversed : List SelectedField}
  {parts : SelectionParts}

/-- The response key of a leaf is read off the document. -/
theorem keys_of_resolveSelection {selection : Selection}
    (h : s.resolveSelection type traversed selection = .ok parts) (typename : Bool) :
    SelectedField.keys typename parts.scalars = (selection.leafKey? typename).toList := by
  cases selection with
  | field location aliasName name arguments directives selections =>
      cases selections with
      | nil =>
          obtain ⟨definition, resolved, _, _, rfl⟩ := resolveSelection_leaf_eq_ok_iff.mp h
          by_cases hname : decide (name = typenameField) = typename
          · simp [SelectedField.keys, Selection.leafKey?, SelectedField.isTypename,
              SelectedField.responseKey, hname]
          · simp [SelectedField.keys, Selection.leafKey?, SelectedField.isTypename, hname]
      | cons first rest =>
          obtain ⟨_, _, _, _, _, _, _, _, _, rfl⟩ := resolveSelection_object_eq_ok_iff.mp h
          rfl
  | spread location name directives =>
      obtain ⟨_, rfl⟩ := resolveSelection_spread_eq_ok_iff.mp h
      rfl
  | inline location condition directives selections =>
      obtain ⟨_, _, _, _, _, rfl⟩ := resolveSelection_inline_eq_ok_iff.mp h
      rfl

/-- Fields without sub-selections keep their response keys, in order. -/
theorem keys_of_resolveSelections {selections : List Selection}
    (h : s.resolveSelections type traversed selections = .ok parts) (typename : Bool) :
    SelectedField.keys typename parts.scalars =
      selections.filterMap (Selection.leafKey? typename) := by
  induction selections generalizing parts with
  | nil =>
      obtain rfl := resolveSelections_nil_eq_ok_iff.mp h
      rfl
  | cons selection rest ih =>
      obtain ⟨first, others, hfirst, hothers, rfl⟩ := resolveSelections_cons_eq_ok_iff.mp h
      rw [SelectionParts.append, SelectedField.keys_append, keys_of_resolveSelection hfirst,
        ih hothers]
      cases hkey : selection.leafKey? typename with
      | none => rw [List.filterMap_cons_none hkey, Option.toList_none, List.nil_append]
      | some key => rw [List.filterMap_cons_some hkey, Option.toList_some, List.singleton_append]

end Scope

namespace Written.Makes

variable {w : Written} {s : Scope} {traversed : List SelectedField} {set : SelectionSet}

/-- The response keys of the leaves but `__typename` are read off the document. -/
theorem plainKeys_eq (h : w.Makes s traversed set) : set.plainKeys = w.plainKeys := by
  obtain ⟨enums, hset⟩ := h
  obtain ⟨parts, hparts, rfl, _⟩ := Scope.selectionSet_eq_ok_iff.mp hset
  rw [Written.plainKeys, ← Scope.keys_of_resolveSelections hparts, SelectionSet.plainKeys,
    SelectionParts.united, SelectionParts.scalarsWithTypename]
  split
  · rfl
  · rw [SelectedField.keys_append]
    exact List.append_nil _

/-- The response keys of `__typename` are read off the document. -/
theorem typenameKeys_eq (h : w.Makes s traversed set) : set.typenameKeys = w.typenameKeys := by
  obtain ⟨enums, hset⟩ := h
  obtain ⟨parts, hparts, rfl, _⟩ := Scope.selectionSet_eq_ok_iff.mp hset
  rw [Written.typenameKeys, ← Scope.keys_of_resolveSelections hparts, SelectionSet.typenameKeys,
    SelectionParts.united, SelectionParts.scalarsWithTypename]
  have hany : parts.scalars.any SelectedField.isTypename = true ↔
      SelectedField.keys true parts.scalars ≠ [] := by
    simp [SelectedField.keys_eq_nil_iff]
  cases hkeys : SelectedField.keys true parts.scalars with
  | nil =>
      rw [if_neg fun h => hany.mp h hkeys, SelectedField.keys_append, hkeys]
      rfl
  | cons first rest =>
      have hne : SelectedField.keys true parts.scalars ≠ [] := by
        rw [hkeys]
        exact List.cons_ne_nil first rest
      rw [if_pos (hany.mpr hne), hkeys]

end Written.Makes

/-! ### Merged inline fragments -/

namespace InlineFragment.MergedFrom

variable {s : Scope} {traversed : List SelectedField} {i : InlineFragment}
  {group : List WrittenInline}

/-- A merged inline fragment asks for all that the inline fragments of its group ask for, except for
`__typename`. -/
theorem plainKeys_eq (h : i.MergedFrom s traversed group) :
    i.selectionSet.plainKeys = group.flatMap fun a => a.body.plainKeys := by
  obtain ⟨resolved, hresolved, hunited⟩ := h
  have hkeys : resolved.map (fun member => member.selectionSet.plainKeys) =
      group.map fun a => a.body.plainKeys := by
    rw [← List.forall₂_eq_eq_eq, List.forall₂_map_left_iff, List.forall₂_map_right_iff]
    exact hresolved.imp fun _ _ hbecomes => hbecomes.makes.plainKeys_eq
  cases resolved with
  | nil => cases hunited
  | cons first others =>
      cases hunited
      rw [List.flatMap_def, ← hkeys, InlineFragment.followedBy, SelectionSet.plainKeys_followedBy,
        List.flatMap_def, List.map_cons, List.map_map]
      rfl

/-- A merged inline fragment asks for `__typename` as the first of its group does. -/
theorem exists_first (h : i.MergedFrom s traversed group) :
    ∃ first rest, group = first :: rest ∧ i.mergeKey = first.key ∧
      i.selectionSet.typenameKeys = first.body.typenameKeys := by
  obtain ⟨resolved, hresolved, hunited⟩ := h
  cases hresolved with
  | nil => cases hunited
  | @cons first a others rest hfirst hothers =>
      cases hunited
      refine ⟨a, rest, rfl, ?_, ?_⟩
      · rw [mergeKey_followedBy, hfirst.mergeKey_eq]
      · rw [InlineFragment.followedBy, SelectionSet.typenameKeys_followedBy,
          hfirst.makes.typenameKeys_eq]

/-- What is merged from a group has the key of the group. -/
theorem mergeKey_eq {w : Written} {c : Catalog} {key : Name × String}
    (h : i.MergedFrom s traversed (w.group c key)) : i.mergeKey = key := by
  obtain ⟨first, rest, hgroup, hkey, _⟩ := h.exists_first
  have hfirst : first ∈ w.group c key := by
    rw [hgroup]
    exact List.mem_cons_self
  exact hkey.trans (Written.mem_group_iff.mp hfirst).2

end InlineFragment.MergedFrom

namespace Written.Makes

variable {w : Written} {s : Scope} {traversed : List SelectedField} {set : SelectionSet}
  {i : InlineFragment}

/-- Every inline fragment of a selection set is what all those with its key are merged to. -/
theorem mergedFrom_group (h : w.Makes s traversed set) (hi : i ∈ set.inlines) :
    i.MergedFrom s traversed (w.group s.catalog i.mergeKey) := by
  obtain ⟨members, hmembers, hmerged⟩ := exists_of_forall₂_of_mem_left h.inlines hi
  obtain ⟨a, _, rfl⟩ := mem_groupBy_iff.mp hmembers
  have hmerged : i.MergedFrom s traversed (w.group s.catalog a.key) := hmerged
  rwa [hmerged.mergeKey_eq]

/-- Every key that is written has its inline fragment. -/
theorem exists_mergeKey_eq (h : w.Makes s traversed set) {a : WrittenInline}
    (ha : a ∈ w.inlines s.catalog) : ∃ i ∈ set.inlines, i.mergeKey = a.key := by
  obtain ⟨i, hi, hmerged⟩ :=
    exists_of_forall₂_of_mem_right h.inlines (mem_groupBy_iff.mpr ⟨a, ha, rfl⟩)
  have hmerged : i.MergedFrom s traversed (w.group s.catalog a.key) := hmerged
  exact ⟨i, hi, hmerged.mergeKey_eq⟩

/-- The response keys of an inline fragment are those of its group. -/
theorem plainKeys_of_mem (h : w.Makes s traversed set) (hi : i ∈ set.inlines) :
    i.selectionSet.plainKeys = w.plainKeysOf s.catalog i.mergeKey :=
  (h.mergedFrom_group hi).plainKeys_eq

/-- The first inline fragment of each key decides how `__typename` is asked for. -/
theorem typenameKeys_of_mem (h : w.Makes s traversed set) (hi : i ∈ set.inlines) :
    ∃ first rest, w.group s.catalog i.mergeKey = first :: rest ∧
      i.selectionSet.typenameKeys = first.body.typenameKeys := by
  obtain ⟨first, rest, hgroup, _, hkeys⟩ := (h.mergedFrom_group hi).exists_first
  exact ⟨first, rest, hgroup, hkeys⟩

end Written.Makes

/-! ### Other orders -/

namespace SelectionSet

/-- There are inline fragments of the same keys. -/
def SameMergeKeys (a b : SelectionSet) : Prop :=
  ∀ key, (∃ i ∈ a.inlines, i.mergeKey = key) ↔ ∃ j ∈ b.inlines, j.mergeKey = key

/-- The same names are read off inline fragments of the same key. -/
def InlinesAgree (a b : SelectionSet) (names : SelectionSet → List Name) : Prop :=
  ∀ i ∈ a.inlines, ∀ j ∈ b.inlines, i.mergeKey = j.mergeKey →
    ∀ name, name ∈ names i.selectionSet ↔ name ∈ names j.selectionSet

end SelectionSet

/-- A selection is one inline fragment at most. -/
theorem Selection.inlines_eq_singleton {c : Catalog} {type : CompositeType} {selection : Selection}
    {a : WrittenInline} (h : a ∈ selection.inlines c type) : selection.inlines c type = [a] := by
  cases selection with
  | field location aliasName name arguments directives selections => cases h
  | spread location name directives => cases h
  | inline location condition directives selections =>
      simp only [inlines, List.mem_map, Option.mem_toList] at h ⊢
      obtain ⟨nested, hnested, rfl⟩ := h
      rw [Option.mem_def.mp hnested]
      rfl

namespace Written

variable {type : CompositeType} {selections others : List Selection} {c : Catalog}
  {key : Name × String}

/-- Selections in another order have the same groups, in another order. -/
theorem group_perm (h : selections.Perm others) :
    (group ⟨type, selections⟩ c key).Perm (group ⟨type, others⟩ c key) :=
  (h.flatMap_right _).filter _

/-- Selections in another order have the same response keys in each group. -/
theorem mem_plainKeysOf_of_perm (h : selections.Perm others) {name : Name} :
    name ∈ plainKeysOf ⟨type, selections⟩ c key ↔ name ∈ plainKeysOf ⟨type, others⟩ c key :=
  ((group_perm h).flatMap_right _).mem_iff

/-- Any inline fragment can be made the first of its key. -/
theorem exists_perm_group_eq_cons {a : WrittenInline} (h : a ∈ inlines ⟨type, selections⟩ c) :
    ∃ others, selections.Perm others ∧ ∃ rest, group ⟨type, others⟩ c a.key = a :: rest := by
  obtain ⟨selection, hselection, ha⟩ := List.mem_flatMap.mp h
  refine ⟨selection :: selections.erase selection, List.perm_cons_erase hselection, ?_⟩
  have hfirst := Selection.inlines_eq_singleton ha
  refine ⟨group ⟨type, selections.erase selection⟩ c a.key, ?_⟩
  simp only [group, inlines, List.flatMap_cons, hfirst, List.singleton_append]
  exact List.filter_cons_of_pos (decide_eq_true rfl)

end Written

namespace Written.Makes

variable {type : CompositeType} {selections others : List Selection} {s : Scope}
  {traversed : List SelectedField} {set other : SelectionSet}

/-- Selections make up a selection set in every order if they do so in one. -/
theorem exists_of_perm (h : Makes ⟨type, selections⟩ s traversed set)
    (hperm : selections.Perm others) : ∃ other, Makes ⟨type, others⟩ s traversed other := by
  have hresolve := Scope.exists_selectionSet_eq_ok_iff.mp ⟨set, h⟩
  exact Scope.exists_selectionSet_eq_ok_iff.mpr fun selection hselection =>
    hresolve selection (hperm.mem_iff.mpr hselection)

/-- What an inline fragment asks for in another order: the fields of all inline fragments of its
key, and `__typename` as the first of them does in that order. -/
theorem mem_scalarKeys_iff_of_perm (h : Makes ⟨type, others⟩ s traversed other)
    (hperm : selections.Perm others) {j : InlineFragment} (hj : j ∈ other.inlines)
    {first : WrittenInline} {rest : List WrittenInline}
    (hgroup : group ⟨type, others⟩ s.catalog j.mergeKey = first :: rest) {name : Name} :
    name ∈ j.selectionSet.scalarKeys ↔ name ∈ first.body.typenameKeys ∨
      name ∈ plainKeysOf ⟨type, selections⟩ s.catalog j.mergeKey := by
  obtain ⟨_, _, hfirst, hkeys⟩ := h.typenameKeys_of_mem hj
  obtain ⟨rfl, _⟩ := List.cons.inj (hgroup.symm.trans hfirst)
  rw [SelectionSet.mem_scalarKeys_iff, hkeys, h.plainKeys_of_mem hj,
    mem_plainKeysOf_of_perm hperm]

/-- The response keys of an inline fragment, read off selections in another order. -/
theorem exists_mem_scalarKeys_iff (h : Makes ⟨type, others⟩ s traversed other)
    (hperm : selections.Perm others) {j : InlineFragment} (hj : j ∈ other.inlines) :
    ∃ a ∈ Written.inlines ⟨type, selections⟩ s.catalog, a.key = j.mergeKey ∧
      ∀ name, name ∈ j.selectionSet.scalarKeys ↔ name ∈ a.body.typenameKeys ∨
        name ∈ plainKeysOf ⟨type, selections⟩ s.catalog j.mergeKey := by
  obtain ⟨first, rest, hgroup, _⟩ := h.typenameKeys_of_mem hj
  have hfirst : first ∈ group ⟨type, selections⟩ s.catalog j.mergeKey := by
    rw [(group_perm hperm).mem_iff, hgroup]
    exact List.mem_cons_self
  obtain ⟨hmem, hkey⟩ := mem_group_iff.mp hfirst
  exact ⟨first, hmem, hkey, fun name => h.mem_scalarKeys_iff_of_perm hperm hj hgroup⟩

/-- In some order an inline fragment of the document decides how `__typename` is asked for. -/
theorem exists_perm_first (h : Makes ⟨type, selections⟩ s traversed set) {a : WrittenInline}
    (ha : a ∈ Written.inlines ⟨type, selections⟩ s.catalog) :
    ∃ others other, selections.Perm others ∧ Makes ⟨type, others⟩ s traversed other ∧
      ∃ j ∈ other.inlines, j.mergeKey = a.key ∧
        ∀ name, name ∈ j.selectionSet.scalarKeys ↔ name ∈ a.body.typenameKeys ∨
          name ∈ plainKeysOf ⟨type, selections⟩ s.catalog a.key := by
  obtain ⟨others, hperm, rest, hgroup⟩ := exists_perm_group_eq_cons ha
  obtain ⟨other, hother⟩ := h.exists_of_perm hperm
  have hmem : a ∈ Written.inlines ⟨type, others⟩ s.catalog :=
    (hperm.flatMap_right _).mem_iff.mp ha
  obtain ⟨j, hj, hkey⟩ := hother.exists_mergeKey_eq hmem
  rw [← hkey] at hgroup
  refine ⟨others, other, hperm, hother, j, hj, hkey, fun name => ?_⟩
  rw [← hkey]
  exact hother.mem_scalarKeys_iff_of_perm hperm hj hgroup

/-- Selections in another order have an inline fragment of each key. -/
theorem exists_mergeKey_eq_of_perm (h : Makes ⟨type, selections⟩ s traversed set)
    (hother : Makes ⟨type, others⟩ s traversed other) (hperm : selections.Perm others)
    {i : InlineFragment} (hi : i ∈ set.inlines) :
    ∃ j ∈ other.inlines, j.mergeKey = i.mergeKey := by
  obtain ⟨a, ha, hkey, _⟩ := h.exists_mem_scalarKeys_iff hperm.symm hi
  rw [← hkey]
  exact hother.exists_mergeKey_eq ha

/-- Selections in another order have inline fragments of the same keys. -/
theorem sameMergeKeys_of_perm (h : Makes ⟨type, selections⟩ s traversed set)
    (hother : Makes ⟨type, others⟩ s traversed other) (hperm : selections.Perm others) :
    set.SameMergeKeys other := by
  intro key
  constructor
  · rintro ⟨i, hi, rfl⟩
    exact h.exists_mergeKey_eq_of_perm hother hperm hi
  · rintro ⟨j, hj, rfl⟩
    exact hother.exists_mergeKey_eq_of_perm h hperm.symm hj

/-- Selections in another order agree on the response keys but those of `__typename`. -/
theorem plainKeys_agree_of_perm (h : Makes ⟨type, selections⟩ s traversed set)
    (hother : Makes ⟨type, others⟩ s traversed other) (hperm : selections.Perm others) :
    set.InlinesAgree other SelectionSet.plainKeys := by
  intro i hi j hj hkey name
  rw [h.plainKeys_of_mem hi, hother.plainKeys_of_mem hj, hkey]
  exact mem_plainKeysOf_of_perm hperm

/-- Where `__typename` is written alike, selections in another order agree on all response keys. -/
theorem scalarKeys_agree_of_perm (h : Makes ⟨type, selections⟩ s traversed set)
    (hother : Makes ⟨type, others⟩ s traversed other) (hperm : selections.Perm others)
    (halike : TypenamesAlike ⟨type, selections⟩ s.catalog) :
    set.InlinesAgree other SelectionSet.scalarKeys := by
  intro i hi j hj hkey name
  obtain ⟨a, ha, hkeya, hnamesa⟩ := h.exists_mem_scalarKeys_iff (.refl _) hi
  obtain ⟨b, hb, hkeyb, hnamesb⟩ := hother.exists_mem_scalarKeys_iff hperm hj
  have hsame : a.key = b.key := hkeya.trans (hkey.trans hkeyb.symm)
  have hab := halike a ha b hb hsame name
  have hba := halike b hb a ha hsame.symm name
  rw [hkeya, hkey] at hab
  rw [hkeyb] at hba
  rw [hnamesa, hnamesb, hkey]
  constructor
  · rintro (htypename | hplain)
    · exact hab htypename
    · exact Or.inr hplain
  · rintro (htypename | hplain)
    · exact hba htypename
    · exact Or.inr hplain

/-- Where selections agree in every order, `__typename` is written alike. -/
theorem typenamesAlike_of_agree (h : Makes ⟨type, selections⟩ s traversed set)
    (hagree : ∀ others other, selections.Perm others → Makes ⟨type, others⟩ s traversed other →
      set.InlinesAgree other SelectionSet.scalarKeys) :
    TypenamesAlike ⟨type, selections⟩ s.catalog := by
  intro a ha b hb hkey name hname
  obtain ⟨i, hi, hkeyi⟩ := h.exists_mergeKey_eq ha
  obtain ⟨others, other, hperm, hother, j, hj, hkeyj, hnamesj⟩ := h.exists_perm_first ha
  obtain ⟨others', other', hperm', hother', k, hk, hkeyk, hnamesk⟩ := h.exists_perm_first hb
  -- The order given is compared with one that puts `a` first and with one that puts `b` first.
  have hfirst := hagree others other hperm hother i hi j hj (hkeyi.trans hkeyj.symm) name
  have hsecond := hagree others' other' hperm' hother' i hi k hk
    (hkeyi.trans (hkey.trans hkeyk.symm)) name
  rw [hkey, ← hnamesk, ← hsecond, hfirst, hnamesj]
  exact Or.inl hname

end Written.Makes

/-- Selections that make up a selection set do so in every order. There are inline fragments of the
same keys then, which ask for the same fields without sub-selections other than `__typename`; how
they ask for `__typename` is decided by whichever comes first in that order. So they ask for the
same response keys in all orders exactly if those of one key ask for `__typename` alike, and
certainly if none of them gives it an alias. -/
theorem Scope.selectionSet_of_perm {s : Scope} {type : CompositeType}
    {traversed : List SelectedField} {selections : List Selection} {set : SelectionSet}
    {enums : List (Name × EnumType)}
    (h : s.selectionSet type traversed selections = .ok (set, enums)) :
    (∀ others, selections.Perm others →
      ∃ other enums', s.selectionSet type traversed others = .ok (other, enums') ∧
        set.SameMergeKeys other ∧ set.InlinesAgree other SelectionSet.plainKeys ∧
        ∀ j ∈ other.inlines, ∃ first rest,
          Written.group ⟨type, others⟩ s.catalog j.mergeKey = first :: rest ∧
            j.selectionSet.typenameKeys = first.body.typenameKeys) ∧
    ((∀ others other enums', selections.Perm others →
        s.selectionSet type traversed others = .ok (other, enums') →
          set.InlinesAgree other SelectionSet.scalarKeys) ↔
      Written.TypenamesAlike ⟨type, selections⟩ s.catalog) ∧
    ((∀ a ∈ Written.inlines ⟨type, selections⟩ s.catalog,
        ∀ name ∈ a.body.typenameKeys, name = typenameField) →
      Written.TypenamesAlike ⟨type, selections⟩ s.catalog) := by
  have hmakes : Written.Makes ⟨type, selections⟩ s traversed set := ⟨enums, h⟩
  refine ⟨fun others hperm => ?_, ⟨fun hagree => ?_, ?_⟩, Written.typenamesAlike_of_forall_eq⟩
  · obtain ⟨other, hother⟩ := hmakes.exists_of_perm hperm
    obtain ⟨enums', hresolved⟩ := hother
    have hother : Written.Makes ⟨type, others⟩ s traversed other := ⟨enums', hresolved⟩
    exact ⟨other, enums', hresolved, hmakes.sameMergeKeys_of_perm hother hperm,
      hmakes.plainKeys_agree_of_perm hother hperm, fun j hj => hother.typenameKeys_of_mem hj⟩
  · refine hmakes.typenamesAlike_of_agree ?_
    rintro others other hperm ⟨enums', hother⟩
    exact hagree others other enums' hperm hother
  · intro halike others other enums' hperm hother
    exact hmakes.scalarKeys_agree_of_perm ⟨enums', hother⟩ hperm halike

/-- Two inline fragments on one type. The second asks for `__typename` under an alias as well. -/
def Selection.kinds : List Selection := [
  .inline none (some "Person") [] [
    .field none none "__typename" [] [] [], .field none none "id" [] [] []],
  .inline none (some "Person") [] [
    .field none (some "kind") "__typename" [] [] [], .field none none "__typename" [] [] [],
    .field none none "name" [] [] []]]

namespace Scope

/-- What the two inline fragments are merged to in either order. -/
theorem selectionSet_kinds :
    let s := Scope.start .person .empty (.fragment "Parts")
    ∃ type set enums other enums' i j, s.catalog.composite? "Node" = some type ∧
      s.selectionSet type [] Selection.kinds = .ok (set, enums) ∧
      s.selectionSet type [] Selection.kinds.reverse = .ok (other, enums') ∧
      i ∈ set.inlines ∧ j ∈ other.inlines ∧ i.mergeKey = j.mergeKey ∧
      i.selectionSet.scalarKeys = ["__typename", "id", "name"] ∧
      j.selectionSet.scalarKeys = ["kind", "__typename", "name", "id"] := by
  intro s
  have hcomputed : ((s.catalog.composite? "Node").bind fun type =>
      (s.selectionSet type [] Selection.kinds).toOption.bind fun result =>
        (s.selectionSet type [] Selection.kinds.reverse).toOption.bind fun reversed =>
          result.1.inlines.head?.bind fun i => reversed.1.inlines.head?.map fun j =>
            (decide (i.mergeKey = j.mergeKey), i.selectionSet.scalarKeys,
              j.selectionSet.scalarKeys)) =
        some (true, ["__typename", "id", "name"], ["kind", "__typename", "name", "id"]) := by
    decide +kernel
  simp only [Option.bind_eq_some_iff, Option.map_eq_some_iff, toOption_eq_some_iff,
    Prod.mk.injEq, decide_eq_true_eq] at hcomputed
  obtain ⟨type, htype, ⟨set, enums⟩, hset, ⟨other, enums'⟩, hother, i, hi, j, hj, hkey, hkeys⟩ :=
    hcomputed
  exact ⟨type, set, enums, other, enums', i, j, htype, hset, hother, List.mem_of_mem_head? hi,
    List.mem_of_mem_head? hj, hkey, hkeys⟩

/-- The alias of `__typename` is lost in one order and kept in the other. -/
theorem exists_reversed_not_agree :
    let s := Scope.start .person .empty (.fragment "Parts")
    ∃ type set enums other enums', s.catalog.composite? "Node" = some type ∧
      s.selectionSet type [] Selection.kinds = .ok (set, enums) ∧
      s.selectionSet type [] Selection.kinds.reverse = .ok (other, enums') ∧
      ¬ set.InlinesAgree other SelectionSet.scalarKeys := by
  intro s
  obtain ⟨type, set, enums, other, enums', i, j, htype, hset, hother, hi, hj, hkey, hkeysi,
    hkeysj⟩ := selectionSet_kinds
  refine ⟨type, set, enums, other, enums', htype, hset, hother, fun hagree => ?_⟩
  have hkind := hagree i hi j hj hkey "kind"
  rw [hkeysi, hkeysj] at hkind
  exact absurd hkind (by decide)

/-- Both orders give an inline fragment of the same key with `id` and `name`, but only one of them
asks for `kind`. -/
theorem selectionSet_reversed_kinds :
    let s := Scope.start .person .empty (.fragment "Parts")
    ∃ type set enums other enums' i j, s.catalog.composite? "Node" = some type ∧
      s.selectionSet type [] Selection.kinds = .ok (set, enums) ∧
      Selection.kinds.Perm Selection.kinds.reverse ∧
      s.selectionSet type [] Selection.kinds.reverse = .ok (other, enums') ∧
      set.SameMergeKeys other ∧ set.InlinesAgree other SelectionSet.plainKeys ∧
      i ∈ set.inlines ∧ j ∈ other.inlines ∧ i.mergeKey = j.mergeKey ∧
      i.selectionSet.scalarKeys = ["__typename", "id", "name"] ∧
      j.selectionSet.scalarKeys = ["kind", "__typename", "name", "id"] ∧
      ¬ Written.TypenamesAlike ⟨type, Selection.kinds⟩ s.catalog := by
  intro s
  obtain ⟨type, set, enums, other, enums', i, j, htype, hset, hother, hi, hj, hkey, hkeysi,
    hkeysj⟩ := selectionSet_kinds
  have hperm : Selection.kinds.Perm Selection.kinds.reverse := (List.reverse_perm _).symm
  obtain ⟨hothers, hagree, _⟩ := selectionSet_of_perm hset
  obtain ⟨found, _, hfound, hmergeKeys, hplain, _⟩ := hothers _ hperm
  cases hfound.symm.trans hother
  refine ⟨type, set, enums, other, enums', i, j, htype, hset, hperm, hother, hmergeKeys, hplain,
    hi, hj, hkey, hkeysi, hkeysj, fun halike => ?_⟩
  have hkind := hagree.mpr halike _ other enums' hperm hother i hi j hj hkey "kind"
  rw [hkeysi, hkeysj] at hkind
  exact absurd hkind (by decide)

end Scope

end QueryCompiler

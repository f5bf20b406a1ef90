import QueryCompiler.Proofs.Compiled
import QueryCompiler.Proofs.SelectionSet.Everywhere
import QueryCompiler.Proofs.SelectionSet.Paths

/-!
# Where selection sets come from

Behind every selection set stand the selections of a document that it was made from: those that are
written in one pair of braces, or those of several inline fragments that were merged. The same steps
that lead into a selection set lead to its origin in the document. So a property of selection sets
that can be read off their origins holds at every depth exactly if all origins have it.
-/

namespace QueryCompiler

open Outcome

/-! ### Documents -/

/-- Selections of a document, and the type that they are made on. -/
structure Written where
  type : CompositeType
  selections : List Selection

/-- An inline fragment of a document. -/
structure WrittenInline where
  body : Written
  directives : List Directive

/-- The selections that a selection set is made from. There are others behind the first if inline
fragments are merged. -/
structure Origin where
  first : Written
  others : List Written

/-- The inline fragments of a document that are merged are those with equal keys. -/
def WrittenInline.key (i : WrittenInline) : Name × String :=
  (i.body.type.name, directivesSignature i.directives)

namespace Selection

/-- The origin of the sub-selections of a field, if it has any. -/
def objects (c : Catalog) (type : CompositeType) : Selection → List Origin
  | field _ _ name _ _ (first :: rest) =>
      ((type.field? name).bind fun definition =>
        c.composite? definition.type.innermost).toList.map fun nested =>
          ⟨⟨nested, first :: rest⟩, []⟩
  | _ => []

/-- The inline fragment that a selection is, if it is one. -/
def inlines (c : Catalog) (type : CompositeType) : Selection → List WrittenInline
  | inline _ condition directives selections =>
      (type.inline? c condition).toList.map fun nested => ⟨⟨nested, selections⟩, directives⟩
  | _ => []

/-- Whether a selection is a field `__typename` without sub-selections. -/
def isTypename : Selection → Bool
  | field _ _ name _ _ [] => name = typenameField
  | _ => false

end Selection

namespace Written

/-- The origins of the fields with sub-selections. -/
def objects (w : Written) (c : Catalog) : List Origin :=
  w.selections.flatMap (Selection.objects c w.type)

/-- The inline fragments that stand side by side. -/
def inlines (w : Written) (c : Catalog) : List WrittenInline :=
  w.selections.flatMap (Selection.inlines c w.type)

/-- The number of `__typename` fields. -/
def typenames (w : Written) : Nat := w.selections.countP Selection.isTypename

end Written

namespace Origin

/-- All selections that a selection set is made from. -/
def members (o : Origin) : List Written := o.first :: o.others

/-- The origin of inline fragments that are merged. -/
def ofGroup : List WrittenInline → List Origin
  | [] => []
  | first :: others => [⟨first.body, others.map WrittenInline.body⟩]

/-- The origins of the fields with sub-selections. -/
def objects (o : Origin) (c : Catalog) : List Origin := o.members.flatMap fun w => w.objects c

/-- The origins of the inline fragments. Only those that stand side by side in the document are
merged. -/
def inlines (o : Origin) (c : Catalog) : List Origin :=
  o.members.flatMap fun w => (groupBy WrittenInline.key (w.inlines c)).flatMap ofGroup

/-- The origin that steps lead to. -/
def follow? (c : Catalog) (o : Origin) : List SelectionStep → Option Origin
  | [] => some o
  | .object index :: rest => (o.objects c)[index]?.bind fun inner => inner.follow? c rest
  | .inline index :: rest => (o.inlines c)[index]?.bind fun inner => inner.follow? c rest

/-- A property holds of an origin and of all those inside it. -/
def Everywhere (c : Catalog) (Q : Origin → Prop) (o : Origin) : Prop :=
  ∀ steps inner, o.follow? c steps = some inner → Q inner

end Origin

/-! ### Selection sets -/

/-- Selections of a document make up a selection set by themselves. -/
def Written.Makes (w : Written) (s : Scope) (traversed : List SelectedField)
    (set : SelectionSet) : Prop :=
  ∃ enums, s.selectionSet w.type traversed w.selections = .ok (set, enums)

/-- An inline fragment of a document becomes an inline fragment by itself. -/
structure WrittenInline.Becomes (w : WrittenInline) (s : Scope) (traversed : List SelectedField)
    (i : InlineFragment) : Prop where
  condition : i.condition = w.body.type.name
  directives : i.directives = w.directives
  makes : w.body.Makes s traversed i.selectionSet

/-- A selection set consists of what the selections of its origin make up, below whatever fields
these stand. -/
def SelectionSet.MadeFrom (s : Scope) (set : SelectionSet) (o : Origin) : Prop :=
  ∃ path traversed first others,
    List.Forall₂ (fun set w => w.Makes { s with path := path } traversed set) (first :: others)
      o.members ∧ first.followedBy others = set

/-- An inline fragment consists of what the inline fragments of a group become. -/
def InlineFragment.MergedFrom (s : Scope) (traversed : List SelectedField) (i : InlineFragment)
    (group : List WrittenInline) : Prop :=
  ∃ resolved, List.Forall₂ (fun i w => w.Becomes s traversed i) resolved group ∧
    united resolved = [i]

/-! ### Resolved selections -/

/-- Resolved selections correspond to the selections of a document. -/
structure SelectionParts.ComeFrom (parts : SelectionParts) (s : Scope)
    (traversed : List SelectedField) (w : Written) : Prop where
  objects : List.Forall₂ (fun o origin => o.selectionSet.MadeFrom s origin) parts.objects
    (w.objects s.catalog)
  inlines : List.Forall₂ (fun i written => written.Becomes s traversed i) parts.inlines
    (w.inlines s.catalog)
  typenames : parts.scalars.countP SelectedField.isTypename = w.typenames

/-- A selection set that one piece of the document makes is made from it, whatever the path to
it. -/
theorem Written.Makes.madeFrom {w : Written} {s : Scope} {path : SelectionPath}
    {traversed : List SelectedField} {set : SelectionSet}
    (h : w.Makes { s with path := path } traversed set) : set.MadeFrom s ⟨w, []⟩ :=
  ⟨path, traversed, set, [], .cons h .nil, set.followedBy_nil⟩

namespace Scope

variable {s : Scope} {type : CompositeType} {traversed : List SelectedField}

/-- What a selection becomes corresponds to it. -/
theorem comeFrom_of_resolveSelection {selection : Selection} {parts : SelectionParts}
    (h : s.resolveSelection type traversed selection = .ok parts) :
    parts.ComeFrom s traversed ⟨type, [selection]⟩ := by
  cases selection with
  | field location aliasName name arguments directives selections =>
      cases selections with
      | nil =>
          obtain ⟨definition, resolved, _, _, rfl⟩ := resolveSelection_leaf_eq_ok_iff.mp h
          refine ⟨.nil, .nil, ?_⟩
          simp [Written.typenames, Selection.isTypename, SelectedField.isTypename]
      | cons first rest =>
          obtain ⟨definition, resolved, nested, set, enums, hdeclares, _, hnested, hset, rfl⟩ :=
            resolveSelection_object_eq_ok_iff.mp h
          refine ⟨?_, .nil, rfl⟩
          have hobjects : Written.objects ⟨type, [.field location aliasName name arguments
              directives (first :: rest)]⟩ s.catalog = [⟨⟨nested, first :: rest⟩, []⟩] := by
            simp [Written.objects, Selection.objects,
              CompositeType.field?_eq_some_iff.mpr hdeclares, hnested]
          rw [hobjects]
          exact .cons (Written.Makes.madeFrom ⟨enums, hset⟩) .nil
  | spread location name directives =>
      obtain ⟨_, rfl⟩ := resolveSelection_spread_eq_ok_iff.mp h
      exact ⟨.nil, .nil, rfl⟩
  | inline location condition directives selections =>
      obtain ⟨nested, set, enums, hon, hset, rfl⟩ := resolveSelection_inline_eq_ok_iff.mp h
      refine ⟨.nil, ?_, rfl⟩
      have hinlines : Written.inlines ⟨type, [.inline location condition directives selections]⟩
          s.catalog = [⟨⟨nested, selections⟩, directives⟩] := by
        simp [Written.inlines, Selection.inlines, CompositeType.inline?_eq_some hon]
      rw [hinlines]
      exact .cons ⟨rfl, rfl, enums, hset⟩ .nil

/-- What selections become corresponds to them, in order. -/
theorem comeFrom_of_resolveSelections {selections : List Selection} {parts : SelectionParts}
    (h : s.resolveSelections type traversed selections = .ok parts) :
    parts.ComeFrom s traversed ⟨type, selections⟩ := by
  induction selections generalizing parts with
  | nil =>
      obtain rfl := resolveSelections_nil_eq_ok_iff.mp h
      exact ⟨.nil, .nil, rfl⟩
  | cons selection rest ih =>
      obtain ⟨first, others, hfirst, hothers, rfl⟩ := resolveSelections_cons_eq_ok_iff.mp h
      have hown := comeFrom_of_resolveSelection hfirst
      have hrest := ih hothers
      have hcons : selection :: rest = [selection] ++ rest := rfl
      refine ⟨?_, ?_, ?_⟩
      · simp only [Written.objects, hcons, List.flatMap_append]
        exact List.rel_append hown.objects hrest.objects
      · simp only [Written.inlines, hcons, List.flatMap_append]
        exact List.rel_append hown.inlines hrest.inlines
      · simp only [Written.typenames, hcons, List.countP_append, SelectionParts.append,
          hown.typenames, hrest.typenames]

end Scope

/-! ### From selections to selection sets -/

namespace WrittenInline

variable {s : Scope} {traversed : List SelectedField}

/-- The key of an inline fragment is read off the document. -/
theorem Becomes.mergeKey_eq {w : WrittenInline} {i : InlineFragment}
    (h : w.Becomes s traversed i) : i.mergeKey = w.key := by
  obtain ⟨enums, hset⟩ := h.makes
  rw [InlineFragment.mergeKey, key, Scope.typeName_of_selectionSet hset, h.directives]

/-- Groups that correspond become the inline fragments that they are merged to. -/
theorem forall₂_mergedFrom {groups : List (List InlineFragment)}
    {written : List (List WrittenInline)}
    (h : List.Forall₂ (List.Forall₂ fun i w => w.Becomes s traversed i) groups written)
    (hgroups : ∀ group ∈ groups, group ≠ []) :
    List.Forall₂ (InlineFragment.MergedFrom s traversed)
      (groups.flatMap InlineFragment.united) written := by
  induction h with
  | nil => exact .nil
  | @cons group _ _ _ hgroup _ ih =>
      obtain ⟨hne, hrest⟩ := List.forall_mem_cons.mp hgroups
      cases group with
      | nil => exact absurd rfl hne
      | cons first others => exact .cons ⟨_, hgroup, rfl⟩ (ih hrest)

/-- What a group is merged to is made from the bodies of its fragments. -/
theorem forall₂_madeFrom {inlines : List InlineFragment} {written : List (List WrittenInline)}
    (h : List.Forall₂ (InlineFragment.MergedFrom s traversed) inlines written) :
    List.Forall₂ (fun i o => i.selectionSet.MadeFrom s o) inlines
      (written.flatMap Origin.ofGroup) := by
  induction h with
  | nil => exact .nil
  | cons hmerged _ ih =>
      obtain ⟨resolved, hresolved, hunited⟩ := hmerged
      cases hresolved with
      | nil => cases hunited
      | @cons first w others ws hfirst hothers =>
          cases hunited
          refine .cons ⟨s.path, traversed, first.selectionSet,
            others.map InlineFragment.selectionSet, .cons hfirst.makes ?_, rfl⟩ ih
          rw [List.forall₂_map_left_iff, List.forall₂_map_right_iff]
          exact hothers.imp fun _ _ hbecomes => hbecomes.makes

end WrittenInline

namespace Written.Makes

variable {w : Written} {s : Scope} {traversed : List SelectedField} {set : SelectionSet}

/-- A selection set is on the type that it is written on. -/
theorem typeName_eq (h : w.Makes s traversed set) : set.typeName = w.type.name := by
  obtain ⟨enums, hset⟩ := h
  exact Scope.typeName_of_selectionSet hset

/-- A selection set is put together from resolved selections that correspond to those written. -/
theorem exists_comeFrom (h : w.Makes s traversed set) :
    ∃ parts : SelectionParts, parts.ComeFrom s traversed w ∧
      parts.united w.type traversed = set := by
  obtain ⟨enums, hset⟩ := h
  obtain ⟨parts, hparts, hunited, _⟩ := Scope.selectionSet_eq_ok_iff.mp hset
  exact ⟨parts, Scope.comeFrom_of_resolveSelections hparts, hunited⟩

/-- The fields with selections are made from those of the document, one by one. -/
theorem objects (h : w.Makes s traversed set) :
    List.Forall₂ (fun o origin => o.selectionSet.MadeFrom s origin) set.objects
      (w.objects s.catalog) := by
  obtain ⟨parts, hparts, rfl⟩ := h.exists_comeFrom
  exact List.forall₂_map_left_iff.mpr hparts.objects

/-- The inline fragments of a selection set are what those of the document are merged to, in the
order in which their keys appear first. -/
theorem inlines (h : w.Makes s traversed set) :
    List.Forall₂ (InlineFragment.MergedFrom s traversed) set.inlines
      (groupBy WrittenInline.key (w.inlines s.catalog)) := by
  obtain ⟨parts, hparts, rfl⟩ := h.exists_comeFrom
  have hgroups := forall₂_groupBy (f := InlineFragment.mergeKey) hparts.inlines
    fun _ _ hbecomes => hbecomes.mergeKey_eq
  have hmerged := WrittenInline.forall₂_mergedFrom hgroups fun _ => ne_nil_of_mem_groupBy
  rwa [← InlineFragment.groups_eq_groupBy] at hmerged

end Written.Makes

namespace SelectionSet.MadeFrom

variable {s : Scope} {set : SelectionSet} {o : Origin}

/-- A merged selection set is on the type of its first piece. -/
theorem typeName_eq (h : set.MadeFrom s o) : set.typeName = o.first.type.name := by
  obtain ⟨path, traversed, first, others, hmembers, rfl⟩ := h
  cases hmembers with
  | cons hfirst _ => exact hfirst.typeName_eq

/-- The fields with selections of a merged set are made from those of its pieces, one by one. -/
theorem objects (h : set.MadeFrom s o) :
    List.Forall₂ (fun inner origin => inner.selectionSet.MadeFrom s origin) set.objects
      (o.objects s.catalog) := by
  obtain ⟨path, traversed, first, others, hmembers, rfl⟩ := h
  exact List.rel_flatMap hmembers fun _ _ hmakes => hmakes.objects

/-- The inline fragments of a merged set are made from those of its pieces, one by one. -/
theorem inlines (h : set.MadeFrom s o) :
    List.Forall₂ (fun inner origin => inner.selectionSet.MadeFrom s origin) set.inlines
      (o.inlines s.catalog) := by
  obtain ⟨path, traversed, first, others, hmembers, rfl⟩ := h
  refine List.rel_flatMap hmembers fun _ _ hmakes => ?_
  have hinlines := WrittenInline.forall₂_madeFrom hmakes.inlines
  exact hinlines

end SelectionSet.MadeFrom

/-! ### Every depth -/

private theorem rel_getElem?_of_forall₂ {α β : Type} {R : α → β → Prop} {as : List α} {bs : List β}
    (h : List.Forall₂ R as bs) (index : Nat) : Option.Rel R as[index]? bs[index]? := by
  induction h generalizing index with
  | nil => exact .none
  | cons hab _ ih =>
      cases index with
      | zero => exact .some hab
      | succ index => exact ih index

private theorem rel_bind {α β γ δ : Type} {R : α → β → Prop} {S : γ → δ → Prop} {a : Option α}
    {b : Option β} {f : α → Option γ} {g : β → Option δ} (h : Option.Rel R a b)
    (hfg : ∀ x y, R x y → Option.Rel S (f x) (g y)) : Option.Rel S (a.bind f) (b.bind g) := by
  cases h with
  | none => exact .none
  | some hab => exact hfg _ _ hab

private theorem rel_imp {α β : Type} {R S : α → β → Prop} {a : Option α} {b : Option β}
    (h : Option.Rel R a b) (hRS : ∀ x y, R x y → S x y) : Option.Rel S a b := by
  cases h with
  | none => exact .none
  | some hab => exact .some (hRS _ _ hab)

private theorem forall_eq_some_iff_of_rel {α β : Type} {R : α → β → Prop} {P : α → Prop}
    {Q : β → Prop} {a : Option α} {b : Option β} (h : Option.Rel R a b)
    (hPQ : ∀ x y, R x y → (P x ↔ Q y)) :
    (∀ x, a = some x → P x) ↔ ∀ y, b = some y → Q y := by
  cases h with
  | none => simp
  | some hab => simpa using hPQ _ _ hab

namespace SelectionSet.MadeFrom

variable {s : Scope} {set : SelectionSet} {o : Origin}

/-- The steps into a selection set are the steps into its origin. -/
theorem rel_follow? (h : set.MadeFrom s o) (steps : List SelectionStep) :
    Option.Rel (MadeFrom s) (set.follow? steps) (o.follow? s.catalog steps) := by
  induction steps generalizing set o with
  | nil => exact .some h
  | cons step rest ih =>
      cases step with
      | object index =>
          exact rel_bind (rel_getElem?_of_forall₂ h.objects index) fun _ _ hinner => ih hinner
      | inline index =>
          exact rel_bind (rel_getElem?_of_forall₂ h.inlines index) fun _ _ hinner => ih hinner

/-- A property that is read off the origins holds everywhere if the origins have it everywhere. -/
theorem everywhere_iff {P : SelectionSet → Prop} {Q : Origin → Prop} (h : set.MadeFrom s o)
    (hPQ : ∀ inner origin, inner.MadeFrom s origin → (P inner ↔ Q origin)) :
    set.Everywhere P ↔ o.Everywhere s.catalog Q := by
  apply forall_congr'
  intro steps
  exact forall_eq_some_iff_of_rel (h.rel_follow? steps) hPQ

end SelectionSet.MadeFrom

/-! ### Compiled definitions -/

/-- A property holds of all compiled selection sets, at every depth. -/
def Compiled.Everywhere (P : SelectionSet → Prop) (compiled : Compiled) : Prop :=
  ∀ set ∈ compiled.selectionSets, set.Everywhere P

namespace Registry

/-- A property holds of the origins of all selections in the registry, at every depth. -/
def Everywhere (r : Registry) (c : Catalog) (Q : Origin → Prop) : Prop :=
  ∀ type selections, r.Starts c type selections →
    Origin.Everywhere c Q ⟨⟨type, selections⟩, []⟩

/-- Compiled selection sets at every depth are related to their origins in the registry. -/
def Mirrors (r : Registry) (c : Catalog) (compiled : Compiled)
    (R : SelectionSet → Origin → Prop) : Prop :=
  ∀ set ∈ compiled.selectionSets, ∃ type selections, r.Starts c type selections ∧
    ∀ steps, Option.Rel R (set.follow? steps)
      (Origin.follow? c ⟨⟨type, selections⟩, []⟩ steps)

variable {r : Registry} {c : Catalog} {compiled : Compiled}

/-- What holds between a selection set and what it is made from holds all through what is
compiled. -/
theorem mirrors_of_compile {R : SelectionSet → Origin → Prop} (h : r.compile c = .ok compiled)
    (hR : ∀ s : Scope, s.catalog = c → ∀ set o, set.MadeFrom s o → R set o) :
    r.Mirrors c compiled R := by
  intro set hset
  obtain ⟨type, selections, hstarts, definition, enums, hresolved⟩ :=
    exists_starts_of_mem_selectionSets h hset
  refine ⟨type, selections, hstarts, fun steps => ?_⟩
  have hmade := Written.Makes.madeFrom (s := .start c r.fragments definition)
      (w := ⟨type, selections⟩) ⟨enums, hresolved⟩
  exact rel_imp (hmade.rel_follow? steps) (hR _ rfl)

/-- A property that is read off the origins holds of all that is compiled if the registry has it
everywhere. -/
theorem everywhere_iff_of_compile {P : SelectionSet → Prop} {Q : Origin → Prop}
    (h : r.compile c = .ok compiled)
    (hPQ : ∀ s : Scope, s.catalog = c → ∀ set o, set.MadeFrom s o → (P set ↔ Q o)) :
    compiled.Everywhere P ↔ r.Everywhere c Q := by
  -- Selections that start a definition and the set that they make up have the property together.
  have hstart : ∀ type selections set, r.Resolves c type selections set →
      (set.Everywhere P ↔ Origin.Everywhere c Q ⟨⟨type, selections⟩, []⟩) := by
    rintro type selections set ⟨definition, enums, hresolved⟩
    have hmade := Written.Makes.madeFrom (s := .start c r.fragments definition)
      (w := ⟨type, selections⟩) ⟨enums, hresolved⟩
    exact hmade.everywhere_iff (hPQ _ rfl)
  constructor
  · intro hcompiled type selections hstarts
    obtain ⟨set, hset, hresolves⟩ := exists_mem_selectionSets_of_starts h hstarts
    exact (hstart type selections set hresolves).mp (hcompiled set hset)
  · intro hregistry set hset
    obtain ⟨type, selections, hstarts, hresolves⟩ := exists_starts_of_mem_selectionSets h hset
    exact (hstart type selections set hresolves).mpr (hregistry type selections hstarts)

end Registry

end QueryCompiler

import Mathlib.Data.List.Nodup
import Mathlib.Data.List.Permutation
import Mathlib.Data.String.Basic
import QueryCompiler.Proofs.Document.Signature
import QueryCompiler.Proofs.SelectionSet.Everywhere
import QueryCompiler.Proofs.SelectionSet.Rearranged
import QueryCompiler.Proofs.Text.ByteOrder
import QueryCompiler.SelectionSet.Sorted

/-!
# Sorted selection sets as canonical forms

Sorting rearranges a selection set, puts the identifiers of every list in the order of their bytes,
and does nothing to what is sorted already. Where no two siblings have the same identifier, two
selection sets have equal sorted copies exactly if they are rearranged, and this is so with and
without regard to locations.
-/

namespace QueryCompiler

/-! ### Lists -/

section SortByName

variable {α β : Type} {name : α → Name} {members others : List α}

/-- Sorting keeps the members. -/
theorem sortByName_perm (name : α → Name) (members : List α) :
    (sortByName name members).Perm members :=
  List.mergeSort_perm members _

/-- Sorted members stand in the order of their names. -/
theorem pairwise_sortByName (name : α → Name) (members : List α) :
    (sortByName name members).Pairwise fun a b => name a ≤ name b := by
  have htrans : ∀ a b c, decide (name a ≤ name b) = true → decide (name b ≤ name c) = true →
      decide (name a ≤ name c) = true := by
    intro a b c hab hbc
    rw [decide_eq_true_eq] at hab hbc ⊢
    exact le_trans hab hbc
  have htotal : ∀ a b, (decide (name a ≤ name b) || decide (name b ≤ name a)) = true := by
    intro a b
    rw [Bool.or_eq_true, decide_eq_true_eq, decide_eq_true_eq]
    exact le_total (name a) (name b)
  exact (List.pairwise_mergeSort htrans htotal members).imp of_decide_eq_true

/-- Members in the order of their names stay as they are. -/
theorem sortByName_of_pairwise (h : members.Pairwise fun a b => name a ≤ name b) :
    sortByName name members = members :=
  List.mergeSort_of_pairwise (h.imp decide_eq_true)

/-- Members with different names come in one order, whatever order they were in. -/
theorem sortByName_eq_of_perm (h : members.Perm others) (hdistinct : (members.map name).Nodup) :
    sortByName name members = sortByName name others := by
  refine List.Perm.eq_of_pairwise ?_ (pairwise_sortByName name members)
    (pairwise_sortByName name others)
    ((sortByName_perm name members).trans (h.trans (sortByName_perm name others).symm))
  intro a b ha hb hab hba
  have ha : a ∈ members := (sortByName_perm name members).mem_iff.mp ha
  have hb : b ∈ members := h.mem_iff.mpr ((sortByName_perm name others).mem_iff.mp hb)
  exact List.inj_on_of_nodup_map hdistinct ha hb (le_antisymm hab hba)

/-- Members can be changed before they are sorted or after it, if their names stay the same. -/
theorem sortByName_map (f : α → β) (key : β → Name) (h : ∀ a, key (f a) = name a) :
    sortByName key (members.map f) = (sortByName name members).map f := by
  refine (List.map_mergeSort ?_).symm
  intro a _ b _
  rw [h, h]

/-- Names are listed in the order of their bytes. -/
def ByteOrdered (names : List Name) : Prop :=
  names.Pairwise fun a b => Text.bytes a ≤ Text.bytes b

/-- The names of sorted members stand in the order of their bytes. -/
theorem byteOrdered_sortByName (name : α → Name) (members : List α) :
    ByteOrdered ((sortByName name members).map name) := by
  refine List.pairwise_map.mpr ((pairwise_sortByName name members).imp ?_)
  exact Text.bytes_le_iff.mpr

/-- Sorting a second time does nothing, if what is done to the members a second time does
nothing either. -/
theorem sortByName_map_map (name : α → Name) (f : α → α) (hname : ∀ a, name (f a) = name a)
    (hf : ∀ a ∈ members, f (f a) = f a) :
    sortByName name ((sortByName name (members.map f)).map f) =
      sortByName name (members.map f) := by
  have hfixed : (sortByName name (members.map f)).map f = sortByName name (members.map f) := by
    rw [← sortByName_map f name hname, List.map_map]
    exact congrArg _ (List.map_congr_left hf)
  rw [hfixed]
  exact sortByName_of_pairwise (pairwise_sortByName name _)

end SortByName

/-! ### Members -/

/-- A field with its sub-selections sorted. -/
def ObjectField.sorted (o : ObjectField) : ObjectField :=
  { o with selectionSet := o.selectionSet.sorted }

/-- An inline fragment with its selections sorted. -/
def InlineFragment.sorted (i : InlineFragment) : InlineFragment :=
  { i with selectionSet := i.selectionSet.sorted }

/-- A field with sub-selections, without any location. -/
def ObjectField.strip (o : ObjectField) : ObjectField :=
  ⟨o.field.strip, o.selectionSet.strip, o.isAmbiguous⟩

/-- An inline fragment without any location. -/
def InlineFragment.strip (i : InlineFragment) : InlineFragment :=
  ⟨i.condition, i.directives.map Directive.strip, i.selectionSet.strip⟩

/-- The identifier of an inline fragment has no locations. -/
theorem InlineFragment.typeIdentifier_strip (i : InlineFragment) :
    i.strip.typeIdentifier = i.typeIdentifier := by
  rw [typeIdentifier, typeIdentifier, strip, directivesSignature_strip]

namespace SelectionSet

private theorem sortedObjects_eq_map (objects : List ObjectField) :
    sortedObjects objects = objects.map ObjectField.sorted := by
  induction objects with
  | nil => rfl
  | cons first rest ih =>
      cases first
      rw [sortedObjects, ih, List.map_cons, ObjectField.sorted]

private theorem sortedInlines_eq_map (inlines : List InlineFragment) :
    sortedInlines inlines = inlines.map InlineFragment.sorted := by
  induction inlines with
  | nil => rfl
  | cons first rest ih =>
      cases first
      rw [sortedInlines, ih, List.map_cons, InlineFragment.sorted]

/-- A sorted selection set: every list is sorted, and every member. -/
theorem sorted_eq (s : SelectionSet) :
    s.sorted =
      { s with
        scalars := sortByName SelectedField.responseKey s.scalars
        spreads := sortByName Spread.name s.spreads
        objects := sortByName (fun o => o.field.responseKey) (s.objects.map ObjectField.sorted)
        inlines := sortByName InlineFragment.typeIdentifier
          (s.inlines.map InlineFragment.sorted) } := by
  cases s
  rw [sorted, sortedObjects_eq_map, sortedInlines_eq_map]

private theorem stripObjects_eq_map (objects : List ObjectField) :
    stripObjects objects = objects.map ObjectField.strip := by
  induction objects with
  | nil => rfl
  | cons first rest ih =>
      cases first
      rw [stripObjects, ih, List.map_cons, ObjectField.strip]

private theorem stripInlines_eq_map (inlines : List InlineFragment) :
    stripInlines inlines = inlines.map InlineFragment.strip := by
  induction inlines with
  | nil => rfl
  | cons first rest ih =>
      cases first
      rw [stripInlines, ih, List.map_cons, InlineFragment.strip]

/-- A selection set without locations: every member is, and nothing else changes. -/
theorem strip_eq (s : SelectionSet) :
    s.strip =
      { s with
        traversed := s.traversed.map SelectedField.strip
        scalars := s.scalars.map SelectedField.strip
        spreads := s.spreads.map Spread.strip
        objects := s.objects.map ObjectField.strip
        inlines := s.inlines.map InlineFragment.strip } := by
  cases s
  rw [strip, stripObjects_eq_map, stripInlines_eq_map]

/-! ### Identifiers -/

/-- A property holds of the identifiers of each of the four lists of a selection set: response keys,
names of fragments, and names of the types that are generated for inline fragments. -/
structure Identified (P : List Name → Prop) (s : SelectionSet) : Prop where
  scalars : P (s.scalars.map SelectedField.responseKey)
  spreads : P (s.spreads.map Spread.name)
  objects : P (s.objects.map fun o => o.field.responseKey)
  inlines : P (s.inlines.map InlineFragment.typeIdentifier)

/-- In each list of a selection set the identifiers are in the order of their bytes. -/
def InByteOrder : SelectionSet → Prop := Identified ByteOrdered

/-- In each list of a selection set the identifiers are different. -/
def IdentifiersDistinct : SelectionSet → Prop := Identified List.Nodup

/-- The lists of a sorted selection set stand in the order of bytes. -/
theorem inByteOrder_sorted (s : SelectionSet) : s.sorted.InByteOrder := by
  rw [sorted_eq]
  exact ⟨byteOrdered_sortByName _ _, byteOrdered_sortByName _ _, byteOrdered_sortByName _ _,
    byteOrdered_sortByName _ _⟩

/-- Identifiers do not depend on locations. -/
theorem identified_strip_iff {P : List Name → Prop} {s : SelectionSet} :
    s.strip.Identified P ↔ s.Identified P := by
  have hscalars : s.strip.scalars.map SelectedField.responseKey =
      s.scalars.map SelectedField.responseKey := by
    rw [strip_eq, List.map_map]
    rfl
  have hspreads : s.strip.spreads.map Spread.name = s.spreads.map Spread.name := by
    rw [strip_eq, List.map_map]
    rfl
  have hobjects : (s.strip.objects.map fun o => o.field.responseKey) =
      s.objects.map fun o => o.field.responseKey := by
    rw [strip_eq, List.map_map]
    rfl
  have hinlines : s.strip.inlines.map InlineFragment.typeIdentifier =
      s.inlines.map InlineFragment.typeIdentifier := by
    simp only [strip_eq, List.map_map, Function.comp_def, InlineFragment.typeIdentifier_strip]
  constructor
  · rintro ⟨h₁, h₂, h₃, h₄⟩
    exact ⟨hscalars ▸ h₁, hspreads ▸ h₂, hobjects ▸ h₃, hinlines ▸ h₄⟩
  · rintro ⟨h₁, h₂, h₃, h₄⟩
    exact ⟨hscalars ▸ h₁, hspreads ▸ h₂, hobjects ▸ h₃, hinlines ▸ h₄⟩

/-! ### Every depth -/

/-- Sorting puts the lists at every depth in order. -/
theorem everywhere_inByteOrder_sorted (s : SelectionSet) : s.sorted.Everywhere InByteOrder := by
  induction s using SelectionSet.induction with
  | step s ihobjects ihinlines =>
      refine everywhere_iff.mpr ⟨s.inByteOrder_sorted, ?_, ?_⟩
      · intro o ho
        rw [sorted_eq, (sortByName_perm _ _).mem_iff] at ho
        obtain ⟨source, hsource, rfl⟩ := List.mem_map.mp ho
        exact ihobjects source hsource
      · intro i hi
        rw [sorted_eq, (sortByName_perm _ _).mem_iff] at hi
        obtain ⟨source, hsource, rfl⟩ := List.mem_map.mp hi
        exact ihinlines source hsource

/-- Sorting changes nothing but the order of siblings. -/
theorem rearranged_sorted (s : SelectionSet) : s.Rearranged s.sorted := by
  induction s using SelectionSet.induction with
  | step s ihobjects ihinlines =>
      have hobjects : List.Forall₂ (ObjectField.Matches Rearranged) s.objects
          (s.objects.map ObjectField.sorted) := by
        rw [List.forall₂_map_right_iff, List.forall₂_same]
        exact fun o ho => ⟨rfl, rfl, ihobjects o ho⟩
      have hinlines : List.Forall₂ (InlineFragment.Matches Rearranged) s.inlines
          (s.inlines.map InlineFragment.sorted) := by
        rw [List.forall₂_map_right_iff, List.forall₂_same]
        exact fun i hi => ⟨rfl, rfl, ihinlines i hi⟩
      rw [sorted_eq]
      exact rearranged_iff.mpr ⟨rfl, rfl, rfl, (sortByName_perm _ _).symm,
        (sortByName_perm _ _).symm, ⟨_, hobjects, (sortByName_perm _ _).symm⟩,
        ⟨_, hinlines, (sortByName_perm _ _).symm⟩⟩

/-- What is sorted stays as it is. -/
theorem sorted_sorted (s : SelectionSet) : s.sorted.sorted = s.sorted := by
  induction s using SelectionSet.induction with
  | step s ihobjects ihinlines =>
      have hobject : ∀ o ∈ s.objects, o.sorted.sorted = o.sorted := by
        intro o ho
        rw [ObjectField.sorted, ObjectField.sorted, ihobjects o ho]
      have hinline : ∀ i ∈ s.inlines, i.sorted.sorted = i.sorted := by
        intro i hi
        rw [InlineFragment.sorted, InlineFragment.sorted, ihinlines i hi]
      have hobjects := sortByName_map_map (fun o => o.field.responseKey) ObjectField.sorted
        (fun _ => rfl) hobject
      have hinlines := sortByName_map_map InlineFragment.typeIdentifier InlineFragment.sorted
        (fun _ => rfl) hinline
      have hscalars :=
        sortByName_of_pairwise (pairwise_sortByName SelectedField.responseKey s.scalars)
      have hspreads := sortByName_of_pairwise (pairwise_sortByName Spread.name s.spreads)
      rw [sorted_eq s.sorted, sorted_eq s]
      simp only [hscalars, hspreads, hobjects, hinlines]

/-- Rearranged selection sets have equal sorted copies if siblings are told apart by their
identifiers. -/
theorem sorted_eq_of_rearranged {s other : SelectionSet} (h : s.Rearranged other)
    (hdistinct : s.Everywhere IdentifiersDistinct) : s.sorted = other.sorted := by
  induction s using SelectionSet.induction generalizing other with
  | step s ihobjects ihinlines =>
      have hmatches := rearranged_iff.mp h
      obtain ⟨hhere, hbelow, hinside⟩ := everywhere_iff.mp hdistinct
      have hobjects : (s.objects.map ObjectField.sorted).Perm
          (other.objects.map ObjectField.sorted) := by
        refine hmatches.objects.map_perm fun o ho p hop => ?_
        rw [ObjectField.sorted, ObjectField.sorted, hop.field, hop.isAmbiguous,
          ihobjects o ho hop.selectionSet (hbelow o ho)]
      have hinlines : (s.inlines.map InlineFragment.sorted).Perm
          (other.inlines.map InlineFragment.sorted) := by
        refine hmatches.inlines.map_perm fun i hi j hij => ?_
        rw [InlineFragment.sorted, InlineFragment.sorted, hij.condition, hij.directives,
          ihinlines i hi hij.selectionSet (hinside i hi)]
      -- Sorting what is inside a member leaves its identifier as it is.
      have hkeys : ((s.objects.map ObjectField.sorted).map fun o => o.field.responseKey).Nodup := by
        rw [List.map_map]
        exact hhere.objects
      have hidentifiers :
          ((s.inlines.map InlineFragment.sorted).map InlineFragment.typeIdentifier).Nodup := by
        rw [List.map_map]
        exact hhere.inlines
      rw [sorted_eq, sorted_eq other, hmatches.typeName, hmatches.kind, hmatches.traversed,
        sortByName_eq_of_perm hmatches.scalars hhere.scalars,
        sortByName_eq_of_perm hmatches.spreads hhere.spreads,
        sortByName_eq_of_perm hobjects hkeys, sortByName_eq_of_perm hinlines hidentifiers]

/-- Selection sets with equal sorted copies are rearranged. -/
theorem rearranged_of_sorted_eq {s other : SelectionSet} (h : s.sorted = other.sorted) :
    s.Rearranged other := by
  have hs := s.rearranged_sorted
  rw [h] at hs
  exact hs.trans other.rearranged_sorted.symm

/-! ### Locations -/

/-- Locations can be taken away before sorting or after it. -/
theorem sorted_strip (s : SelectionSet) : s.strip.sorted = s.sorted.strip := by
  induction s using SelectionSet.induction with
  | step s ihobjects ihinlines =>
      have hobjects : (s.objects.map ObjectField.strip).map ObjectField.sorted =
          (s.objects.map ObjectField.sorted).map ObjectField.strip := by
        rw [List.map_map, List.map_map, List.map_inj_left]
        intro o ho
        simp only [Function.comp_apply, ObjectField.strip, ObjectField.sorted, ihobjects o ho]
      have hinlines : (s.inlines.map InlineFragment.strip).map InlineFragment.sorted =
          (s.inlines.map InlineFragment.sorted).map InlineFragment.strip := by
        rw [List.map_map, List.map_map, List.map_inj_left]
        intro i hi
        simp only [Function.comp_apply, InlineFragment.strip, InlineFragment.sorted, ihinlines i hi]
      have hscalar : ∀ f : SelectedField, f.strip.responseKey = f.responseKey := fun _ => rfl
      have hspread : ∀ p : Spread, p.strip.name = p.name := fun _ => rfl
      have hobject : ∀ o : ObjectField, o.strip.field.responseKey = o.field.responseKey :=
        fun _ => rfl
      rw [sorted_eq, strip_eq s.sorted, sorted_eq s, strip_eq s]
      simp only [hobjects, hinlines, sortByName_map _ SelectedField.responseKey hscalar,
        sortByName_map _ Spread.name hspread,
        sortByName_map _ (fun o : ObjectField => o.field.responseKey) hobject,
        sortByName_map _ InlineFragment.typeIdentifier InlineFragment.typeIdentifier_strip]

/-- What holds at every depth does so without locations. -/
theorem everywhere_strip {P : SelectionSet → Prop} {s : SelectionSet} (h : s.Everywhere P)
    (hP : ∀ inner : SelectionSet, P inner → P inner.strip) : s.strip.Everywhere P := by
  induction s using SelectionSet.induction with
  | step s ihobjects ihinlines =>
      obtain ⟨hhere, hobjects, hinlines⟩ := everywhere_iff.mp h
      refine everywhere_iff.mpr ⟨hP s hhere, ?_, ?_⟩
      · intro o ho
        rw [strip_eq] at ho
        obtain ⟨source, hsource, rfl⟩ := List.mem_map.mp ho
        exact ihobjects source hsource (hobjects source hsource)
      · intro i hi
        rw [strip_eq] at hi
        obtain ⟨source, hsource, rfl⟩ := List.mem_map.mp hi
        exact ihinlines source hsource (hinlines source hsource)

/-- Without regard to locations, rearranged selection sets have the same sorted copies if siblings
are told apart by their identifiers. -/
theorem rearranged_strip_iff {s other : SelectionSet}
    (hdistinct : s.Everywhere IdentifiersDistinct) :
    s.strip.Rearranged other.strip ↔ s.sorted.Same other.sorted := by
  have hstripped : s.strip.Everywhere IdentifiersDistinct :=
    everywhere_strip hdistinct fun _ => identified_strip_iff.mpr
  rw [Same, ← sorted_strip, ← sorted_strip]
  exact ⟨fun h => sorted_eq_of_rearranged h hstripped, rearranged_of_sorted_eq⟩

/-- The sorted copy of a selection set is a canonical form. It has the same members in each list, at
every depth, with their identifiers in the order of their bytes, and sorting it again changes
nothing. Selection sets whose siblings have different identifiers have equal sorted copies exactly
if they differ in the order of siblings only, and have the same sorted copies, locations apart,
exactly if they differ in locations and in the order of siblings only. -/
theorem sorted_canonical (s : SelectionSet) :
    s.Rearranged s.sorted ∧ s.sorted.Everywhere InByteOrder ∧ s.sorted.sorted = s.sorted ∧
      ∀ other : SelectionSet, s.Everywhere IdentifiersDistinct →
        (s.Rearranged other ↔ s.sorted = other.sorted) ∧
        (s.strip.Rearranged other.strip ↔ s.sorted.Same other.sorted) := by
  refine ⟨s.rearranged_sorted, s.everywhere_inByteOrder_sorted, s.sorted_sorted, ?_⟩
  intro other hdistinct
  exact ⟨⟨fun h => sorted_eq_of_rearranged h hdistinct, rearranged_of_sorted_eq⟩,
    rearranged_strip_iff hdistinct⟩

/-- A selection set with the given response keys, and once more inside a field. -/
def twoLevels (keys : List Name) (isAmbiguous : Bool) : SelectionSet :=
  let fields : List SelectedField :=
    keys.map fun key => { SelectedField.typename with aliasName := some key }
  ⟨"Node", .interface, [], fields, [],
    [⟨.typename, ⟨"Node", .interface, [], fields, [], [], []⟩, isAmbiguous⟩], []⟩

/-- The letter `é` comes behind `z`, at both depths and in whatever order the two are given. A
selection set with another mark on its field is no rearrangement. -/
theorem sorted_canonical_twoLevels :
    let a := twoLevels ["é", "z"] false
    a.Everywhere IdentifiersDistinct ∧ a.Rearranged (twoLevels ["z", "é"] false) ∧
      a.sorted = twoLevels ["z", "é"] false ∧ a.sorted.Everywhere InByteOrder ∧
      ¬ a.Rearranged (twoLevels ["z", "é"] true) := by
  intro a
  have hdistinct : a.Everywhere IdentifiersDistinct := by
    have hinner : ∀ o ∈ a.objects, o.selectionSet.Everywhere IdentifiersDistinct := by
      intro o ho
      rw [List.mem_singleton.mp ho]
      exact everywhere_iff.mpr ⟨⟨by decide, by decide, by decide, by decide⟩, nofun, nofun⟩
    exact everywhere_iff.mpr ⟨⟨by decide, by decide, by decide, by decide⟩, hinner, nofun⟩
  obtain ⟨_, hordered, _, hcanonical⟩ := sorted_canonical a
  have hsorted : a.sorted = twoLevels ["z", "é"] false := by cbv
  have hother : ∀ mark, (twoLevels ["z", "é"] mark).sorted = twoLevels ["z", "é"] mark := by
    intro mark
    cases mark <;> cbv
  have hmarks : twoLevels ["z", "é"] false ≠ twoLevels ["z", "é"] true := by decide
  refine ⟨hdistinct, ?_, hsorted, hordered, fun h => hmarks ?_⟩
  · rw [(hcanonical _ hdistinct).1, hsorted, hother]
  · rw [← hsorted, (hcanonical _ hdistinct).1.mp h, hother]

end SelectionSet

end QueryCompiler

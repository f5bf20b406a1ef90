import Mathlib.Data.List.Perm.Basic
import QueryCompiler.Proofs.Lists
import QueryCompiler.SelectionSet.Basic

/-!
# Selection sets up to the order of siblings

Two selection sets are rearranged if they differ in the order of siblings only, at any depth: every
list of the one is a permutation of that of the other, and so are the lists inside corresponding
fields and inline fragments. This can be turned around, and it can be chained.
-/

namespace QueryCompiler

/-! ### Lists whose members correspond in some order -/

/-- The members of a list are related to those of another one by one, in some order. -/
def PermBy {α : Type} (R : α → α → Prop) (as bs : List α) : Prop :=
  ∃ cs, List.Forall₂ R as cs ∧ cs.Perm bs

namespace PermBy

variable {α : Type} {R S : α → α → Prop} {as bs cs : List α}

private theorem nil_iff : PermBy R [] bs ↔ bs = [] := by
  constructor
  · rintro ⟨others, hothers, hperm⟩
    cases hothers
    exact List.nil_perm.mp hperm
  · rintro rfl
    exact ⟨[], .nil, .refl _⟩

/-- The first member is related to one of the other list, and the rest to what is left there. -/
theorem cons_iff {a : α} : PermBy R (a :: as) bs ↔
    ∃ front b back, bs = front ++ b :: back ∧ R a b ∧ PermBy R as (front ++ back) := by
  constructor
  · rintro ⟨others, hothers, hperm⟩
    cases hothers with
    | @cons _ b _ rest hab hrest =>
        obtain ⟨front, back, rfl⟩ := List.append_of_mem (hperm.subset List.mem_cons_self)
        have hleft : rest.Perm (front ++ back) :=
          (List.perm_cons b).mp (hperm.trans List.perm_middle)
        exact ⟨front, b, back, rfl, hab, rest, hrest, hleft⟩
  · rintro ⟨front, b, back, rfl, hab, rest, hrest, hperm⟩
    exact ⟨b :: rest, .cons hab hrest, (hperm.cons b).trans List.perm_middle.symm⟩

theorem symm (h : PermBy R as bs) (hsymm : ∀ a ∈ as, ∀ b, R a b → S b a) : PermBy S bs as := by
  obtain ⟨others, hothers, hperm⟩ := h
  have hback : List.Forall₂ (fun a b => S b a) as others := by
    have hboth := (List.forall₂_and_left as others).mpr ⟨hsymm, hothers⟩
    exact hboth.imp fun a b hab => hab.1 b hab.2
  exact List.perm_comp_forall₂ hperm.symm hback.flip

theorem trans (h : PermBy R as bs) (h' : PermBy R bs cs)
    (htrans : ∀ a ∈ as, ∀ b c, R a b → R b c → S a c) : PermBy S as cs := by
  obtain ⟨others, hothers, hperm⟩ := h
  obtain ⟨lasts, hlasts, hperm'⟩ := h'
  -- What corresponds to the second list corresponds to every order of it.
  obtain ⟨middles, hmiddles, hmiddle⟩ := List.perm_comp_forall₂ hperm hlasts
  have hboth := (List.forall₂_and_left as others).mpr ⟨htrans, hothers⟩
  exact ⟨middles, forall₂_comp hboth hmiddles fun a b c hab hbc => hab.1 b c hab.2 hbc,
    hmiddle.trans hperm'⟩

/-- What related members become alike gives the same list in some order. -/
theorem map_perm {β : Type} {f : α → β} (h : PermBy R as bs)
    (hf : ∀ a ∈ as, ∀ b, R a b → f a = f b) : (as.map f).Perm (bs.map f) := by
  obtain ⟨others, hothers, hperm⟩ := h
  have hboth := (List.forall₂_and_left as others).mpr ⟨hf, hothers⟩
  rw [map_eq_map_of_forall₂ hboth fun a b hab => hab.1 b hab.2]
  exact hperm.map f

end PermBy

/-! ### Selection sets -/

/-- Induction over a selection set: the selection sets directly inside it may be taken for
granted. -/
theorem SelectionSet.induction {motive : SelectionSet → Prop}
    (step : ∀ s : SelectionSet, (∀ o ∈ s.objects, motive o.selectionSet) →
      (∀ i ∈ s.inlines, motive i.selectionSet) → motive s)
    (s : SelectionSet) : motive s := by
  refine @SelectionSet.rec motive (fun o => motive o.selectionSet) (fun i => motive i.selectionSet)
    (fun objects => ∀ o ∈ objects, motive o.selectionSet)
    (fun inlines => ∀ i ∈ inlines, motive i.selectionSet) ?_ ?_ ?_ ?_ ?_ ?_ ?_ s
  · intro typeName kind traversed scalars spreads objects inlines hobjects hinlines
    exact step _ hobjects hinlines
  · exact fun _ _ _ h => h
  · exact fun _ _ _ h => h
  · exact nofun
  · exact fun _ _ hfirst hrest => List.forall_mem_cons.mpr ⟨hfirst, hrest⟩
  · exact nofun
  · exact fun _ _ hfirst hrest => List.forall_mem_cons.mpr ⟨hfirst, hrest⟩

/-- Two fields with sub-selections are the same outside, and related inside. -/
structure ObjectField.Matches (R : SelectionSet → SelectionSet → Prop) (o p : ObjectField) :
    Prop where
  field : o.field = p.field
  isAmbiguous : o.isAmbiguous = p.isAmbiguous
  selectionSet : R o.selectionSet p.selectionSet

/-- Two inline fragments are the same outside, and related inside. -/
structure InlineFragment.Matches (R : SelectionSet → SelectionSet → Prop) (i j : InlineFragment) :
    Prop where
  condition : i.condition = j.condition
  directives : i.directives = j.directives
  selectionSet : R i.selectionSet j.selectionSet

namespace SelectionSet

/-- Every list of a selection set is that of another in some order, with what is inside the members
related. -/
structure Matches (R : SelectionSet → SelectionSet → Prop) (a b : SelectionSet) : Prop where
  typeName : a.typeName = b.typeName
  kind : a.kind = b.kind
  traversed : a.traversed = b.traversed
  scalars : a.scalars.Perm b.scalars
  spreads : a.spreads.Perm b.spreads
  objects : PermBy (ObjectField.Matches R) a.objects b.objects
  inlines : PermBy (InlineFragment.Matches R) a.inlines b.inlines

mutual

/-- Two selection sets are the same up to the order of siblings, at every depth. -/
def Rearranged : SelectionSet → SelectionSet → Prop
  | ⟨typeName, kind, traversed, scalars, spreads, objects, inlines⟩, other =>
      typeName = other.typeName ∧ kind = other.kind ∧ traversed = other.traversed ∧
        scalars.Perm other.scalars ∧ spreads.Perm other.spreads ∧
        RearrangedObjects objects other.objects ∧ RearrangedInlines inlines other.inlines

/-- Every field has its counterpart in another list, and nothing else is there. -/
def RearrangedObjects : List ObjectField → List ObjectField → Prop
  | [], others => others = []
  | ⟨field, selectionSet, isAmbiguous⟩ :: rest, others =>
      ∃ front o back, others = front ++ o :: back ∧
        (field = o.field ∧ isAmbiguous = o.isAmbiguous ∧ Rearranged selectionSet o.selectionSet) ∧
        RearrangedObjects rest (front ++ back)

/-- Every inline fragment has its counterpart in another list, and nothing else is there. -/
def RearrangedInlines : List InlineFragment → List InlineFragment → Prop
  | [], others => others = []
  | ⟨condition, directives, selectionSet⟩ :: rest, others =>
      ∃ front i back, others = front ++ i :: back ∧
        (condition = i.condition ∧ directives = i.directives ∧
          Rearranged selectionSet i.selectionSet) ∧
        RearrangedInlines rest (front ++ back)

end

/-- Rearranged fields match in some order. -/
theorem rearrangedObjects_iff {objects others : List ObjectField} :
    RearrangedObjects objects others ↔ PermBy (ObjectField.Matches Rearranged) objects others := by
  induction objects generalizing others with
  | nil => rw [RearrangedObjects, PermBy.nil_iff]
  | cons first rest ih =>
      cases first
      simp only [RearrangedObjects, PermBy.cons_iff, ih]
      refine exists_congr fun front => exists_congr fun o => exists_congr fun back => ?_
      refine and_congr_right fun _ => and_congr_left fun _ => ?_
      exact ⟨fun ⟨hfield, hmark, hset⟩ => ⟨hfield, hmark, hset⟩,
        fun ⟨hfield, hmark, hset⟩ => ⟨hfield, hmark, hset⟩⟩

/-- Rearranged inline fragments match in some order. -/
theorem rearrangedInlines_iff {inlines others : List InlineFragment} :
    RearrangedInlines inlines others ↔
      PermBy (InlineFragment.Matches Rearranged) inlines others := by
  induction inlines generalizing others with
  | nil => rw [RearrangedInlines, PermBy.nil_iff]
  | cons first rest ih =>
      cases first
      simp only [RearrangedInlines, PermBy.cons_iff, ih]
      refine exists_congr fun front => exists_congr fun i => exists_congr fun back => ?_
      refine and_congr_right fun _ => and_congr_left fun _ => ?_
      exact ⟨fun ⟨hcondition, hdirectives, hset⟩ => ⟨hcondition, hdirectives, hset⟩,
        fun ⟨hcondition, hdirectives, hset⟩ => ⟨hcondition, hdirectives, hset⟩⟩

/-- Selection sets are rearranged if their lists are, and what is inside the members too. -/
theorem rearranged_iff {a b : SelectionSet} : a.Rearranged b ↔ a.Matches Rearranged b := by
  cases a
  rw [Rearranged, rearrangedObjects_iff, rearrangedInlines_iff]
  constructor
  · rintro ⟨htype, hkind, htraversed, hscalars, hspreads, hobjects, hinlines⟩
    exact ⟨htype, hkind, htraversed, hscalars, hspreads, hobjects, hinlines⟩
  · rintro ⟨htype, hkind, htraversed, hscalars, hspreads, hobjects, hinlines⟩
    exact ⟨htype, hkind, htraversed, hscalars, hspreads, hobjects, hinlines⟩

namespace Rearranged

theorem symm {a b : SelectionSet} (h : a.Rearranged b) : b.Rearranged a := by
  induction a using SelectionSet.induction generalizing b with
  | step a ihobjects ihinlines =>
      have hab := rearranged_iff.mp h
      refine rearranged_iff.mpr ⟨hab.typeName.symm, hab.kind.symm, hab.traversed.symm,
        hab.scalars.symm, hab.spreads.symm, hab.objects.symm ?_, hab.inlines.symm ?_⟩
      · intro o ho p hop
        exact ⟨hop.field.symm, hop.isAmbiguous.symm, ihobjects o ho hop.selectionSet⟩
      · intro i hi j hij
        exact ⟨hij.condition.symm, hij.directives.symm, ihinlines i hi hij.selectionSet⟩

theorem trans {a b c : SelectionSet} (h : a.Rearranged b) (h' : b.Rearranged c) :
    a.Rearranged c := by
  induction a using SelectionSet.induction generalizing b c with
  | step a ihobjects ihinlines =>
      have hab := rearranged_iff.mp h
      have hbc := rearranged_iff.mp h'
      refine rearranged_iff.mpr ⟨hab.typeName.trans hbc.typeName, hab.kind.trans hbc.kind,
        hab.traversed.trans hbc.traversed, hab.scalars.trans hbc.scalars,
        hab.spreads.trans hbc.spreads, hab.objects.trans hbc.objects ?_,
        hab.inlines.trans hbc.inlines ?_⟩
      · intro o ho p q hop hpq
        exact ⟨hop.field.trans hpq.field, hop.isAmbiguous.trans hpq.isAmbiguous,
          ihobjects o ho hop.selectionSet hpq.selectionSet⟩
      · intro i hi j k hij hjk
        exact ⟨hij.condition.trans hjk.condition, hij.directives.trans hjk.directives,
          ihinlines i hi hij.selectionSet hjk.selectionSet⟩

end Rearranged

end SelectionSet

end QueryCompiler

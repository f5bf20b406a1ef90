import QueryCompiler.Compiled
import QueryCompiler.Proofs.SelectionSet.Resolve

/-!
# What holds at every depth

A property holds everywhere in a selection set if it holds of every selection set that steps lead
to. Merging moves selection sets below others as they are, so a property that holds everywhere
before merging needs to be looked at again in the merged selection sets themselves only.
-/

namespace QueryCompiler

variable {P : SelectionSet → Prop}

namespace SelectionSet

/-- A property holds of a selection set and of all those inside it. -/
def Everywhere (P : SelectionSet → Prop) (s : SelectionSet) : Prop :=
  ∀ steps inner, s.follow? steps = some inner → P inner

/-- What holds everywhere holds here, and everywhere below each field and each inline fragment. -/
theorem everywhere_iff {s : SelectionSet} :
    s.Everywhere P ↔ P s ∧ (∀ o ∈ s.objects, o.selectionSet.Everywhere P) ∧
      ∀ i ∈ s.inlines, i.selectionSet.Everywhere P := by
  constructor
  · intro h
    refine ⟨h [] s rfl, ?_, ?_⟩
    · intro o ho steps inner hinner
      obtain ⟨index, hindex⟩ := List.mem_iff_getElem?.mp ho
      apply h (.object index :: steps)
      rw [follow?, hindex, Option.bind_some, hinner]
    · intro i hi steps inner hinner
      obtain ⟨index, hindex⟩ := List.mem_iff_getElem?.mp hi
      apply h (.inline index :: steps)
      rw [follow?, hindex, Option.bind_some, hinner]
  · rintro ⟨hs, hobjects, hinlines⟩ steps inner hinner
    cases steps with
    | nil =>
        cases hinner
        exact hs
    | cons step rest =>
        cases step with
        | object index =>
            obtain ⟨o, ho, hrest⟩ := Option.bind_eq_some_iff.mp hinner
            exact hobjects o (List.mem_of_getElem? ho) rest inner hrest
        | inline index =>
            obtain ⟨i, hi, hrest⟩ := Option.bind_eq_some_iff.mp hinner
            exact hinlines i (List.mem_of_getElem? hi) rest inner hrest

/-- The parts of merged selection sets are those of the selection sets that were merged. -/
theorem everywhere_followedBy {a : SelectionSet} {others : List SelectionSet}
    (h : P (a.followedBy others)) (ha : a.Everywhere P) (hothers : ∀ b ∈ others, b.Everywhere P) :
    (a.followedBy others).Everywhere P := by
  obtain ⟨_, hobjects, hinlines⟩ := everywhere_iff.mp ha
  refine everywhere_iff.mpr ⟨h, ?_, ?_⟩
  · exact forall_mem_append_flatMap hobjects fun b hb => (everywhere_iff.mp (hothers b hb)).2.1
  · exact forall_mem_append_flatMap hinlines fun b hb => (everywhere_iff.mp (hothers b hb)).2.2

end SelectionSet

/-- A property holds everywhere in the selection set that parts make up, if it holds of the set
itself, everywhere in the parts, and of whatever comes from merging inline fragments of one key. -/
theorem SelectionParts.everywhere_united {parts : SelectionParts} {type : CompositeType}
    {traversed : List SelectedField} (h : P (parts.united type traversed))
    (hobjects : ∀ o ∈ parts.objects, o.selectionSet.Everywhere P)
    (hinlines : ∀ i ∈ parts.inlines, i.selectionSet.Everywhere P)
    (hmerged : ∀ first ∈ parts.inlines, ∀ others : List InlineFragment,
      (∀ other ∈ others, other ∈ parts.inlines ∧ other.mergeKey = first.mergeKey) →
        P (first.followedBy others).selectionSet) :
    (parts.united type traversed).Everywhere P := by
  refine SelectionSet.everywhere_iff.mpr ⟨h, ?_, ?_⟩
  · intro o ho
    obtain ⟨source, hsource, rfl⟩ := List.mem_map.mp ho
    exact hobjects source hsource
  · intro i hi
    obtain ⟨first, others, hfirst, rfl, hothers⟩ :=
      InlineFragment.exists_group_of_mem_unitedAll hi
    refine SelectionSet.everywhere_followedBy (hmerged first hfirst others hothers)
      (hinlines first hfirst) ?_
    intro b hb
    obtain ⟨other, hother, rfl⟩ := List.mem_map.mp hb
    exact hinlines other (hothers other hother).1

end QueryCompiler

import QueryCompiler.Document.Basic

/-!
# Induction over documents

Selections and values contain lists of their own kind. What holds of a selection or value as soon as
it holds of all its direct parts holds of every one.
-/

namespace QueryCompiler

/-- Induction over a selection: the selections directly inside it may be taken for granted. -/
@[elab_as_elim, induction_eliminator]
theorem Selection.induction {motive : Selection → Prop}
    (field : ∀ location aliasName name arguments directives selections,
      (∀ selection ∈ selections, motive selection) →
        motive (.field location aliasName name arguments directives selections))
    (spread : ∀ location name directives, motive (.spread location name directives))
    (inline : ∀ location condition directives selections,
      (∀ selection ∈ selections, motive selection) →
        motive (.inline location condition directives selections))
    (selection : Selection) : motive selection := by
  refine @Selection.rec motive (fun selections => ∀ selection ∈ selections, motive selection)
    field spread inline ?_ ?_ selection
  · simp
  · intro first rest hfirst hrest
    exact List.forall_mem_cons.mpr ⟨hfirst, hrest⟩

/-- Induction over a value: the items of a list and the fields of an object may be taken for
granted. -/
@[elab_as_elim, induction_eliminator]
theorem Value.induction {motive : Value → Prop}
    (atom : ∀ location content, motive (.atom location content))
    (list : ∀ location items, (∀ item ∈ items, motive item) → motive (.list location items))
    (object : ∀ location fields, (∀ field ∈ fields, motive field.2) →
      motive (.object location fields))
    (value : Value) : motive value := by
  refine @Value.rec motive (fun items => ∀ item ∈ items, motive item)
    (fun fields => ∀ field ∈ fields, motive field.2) (fun field => motive field.2)
    atom list object ?_ ?_ ?_ ?_ ?_ value
  · simp
  · intro first rest hfirst hrest
    exact List.forall_mem_cons.mpr ⟨hfirst, hrest⟩
  · simp
  · intro first rest hfirst hrest
    exact List.forall_mem_cons.mpr ⟨hfirst, hrest⟩
  · intro _ _ h
    exact h

end QueryCompiler

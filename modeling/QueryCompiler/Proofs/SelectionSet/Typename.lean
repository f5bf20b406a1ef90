import QueryCompiler.Proofs.SelectionSet.Origin

/-!
# How often `__typename` is selected

Every selection set asks for `__typename`, whether or not the document does. Where the document asks
for it several times in one pair of braces, all of these stay. When inline fragments are merged,
only the `__typename` fields of the first of them are kept.
-/

namespace QueryCompiler

open Outcome

/-- The number of `__typename` fields. -/
def SelectionSet.typenames (set : SelectionSet) : Nat :=
  set.scalars.countP SelectedField.isTypename

/-- A `__typename` is added only where there is none. -/
theorem SelectionParts.countP_scalarsWithTypename (parts : SelectionParts) :
    parts.scalarsWithTypename.countP SelectedField.isTypename =
      max 1 (parts.scalars.countP SelectedField.isTypename) := by
  unfold scalarsWithTypename
  by_cases h : parts.scalars.any SelectedField.isTypename = true
  · have hsome : 0 < parts.scalars.countP SelectedField.isTypename := by
      rw [List.countP_pos_iff]
      exact List.any_eq_true.mp h
    rw [if_pos h]
    omega
  · have hnone : parts.scalars.countP SelectedField.isTypename = 0 := by
      rw [List.countP_eq_zero]
      intro field hfield htypename
      exact h (List.any_eq_true.mpr ⟨field, hfield, htypename⟩)
    rw [if_neg h, List.countP_append, hnone]
    rfl

/-- The selections of others bring no `__typename`. -/
theorem SelectionSet.typenames_followedBy (a : SelectionSet) (others : List SelectionSet) :
    (a.followedBy others).typenames = a.typenames := by
  have hothers : (others.flatMap fun b => b.scalars.filter fun field => !field.isTypename).countP
      SelectedField.isTypename = 0 := by
    rw [List.countP_eq_zero]
    intro field hfield
    obtain ⟨b, _, hb⟩ := List.mem_flatMap.mp hfield
    simpa using (List.mem_filter.mp hb).2
  rw [typenames, followedBy, List.countP_append, hothers, Nat.add_zero, typenames]

/-- `__typename` is selected as often as it is written, and at least once. -/
theorem Written.Makes.typenames_eq {w : Written} {s : Scope} {traversed : List SelectedField}
    {set : SelectionSet} (h : w.Makes s traversed set) : set.typenames = max 1 w.typenames := by
  obtain ⟨parts, hparts, rfl⟩ := h.exists_comeFrom
  rw [← hparts.typenames]
  exact parts.countP_scalarsWithTypename

/-- A selection set asks for `__typename` as often as the first of the selections behind it, but at
least once. -/
theorem SelectionSet.MadeFrom.typenames_eq {s : Scope} {set : SelectionSet} {o : Origin}
    (h : set.MadeFrom s o) : set.typenames = max 1 o.first.typenames := by
  obtain ⟨path, traversed, first, others, hmembers, rfl⟩ := h
  cases hmembers with
  | cons hfirst _ =>
      rw [typenames_followedBy]
      exact hfirst.typenames_eq

namespace Registry

variable {r : Registry} {c : Catalog} {compiled : Compiled}

/-- At every depth of what is compiled there is a `__typename`. There is exactly one everywhere if
and only if the document never asks for it twice in selections that stand first among those that are
merged. -/
theorem typenames_of_compile (h : r.compile c = .ok compiled) :
    r.Mirrors c compiled (fun set o => set.typenames = max 1 o.first.typenames) ∧
      compiled.Everywhere (fun set => 0 < set.typenames) ∧
      (compiled.Everywhere (fun set => set.typenames = 1) ↔
        r.Everywhere c fun o => o.first.typenames ≤ 1) := by
  refine ⟨mirrors_of_compile h fun _ _ _ _ hmade => hmade.typenames_eq, ?_, ?_⟩
  · have hsome := everywhere_iff_of_compile (P := fun set => 0 < set.typenames)
      (Q := fun _ => True) h ?_
    · exact hsome.mpr fun _ _ _ _ _ _ => trivial
    · intro s _ set o hmade
      have hcount := hmade.typenames_eq
      simp only [iff_true]
      omega
  · refine everywhere_iff_of_compile h ?_
    intro s _ set o hmade
    have hcount := hmade.typenames_eq
    omega

end Registry

/-- A query whose two inline fragments are merged. The first asks for `__typename` twice, once under
an alias, and the second does so once. -/
def Registry.repeatedTypename : Registry where
  sources := .empty
  operations := .ofList [("Kinds", ⟨none, .query, some "Kinds", [], [],
    [.inline none (some "Person") [] [
        .field none none "__typename" [] [] [],
        .field none (some "kind") "__typename" [] [] []],
      .inline none (some "Person") [] [
        .field none none "__typename" [] [] [], .field none none "id" [] [] []]]⟩)]
  fragments := .empty

namespace Registry

/-- What the query is compiled to. -/
theorem compile_repeatedTypename :
    ∃ compiled set inner, Registry.repeatedTypename.compile .person = .ok compiled ∧
      set ∈ compiled.selectionSets ∧ set.follow? [.inline 0] = some inner ∧
      set.typenames = 1 ∧ inner.typenames = 2 := by
  have hcomputed : ((Registry.repeatedTypename.compile .person).toOption.bind fun compiled =>
      compiled.selectionSets.head?.bind fun set =>
        (set.follow? [.inline 0]).map fun inner => (set.typenames, inner.typenames)) =
          some (1, 2) := by
    cbv
  simp only [Option.bind_eq_some_iff, Option.map_eq_some_iff, toOption_eq_some_iff] at hcomputed
  obtain ⟨compiled, hcompiled, set, hset, inner, hinner, hcounts⟩ := hcomputed
  obtain ⟨honce, htwice⟩ := Prod.mk.inj hcounts
  exact ⟨compiled, set, inner, hcompiled, List.mem_of_mem_head? hset, hinner, honce, htwice⟩

/-- Both `__typename` fields of the first inline fragment are kept. -/
theorem exists_typename_twice :
    ∃ compiled, Registry.repeatedTypename.compile .person = .ok compiled ∧
      ¬ compiled.Everywhere fun set => set.typenames = 1 := by
  obtain ⟨compiled, set, inner, hcompiled, hset, hinner, _, htwice⟩ := compile_repeatedTypename
  refine ⟨compiled, hcompiled, fun hall => ?_⟩
  have honce := hall set hset _ inner hinner
  omega

/-- The query itself asks for no `__typename` and gets one. Below it the first inline fragment
decides. -/
theorem typenames_repeatedTypename :
    ∃ compiled set inner, Registry.repeatedTypename.compile .person = .ok compiled ∧
      set ∈ compiled.selectionSets ∧ set.follow? [.inline 0] = some inner ∧
      set.typenames = 1 ∧ inner.typenames = 2 ∧
      Registry.repeatedTypename.Mirrors .person compiled
        (fun set o => set.typenames = max 1 o.first.typenames) ∧
      ¬ Registry.repeatedTypename.Everywhere .person fun o => o.first.typenames ≤ 1 := by
  obtain ⟨compiled, set, inner, hcompiled, hset, hinner, honce, htwice⟩ :=
    compile_repeatedTypename
  obtain ⟨hmirrors, _, honly⟩ := typenames_of_compile hcompiled
  refine ⟨compiled, set, inner, hcompiled, hset, hinner, honce, htwice, hmirrors, fun hall => ?_⟩
  have hinnerOnce := honly.mpr hall set hset _ inner hinner
  omega

end Registry

end QueryCompiler

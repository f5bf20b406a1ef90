import QueryCompiler.Proofs.Registry
import QueryCompiler.Proofs.SelectionSet.Lookup
import QueryCompiler.Proofs.Validity

/-!
# The order of documents

Which documents come first decides in which order things are listed and nothing else. Definitions
are taken or not as a set; a registry is read only by looking up names, by compiling each definition
on its own and by uniting what all of them need; and none of these depends on an order.
-/

namespace QueryCompiler

/-! ### Registries that list the same definitions -/

/-- Compiled documents that differ in order at most: the same is found under every name. -/
structure Compiled.SameUpToOrder (a b : Compiled) : Prop where
  operations : ∀ name, a.operations.get? name = b.operations.get? name
  fragments : ∀ name, a.fragments.get? name = b.fragments.get? name
  enums : ∀ name, a.dependencies.enums.get? name = b.dependencies.enums.get? name
  inputObjects : ∀ name,
    a.dependencies.inputObjects.get? name = b.dependencies.inputObjects.get? name

/-- The members are the dependencies of the compiled operations and fragments. -/
theorem Compiled.mem_members_iff {compiled : Compiled} {member : Dependencies} :
    member ∈ compiled.members ↔
      (∃ name o, compiled.operations.get? name = some o ∧ o.dependencies = member) ∨
        ∃ name f, compiled.fragments.get? name = some f ∧ f.dependencies = member := by
  simp only [members, List.mem_append, List.mem_map, OrderedMap.mem_values_iff]
  constructor
  · rintro (⟨o, ⟨name, ho⟩, hmember⟩ | ⟨f, ⟨name, hf⟩, hmember⟩)
    · exact Or.inl ⟨name, o, ho, hmember⟩
    · exact Or.inr ⟨name, f, hf, hmember⟩
  · rintro (⟨name, o, ho, hmember⟩ | ⟨name, f, hf, hmember⟩)
    · exact Or.inl ⟨o, ⟨name, ho⟩, hmember⟩
    · exact Or.inr ⟨f, ⟨name, hf⟩, hmember⟩

namespace Registry

/-- Registries that differ in order and sources at most: the same is found under every name. -/
structure SameUpToOrder (r s : Registry) : Prop where
  operations : ∀ name, r.operations.get? name = s.operations.get? name
  fragments : ∀ name, r.fragments.get? name = s.fragments.get? name

namespace SameUpToOrder

variable {r s : Registry} {c : Catalog} {a b : Compiled}

/-- The order does not matter in either direction. -/
theorem symm (h : r.SameUpToOrder s) : s.SameUpToOrder r :=
  ⟨fun name => (h.operations name).symm, fun name => (h.fragments name).symm⟩

/-- An operation compiles alike among fragments in another order. -/
theorem compile_operation (h : r.SameUpToOrder s) (o : Operation) :
    o.compile c r.fragments = o.compile c s.fragments :=
  Operation.compile_congr fun name _ => h.fragments name

/-- A fragment compiles alike among fragments in another order. -/
theorem compile_fragment (h : r.SameUpToOrder s) (f : Fragment) :
    f.compile c r.fragments = f.compile c s.fragments :=
  Fragment.compile_congr fun name _ => h.fragments name

/-- Definitions can be compiled in either registry if they can in the other. -/
theorem exists_compile (h : r.SameUpToOrder s) (hr : ∃ compiled, r.compile c = .ok compiled) :
    ∃ compiled, s.compile c = .ok compiled := by
  rw [exists_compile_eq_ok_iff] at hr ⊢
  simp only [OrderedMap.mem_values_iff] at hr ⊢
  constructor
  · rintro o ⟨name, ho⟩
    rw [← h.compile_operation]
    exact hr.1 o ⟨name, (h.operations name).trans ho⟩
  · rintro f ⟨name, hf⟩
    rw [← h.compile_fragment]
    exact hr.2 f ⟨name, (h.fragments name).trans hf⟩

/-- What definitions are compiled to does not depend on their order either. -/
theorem compiled (h : r.SameUpToOrder s) (ha : r.compile c = .ok a) (hb : s.compile c = .ok b) :
    a.SameUpToOrder b := by
  have hoperations (name : Name) : a.operations.get? name = b.operations.get? name := by
    apply Option.ext
    intro o
    rw [get?_operations_of_compile ha, get?_operations_of_compile hb, h.operations]
    simp only [h.compile_operation]
  have hfragments (name : Name) : a.fragments.get? name = b.fragments.get? name := by
    apply Option.ext
    intro f
    rw [get?_fragments_of_compile ha, get?_fragments_of_compile hb, h.fragments]
    simp only [h.compile_fragment]
  -- Both need the union of the same members, whichever of these comes first.
  have hmembers (member : Dependencies) : member ∈ a.members ↔ member ∈ b.members := by
    simp only [Compiled.mem_members_iff, hoperations, hfragments]
  refine ⟨hoperations, hfragments, fun name => ?_, fun name => ?_⟩
  · apply Option.ext
    intro type
    rw [(isUnionOf_members ha).enums, (isUnionOf_members hb).enums]
    simp only [hmembers]
  · apply Option.ext
    intro resolved
    rw [(isUnionOf_members ha).inputObjects, (isUnionOf_members hb).inputObjects]
    simp only [hmembers]

end SameUpToOrder

/-! ### Documents in another order -/

variable {r : Registry} {definitions others : List Definition}

/-- Definitions that are taken are taken in every order. -/
theorem Takes.perm (h : r.Takes definitions) (hperm : definitions.Perm others) :
    r.Takes others where
  entries := fun definition hmem => h.entries definition (hperm.mem_iff.mpr hmem)
  operations := (((hperm.filterMap _).append_left _).map _).nodup_iff.mp h.operations
  fragments := (((hperm.filterMap _).append_left _).map _).nodup_iff.mp h.fragments

/-- Definitions that are taken make the same entries in every order. -/
theorem Takes.sameUpToOrder (h : r.Takes definitions) (hperm : definitions.Perm others) :
    (r.extended definitions).SameUpToOrder (r.extended others) where
  operations := by
    apply OrderedMap.get?_eq_of_perm
    rw [extended, extended, OrderedMap.entries_insertAll h.operations,
      OrderedMap.entries_insertAll (h.perm hperm).operations]
    exact (hperm.filterMap _).append_left _
  fragments := by
    apply OrderedMap.get?_eq_of_perm
    rw [extended, extended, OrderedMap.entries_insertAll h.fragments,
      OrderedMap.entries_insertAll (h.perm hperm).fragments]
    exact (hperm.filterMap _).append_left _

/-- A run adds all of its documents exactly if their definitions are taken together. -/
theorem added_eq_self_iff {documents : List Document} :
    r.added documents = documents ↔ r.Takes (documents.flatMap Document.definitions) := by
  constructor
  · intro h
    have htakes := (takes_added r documents).1
    rwa [h] at htakes
  · intro h
    induction documents generalizing r with
    | nil => rfl
    | cons d rest ih =>
        rw [List.flatMap_cons, takes_append_iff] at h
        obtain ⟨htakes, hrest⟩ := h
        rw [added_cons_of_takes htakes, extended_keep, ih (takes_keep_iff.mpr hrest)]

/-- Documents that are all added are all added in every order. -/
theorem added_eq_self_of_perm {documents others : List Document} (hperm : documents.Perm others)
    (h : r.added documents = documents) : r.added others = others :=
  added_eq_self_iff.mpr ((added_eq_self_iff.mp h).perm (hperm.flatMap_right _))

/-- Runs that add the same documents leave the same registry up to order. -/
theorem addAll_sameUpToOrder {documents others : List Document} (hperm : documents.Perm others)
    (h : r.added documents = documents) : (r.addAll documents).SameUpToOrder (r.addAll others) := by
  obtain ⟨htakes, hoperations, hfragments⟩ := takes_added r documents
  obtain ⟨_, hoperations', hfragments'⟩ := takes_added r others
  rw [h] at htakes hoperations hfragments
  rw [added_eq_self_of_perm hperm h] at hoperations' hfragments'
  have hsame := htakes.sameUpToOrder (hperm.flatMap_right _)
  constructor
  · rw [hoperations, hoperations']
    exact hsame.operations
  · rw [hfragments, hfragments']
    exact hsame.fragments

/-- Documents can be added in one order exactly if they can be in any other. If so, they can be
compiled against a catalog after the one run exactly if they can be after the other, to the same
operations, fragments and dependencies. -/
theorem compile_of_perm {documents others : List Document} (hperm : documents.Perm others)
    (c : Catalog) :
    (empty.added documents = documents ↔ empty.added others = others) ∧
    (empty.added documents = documents →
      ((∃ compiled, (empty.addAll documents).compile c = .ok compiled) ↔
        ∃ compiled, (empty.addAll others).compile c = .ok compiled) ∧
      ∀ a b, (empty.addAll documents).compile c = .ok a → (empty.addAll others).compile c = .ok b →
        a.SameUpToOrder b) := by
  refine ⟨⟨added_eq_self_of_perm hperm, added_eq_self_of_perm hperm.symm⟩, fun hadded => ?_⟩
  have hsame := addAll_sameUpToOrder hperm hadded
  exact ⟨⟨hsame.exists_compile, hsame.symm.exists_compile⟩, fun a b => hsame.compiled⟩

end Registry

namespace Document

/-- A query with a variable, that spreads a fragment of `reports`. -/
def search : Document where
  sources := []
  definitions := [
    .operation ⟨none, .query, some "Search",
      [⟨none, "filter", none, .named "Filter", none, []⟩], [],
      [.field none none "hit" [] [] [.spread none "States" []]]⟩]

/-- A query and a fragment that select an enum. -/
def reports : Document where
  sources := []
  definitions := [
    .operation ⟨none, .query, some "Report", [], [],
      [.field none none "hit" [] [] [.field none none "states" [] [] []]]⟩,
    .fragment ⟨none, "States", "Hit", [], [.field none none "states" [] [] []]⟩]

end Document

namespace Registry

/-- The two orders list operations and enums differently, under the same names. -/
theorem compile_search_reports :
    [Document.search, .reports].Perm [.reports, .search] ∧
      empty.added [.search, .reports] = [.search, .reports] ∧
      ∃ a b, (empty.addAll [.search, .reports]).compile .searchable = .ok a ∧
        (empty.addAll [.reports, .search]).compile .searchable = .ok b ∧
        a.operations.keys = ["Search", "Report"] ∧ b.operations.keys = ["Report", "Search"] ∧
        a.dependencies.enums.keys = ["Unit", "State"] ∧
        b.dependencies.enums.keys = ["State", "Unit"] ∧ a.SameUpToOrder b := by
  have hperm : [Document.search, .reports].Perm [.reports, .search] := .swap _ _ _
  have hadded : empty.added [.search, .reports] = [.search, .reports] := by decide
  have hfirst : ((empty.addAll [.search, .reports]).compile .searchable).toOption.map
      (fun compiled => (compiled.operations.keys, compiled.dependencies.enums.keys)) =
        some (["Search", "Report"], ["Unit", "State"]) := by
    cbv
  have hsecond : ((empty.addAll [.reports, .search]).compile .searchable).toOption.map
      (fun compiled => (compiled.operations.keys, compiled.dependencies.enums.keys)) =
        some (["Report", "Search"], ["State", "Unit"]) := by
    cbv
  obtain ⟨a, ha, hkeys⟩ := Option.map_eq_some_iff.mp hfirst
  obtain ⟨b, hb, hkeys'⟩ := Option.map_eq_some_iff.mp hsecond
  have ha := Outcome.toOption_eq_some_iff.mp ha
  have hb := Outcome.toOption_eq_some_iff.mp hb
  obtain ⟨hoperations, henums⟩ := Prod.mk.inj hkeys
  obtain ⟨hoperations', henums'⟩ := Prod.mk.inj hkeys'
  obtain ⟨_, hcompile⟩ := compile_of_perm hperm .searchable
  exact ⟨hperm, hadded, a, b, ha, hb, hoperations, hoperations', henums, henums',
    (hcompile hadded).2 a b ha hb⟩

end Registry

end QueryCompiler

import QueryCompiler.Proofs.OrderedMap
import QueryCompiler.Proofs.Outcome
import QueryCompiler.Registry

/-!
# What compiling a definition consists of

The steps of compiling an operation, a fragment or a whole registry, each with what it has given
when all of them have succeeded.
-/

namespace QueryCompiler

open Outcome

/-- The type that an operation starts from is the composite type that the schema names for it. -/
theorem Scope.rootType_eq_ok_iff {s : Scope} {operation : Operation} {name : Name}
    {type : CompositeType} :
    s.rootType operation name = .ok type ↔
      ∃ root, s.catalog.root? operation.kind = some root ∧
        s.catalog.composite? root = some type := by
  unfold rootType
  cases s.catalog.root? operation.kind with
  | none => simp [violation]
  | some root => cases hroot : s.catalog.composite? root <;> simp [hroot]

/-- An operation is compiled by finding its root type, resolving its variables and selections, and
following the types of its variables. -/
theorem Operation.compile_eq_ok_iff {o : Operation} {c : Catalog}
    {fragments : OrderedMap Name Fragment} {compiled : CompiledOperation} :
    o.compile c fragments = .ok compiled ↔
      ∃ name type parameters set enums needed, o.name = some name ∧
        let s := Scope.start c fragments (.operation o.kind name)
        s.rootType o name = .ok type ∧
        o.parameters.mapM s.resolveVariable = .ok parameters ∧
        s.selectionSet type [] o.selections = .ok (set, enums) ∧
        s.variableDependencies o.parameters = .ok needed ∧
        ⟨o.location, o.kind, name, parameters, o.directives, set,
          (Dependencies.ofEnums enums).extend needed⟩ = compiled := by
  unfold compile
  cases hname : o.name with
  | none => simp
  | some name =>
      simp only [bind_eq_ok_iff, pure_eq_ok_iff, Prod.exists, Option.some.injEq]
      constructor
      · rintro ⟨type, htype, parameters, hparameters, set, enums, hset, needed, hneeded, rfl⟩
        exact ⟨name, type, parameters, set, enums, needed, rfl, htype, hparameters, hset, hneeded,
          rfl⟩
      · rintro ⟨_, type, parameters, set, enums, needed, rfl, htype, hparameters, hset, hneeded,
          rfl⟩
        exact ⟨type, htype, parameters, hparameters, set, enums, hset, needed, hneeded, rfl⟩

/-- A fragment is compiled by resolving its selections on the type of its condition. -/
theorem Fragment.compile_eq_ok_iff {f : Fragment} {c : Catalog}
    {fragments : OrderedMap Name Fragment} {compiled : CompiledFragment} :
    f.compile c fragments = .ok compiled ↔
      ∃ type set enums, c.composite? f.condition = some type ∧
        (Scope.start c fragments (.fragment f.name)).selectionSet type [] f.selections =
          .ok (set, enums) ∧
        ⟨f.location, f.name, f.condition, f.directives, set, Dependencies.ofEnums enums⟩ =
          compiled := by
  unfold compile
  cases htype : c.composite? f.condition with
  | none => simp [Scope.violation]
  | some type =>
      simp only [bind_eq_ok_iff, pure_eq_ok_iff, Prod.exists, Option.some.injEq, exists_and_left,
        exists_eq_left']

/-- Values that were computed one by one and listed by name again are listed as they came. -/
theorem OrderedMap.entries_ofList_of_mapM {α β : Type} {m : OrderedMap Name α}
    {f : α → Except Failure β} {results : List (Name × β)}
    (h : (m.entries.mapM fun (name, a) => do return (name, ← f a)) = .ok results) :
    (OrderedMap.ofList results).entries = results := by
  apply entries_ofList
  rw [map_fst_of_mapM_entries_eq_ok h]
  exact m.nodup

/-- What values that were computed one by one are found under is what they were computed from. -/
theorem OrderedMap.get?_ofList_of_mapM {α β : Type} {m : OrderedMap Name α}
    {f : α → Except Failure β} {results : List (Name × β)}
    (h : (m.entries.mapM fun (name, a) => do return (name, ← f a)) = .ok results) {name : Name}
    {b : β} :
    (OrderedMap.ofList results).get? name = some b ↔ ∃ a, m.get? name = some a ∧ f a = .ok b := by
  simp only [get?_eq_some_iff, entries_ofList_of_mapM h]
  constructor
  · exact mem_of_mapM_entries_eq_ok h
  · rintro ⟨a, hmem, ha⟩
    obtain ⟨other, hother, hcomputed⟩ := exists_mem_of_mapM_entries_eq_ok h hmem
    rw [ha, Except.ok.injEq] at hcomputed
    rwa [hcomputed]

namespace Compiled

/-- The selection sets of all operations and fragments. -/
def selectionSets (compiled : Compiled) : List SelectionSet :=
  compiled.operations.values.map CompiledOperation.selectionSet ++
    compiled.fragments.values.map CompiledFragment.selectionSet

/-- What each of the operations and fragments needs. -/
def members (compiled : Compiled) : List Dependencies :=
  compiled.operations.values.map CompiledOperation.dependencies ++
    compiled.fragments.values.map CompiledFragment.dependencies

end Compiled

namespace Registry

variable {r : Registry} {c : Catalog} {compiled : Compiled}

/-- A registry is compiled by compiling its operations and its fragments one by one. -/
theorem compile_eq_ok_iff :
    r.compile c = .ok compiled ↔
      ∃ operations fragments,
        (r.operations.entries.mapM fun (name, o) =>
          do return (name, ← o.compile c r.fragments)) = .ok operations ∧
        (r.fragments.entries.mapM fun (name, f) =>
          do return (name, ← f.compile c r.fragments)) = .ok fragments ∧
        ⟨c, r.sources, .ofList operations, .ofList fragments,
          (operations.map (fun entry => entry.2.dependencies) ++
            fragments.map (fun entry => entry.2.dependencies)).foldl Dependencies.extend .empty⟩ =
          compiled := by
  simp only [compile, bind_eq_ok_iff, pure_eq_ok_iff, exists_and_left]

/-- Every compiled operation comes from one of the registry. -/
theorem exists_of_mem_operations (h : r.compile c = .ok compiled) {o : CompiledOperation}
    (ho : o ∈ compiled.operations.values) :
    ∃ source ∈ r.operations.values, source.compile c r.fragments = .ok o := by
  obtain ⟨operations, fragments, hoperations, _, rfl⟩ := compile_eq_ok_iff.mp h
  obtain ⟨entry, hentry, rfl⟩ := List.mem_map.mp ho
  obtain ⟨source, hsource, hcompile⟩ :=
    mem_of_mapM_entries_eq_ok (f := (Operation.compile · c r.fragments)) hoperations
      (OrderedMap.mem_entries_ofList hentry)
  exact ⟨source, List.mem_map_of_mem hsource, hcompile⟩

/-- Every compiled fragment comes from one of the registry. -/
theorem exists_of_mem_fragments (h : r.compile c = .ok compiled) {f : CompiledFragment}
    (hf : f ∈ compiled.fragments.values) :
    ∃ source ∈ r.fragments.values, source.compile c r.fragments = .ok f := by
  obtain ⟨operations, fragments, _, hfragments, rfl⟩ := compile_eq_ok_iff.mp h
  obtain ⟨entry, hentry, rfl⟩ := List.mem_map.mp hf
  obtain ⟨source, hsource, hcompile⟩ :=
    mem_of_mapM_entries_eq_ok (f := (Fragment.compile · c r.fragments)) hfragments
      (OrderedMap.mem_entries_ofList hentry)
  exact ⟨source, List.mem_map_of_mem hsource, hcompile⟩

/-- Every operation of the registry is compiled. -/
theorem exists_mem_operations (h : r.compile c = .ok compiled) {source : Operation}
    (hsource : source ∈ r.operations.values) :
    ∃ o ∈ compiled.operations.values, source.compile c r.fragments = .ok o := by
  obtain ⟨operations, fragments, hoperations, _, rfl⟩ := compile_eq_ok_iff.mp h
  obtain ⟨entry, hentry, rfl⟩ := List.mem_map.mp hsource
  obtain ⟨o, hmem, hcompile⟩ := exists_mem_of_mapM_entries_eq_ok
    (f := (Operation.compile · c r.fragments)) hoperations hentry
  refine ⟨o, List.mem_map.mpr ⟨(entry.1, o), ?_, rfl⟩, hcompile⟩
  rw [OrderedMap.entries_ofList_of_mapM (f := (Operation.compile · c r.fragments)) hoperations]
  exact hmem

/-- Every fragment of the registry is compiled. -/
theorem exists_mem_fragments (h : r.compile c = .ok compiled) {source : Fragment}
    (hsource : source ∈ r.fragments.values) :
    ∃ f ∈ compiled.fragments.values, source.compile c r.fragments = .ok f := by
  obtain ⟨operations, fragments, _, hfragments, rfl⟩ := compile_eq_ok_iff.mp h
  obtain ⟨entry, hentry, rfl⟩ := List.mem_map.mp hsource
  obtain ⟨f, hmem, hcompile⟩ := exists_mem_of_mapM_entries_eq_ok
    (f := (Fragment.compile · c r.fragments)) hfragments hentry
  refine ⟨f, List.mem_map.mpr ⟨(entry.1, f), ?_, rfl⟩, hcompile⟩
  rw [OrderedMap.entries_ofList_of_mapM (f := (Fragment.compile · c r.fragments)) hfragments]
  exact hmem

/-- Operations and fragments are compiled under their names and stay in order. -/
theorem keys_of_compile (h : r.compile c = .ok compiled) :
    compiled.operations.keys = r.operations.keys ∧ compiled.fragments.keys = r.fragments.keys := by
  obtain ⟨operations, fragments, hoperations, hfragments, rfl⟩ := compile_eq_ok_iff.mp h
  have hlisted := OrderedMap.entries_ofList_of_mapM
    (f := (Operation.compile · c r.fragments)) hoperations
  have hlisted' := OrderedMap.entries_ofList_of_mapM
    (f := (Fragment.compile · c r.fragments)) hfragments
  simp only [OrderedMap.keys, hlisted, hlisted']
  exact ⟨map_fst_of_mapM_entries_eq_ok (f := (Operation.compile · c r.fragments)) hoperations,
    map_fst_of_mapM_entries_eq_ok (f := (Fragment.compile · c r.fragments)) hfragments⟩

/-- An operation is found under the name of the one that it was compiled from. -/
theorem get?_operations_of_compile (h : r.compile c = .ok compiled) {name : Name}
    {o : CompiledOperation} :
    compiled.operations.get? name = some o ↔
      ∃ source, r.operations.get? name = some source ∧ source.compile c r.fragments = .ok o := by
  obtain ⟨operations, fragments, hoperations, _, rfl⟩ := compile_eq_ok_iff.mp h
  exact OrderedMap.get?_ofList_of_mapM (f := (Operation.compile · c r.fragments)) hoperations

/-- A fragment is found under the name of the one that it was compiled from. -/
theorem get?_fragments_of_compile (h : r.compile c = .ok compiled) {name : Name}
    {f : CompiledFragment} :
    compiled.fragments.get? name = some f ↔
      ∃ source, r.fragments.get? name = some source ∧ source.compile c r.fragments = .ok f := by
  obtain ⟨operations, fragments, _, hfragments, rfl⟩ := compile_eq_ok_iff.mp h
  exact OrderedMap.get?_ofList_of_mapM (f := (Fragment.compile · c r.fragments)) hfragments

/-- What is needed is put together from what the compiled operations and fragments need. -/
theorem dependencies_eq_foldl (h : r.compile c = .ok compiled) :
    compiled.dependencies = compiled.members.foldl Dependencies.extend .empty := by
  obtain ⟨operations, fragments, hoperations, hfragments, rfl⟩ := compile_eq_ok_iff.mp h
  have hlisted := OrderedMap.entries_ofList_of_mapM
    (f := (Operation.compile · c r.fragments)) hoperations
  have hlisted' := OrderedMap.entries_ofList_of_mapM
    (f := (Fragment.compile · c r.fragments)) hfragments
  simp only [Compiled.members, OrderedMap.values, hlisted, hlisted', List.map_map,
    Function.comp_def]

/-! ### Selection sets -/

/-- The selections that an operation or a fragment of the registry starts with, and the type that
they are made on. -/
inductive Starts (r : Registry) (c : Catalog) : CompositeType → List Selection → Prop
  | operation {o : Operation} {root : Name} {type : CompositeType} : o ∈ r.operations.values →
      c.root? o.kind = some root → c.composite? root = some type → Starts r c type o.selections
  | fragment {f : Fragment} {type : CompositeType} : f ∈ r.fragments.values →
      c.composite? f.condition = some type → Starts r c type f.selections

/-- Selections of the registry make up a selection set, in some operation or fragment. -/
def Resolves (r : Registry) (c : Catalog) (type : CompositeType) (selections : List Selection)
    (set : SelectionSet) : Prop :=
  ∃ definition enums, (Scope.start c r.fragments definition).selectionSet type [] selections =
    .ok (set, enums)

/-- Every compiled selection set is made up of selections that the registry starts with. -/
theorem exists_starts_of_mem_selectionSets (h : r.compile c = .ok compiled) {set : SelectionSet}
    (hset : set ∈ compiled.selectionSets) :
    ∃ type selections, r.Starts c type selections ∧ r.Resolves c type selections set := by
  rcases List.mem_append.mp hset with hmem | hmem
  · obtain ⟨o, ho, rfl⟩ := List.mem_map.mp hmem
    obtain ⟨source, hsource, hcompile⟩ := exists_of_mem_operations h ho
    obtain ⟨name, type, _, set, enums, _, _, htype, _, hresolved, _, rfl⟩ :=
      Operation.compile_eq_ok_iff.mp hcompile
    obtain ⟨root, hroot, hcomposite⟩ := Scope.rootType_eq_ok_iff.mp htype
    exact ⟨type, source.selections, .operation hsource hroot hcomposite, _, enums, hresolved⟩
  · obtain ⟨f, hf, rfl⟩ := List.mem_map.mp hmem
    obtain ⟨source, hsource, hcompile⟩ := exists_of_mem_fragments h hf
    obtain ⟨type, set, enums, hcomposite, hresolved, rfl⟩ :=
      Fragment.compile_eq_ok_iff.mp hcompile
    exact ⟨type, source.selections, .fragment hsource hcomposite, _, enums, hresolved⟩

/-- All selections that the registry starts with make up a compiled selection set. -/
theorem exists_mem_selectionSets_of_starts (h : r.compile c = .ok compiled)
    {type : CompositeType} {selections : List Selection} (hstarts : r.Starts c type selections) :
    ∃ set ∈ compiled.selectionSets, r.Resolves c type selections set := by
  cases hstarts with
  | @operation source root _ hsource hroot hcomposite =>
      obtain ⟨o, ho, hcompile⟩ := exists_mem_operations h hsource
      obtain ⟨name, found, _, set, enums, _, _, htype, _, hresolved, _, rfl⟩ :=
        Operation.compile_eq_ok_iff.mp hcompile
      obtain ⟨other, hother, hfound⟩ := Scope.rootType_eq_ok_iff.mp htype
      -- The schema names one root type for each kind of operation.
      rw [hroot, Option.some.injEq] at hother
      subst hother
      rw [hcomposite, Option.some.injEq] at hfound
      subst hfound
      exact ⟨set, List.mem_append_left _ (List.mem_map.mpr ⟨_, ho, rfl⟩), _, enums, hresolved⟩
  | @fragment source _ hsource hcomposite =>
      obtain ⟨f, hf, hcompile⟩ := exists_mem_fragments h hsource
      obtain ⟨found, set, enums, hfound, hresolved, rfl⟩ := Fragment.compile_eq_ok_iff.mp hcompile
      rw [hcomposite, Option.some.injEq] at hfound
      subst hfound
      exact ⟨set, List.mem_append_right _ (List.mem_map.mpr ⟨_, hf, rfl⟩), _, enums, hresolved⟩

end Registry

end QueryCompiler

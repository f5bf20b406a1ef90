import QueryCompiler.Proofs.Registry
import QueryCompiler.Proofs.SelectionSet.Lookup
import QueryCompiler.Proofs.Validity

/-!
# Definitions are compiled independently

What a definition is compiled to depends on the fragments beside it only through their type
conditions, and only on those of the fragments that are spread in it. What these fragments select,
which directives they have and what they spread themselves plays no part. So further documents can
be added to a registry that can be compiled without changing what its definitions are compiled to.
-/

namespace QueryCompiler

open Outcome

/-! ### Type conditions -/

/-- Two failures report the same broken rule under the same path, or the same inconsistency. The
locations may differ for an undefined type condition: it is reported where the fragment is
defined. -/
inductive Failure.SameReport : Failure → Failure → Prop
  | same (failure : Failure) : SameReport failure failure
  | condition {a b : Option Location} {path : Option SelectionPath} {fragment type : Name} :
      SameReport (.validation ⟨a, path, .undefinedTypeCondition fragment type⟩)
        (.validation ⟨b, path, .undefinedTypeCondition fragment type⟩)

namespace Fragment

/-- Every fragment stands under its own name. -/
def UnderOwnNames (fragments : OrderedMap Name Fragment) : Prop :=
  ∀ name f, fragments.get? name = some f → f.name = name

/-- Either there is a fragment of the name in neither collection, or there is one in both, with the
same type condition. -/
def SameCondition (fragments others : OrderedMap Name Fragment) (name : Name) : Prop :=
  (fragments.get? name).map condition = (others.get? name).map condition

instance (fragments others : OrderedMap Name Fragment) (name : Name) :
    Decidable (SameCondition fragments others name) :=
  inferInstanceAs (Decidable ((fragments.get? name).map condition = _))

end Fragment

/-- Fragments put in under their own names stand under them. -/
theorem Fragment.underOwnNames_ofList {entries : List (Name × Fragment)}
    (h : ∀ entry ∈ entries, entry.2.name = entry.1) :
    Fragment.UnderOwnNames (.ofList entries) := by
  intro name f hf
  exact h (name, f) (OrderedMap.mem_entries_ofList (OrderedMap.get?_eq_some_iff.mp hf))

/-- Nothing but the type condition of a fragment matters for its spread. -/
theorem Catalog.checksAlike_of_sameCondition {c : Catalog}
    {fragments others : OrderedMap Name Fragment} {name : Name}
    (hfragments : Fragment.UnderOwnNames fragments) (hothers : Fragment.UnderOwnNames others)
    (h : Fragment.SameCondition fragments others name) :
    c.ChecksAlike Failure.SameReport fragments others name := by
  intro path parent location
  unfold Scope.checkSpread
  rw [Fragment.SameCondition] at h
  cases hf : fragments.get? name with
  | none =>
      rw [hf, Option.map_none, eq_comm, Option.map_eq_none_iff] at h
      simp only [h]
      exact .error (.same _)
  | some f =>
      rw [hf, Option.map_some, eq_comm, Option.map_eq_some_iff] at h
      obtain ⟨g, hg, hcondition⟩ := h
      have hname : f.name = g.name := (hfragments name f hf).trans (hothers name g hg).symm
      simp only [hg, hcondition, hname]
      cases c.composite? f.condition with
      | none => exact .error .condition
      | some on =>
          by_cases hpossible : parent.isSpreadPossible f.condition c = true
          · simp only [hpossible, if_true]
            exact .ok ()
          · simp only [hpossible]
            exact .error (.same _)

/-! ### Further documents -/

/-- The fragments that are spread in a valid selection are there. -/
theorem Selection.Valid.exists_fragment {c : Catalog} {fragments : OrderedMap Name Fragment}
    {type : CompositeType} {selection : Selection} {name : Name}
    (hvalid : selection.Valid c fragments type) (h : selection.Spreads name) :
    ∃ fragment, fragments.get? name = some fragment := by
  induction h generalizing type with
  | here =>
      cases hvalid with
      | spread hfragment _ => exact ⟨_, hfragment⟩
  | field hmem _ ih =>
      cases hvalid with
      | leaf _ _ => cases hmem
      | object _ _ _ hselections => exact ih (hselections _ hmem)
  | inline hmem _ ih =>
      cases hvalid with
      | inline _ hselections => exact ih (hselections _ hmem)

namespace Registry

variable {r : Registry} {c : Catalog} {documents : List Document} {name : Name}

/-- Further documents take no operation away. -/
theorem get?_operations_addAll {o : Operation} (h : r.operations.get? name = some o) :
    (r.addAll documents).operations.get? name = some o := by
  obtain ⟨htakes, hoperations, _⟩ := takes_added r documents
  rw [hoperations, extended, OrderedMap.get?_eq_some_iff,
    OrderedMap.entries_insertAll htakes.operations]
  exact List.mem_append_left _ (OrderedMap.get?_eq_some_iff.mp h)

/-- Further documents take no fragment away. -/
theorem get?_fragments_addAll {f : Fragment} (h : r.fragments.get? name = some f) :
    (r.addAll documents).fragments.get? name = some f := by
  obtain ⟨htakes, _, hfragments⟩ := takes_added r documents
  rw [hfragments, extended, OrderedMap.get?_eq_some_iff,
    OrderedMap.entries_insertAll htakes.fragments]
  exact List.mem_append_left _ (OrderedMap.get?_eq_some_iff.mp h)

/-- Whatever valid selections spread is the same after adding further documents. -/
theorem get?_fragments_addAll_of_spreads {type : CompositeType} {selections : List Selection}
    (hvalid : ∀ selection ∈ selections, selection.Valid c r.fragments type)
    (h : ∃ selection ∈ selections, selection.Spreads name) :
    (r.addAll documents).fragments.get? name = r.fragments.get? name := by
  obtain ⟨selection, hmem, hspreads⟩ := h
  obtain ⟨fragment, hfragment⟩ := (hvalid selection hmem).exists_fragment hspreads
  rw [hfragment]
  exact get?_fragments_addAll hfragment

/-- An operation compiles as before when further documents are added. -/
theorem compile_operation_addAll {o : Operation} {compiled : CompiledOperation}
    (h : o.compile c r.fragments = .ok compiled) :
    o.compile c (r.addAll documents).fragments = .ok compiled := by
  obtain ⟨_, _, _, _, hvalid⟩ := (Operation.exists_compile_eq_ok_iff.mp ⟨compiled, h⟩).rooted
  rw [← h]
  exact Operation.compile_congr fun name => get?_fragments_addAll_of_spreads hvalid

/-- A fragment compiles as before when further documents are added. -/
theorem compile_fragment_addAll {f : Fragment} {compiled : CompiledFragment}
    (h : f.compile c r.fragments = .ok compiled) :
    f.compile c (r.addAll documents).fragments = .ok compiled := by
  obtain ⟨_, _, hvalid⟩ := Fragment.exists_compile_eq_ok_iff.mp ⟨compiled, h⟩
  rw [← h]
  exact Fragment.compile_congr fun name => get?_fragments_addAll_of_spreads hvalid

/-- A definition is compiled with the same outcome against any two collections of fragments that
agree on the type conditions of the fragments that it spreads; the location of an undefined
condition apart. Whatever a registry is compiled to stays the same when further documents are
added: its definitions are still there and are compiled to what they were, whether or not the new
ones can be compiled as well. -/
theorem compile_reads_conditions_only (c : Catalog) :
    (∀ fragments others : OrderedMap Name Fragment,
      Fragment.UnderOwnNames fragments → Fragment.UnderOwnNames others →
      (∀ o : Operation, (∀ name, o.Spreads name → Fragment.SameCondition fragments others name) →
        SameUpTo Failure.SameReport (o.compile c fragments) (o.compile c others)) ∧
      ∀ f : Fragment, (∀ name, f.Spreads name → Fragment.SameCondition fragments others name) →
        SameUpTo Failure.SameReport (f.compile c fragments) (f.compile c others)) ∧
    ∀ (r : Registry) (documents : List Document) (compiled : Compiled),
      r.compile c = .ok compiled →
      let grown := r.addAll documents
      (∀ name o, compiled.operations.get? name = some o →
        ∃ source, grown.operations.get? name = some source ∧
          source.compile c grown.fragments = .ok o) ∧
      (∀ name f, compiled.fragments.get? name = some f →
        ∃ source, grown.fragments.get? name = some source ∧
          source.compile c grown.fragments = .ok f) ∧
      ∀ later, grown.compile c = .ok later →
        (∀ name o, compiled.operations.get? name = some o →
          later.operations.get? name = some o) ∧
        ∀ name f, compiled.fragments.get? name = some f → later.fragments.get? name = some f := by
  constructor
  · intro fragments others hfragments hothers
    constructor
    · intro o h
      refine Operation.compile_sameUpTo .same fun name hname => ?_
      exact Catalog.checksAlike_of_sameCondition hfragments hothers (h name hname)
    · intro f h
      refine Fragment.compile_sameUpTo .same fun name hname => ?_
      exact Catalog.checksAlike_of_sameCondition hfragments hothers (h name hname)
  · intro r documents compiled h grown
    have hoperations : ∀ name o, compiled.operations.get? name = some o →
        ∃ source, grown.operations.get? name = some source ∧
          source.compile c grown.fragments = .ok o := by
      intro name o ho
      obtain ⟨source, hsource, hcompile⟩ := (get?_operations_of_compile h).mp ho
      exact ⟨source, get?_operations_addAll hsource, compile_operation_addAll hcompile⟩
    have hfragments : ∀ name f, compiled.fragments.get? name = some f →
        ∃ source, grown.fragments.get? name = some source ∧
          source.compile c grown.fragments = .ok f := by
      intro name f hf
      obtain ⟨source, hsource, hcompile⟩ := (get?_fragments_of_compile h).mp hf
      exact ⟨source, get?_fragments_addAll hsource, compile_fragment_addAll hcompile⟩
    -- A registry compiles a name to what its own source compiles to.
    refine ⟨hoperations, hfragments, fun later hlater => ⟨?_, ?_⟩⟩
    · intro name o ho
      exact (get?_operations_of_compile hlater).mpr (hoperations name o ho)
    · intro name f hf
      exact (get?_fragments_of_compile hlater).mpr (hfragments name f hf)

/-- Whether the fragment that it spreads selects something or spreads itself, the query is compiled
to the same, and it is so before and after the names are used again. -/
theorem compile_reads_conditions_only_find :
    let o : Operation := ⟨none, .query, some "Find", [], [],
      [.field none none "hit" [] [] [.spread none "Parts" []]]⟩
    let plain : OrderedMap Name Fragment := .ofList [
      ("Parts", ⟨none, "Parts", "Hit", [], [.field none none "states" [] [] []]⟩)]
    let circular : OrderedMap Name Fragment := .ofList [
      ("Rest", ⟨none, "Rest", "Nowhere", [], []⟩),
      ("Parts", ⟨some ⟨0, 4, 9⟩, "Parts", "Hit", [⟨none, "live", []⟩], [.spread none "Parts" []]⟩)]
    (∃ compiled, o.compile .searchable plain = .ok compiled ∧
      o.compile .searchable circular = .ok compiled) ∧
    ∃ compiled later found, (empty.addAll [.find]).compile .searchable = .ok compiled ∧
      ((empty.addAll [.find]).addAll [.findAgain, .list]).compile .searchable = .ok later ∧
      later.operations.keys = ["Find", "Parts"] ∧
      compiled.operations.get? "Find" = some found ∧ later.operations.get? "Find" = some found := by
  intro o plain circular
  obtain ⟨hdefinitions, hregistries⟩ := compile_reads_conditions_only .searchable
  constructor
  · have hplain : Fragment.UnderOwnNames plain := Fragment.underOwnNames_ofList (by decide)
    have hcircular : Fragment.UnderOwnNames circular := Fragment.underOwnNames_ofList (by decide)
    have hspread : ∀ name, o.Spreads name → Fragment.SameCondition plain circular name := by
      rintro name ⟨selection, hmem, hspreads⟩
      rw [List.mem_singleton.mp hmem] at hspreads
      cases hspreads with
      | field hinner hspreads =>
          rw [List.mem_singleton.mp hinner] at hspreads
          cases hspreads
          decide
    have hsucceeds : (o.compile .searchable plain).toOption.isSome = true := by cbv
    obtain ⟨compiled, hcompiled⟩ := Option.isSome_iff_exists.mp hsucceeds
    have hcompiled := toOption_eq_some_iff.mp hcompiled
    have hsame := (hdefinitions plain circular hplain hcircular).1 o hspread
    rw [hcompiled] at hsame
    cases hcompiled' : o.compile .searchable circular with
    | ok other =>
        rw [hcompiled'] at hsame
        cases hsame
        exact ⟨compiled, hcompiled, rfl⟩
    | error failure =>
        rw [hcompiled'] at hsame
        cases hsame
  · have hcomputed : ((empty.addAll [.find]).compile .searchable).toOption.bind (fun compiled =>
        (((empty.addAll [.find]).addAll [.findAgain, .list]).compile .searchable).toOption.bind
          fun later => (compiled.operations.get? "Find").map fun _ => later.operations.keys) =
        some ["Find", "Parts"] := by
      cbv
    simp only [Option.bind_eq_some_iff, Option.map_eq_some_iff, toOption_eq_some_iff] at hcomputed
    obtain ⟨compiled, hcompiled, later, hlater, found, hfound, hkeys⟩ := hcomputed
    obtain ⟨_, _, hstays⟩ := hregistries _ [.findAgain, .list] compiled hcompiled
    exact ⟨compiled, later, found, hcompiled, hlater, hkeys, hfound,
      (hstays later hlater).1 "Find" found hfound⟩

end Registry

end QueryCompiler

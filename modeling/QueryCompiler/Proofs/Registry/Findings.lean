import QueryCompiler.Proofs.Registry

/-!
# Where violations are found

Compiling ends with the first definition that cannot be compiled, operations before fragments. If a
rule is broken there, the report points at the node that breaks it: its path begins with the
definition and goes through the fields that enclose the node, and its location is that of the node.
Only a fragment whose type condition is wrong is pointed at where it is defined, although this may
be found where it is spread.
-/

namespace QueryCompiler

open Outcome

/-- Among selections on a type, a selection stands under fields that have the given response keys,
and is made on a type. Inline fragments that enclose it change the type and add no key. -/
inductive Selection.StandsUnder (c : Catalog) :
    CompositeType → List Selection → List Name → CompositeType → Selection → Prop
  | here {type selections x} : x ∈ selections → StandsUnder c type selections [] type x
  | field {type selections location aliasName name arguments directives inner definition nested keys
      on x} :
      .field location aliasName name arguments directives inner ∈ selections →
      type.Declares name definition → c.composite? definition.type.innermost = some nested →
      StandsUnder c nested inner keys on x →
      StandsUnder c type selections (aliasName.getD name :: keys) on x
  | inline {type selections location condition directives inner nested keys on x} :
      .inline location condition directives inner ∈ selections →
      c.InlineOn type condition nested → StandsUnder c nested inner keys on x →
      StandsUnder c type selections keys on x

/-- An operation breaks a rule: under the fields that have the given response keys, and at the
location where this is reported. -/
inductive Operation.Breaks (o : Operation) (c : Catalog) (fragments : OrderedMap Name Fragment) :
    List Name → Option Location → Violation → Prop
  | root {name} : o.name = some name → c.root? o.kind = none →
      Breaks o c fragments [] o.location (.undefinedRootOperation name o.kind)
  | default {v value location content violation} : v ∈ o.parameters →
      v.defaultValue = some value → (Value.atom location content).PartOf value →
      content.Flaw violation → Breaks o c fragments [] location violation
  | selection {name root type keys on x location violation} : o.name = some name →
      c.root? o.kind = some root → c.composite? root = some type →
      Selection.StandsUnder c type o.selections keys on x →
      x.Breaks c fragments on location violation →
      Breaks o c fragments keys location violation

/-- A fragment breaks a rule, under fields and at a location. -/
inductive Fragment.Breaks (f : Fragment) (c : Catalog) (fragments : OrderedMap Name Fragment) :
    List Name → Option Location → Violation → Prop
  | condition : c.composite? f.condition = none →
      Breaks f c fragments [] f.location (.undefinedTypeCondition f.name f.condition)
  | selection {type keys on x location violation} : c.composite? f.condition = some type →
      Selection.StandsUnder c type f.selections keys on x →
      x.Breaks c fragments on location violation →
      Breaks f c fragments keys location violation

/-! ### Paths -/

/-- Whatever rule is broken among selections is broken by a selection that stands under the fields
of the reported path. -/
theorem Selection.Fails.exists_breaks {s : Scope} {type : CompositeType}
    {traversed : List SelectedField} {selection : Selection} {failure : Failure}
    (h : selection.Fails s type traversed failure) {finding : Finding}
    (hfailure : failure = .validation finding) {selections : List Selection}
    (hmem : selection ∈ selections) :
    ∃ keys on x, StandsUnder s.catalog type selections keys on x ∧
      x.Breaks s.catalog s.fragments on finding.location finding.violation ∧
      finding.path = some ⟨s.path.root, s.path.fields ++ keys⟩ := by
  induction h generalizing selections with
  | broken hbreaks =>
      cases hfailure
      exact ⟨[], _, _, .here hmem, hbreaks, by rw [List.append_nil]⟩
  | contradicted _ => cases hfailure
  | subfield hdeclares _ hnested hinner _ ih =>
      obtain ⟨keys, on, x, hstands, hbreaks, hpath⟩ := ih hfailure hinner
      refine ⟨_, on, x, .field hmem hdeclares hnested hstands, hbreaks, ?_⟩
      rw [hpath]
      simp [SelectionPath.push]
  | inline hon hinner _ ih =>
      obtain ⟨keys, on, x, hstands, hbreaks, hpath⟩ := ih hfailure hinner
      exact ⟨keys, on, x, .inline hmem hon hstands, hbreaks, hpath⟩

namespace Operation

variable {o : Operation} {c : Catalog} {fragments : OrderedMap Name Fragment} {finding : Finding}

/-- If all nodes of an operation have locations, then a broken rule is reported under the name of
the operation, at the node that breaks it. -/
theorem Fails.exists_breaks (h : o.Fails c fragments (.validation finding)) {name : Name}
    (hname : o.name = some name) (hlocated : none ∉ o.locations) :
    ∃ keys, finding.path = some ⟨.operation o.kind name, keys⟩ ∧
      o.Breaks c fragments keys finding.location finding.violation := by
  cases h with
  | anonymous hnone =>
      rw [hnone] at hname
      cases hname
  | undefinedRoot hname' hroot =>
      obtain rfl := Option.some.inj (hname.symm.trans hname')
      exact ⟨[], rfl, .root hname hroot⟩
  | default hname' hv hvalue hconstant =>
      obtain rfl := Option.some.inj (hname.symm.trans hname')
      obtain ⟨location, content, violation, hpart, hflaw, rfl⟩ :=
        Constant.flaw_of_ofValue hconstant
      cases location with
      | none =>
          have hmem := mem_locations_of_default hv hvalue hpart.location_mem
          exact absurd hmem hlocated
      | some location => exact ⟨[], rfl, .default hv hvalue hpart hflaw⟩
  | selection hname' hroot htype hmem hfails =>
      obtain rfl := Option.some.inj (hname.symm.trans hname')
      obtain ⟨keys, on, x, hstands, hbreaks, hpath⟩ := hfails.exists_breaks rfl hmem
      exact ⟨keys, hpath, .selection hname hroot htype hstands hbreaks⟩

end Operation

/-- A broken rule is reported under the name of the fragment, at the node that breaks it. -/
theorem Fragment.Fails.exists_breaks {f : Fragment} {c : Catalog}
    {fragments : OrderedMap Name Fragment} {finding : Finding}
    (h : f.Fails c fragments (.validation finding)) :
    ∃ keys, finding.path = some ⟨.fragment f.name, keys⟩ ∧
      f.Breaks c fragments keys finding.location finding.violation := by
  cases h with
  | undefinedCondition hcondition => exact ⟨[], rfl, .condition hcondition⟩
  | selection htype hmem hfails =>
      obtain ⟨keys, on, x, hstands, hbreaks, hpath⟩ := hfails.exists_breaks rfl hmem
      exact ⟨keys, hpath, .selection htype hstands hbreaks⟩

/-! ### Locations -/

/-- A selection that stands under others is a node of them. -/
theorem Selection.StandsUnder.location_mem {c : Catalog} {type on : CompositeType}
    {selections : List Selection} {keys : List Name} {x : Selection}
    (h : StandsUnder c type selections keys on x) :
    x.location ∈ selections.flatMap locations := by
  induction h with
  | here hmem => exact List.mem_flatMap_of_mem hmem (location_mem_locations _)
  | field hmem _ _ _ ih => exact List.mem_flatMap_of_mem hmem (mem_locations_field ih)
  | inline hmem _ _ ih => exact List.mem_flatMap_of_mem hmem (mem_locations_inline ih)

/-- A selection that breaks a rule is reported where it stands, or else where the fragment that it
spreads is defined. -/
theorem Selection.Breaks.location_eq {c : Catalog} {fragments : OrderedMap Name Fragment}
    {type : CompositeType} {selection : Selection} {location : Option Location}
    {violation : Violation} (h : selection.Breaks c fragments type location violation) :
    location = selection.location ∨
      ∃ fragment ∈ fragments.values, location = fragment.location := by
  cases h with
  | undefinedCondition hfragment _ =>
      exact Or.inr ⟨_, OrderedMap.mem_values_iff.mpr ⟨_, hfragment⟩, rfl⟩
  | _ => exact Or.inl rfl

namespace Registry

variable {r : Registry} {c : Catalog} {finding : Finding}

/-- The definitions of a registry, operations before fragments. -/
def definitions (r : Registry) : List Definition :=
  r.operations.values.map .operation ++ r.fragments.values.map .fragment

/-- The operations of a registry are among its definitions. -/
theorem operation_mem_definitions {o : Operation} (h : o ∈ r.operations.values) :
    .operation o ∈ r.definitions :=
  List.mem_append_left _ (List.mem_map_of_mem h)

/-- The fragments of a registry are among its definitions. -/
theorem fragment_mem_definitions {f : Fragment} (h : f ∈ r.fragments.values) :
    .fragment f ∈ r.definitions :=
  List.mem_append_right _ (List.mem_map_of_mem h)

/-- All nodes of all definitions have locations. -/
def Located (r : Registry) : Prop := ∀ definition ∈ r.definitions, none ∉ definition.locations

instance (r : Registry) : Decidable r.Located :=
  inferInstanceAs (Decidable (∀ definition ∈ r.definitions, none ∉ definition.locations))

/-- A selection of a definition that breaks a rule is reported in that definition or in a
fragment. -/
theorem exists_location_mem_of_breaks {type on : CompositeType} {selections : List Selection}
    {keys : List Name} {x : Selection} {location : Option Location} {violation : Violation}
    {definition : Definition} (hdefinition : definition ∈ r.definitions)
    (hselections : ∀ location ∈ selections.flatMap Selection.locations,
      location ∈ definition.locations)
    (hstands : Selection.StandsUnder c type selections keys on x)
    (hbreaks : x.Breaks c r.fragments on location violation) :
    ∃ definition ∈ r.definitions, location ∈ definition.locations := by
  rcases hbreaks.location_eq with rfl | ⟨fragment, hmem, rfl⟩
  · exact ⟨definition, hdefinition, hselections _ hstands.location_mem⟩
  · exact ⟨_, fragment_mem_definitions hmem, List.mem_cons_self⟩

/-- A broken rule is reported at a node of a definition, whichever nodes have locations. -/
theorem exists_location_mem_of_compile (h : r.compile c = .error (.validation finding)) :
    ∃ definition ∈ r.definitions, finding.location ∈ definition.locations := by
  rcases exists_fails_of_compile h with ⟨o, ho, hfails⟩ | ⟨f, hf, hfails⟩
  · have hdefinition := operation_mem_definitions ho
    cases hfails with
    | anonymous _ => exact ⟨_, hdefinition, List.mem_cons_self⟩
    | undefinedRoot _ _ => exact ⟨_, hdefinition, List.mem_cons_self⟩
    | default _ hv hvalue hconstant =>
        obtain ⟨location, content, violation, hpart, _, rfl⟩ := Constant.flaw_of_ofValue hconstant
        refine ⟨_, hdefinition, ?_⟩
        cases location with
        | none => exact Operation.mem_locations_of_parameter hv List.mem_cons_self
        | some location =>
            exact Operation.mem_locations_of_default hv hvalue hpart.location_mem
    | selection _ _ _ hmem hfails =>
        obtain ⟨keys, on, x, hstands, hbreaks, _⟩ := hfails.exists_breaks rfl hmem
        exact exists_location_mem_of_breaks hdefinition
          (fun _ => Operation.mem_locations_of_selections) hstands hbreaks
  · have hdefinition := fragment_mem_definitions hf
    cases hfails with
    | undefinedCondition _ => exact ⟨_, hdefinition, List.mem_cons_self⟩
    | selection _ hmem hfails =>
        obtain ⟨keys, on, x, hstands, hbreaks, _⟩ := hfails.exists_breaks rfl hmem
        exact exists_location_mem_of_breaks hdefinition
          (fun _ => Fragment.mem_locations_of_selections) hstands hbreaks

/-- If all nodes of the definitions that a run has added have locations, then a rule that is broken
in compiling them is reported with a location and a path. The path begins with the first definition
that cannot be compiled, operations before fragments and both in the order of the documents, and the
definition breaks the rule under the fields of the path and at the location. -/
theorem validation_points_at_node (documents : List Document) {c : Catalog} {finding : Finding}
    (hlocated : (empty.addAll documents).Located)
    (h : (empty.addAll documents).compile c = .error (.validation finding)) :
    let fragments := (empty.addAll documents).fragments
    let added := empty.added documents
    ∃ location path, finding.location = some location ∧ finding.path = some path ∧
      ((∃ before o after name, added.flatMap Document.operations = before ++ o :: after ∧
          (∀ earlier ∈ before, ∃ compiled, earlier.compile c fragments = .ok compiled) ∧
          o.compile c fragments = .error (.validation finding) ∧ o.name = some name ∧
          path.root = .operation o.kind name ∧
          o.Breaks c fragments path.fields (some location) finding.violation) ∨
        ((∀ o ∈ added.flatMap Document.operations,
            ∃ compiled, o.compile c fragments = .ok compiled) ∧
          ∃ before f after, added.flatMap Document.fragments = before ++ f :: after ∧
            (∀ earlier ∈ before, ∃ compiled, earlier.compile c fragments = .ok compiled) ∧
            f.compile c fragments = .error (.validation finding) ∧
            path.root = .fragment f.name ∧
            f.Breaks c fragments path.fields (some location) finding.violation)) := by
  intro fragments added
  have hlists : (empty.addAll documents).Lists added := lists_addAll documents
  obtain ⟨definition, hdefinition, hmem⟩ := exists_location_mem_of_compile h
  obtain ⟨location, hlocation⟩ : ∃ location, finding.location = some location :=
    Option.ne_none_iff_exists'.mp fun hnone => hlocated definition hdefinition (hnone ▸ hmem)
  rw [← hlists.operations_values, ← hlists.fragments_values]
  -- The first definition that fails is an operation, or a fragment behind all operations.
  rcases compile_eq_error_iff.mp h with ⟨before, o, after, hsplit, hbefore, ho⟩ |
    ⟨hall, before, f, after, hsplit, hbefore, hf⟩
  · have hvalue : o ∈ (empty.addAll documents).operations.values := by
      rw [hsplit]
      exact List.mem_append_right _ List.mem_cons_self
    obtain ⟨entry, hentry, rfl⟩ := List.mem_map.mp hvalue
    have hname := hlists.name_eq hentry
    have hnodes := hlocated _ (operation_mem_definitions hvalue)
    obtain ⟨keys, hpath, hbreaks⟩ := (Operation.fails_of_compile ho).exists_breaks hname hnodes
    rw [hlocation] at hbreaks
    exact ⟨location, _, hlocation, hpath, Or.inl
      ⟨before, entry.2, after, entry.1, hsplit, hbefore, ho, hname, rfl, hbreaks⟩⟩
  · obtain ⟨keys, hpath, hbreaks⟩ := (Fragment.fails_of_compile hf).exists_breaks
    rw [hlocation] at hbreaks
    exact ⟨location, _, hlocation, hpath, Or.inr
      ⟨hall, before, f, after, hsplit, hbefore, hf, rfl, hbreaks⟩⟩

end Registry

/-- What `query Find{hit{states}} query Lost{found:hit{...on Hit{lost}}}` is read as: the second
query asks for a field that is not there, under an alias and in an inline fragment. -/
def Document.lost : Document where
  sources := []
  definitions := [
    .operation ⟨some ⟨0, 0, 23⟩, .query, some "Find", [], [],
      [.field (some ⟨0, 11, 22⟩) none "hit" [] []
        [.field (some ⟨0, 15, 21⟩) none "states" [] [] []]]⟩,
    .operation ⟨some ⟨0, 24, 62⟩, .query, some "Lost", [], [],
      [.field (some ⟨0, 35, 61⟩) (some "found") "hit" [] []
        [.inline (some ⟨0, 45, 60⟩) (some "Hit") []
          [.field (some ⟨0, 55, 59⟩) none "lost" [] [] []]]]⟩]

namespace Registry

/-- The second query is the first that cannot be compiled. The report points at the field, under the
alias of the one that encloses it. -/
theorem validation_points_at_lost :
    let finding : Finding := ⟨some ⟨0, 55, 59⟩, some ⟨.operation .query "Lost", ["found"]⟩,
      .undefinedField "Hit" "lost"⟩
    (empty.addAll [.lost]).Located ∧
      (empty.addAll [.lost]).compile .searchable = .error (.validation finding) ∧
      ∃ before o after, Document.lost.operations = before ++ o :: after ∧
        (∀ earlier ∈ before, ∃ compiled, earlier.compile .searchable .empty = .ok compiled) ∧
        o.name = some "Lost" ∧
        o.Breaks .searchable .empty ["found"] (some ⟨0, 55, 59⟩)
          (.undefinedField "Hit" "lost") := by
  intro finding
  have hlocated : (empty.addAll [.lost]).Located := by decide
  have hcompile : (empty.addAll [.lost]).compile .searchable = .error (.validation finding) := by
    cbv
  have hadded : (empty.added [.lost]).flatMap Document.operations = Document.lost.operations := by
    decide
  have hfragments : (empty.addAll [.lost]).fragments = .empty := by decide
  obtain ⟨_, _, hlocation, hpath, hfirst⟩ := validation_points_at_node _ hlocated hcompile
  obtain rfl := Option.some.inj hlocation
  obtain rfl := Option.some.inj hpath
  rw [hadded, hfragments] at hfirst
  rcases hfirst with ⟨before, o, after, name, hsplit, hbefore, _, hname, hroot, hbreaks⟩ |
    ⟨_, _, _, _, _, _, _, hroot, _⟩
  · obtain ⟨_, rfl⟩ := DefinitionName.operation.inj hroot
    exact ⟨hlocated, hcompile, before, o, after, hsplit, hbefore, hname, hbreaks⟩
  · cases hroot

end Registry

end QueryCompiler

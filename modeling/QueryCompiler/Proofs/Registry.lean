import QueryCompiler.Proofs.Constant
import QueryCompiler.Proofs.Dependencies.Compiled
import QueryCompiler.Proofs.Failure

/-!
# Documents are added as wholes

Adding a document either lists all of its definitions behind those that were there, or changes
nothing but the sources. Definitions can be listed if each of them makes an entry and all entries
have new and different names (`Registry.Takes`); this is said for any list of definitions, so that
it can be cut anywhere, between definitions or between documents. In the words of a single document
it is `Registry.Accepts`.

A run adds documents one after the other, whatever becomes of each. It leaves the definitions of
those that could be added (`Registry.added`) and no others.
-/

namespace QueryCompiler

open Outcome

/-! ### Definitions -/

namespace Definition

/-- The entry that an operation makes in a registry, if it has a name. -/
def namedOperation? : Definition → Option (Name × Operation)
  | operation o => o.name.map fun name => (name, o)
  | _ => none

/-- The entry that a fragment makes in a registry. -/
def namedFragment? : Definition → Option (Name × Fragment)
  | fragment f => some (f.name, f)
  | _ => none

/-- An operation with a name is listed under that name. -/
theorem namedOperation?_of_name {o : Operation} {name : Name} (h : o.name = some name) :
    (operation o).namedOperation? = some (name, o) := by
  rw [namedOperation?, h, Option.map_some]

/-- A definition that makes an entry: a fragment, or an operation that has a name. -/
def IsEntry : Definition → Prop
  | operation o => ∃ name, o.name = some name
  | fragment _ => True
  | typeSystem .. => False

end Definition

namespace Registry

variable {r : Registry} {definitions others : List Definition}

/-- The registry with the entries of definitions behind its own. -/
def extended (r : Registry) (definitions : List Definition) : Registry where
  sources := r.sources
  operations := r.operations.insertAll (definitions.filterMap Definition.namedOperation?)
  fragments := r.fragments.insertAll (definitions.filterMap Definition.namedFragment?)

/-- All of the definitions make entries, under names that are new and different. -/
structure Takes (r : Registry) (definitions : List Definition) : Prop where
  entries : ∀ definition ∈ definitions, definition.IsEntry
  operations : ((r.operations.entries ++ definitions.filterMap Definition.namedOperation?).map
    Prod.fst).Nodup
  fragments : ((r.fragments.entries ++ definitions.filterMap Definition.namedFragment?).map
    Prod.fst).Nodup

private theorem takes_nil : r.Takes [] where
  entries := nofun
  operations := by simpa using r.operations.nodup
  fragments := by simpa using r.fragments.nodup

/-- The sources that are kept have no part in what is taken. -/
theorem takes_keep_iff {sources : List (FileId × Source)} :
    (r.keep sources).Takes definitions ↔ r.Takes definitions :=
  ⟨fun h => ⟨h.entries, h.operations, h.fragments⟩,
    fun h => ⟨h.entries, h.operations, h.fragments⟩⟩

/-- Sources and definitions are kept apart. -/
theorem extended_keep {sources : List (FileId × Source)} :
    (r.keep sources).extended definitions = (r.extended definitions).keep sources := rfl

/-- Definitions are listed one row after the other. -/
theorem extended_append :
    r.extended (definitions ++ others) = (r.extended definitions).extended others := by
  simp only [extended, List.filterMap_append, OrderedMap.insertAll_append]

/-- Definitions are taken if the first of them are and the others are taken behind these. -/
theorem takes_append_iff :
    r.Takes (definitions ++ others) ↔
      r.Takes definitions ∧ (r.extended definitions).Takes others := by
  constructor
  · rintro ⟨hentries, hoperations, hfragments⟩
    rw [List.forall_mem_append] at hentries
    rw [List.filterMap_append, OrderedMap.nodup_append_insertAll_iff] at hoperations hfragments
    exact ⟨⟨hentries.1, hoperations.1, hfragments.1⟩, ⟨hentries.2, hoperations.2, hfragments.2⟩⟩
  · rintro ⟨⟨hentries, hoperations, hfragments⟩, ⟨hentries', hoperations', hfragments'⟩⟩
    refine ⟨List.forall_mem_append.mpr ⟨hentries, hentries'⟩, ?_, ?_⟩
    · rw [List.filterMap_append, OrderedMap.nodup_append_insertAll_iff]
      exact ⟨hoperations, hoperations'⟩
    · rw [List.filterMap_append, OrderedMap.nodup_append_insertAll_iff]
      exact ⟨hfragments, hfragments'⟩

/-- One operation is taken if it has a name that no operation has. -/
theorem takes_operation_iff {o : Operation} :
    r.Takes [.operation o] ↔ ∃ name, o.name = some name ∧ ¬ r.operations.contains name = true := by
  constructor
  · rintro ⟨hentries, hoperations, _⟩
    obtain ⟨name, hname⟩ := hentries _ List.mem_cons_self
    rw [List.filterMap_cons_some (Definition.namedOperation?_of_name hname), List.filterMap_nil,
      OrderedMap.nodup_append_singleton_iff] at hoperations
    exact ⟨name, hname, hoperations⟩
  · rintro ⟨name, hname, hnew⟩
    refine ⟨List.forall_mem_singleton.mpr ⟨name, hname⟩, ?_, ?_⟩
    · rw [List.filterMap_cons_some (Definition.namedOperation?_of_name hname), List.filterMap_nil,
        OrderedMap.nodup_append_singleton_iff]
      exact hnew
    · rw [List.filterMap_cons_none rfl, List.filterMap_nil, List.append_nil]
      exact r.fragments.nodup

/-- One fragment is taken if no fragment has its name. -/
theorem takes_fragment_iff {f : Fragment} :
    r.Takes [.fragment f] ↔ ¬ r.fragments.contains f.name = true := by
  have hentry : ((r.fragments.entries ++ [(f.name, f)]).map Prod.fst).Nodup ↔
      ¬ r.fragments.contains f.name = true := OrderedMap.nodup_append_singleton_iff
  rw [← hentry]
  constructor
  · exact Takes.fragments
  · refine fun hnew => ⟨List.forall_mem_singleton.mpr trivial, ?_, hnew⟩
    rw [List.filterMap_cons_none rfl, List.filterMap_nil, List.append_nil]
    exact r.operations.nodup

/-- A definition is added exactly if it is taken, and makes its entry then. -/
theorem addDefinition_eq_ok_iff {definition : Definition} {added : Registry} :
    r.addDefinition definition = .ok added ↔
      r.Takes [definition] ∧ r.extended [definition] = added := by
  cases definition with
  | operation o =>
      rw [takes_operation_iff, addDefinition]
      cases hname : o.name with
      | none => simp
      | some name =>
          have hextended : r.extended [.operation o] =
              { r with operations := r.operations.insert name o } := by
            rw [extended, List.filterMap_cons_some (Definition.namedOperation?_of_name hname),
              List.filterMap_cons_none rfl]
            rfl
          by_cases hnew : r.operations.contains name = true
          · simp [hnew]
          · simp [hnew, hextended]
  | fragment f =>
      have hextended : r.extended [.fragment f] =
          { r with fragments := r.fragments.insert f.name f } := rfl
      rw [takes_fragment_iff, addDefinition]
      by_cases hnew : r.fragments.contains f.name = true
      · simp [hnew]
      · simp [hnew, hextended]
  | typeSystem location description =>
      constructor
      · rintro ⟨⟩
      · rintro ⟨htakes, _⟩
        exact (htakes.entries _ List.mem_cons_self).elim

/-- Definitions are added one after the other exactly if all of them are taken together. -/
theorem foldlM_addDefinition_eq_ok_iff {added : Registry} :
    definitions.foldlM addDefinition r = .ok added ↔
      r.Takes definitions ∧ r.extended definitions = added := by
  induction definitions generalizing r with
  | nil =>
      rw [List.foldlM_nil, pure_eq_ok_iff, and_iff_right takes_nil]
      rfl
  | cons definition rest ih =>
      have hsplit : definition :: rest = [definition] ++ rest := rfl
      rw [List.foldlM_cons, bind_eq_ok_iff, hsplit, takes_append_iff, extended_append]
      constructor
      · rintro ⟨next, hnext, hrest⟩
        obtain ⟨htakes, rfl⟩ := addDefinition_eq_ok_iff.mp hnext
        obtain ⟨hothers, hadded⟩ := ih.mp hrest
        exact ⟨⟨htakes, hothers⟩, hadded⟩
      · rintro ⟨⟨htakes, hothers⟩, hadded⟩
        exact ⟨_, addDefinition_eq_ok_iff.mpr ⟨htakes, rfl⟩, ih.mpr ⟨hothers, hadded⟩⟩

/-! ### Documents -/

variable {d : Document}

/-- A document that is taken is added, with its sources. -/
theorem addDocument_of_takes (h : r.Takes d.definitions) :
    r.addDocument d = ((r.keep d.sources).extended d.definitions, .ok ()) := by
  simp only [addDocument, foldlM_addDefinition_eq_ok_iff.mpr ⟨takes_keep_iff.mpr h, rfl⟩]

/-- A document that is not taken leaves only its sources behind. -/
theorem addDocument_of_not_takes (h : ¬ r.Takes d.definitions) :
    ∃ failure, r.addDocument d = (r.keep d.sources, .error failure) := by
  cases hfold : d.definitions.foldlM addDefinition (r.keep d.sources) with
  | ok added =>
      obtain ⟨htakes, _⟩ := foldlM_addDefinition_eq_ok_iff.mp hfold
      exact absurd (takes_keep_iff.mp htakes) h
  | error finding => exact ⟨_, by simp only [addDocument, hfold]; rfl⟩

/-- A document is added exactly if its definitions are taken. -/
theorem addDocument_eq_ok_iff : (r.addDocument d).2 = .ok () ↔ r.Takes d.definitions := by
  by_cases htakes : r.Takes d.definitions
  · simp [addDocument_of_takes htakes, htakes]
  · obtain ⟨failure, hfailure⟩ := addDocument_of_not_takes htakes
    simp [hfailure, htakes]

/-- A document that cannot be added changes neither operations nor fragments. -/
theorem addDocument_unchanged (h : (r.addDocument d).2 ≠ .ok ()) :
    (r.addDocument d).1.operations = r.operations ∧
      (r.addDocument d).1.fragments = r.fragments := by
  obtain ⟨failure, hfailure⟩ := addDocument_of_not_takes (mt addDocument_eq_ok_iff.mpr h)
  rw [hfailure]
  exact ⟨rfl, rfl⟩

end Registry

namespace Document

/-- The names of the operations that have one, in order. -/
def operationNames (d : Document) : List Name := d.operations.filterMap Operation.name

/-- The names of the fragments, in order. -/
def fragmentNames (d : Document) : List Name := d.fragments.map Fragment.name

variable {d : Document}

/-- The names under which the operations of a document are listed. -/
theorem map_fst_operationEntries :
    (d.definitions.filterMap Definition.namedOperation?).map Prod.fst = d.operationNames := by
  rw [operationNames, operations, List.map_filterMap, List.filterMap_filterMap]
  congr 1
  funext definition
  cases definition with
  | operation o => cases hname : o.name <;> simp [Definition.namedOperation?, hname]
  | fragment f => rfl
  | typeSystem location description => rfl

/-- Fragments are listed under their own names. -/
theorem fragmentEntries_eq :
    d.definitions.filterMap Definition.namedFragment? = d.fragments.map fun f => (f.name, f) := by
  rw [fragments, List.map_filterMap]
  congr 1
  funext definition
  cases definition <;> rfl

/-- The names under which the fragments of a document are listed. -/
theorem map_fst_fragmentEntries :
    (d.definitions.filterMap Definition.namedFragment?).map Prod.fst = d.fragmentNames := by
  rw [fragmentEntries_eq, List.map_map, fragmentNames]
  rfl

/-- If all definitions make entries then every operation makes one, under its own name. -/
theorem map_operationEntries (h : ∀ definition ∈ d.definitions, definition.IsEntry) :
    (d.definitions.filterMap Definition.namedOperation?).map
        (fun entry => (some entry.1, entry.2)) =
      d.operations.map fun o => (o.name, o) := by
  rw [operations, List.map_filterMap, List.map_filterMap]
  apply List.filterMap_congr
  intro definition hmem
  cases definition with
  | operation o =>
      obtain ⟨name, hname⟩ := h _ hmem
      rw [Definition.namedOperation?_of_name hname, Option.map_some, Option.map_some, hname]
  | fragment f => rfl
  | typeSystem location description => rfl

/-- The definitions of a document make entries if none of them belongs to a schema and all
operations have names. -/
theorem forall_isEntry_iff :
    (∀ definition ∈ d.definitions, definition.IsEntry) ↔
      (∀ location description, Definition.typeSystem location description ∉ d.definitions) ∧
        ∀ o ∈ d.operations, ∃ name, o.name = some name := by
  have hoperation (o : Operation) : o ∈ d.operations ↔ .operation o ∈ d.definitions := by
    rw [operations, List.mem_filterMap]
    constructor
    · rintro ⟨definition, hmem, hsome⟩
      cases definition <;> cases hsome
      exact hmem
    · exact fun hmem => ⟨_, hmem, rfl⟩
  constructor
  · intro h
    exact ⟨fun location description hmem => h _ hmem, fun o ho => h _ ((hoperation o).mp ho)⟩
  · rintro ⟨hexecutable, hnamed⟩ definition hmem
    cases definition with
    | operation o => exact hnamed o ((hoperation o).mpr hmem)
    | fragment f => trivial
    | typeSystem location description => exact hexecutable location description hmem

end Document

namespace Registry

variable {r : Registry} {d : Document}

/-- A document that can be added: nothing in it belongs to a schema, all of its operations have
names, and no name is used twice in it or used already, operations and fragments taken apart. -/
structure Accepts (r : Registry) (d : Document) : Prop where
  executable : ∀ location description, Definition.typeSystem location description ∉ d.definitions
  named : ∀ o ∈ d.operations, ∃ name, o.name = some name
  operations_nodup : d.operationNames.Nodup
  operations_new : ∀ name ∈ d.operationNames, name ∉ r.operations.keys
  fragments_nodup : d.fragmentNames.Nodup
  fragments_new : ∀ name ∈ d.fragmentNames, name ∉ r.fragments.keys

/-- A registry takes the definitions of a document if it accepts the document. -/
theorem takes_definitions_iff : r.Takes d.definitions ↔ r.Accepts d := by
  constructor
  · rintro ⟨hentries, hoperations, hfragments⟩
    obtain ⟨hexecutable, hnamed⟩ := Document.forall_isEntry_iff.mp hentries
    rw [List.map_append, Document.map_fst_operationEntries, List.nodup_append] at hoperations
    rw [List.map_append, Document.map_fst_fragmentEntries, List.nodup_append] at hfragments
    exact ⟨hexecutable, hnamed,
      hoperations.2.1, fun name hname hkey => hoperations.2.2 _ hkey _ hname rfl,
      hfragments.2.1, fun name hname hkey => hfragments.2.2 _ hkey _ hname rfl⟩
  · intro h
    refine ⟨Document.forall_isEntry_iff.mpr ⟨h.executable, h.named⟩, ?_, ?_⟩
    · rw [List.map_append, Document.map_fst_operationEntries, List.nodup_append]
      refine ⟨r.operations.nodup, h.operations_nodup, ?_⟩
      rintro key hkey name hname rfl
      exact h.operations_new key hname hkey
    · rw [List.map_append, Document.map_fst_fragmentEntries, List.nodup_append]
      refine ⟨r.fragments.nodup, h.fragments_nodup, ?_⟩
      rintro key hkey name hname rfl
      exact h.fragments_new key hname hkey

/-! ### Runs -/

/-- What is left of adding documents one after the other, whatever becomes of each of them. -/
def addAll (r : Registry) (documents : List Document) : Registry :=
  documents.foldl (fun r d => (r.addDocument d).1) r

/-- The documents of a run that are added. -/
def added (r : Registry) : List Document → List Document
  | [] => []
  | d :: rest =>
      match r.addDocument d with
      | (next, .ok ()) => d :: next.added rest
      | (next, .error _) => next.added rest

/-- A document that is taken is among the added ones. -/
theorem added_cons_of_takes {rest : List Document} (h : r.Takes d.definitions) :
    r.added (d :: rest) = d :: ((r.keep d.sources).extended d.definitions).added rest := by
  rw [added, addDocument_of_takes h]

/-- A document that is not taken is not among the added ones. -/
theorem added_cons_of_not_takes {rest : List Document} (h : ¬ r.Takes d.definitions) :
    r.added (d :: rest) = (r.keep d.sources).added rest := by
  obtain ⟨failure, hfailure⟩ := addDocument_of_not_takes h
  rw [added, hfailure]

/-- The definitions of the documents that a run has added were taken together, and the run has left
the registry with just their entries behind its own. -/
theorem takes_added (r : Registry) (documents : List Document) :
    r.Takes ((r.added documents).flatMap Document.definitions) ∧
      (r.addAll documents).operations =
        (r.extended ((r.added documents).flatMap Document.definitions)).operations ∧
      (r.addAll documents).fragments =
        (r.extended ((r.added documents).flatMap Document.definitions)).fragments := by
  induction documents generalizing r with
  | nil => exact ⟨takes_nil, rfl, rfl⟩
  | cons d rest ih =>
      have hrun : r.addAll (d :: rest) = (r.addDocument d).1.addAll rest := rfl
      by_cases htakes : r.Takes d.definitions
      · obtain ⟨hothers, hoperations, hfragments⟩ := ih ((r.keep d.sources).extended d.definitions)
        rw [hrun, addDocument_of_takes htakes, added_cons_of_takes htakes, List.flatMap_cons,
          takes_append_iff, extended_append, hoperations, hfragments]
        rw [extended_keep] at hothers ⊢
        exact ⟨⟨htakes, takes_keep_iff.mp hothers⟩, rfl, rfl⟩
      · obtain ⟨hothers, hoperations, hfragments⟩ := ih (r.keep d.sources)
        obtain ⟨failure, hfailure⟩ := addDocument_of_not_takes htakes
        rw [hrun, hfailure, added_cons_of_not_takes htakes, hoperations, hfragments]
        exact ⟨takes_keep_iff.mp hothers, rfl, rfl⟩

/-- A registry that lists the operations and the fragments of documents, all of them and in order,
each under its own name. -/
structure Lists (r : Registry) (documents : List Document) : Prop where
  operations : r.operations.entries.map (fun entry => (some entry.1, entry.2)) =
    (documents.flatMap Document.operations).map fun o => (o.name, o)
  operations_nodup : (documents.flatMap Document.operationNames).Nodup
  fragments : r.fragments.entries =
    (documents.flatMap Document.fragments).map fun f => (f.name, f)
  fragments_nodup : (documents.flatMap Document.fragmentNames).Nodup

/-- What a run leaves of an empty registry lists the documents that were added. -/
theorem lists_addAll (documents : List Document) :
    (empty.addAll documents).Lists (empty.added documents) := by
  obtain ⟨htakes, hoperations, hfragments⟩ := takes_added empty documents
  generalize empty.added documents = added at *
  have hentries (d : Document) (hd : d ∈ added) :
      ∀ definition ∈ d.definitions, definition.IsEntry :=
    fun definition hmem => htakes.entries _ (List.mem_flatMap_of_mem hd hmem)
  have hlisted : (empty.addAll documents).operations.entries =
      added.flatMap fun d => d.definitions.filterMap Definition.namedOperation? := by
    rw [hoperations, extended, OrderedMap.entries_insertAll htakes.operations]
    exact List.filterMap_flatMap
  have hlisted' : (empty.addAll documents).fragments.entries =
      added.flatMap fun d => d.definitions.filterMap Definition.namedFragment? := by
    rw [hfragments, extended, OrderedMap.entries_insertAll htakes.fragments]
    exact List.filterMap_flatMap
  constructor
  · rw [hlisted, List.map_flatMap, List.map_flatMap]
    exact List.flatMap_congr fun d hd => Document.map_operationEntries (hentries d hd)
  · have hnodup := (empty.addAll documents).operations.nodup
    simpa only [hlisted, List.map_flatMap, Document.map_fst_operationEntries] using hnodup
  · simp only [hlisted', List.map_flatMap, Document.fragmentEntries_eq]
  · have hnodup := (empty.addAll documents).fragments.nodup
    simpa only [hlisted', List.map_flatMap, Document.map_fst_fragmentEntries] using hnodup

namespace Lists

variable {documents : List Document}

/-- Every operation that is listed has the name that it is listed under. -/
theorem name_eq (h : r.Lists documents) {entry : Name × Operation}
    (hentry : entry ∈ r.operations.entries) : entry.2.name = some entry.1 := by
  have hmem : (some entry.1, entry.2) ∈
      r.operations.entries.map fun entry => (some entry.1, entry.2) :=
    List.mem_map_of_mem (f := fun entry => (some entry.1, entry.2)) hentry
  rw [h.operations] at hmem
  obtain ⟨o, _, ho⟩ := List.mem_map.mp hmem
  obtain ⟨hname, hsecond⟩ := Prod.mk.inj ho
  rw [← hsecond, hname]

/-- The operation names of a registry are those of the documents that it lists, in their order. -/
theorem operations_keys (h : r.Lists documents) :
    r.operations.keys = documents.flatMap Document.operationNames := by
  have hnames := congrArg (List.filterMap Prod.fst) h.operations
  rw [List.filterMap_map, List.filterMap_map, List.filterMap_flatMap] at hnames
  calc r.operations.keys
      = r.operations.entries.filterMap (some ∘ Prod.fst) := by
        rw [List.filterMap_eq_map, OrderedMap.keys]
    _ = documents.flatMap Document.operationNames := hnames

/-- The fragment names of a registry are those of the documents that it lists, in their order. -/
theorem fragments_keys (h : r.Lists documents) :
    r.fragments.keys = documents.flatMap Document.fragmentNames := by
  rw [OrderedMap.keys, h.fragments, List.map_map, List.map_flatMap]
  rfl

/-- The operations of a registry are those of the documents that it lists, in their order. -/
theorem operations_values (h : r.Lists documents) :
    r.operations.values = documents.flatMap Document.operations := by
  have hvalues := congrArg (List.map Prod.snd) h.operations
  rw [List.map_map, List.map_map] at hvalues
  exact hvalues.trans (List.map_id _)

/-- The fragments of a registry are those of the documents that it lists, in their order. -/
theorem fragments_values (h : r.Lists documents) :
    r.fragments.values = documents.flatMap Document.fragments := by
  rw [OrderedMap.values, h.fragments, List.map_map]
  exact List.map_id _

end Lists

end Registry

/-! ### Operations without a name -/

/-- Selections are not blamed for an operation without a name. -/
theorem Selection.Fails.ne_anonymousOperation {s : Scope} {type : CompositeType}
    {traversed : List SelectedField} {selection : Selection} {failure : Failure}
    (h : selection.Fails s type traversed failure) {finding : Finding}
    (hfailure : failure = .validation finding) (kind : OperationKind) :
    finding.violation ≠ .anonymousOperation kind := by
  induction h with
  | broken hbreaks =>
      cases hfailure
      cases hbreaks <;> exact nofun
  | contradicted _ => cases hfailure
  | subfield _ _ _ _ _ ih => exact ih hfailure
  | inline _ _ _ ih => exact ih hfailure

/-- An operation is reported to lack a name only if it does. -/
theorem Operation.Fails.ne_anonymousOperation {o : Operation} {c : Catalog}
    {fragments : OrderedMap Name Fragment} {failure : Failure} (h : o.Fails c fragments failure)
    {finding : Finding} (hfailure : failure = .validation finding) {name : Name}
    (hname : o.name = some name) (kind : OperationKind) :
    finding.violation ≠ .anonymousOperation kind := by
  cases h with
  | anonymous hnone =>
      rw [hnone] at hname
      cases hname
  | undefinedRoot _ _ =>
      cases hfailure
      exact nofun
  | unresolvedRoot _ _ => cases hfailure
  | default _ _ _ hconstant =>
      cases hfailure
      obtain ⟨_, _, _, _, hflaw, rfl⟩ := Constant.flaw_of_ofValue hconstant
      cases hflaw <;> exact nofun
  | parameter _ _ => cases hfailure
  | selection _ _ _ _ hfails => exact hfails.ne_anonymousOperation hfailure kind
  | needs _ => cases hfailure

/-- Fragments are not blamed for an operation without a name. -/
theorem Fragment.Fails.ne_anonymousOperation {f : Fragment} {c : Catalog}
    {fragments : OrderedMap Name Fragment} {failure : Failure} (h : f.Fails c fragments failure)
    {finding : Finding} (hfailure : failure = .validation finding) (kind : OperationKind) :
    finding.violation ≠ .anonymousOperation kind := by
  cases h with
  | undefinedCondition _ =>
      cases hfailure
      exact nofun
  | selection _ _ hfails => exact hfails.ne_anonymousOperation hfailure kind

namespace Registry

/-- A registry whose operations stand under their own names is never reported to hold one without
a name. -/
theorem ne_anonymousOperation_of_compile {r : Registry} {c : Catalog} {finding : Finding}
    (hnames : ∀ entry ∈ r.operations.entries, entry.2.name = some entry.1)
    (h : r.compile c = .error (.validation finding)) (kind : OperationKind) :
    finding.violation ≠ .anonymousOperation kind := by
  rcases exists_fails_of_compile h with ⟨o, ho, hfails⟩ | ⟨f, _, hfails⟩
  · obtain ⟨entry, hentry, rfl⟩ := List.mem_map.mp ho
    exact hfails.ne_anonymousOperation rfl (hnames entry hentry) kind
  · exact hfails.ne_anonymousOperation rfl kind

/-- After any run from an empty registry, the next document is added exactly if it is acceptable,
and changes neither operations nor fragments otherwise. The run has listed the documents that were
added, so that compiling never meets an operation without a name and keeps the names and their
order. -/
theorem addDocument_all_or_nothing (documents : List Document) :
    let r := empty.addAll documents
    let added := empty.added documents
    (∀ d, ((r.addDocument d).2 = .ok () ↔ r.Accepts d) ∧
      ((r.addDocument d).2 ≠ .ok () → (r.addDocument d).1.operations = r.operations ∧
        (r.addDocument d).1.fragments = r.fragments)) ∧
    r.Lists added ∧
    ∀ c, (∀ finding kind, r.compile c = .error (.validation finding) →
        finding.violation ≠ .anonymousOperation kind) ∧
      ∀ compiled, r.compile c = .ok compiled →
        compiled.operations.keys = added.flatMap Document.operationNames ∧
        compiled.fragments.keys = added.flatMap Document.fragmentNames := by
  intro r added
  have hlists : r.Lists added := lists_addAll documents
  refine ⟨fun d => ⟨?_, addDocument_unchanged⟩, hlists, fun c => ⟨?_, ?_⟩⟩
  · rw [addDocument_eq_ok_iff, takes_definitions_iff]
  · intro finding kind h
    exact ne_anonymousOperation_of_compile (fun _ => hlists.name_eq) h kind
  · intro compiled h
    obtain ⟨hoperations, hfragments⟩ := keys_of_compile h
    rw [hoperations, hfragments]
    exact ⟨hlists.operations_keys, hlists.fragments_keys⟩

end Registry

namespace Document

/-- A query together with the fragment that it spreads. -/
def find : Document where
  sources := []
  definitions := [
    .operation ⟨none, .query, some "Find", [], [],
      [.field none none "hit" [] [] [.spread none "Parts" []]]⟩,
    .fragment ⟨none, "Parts", "Hit", [], [.field none none "states" [] [] []]⟩]

/-- A new fragment, and behind it a name that `find` has used. -/
def findAgain : Document where
  sources := []
  definitions := [
    .fragment ⟨none, "Rest", "Hit", [], [.field none none "states" [] [] []]⟩,
    .operation ⟨none, .query, some "Find", [], [], []⟩]

/-- A query that has the name of a fragment of `find`, and the fragment that `findAgain` has not
brought. -/
def list : Document where
  sources := []
  definitions := [
    .operation ⟨none, .query, some "Parts", [], [],
      [.field none none "hit" [] [] [.spread none "Rest" []]]⟩,
    .fragment ⟨none, "Rest", "Hit", [], [.field none none "states" [] [] []]⟩]

/-- A query without a name. -/
def nameless : Document where
  sources := []
  definitions := [.operation ⟨none, .query, none, [], [], []⟩]

end Document

namespace Registry

/-- The two documents that are in order are listed, and compiled under their names. -/
theorem addDocument_find :
    let documents : List Document := [.find, .findAgain, .nameless, .list]
    empty.added documents = [.find, .list] ∧
      (empty.addAll documents).Lists [.find, .list] ∧
      ¬ (empty.addAll documents).Accepts .findAgain ∧
      ∃ compiled, (empty.addAll documents).compile .searchable = .ok compiled ∧
        compiled.operations.keys = ["Find", "Parts"] ∧
        compiled.fragments.keys = ["Parts", "Rest"] := by
  intro documents
  have hadded : empty.added documents = [.find, .list] := by decide
  have hrefused : ((empty.addAll documents).addDocument .findAgain).2 ≠ .ok () := by decide
  obtain ⟨hcalls, hlists, hcompile⟩ := addDocument_all_or_nothing documents
  rw [hadded] at hlists hcompile
  have hsucceeds : ((empty.addAll documents).compile .searchable).toOption.isSome = true := by cbv
  obtain ⟨compiled, hcompiled⟩ := Option.isSome_iff_exists.mp hsucceeds
  have hcompiled := toOption_eq_some_iff.mp hcompiled
  exact ⟨hadded, hlists, mt (hcalls .findAgain).1.mpr hrefused, compiled, hcompiled,
    (hcompile .searchable).2 compiled hcompiled⟩

end Registry

end QueryCompiler

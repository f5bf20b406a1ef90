import QueryCompiler.Proofs.Document.Parser.Nested
import QueryCompiler.Proofs.Registry.Findings
import QueryCompiler.Proofs.SelectionSet.Position

/-!
# Texts are kept for reports

A run adds texts one after the other. A text is kept whether or not it can be parsed and added,
under the number of texts before it, and the nodes that are read from it have locations under this
number. So whatever is reported at a location, of the next text or in compiling all definitions,
points into a text that is kept, and into the one from which the node at that location was read.
-/

namespace QueryCompiler

open Outcome

/-! ### Reading one text -/

namespace Document

variable {limits : ParseLimits} {file : FileId} {source : Source} {read : ReadDocument}

/-- A document that was read has the one source that it was read from. -/
theorem sources_of_read (h : Document.read limits file source = .ok read) :
    read.document.sources = [(file, source)] := by
  obtain ⟨parsed, _, rfl⟩ := read_eq_ok_iff.mp h
  rfl

/-- Every node that is read from a source has a location in it. -/
theorem map_file_of_read (h : Document.read limits file source = .ok read)
    {definition : Definition} (hmem : definition ∈ read.document.definitions)
    {location : Option Location} (hlocation : location ∈ definition.locations) :
    location.map Location.file = some file := by
  obtain ⟨parsed, hparsed, rfl⟩ := read_eq_ok_iff.mp h
  obtain ⟨_, rfl, hplaced⟩ := (Parser.nested_of_parse? hparsed hmem).2 location hlocation
  exact congrArg some hplaced.file_eq

/-- The places of a document that was read are in its own file. -/
theorem file_of_read (h : Document.read limits file source = .ok read) {definition : Definition}
    (hmem : definition ∈ read.document.definitions) {location : Location}
    (hlocation : some location ∈ definition.locations) : location.file = file :=
  Option.some.inj (map_file_of_read h hmem hlocation)

end Document

namespace Registry

variable {r : Registry}

/-- A definition that cannot be added is reported where it stands. -/
theorem location_of_addDefinition {definition : Definition} {finding : Finding}
    (h : r.addDefinition definition = .error finding) :
    finding.location ∈ definition.locations := by
  cases definition with
  | operation o =>
      unfold addDefinition at h
      cases hname : o.name with
      | none =>
          simp only [hname, Except.error.injEq] at h
          exact h ▸ List.mem_cons_self
      | some name =>
          by_cases hused : r.operations.contains name = true
          · simp only [hname, hused, if_true, Except.error.injEq] at h
            exact h ▸ List.mem_cons_self
          · simp [hname, hused] at h
  | fragment f =>
      unfold addDefinition at h
      by_cases hused : r.fragments.contains f.name = true
      · simp only [hused, if_true, Except.error.injEq] at h
        exact h ▸ List.mem_cons_self
      · simp [hused] at h
  | typeSystem location description =>
      cases h
      exact List.mem_cons_self

/-- If definitions cannot be added one after the other, then one of them is reported. -/
theorem exists_of_foldlM_addDefinition {definitions : List Definition} {finding : Finding}
    (h : definitions.foldlM addDefinition r = .error finding) :
    ∃ definition ∈ definitions, finding.location ∈ definition.locations := by
  induction definitions generalizing r with
  | nil => cases h
  | cons first rest ih =>
      rw [List.foldlM_cons, bind_eq_error_iff] at h
      rcases h with hfirst | ⟨_, _, hrest⟩
      · exact ⟨first, List.mem_cons_self, location_of_addDefinition hfirst⟩
      · obtain ⟨definition, hmem, hlocation⟩ := ih hrest
        exact ⟨definition, List.mem_cons_of_mem _ hmem, hlocation⟩

/-- What can become of a text: its definitions are taken, or one of them is reported, or it cannot
be parsed. It is kept in each case. -/
theorem addSource_cases (r : Registry) (limits : ParseLimits) (source : Source) :
    (∃ read, Document.read limits r.nextFile source = .ok read ∧
      r.addSource limits source =
        ((r.keep [(r.nextFile, source)]).extended read.document.definitions, .ok read)) ∨
    (∃ read definition finding, Document.read limits r.nextFile source = .ok read ∧
      definition ∈ read.document.definitions ∧ finding.location ∈ definition.locations ∧
      r.addSource limits source =
        (r.keep [(r.nextFile, source)], .error (.validation finding))) ∨
    ∃ path preview, r.addSource limits source =
      (r.keep [(r.nextFile, source)], .error (.parsing r.nextFile path preview)) := by
  cases hread : Document.read limits r.nextFile source with
  | error failure =>
      have hfailure : failure = .parsing r.nextFile source.path source.preview := by
        unfold Document.read at hread
        cases hparse : Parser.parse? limits r.nextFile source.text with
        | some parsed => simp [hparse] at hread
        | none =>
            simp only [hparse, Except.error.injEq] at hread
            exact hread.symm
      exact Or.inr (Or.inr ⟨source.path, source.preview, by rw [addSource, hread, hfailure]⟩)
  | ok read =>
      have hadded : r.addSource limits source =
          ((r.addDocument read.document).1, (r.addDocument read.document).2.map fun _ => read) := by
        rw [addSource, hread]
      rw [hadded, addDocument, Document.sources_of_read hread]
      -- A definition that is refused is reported at one of its nodes.
      cases hfold : read.document.definitions.foldlM addDefinition
          (r.keep [(r.nextFile, source)]) with
      | ok added =>
          obtain ⟨_, rfl⟩ := foldlM_addDefinition_eq_ok_iff.mp hfold
          exact Or.inl ⟨read, rfl, rfl⟩
      | error finding =>
          obtain ⟨definition, hmem, hlocation⟩ := exists_of_foldlM_addDefinition hfold
          exact Or.inr (Or.inl ⟨read, definition, finding, rfl, hmem, hlocation, rfl⟩)

/-! ### Runs -/

/-- What is left of adding texts one after the other, each under its limits, whatever becomes of
each of them. -/
def addSources (r : Registry) (calls : List (ParseLimits × Source)) : Registry :=
  calls.foldl (fun r call => (r.addSource call.1 call.2).1) r

/-- A registry that records a run: it has kept the texts, all of them and in order, and every
definition in it was read from the text at some place of the run. -/
structure Records (r : Registry) (calls : List (ParseLimits × Source)) : Prop where
  sources : r.sources.entries = calls.zipIdx.map fun (call, file) => (file, call.2)
  definitions : ∀ definition ∈ r.definitions, ∃ (file : FileId) (call : ParseLimits × Source)
    (read : ReadDocument), calls[file]? = some call ∧
      Document.read call.1 file call.2 = .ok read ∧ definition ∈ read.document.definitions

namespace Records

variable {calls : List (ParseLimits × Source)}

/-- The next file number is the number of texts given so far. -/
theorem nextFile_eq (h : r.Records calls) : r.nextFile = calls.length := by
  rw [nextFile, OrderedMap.size, h.sources, List.length_map, List.length_zipIdx]

/-- The text at each place of the run is kept under the number of that place. -/
theorem get?_sources (h : r.Records calls) {file : FileId} {call : ParseLimits × Source}
    (hcall : calls[file]? = some call) : r.sources.get? file = some call.2 := by
  rw [OrderedMap.get?_eq_some_iff, h.sources, List.mem_map]
  exact ⟨(call, file), List.mem_zipIdx_iff_getElem?.mpr hcall, rfl⟩

/-- The next text is kept behind those that were there. -/
theorem entries_keep (h : r.Records calls) (limits : ParseLimits) (source : Source) :
    (r.keep [(r.nextFile, source)]).sources.entries =
      (calls ++ [(limits, source)]).zipIdx.map fun (call, file) => (file, call.2) := by
  have hentries : r.sources.entries ++ [(r.nextFile, source)] =
      (calls ++ [(limits, source)]).zipIdx.map fun (call, file) => (file, call.2) := by
    rw [h.sources, h.nextFile_eq, List.zipIdx_append, List.map_append]
    simp
  have hnodup : ((r.sources.entries ++ [(r.nextFile, source)]).map Prod.fst).Nodup := by
    rw [hentries, List.map_map]
    change ((calls ++ [(limits, source)]).zipIdx.map Prod.snd).Nodup
    rw [List.zipIdx_map_snd]
    exact List.nodup_range'
  exact (OrderedMap.entries_insertAll hnodup).trans hentries

end Records

/-- The definitions of a registry are its operations and its fragments. -/
theorem mem_definitions_iff {definition : Definition} :
    definition ∈ r.definitions ↔
      (∃ o ∈ r.operations.values, .operation o = definition) ∨
        ∃ f ∈ r.fragments.values, .fragment f = definition := by
  rw [definitions, List.mem_append, List.mem_map, List.mem_map]

end Registry

namespace Definition

variable {definition : Definition}

private theorem eq_of_namedOperation? {entry : Name × Operation}
    (h : definition.namedOperation? = some entry) : definition = .operation entry.2 := by
  cases definition with
  | operation o =>
      obtain ⟨name, _, rfl⟩ := Option.map_eq_some_iff.mp h
      rfl
  | fragment f => cases h
  | typeSystem location description => cases h

private theorem eq_of_namedFragment? {entry : Name × Fragment}
    (h : definition.namedFragment? = some entry) : definition = .fragment entry.2 := by
  cases definition with
  | operation o => cases h
  | fragment f =>
      cases h
      rfl
  | typeSystem location description => cases h

end Definition

namespace Registry

variable {r : Registry}

/-- All definitions of an extended registry were there or are new. -/
theorem mem_definitions_extended {definitions : List Definition} {definition : Definition}
    (h : definition ∈ (r.extended definitions).definitions) :
    definition ∈ r.definitions ∨ definition ∈ definitions := by
  rcases mem_definitions_iff.mp h with ⟨o, ho, rfl⟩ | ⟨f, hf, rfl⟩
  · obtain ⟨entry, hentry, rfl⟩ := List.mem_map.mp ho
    rcases OrderedMap.mem_entries_insertAll hentry with hold | hnew
    · exact Or.inl (operation_mem_definitions (List.mem_map_of_mem hold))
    · obtain ⟨added, hadded, hsome⟩ := List.mem_filterMap.mp hnew
      exact Or.inr (Definition.eq_of_namedOperation? hsome ▸ hadded)
  · obtain ⟨entry, hentry, rfl⟩ := List.mem_map.mp hf
    rcases OrderedMap.mem_entries_insertAll hentry with hold | hnew
    · exact Or.inl (fragment_mem_definitions (List.mem_map_of_mem hold))
    · obtain ⟨added, hadded, hsome⟩ := List.mem_filterMap.mp hnew
      exact Or.inr (Definition.eq_of_namedFragment? hsome ▸ hadded)

namespace Records

variable {calls : List (ParseLimits × Source)}

/-- Definitions that were read from a text of a run were read from the same text of a longer run. -/
theorem definitions_append (h : r.Records calls) (others : List (ParseLimits × Source))
    {definition : Definition} (hmem : definition ∈ r.definitions) :
    ∃ (file : FileId) (call : ParseLimits × Source) (read : ReadDocument),
      (calls ++ others)[file]? = some call ∧ Document.read call.1 file call.2 = .ok read ∧
        definition ∈ read.document.definitions := by
  obtain ⟨file, call, read, hcall, hread, hdefinition⟩ := h.definitions definition hmem
  have hlt := (List.getElem?_eq_some_iff.mp hcall).1
  exact ⟨file, call, read, by rwa [List.getElem?_append_left hlt], hread, hdefinition⟩

/-- One more text is recorded, whatever becomes of it. -/
theorem addSource (h : r.Records calls) (limits : ParseLimits) (source : Source) :
    (r.addSource limits source).1.Records (calls ++ [(limits, source)]) := by
  rcases addSource_cases r limits source with ⟨read, hread, hadded⟩ |
    ⟨_, _, _, _, _, _, hrefused⟩ | ⟨_, _, hfailed⟩
  · rw [hadded]
    refine ⟨h.entries_keep limits source, fun definition hmem => ?_⟩
    rcases mem_definitions_extended hmem with hold | hnew
    · exact h.definitions_append _ hold
    · refine ⟨r.nextFile, (limits, source), read, ?_, hread, hnew⟩
      rw [h.nextFile_eq, List.getElem?_concat_length]
  · rw [hrefused]
    exact ⟨h.entries_keep limits source, fun _ => h.definitions_append _⟩
  · rw [hfailed]
    exact ⟨h.entries_keep limits source, fun _ => h.definitions_append _⟩

/-- A run of further texts keeps the record. -/
theorem addSources (h : r.Records calls) (others : List (ParseLimits × Source)) :
    (r.addSources others).Records (calls ++ others) := by
  induction others generalizing r calls with
  | nil => rwa [List.append_nil]
  | cons call rest ih =>
      have hstep := ih (h.addSource call.1 call.2)
      rwa [List.append_assoc] at hstep

end Records

/-- A run from an empty registry is recorded. -/
theorem records_addSources (calls : List (ParseLimits × Source)) :
    (empty.addSources calls).Records calls := by
  have hempty : empty.Records [] := ⟨rfl, nofun⟩
  exact hempty.addSources calls

end Registry

/-! ### Reports -/

namespace Registry

variable {r : Registry} {calls : List (ParseLimits × Source)} {failure : Failure}

/-- In compiling a rule may turn out to be broken or the schema to contradict itself, and nothing
else can go wrong. -/
theorem inconsistency_or_validation_of_compile {c : Catalog} (h : r.compile c = .error failure) :
    (∃ e, failure = .inconsistency e) ∨ ∃ finding, failure = .validation finding := by
  have hselection {s : Scope} {type : CompositeType} {selection : Selection}
      (hfails : selection.Fails s type [] failure) :
      (∃ e, failure = .inconsistency e) ∨ ∃ finding, failure = .validation finding := by
    rcases hfails.inconsistency_or_placed with ⟨e, rfl⟩ | ⟨location, path, broken, rfl⟩
    · exact Or.inl ⟨e, rfl⟩
    · exact Or.inr ⟨_, rfl⟩
  rcases exists_fails_of_compile h with ⟨o, _, hfails⟩ | ⟨f, _, hfails⟩
  · cases hfails with
    | anonymous _ => exact Or.inr ⟨_, rfl⟩
    | undefinedRoot _ _ => exact Or.inr ⟨_, rfl⟩
    | unresolvedRoot _ _ => exact Or.inl ⟨_, rfl⟩
    | default _ _ _ _ => exact Or.inr ⟨_, rfl⟩
    | parameter _ _ => exact Or.inl ⟨_, rfl⟩
    | selection _ _ _ _ hfails => exact hselection hfails
    | needs _ => exact Or.inl ⟨_, rfl⟩
  · cases hfails with
    | undefinedCondition _ => exact Or.inr ⟨_, rfl⟩
    | selection _ _ hfails => exact hselection hfails

/-- A failure of the next text points into that text, at a node that was read from it if a rule is
broken. -/
theorem Records.file?_of_addSource (h : r.Records calls) {limits : ParseLimits} {source : Source}
    (hfailure : (r.addSource limits source).2 = .error failure) :
    failure.file? = some calls.length ∧ ∀ location, failure.location? = some location →
      ∃ read definition, Document.read limits location.file source = .ok read ∧
        definition ∈ read.document.definitions ∧ some location ∈ definition.locations := by
  rcases addSource_cases r limits source with ⟨_, _, hadded⟩ |
    ⟨read, definition, finding, hread, hmem, hlocation, hrefused⟩ | ⟨path, preview, hfailed⟩
  · rw [hadded] at hfailure
    cases hfailure
  · rw [hrefused] at hfailure
    obtain rfl := Except.error.inj hfailure
    have hfile := Document.map_file_of_read hread hmem hlocation
    refine ⟨hfile.trans (congrArg some h.nextFile_eq), fun location hfound => ?_⟩
    have hnode : some location ∈ definition.locations := hfound ▸ hlocation
    rw [← Document.file_of_read hread hmem hnode] at hread
    exact ⟨read, definition, hread, hmem, hnode⟩
  · rw [hfailed] at hfailure
    obtain rfl := Except.error.inj hfailure
    exact ⟨congrArg some h.nextFile_eq, nofun⟩

/-- A failure in compiling that points into a source points at a node of a definition, in the text
from which this definition was read. -/
theorem Records.exists_node_of_compile (h : r.Records calls) {c : Catalog} {file : FileId}
    (hfailure : r.compile c = .error failure) (hfile : failure.file? = some file) :
    ∃ call location read definition, calls[file]? = some call ∧
      failure.location? = some location ∧ location.file = file ∧
      Document.read call.1 file call.2 = .ok read ∧ definition ∈ read.document.definitions ∧
      definition ∈ r.definitions ∧ some location ∈ definition.locations := by
  rcases inconsistency_or_validation_of_compile hfailure with ⟨e, rfl⟩ | ⟨finding, rfl⟩
  · cases hfile
  · obtain ⟨location, hlocation, hin⟩ := Option.map_eq_some_iff.mp hfile
    obtain ⟨definition, hdefinition, hmem⟩ := exists_location_mem_of_compile hfailure
    obtain ⟨place, call, read, hcall, hread, hread'⟩ := h.definitions definition hdefinition
    rw [hlocation] at hmem
    -- The location names the source that the definition was read from.
    obtain rfl : place = file := (Document.file_of_read hread hread' hmem).symm.trans hin
    exact ⟨call, location, read, definition, hcall, hlocation, hin, hread, hread', hdefinition,
      hmem⟩

/-- After any run from an empty registry, exactly the texts of the run are kept, in order. If the
next text cannot be added, the failure points into this text, which is kept then. A failure in
compiling that points into a source points into one that is kept. Wherever a broken rule is reported
at a location, a definition with a node at this location was read from the text that is kept
there. -/
theorem failures_point_into_sources (calls : List (ParseLimits × Source)) :
    let r := empty.addSources calls
    r.sources.entries = calls.zipIdx.map (fun (call, file) => (file, call.2)) ∧
    (∀ limits source failure, (r.addSource limits source).2 = .error failure →
      failure.file? = some calls.length ∧
      (r.addSource limits source).1.sources.get? calls.length = some source ∧
      ∀ location, failure.location? = some location →
        ∃ read definition, Document.read limits location.file source = .ok read ∧
          definition ∈ read.document.definitions ∧ some location ∈ definition.locations) ∧
    ∀ c failure file, r.compile c = .error failure → failure.file? = some file →
      ∃ call location read definition, calls[file]? = some call ∧
        r.sources.get? file = some call.2 ∧
        failure.location? = some location ∧ location.file = file ∧
        Document.read call.1 file call.2 = .ok read ∧ definition ∈ read.document.definitions ∧
        definition ∈ r.definitions ∧ some location ∈ definition.locations := by
  intro r
  have hrecords : r.Records calls := records_addSources calls
  refine ⟨hrecords.sources, fun limits source failure hfailure => ?_,
    fun c failure file hfailure hfile => ?_⟩
  · obtain ⟨hfile, hnode⟩ := hrecords.file?_of_addSource hfailure
    have hkept := (hrecords.addSource limits source).get?_sources List.getElem?_concat_length
    exact ⟨hfile, hkept, hnode⟩
  · obtain ⟨call, location, read, definition, hcall, hrest⟩ :=
      hrecords.exists_node_of_compile hfailure hfile
    exact ⟨call, location, read, definition, hcall, hrecords.get?_sources hcall, hrest⟩

end Registry

namespace Source

/-- A text that asks for a field that is not there. -/
def lost : Source := ⟨"lost.graphql", "query Q\x7blost\x7d"⟩

/-- A text that uses the name of `lost`. -/
def again : Source := ⟨"again.graphql", "query Q\x7bhit\x7d"⟩

/-- A text that cannot be parsed and one that has no name for its query, and then `lost`. -/
def mixed : List (ParseLimits × Source) :=
  [(.standard, ⟨"open.graphql", "\x7b"⟩), (.standard, ⟨"nameless.graphql", "\x7bhit\x7d"⟩),
    (.standard, lost)]

end Source

namespace Registry

/-- What is reported of the last text in compiling, and of a further text in adding it, points into
these texts. -/
theorem failures_point_into_mixed :
    (empty.addSources Source.mixed).sources.keys = [0, 1, 2] ∧
    ((empty.addSources Source.mixed).addSource .standard .again).2 =
      .error (.validation ⟨some ⟨3, 0, 12⟩, none, .operationNameCollision "Q"⟩) ∧
    ((empty.addSources Source.mixed).addSource .standard .again).1.sources.get? 3 = some .again ∧
    (empty.addSources Source.mixed).compile .searchable = .error (.validation ⟨some ⟨2, 8, 12⟩,
      some ⟨.operation .query "Q", []⟩, .undefinedField "Query" "lost"⟩) ∧
    (empty.addSources Source.mixed).sources.get? 2 = some .lost ∧
    ∃ read definition, Document.read .standard 2 .lost = .ok read ∧
      definition ∈ read.document.definitions ∧ some ⟨2, 8, 12⟩ ∈ definition.locations := by
  have hnext : ((empty.addSources Source.mixed).addSource .standard .again).2 =
      .error (.validation ⟨some ⟨3, 0, 12⟩, none, .operationNameCollision "Q"⟩) := by
    rw [← failure?_eq_some_iff]
    decide +kernel
  have hcompile : (empty.addSources Source.mixed).compile .searchable =
      .error (.validation ⟨some ⟨2, 8, 12⟩, some ⟨.operation .query "Q", []⟩,
        .undefinedField "Query" "lost"⟩) := by
    rw [← failure?_eq_some_iff]
    decide +kernel
  obtain ⟨hsources, hadd, hcompiling⟩ := failures_point_into_sources Source.mixed
  have hkeys : (empty.addSources Source.mixed).sources.keys = [0, 1, 2] :=
    congrArg (List.map Prod.fst) hsources
  obtain ⟨_, hkept, _⟩ := hadd .standard .again _ hnext
  obtain ⟨call, _, read, definition, hcall, hget, hlocation, _, hread, hmem, _, hnode⟩ :=
    hcompiling .searchable _ 2 hcompile rfl
  obtain rfl := Option.some.inj hcall
  obtain rfl := Option.some.inj hlocation
  exact ⟨hkeys, hnext, hkept, hcompile, hget, read, definition, hread, hmem, hnode⟩

end Registry

end QueryCompiler

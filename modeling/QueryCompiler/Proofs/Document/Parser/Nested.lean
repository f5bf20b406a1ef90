import QueryCompiler.Proofs.Document.Parser.Spans
import QueryCompiler.Proofs.Outcome

/-!
# Parsed nodes are nested

The locations of a parsed document form a nested tree over its text. There is one statement for each
rule of the grammar: which row of nodes stands on the tokens that the rule takes.
-/

namespace QueryCompiler

namespace Parser

variable {text : String} {file : FileId}

/-! ### Values, arguments and directives -/

/-- Options in a row that are left out have no trees. -/
theorem map_filterMap_id {α : Type} (out : α → Outline) (found : List (Option α)) :
    (found.filterMap id).map out = found.flatMap fun a => (a.map out).toList := by
  rw [List.map_filterMap, List.filterMap_eq_flatMap_toList]
  rfl

/-- The value of an object field has the location of the field, and keeps what is inside it. -/
theorem spans_objectField {p : Parser Value}
    (hp : p.Spans 0 text file fun value row => [value.outline] = row) :
    (objectField p).Spans 0 text file fun field row =>
      (field.map fun f => f.2.outline).toList = row := by
  refine spans_optional (spans_located (spans_token fun name =>
    spans_bind (spans_behind (spans_children hp)) fun value row hvalue => spans_pure ?_))
  intro location field hfield
  obtain ⟨v, hv, rfl⟩ := Option.map_eq_some_iff.mp hfield
  rw [Value.outline_relocate, hvalue v hv, List.append_nil]

/-- A value has one tree if each of its parts has one. -/
theorem spans_valueOver {constant : Bool} {part : Parser Value}
    (hpart : part.Spans 0 text file fun value row => [value.outline] = row) :
    (valueOver constant part).Spans 0 text file fun value row => [value.outline] = row := by
  refine spans_located (spans_token fun kind => ?_)
  split
  · exact spans_pure fun _ => rfl
  · exact spans_pure fun _ => rfl
  · exact spans_pure fun _ => rfl
  · exact spans_pure fun _ => rfl
  · exact spans_pure fun _ => rfl
  · exact spans_pure fun _ => rfl
  · exact spans_pure fun _ => rfl
  · exact spans_ite spans_fail (spans_after fun _ => spans_pure fun _ => rfl)
  · refine spans_bind (spans_manyNodes hpart) fun items row hitems =>
      spans_after fun _ => spans_pure fun location => ?_
    rw [Value.outline, Value.outlineItems_eq_map, hitems, List.append_nil]
  · refine spans_bind (spans_many (spans_objectField hpart)) fun fields row hfields =>
      spans_after fun _ => spans_pure fun location => ?_
    rw [Value.outline, Value.outlineFields_eq_map, map_filterMap_id, hfields, List.append_nil]
  · exact spans_fail

/-- A value has one tree. -/
theorem spans_value (constant : Bool) (room : Nat) :
    (value constant room).Spans 0 text file fun value row => [value.outline] = row := by
  induction room with
  | zero => exact spans_valueOver spans_fail
  | succ room ih => exact spans_valueOver (spans_deeper ih)

/-- An argument has one tree, and one without a value has none. -/
theorem spans_argument (constant : Bool) (room : Nat) :
    (argument constant room).Spans 0 text file fun found row =>
      (found.map Argument.outline).toList = row := by
  refine spans_optional (spans_located (spans_token fun name =>
    spans_bind (spans_behind (spans_value constant room)) fun value row hvalue => spans_pure ?_))
  intro location argument hargument
  obtain ⟨v, hv, rfl⟩ := Option.map_eq_some_iff.mp hargument
  rw [Argument.outline, hvalue v hv, List.append_nil]

/-- Arguments have one tree each. -/
theorem spans_arguments (constant : Bool) (room : Nat) :
    (arguments constant room).Spans 0 text file fun arguments row =>
      arguments.map Argument.outline = row := by
  refine spans_whenNext (spans_after fun _ => ?_) rfl
  refine spans_bind (spans_many1 (spans_argument constant room)) fun found row hfound =>
    spans_after fun _ => spans_pure ?_
  rw [map_filterMap_id, hfound, List.append_nil]

/-- Directives have one tree each. -/
theorem spans_directives (constant : Bool) (room : Nat) :
    (directives constant room).Spans 0 text file fun directives row =>
      directives.map Directive.outline = row := by
  refine spans_manyNodes (spans_located (spans_token fun _ => spans_after fun name =>
    spans_bind (spans_arguments constant room) fun arguments row harguments =>
      spans_pure fun location => ?_))
  rw [Directive.outline, harguments, List.append_nil]

/-! ### Selections -/

/-- A selection has one tree if the selections under it have one each. -/
theorem spans_selection {room : Nat} {selectionSet : Parser (List Selection)}
    (h : selectionSet.Spans 0 text file fun selections row =>
      selections.map Selection.outline = row) :
    (selection room selectionSet).Spans 0 text file fun selection row =>
      [selection.outline] = row := by
  refine spans_after fun _ => spans_ite ?_ ?_
  · refine spans_located (spans_token fun names => ?_)
    refine spans_bind (spans_arguments false room) fun arguments as harguments =>
      spans_bind (spans_directives false room) fun directives ds hdirectives =>
        spans_bind (spans_whenNext h rfl) fun selections ss hselections =>
          spans_pure fun location => ?_
    rw [Selection.outline, Selection.outlineAll_eq_map, harguments, hdirectives, hselections,
      List.append_nil, List.append_assoc]
  · refine spans_located (spans_token fun _ => spans_after fun _ => spans_ite spans_fail ?_)
    refine spans_after fun _ => spans_ite ?_ ?_
    · refine spans_after fun name => spans_bind (spans_directives false room)
        fun directives ds hdirectives => spans_pure fun location => ?_
      rw [Selection.outline, hdirectives, List.append_nil]
    · refine spans_after fun condition => spans_bind (spans_directives false room)
        fun directives ds hdirectives => spans_bind h fun selections ss hselections =>
          spans_pure fun location => ?_
      rw [Selection.outline, Selection.outlineAll_eq_map, hdirectives, hselections,
        List.append_nil]

/-- Selections have one tree each. -/
theorem spans_selectionSet (room : Nat) :
    (selectionSet room).Spans 1 text file fun selections row =>
      selections.map Selection.outline = row := by
  induction room with
  | zero => exact spans_fail
  | succ room ih =>
      refine spans_token fun _ =>
        spans_bind (spans_deeper (spans_many1Nodes (spans_selection ih.any)))
          fun selections row hselections => spans_after fun _ => spans_pure ?_
      rw [hselections, List.append_nil]

/-! ### Definitions -/

/-- A variable definition has one tree. -/
theorem spans_variableDefinition (room : Nat) :
    (variableDefinition room).Spans 0 text file fun v row => [v.outline] = row := by
  have htype : (located (do let type ← type room; return fun location => (location, type))).Spans
      0 text file fun found row => [.node (some found.1) []] = row :=
    spans_located (spans_token fun _ => spans_pure fun _ => rfl)
  refine spans_located (spans_token fun _ => spans_after fun name => spans_after fun _ =>
    spans_bind htype fun found ts hfound => ?_)
  refine spans_bind (spans_optional (spans_behind (spans_value true room)))
    fun value vs hvalue => spans_bind (spans_directives true room)
      fun directives ds hdirectives => spans_pure fun location => ?_
  rw [VariableDefinition.outline, ← hfound, ← hvalue, hdirectives, List.append_nil,
    Option.toList_map]
  rfl

/-- Variable definitions have one tree each. -/
theorem spans_variableDefinitions (room : Nat) :
    (variableDefinitions room).Spans 0 text file fun parameters row =>
      parameters.map VariableDefinition.outline = row := by
  refine spans_whenNext (spans_after fun _ => ?_) rfl
  refine spans_bind (spans_many1Nodes (spans_variableDefinition room))
    fun parameters row hparameters => spans_after fun _ => spans_pure ?_
  rw [hparameters, List.append_nil]

/-- A definition that is still to be told its location, with the row of the nodes inside it. -/
abbrev Builds (build : Location → Definition) (row : List Outline) : Prop :=
  ∀ location, [(build location).outline] = [.node (some location) row]

/-- An operation has one tree. -/
theorem spans_operation (room : Nat) :
    (operation room).Spans 0 text file fun definition row => [definition.outline] = row := by
  refine spans_located (spans_after fun _ => spans_ite ?_ ?_)
  · refine spans_first (spans_selectionSet room) fun selections row hselections =>
      spans_pure fun location => ?_
    rw [Definition.outline, Operation.outline, hselections, List.append_nil]
    rfl
  · refine spans_token fun kind => spans_after fun name =>
      spans_bind (spans_variableDefinitions room) fun parameters ps hparameters =>
        spans_bind (spans_directives false room) fun directives ds hdirectives =>
          spans_bind (spans_selectionSet room).any fun selections ss hselections =>
            spans_pure fun location => ?_
    rw [Definition.outline, Operation.outline, hparameters, hdirectives, hselections,
      List.append_nil, List.append_assoc]

private theorem spans_fragmentBody (room : Nat) : (fragmentBody room).Spans 1 text file Builds := by
  refine spans_token fun name => spans_ite spans_fail ?_
  refine spans_after fun _ => spans_after fun condition =>
    spans_bind (spans_directives false room) fun directives ds hdirectives =>
      spans_bind (spans_selectionSet room).any fun selections ss hselections =>
        spans_pure fun location => ?_
  rw [Definition.outline, Fragment.outline, hdirectives, hselections, List.append_nil]

private theorem spans_typeSystemBody (room : Nat) :
    (typeSystemBody room).Spans 1 text file Builds := by
  refine spans_token fun keyword => spans_ite ?_ ?_
  · exact spans_after fun _ => spans_pure fun _ => rfl
  · split
    · exact spans_after fun _ => spans_pure fun _ => rfl
    · exact spans_fail

private theorem spans_typeSystemExtension (room : Nat) :
    (typeSystemExtension room).Spans 0 text file fun definition row =>
      [definition.outline] = row := by
  refine spans_located (spans_token fun _ => spans_after fun _ => ?_)
  dsimp only
  refine spans_ite nofun (spans_after fun keyword => ?_)
  split
  · exact spans_after fun _ => spans_pure fun _ => rfl
  · exact spans_fail

/-- A definition has one tree, whichever it is. -/
theorem spans_definition (room : Nat) :
    (definition room).Spans 0 text file fun definition row => [definition.outline] = row := by
  refine spans_after fun _ => spans_ite ?_ ?_
  · refine spans_located (spans_token fun _ => spans_after fun _ => spans_ite spans_fail ?_)
    exact spans_after fun _ =>
      spans_ite (spans_fragmentBody room).any (spans_typeSystemBody room).any
  · refine spans_after fun _ => spans_ite ?_ ?_
    · exact spans_located (spans_token fun _ => (spans_fragmentBody room).any)
    · refine spans_after fun _ => spans_ite (spans_typeSystemExtension room) ?_
      exact spans_after fun _ => spans_ite (spans_operation room)
        (spans_located (spans_typeSystemBody room))

/-- The definitions of a parsed text stand in it, one behind the other. -/
theorem row_of_parse? {limits : ParseLimits} {parsed : ParsedText}
    (h : parse? limits file text = some parsed) :
    ∃ stop, Outline.Row text file 0 stop (parsed.definitions.map Definition.outline) := by
  obtain ⟨tokens, pieces, cursor, hscan, hdefinitions⟩ := definitions_of_parse? h
  have hlaid := Token.laid_of_scan? hscan
  obtain ⟨_, _, _, rfl, hrow⟩ :=
    spans_manyNodes (spans_definition limits.depth) _ _ _ rfl hlaid hdefinitions
  exact ⟨cursor.stop, hrow.widen (Nat.zero_le _) (Nat.le_refl _)⟩

/-- The nodes of a parsed definition are nested, and all of them have a place in the text. -/
theorem nested_of_parse? {limits : ParseLimits} {parsed : ParsedText}
    (h : parse? limits file text = some parsed) {definition : Definition}
    (hmem : definition ∈ parsed.definitions) :
    definition.outline.Nested text file ∧
      ∀ location ∈ definition.locations, ∃ l, location = some l ∧ l.Placed text file := by
  obtain ⟨stop, hrow⟩ := row_of_parse? h
  have hnested := hrow.nested _ (List.mem_map_of_mem hmem)
  refine ⟨hnested, ?_⟩
  rw [← definition.locations_outline]
  exact hnested.placed

end Parser

/-- The locations of a document form a nested tree over its text. Every node has at least one byte
and begins and ends between characters, lies inside the node that contains it, and ends before the
next node of its list begins. -/
theorem Document.read_nested {limits : ParseLimits} {file : FileId} {source : Source}
    {read : ReadDocument} (h : Document.read limits file source = .ok read) :
    (read.document.definitions.map Definition.outline).Pairwise Outline.Before ∧
      ∀ definition ∈ read.document.definitions,
        definition.outline.Nested source.text file ∧
          ∀ location ∈ definition.locations,
            ∃ l, location = some l ∧ l.Placed source.text file := by
  obtain ⟨parsed, hparsed, rfl⟩ := read_eq_ok_iff.mp h
  obtain ⟨stop, hrow⟩ := Parser.row_of_parse? hparsed
  exact ⟨hrow.pairwise_before, fun _ => Parser.nested_of_parse? hparsed⟩

/-- A text with a character of two bytes, parts of values and two definitions. -/
def Source.accented : Source :=
  ⟨"accented.graphql", "query($a:I=1)\x7bx(o:\x7bk:\"é\",l:2\x7d)@d\x7d\x7by\x7d"⟩

/-- The ranges of its nodes. -/
def Source.accentedRanges : List (Nat × Nat) :=
  [(0, 34), (6, 12), (9, 10), (11, 12), (14, 33), (16, 30), (18, 30), (19, 25), (26, 29),
    (31, 33), (34, 37), (35, 36)]

/-- The nodes of this text lie in these ranges, nested and one after the other. -/
theorem Document.read_nested_accented :
    ∃ read, Document.read .standard 0 .accented = .ok read ∧
      read.document.definitions.flatMap Definition.locations =
        Source.accentedRanges.map (fun range => some ⟨0, range.1, range.2⟩) ∧
      (read.document.definitions.map Definition.outline).Pairwise Outline.Before ∧
      ∀ definition ∈ read.document.definitions,
        definition.outline.Nested Source.accented.text 0 ∧
          ∀ location ∈ definition.locations,
            ∃ l, location = some l ∧ l.Placed Source.accented.text 0 := by
  have hlocations : (Document.read .standard 0 .accented).toOption.map (fun read =>
      read.document.definitions.flatMap Definition.locations) =
        some (Source.accentedRanges.map fun range => some ⟨0, range.1, range.2⟩) := by
    decide +kernel
  obtain ⟨read, hread, hlist⟩ := Option.map_eq_some_iff.mp hlocations
  have hread := Outcome.toOption_eq_some_iff.mp hread
  exact ⟨read, hread, hlist, Document.read_nested hread⟩

end QueryCompiler

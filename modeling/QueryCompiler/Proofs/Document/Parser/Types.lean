import QueryCompiler.Proofs.Document.Lexemes
import QueryCompiler.Proofs.Document.Parser.Leads
import QueryCompiler.Proofs.Document.Parser.Results
import QueryCompiler.Proofs.Nullability
import QueryCompiler.Schema.Catalog

/-!
# Types of variables are read back from their text

The types that are read have no non-null marker directly on another, and names and nesting as the
grammar has them. The text of such a type is scanned as its tokens, whatever follows that cannot
belong to it, and from its tokens the type is read again.
-/

namespace QueryCompiler

namespace TypeRef

/-- How deep lists are nested in a type. -/
def depth : TypeRef → Nat
  | named _ => 0
  | list item => item.depth + 1
  | nonNull inner => inner.depth

/-- A type that can be written where there is room for nesting. -/
structure Writable (room : Nat) (type : TypeRef) : Prop where
  wellMarked : type.WellMarked
  name_written : type.innermost.Written
  depth_le : type.depth ≤ room

/-- The kinds of the tokens that a type is written with. -/
def kinds : TypeRef → List TokenKind
  | named name => [.name name]
  | list item => .punctuator .bracketOpen :: (item.kinds ++ [.punctuator .bracketClose])
  | nonNull inner => inner.kinds ++ [.punctuator .bang]

private theorem kinds_ne_nil (type : TypeRef) : type.kinds ≠ [] := by
  cases type <;> simp [kinds]

end TypeRef

/-- No mark belongs to a name in front of it. -/
theorem Punctuator.not_isNamePart (m : Punctuator) (rest : List Char) :
    ∀ d ∈ (m.chars ++ rest).head?, Lexeme.isNamePart d = false := by
  cases m <;>
    · rintro d ⟨⟩
      rfl

/-- The text of a type is scanned as its tokens. -/
theorem scans_typeText {type : TypeRef} (hname : type.innermost.Written) {rest : List Char}
    {kinds : List TokenKind} (hfollowing : ∀ d ∈ rest.head?, Lexeme.isNamePart d = false)
    (hrest : Scans rest kinds) : Scans (type.text.toList ++ rest) (type.kinds ++ kinds) := by
  induction type generalizing rest kinds with
  | named name => exact scans_name hname hfollowing hrest
  | list item ih =>
      have hclose := scans_mark .bracketClose hrest
      have hitem := ih hname (Punctuator.not_isNamePart .bracketClose rest) hclose
      have hopen := scans_mark .bracketOpen hitem
      simpa [TypeRef.text, TypeRef.kinds, Punctuator.chars] using hopen
  | nonNull inner ih =>
      have hbang := scans_mark .bang hrest
      have hinner := ih hname (Punctuator.not_isNamePart .bang rest) hbang
      simpa [TypeRef.text, TypeRef.kinds, Punctuator.chars] using hinner

namespace Parser

/-! ### Types that are read -/

/-- Where all names that are left are written as the grammar has them. -/
def NamesWritten (c : Cursor) : Prop :=
  ∀ token ∈ c.rest, ∀ name, token.kind = .name name → name.Written

instance : Kept NamesWritten where
  kept h hwritten := by
    induction h with
    | here => exact hwritten
    | take _ hrest ih =>
        intro token htoken
        exact ih token (by rw [hrest]; exact List.mem_cons_of_mem _ htoken)

/-- A name that is taken can be written. -/
theorem gives_take :
    take.Gives NamesWritten fun kind => ∀ name, kind = .name name → name.Written := by
  intro c kind c' hwritten h
  obtain ⟨token, rest, hrest, hresult⟩ := take_eq_some_iff.mp h
  obtain ⟨rfl, _⟩ := Prod.mk.inj hresult
  exact hwritten token (by rw [hrest]; exact List.mem_cons_self)

/-- The non-null marker that may follow a type. -/
abbrev marker (inner : TypeRef) : Parser TypeRef :=
  whenNext (isMark .bang) (do mark .bang; return .nonNull inner) inner

/-- A type with its mark can be written if it could before. -/
theorem writable_marker {room : Nat} {inner : TypeRef} (hinner : inner.Writable room)
    (hplain : inner.isNonNull = false) :
    (marker inner).Gives NamesWritten (TypeRef.Writable room) :=
  gives_whenNext (gives_after fun _ => gives_pure
    ⟨⟨hplain, hinner.wellMarked⟩, hinner.name_written, hinner.depth_le⟩) hinner

/-- A type can be written if the item types can. -/
theorem writable_typeOver {room : Nat} {item : Parser TypeRef} [item.Stays]
    (hitem : item.Gives NamesWritten fun type => (TypeRef.list type).Writable room) :
    (typeOver item).Gives NamesWritten (TypeRef.Writable room) := by
  refine gives_bind gives_take fun kind hkind => ?_
  split
  next text =>
    refine writable_marker ⟨trivial, hkind text rfl, Nat.zero_le _⟩ rfl
  · exact gives_bind hitem fun type htype => gives_after fun _ => writable_marker htype rfl
  · exact gives_fail

/-- A type that is read can be written. -/
theorem writable_type (room : Nat) : (type room).Gives NamesWritten (TypeRef.Writable room) := by
  induction room with
  | zero => exact writable_typeOver gives_fail
  | succ room ih =>
      refine writable_typeOver fun c type c' hwritten h => ?_
      have htype := gives_deeper ih c type c' hwritten h
      exact ⟨htype.wellMarked, htype.name_written, Nat.succ_le_succ htype.depth_le⟩

/-! ### Variables that are read -/

/-- A definition whose variables all have types that can be written. There is room for nesting if it
is an operation, because an operation has a selection set. -/
def TypesWritable (room : Nat) : Definition → Prop
  | .operation o => 0 < room ∧ ∀ v ∈ o.parameters, v.type.Writable room
  | .fragment _ => True
  | .typeSystem _ _ => True

/-- The types of variables that are read can be written. -/
theorem writable_variableDefinitions (room : Nat) :
    (variableDefinitions room).Gives NamesWritten fun parameters =>
      ∀ v ∈ parameters, v.type.Writable room := by
  have htype : (located (do let type ← type room; return fun location => (location, type))).Gives
      NamesWritten fun found => found.2.Writable room :=
    gives_located (gives_bind (writable_type room) fun _ htype => gives_pure fun _ => htype)
  have hvariable : (variableDefinition room).Gives NamesWritten fun v => v.type.Writable room := by
    refine gives_located (gives_after fun _ => gives_after fun _ =>
      gives_after fun _ => gives_bind htype fun found hfound => ?_)
    exact gives_after fun _ => gives_after fun _ => gives_pure fun _ => hfound
  refine gives_whenNext (gives_after fun _ => ?_) (List.forall_mem_nil _)
  exact gives_bind (gives_many1 hvariable) fun _ hparameters =>
    gives_after fun _ => gives_pure hparameters

/-- Selections are read only where there is room for them. -/
theorem room_of_selectionSet (room : Nat) :
    (selectionSet room).Gives NamesWritten fun _ => 0 < room := by
  cases room with
  | zero => exact gives_fail
  | succ room => exact fun _ _ _ _ _ => Nat.succ_pos room

/-- The types of an operation that is read can be written. -/
theorem writable_operation (room : Nat) :
    (operation room).Gives NamesWritten (TypesWritable room) := by
  refine gives_located (gives_after fun _ => gives_ite ?_ ?_)
  · exact gives_bind (room_of_selectionSet room) fun _ hroom =>
      gives_pure fun _ => ⟨hroom, List.forall_mem_nil _⟩
  · refine gives_after fun kind => gives_after fun name =>
      gives_bind (writable_variableDefinitions room) fun parameters hparameters => ?_
    exact gives_after fun _ => gives_bind (room_of_selectionSet room) fun _ hroom =>
      gives_pure fun _ => ⟨hroom, hparameters⟩

/-- The types of a definition that is read can be written. -/
theorem writable_definition (room : Nat) :
    (definition room).Gives NamesWritten (TypesWritable room) := by
  have hfragment : (fragmentBody room).Gives NamesWritten
      (Built (TypesWritable room)) := by
    refine gives_after fun name => gives_ite gives_fail (gives_after fun _ => ?_)
    exact gives_after fun _ => gives_after fun _ => gives_after fun _ =>
      gives_pure fun _ => trivial
  exact gives_definition (writable_operation room) hfragment fun _ _ => trivial

/-- The variables of a text have types that can be written with the room that the text has. -/
theorem writable_of_parse? {limits : ParseLimits} {file : FileId} {text : String}
    {parsed : ParsedText} (h : parse? limits file text = some parsed) :
    ∀ definition ∈ parsed.definitions, TypesWritable limits.depth definition := by
  obtain ⟨tokens, pieces, cursor, hscan, hdefinitions⟩ := definitions_of_parse? h
  have hwritten : NamesWritten ⟨file, tokens, 0, limits.depth⟩ := Token.written_of_scanFrom? hscan
  exact gives_many (writable_definition limits.depth) _ _ _ hwritten hdefinitions

/-! ### Types that are read back -/

private theorem leads_plain {inner : TypeRef} {rest : List TokenKind}
    (hrest : rest.head?.any (isMark .bang) = false) :
    (marker inner).Leads rest rest (· = inner) :=
  leads_otherwise hrest rfl

private theorem leads_marked {inner : TypeRef} {rest : List TokenKind} :
    (marker inner).Leads (.punctuator .bang :: rest) rest (· = .nonNull inner) :=
  leads_whenNext rfl (leads_after (leads_mark .bang) fun _ => leads_pure rfl)

/-- A type that is a name is read from that name. -/
theorem leads_typeOver_named {item : Parser TypeRef} {name : Name} {before rest : List TokenKind}
    {P : TypeRef → Prop} (hmarker : (marker (.named name)).Leads before rest P) :
    (typeOver item).Leads (.name name :: before) rest P :=
  leads_with leads_take (leads_with (leads_pure rfl) hmarker)

/-- A list type is read from its item type in brackets. -/
theorem leads_typeOver_list {item : Parser TypeRef} {type : TypeRef}
    {before between rest : List TokenKind} {P : TypeRef → Prop}
    (hitem : item.Leads before (.punctuator .bracketClose :: between) (· = type))
    (hmarker : (marker (.list type)).Leads between rest P) :
    (typeOver item).Leads (.punctuator .bracketOpen :: before) rest P :=
  leads_with leads_take (leads_with hitem (leads_after (leads_mark .bracketClose) fun _ =>
    leads_with (leads_pure rfl) hmarker))

/-- From the tokens of a type the type is read, if no further marker follows. -/
theorem leads_type : ∀ {type : TypeRef} {room : Nat} {rest : List TokenKind}, type.WellMarked →
    type.depth ≤ room → rest.head?.any (isMark .bang) = false →
    (Parser.type room).Leads (type.kinds ++ rest) rest (· = type)
  | .named name, room, rest, _, _, hrest => by
      cases room <;> exact leads_typeOver_named (leads_plain hrest)
  | .list item, room + 1, rest, hmarked, hdepth, hrest => by
      have hitem := @leads_type item room (.punctuator .bracketClose :: rest) hmarked
        (Nat.le_of_succ_le_succ hdepth) rfl
      have hlist : (Parser.type (room + 1)).Leads (.punctuator .bracketOpen ::
          (item.kinds ++ .punctuator .bracketClose :: rest)) rest (· = .list item) :=
        leads_typeOver_list (leads_deeper hitem) (leads_plain hrest)
      simpa [TypeRef.kinds] using hlist
  | .nonNull (.named name), room, rest, _, _, _ => by
      cases room <;> exact leads_typeOver_named leads_marked
  | .nonNull (.list item), room + 1, rest, hmarked, hdepth, _ => by
      have hitem := @leads_type item room (.punctuator .bracketClose :: .punctuator .bang :: rest)
        hmarked.2 (Nat.le_of_succ_le_succ hdepth) rfl
      have hlist : (Parser.type (room + 1)).Leads (.punctuator .bracketOpen ::
          (item.kinds ++ .punctuator .bracketClose :: .punctuator .bang :: rest)) rest
          (· = .nonNull (.list item)) :=
        leads_typeOver_list (leads_deeper hitem) leads_marked
      simpa [TypeRef.kinds] using hlist

end Parser

/-! ### Declarations -/

namespace TypeRef

/-- A text that declares a variable of a type. -/
def declaration (type : TypeRef) (name : Name) : String :=
  "query($" ++ name ++ ":" ++ type.text ++ ")\x7bf\x7d"

/-- What such a text declares, apart from locations. -/
def declared (type : TypeRef) (name : Name) : Definition :=
  .operation ⟨none, .query, none, [⟨none, name, none, type, none, []⟩], [],
    [.field none none "f" [] [] []]⟩

/-- The kinds of the tokens of such a text. -/
def declarationKinds (type : TypeRef) (name : Name) : List TokenKind :=
  .name "query" :: .punctuator .parenOpen :: .punctuator .dollar :: .name name ::
    .punctuator .colon :: (type.kinds ++ [.punctuator .parenClose, .punctuator .braceOpen,
      .name "f", .punctuator .braceClose])

end TypeRef

variable {type : TypeRef} {name : Name}

/-- The tokens of a declaration. -/
theorem scans_declaration (htype : type.innermost.Written) (hname : name.Written) :
    Scans (type.declaration name).toList (type.declarationKinds name) := by
  have hfield : Name.Written "f" := ⟨'f', [], rfl, rfl, List.forall_mem_nil _⟩
  have hquery : Name.Written "query" :=
    ⟨'q', ['u', 'e', 'r', 'y'], rfl, rfl, List.all_eq_true.mp rfl⟩
  have hbehind := scans_mark .parenClose (scans_mark .braceOpen
    (scans_name hfield (Punctuator.not_isNamePart .braceClose [])
      (scans_mark .braceClose scans_nil)))
  have htyped := scans_mark .colon
    (scans_typeText htype (Punctuator.not_isNamePart .parenClose _) hbehind)
  have hvariable := scans_mark .parenOpen (scans_mark .dollar
    (scans_name hname (Punctuator.not_isNamePart .colon _) htyped))
  have hall := scans_name hquery (Punctuator.not_isNamePart .parenOpen _) hvariable
  simpa [TypeRef.declaration, TypeRef.declarationKinds, Punctuator.chars] using hall

namespace Parser

variable {room : Nat} {rest : List TokenKind}

/-- The selections of a declaration are read back. -/
theorem leads_selectionSet (field : Name) :
    (selectionSet (room + 1)).Leads
      (.punctuator .braceOpen :: .name field :: .punctuator .braceClose :: rest) rest
      fun selections => Selection.stripAll selections = [.field none none field [] [] []] := by
  have hname : fieldName.Leads (.name field :: .punctuator .braceClose :: rest)
      (.punctuator .braceClose :: rest) (· = (none, field)) :=
    leads_with (leads_name field) (leads_with (leads_directlyNextIs rfl) (leads_pure rfl))
  have hselection : (selection room (selectionSet room)).Leads
      (.name field :: .punctuator .braceClose :: rest) (.punctuator .braceClose :: rest)
      fun selection => selection.strip = .field none none field [] [] [] := by
    refine leads_with (a := true) (leads_nextIs rfl) ?_
    refine leads_located (List.cons_ne_nil _ _) (leads_with hname ?_)
    refine leads_with (a := []) (leads_otherwise rfl rfl) ?_
    refine leads_with (a := []) (leads_many_none rfl) ?_
    exact leads_with (a := []) (leads_otherwise rfl rfl) (leads_pure fun _ => rfl)
  refine leads_after (leads_mark .braceOpen) fun _ => ?_
  refine leads_bind (leads_deeper (leads_many1_one hselection rfl)) ?_
  rintro _ ⟨selection, rfl, hstrip⟩
  refine leads_after (leads_mark .braceClose) fun _ => leads_pure ?_
  rw [Selection.stripAll, hstrip, Selection.stripAll]

/-- The variable of a declaration is read back, with its type. -/
theorem leads_variableDefinitions (hmarked : type.WellMarked) (hdepth : type.depth ≤ room) :
    (variableDefinitions room).Leads
      (.punctuator .parenOpen :: .punctuator .dollar :: .name name :: .punctuator .colon ::
        (type.kinds ++ .punctuator .parenClose :: rest)) rest
      fun parameters => parameters.map VariableDefinition.strip =
        [⟨none, name, none, type, none, []⟩] := by
  have htype : (located (do let type ← Parser.type room; return fun location =>
      (location, type))).Leads (type.kinds ++ .punctuator .parenClose :: rest)
      (.punctuator .parenClose :: rest) fun found => found.2 = type :=
    leads_located (List.append_ne_nil_of_left_ne_nil type.kinds_ne_nil _)
      (leads_with (leads_type hmarked hdepth rfl) (leads_pure fun _ => rfl))
  have hvariable : (variableDefinition room).Leads
      (.punctuator .dollar :: .name name :: .punctuator .colon ::
        (type.kinds ++ .punctuator .parenClose :: rest)) (.punctuator .parenClose :: rest)
      fun v => v.strip = ⟨none, name, none, type, none, []⟩ := by
    refine leads_located (List.cons_ne_nil _ _) (leads_after (leads_mark .dollar) fun _ => ?_)
    refine leads_with (leads_name name) (leads_after (leads_mark .colon) fun _ => ?_)
    refine leads_bind htype ?_
    rintro ⟨typeLocation, _⟩ rfl
    refine leads_with (a := none) (leads_otherwise rfl rfl) ?_
    exact leads_with (a := []) (leads_many_none rfl) (leads_pure fun _ => rfl)
  refine leads_whenNext rfl (leads_after (leads_mark .parenOpen) fun _ => ?_)
  refine leads_bind (leads_many1_one hvariable rfl) ?_
  rintro _ ⟨v, rfl, hstrip⟩
  refine leads_after (leads_mark .parenClose) fun _ => leads_pure ?_
  rw [List.map_singleton, hstrip]

/-- A declaration is read back. -/
theorem leads_declaration (name : Name) (hmarked : type.WellMarked) (hdepth : type.depth ≤ room)
    (hroom : 0 < room) :
    (definitions room).Leads (type.declarationKinds name) [] fun definitions =>
      definitions.map Definition.strip = [type.declared name] := by
  obtain ⟨room, rfl⟩ := Nat.exists_eq_succ_of_ne_zero (Nat.ne_of_gt hroom)
  have hkind {rest : List TokenKind} :
      operationKind.Leads (.name "query" :: rest) rest (· = .query) :=
    leads_with leads_take (leads_pure rfl)
  have hoperation : (operation (room + 1)).Leads (type.declarationKinds name) []
      fun definition => definition.strip = type.declared name := by
    refine leads_located (List.cons_ne_nil _ _) (leads_with (a := false) (leads_nextIs rfl) ?_)
    refine leads_with hkind (leads_with (a := none) (leads_otherwise rfl rfl) ?_)
    refine leads_bind (leads_variableDefinitions hmarked hdepth) fun parameters hparameters => ?_
    refine leads_with (a := []) (leads_many_none rfl) ?_
    refine leads_bind (leads_selectionSet "f") fun selections hselections => leads_pure fun _ => ?_
    rw [Definition.strip, Operation.strip, hparameters, hselections]
    rfl
  have hdefinition : (definition (room + 1)).Leads (type.declarationKinds name) []
      fun definition => definition.strip = type.declared name := by
    refine leads_with (a := false) (leads_nextIs rfl) ?_
    refine leads_with (a := false) (leads_nextIs rfl) ?_
    refine leads_with (a := false) (leads_nextIs rfl) ?_
    exact leads_with (a := true) (leads_nextIs rfl) hoperation
  refine (leads_many_one rfl hdefinition rfl).imp ?_
  rintro _ ⟨definition, rfl, hstrip⟩
  rw [List.map_singleton, hstrip]

/-- A text whose tokens lead through its definitions is parsed. -/
theorem exists_parse? {depth : Nat} {file : FileId} {text : String} {kinds : List TokenKind}
    {P : List Definition → Prop} (hscan : Scans text.toList kinds)
    (hleads : (definitions depth).Leads kinds [] P) :
    ∃ parsed, parse? ⟨depth, none⟩ file text = some parsed ∧ P parsed.definitions := by
  obtain ⟨tokens, pieces, htokens, hkinds⟩ := hscan 0 false
  obtain ⟨found, cursor, hfound, hrest, hP⟩ := hleads ⟨file, tokens, 0, depth⟩ hkinds
  have hempty : cursor.rest = [] := List.map_eq_nil_iff.mp hrest
  refine ⟨⟨found, depth - cursor.room, pieces⟩, ?_, hP⟩
  have htext : Token.scan? text = some (tokens, pieces) := htokens
  simp [parse?, htext, hfound, hempty]

end Parser

/-- The types of variables have no non-null marker directly on another, so that they can be resolved
with every catalog. The text of such a type, as the type of any variable, is read as the same type,
and is not nested too deep for that. -/
theorem Document.read_types {limits : ParseLimits} {file : FileId} {source : Source}
    {read : ReadDocument} (h : Document.read limits file source = .ok read) {o : Operation}
    (ho : .operation o ∈ read.document.definitions) {v : VariableDefinition}
    (hv : v ∈ o.parameters) :
    v.type.WellMarked ∧ (∀ c : Catalog, ∃ r, c.resolve v.type = .ok r) ∧
      ∀ name, name.Written → ∀ file path, ∃ again,
        Document.read { limits with pieces := none } file ⟨path, v.type.declaration name⟩ =
          .ok again ∧
        again.document.definitions.map Definition.strip = [v.type.declared name] := by
  obtain ⟨parsed, hparsed, rfl⟩ := read_eq_ok_iff.mp h
  obtain ⟨hroom, hparameters⟩ := Parser.writable_of_parse? hparsed _ ho
  have htype : v.type.Writable limits.depth := hparameters v hv
  refine ⟨htype.wellMarked, fun c => TypeRef.exists_resolve_eq_ok_iff.mpr htype.wellMarked, ?_⟩
  intro name hname file path
  have hscans := scans_declaration htype.name_written hname
  have hleads := Parser.leads_declaration name htype.wellMarked htype.depth_le hroom
  obtain ⟨again, hagain, hdeclared⟩ := Parser.exists_parse? hscans hleads
  exact ⟨_, read_eq_ok_iff.mpr ⟨again, hagain, rfl⟩, hdeclared⟩

/-- A list of lists with blanks between its markers. -/
def Source.spaced : Source := ⟨"spaced.graphql", "query($v:[ [ID!] ]!)\x7bf\x7d"⟩

def TypeRef.spaced : TypeRef := .nonNull (.list (.list (.nonNull (.named "ID"))))

def Operation.spaced : Operation :=
  ⟨some ⟨0, 0, 23⟩, .query, none, [⟨some ⟨0, 6, 19⟩, "v", some ⟨0, 9, 19⟩, .spaced, none, []⟩], [],
    [.field (some ⟨0, 21, 22⟩) none "f" [] [] []]⟩

/-- The type of this text is read, and read back from its declaration. -/
theorem Document.read_types_spaced :
    Document.read .standard 0 .spaced = .ok ⟨⟨[(0, .spaced)], [.operation .spaced]⟩, 2, 19⟩ ∧
      TypeRef.spaced.WellMarked ∧ (∀ c : Catalog, ∃ r, c.resolve .spaced = .ok r) ∧
      ∃ again, Document.read .standard 1 ⟨"again.graphql", "query($again:[[ID!]]!)\x7bf\x7d"⟩ =
        .ok again ∧
        again.document.definitions.map Definition.strip = [TypeRef.spaced.declared "again"] := by
  have hparsed : (Parser.parse? .standard 0 Source.spaced.text).map (fun parsed =>
      (parsed.definitions, parsed.depthReached, parsed.piecesReached)) =
        some ([.operation .spaced], 2, 19) := by
    decide +kernel
  obtain ⟨⟨_, _, _⟩, hparsed, ⟨⟩⟩ := Option.map_eq_some_iff.mp hparsed
  have hread := Document.read_eq_ok_iff.mpr ⟨_, hparsed, rfl⟩
  have hagain : Name.Written "again" :=
    ⟨'a', ['g', 'a', 'i', 'n'], rfl, rfl, List.all_eq_true.mp rfl⟩
  obtain ⟨hmarked, hresolve, hback⟩ :=
    Document.read_types hread (List.mem_singleton.mpr rfl) (List.mem_singleton.mpr rfl)
  exact ⟨hread, hmarked, hresolve, hback "again" hagain 1 "again.graphql"⟩

end QueryCompiler

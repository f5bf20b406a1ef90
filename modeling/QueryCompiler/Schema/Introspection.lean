import QueryCompiler.Json.Decode
import QueryCompiler.Schema.Definition

/-!
# Introspection answers

What a server answers when it is asked for its schema: a list of types, and which of them operations
start from. References keep the kind that the answer gives for the type they lead to.
-/

namespace QueryCompiler.Introspection

/-- The kinds of types. -/
inductive TypeKind where
  | scalar
  | object
  | interface
  | union
  | enum
  | inputObject
  | list
  | nonNull
  deriving DecidableEq, Repr

namespace TypeKind

/-- The kinds in the order in which messages list them. -/
def all : List TypeKind :=
  [scalar, object, interface, union, enum, inputObject, list, nonNull]

/-- The word for a kind in an answer. -/
def word : TypeKind → String
  | scalar => "SCALAR"
  | object => "OBJECT"
  | interface => "INTERFACE"
  | union => "UNION"
  | enum => "ENUM"
  | inputObject => "INPUT_OBJECT"
  | list => "LIST"
  | nonNull => "NON_NULL"

/-- How messages speak of a kind. -/
def description : TypeKind → String
  | scalar => "scalar"
  | object => "object"
  | interface => "interface"
  | union => "union"
  | enum => "enum"
  | inputObject => "input object"
  | list => "list"
  | nonNull => "non-null"

/-- Whether a kind is one of the two that wrap another type. -/
def isWrapper : TypeKind → Bool
  | list => true
  | nonNull => true
  | _ => false

/-- The kind of a word. -/
def ofWord (text : String) : Except DecodeError TypeKind :=
  match all.find? fun kind => kind.word = text with
  | some kind => .ok kind
  | none => .error (.unknownVariant text (all.map word))

/-- A kind is a word, or an object with the word as its only key and nothing under it. -/
def ofJson : Json → Except DecodeError TypeKind
  | .string text => ofWord text
  | .object [(text, content)] => do
      let kind ← ofWord text
      match content with
      | .null => return kind
      | content => content.unexpected "unit"
  | .object members => .error (.wrongValue (Json.object members).found "map with a single key")
  | j => j.unexpected "string or map"

end TypeKind

/-- A reference to a named type, with the kind that the answer gives for it. -/
structure NamedRef where
  kind : Option TypeKind
  name : Name
  deriving DecidableEq, Repr

/-- One type of an answer. Lists that are not given are empty. -/
structure TypeEntry where
  kind : TypeKind
  name : Option Name
  description : Option String
  fields : List FieldDefinition
  inputFields : List InputValueDefinition
  interfaces : List NamedRef
  enumValues : List EnumValueDefinition
  possibleTypes : List NamedRef
  specifiedBy : Option String
  deriving DecidableEq, Repr

/-- A whole answer. -/
structure Schema where
  queryType : Option NamedRef
  mutationType : Option NamedRef
  subscriptionType : Option NamedRef
  types : List TypeEntry
  deriving DecidableEq, Repr

/-! ### Type references -/

/-- What has been read of a type reference. -/
structure TypeRefParts where
  kind : Option TypeKind
  name : Option Name
  inner : Option TypeRef

/-- The type reference that its parts make up. -/
def TypeRefParts.complete (parts : TypeRefParts) : Except DecodeError TypeRef :=
  match parts.kind with
  | none => .error (.missingField "kind")
  | some .list =>
      match parts.inner with
      | some inner => .ok (.list inner)
      | none => .error (.missingInnerType TypeKind.list.word)
  | some .nonNull =>
      match parts.inner with
      | some inner => .ok (.nonNull inner)
      | none => .error (.missingInnerType TypeKind.nonNull.word)
  | some _ =>
      match parts.name with
      | some name => .ok (.named name)
      | none => .error .missingTypeName

mutual

/-- Read a type reference: its kind, and the name or the type inside, as the kind asks for. -/
def typeRef : Json → Except DecodeError TypeRef
  | .object members => do (← typeRefParts members ⟨none, none, none⟩).complete
  | j => j.unexpected "a TypeRef field"

/-- Read the parts of a type reference. A type inside is read even if the kind asks for none. -/
def typeRefParts : List (String × Json) → TypeRefParts → Except DecodeError TypeRefParts
  | [], parts => .ok parts
  | (key, value) :: rest, parts => do
      if key = "kind" then typeRefParts rest { parts with kind := some (← TypeKind.ofJson value) }
      else if key = "name" then
        typeRefParts rest { parts with name := ← value.toOption Json.toText }
      else if key = "ofType" then
        match value with
        | .null => typeRefParts rest { parts with inner := none }
        | value => typeRefParts rest { parts with inner := some (← typeRef value) }
      else typeRefParts rest parts

end

/-! ### Records -/

/-- The form of a reference to a named type. -/
def namedRefShape : Shape := ⟨"NamedTypeRef", [("kind", .never), ("name", .always)]⟩

/-- Read a reference to a named type. -/
def namedRef : Json → Except DecodeError NamedRef :=
  namedRefShape.read ⟨none, ""⟩ fun r key v => do
    match key with
    | "kind" => return { r with kind := ← v.toOption TypeKind.ofJson }
    | "name" => return { r with name := ← v.toText }
    | _ => return r

/-- The form of an argument or input field. -/
def inputValueShape : Shape :=
  ⟨"InputValue",
    [("name", .always), ("description", .never), ("type", .always), ("defaultValue", .never)]⟩

/-- Read an argument or input field. -/
def inputValue : Json → Except DecodeError InputValueDefinition :=
  inputValueShape.read ⟨"", none, .named "", none⟩ fun r key v => do
    match key with
    | "name" => return { r with name := ← v.toText }
    | "description" => return { r with description := ← v.toOption Json.toText }
    | "type" => return { r with type := ← typeRef v }
    | "defaultValue" => return { r with defaultValue := ← v.toOption Json.toText }
    | _ => return r

/-- The form of a field. -/
def fieldShape : Shape :=
  ⟨"FieldDef",
    [("name", .always), ("description", .never), ("args", .never), ("type", .always),
      ("isDeprecated", .never), ("deprecationReason", .never)]⟩

/-- Read a field. -/
def field : Json → Except DecodeError FieldDefinition :=
  fieldShape.read ⟨"", none, [], .named "", false, none⟩ fun r key v => do
    match key with
    | "name" => return { r with name := ← v.toText }
    | "description" => return { r with description := ← v.toOption Json.toText }
    | "args" => return { r with arguments := ← v.toItems inputValue }
    | "type" => return { r with type := ← typeRef v }
    | "isDeprecated" => return { r with isDeprecated := ← v.toBool }
    | "deprecationReason" => return { r with deprecationReason := ← v.toOption Json.toText }
    | _ => return r

/-- The form of an enum value. -/
def enumValueShape : Shape :=
  ⟨"EnumValue",
    [("name", .always), ("description", .never), ("isDeprecated", .never),
      ("deprecationReason", .never)]⟩

/-- Read an enum value. -/
def enumValue : Json → Except DecodeError EnumValueDefinition :=
  enumValueShape.read ⟨"", none, false, none⟩ fun r key v => do
    match key with
    | "name" => return { r with name := ← v.toText }
    | "description" => return { r with description := ← v.toOption Json.toText }
    | "isDeprecated" => return { r with isDeprecated := ← v.toBool }
    | "deprecationReason" => return { r with deprecationReason := ← v.toOption Json.toText }
    | _ => return r

/-- The form of a type. -/
def typeShape : Shape :=
  ⟨"TypeDef",
    [("kind", .always), ("name", .never), ("description", .never), ("fields", .never),
      ("inputFields", .never), ("interfaces", .never), ("enumValues", .never),
      ("possibleTypes", .never), ("specifiedByURL", .never)]⟩

/-- Read a type. -/
def typeEntry : Json → Except DecodeError TypeEntry :=
  typeShape.read ⟨.scalar, none, none, [], [], [], [], [], none⟩ fun r key v => do
    match key with
    | "kind" => return { r with kind := ← TypeKind.ofJson v }
    | "name" => return { r with name := ← v.toOption Json.toText }
    | "description" => return { r with description := ← v.toOption Json.toText }
    | "fields" => return { r with fields := ← v.toOptionalItems field }
    | "inputFields" => return { r with inputFields := ← v.toOptionalItems inputValue }
    | "interfaces" => return { r with interfaces := ← v.toOptionalItems namedRef }
    | "enumValues" => return { r with enumValues := ← v.toOptionalItems enumValue }
    | "possibleTypes" => return { r with possibleTypes := ← v.toOptionalItems namedRef }
    | "specifiedByURL" => return { r with specifiedBy := ← v.toOption Json.toText }
    | _ => return r

/-- The form of a schema. -/
def schemaShape : Shape :=
  ⟨"Schema",
    [("queryType", .inArray), ("mutationType", .never), ("subscriptionType", .never),
      ("types", .always)]⟩

/-- Read a schema. -/
def schema : Json → Except DecodeError Schema :=
  schemaShape.read ⟨none, none, none, []⟩ fun r key v => do
    match key with
    | "queryType" => return { r with queryType := ← v.toOption namedRef }
    | "mutationType" => return { r with mutationType := ← v.toOption namedRef }
    | "subscriptionType" => return { r with subscriptionType := ← v.toOption namedRef }
    | "types" => return { r with types := ← v.toItems typeEntry }
    | _ => return r

/-- The schema inside a whole response: under `data`, then under `__schema`, where these are
given. -/
def unwrap (j : Json) : Json :=
  let j := (j.get? "data").getD j
  (j.get? "__schema").getD j

end QueryCompiler.Introspection

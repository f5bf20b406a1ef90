import QueryCompiler.Document.Value
import QueryCompiler.TypeRef

/-!
# Documents

Operations and fragments as they stand in a request document. Definitions that belong to a schema
are kept by their description only, so that they can be refused.
-/

namespace QueryCompiler

/-- The three kinds of operation. -/
inductive OperationKind where
  | query
  | mutation
  | subscription
  deriving DecidableEq, Repr

namespace OperationKind

/-- The word that begins an operation of this kind. -/
def keyword : OperationKind → String
  | query => "query"
  | mutation => "mutation"
  | subscription => "subscription"

/-- What is put behind the name of an operation to name its generated type. -/
def suffix : OperationKind → String
  | query => "Query"
  | mutation => "Mutation"
  | subscription => "Subscription"

end OperationKind

/-- One item of a selection set. A field without sub-selections has none in its list. -/
inductive Selection where
  | field (location : Option Location) (aliasName : Option Name) (name : Name)
      (arguments : List Argument) (directives : List Directive) (selections : List Selection)
  | spread (location : Option Location) (name : Name) (directives : List Directive)
  | inline (location : Option Location) (condition : Option Name)
      (directives : List Directive) (selections : List Selection)

namespace Selection

/-- Where a selection was read from. -/
def location : Selection → Option Location
  | field location .. => location
  | spread location .. => location
  | inline location .. => location

mutual

/-- Equality of selections is decided part by part. -/
def decEq : (a b : Selection) → Decidable (a = b)
  | field la aa na ra da sa, field lb ab nb rb db sb =>
      if h : la = lb ∧ aa = ab ∧ na = nb ∧ ra = rb ∧ da = db then
        match decEqAll sa sb with
        | isTrue hs => isTrue (by rw [h.1, h.2.1, h.2.2.1, h.2.2.2.1, h.2.2.2.2, hs])
        | isFalse hs => isFalse fun e => hs (by cases e; rfl)
      else isFalse fun e => h (by cases e; exact ⟨rfl, rfl, rfl, rfl, rfl⟩)
  | spread la na da, spread lb nb db =>
      if h : la = lb ∧ na = nb ∧ da = db then isTrue (by rw [h.1, h.2.1, h.2.2])
      else isFalse fun e => h (by cases e; exact ⟨rfl, rfl, rfl⟩)
  | inline la ca da sa, inline lb cb db sb =>
      if h : la = lb ∧ ca = cb ∧ da = db then
        match decEqAll sa sb with
        | isTrue hs => isTrue (by rw [h.1, h.2.1, h.2.2, hs])
        | isFalse hs => isFalse fun e => hs (by cases e; rfl)
      else isFalse fun e => h (by cases e; exact ⟨rfl, rfl, rfl⟩)
  | field .., spread .. => isFalse nofun
  | field .., inline .. => isFalse nofun
  | spread .., field .. => isFalse nofun
  | spread .., inline .. => isFalse nofun
  | inline .., field .. => isFalse nofun
  | inline .., spread .. => isFalse nofun

/-- Equality of lists of selections. -/
def decEqAll : (as bs : List Selection) → Decidable (as = bs)
  | [], [] => isTrue rfl
  | a :: as, b :: bs =>
      match decEq a b with
      | isTrue h =>
          match decEqAll as bs with
          | isTrue hs => isTrue (by rw [h, hs])
          | isFalse hs => isFalse fun e => hs (by cases e; rfl)
      | isFalse h => isFalse fun e => h (by cases e; rfl)
  | [], _ :: _ => isFalse nofun
  | _ :: _, [] => isFalse nofun

end

instance : DecidableEq Selection := decEq

mutual

/-- A selection without any location. -/
def strip : Selection → Selection
  | field _ aliasName name arguments directives selections =>
      field none aliasName name (arguments.map Argument.strip) (directives.map Directive.strip)
        (stripAll selections)
  | spread _ name directives => spread none name (directives.map Directive.strip)
  | inline _ condition directives selections =>
      inline none condition (directives.map Directive.strip) (stripAll selections)

/-- Selections without any location. -/
def stripAll : List Selection → List Selection
  | [] => []
  | selection :: rest => selection.strip :: stripAll rest

end

end Selection

/-- A variable that an operation declares. -/
structure VariableDefinition where
  location : Option Location
  name : Name
  typeLocation : Option Location
  type : TypeRef
  defaultValue : Option Value
  directives : List Directive
  deriving DecidableEq

namespace VariableDefinition

/-- A variable without any location. -/
def strip (v : VariableDefinition) : VariableDefinition :=
  ⟨none, v.name, none, v.type, v.defaultValue.map Value.strip, v.directives.map Directive.strip⟩

end VariableDefinition

/-- A query, mutation or subscription. -/
structure Operation where
  location : Option Location
  kind : OperationKind
  name : Option Name
  /-- The variables that the operation declares. -/
  parameters : List VariableDefinition
  directives : List Directive
  selections : List Selection
  deriving DecidableEq

namespace Operation

/-- An operation without any location. -/
def strip (o : Operation) : Operation :=
  ⟨none, o.kind, o.name, o.parameters.map VariableDefinition.strip,
    o.directives.map Directive.strip, Selection.stripAll o.selections⟩

end Operation

/-- A named selection set that can be spread where its type condition applies. -/
structure Fragment where
  location : Option Location
  name : Name
  condition : Name
  directives : List Directive
  selections : List Selection
  deriving DecidableEq

namespace Fragment

/-- A fragment without any location. -/
def strip (f : Fragment) : Fragment :=
  ⟨none, f.name, f.condition, f.directives.map Directive.strip, Selection.stripAll f.selections⟩

end Fragment

/-- One definition of a document. -/
inductive Definition where
  | operation (operation : Operation)
  | fragment (fragment : Fragment)
  /-- A definition that belongs to a schema, such as `an object type definition`. -/
  | typeSystem (location : Option Location) (description : String)
  deriving DecidableEq

namespace Definition

/-- A definition without any location. -/
def strip : Definition → Definition
  | operation o => operation o.strip
  | fragment f => fragment f.strip
  | typeSystem _ description => typeSystem none description

/-- Two definitions are the same if they differ in locations at most. -/
def Same (a b : Definition) : Prop := a.strip = b.strip

instance (a b : Definition) : Decidable (Same a b) :=
  inferInstanceAs (Decidable (a.strip = b.strip))

end Definition

/-- Definitions, with the sources that they were read from. -/
structure Document where
  sources : List (FileId × Source)
  definitions : List Definition
  deriving DecidableEq

namespace Document

/-- The operations of a document, in order. -/
def operations (d : Document) : List Operation :=
  d.definitions.filterMap fun
    | .operation o => some o
    | _ => none

/-- The fragments of a document, in order. -/
def fragments (d : Document) : List Fragment :=
  d.definitions.filterMap fun
    | .fragment f => some f
    | _ => none

/-- Two documents are the same if their definitions are, one by one. -/
def Same (a b : Document) : Prop :=
  a.definitions.map Definition.strip = b.definitions.map Definition.strip

instance (a b : Document) : Decidable (Same a b) :=
  inferInstanceAs
    (Decidable (a.definitions.map Definition.strip = b.definitions.map Definition.strip))

end Document

end QueryCompiler

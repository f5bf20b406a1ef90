import QueryCompiler.Document.Signature
import QueryCompiler.ResolvedType
import QueryCompiler.Schema.CompositeType
import QueryCompiler.Text.CaseMapping

/-!
# Selection sets

A selection set that has been resolved against its type: which fields, spreads and inline
fragments it consists of, each with its declaration and its type. The four kinds of selections
stand in lists of their own, each in the order of the document.
-/

namespace QueryCompiler

/-- The field that every composite type has besides those that it declares. -/
def typenameField : Name := "__typename"

/-- The declaration of the field that every composite type has. -/
def FieldDefinition.typename : FieldDefinition :=
  ⟨typenameField, none, [], .nonNull (.named BuiltInScalar.string.name), false, none⟩

/-- A selected field with its declaration. -/
structure SelectedField where
  location : Option Location
  aliasName : Option Name
  name : Name
  definition : FieldDefinition
  type : ResolvedType
  arguments : List Argument
  directives : List Directive
  deriving DecidableEq

namespace SelectedField

/-- The key under which a field appears in a response. -/
def responseKey (f : SelectedField) : Name := f.aliasName.getD f.name

/-- Whether a field is the one that every composite type has. -/
def isTypename (f : SelectedField) : Bool := f.name = typenameField

/-- The selection of `__typename` that is made where a document makes none. -/
def typename : SelectedField :=
  ⟨none, none, typenameField, .typename, .value (.builtIn .string), [], []⟩

/-- A field without any location. -/
def strip (f : SelectedField) : SelectedField :=
  ⟨none, f.aliasName, f.name, f.definition, f.type, f.arguments.map Argument.strip,
    f.directives.map Directive.strip⟩

end SelectedField

/-- The spread of a fragment. -/
structure Spread where
  location : Option Location
  name : Name
  directives : List Directive
  deriving DecidableEq

namespace Spread

/-- A spread without any location. -/
def strip (s : Spread) : Spread := ⟨none, s.name, s.directives.map Directive.strip⟩

end Spread

mutual

/-- A selection set that has been resolved against its type. -/
structure SelectionSet where
  typeName : Name
  kind : CompositeKind
  /-- The fields that lead here from the operation or fragment. -/
  traversed : List SelectedField
  /-- The fields without sub-selections. -/
  scalars : List SelectedField
  spreads : List Spread
  objects : List ObjectField
  inlines : List InlineFragment

/-- A field with sub-selections. -/
structure ObjectField where
  field : SelectedField
  selectionSet : SelectionSet
  /-- Whether another field beside this one has sub-selections on the same type, so that the type
  names generated for the two would be one. -/
  isAmbiguous : Bool

/-- An inline fragment. -/
structure InlineFragment where
  /-- The type condition; that of the surrounding selection set where none is written. -/
  condition : Name
  directives : List Directive
  selectionSet : SelectionSet

end

namespace ObjectField

/-- The type that is generated for a field. If it is ambiguous, the response key goes in front of
the name of its innermost type. -/
def typeIdentifier (o : ObjectField) : ResolvedType :=
  if o.isAmbiguous then
    o.field.type.mapBase fun base =>
      .named (Text.upperFirst o.field.responseKey ++ base.targetName)
  else o.field.type

end ObjectField

namespace InlineFragment

/-- The name of the type that is generated for an inline fragment. -/
def typeIdentifier (i : InlineFragment) : String :=
  "As" ++ Text.upperFirst i.condition ++ directivesSignature i.directives

/-- The name of the property that holds an inline fragment. -/
def variableIdentifier (i : InlineFragment) : String := Text.lowerFirst i.typeIdentifier

end InlineFragment

namespace SelectionSet

/-- The response keys of the fields that lead to a selection set. -/
def path (s : SelectionSet) : String :=
  ".".intercalate (s.traversed.map SelectedField.responseKey)

/-! ### Equality -/

mutual

/-- Equality of selection sets is decided part by part. -/
def decEq : (a b : SelectionSet) → Decidable (a = b)
  | ⟨na, ka, ta, sa, pa, oa, ia⟩, ⟨nb, kb, tb, sb, pb, ob, ib⟩ =>
      if h : na = nb ∧ ka = kb ∧ ta = tb ∧ sa = sb ∧ pa = pb then
        match decEqObjects oa ob with
        | isTrue ho =>
            match decEqInlines ia ib with
            | isTrue hi =>
                isTrue (by rw [h.1, h.2.1, h.2.2.1, h.2.2.2.1, h.2.2.2.2, ho, hi])
            | isFalse hi => isFalse fun e => hi (by cases e; rfl)
        | isFalse ho => isFalse fun e => ho (by cases e; rfl)
      else isFalse fun e => h (by cases e; exact ⟨rfl, rfl, rfl, rfl, rfl⟩)

/-- Equality of lists of fields with sub-selections. -/
def decEqObjects : (as bs : List ObjectField) → Decidable (as = bs)
  | [], [] => isTrue rfl
  | ⟨fa, sa, xa⟩ :: as, ⟨fb, sb, xb⟩ :: bs =>
      if h : fa = fb ∧ xa = xb then
        match decEq sa sb with
        | isTrue hs =>
            match decEqObjects as bs with
            | isTrue hr => isTrue (by rw [h.1, h.2, hs, hr])
            | isFalse hr => isFalse fun e => hr (by cases e; rfl)
        | isFalse hs => isFalse fun e => hs (by cases e; rfl)
      else isFalse fun e => h (by cases e; exact ⟨rfl, rfl⟩)
  | [], _ :: _ => isFalse nofun
  | _ :: _, [] => isFalse nofun

/-- Equality of lists of inline fragments. -/
def decEqInlines : (as bs : List InlineFragment) → Decidable (as = bs)
  | [], [] => isTrue rfl
  | ⟨ca, da, sa⟩ :: as, ⟨cb, db, sb⟩ :: bs =>
      if h : ca = cb ∧ da = db then
        match decEq sa sb with
        | isTrue hs =>
            match decEqInlines as bs with
            | isTrue hr => isTrue (by rw [h.1, h.2, hs, hr])
            | isFalse hr => isFalse fun e => hr (by cases e; rfl)
        | isFalse hs => isFalse fun e => hs (by cases e; rfl)
      else isFalse fun e => h (by cases e; exact ⟨rfl, rfl⟩)
  | [], _ :: _ => isFalse nofun
  | _ :: _, [] => isFalse nofun

end

instance : DecidableEq SelectionSet := decEq

mutual

/-- A selection set without any location. -/
def strip : SelectionSet → SelectionSet
  | ⟨typeName, kind, traversed, scalars, spreads, objects, inlines⟩ =>
      ⟨typeName, kind, traversed.map SelectedField.strip, scalars.map SelectedField.strip,
        spreads.map Spread.strip, stripObjects objects, stripInlines inlines⟩

/-- Fields with sub-selections, without any location. -/
def stripObjects : List ObjectField → List ObjectField
  | [] => []
  | ⟨field, selectionSet, isAmbiguous⟩ :: rest =>
      ⟨field.strip, strip selectionSet, isAmbiguous⟩ :: stripObjects rest

/-- Inline fragments without any location. -/
def stripInlines : List InlineFragment → List InlineFragment
  | [] => []
  | ⟨condition, directives, selectionSet⟩ :: rest =>
      ⟨condition, directives.map Directive.strip, strip selectionSet⟩ :: stripInlines rest

end

/-- Two selection sets are the same if they differ in locations at most. -/
def Same (a b : SelectionSet) : Prop := a.strip = b.strip

instance (a b : SelectionSet) : Decidable (Same a b) :=
  inferInstanceAs (Decidable (a.strip = b.strip))

end SelectionSet

end QueryCompiler

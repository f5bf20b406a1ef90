import QueryCompiler.Json.Basic
import QueryCompiler.Text.Quoted

/-!
# Decoding JSON values

Reading JSON values as data of a known form, with a message for the first thing that is not as it
should be. A record is an object with the record's keys, or an array of the record's fields in the
order of their declaration.
-/

namespace QueryCompiler

/-- Why a JSON value does not have the wanted form. -/
inductive DecodeError where
  | wrongType (found : String) (expected : String)
  | wrongValue (found : String) (expected : String)
  | missingField (key : String)
  | unknownVariant (text : String) (known : List String)
  | wrongLength (length : Nat) (expected : String)
  /-- A reference to a named type does not give the name. -/
  | missingTypeName
  /-- A list or non-null type does not say of what. -/
  | missingInnerType (kind : String)
  deriving DecidableEq, Repr

namespace DecodeError

/-- The text of a decoding error. -/
def message : DecodeError → String
  | wrongType found expected => "invalid type: " ++ found ++ ", expected " ++ expected
  | wrongValue found expected => "invalid value: " ++ found ++ ", expected " ++ expected
  | missingField key => "missing field `" ++ key ++ "`"
  | unknownVariant text known =>
      "unknown variant `" ++ text ++ "`, expected one of "
        ++ ", ".intercalate (known.map fun word => "`" ++ word ++ "`")
  | wrongLength length expected =>
      "invalid length " ++ toString length ++ ", expected " ++ expected
  | missingTypeName => "missing type name"
  | missingInnerType kind => "invalid \x7bkind: " ++ kind ++ ", ofType: null\x7d"

end DecodeError

namespace Json

/-- How messages speak of a value. -/
def found : Json → String
  | null => "null"
  | bool true => "boolean `true`"
  | bool false => "boolean `false`"
  | int i => "integer `" ++ toString i ++ "`"
  | float x => "floating point `" ++ x.text ++ "`"
  | string s => "string " ++ Text.quoteShown s
  | array _ => "sequence"
  | object _ => "map"

/-- The error for a value of the wrong type. -/
def unexpected {α : Type} (expected : String) (j : Json) : Except DecodeError α :=
  .error (.wrongType j.found expected)

/-- A text. -/
def toText : Json → Except DecodeError String
  | string s => .ok s
  | j => j.unexpected "a string"

/-- A truth value. -/
def toBool : Json → Except DecodeError Bool
  | bool b => .ok b
  | j => j.unexpected "a boolean"

/-- A number of things. -/
def toCount : Json → Except DecodeError Nat
  | int i => if 0 ≤ i then .ok i.toNat else .error (.wrongValue (int i).found "usize")
  | j => j.unexpected "usize"

/-- The items of an array, each decoded. -/
def toItems {α : Type} (decode : Json → Except DecodeError α) : Json → Except DecodeError (List α)
  | array items => items.mapM decode
  | j => j.unexpected "a sequence"

/-- A value that may be null. -/
def toOption {α : Type} (decode : Json → Except DecodeError α) :
    Json → Except DecodeError (Option α)
  | null => .ok none
  | j => (decode j).map some

/-- The items of an array, or none if the value is null. -/
def toOptionalItems {α : Type} (decode : Json → Except DecodeError α) (j : Json) :
    Except DecodeError (List α) :=
  (j.toOption (toItems decode)).map fun items => items.getD []

end Json

/-- Whether a field of a record must be given. -/
inductive Need where
  /-- In an object and in an array. -/
  | always
  /-- In an array only. -/
  | inArray
  /-- Never: the field has a default. -/
  | never
  deriving DecidableEq, Repr

/-- The form of a record: its name in messages, and its fields in the order of declaration. -/
structure Shape where
  name : String
  fields : List (String × Need)

namespace Shape

/-- The fields that a value gives, in the order in which they are read. -/
def members (shape : Shape) : Json → Except DecodeError (List (String × Json))
  | .object members => .ok (members.filter fun m => shape.fields.any fun f => f.1 = m.1)
  | .array items => .ok ((shape.fields.map Prod.fst).zip items)
  | j => j.unexpected ("struct " ++ shape.name)

/-- How messages speak of the number of a record's fields. -/
def expected (shape : Shape) : String :=
  "struct " ++ shape.name ++ " with " ++ toString shape.fields.length
    ++ if shape.fields.length = 1 then " element" else " elements"

/-- The first field that is not given though it must be, and its position. -/
def missing (shape : Shape) : Json → Except DecodeError Unit
  | .object members =>
      match shape.fields.find? fun f => f.2 = .always && (members.lookup f.1).isNone with
      | some f => .error (.missingField f.1)
      | none => .ok ()
  | .array items =>
      match (shape.fields.drop items.length).findIdx? fun f => f.2 ≠ .never with
      | some i => .error (.wrongLength (items.length + i) shape.expected)
      | none =>
          if shape.fields.length < items.length then
            .error (.wrongLength items.length "fewer elements in array")
          else .ok ()
  | _ => .ok ()

/-- Decode a record by putting one field after the other into a blank one. What is missing is looked
for when everything that is given has been read. -/
def read {α : Type} (shape : Shape) (blank : α)
    (put : α → String → Json → Except DecodeError α) (j : Json) : Except DecodeError α := do
  let record ← (← shape.members j).foldlM (fun record m => put record m.1 m.2) blank
  shape.missing j
  return record

end Shape

end QueryCompiler

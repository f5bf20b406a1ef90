import QueryCompiler.Json.Writer
import QueryCompiler.OrderedMap
import QueryCompiler.Violation

/-!
# Constants

A value without variables, in the shape in which it is sent with a request. Enum values have become
strings and number literals numbers, and an object has each name once.
-/

namespace QueryCompiler

/-- A value that is ready to be sent. -/
inductive Constant where
  | null
  | bool (value : Bool)
  | int (value : Int)
  | float (value : Binary64)
  | string (text : String)
  | list (items : List Constant)
  | map (entries : List (Name × Constant))

namespace Constant

/-- The first whole number beyond those of 64 bits with a sign. -/
def intBound : Int := 0x8000000000000000

/-- Whole numbers are kept exactly within 64 bits. -/
def readInt64? (literal : String) : Option Int :=
  (Decimal.readInt? literal.toList).filter fun i => -intBound ≤ i && i < intBound

/-- The number of a float literal, which must be finite. -/
def ofFloat (location : Option Location) (literal : String) : Except Finding Constant :=
  match Binary64.readFinite? literal with
  | some x => .ok (float x)
  | none => .error ⟨location, none, .invalidNumber literal⟩

/-- The constant of an atomic value. -/
def ofAtom (location : Option Location) : Atom → Except Finding Constant
  | .null => .ok null
  | .enum name => .ok (string name)
  | .var name => .error ⟨location, none, .variableInConstValue name⟩
  | .string text => .ok (string text)
  | .bool value => .ok (bool value)
  | .int literal =>
      match readInt64? literal with
      | some i => .ok (int i)
      | none => ofFloat location literal
  | .float literal => ofFloat location literal

mutual

/-- The constant of a value. The first part that has none, from left to right, is reported. A name
that is given again keeps its first place in an object and has its last value. -/
def ofValue : Value → Except Finding Constant
  | .atom location content => ofAtom location content
  | .list _ items => do return list (← ofItems items)
  | .object _ fields => do return map (OrderedMap.ofList (← ofFields fields)).entries

/-- The constants of list items. -/
def ofItems : List Value → Except Finding (List Constant)
  | [] => .ok []
  | item :: rest => do return (← ofValue item) :: (← ofItems rest)

/-- The constants of object fields, repeated names included. -/
def ofFields : List (Name × Value) → Except Finding (List (Name × Constant))
  | [] => .ok []
  | (name, value) :: rest => do return (name, ← ofValue value) :: (← ofFields rest)

end

mutual

/-- The JSON value of a constant. A number that is not finite becomes `null`. -/
def toJson : Constant → Json
  | null => .null
  | bool b => .bool b
  | int i => .int i
  | float x => if x.isFinite then .float x else .null
  | string s => .string s
  | list items => .array (toJsonItems items)
  | map entries => .object (toJsonEntries entries)

/-- The JSON values of items. -/
def toJsonItems : List Constant → List Json
  | [] => []
  | item :: rest => item.toJson :: toJsonItems rest

/-- The JSON members of entries. -/
def toJsonEntries : List (Name × Constant) → List (String × Json)
  | [] => []
  | (name, value) :: rest => (name, value.toJson) :: toJsonEntries rest

end

mutual

/-- The JSON text of a constant, written without building the JSON value. -/
def write : Constant → String
  | null => "null"
  | bool b => Json.writeBool b
  | int i => toString i
  | float x => Json.writeFloat x
  | string s => Text.quoteJson s
  | list items => "[" ++ writeItems items ++ "]"
  | map entries => "\x7b" ++ writeEntries entries ++ "\x7d"

/-- The texts of items, with commas between them. -/
def writeItems : List Constant → String
  | [] => ""
  | [item] => item.write
  | item :: rest => item.write ++ "," ++ writeItems rest

/-- The texts of entries, with commas between them. -/
def writeEntries : List (Name × Constant) → String
  | [] => ""
  | [(name, value)] => Text.quoteJson name ++ ":" ++ value.write
  | (name, value) :: rest =>
      Text.quoteJson name ++ ":" ++ value.write ++ "," ++ writeEntries rest

end

end Constant

end QueryCompiler

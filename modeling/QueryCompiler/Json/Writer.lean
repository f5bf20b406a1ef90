import QueryCompiler.Json.Basic
import QueryCompiler.Text.Quoted

/-!
# Writing JSON

The text of a JSON value without blanks, members in the order in which the object lists them.
-/

namespace QueryCompiler.Json

/-- The text of a number; one that is not finite has no numeral and is written as `null`. -/
def writeFloat (x : Binary64) : String := if x.isFinite then x.text else "null"

/-- The text of a truth value. -/
def writeBool (b : Bool) : String := if b then "true" else "false"

mutual

/-- The text of a value. -/
def write : Json → String
  | null => "null"
  | bool b => writeBool b
  | int i => toString i
  | float x => writeFloat x
  | string s => Text.quoteJson s
  | array items => "[" ++ writeItems items ++ "]"
  | object members => "\x7b" ++ writeMembers members ++ "\x7d"

/-- The texts of items, with commas between them. -/
def writeItems : List Json → String
  | [] => ""
  | [item] => item.write
  | item :: rest => item.write ++ "," ++ writeItems rest

/-- The texts of members, with commas between them. -/
def writeMembers : List (String × Json) → String
  | [] => ""
  | [(key, value)] => Text.quoteJson key ++ ":" ++ value.write
  | (key, value) :: rest =>
      Text.quoteJson key ++ ":" ++ value.write ++ "," ++ writeMembers rest

end

end QueryCompiler.Json

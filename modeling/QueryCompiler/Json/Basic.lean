import QueryCompiler.Binary64.Text

/-!
# JSON values

A JSON value, with whole numbers kept apart from the others. An object lists its members in order;
the reader puts them in the order of their keys, while a value that is built to be written keeps
the order it was built in.
-/

namespace QueryCompiler

/-- A JSON value. -/
inductive Json where
  | null
  | bool (value : Bool)
  | int (value : Int)
  | float (value : Binary64)
  | string (text : String)
  | array (items : List Json)
  | object (members : List (String × Json))
  deriving Inhabited

namespace Json

/-- The member of an object under a key. -/
def get? (key : String) : Json → Option Json
  | object members => members.lookup key
  | _ => none

end Json

end QueryCompiler

import QueryCompiler.Document.Parser
import QueryCompiler.Json.Decode

/-!
# Configuration

The settings that belong to one schema.
-/

namespace QueryCompiler

/-- The settings for one schema. -/
structure Configuration where
  /-- The namespace of the generated schema, in which its custom scalars are found. -/
  outputSchemaName : Name
  recursionLimit : Option Nat
  tokenLimit : Option Nat
  deriving DecidableEq, Repr

namespace Configuration

/-- The settings that hold where nothing else is said. -/
def standard : Configuration := ⟨"GraphQLSchema", none, none⟩

/-- The limits for parsing documents. -/
def limits (c : Configuration) : ParseLimits :=
  ⟨c.recursionLimit.getD ParseLimits.standard.depth, c.tokenLimit⟩

/-- The form of a configuration in JSON. -/
def shape : Shape :=
  ⟨"SchemaConfiguration",
    [("outputSchemaName", .never), ("recursionLimit", .never), ("tokenLimit", .never)]⟩

/-- Read a configuration from JSON; what is not given has its standard value. -/
def ofJson (j : Json) : Except DecodeError Configuration :=
  shape.read standard
    (fun c key v => do
      match key with
      | "outputSchemaName" => return { c with outputSchemaName := ← v.toText }
      | "recursionLimit" => return { c with recursionLimit := ← v.toOption Json.toCount }
      | "tokenLimit" => return { c with tokenLimit := ← v.toOption Json.toCount }
      | _ => return c)
    j

end Configuration

end QueryCompiler

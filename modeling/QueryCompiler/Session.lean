import QueryCompiler.Registry
import QueryCompiler.Schema.Build
import QueryCompiler.SelectionSet.Sorted

/-!
# Sessions

A session is a configuration, the catalog of a schema, a registry of documents and what was compiled
last. A step that fails leaves the session as it was, except that the texts of documents are kept.
-/

namespace QueryCompiler

/-- The state of a session. -/
structure Session where
  configuration : Configuration
  catalog : Option Catalog
  registry : Registry
  compiled : Option Compiled

namespace Session

/-- A session at its beginning. -/
def start : Session := ⟨.standard, none, .empty, none⟩

/-- Set the configuration. A catalog that is there already stays. -/
def configure (s : Session) (c : Configuration) : Session := { s with configuration := c }

/-- Build the catalog of a schema. -/
def loadSchema (s : Session) (text : String) : Session × Except Failure Catalog :=
  match Catalog.ofText s.configuration text with
  | .ok catalog => ({ s with catalog := some catalog }, .ok catalog)
  | .error failure => (s, .error failure)

/-- Read a text and add its definitions. -/
def addSource (s : Session) (source : Source) : Session × Except Failure ReadDocument :=
  let (registry, result) := s.registry.addSource s.configuration.limits source
  ({ s with registry := registry }, result)

/-- Add definitions that were not read from a text. -/
def addDefinitions (s : Session) (definitions : List Definition) :
    Session × Except Failure Unit :=
  let (registry, result) := s.registry.addDocument ⟨[], definitions⟩
  ({ s with registry := registry }, result)

/-- Drop all documents and what was compiled from them. -/
def clear (s : Session) : Session := { s with registry := .empty, compiled := none }

/-- Compile the documents against the catalog, if there is one. -/
def compile (s : Session) : Session × Option (Except Failure Compiled) :=
  match s.catalog with
  | none => (s, none)
  | some catalog =>
      match s.registry.compile catalog with
      | .ok compiled => ({ s with compiled := some compiled }, some (.ok compiled))
      | .error failure => (s, some (.error failure))

end Session

end QueryCompiler

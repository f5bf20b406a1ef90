import QueryCompiler.Compiled
import QueryCompiler.Document.Read

/-!
# Registries

A registry collects the operations and fragments of any number of documents. Names are unique
across all of them, those of operations apart from those of fragments. A document is added as a
whole or not at all; its text is kept in either case, so that messages can point into it.
-/

namespace QueryCompiler

/-- Operations and fragments by name, and the texts they were read from. -/
structure Registry where
  sources : OrderedMap FileId Source
  operations : OrderedMap Name Operation
  fragments : OrderedMap Name Fragment

namespace Registry

/-- A registry without documents. -/
def empty : Registry := ⟨.empty, .empty, .empty⟩

/-- Keep further sources. -/
def keep (r : Registry) (sources : List (FileId × Source)) : Registry :=
  { r with sources := r.sources.insertAll sources }

/-- Add a definition to a registry. -/
def addDefinition (r : Registry) : Definition → Except Finding Registry
  | .operation o =>
      match o.name with
      | none => .error ⟨o.location, none, .anonymousOperation o.kind⟩
      | some name =>
          if r.operations.contains name then
            .error ⟨o.location, none, .operationNameCollision name⟩
          else .ok { r with operations := r.operations.insert name o }
  | .fragment f =>
      if r.fragments.contains f.name then
        .error ⟨f.location, none, .fragmentNameCollision f.name⟩
      else .ok { r with fragments := r.fragments.insert f.name f }
  | .typeSystem location description =>
      .error ⟨location, none, .typeSystemDefinition description⟩

/-- Add all definitions of a document, or none of them if one cannot be added. The sources of the
document are kept in either case. -/
def addDocument (r : Registry) (d : Document) : Registry × Except Failure Unit :=
  let kept := r.keep d.sources
  match d.definitions.foldlM addDefinition kept with
  | .ok added => (added, .ok ())
  | .error finding => (kept, .error (.validation finding))

/-- The number under which the next text is kept. -/
def nextFile (r : Registry) : FileId := r.sources.size

/-- Read a text and add its definitions. The text is kept even if it cannot be parsed. -/
def addSource (r : Registry) (limits : ParseLimits) (source : Source) :
    Registry × Except Failure ReadDocument :=
  match Document.read limits r.nextFile source with
  | .ok read =>
      let (added, result) := r.addDocument read.document
      (added, result.map fun _ => read)
  | .error failure => (r.keep [(r.nextFile, source)], .error failure)

/-- Compile all operations, then all fragments, in the order in which they were added. The first
failure ends the work. -/
def compile (r : Registry) (catalog : Catalog) : Except Failure Compiled := do
  let operations ← r.operations.entries.mapM fun (name, operation) =>
    return (name, ← operation.compile catalog r.fragments)
  let fragments ← r.fragments.entries.mapM fun (name, fragment) =>
    return (name, ← fragment.compile catalog r.fragments)
  let needed := operations.map (fun entry => entry.2.dependencies)
    ++ fragments.map (fun entry => entry.2.dependencies)
  return {
    catalog := catalog
    sources := r.sources
    operations := .ofList operations
    fragments := .ofList fragments
    dependencies := needed.foldl Dependencies.extend .empty }

end Registry

end QueryCompiler

import QueryCompiler.Failure
import QueryCompiler.OrderedMap
import QueryCompiler.Text.Line

/-!
# Reports

What is told about a failure: a header, and, if it was found in a kept source, the place, a label
for the place and how to mend it.
-/

namespace QueryCompiler

/-- A place in a source; lines and columns count from one. -/
structure Place where
  path : String
  line : Nat
  column : Nat
  deriving DecidableEq, Repr

namespace Place

/-- The text of a place. -/
def text (p : Place) : String :=
  p.path ++ ":" ++ toString p.line ++ ":" ++ toString p.column

/-- The place at which a location begins. -/
def ofLocation? (sources : OrderedMap FileId Source) (location : Location) : Option Place :=
  (sources.get? location.file).bind fun source =>
    (Text.lineColumn? source.text location.start).map fun (line, column) =>
      ⟨source.path, line + 1, column + 1⟩

end Place

/-- What is told about a failure. -/
structure Report where
  header : String
  place : Option Place
  label : Option String
  help : Option String
  deriving DecidableEq, Repr

namespace Report

/-- The first line of a report. -/
def headerOf (message : String) : String := "Error: " ++ message

/-- The report of a finding. -/
def ofFinding (sources : OrderedMap FileId Source) (f : Finding) : Report :=
  let header := headerOf f.message
  match f.location.bind (Place.ofLocation? sources) with
  | some place => ⟨header, some place, some f.violation.label, f.violation.help⟩
  | none => ⟨header, none, none, none⟩

/-- The report of an inconsistency. -/
def ofInconsistency (i : Inconsistency) : Report := ⟨headerOf i.message, none, none, none⟩

end Report

end QueryCompiler
